import Directive.Data.Reading
import Directive.Grammar.Basic
import Directive.Json.Reader
import Directive.Modifier.Key

/-!
# Grammars as data

The data form of a grammar is an object from command names to commands; a command is an object of
which each field has a default, and a domain is an object whose field `kind` says which one it is.

* `Grammar.ofData`, `Grammar.ofDocument`: reading, with every violation reported;
* `Grammar.toData`: the data form of a grammar, however it was built;
* `Grammar.extend`: a grammar with commands added or replaced.

Modifier keys are made canonical on the way in and on the way out.
-/

namespace Directive

def tagField : String := "kind"

def domainTags : List String := ["free_text", "enum", "range", "list", "weighted"]

def rangeRule (minimum maximum : Binary64) : Defect :=
  .rule ("range minimum " ++ minimum.text ++ " exceeds maximum " ++ maximum.text)

def readRange (origin : Origin) (fields : List (String × Json)) : Reading Domain := do
  let ((minimum, maximum), _) ←
    ((field fields "min" none (readNumber origin)).both
      (field fields "max" none (readNumber origin))).both
      (noOthers fields [tagField, "min", "max"])
  if maximum.lt minimum then .fail (rangeRule minimum maximum) else .ok (.range minimum maximum)

def readNames (origin : Origin) (fields : List (String × Json)) (name : String) :
    Reading (List String) := do
  let (names, _) ← (field fields name none (readTexts origin 1)).both
    (noOthers fields [tagField, name])
  return sortedSet names

mutual

def readDomain (origin : Origin) : Json → Reading Domain
  | .obj fields =>
    match lastValue? fields tagField with
    | none => .fail (.noTag tagField)
    | some (.str "free_text") =>
      (Reading.under (.field "free_text") (noOthers fields [tagField])).map fun _ => .freeText
    | some (.str "enum") => ((readNames origin fields "choices").under (.field "enum")).map .choice
    | some (.str "range") => (readRange origin fields).under (.field "range")
    | some (.str "list") =>
      let item := (readItem origin fields).getD ((Reading.fail .missing).under (.field "item"))
      ((item.both (noOthers fields [tagField, "item"])).under (.field "list")).map fun p =>
        .listOf p.1
    | some (.str "weighted") =>
      ((readNames origin fields "keys").under (.field "weighted")).map .weights
    | some tag => .fail (.unknownTag tagField tag.settled.message domainTags)
  | _ =>
    match origin with
    | .memory => .fail .notFields
    | .document => .fail (.notTable origin)

/-- The domain in the last field `item`, if there is such a field. -/
def readItem (origin : Origin) : List (String × Json) → Option (Reading Domain)
  | [] => none
  | (name, j) :: fields =>
    match readItem origin fields with
    | some r => some r
    | none =>
      if name = "item" then some ((readDomain origin j).under (.field "item")) else none

end

def keyRule (key : String) : Defect := .rule ("Invalid modifier key: " ++ key)

/-- The domains under their canonical keys; all keys must become key names. -/
def canonicalDomains (domains : List (String × Domain)) : Reading (Table Domain) :=
  match domains.find? fun d => !isKeyName (canonicalKey d.1) with
  | some d => .fail (keyRule d.1)
  | none => .ok (Table.ofList (domains.map fun d => (canonicalKey d.1, d.2)))

def readModifiers (origin : Origin) : Json → Reading (Table Domain)
  | .obj fields => do
    let domains ← readEach (fun f => .field f.1)
      (fun f => (readDomain origin f.2).map (f.1, ·)) fields
    canonicalDomains (Table.ofList domains).entries
  | _ => .fail (.notTable origin)

def readSchema (origin : Origin) (name : String) : Json → Reading Schema
  | .obj fields => do
    let ((requiresInput, slotLabel), (description, modifiers), _) ←
      ((field fields "requires_input" (some true) readFlag).both
        (field fields "slot_label" (some none) readOptionalText)).both
      (((field fields "description" (some "") readText).both
        (field fields "modifiers" (some .empty) (readModifiers origin))).both
      (noOthers fields ["requires_input", "slot_label", "description", "modifiers"]))
    return { name, requiresInput, modifiers, slotLabel, description }
  | _ => .fail (.notForm origin "CommandSpec")

def nameRule (name : String) : Defect :=
  .rule ("Invalid command name: " ++ name ++ ". Command names are uppercase identifiers")

def readGrammar (origin : Origin) : Json → Reading Grammar
  | .obj fields => do
    let schemas ← readEach (fun f => .field f.1) (fun f => readSchema origin f.1 f.2) fields
    match schemas.find? fun s => !isCommandName s.name with
    | some s => .fail (nameRule s.name)
    | none => .ok (.ofSchemas schemas)
  | _ => .fail (.notTable origin)

namespace Grammar

def form : String := "GrammarSpec"

def ofReading : Reading Grammar → Except Malformed Grammar
  | .ok g => .ok g
  | .error vs => .error ⟨form, vs⟩

def ofData (data : Json) : Except Malformed Grammar := ofReading (readGrammar .memory data)

def ofDocument (text : String) : Except Malformed Grammar :=
  match Json.readDocument? text with
  | some data => ofReading (readGrammar .document data)
  | none => .error ⟨form, [⟨[], .notDocument⟩]⟩

def extend (g : Grammar) (data : Json) : Except Malformed Grammar := (ofData data).map g.merge

end Grammar

/-- Why something has no data form. -/
inductive DumpFailure
  | noDataForm (name : String)
  | malformed (m : Malformed)

namespace DumpFailure

/-- The message for a domain from outside this library. -/
def noDataFormMessage (name : String) : String := "No data form for value domain " ++ name

end DumpFailure

def tagged (tag : String) (fields : List (String × Json)) : Json :=
  .obj ((tagField, .str tag) :: fields)

def namesData (form tag name : String) (names : List String) : Except DumpFailure Json :=
  if names.isEmpty then .error (.malformed ⟨form, [⟨[.field name], .listTooShort 1 0⟩]⟩)
  else .ok (tagged tag [(name, .arr ((sortedSet names).map .str))])

def Domain.toData : Domain → Except DumpFailure Json
  | .freeText => .ok (tagged "free_text" [])
  | .choice choices => namesData "EnumSpec" "enum" "choices" choices
  | .range minimum maximum =>
    if maximum.lt minimum then
      .error (.malformed ⟨"RangeSpec", [⟨[], rangeRule minimum maximum⟩]⟩)
    else .ok (tagged "range" [("min", .float minimum), ("max", .float maximum)])
  | .listOf item => item.toData.map fun j => tagged "list" [("item", j)]
  | .weights keys => namesData "WeightedSpec" "weighted" "keys" keys
  | .custom name _ _ => .error (.noDataForm name)

def Schema.toData (s : Schema) : Except DumpFailure Json := do
  let domains ← s.modifiers.entries.mapM fun e => e.2.toData.map (e.1, ·)
  match domains.find? fun d => !isKeyName (canonicalKey d.1) with
  | some d => .error (.malformed ⟨"CommandSpec", [⟨[.field "modifiers"], keyRule d.1⟩]⟩)
  | none =>
    let label := match s.slotLabel with
      | some l => Json.str l
      | none => .null
    return .obj
      [("requires_input", .bool s.requiresInput), ("slot_label", label),
       ("description", .str s.description),
       ("modifiers", .obj (Table.ofList (domains.map fun d => (canonicalKey d.1, d.2))).entries)]

def Grammar.toData (g : Grammar) : Except DumpFailure Json := do
  let commands ← g.schemas.entries.mapM fun e => e.2.toData.map (e.1, ·)
  return .obj commands

end Directive
