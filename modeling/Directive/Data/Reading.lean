import Directive.Data.Violation
import Directive.Number.Basic
import Directive.Number.Decimal
import Directive.Number.Whole
import Directive.Table

/-!
# Reading data

Readers of single values and of objects. A reader of a compound value reports the violations of all
its parts, in their order.

* `Reading.both`: two readings side by side;
* `readEach`: the items of a list, or the fields of an object;
* `field`, `noOthers`: the parts of an object with known fields.

A flag may be given as 0, 1 or a word, and a number as a text. Where an object has known fields, the
last of repeated fields counts; where its fields are the entries of a table, each of them is read.
-/

namespace Directive

abbrev Reading (α : Type) := Except (List Violation) α

namespace Reading

def fail {α : Type} (d : Defect) : Reading α := .error [⟨[], d⟩]

def map {α β : Type} (f : α → β) : Reading α → Reading β
  | .ok a => .ok (f a)
  | .error vs => .error vs

def under {α : Type} (s : PathStep) : Reading α → Reading α
  | .ok a => .ok a
  | .error vs => .error (vs.map (·.under s))

def both {α β : Type} : Reading α → Reading β → Reading (α × β)
  | .ok a, .ok b => .ok (a, b)
  | .error vs, .ok _ => .error vs
  | .ok _, .error ws => .error ws
  | .error vs, .error ws => .error (vs ++ ws)

end Reading

def readText : Json → Reading String
  | .str s => .ok s
  | _ => .fail .notText

def readOptionalText : Json → Reading (Option String)
  | .null => .ok none
  | j => (readText j).map some

def readLongText (least : Nat) (j : Json) : Reading String := do
  let s ← readText j
  if s.length < least then .fail (.textTooShort least) else .ok s

def flagWords : List (String × Bool) :=
  [("0", false), ("off", false), ("f", false), ("false", false), ("n", false), ("no", false),
   ("1", true), ("on", true), ("t", true), ("true", true), ("y", true), ("yes", true)]

def readFlagNumber : Int → Reading Bool
  | 0 => .ok false
  | 1 => .ok true
  | _ => .fail .unreadableFlag

/-- Whether a number fits a word of 64 bits. -/
def isWord (i : Int) : Bool := -(Nat.pow 2 63 : Int) ≤ i && i < (Nat.pow 2 63 : Int)

/-- Whether a number that was written with a point is small enough to count as a whole number. -/
def isSmallWhole (i : Int) : Bool := i.natAbs < Nat.pow 2 63

def readFlag : Json → Reading Bool
  | .bool b => .ok b
  | .int i => if isWord i then readFlagNumber i else .fail .notFlag
  | .float x =>
    match x.toInt? with
    | some i => if isSmallWhole i then readFlagNumber i else .fail .notFlag
    | none => .fail .notFlag
  | .str s =>
    match flagWords.lookup (s.map Char.toLower) with
    | some b => .ok b
    | none => .fail .unreadableFlag
  | _ => .fail .notFlag

/-- A number. A whole number beyond all finite ones counts as infinite in a document only. -/
def readNumber (origin : Origin) : Json → Reading Binary64
  | .bool b => .ok (Binary64.ofInt (if b then 1 else 0))
  | .int i =>
    match origin, Binary64.ofWhole? i with
    | .document, _ => .ok (Binary64.ofInt i)
    | .memory, some x => .ok x
    | .memory, none => .fail .notNumber
  | .float x => .ok x
  | .str s =>
    match Binary64.ofField? s with
    | some x => .ok x
    | none => .fail .unreadableNumber
  | _ => .fail .notNumber

def readWhole : Json → Reading Int
  | .bool b => .ok (if b then 1 else 0)
  | .int i => .ok i
  | .float x =>
    if !x.isFinite then .fail .notFinite
    else match x.toInt? with
      | some i => if isSmallWhole i then .ok i else .fail .wholeTooLarge
      | none => .fail .fractional
  | .str s =>
    match Whole.ofField s with
    | .ok i => .ok i
    | .error .tooLarge => .fail .wholeTooLarge
    | .error .unreadable => .fail .unreadableWhole
  | _ => .fail .notWhole

/-- A value from a list of named ones. -/
def readOneOf {α : Type} (choices : List (String × α)) : Json → Reading α
  | .str s =>
    match choices.lookup s with
    | some a => .ok a
    | none => .fail (.notOneOf (choices.map Prod.fst))
  | _ => .fail (.notOneOf (choices.map Prod.fst))

def readEach {α β : Type} (step : α → PathStep) (read : α → Reading β) : List α → Reading (List β)
  | [] => .ok []
  | a :: as => (((read a).under (step a)).both (readEach step read as)).map fun p => p.1 :: p.2

def readTexts (origin : Origin) (least : Nat) : Json → Reading (List String)
  | .arr items => do
    let texts ← readEach (fun (p : Json × Nat) => .index p.2) (fun p => readText p.1) items.zipIdx
    if texts.length < least then .fail (.listTooShort least texts.length) else .ok texts
  | _ => .fail (.notList origin)

/-- The value of a field. Of repeated fields the last one counts. -/
def lastValue? (fields : List (String × Json)) (name : String) : Option Json :=
  fields.reverse.lookup name

/-- A field that must be there, or has a default. -/
def field {α : Type} (fields : List (String × Json)) (name : String) (absent : Option α)
    (read : Json → Reading α) : Reading α :=
  match lastValue? fields name, absent with
  | some j, _ => (read j).under (.field name)
  | none, some a => .ok a
  | none, none => (Reading.fail .missing).under (.field name)

/-- No fields but the known ones. Each other name is reported once. -/
def noOthers (fields : List (String × Json)) (known : List String) : Reading Unit :=
  match (Table.ofList (fields.filter (·.1 ∉ known))).keys with
  | [] => .ok ()
  | others => .error (others.map fun name => ⟨[.field name], .unexpected⟩)

end Directive
