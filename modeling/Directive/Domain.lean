import Directive.Modifier.Setting

/-!
# Domains

The settings that a modifier accepts.

* `Domain.refusal?`: why a setting is not accepted, or nothing;
* `Domain.describe`: the accepted settings in words.

A range includes its bounds. A single value counts as a list of one item. Choices and weight keys
are sets, shown in the order of their characters.
-/

namespace Directive

inductive Domain
  | freeText
  | choice (choices : List String)
  | range (minimum maximum : Binary64)
  | listOf (item : Domain)
  | weights (keys : List String)
  /-- A domain from outside this library, with its own check, which gives the reason against a
  setting, and its own description. It has no data form. -/
  | custom (name : String) (check : Setting → Option String) (description : String)

inductive Refusal
  | notSingle (shown : String)
  | notChoice (text : String)
  | notNumberShaped (shown : String)
  | notNumber (text : String)
  | notFinite (text : String)
  | outOfRange (text : String)
  | notList (shown : String)
  | notPairs (shown : String)
  | notKey (key : String)
  | item (reason : Refusal)
  | said (reason : String)
deriving DecidableEq

namespace Refusal

def text : Refusal → String
  | .notSingle s => "expected a single value, got '" ++ s ++ "'"
  | .notChoice t => "'" ++ t ++ "' is not an allowed choice"
  | .notNumberShaped s => "expected a number, got '" ++ s ++ "'"
  | .notNumber t => "'" ++ t ++ "' is not a number"
  | .notFinite t => "'" ++ t ++ "' is not a finite number"
  | .outOfRange t => t ++ " is out of range"
  | .notList s => "expected a list, got weighted pairs '" ++ s ++ "'"
  | .notPairs s => "expected key:weight pairs, got '" ++ s ++ "'"
  | .notKey k => "'" ++ k ++ "' is not an allowed weight key"
  | .item r => "item " ++ r.text
  | .said reason => reason

/-- The reason why an item is refused; one that opens with the quoted item says that it is one. -/
def ofItem (r : Refusal) : Refusal := if r.text.toList.head? = some '\'' then .item r else r

end Refusal

/-- The names in the order of their characters, each once. -/
def sortedSet (names : List String) : List String :=
  (names.mergeSort (fun a b => decide (a ≤ b))).eraseDups

namespace Domain

def rangeRefusal? (minimum maximum : Binary64) : Setting → Option Refusal
  | .single t =>
    match Binary64.ofText? t with
    | none => some (.notNumber t)
    | some x =>
      if !x.isFinite then some (.notFinite t)
      else if minimum.le x && x.le maximum then none
      else some (.outOfRange t)
  | s => some (.notNumberShaped s.text)

def refusal? : Domain → Setting → Option Refusal
  | .freeText, _ => none
  | .custom _ check _, s => (check s).map .said
  | .choice choices, .single t => if t ∈ choices then none else some (.notChoice t)
  | .choice _, s => some (.notSingle s.text)
  | .range minimum maximum, s => rangeRefusal? minimum maximum s
  | .listOf item, .single t => (item.refusal? (.single t)).map .ofItem
  | .listOf item, .list ts => (ts.findSome? fun t => item.refusal? (.single t)).map .ofItem
  | .listOf _, s => some (.notList s.text)
  | .weights keys, .weighted pairs =>
    (pairs.find? fun p => p.1 ∉ keys).map fun p => .notKey p.1
  | .weights _, s => some (.notPairs s.text)

def accepts (d : Domain) (s : Setting) : Bool := (d.refusal? s).isNone

def describe : Domain → String
  | .freeText => "free text"
  | .custom _ _ description => description
  | .choice choices => "one of: " ++ ", ".intercalate (sortedSet choices)
  | .range minimum maximum => "number between " ++ minimum.brief ++ " and " ++ maximum.brief
  | .listOf item => "comma-separated list of (" ++ item.describe ++ ")"
  | .weights keys => "key:weight pairs with keys from: " ++ ", ".intercalate (sortedSet keys)

end Domain

end Directive
