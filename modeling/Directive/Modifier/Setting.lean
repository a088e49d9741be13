import Directive.Number.Decimal
import Directive.Number.Text
import Directive.Text.Blank

/-!
# Settings

What a modifier is set to.

* `Setting.ofText`: a text is a weighted list if it has items and each of them is `key:number`,
  else a list if it has a comma, else a single value;
* `Setting.text`: the written form, weights with six digits.

Items are trimmed and empty ones are left out. Weights are finite and need not sum to one.
-/

namespace Directive

inductive Setting
  | single (text : String)
  | list (items : List String)
  | weighted (pairs : List (String × Binary64))
deriving DecidableEq

namespace Setting

/-- The parts before and after the last colon. -/
def cutLastColon? (cs : List Char) : Option (List Char × List Char) :=
  let tail := cs.reverse.takeWhile (· != ':')
  match cs.reverse.dropWhile (· != ':') with
  | _ :: front => some (front.reverse, tail.reverse)
  | [] => none

def pair? (item : List Char) : Option (String × Binary64) :=
  match cutLastColon? item with
  | none => none
  | some (key, weight) =>
    let key := Text.trimChars key
    if key.isEmpty then none
    else match Binary64.ofChars? (Text.trimChars weight) with
      | some w => if w.isFinite then some (String.ofList key, w) else none
      | none => none

/-- The items between commas, trimmed, without the empty ones. -/
def itemsOf (raw : List Char) : List (List Char) :=
  ((Text.split (· == ',') raw).map Text.trimChars).filter (!·.isEmpty)

/-- All pairs, if there are items and each is a pair. -/
def pairs? (items : List (List Char)) : Option (List (String × Binary64)) :=
  if items.isEmpty then none else items.mapM pair?

def ofChars (raw : List Char) : Setting :=
  let items := itemsOf raw
  match pairs? items with
  | some pairs => .weighted pairs
  | none =>
    if raw.contains ',' then .list (items.map String.ofList)
    else .single (String.ofList (Text.trimChars raw))

def ofText (raw : String) : Setting := ofChars raw.toList

def text : Setting → String
  | .single t => t
  | .list items => ",".intercalate items
  | .weighted pairs => ",".intercalate (pairs.map fun p => p.1 ++ ":" ++ p.2.brief)

def keys : Setting → List String
  | .weighted pairs => pairs.map Prod.fst
  | _ => []

/-- The sum of the weights from the first on; nothing for no weights. -/
def totalWeight? : List (String × Binary64) → Option Binary64
  | [] => none
  | p :: ps => some (ps.foldl (fun sum q => sum.add q.2) (Binary64.zero.add p.2))

end Setting

end Directive
