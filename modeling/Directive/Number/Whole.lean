import Directive.Number.Decimal

/-!
# Reading whole numbers

The plain form is an optional minus and digits without a needless zero in front.

* `Whole.ofPlain`: the plain form alone;
* `Whole.plainer?`: a text with less around its digits, if there is anything to take away;
* `Whole.ofField`: a number given as a text in data, which is made plainer until it is plain.

A number with too many digits is refused before anything is taken away from it.
-/

namespace Directive.Whole

/-- How many digits a whole number in data may have. -/
def digitLimit : Nat := 4300

inductive Problem
  | tooLarge
  | unreadable
deriving DecidableEq

/-- Digits, of which the first is a zero only if it is the last as well. -/
def isPlain (ds : List Char) : Bool :=
  ds.all Char.isDigit && !ds.isEmpty && (ds.length == 1 || ds.head? != some '0')

def signedNumber (negative : Bool) (ds : List Char) : Int :=
  let n : Int := Binary64.digitNumber ds
  if negative then -n else n

/-- The number that a plain text is. The digits at its start count against the limit whatever
follows them. -/
def ofPlain (cs : List Char) : Except Problem Int :=
  let negative := cs.head? = some '-'
  let body := if negative then cs.drop 1 else cs
  let ds := body.takeWhile Char.isDigit
  if digitLimit < ds.length ∧ ds.head? ≠ some '0' then .error .tooLarge
  else if isPlain body then .ok (signedNumber negative body)
  else .error .unreadable

def startsNumber (c : Char) : Bool := c.isDigit || c == '-'

/-- What follows a zero, from the first digit on that is needed or from a minus on. Underscores may
stand between the zeros; `last` is the character before. -/
def afterZero? (last : Char) : List Char → Option (List Char)
  | [] => some [last]
  | c :: cs =>
    if c = '0' ∨ c = '_' then afterZero? c cs
    else if c = '.' then some (last :: c :: cs)
    else if startsNumber c then some (c :: cs)
    else none

/-- The text without needless zeros in front, if it starts like a number. -/
def dropZeros? : List Char → Option (List Char)
  | [] => none
  | c :: cs =>
    if c = '0' then afterZero? c cs
    else if startsNumber c then some (c :: cs)
    else none

/-- The text without a plus that no other sign follows. -/
def dropPlus? : List Char → Option (List Char)
  | '+' :: cs => if cs.head? = some '-' then none else some cs
  | cs => some cs

/-- The text without its fraction, if that is a point and at least one zero. -/
def dropFraction (cs : List Char) : List Char :=
  match cs.dropWhile (· != '.') with
  | _ :: zero :: zeros => if (zero :: zeros).all (· == '0') then cs.takeWhile (· != '.') else cs
  | _ => cs

def dropUnderscores (cs : List Char) : List Char :=
  if Binary64.looseUnderscores cs then cs.filter (· != '_') else cs

def plainer? (cs : List Char) : Option (List Char) := do
  let cs ← dropPlus? (Binary64.trimBy Binary64.isFieldBlank cs)
  let cs ← dropZeros? cs
  return dropUnderscores (dropFraction cs)

def ofChars (cs : List Char) : Except Problem Int :=
  match ofPlain cs with
  | .ok i => .ok i
  | .error .tooLarge => .error .tooLarge
  | .error .unreadable =>
    match plainer? cs with
    | none => .error .unreadable
    | some ds => if ds.length < cs.length then ofChars ds else .error .unreadable
termination_by cs.length

def ofField (s : String) : Except Problem Int := ofChars s.toList

end Directive.Whole
