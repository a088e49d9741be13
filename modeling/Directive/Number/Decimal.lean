import Directive.Number.Binary64
import Directive.Text.Blank
import Directive.Text.Digit

/-!
# Reading decimal numbers

The common form is an optional sign, then digits with an optional point and an optional exponent,
or `inf`, `infinity` or `nan` in any case.

* `ofPlain?`: the common form alone;
* `ofText?`: with blanks around it, digits of any writing system, and single underscores between
  digits;
* `ofField?`: the narrower form that a number given as a text in data may have.
-/

namespace Directive.Binary64

def digitNumber (cs : List Char) : Nat := cs.foldl (fun n c => n * 10 + (c.toNat - '0'.toNat)) 0

/-- A sign, if there is one, and the rest. -/
def signed : List Char → Bool × List Char
  | '-' :: cs => (true, cs)
  | '+' :: cs => (false, cs)
  | cs => (false, cs)

def special? (negative : Bool) (cs : List Char) : Option Binary64 :=
  let word := cs.map Char.toLower
  if word = "inf".toList ∨ word = "infinity".toList then some (infinity negative)
  else if word = "nan".toList then some nan
  else none

/-- The exponent that the rest of a number is. -/
def exponent? : List Char → Option Int
  | [] => some 0
  | c :: cs =>
    if c = 'e' ∨ c = 'E' then
      let (negative, ds) := signed cs
      if !ds.isEmpty ∧ ds.all Char.isDigit then
        let n : Int := digitNumber ds
        some (if negative then -n else n)
      else none
    else none

/-- The digits before a point, those after it, and the rest. -/
def pointed (cs : List Char) : List Char × List Char × List Char :=
  let whole := cs.takeWhile Char.isDigit
  match cs.dropWhile Char.isDigit with
  | '.' :: rest => (whole, rest.takeWhile Char.isDigit, rest.dropWhile Char.isDigit)
  | rest => (whole, [], rest)

def ofPlain? (cs : List Char) : Option Binary64 :=
  let (negative, body) := signed cs
  match special? negative body with
  | some x => some x
  | none =>
    let (whole, frac, rest) := pointed body
    if whole.isEmpty ∧ frac.isEmpty then none
    else (exponent? rest).map fun e =>
      ofDecimal negative (digitNumber (whole ++ frac)) (e - frac.length)

/-- Whether each underscore stands between two digits. -/
def underscoresBetween : Bool → List Char → Bool
  | _, [] => true
  | afterDigit, '_' :: cs =>
    afterDigit && (match cs with | c :: _ => c.isDigit | [] => false) && underscoresBetween false cs
  | _, c :: cs => underscoresBetween c.isDigit cs

/-- The space for a blank and the digit for a digit of any writing system; ASCII is left alone. -/
def plainChar (c : Char) : Char :=
  if c.toNat < 127 then c
  else if Text.isBlank c then ' '
  else match Text.digitValue? c with
    | some n => Nat.digitChar n
    | none => '?'

def isSpace (c : Char) : Bool := c == ' ' || (9 ≤ c.toNat && c.toNat ≤ 13)

def trimBy (p : Char → Bool) (cs : List Char) : List Char :=
  ((cs.dropWhile p).reverse.dropWhile p).reverse

def ofChars? (cs : List Char) : Option Binary64 :=
  let plain := trimBy isSpace (cs.map plainChar)
  if underscoresBetween false plain then ofPlain? (plain.filter (· != '_')) else none

def ofText? (s : String) : Option Binary64 := ofChars? s.toList

/-- Blank in a field: the blanks of a text without the four separators below the space. -/
def isFieldBlank (c : Char) : Bool := Text.isBlank c && !(28 ≤ c.toNat && c.toNat ≤ 31)

/-- Whether underscores stand alone and not at the ends. -/
def looseUnderscores (cs : List Char) : Bool :=
  cs.head? != some '_' && cs.getLast? != some '_' && (cs.zip cs.tail).all (· != ('_', '_'))

def ofField? (s : String) : Option Binary64 :=
  match ofPlain? (trimBy isFieldBlank s.toList) with
  | some x => some x
  | none =>
    if s.toList.contains '_' ∧ looseUnderscores s.toList then
      ofPlain? (s.toList.filter (· != '_'))
    else none

end Directive.Binary64
