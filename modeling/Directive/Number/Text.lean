import Directive.Number.Binary64

/-!
# Numbers as text

Two forms: the fewest digits that read back as the same number, and six digits.

* `shortestDigits`: on each grid of 1, 2, … 17 digits the two points beside the number are tried,
  and the first grid with a point that rounds to the number wins; of two such points the nearer;
* `roundedDigits`: the number to some digits, halves to the even last digit;
* `Layout`: which numbers are written without an exponent, and whether whole ones end in `.0`.
-/

namespace Directive.Binary64

/-- Decimal digits after a point, times `10 ^ exponent`. -/
structure Digits where
  digits : List Char
  exponent : Int

def digitsOf (n : Nat) : List Char := Nat.toDigits 10 n

/-- A number without the zeros at its end. -/
def stripZeros (n : Nat) : List Char := ((digitsOf n).reverse.dropWhile (· == '0')).reverse

/-- `n / d` with `10 ^ e` for a unit, as a fraction. -/
def inTens (n d : Nat) (e : Int) : Nat × Nat :=
  (n * Nat.pow 10 (-e).toNat, d * Nat.pow 10 e.toNat)

/-- The exponent `p` with `10 ^ (p - 1) ≤ n / d < 10 ^ p`, for `n` and `d` above zero. -/
def decimalExponent (n d : Nat) : Int :=
  if d ≤ n then (digitsOf (n / d)).length
  else
    let p : Int := 1 - (digitsOf (d / n)).length
    let (a, b) := inTens n d p
    if b ≤ a then p + 1 else p

/-- A finite magnitude above zero and the bounds of what rounds to it, over one denominator. -/
structure Span where
  low : Nat
  value : Nat
  high : Nat
  denominator : Nat
  /-- Whether the bounds themselves round to the number. -/
  closed : Bool

def span (x : Binary64) : Span :=
  let m := x.mantissa
  let q := x.scale - 2
  let times := Nat.pow 2 q.toNat
  let below := if m = Nat.pow 2 52 ∧ x.exponentField > 1 then 1 else 2
  { low := (4 * m - below) * times
    value := 4 * m * times
    high := (4 * m + 2) * times
    denominator := Nat.pow 2 (-q).toNat
    closed := m % 2 = 0 }

/-- Whether `c * 10 ^ e` rounds to the number. -/
def Span.holds (s : Span) (c : Nat) (e : Int) : Bool :=
  let point := c * Nat.pow 10 e.toNat * s.denominator
  let times := Nat.pow 10 (-e).toNat
  if s.closed then s.low * times ≤ point && point ≤ s.high * times
  else s.low * times < point && point < s.high * times

/-- The point of the grid of `10 ^ e` that rounds to the number, the nearer if there are two. -/
def Span.gridPoint? (s : Span) (e : Int) : Option Nat :=
  let (a, b) := inTens s.value s.denominator e
  let c := a / b
  match s.holds c e, s.holds (c + 1) e with
  | true, true => some (roundDiv a b)
  | true, false => some c
  | false, true => some (c + 1)
  | false, false => none

def shortestDigits (x : Binary64) : Digits :=
  let s := x.span
  let p := decimalExponent s.value s.denominator
  let hit := (List.range 17).findSome? fun (k : Nat) =>
    (s.gridPoint? (p - k - 1)).map fun c => (c, p - k - 1)
  match hit with
  | some (c, e) => ⟨stripZeros c, e + (digitsOf c).length⟩
  | none => ⟨['0'], 1⟩

def roundedDigits (count : Nat) (x : Binary64) : Digits :=
  let s := x.span
  let p := decimalExponent s.value s.denominator
  let (a, b) := inTens s.value s.denominator (p - count)
  let c := roundDiv a b
  ⟨stripZeros c, p - count + (digitsOf c).length⟩

structure Layout where
  /-- Numbers from this power of ten on are written with an exponent. -/
  positionalBelow : Int
  /-- Whether a whole number without exponent ends in `.0`. -/
  pointZero : Bool

def exponentText (e : Int) : List Char :=
  let ds := digitsOf e.natAbs
  'e' :: (if e < 0 then '-' else '+') :: (if ds.length < 2 then '0' :: ds else ds)

def Layout.place (l : Layout) (d : Digits) : List Char :=
  let e := d.exponent - 1
  if -4 ≤ e ∧ e < l.positionalBelow then
    if d.exponent ≤ 0 then '0' :: '.' :: List.replicate (-d.exponent).toNat '0' ++ d.digits
    else
      let n := d.exponent.toNat
      let whole := d.digits.take n ++ List.replicate (n - d.digits.length) '0'
      match d.digits.drop n with
      | [] => whole ++ (if l.pointZero then ['.', '0'] else [])
      | frac => whole ++ '.' :: frac
  else
    match d.digits with
    | [c] => c :: exponentText e
    | c :: cs => c :: '.' :: cs ++ exponentText e
    | [] => exponentText e

def Layout.write (l : Layout) (digits : Binary64 → Digits) (x : Binary64) : String :=
  if x.isNaN then "nan"
  else
    let sign := if x.isNegative then ['-'] else []
    String.ofList <| sign ++
      if !x.isFinite then ['i', 'n', 'f']
      else if x.isZero then (if l.pointZero then ['0', '.', '0'] else ['0'])
      else l.place (digits x)

def fullLayout : Layout := ⟨16, true⟩

def briefLayout : Layout := ⟨6, false⟩

/-- The fewest digits that read back. -/
def text (x : Binary64) : String := fullLayout.write shortestDigits x

/-- Six digits. -/
def brief (x : Binary64) : String := briefLayout.write (roundedDigits 6) x

end Directive.Binary64
