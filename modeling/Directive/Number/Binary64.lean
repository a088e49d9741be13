/-!
# Double-precision numbers

A number is known by its 64 bits, so that equal numbers are equal values and zero keeps its sign.
All arithmetic is exact arithmetic on natural numbers, rounded once.

* `roundDiv`: a quotient to the nearest whole number, halves to the even one;
* `Binary64.ofRatio`: the number nearest to a fraction;
* `Binary64.mantissa`, `Binary64.scale`: the magnitude of a finite number is `mantissa * 2 ^ scale`.
-/

namespace Directive

/-- The whole number nearest to `n / d`; a half goes to the even neighbour. -/
def roundDiv (n d : Nat) : Nat :=
  let q := n / d
  let r := 2 * (n % d)
  if r < d ∨ (r = d ∧ q % 2 = 0) then q else q + 1

structure Binary64 where
  bits : UInt64
deriving DecidableEq

namespace Binary64

def signBit : Nat := Nat.pow 2 63

def infinityBits : Nat := 2047 * Nat.pow 2 52

def ofMagnitude (negative : Bool) (magnitude : Nat) : Binary64 :=
  ⟨UInt64.ofNat ((if negative then signBit else 0) + magnitude)⟩

def zero : Binary64 := ofMagnitude false 0

instance : Inhabited Binary64 := ⟨zero⟩

def infinity (negative : Bool) : Binary64 := ofMagnitude negative infinityBits

def nan : Binary64 := ofMagnitude false (infinityBits + Nat.pow 2 51)

def isNegative (x : Binary64) : Bool := x.bits.toNat / signBit = 1

def magnitude (x : Binary64) : Nat := x.bits.toNat % signBit

def exponentField (x : Binary64) : Nat := x.magnitude / Nat.pow 2 52

def isFinite (x : Binary64) : Bool := x.magnitude < infinityBits

def isNaN (x : Binary64) : Bool := x.magnitude > infinityBits

def isZero (x : Binary64) : Bool := x.magnitude = 0

def mantissa (x : Binary64) : Nat :=
  if x.exponentField = 0 then x.magnitude else x.magnitude % Nat.pow 2 52 + Nat.pow 2 52

def scale (x : Binary64) : Int := max x.exponentField 1 - 1075

/-- `n / d` with `2 ^ e` for a unit, as a fraction. -/
def inUnits (n d : Nat) (e : Int) : Nat × Nat :=
  (n * Nat.pow 2 (-e).toNat, d * Nat.pow 2 e.toNat)

/-- The unit of the last of 53 binary digits of `n / d`, and no finer than numbers have. -/
def unitFor (n d : Nat) : Int :=
  let e : Int := (n.log2 : Int) - d.log2 - 52
  let (a, b) := inUnits n d e
  max (if a / b < Nat.pow 2 52 then e - 1 else e) (-1074)

def magnitudeOfRatio (n d : Nat) : Nat :=
  if n = 0 then 0
  else
    let e := unitFor n d
    let (a, b) := inUnits n d e
    min ((e + 1074).toNat * Nat.pow 2 52 + roundDiv a b) infinityBits

/-- The number nearest to `n / d`, halves to the even mantissa; infinite beyond the range. -/
def ofRatio (negative : Bool) (n d : Nat) : Binary64 := ofMagnitude negative (magnitudeOfRatio n d)

def ofInt (i : Int) : Binary64 := ofRatio (i < 0) i.natAbs 1

/-- The number nearest to `m * 10 ^ e`. What is certainly out of range is settled without the power:
a binary digit is worth between 3 and 3.1 tenths of a decimal one. -/
def ofDecimal (negative : Bool) (m : Nat) (e : Int) : Binary64 :=
  if m = 0 ∨ (m.log2 + 1 : Int) * 31 / 100 + 1 + e < -330 then ofMagnitude negative 0
  else if (m.log2 : Int) * 3 / 10 + e > 310 then infinity negative
  else ofRatio negative (m * Nat.pow 10 e.toNat) (Nat.pow 10 (-e).toNat)

/-- A finite number in units of `2 ^ -1074`. -/
def units (x : Binary64) : Int :=
  let u : Int := (x.mantissa * Nat.pow 2 (x.scale + 1074).toNat : Nat)
  if x.isNegative then -u else u

/-- Position in the order of numbers; both zeros have the same. -/
def rank (x : Binary64) : Int := if x.isNegative then -x.magnitude else x.magnitude

def le (x y : Binary64) : Bool := !x.isNaN && !y.isNaN && x.rank ≤ y.rank

def lt (x y : Binary64) : Bool := !x.isNaN && !y.isNaN && x.rank < y.rank

def add (x y : Binary64) : Binary64 :=
  if x.isNaN || y.isNaN then nan
  else if !x.isFinite then
    if !y.isFinite && x.isNegative != y.isNegative then nan else x
  else if !y.isFinite then y
  else if x.isZero && y.isZero then ofMagnitude (x.isNegative && y.isNegative) 0
  else
    let u := x.units + y.units
    ofRatio (u < 0) u.natAbs (Nat.pow 2 1074)

/-- One over a number that is not zero. -/
def reciprocal (x : Binary64) : Binary64 :=
  if x.isNaN then nan
  else if !x.isFinite then ofMagnitude x.isNegative 0
  else ofRatio x.isNegative (Nat.pow 2 1074) x.units.natAbs

/-- The whole number that a finite number is, if it is one. -/
def toInt? (x : Binary64) : Option Int :=
  if x.isFinite ∧ x.units.natAbs % Nat.pow 2 1074 = 0 then
    let n : Int := (x.units.natAbs / Nat.pow 2 1074 : Nat)
    some (if x.isNegative then -n else n)
  else none

end Binary64

end Directive
