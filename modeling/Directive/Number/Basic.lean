import Directive.Number.Text

/-!
# Numbers

A number keeps whether it was given as a whole number or with a point.

* `Binary64.ofWhole?`: the nearest double-precision number, unless only infinity is as large.
-/

namespace Directive

namespace Binary64

def ofWhole? (i : Int) : Option Binary64 :=
  let x := ofInt i
  if x.isFinite then some x else none

/-- What to say of a whole number that is too large. -/
def tooLargeMessage : String := "int too large to convert to float"

end Binary64

inductive Number
  | whole (i : Int)
  | real (x : Binary64)
deriving DecidableEq

namespace Number

def toBinary64? : Number → Option Binary64
  | .whole i => Binary64.ofWhole? i
  | .real x => some x

def text : Number → String
  | .whole i => toString i
  | .real x => x.text

end Number

end Directive
