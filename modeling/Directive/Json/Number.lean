import Directive.Json.Basic
import Directive.Number.Basic
import Directive.Number.Decimal

/-!
# Numbers given as data

A number may stand as itself or be written as a text, in any form that `Binary64.ofText?` reads.
-/

namespace Directive.Json

inductive NumberProblem
  | unreadable (text : String)
  | tooLarge
  | notNumber (shown : String)
deriving DecidableEq

def NumberProblem.message : NumberProblem → String
  | .unreadable text => "could not convert string to float: " ++ Text.quoted text
  | .tooLarge => Binary64.tooLargeMessage
  | .notNumber shown => "not a number: " ++ shown

def toNumber : Json → Except NumberProblem Binary64
  | .bool b => .ok (Binary64.ofInt (if b then 1 else 0))
  | .int i =>
    match Binary64.ofWhole? i with
    | some x => .ok x
    | none => .error .tooLarge
  | .float x => .ok x
  | .str s =>
    match Binary64.ofText? s with
    | some x => .ok x
    | none => .error (.unreadable s)
  | j => .error (.notNumber j.display)

end Directive.Json
