import Directive.Json.Basic

/-!
# Violations

What is wrong with a piece of data, and where. Data comes from a document or from values already
in memory; a few messages differ.
-/

namespace Directive

inductive Origin
  | document
  | memory
deriving DecidableEq

/-- One step into data: a field of an object, or a place in a list. -/
inductive PathStep
  | field (name : String)
  | index (n : Nat)
deriving DecidableEq

inductive Defect
  | notDocument
  | missing
  | unexpected
  | notText
  | textTooShort (least : Nat)
  | notFlag
  | unreadableFlag
  | notNumber
  | unreadableNumber
  | notWhole
  | unreadableWhole
  | fractional
  | wholeTooLarge
  | notFinite
  | notAbove (bound : Nat)
  | below (bound : Nat)
  | above (bound : Nat)
  | notList (origin : Origin)
  | listTooShort (least actual : Nat)
  | notTable (origin : Origin)
  /-- Not an object where a value of the named form stands. -/
  | notForm (origin : Origin) (form : String)
  /-- Not an object where the form depends on a field. -/
  | notFields
  | noTag (field : String)
  | unknownTag (field tag : String) (expected : List String)
  | notOneOf (choices : List String)
  | rule (message : String)
deriving DecidableEq

structure Violation where
  path : List PathStep
  defect : Defect
deriving DecidableEq

namespace Defect

def singleQuoted (s : String) : String := "'" ++ s ++ "'"

/-- Texts in quotes with commas between them, and `or` before the last. -/
def alternatives : List String → String
  | [] => ""
  | [s] => singleQuoted s
  | [s, t] => singleQuoted s ++ " or " ++ singleQuoted t
  | s :: ss => singleQuoted s ++ ", " ++ alternatives ss

def items (n : Nat) : String := toString n ++ (if n = 1 then " item" else " items")

def characters (n : Nat) : String := toString n ++ (if n = 1 then " character" else " characters")

/-- The short name of a kind of violation. -/
def code : Defect → String
  | .notDocument => "json_invalid"
  | .missing => "missing"
  | .unexpected => "extra_forbidden"
  | .notText => "string_type"
  | .textTooShort _ => "string_too_short"
  | .notFlag => "bool_type"
  | .unreadableFlag => "bool_parsing"
  | .notNumber => "float_type"
  | .unreadableNumber => "float_parsing"
  | .notWhole => "int_type"
  | .unreadableWhole => "int_parsing"
  | .fractional => "int_from_float"
  | .wholeTooLarge => "int_parsing_size"
  | .notFinite => "finite_number"
  | .notAbove _ => "greater_than"
  | .below _ => "greater_than_equal"
  | .above _ => "less_than_equal"
  | .notList _ => "list_type"
  | .listTooShort _ _ => "too_short"
  | .notTable _ => "dict_type"
  | .notForm _ _ => "model_type"
  | .notFields => "model_attributes_type"
  | .noTag _ => "union_tag_not_found"
  | .unknownTag _ _ _ => "union_tag_invalid"
  | .notOneOf _ => "enum"
  | .rule _ => "value_error"

/-- What to tell the user. Where a text is no document, that is all there is to tell. -/
def message? : Defect → Option String
  | .notDocument => none
  | .missing => some "Field required"
  | .unexpected => some "Extra inputs are not permitted"
  | .notText => some "Input should be a valid string"
  | .textTooShort n => some ("String should have at least " ++ characters n)
  | .notFlag => some "Input should be a valid boolean"
  | .unreadableFlag => some "Input should be a valid boolean, unable to interpret input"
  | .notNumber => some "Input should be a valid number"
  | .unreadableNumber => some "Input should be a valid number, unable to parse string as a number"
  | .notWhole => some "Input should be a valid integer"
  | .unreadableWhole => some "Input should be a valid integer, unable to parse string as an integer"
  | .fractional => some "Input should be a valid integer, got a number with a fractional part"
  | .wholeTooLarge =>
    some "Unable to parse input string as an integer, exceeded maximum size"
  | .notFinite => some "Input should be a finite number"
  | .notAbove n => some ("Input should be greater than " ++ toString n)
  | .below n => some ("Input should be greater than or equal to " ++ toString n)
  | .above n => some ("Input should be less than or equal to " ++ toString n)
  | .notList .memory => some "Input should be a valid list"
  | .notList .document => some "Input should be a valid array"
  | .listTooShort n m =>
    some ("List should have at least " ++ items n ++ " after validation, not " ++ toString m)
  | .notTable .memory => some "Input should be a valid dictionary"
  | .notTable .document => some "Input should be an object"
  | .notForm .memory form => some ("Input should be a valid dictionary or instance of " ++ form)
  | .notForm .document _ => some "Input should be an object"
  | .notFields => some "Input should be a valid dictionary or object to extract fields from"
  | .noTag field => some ("Unable to extract tag using discriminator " ++ singleQuoted field)
  | .unknownTag field tag expected =>
    some ("Input tag " ++ singleQuoted tag ++ " found using " ++ singleQuoted field
      ++ " does not match any of the expected tags: "
      ++ ", ".intercalate (expected.map singleQuoted))
  | .notOneOf choices => some ("Input should be " ++ alternatives choices)
  | .rule m => some ("Value error, " ++ m)

end Defect

def Violation.under (s : PathStep) (v : Violation) : Violation := ⟨s :: v.path, v.defect⟩

/-- The violations found in data of a named form. -/
structure Malformed where
  form : String
  violations : List Violation
deriving DecidableEq

end Directive
