import Directive.Json.Basic
import Directive.Number.Whole
import Directive.Table

/-!
# Reading documents

The grammar of JSON, with `NaN`, `Infinity` and `-Infinity` as numbers. A number may have no more
than `Whole.digitLimit` digits before its point.

* `Json.readWritten?`: the value that a whole text is, with every field as it is written;
* `Json.read?`: the same, but each name of an object has one field;
* `Json.readDocument?`: every field as it is written, but nesting too deep is refused.

Repeated fields are kept in a document because each of them may have to be right.

The readers of single values return what follows the value. Their first argument bounds the number
of nested steps; `readBudget` is enough for any text.
-/

namespace Directive.Json

def isJsonSpace (c : Char) : Bool := c == ' ' || c == '\t' || c == '\n' || c == '\r'

def skipSpace (cs : List Char) : List Char := cs.dropWhile isJsonSpace

def hexValue? (c : Char) : Option Nat :=
  if c.isDigit then some (c.toNat - '0'.toNat)
  else if 'a' ≤ c ∧ c ≤ 'f' then some (c.toNat - 'a'.toNat + 10)
  else if 'A' ≤ c ∧ c ≤ 'F' then some (c.toNat - 'A'.toNat + 10)
  else none

def hexNumber? (cs : List Char) : Option Nat :=
  cs.foldlM (fun n c => (hexValue? c).map (n * 16 + ·)) 0

def simpleEscape? : Char → Option Char
  | '"' => some '"'
  | '\\' => some '\\'
  | '/' => some '/'
  | 'b' => some '\x08'
  | 'f' => some '\x0c'
  | 'n' => some '\n'
  | 'r' => some '\r'
  | 't' => some '\t'
  | _ => none

def isHighSurrogate (n : Nat) : Bool := 0xD800 ≤ n && n ≤ 0xDBFF

def isLowSurrogate (n : Nat) : Bool := 0xDC00 ≤ n && n ≤ 0xDFFF

/-- The text up to the closing quote, and what follows the quote. -/
def readString : List Char → Option (List Char × List Char)
  | [] => none
  | '"' :: cs => some ([], cs)
  | '\\' :: 'u' :: a :: b :: c :: d :: '\\' :: 'u' :: e :: f :: g :: h :: cs => do
    let m ← hexNumber? [a, b, c, d]
    if isHighSurrogate m then
      let n ← hexNumber? [e, f, g, h]
      guard (isLowSurrogate n)
      let (text, rest) ← readString cs
      return (Char.ofNat (0x10000 + (m - 0xD800) * 0x400 + (n - 0xDC00)) :: text, rest)
    else
      guard (!isLowSurrogate m)
      let (text, rest) ← readString ('\\' :: 'u' :: e :: f :: g :: h :: cs)
      return (Char.ofNat m :: text, rest)
  | '\\' :: 'u' :: a :: b :: c :: d :: cs => do
    let m ← hexNumber? [a, b, c, d]
    guard (!isHighSurrogate m && !isLowSurrogate m)
    let (text, rest) ← readString cs
    return (Char.ofNat m :: text, rest)
  | '\\' :: e :: cs => do
    let c ← simpleEscape? e
    let (text, rest) ← readString cs
    return (c :: text, rest)
  | c :: cs => do
    guard (32 ≤ c.toNat)
    let (text, rest) ← readString cs
    return (c :: text, rest)

/-- The exponent at the start of a text, if one stands there, and the rest. -/
def readExponent (cs : List Char) : Option (Option Int × List Char) :=
  match cs with
  | c :: rest =>
    if c = 'e' ∨ c = 'E' then
      let (negative, rest) := Binary64.signed rest
      let ds := rest.takeWhile Char.isDigit
      if ds.isEmpty then none
      else
        let n : Int := Binary64.digitNumber ds
        some (some (if negative then -n else n), rest.dropWhile Char.isDigit)
    else some (none, cs)
  | [] => some (none, [])

/-- The fraction digits at the start of a text, if a point stands there, and the rest. -/
def readFraction : List Char → Option (Option (List Char) × List Char)
  | '.' :: rest =>
    let ds := rest.takeWhile Char.isDigit
    if ds.isEmpty then none else some (some ds, rest.dropWhile Char.isDigit)
  | cs => some (none, cs)

def readUnsigned (negative : Bool) (cs : List Char) : Option (Json × List Char) := do
  let whole := cs.takeWhile Char.isDigit
  guard (Whole.isPlain whole && whole.length ≤ Whole.digitLimit)
  let (frac, rest) ← readFraction (cs.dropWhile Char.isDigit)
  let (exponent, rest) ← readExponent rest
  match frac, exponent with
  | none, none =>
    return (.int (Whole.signedNumber negative whole), rest)
  | _, _ =>
    let ds := frac.getD []
    let e := exponent.getD 0 - ds.length
    return (.float (Binary64.ofDecimal negative (Binary64.digitNumber (whole ++ ds)) e), rest)

/-- What follows `word`, if the text starts with it. -/
def after? : List Char → List Char → Option (List Char)
  | [], cs => some cs
  | w :: ws, c :: cs => if w = c then after? ws cs else none
  | _ :: _, [] => none

def readWord (word : String) (j : Json) (cs : List Char) : Option (Json × List Char) :=
  (after? word.toList cs).map (j, ·)

mutual

def readValue : Nat → List Char → Option (Json × List Char)
  | 0, _ => none
  | budget + 1, cs =>
    match skipSpace cs with
    | '"' :: rest => (readString rest).map fun (text, rest) => (.str (String.ofList text), rest)
    | '[' :: rest =>
      match skipSpace rest with
      | ']' :: rest => some (.arr [], rest)
      | rest => (readItems budget rest).map fun (items, rest) => (.arr items, rest)
    | '\x7b' :: rest =>
      match skipSpace rest with
      | '\x7d' :: rest => some (.obj [], rest)
      | rest => (readFields budget rest).map fun (fields, rest) => (.obj fields, rest)
    | '-' :: 'I' :: rest => readWord "nfinity" (.float (Binary64.infinity true)) rest
    | '-' :: rest => readUnsigned true rest
    | 'n' :: rest => readWord "ull" .null rest
    | 't' :: rest => readWord "rue" (.bool true) rest
    | 'f' :: rest => readWord "alse" (.bool false) rest
    | 'N' :: rest => readWord "aN" (.float Binary64.nan) rest
    | 'I' :: rest => readWord "nfinity" (.float (Binary64.infinity false)) rest
    | rest => readUnsigned false rest

def readItems : Nat → List Char → Option (List Json × List Char)
  | 0, _ => none
  | budget + 1, cs => do
    let (item, rest) ← readValue budget cs
    match skipSpace rest with
    | ',' :: rest =>
      let (items, rest) ← readItems budget rest
      return (item :: items, rest)
    | ']' :: rest => return ([item], rest)
    | _ => none

def readFields : Nat → List Char → Option (List (String × Json) × List Char)
  | 0, _ => none
  | budget + 1, cs => do
    match skipSpace cs with
    | '"' :: rest =>
      let (name, rest) ← readString rest
      match skipSpace rest with
      | ':' :: rest =>
        let (value, rest) ← readValue budget rest
        let field := (String.ofList name, value)
        match skipSpace rest with
        | ',' :: rest =>
          let (fields, rest) ← readFields budget rest
          return (field :: fields, rest)
        | '\x7d' :: rest => return ([field], rest)
        | _ => none
      | _ => none
    | _ => none

end

def readBudget (cs : List Char) : Nat := 2 * cs.length + 2

def readWritten? (s : String) : Option Json :=
  match readValue (readBudget s.toList) s.toList with
  | some (j, rest) => if (skipSpace rest).isEmpty then some j else none
  | none => none

mutual

/-- The value in which the last of repeated fields stands for all, in the place of the first. -/
def settled : Json → Json
  | .arr items => .arr (settledItems items)
  | .obj fields => .obj (Table.ofList (settledFields fields)).entries
  | j => j

def settledItems : List Json → List Json
  | [] => []
  | j :: js => settled j :: settledItems js

def settledFields : List (String × Json) → List (String × Json)
  | [] => []
  | (k, j) :: fs => (k, settled j) :: settledFields fs

end

def read? (s : String) : Option Json := (readWritten? s).map settled

mutual

/-- How many lists and objects with something in them stand inside each other. -/
def nesting : Json → Nat
  | .arr items => nestingItems items
  | .obj fields => nestingFields fields
  | _ => 0

def nestingItems : List Json → Nat
  | [] => 0
  | j :: js => max (nesting j + 1) (nestingItems js)

def nestingFields : List (String × Json) → Nat
  | [] => 0
  | (_, j) :: fs => max (nesting j + 1) (nestingFields fs)

end

def nestingLimit : Nat := 200

def readDocument? (s : String) : Option Json :=
  (readWritten? s).filter fun j => j.nesting ≤ nestingLimit

end Directive.Json
