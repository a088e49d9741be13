import Directive.Json.Basic

/-!
# Writing documents

* `Json.compact`: on one line, without blanks;
* `Json.indented`: two blanks for each level, and every character outside printable ASCII escaped;
* `Json.readable`: as `indented`, but only what must be escaped is.
-/

namespace Directive.Json

def hex4 (n : Nat) : List Char := '\\' :: 'u' :: Text.hexDigits 4 n

/-- A character as one or two escapes of 16 bits. -/
def wideEscape (c : Char) : List Char :=
  let n := c.toNat
  if n < 0x10000 then hex4 n
  else hex4 (0xD800 + (n - 0x10000) / 0x400) ++ hex4 (0xDC00 + (n - 0x10000) % 0x400)

def writeChar (ascii : Bool) (c : Char) : List Char :=
  if c = '"' then ['\\', '"']
  else if c = '\\' then ['\\', '\\']
  else if c = '\n' then ['\\', 'n']
  else if c = '\r' then ['\\', 'r']
  else if c = '\t' then ['\\', 't']
  else if c = '\x08' then ['\\', 'b']
  else if c = '\x0c' then ['\\', 'f']
  else if c.toNat < 32 ∨ (ascii ∧ 126 < c.toNat) then wideEscape c
  else [c]

def writeString (ascii : Bool) (s : String) : String :=
  String.ofList ('"' :: s.toList.flatMap (writeChar ascii) ++ ['"'])

def writeFloat (x : Binary64) : String :=
  if x.isNaN then "NaN"
  else if x.isFinite then x.text
  else if x.isNegative then "-Infinity" else "Infinity"

structure Style where
  ascii : Bool
  indent : Option Nat

/-- The line break in front of a part at some level, if lines are broken. -/
def Style.lineBreak (style : Style) (level : Nat) : String :=
  match style.indent with
  | none => ""
  | some n => String.ofList ('\n' :: List.replicate (n * level) ' ')

/-- Parts between brackets, each on a line of its own if lines are broken. -/
def Style.wrap (style : Style) (level : Nat) (opening closing : String) (parts : List String) :
    String :=
  if parts.isEmpty then opening ++ closing
  else
    opening ++ style.lineBreak (level + 1)
      ++ ("," ++ style.lineBreak (level + 1)).intercalate parts
      ++ style.lineBreak level ++ closing

def Style.colon (style : Style) : String := if style.indent.isSome then ": " else ":"

mutual

def write (style : Style) (level : Nat) : Json → String
  | .null => "null"
  | .bool b => if b then "true" else "false"
  | .int i => toString i
  | .float x => writeFloat x
  | .str s => writeString style.ascii s
  | .arr items => style.wrap level "[" "]" (writeItems style (level + 1) items)
  | .obj fields => style.wrap level "\x7b" "\x7d" (writeFields style (level + 1) fields)

def writeItems (style : Style) (level : Nat) : List Json → List String
  | [] => []
  | j :: js => write style level j :: writeItems style level js

def writeFields (style : Style) (level : Nat) : List (String × Json) → List String
  | [] => []
  | (k, j) :: fs =>
    (writeString style.ascii k ++ style.colon ++ write style level j)
      :: writeFields style level fs

end

def compact (j : Json) : String := j.write ⟨false, none⟩ 0

def indented (j : Json) : String := j.write ⟨true, some 2⟩ 0

def readable (j : Json) : String := j.write ⟨false, some 2⟩ 0

end Directive.Json
