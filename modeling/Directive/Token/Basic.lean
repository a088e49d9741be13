/-!
# Tokens
-/

namespace Directive

inductive TokenKind
  | commandName
  | colon
  | quotedString
  | blockString
  | modifierKey
  | modifierValue
  | bareReference
  | indent
  | dedent
  | newline
  | eof
deriving DecidableEq

namespace TokenKind

def name : TokenKind → String
  | .commandName => "command name"
  | .colon => "colon"
  | .quotedString => "quoted string"
  | .blockString => "block string"
  | .modifierKey => "modifier key"
  | .modifierValue => "modifier value"
  | .bareReference => "bare reference"
  | .indent => "indent"
  | .dedent => "dedent"
  | .newline => "newline"
  | .eof => "eof"

def all : List TokenKind :=
  [.commandName, .colon, .quotedString, .blockString, .modifierKey, .modifierValue,
   .bareReference, .indent, .dedent, .newline, .eof]

def ofName? (s : String) : Option TokenKind := all.find? (·.name = s)

/-- Whether a token of this kind is a part of a literal input. -/
def isString : TokenKind → Bool
  | .quotedString => true
  | .blockString => true
  | _ => false

end TokenKind

/-- A token and the position of its first character, both counted from one. -/
structure Token where
  kind : TokenKind
  text : String
  line : Int
  column : Int
deriving DecidableEq

namespace Token

/-- How the token is named in a message. -/
def describe (t : Token) : String :=
  match t.kind with
  | .newline => "end of line"
  | .eof => "end of input"
  | .indent => "indent"
  | .dedent => "dedent"
  | .modifierKey => "modifier '--" ++ t.text ++ "'"
  | .blockString => "block string"
  | kind => kind.name ++ " '" ++ t.text ++ "'"

end Token

end Directive
