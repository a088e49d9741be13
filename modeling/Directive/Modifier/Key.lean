import Directive.Text.Blank
import Directive.Text.Case

/-!
# Modifier keys

`--Output-Format` and `--output_format` name the same modifier. The canonical key has no blanks
around it, small letters, and underscores for hyphens; once the text is lowered it holds no capital
at which words could be told apart.

* `canonicalKey`: the canonical key;
* `isKeyName`, `isCommandName`: the names that a grammar may declare. One line break at the end of
  a name is let through.
-/

namespace Directive

def hyphensToUnderscores (cs : List Char) : List Char := cs.map fun c => if c = '-' then '_' else c

def canonicalKeyChars (cs : List Char) : List Char :=
  Text.lowerChars (hyphensToUnderscores (Text.lowerChars (Text.trimChars cs)))

def canonicalKey (key : String) : String := String.ofList (canonicalKeyChars key.toList)

def isSmallLetter (c : Char) : Bool := 'a' ≤ c && c ≤ 'z'

def isCapital (c : Char) : Bool := 'A' ≤ c && c ≤ 'Z'

def dropFinalBreak (cs : List Char) : List Char :=
  if cs.getLast? = some '\n' then cs.dropLast else cs

/-- A text of characters in `rest` whose first is in `first`. -/
def isNameOf (first rest : Char → Bool) : List Char → Bool
  | [] => false
  | c :: cs => first c && cs.all rest

def isKeyName (key : String) : Bool :=
  isNameOf (fun c => isSmallLetter c || c == '_')
    (fun c => isSmallLetter c || c.isDigit || c == '_') (dropFinalBreak key.toList)

def isCommandName (name : String) : Bool :=
  isNameOf isCapital (fun c => isCapital c || c.isDigit || c == '_') (dropFinalBreak name.toList)

end Directive
