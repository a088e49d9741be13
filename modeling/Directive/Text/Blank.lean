/-!
# Blanks

* `isBlank`: the characters that separate words and are trimmed from the ends of a text;
* `split`: the pieces between the characters of a class;
* `words`: the pieces between blanks, empty ones left out.

Each is a function on characters with a version on strings beside it.
-/

namespace Directive.Text

def isBlank (c : Char) : Bool :=
  let n := c.toNat
  (9 ≤ n && n ≤ 13) || (28 ≤ n && n ≤ 32) || n == 0x85 || n == 0xA0 || n == 0x1680
    || (0x2000 ≤ n && n ≤ 0x200A) || n == 0x2028 || n == 0x2029 || n == 0x202F || n == 0x205F
    || n == 0x3000

def trimStartChars (cs : List Char) : List Char := cs.dropWhile isBlank

def trimEndChars (cs : List Char) : List Char := (cs.reverse.dropWhile isBlank).reverse

def trimChars (cs : List Char) : List Char := trimEndChars (trimStartChars cs)

def isBlankText (s : String) : Bool := s.toList.all isBlank

/-- The pieces between the characters that satisfy `p`, one more than there are such characters. -/
def split (p : Char → Bool) : List Char → List (List Char)
  | [] => [[]]
  | c :: cs =>
    if p c then [] :: split p cs
    else match split p cs with
      | piece :: pieces => (c :: piece) :: pieces
      | [] => [[c]]

def wordChars (cs : List Char) : List (List Char) := (split isBlank cs).filter (!·.isEmpty)

def words (s : String) : List String := (wordChars s.toList).map String.ofList

/-- The text with each pair of a carriage return and a line feed turned into a line feed. -/
def joinLineEnds : List Char → List Char
  | '\r' :: '\n' :: cs => '\n' :: joinLineEnds cs
  | c :: cs => c :: joinLineEnds cs
  | [] => []

/-- The lines of a text, both kinds of line end understood. -/
def lines (s : String) : List String :=
  (split (· == '\n') (joinLineEnds s.toList)).map String.ofList

end Directive.Text
