/-!
# Similar names

The likeness of two texts is twice the number of characters they share, over the number of
characters of both. Shared characters are counted in blocks: the longest block the texts have in
common, then the same on each side of it.

* `shared`: that count;
* `closest?`: the most similar of some names, if it is similar enough.

In a target of 200 characters or more a character that makes up over a hundredth of it starts no
block.
-/

namespace Directive.Text

/-- A block that both texts contain, with the parts before and after it. -/
structure Block where
  size : Nat
  left : List Char × List Char
  right : List Char × List Char

/-- How far the texts agree from their starts on. -/
def commonStart : List Char → List Char → Nat
  | a :: as, b :: bs => if a = b then commonStart as bs + 1 else 0
  | _, _ => 0

/-- The characters of a long target that are too frequent to start a block. -/
def frequent (target : List Char) : List Char :=
  if target.length < 200 then []
  else target.filter fun c => target.count c > target.length / 100 + 1

/-- The length of the longest run at the start of both texts that holds no frequent character. -/
def rareStart (common : List Char) : List Char → List Char → Nat
  | a :: as, b :: bs => if a = b ∧ !common.contains a then rareStart common as bs + 1 else 0
  | _, _ => 0

structure Candidate where
  size : Nat
  i : Nat
  j : Nat

/-- The longest run without frequent characters; among equals the first in `a`, then the first in
`b`. -/
def longestRun (common : List Char) (a b : List Char) : Candidate :=
  (List.range a.length).foldl (fun best i =>
    (List.range b.length).foldl (fun best j =>
      let n := rareStart common (a.drop i) (b.drop j)
      if n > best.size then ⟨n, i, j⟩ else best) best) ⟨0, 0, 0⟩

/-- The longest run, lengthened on both sides by what the texts agree on there. -/
def longestBlock (common : List Char) (a b : List Char) : Block :=
  let run := longestRun common a b
  let back := commonStart (a.take run.i).reverse (b.take run.j).reverse
  let on := commonStart (a.drop (run.i + run.size)) (b.drop (run.j + run.size))
  { size := back + run.size + on
    left := (a.take (run.i - back), b.take (run.j - back))
    right := (a.drop (run.i + run.size + on), b.drop (run.j + run.size + on)) }

/-- `depth` bounds how often a text can be cut; its length is enough. -/
def sharedWithin (common : List Char) : Nat → List Char → List Char → Nat
  | 0, _, _ => 0
  | depth + 1, a, b =>
    let block := longestBlock common a b
    if block.size = 0 then 0
    else block.size + sharedWithin common depth block.left.1 block.left.2
      + sharedWithin common depth block.right.1 block.right.2

def shared (a target : List Char) : Nat :=
  sharedWithin (frequent target) (a.length + 1) a target

/-- A name with its likeness to some target, as a fraction. -/
structure Likeness where
  name : String
  shared : Nat
  total : Nat

def likeness (target name : String) : Likeness :=
  ⟨name, shared name.toList target.toList, name.length + target.length⟩

/-- Alike enough to be suggested: at least six tenths. -/
def Likeness.close (l : Likeness) : Bool := 2 * l.shared * 10 ≥ 6 * l.total

/-- Less alike, or as alike and earlier by name. -/
def Likeness.before (l m : Likeness) : Bool :=
  l.shared * m.total < m.shared * l.total
    || (l.shared * m.total == m.shared * l.total && l.name < m.name)

/-- The name most like `target`, the last by name among equals, or nothing if none is close. -/
def closest? (target : String) (names : List String) : Option String :=
  let close := (names.map (likeness target)).filter (·.close)
  (close.foldl (fun best l => match best with
    | none => some l
    | some b => if b.before l then some l else some b) none).map (·.name)

end Directive.Text
