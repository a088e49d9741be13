/-!
# Templates

A template is a text with variables in braces; a brace that is a part of the text is written twice.

* `escape`: the template of a text without variables;
* `pieces?`: the parts of a template, unless a brace stands alone;
* `format?`: the text of a template, with each variable replaced by its value.

A value is put in as it is, whatever braces it holds.
-/

namespace Directive.Template

/-- The text with every `b` of it twice. -/
def double (b : Char) (cs : List Char) : List Char :=
  cs.flatMap fun c => if c = b then [c, c] else [c]

def escape (cs : List Char) : List Char := double '\x7d' (double '\x7b' cs)

def escapeText (s : String) : String := String.ofList (escape s.toList)

inductive Piece
  | char (c : Char)
  | variable (name : String)
deriving DecidableEq

/-- The name in front of a closing brace, and the rest after it. -/
def variableName? : List Char → Option (List Char × List Char)
  | [] => none
  | c :: cs =>
    if c = '\x7d' then some ([], cs)
    else if c = '\x7b' then none
    else (variableName? cs).map fun (name, rest) => (c :: name, rest)

theorem variableName?_lt {cs name rest : List Char} (h : variableName? cs = some (name, rest)) :
    rest.length < cs.length := by
  induction cs generalizing name with
  | nil => simp [variableName?] at h
  | cons c cs ih =>
    unfold variableName? at h
    split at h
    · cases h
      simp
    · split at h
      · simp at h
      · obtain ⟨⟨name', rest'⟩, h', heq⟩ := Option.map_eq_some_iff.1 h
        cases heq
        have := ih h'
        simp only [List.length_cons]
        omega

def pieces? (cs : List Char) : Option (List Piece) :=
  match cs with
  | [] => some []
  | c :: rest =>
    if c = '\x7b' then
      match rest with
      | [] => none
      | d :: more =>
        if d = '\x7b' then (pieces? more).map (.char c :: ·)
        else match _ : variableName? (d :: more) with
          | none => none
          | some (name, after) => (pieces? after).map (.variable (String.ofList name) :: ·)
    else if c = '\x7d' then
      match rest with
      | [] => none
      | d :: more => if d = '\x7d' then (pieces? more).map (.char c :: ·) else none
    else (pieces? rest).map (.char c :: ·)
termination_by cs.length
decreasing_by
  · simp only [List.length_cons]
    omega
  · rename_i hName
    have := variableName?_lt hName
    simp only [List.length_cons] at this ⊢
    omega
  · simp only [List.length_cons]
    omega
  · simp

def Piece.name? : Piece → Option String
  | .variable name => some name
  | .char _ => none

/-- The variables of a template, each once. -/
def variableNames (pieces : List Piece) : List String := (pieces.filterMap Piece.name?).eraseDups

def fill (values : List (String × String)) : List Piece → Option (List Char)
  | [] => some []
  | .char c :: ps => (fill values ps).map (c :: ·)
  | .variable name :: ps => do
    let value ← values.lookup name
    let rest ← fill values ps
    return value.toList ++ rest

def format? (template : String) (values : List (String × String)) : Option String := do
  let pieces ← pieces? template.toList
  return String.ofList (← fill values pieces)

end Directive.Template
