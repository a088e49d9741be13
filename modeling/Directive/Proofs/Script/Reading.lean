import Mathlib.Logic.Relation
import Directive.Script.Parser

/-!
# What a parse reads

* `nodesOf`: the nodes of a block and the tokens after it, by the kind of the first token;
* `block_induction`: an induction over blocks, with one case for each of these kinds;
* `Reads`: the ways in which a block is read, one rule for each;
* `nodesOf_eq_ok_iff`: these are exactly the ways in which a parse succeeds;
* `Visits`: the places that a parse comes to, whether it succeeds or not;
* `visits_of_error`: a parse fails at one of them, in one of the ways of `FailsAt`.
-/

namespace Directive.ParseContext

variable (c : ParseContext)

def nodesOf (step : Option Nat) (ts : List Token) : Except Stop (List Node × List Token) :=
  (c.takeNodes step ts).map Subtype.val

def afterHeading (step : Option Nat) : Heading × List Token → Except Stop (List Node × List Token)
  | (.command i, after) =>
    (c.nodesOf (step.map (· + 1)) after).map fun p => (.invocation i :: p.1, p.2)
  | (.chain header slot, after) =>
    match c.nodesOf (some 0) after with
    | .error e => .error e
    | .ok (steps, after) =>
      if steps.isEmpty then c.stop .chainWithoutSteps header after
      else (c.nodesOf (step.map (· + 1)) after).map fun p =>
        (.chain slot header.line header.column steps :: p.1, p.2)

theorem takeHeading_eq_bind (step : Option Nat) (ts : List Token) :
    c.takeHeading step ts = c.takeName ts >>= fun p =>
      if p.1.1.text = chainCommand then
        c.takeChainStart p.1.1 p.1.2 (step.map fun _ => p.1.2.label) p.2
      else c.takeCommand p.1.1 p.1.2 (step.map fun _ => p.1.2.label) step p.2 := by
  rw [takeHeading]
  rcases c.takeName ts with e | ⟨found, ts⟩ <;> rfl

theorem afterHeading_chain (step : Option Nat) (header : Token) (slot : Option String)
    (after : List Token) :
    c.afterHeading step (.chain header slot, after) = c.nodesOf (some 0) after >>= fun p =>
      if p.1.isEmpty then c.stop .chainWithoutSteps header p.2
      else (c.nodesOf (step.map (· + 1)) p.2).map fun q =>
        (.chain slot header.line header.column p.1 :: q.1, q.2) := by
  rw [afterHeading]
  rcases c.nodesOf (some 0) after with e | ⟨steps, after⟩ <;> rfl

theorem nodesOf_nil (step : Option Nat) : c.nodesOf step [] = .ok ([], []) := by
  rw [nodesOf, takeNodes.eq_def]
  rfl

variable {t : Token} {rest : List Token}

theorem nodesOf_eof (step : Option Nat) (h : t.kind = .eof) :
    c.nodesOf step (t :: rest) = .ok ([], t :: rest) := by
  rw [nodesOf, takeNodes.eq_def]
  simp only [h]
  rfl

theorem nodesOf_newline (step : Option Nat) (h : t.kind = .newline) :
    c.nodesOf step (t :: rest) = c.nodesOf step rest := by
  rw [nodesOf, nodesOf, takeNodes.eq_def]
  simp only [h]
  cases c.takeNodes step rest <;> rfl

theorem nodesOf_dedent (step : Option Nat) (h : t.kind = .dedent) :
    c.nodesOf step (t :: rest) =
      if step.isSome then .ok ([], rest) else c.stop .strayDedent t (t :: rest) := by
  rw [nodesOf, takeNodes.eq_def]
  cases step <;> simp only [h] <;> rfl

theorem nodesOf_indent (step : Option Nat) (h : t.kind = .indent) :
    c.nodesOf step (t :: rest) =
      c.stop (if step.isSome then .strayIndentInChain else .strayIndent) t (t :: rest) := by
  rw [nodesOf, takeNodes.eq_def]
  cases step <;> simp only [h] <;> rfl

theorem nodesOf_heading (step : Option Nat) 
    (h : t.kind ≠ .eof ∧ t.kind ≠ .newline ∧ t.kind ≠ .dedent ∧ t.kind ≠ .indent) :
    c.nodesOf step (t :: rest) = c.takeHeading step (t :: rest) >>= c.afterHeading step := by
  rw [nodesOf, takeNodes.eq_def]
  obtain ⟨h1, h2, h3, h4⟩ := h
  dsimp only
  split
  all_goals try contradiction
  split
  · rename_i h; rw [h]; rfl
  · rename_i i after h
    conv => rhs; rw [h]
    show _ = (c.nodesOf _ after).map _
    rw [nodesOf]
    cases c.takeNodes _ after <;> rfl
  · rename_i header slot after h
    conv => rhs; rw [h]
    show _ = c.afterHeading _ (.chain header slot, after)
    rw [afterHeading, nodesOf]
    rcases c.takeNodes (some 0) after with e | ⟨⟨steps, after'⟩, hle⟩
    · rfl
    · cases steps with
      | nil => rfl
      | cons first others =>
        dsimp only [Except.map, List.isEmpty_cons]
        rw [if_neg Bool.false_ne_true, nodesOf]
        cases c.takeNodes _ after' <;> rfl


theorem nodesOf_le {step : Option Nat} {ts rest : List Token} {nodes : List Node}
    (h : c.nodesOf step ts = .ok (nodes, rest)) : rest.length ≤ ts.length := by
  rw [nodesOf] at h
  rcases hTaken : c.takeNodes step ts with e | ⟨p, hle⟩
  · rw [hTaken] at h
    cases h
  · rw [hTaken] at h
    cases h
    exact hle

/-- Reading the nodes of a block leaves some tokens. A block ends at a dedent, which it takes, or
with the input. -/
inductive Reads (c : ParseContext) : Option Nat → List Token → List Node → List Token → Prop
  | nothing {step : Option Nat} : Reads c step [] [] []
  | eof {step : Option Nat} {t : Token} {ts : List Token} (kind : t.kind = .eof) :
      Reads c step (t :: ts) [] (t :: ts)
  | newline {step : Option Nat} {t : Token} {ts rest : List Token} {nodes : List Node}
      (kind : t.kind = .newline) (more : Reads c step ts nodes rest) :
      Reads c step (t :: ts) nodes rest
  | dedent {k : Nat} {t : Token} {ts : List Token} (kind : t.kind = .dedent) :
      Reads c (some k) (t :: ts) [] ts
  | command {step : Option Nat} {ts after rest : List Token} {i : Invocation} {nodes : List Node}
      (heading : c.takeHeading step ts = .ok (.command i, after))
      (more : Reads c (step.map (· + 1)) after nodes rest) :
      Reads c step ts (.invocation i :: nodes) rest
  | chain {step : Option Nat} {ts after after' rest : List Token} {header : Token}
      {slot : Option String} {steps nodes : List Node}
      (heading : c.takeHeading step ts = .ok (.chain header slot, after))
      (inner : Reads c (some 0) after steps after') (nonempty : steps ≠ [])
      (more : Reads c (step.map (· + 1)) after' nodes rest) :
      Reads c step ts (.chain slot header.line header.column steps :: nodes) rest

variable {c}

/-- An induction over blocks, by the first token. Behind the heading of a line come the nodes of its
own block, if it is a chain, and the nodes below it. -/
@[elab_as_elim]
theorem block_induction {motive : Option Nat → List Token → Prop} (nil : ∀ step, motive step [])
    (eof : ∀ step t ts, t.kind = .eof → motive step (t :: ts))
    (newline : ∀ step t ts, t.kind = .newline → motive step ts → motive step (t :: ts))
    (dedent : ∀ step t ts, t.kind = .dedent → motive step (t :: ts))
    (indent : ∀ step t ts, t.kind = .indent → motive step (t :: ts))
    (heading : ∀ step t ts,
      t.kind ≠ .eof ∧ t.kind ≠ .newline ∧ t.kind ≠ .dedent ∧ t.kind ≠ .indent →
      (∀ step' (ahead : List Token), ahead.length < (t :: ts).length → motive step' ahead) →
      motive step (t :: ts)) (step : Option Nat) (ts : List Token) : motive step ts := by
  induction hLength : ts.length using Nat.strongRecOn generalizing step ts with
  | ind n ih =>
    subst hLength
    rcases ts with _ | ⟨t, ts⟩
    · exact nil step
    by_cases hEof : t.kind = .eof
    · exact eof step t ts hEof
    by_cases hNewline : t.kind = .newline
    · exact newline step t ts hNewline (ih _ (by simp) step ts rfl)
    by_cases hDedent : t.kind = .dedent
    · exact dedent step t ts hDedent
    by_cases hIndent : t.kind = .indent
    · exact indent step t ts hIndent
    apply heading step t ts ⟨hEof, hNewline, hDedent, hIndent⟩
    intro step' ahead hShorter
    exact ih _ hShorter step' ahead rfl

theorem reads_of_nodesOf {step : Option Nat} {ts rest : List Token} {nodes : List Node}
    (h : c.nodesOf step ts = .ok (nodes, rest)) : Reads c step ts nodes rest := by
  induction step, ts using block_induction generalizing nodes rest with
  | nil step =>
    rw [nodesOf_nil] at h
    cases h
    exact .nothing
  | eof step t ts hEof =>
    rw [c.nodesOf_eof step hEof] at h
    cases h
    exact .eof hEof
  | newline step t ts hNewline ih =>
    rw [c.nodesOf_newline step hNewline] at h
    exact .newline hNewline (ih h)
  | dedent step t ts hDedent =>
    rw [c.nodesOf_dedent step hDedent] at h
    cases step with
    | none => cases h
    | some k =>
      cases h
      exact .dedent hDedent
  | indent step t ts hIndent =>
    rw [c.nodesOf_indent step hIndent] at h
    cases h
  | heading step t ts hKind ih =>
    rw [c.nodesOf_heading step hKind] at h
    rcases hHeading : c.takeHeading step (t :: ts) with e | ⟨heading, after⟩
    · rw [hHeading] at h
      cases h
    have hAfter := c.takeHeading_lt hHeading
    rw [hHeading] at h
    change c.afterHeading step (heading, after) = _ at h
    cases heading with
    | command i =>
      rw [afterHeading] at h
      rcases hMore : c.nodesOf (step.map (· + 1)) after with e | ⟨more, last⟩
      · rw [hMore] at h
        cases h
      · rw [hMore] at h
        cases h
        exact .command hHeading (ih _ _ hAfter hMore)
    | chain header slot =>
      rw [afterHeading] at h
      rcases hInner : c.nodesOf (some 0) after with e | ⟨steps, after'⟩
      · rw [hInner] at h
        cases h
      rw [hInner] at h
      dsimp only at h
      split at h
      · cases h
      · rename_i hSteps
        have hAfter' := c.nodesOf_le hInner
        rcases hMore : c.nodesOf (step.map (· + 1)) after' with e | ⟨more, last⟩
        · rw [hMore] at h
          cases h
        · rw [hMore] at h
          cases h
          exact .chain hHeading (ih _ _ hAfter hInner) (by simpa using hSteps)
            (ih _ _ (Nat.lt_of_le_of_lt hAfter' hAfter) hMore)

theorem kind_of_takeHeading {step : Option Nat} {ts after : List Token} {heading : Heading}
    (h : c.takeHeading step ts = .ok (heading, after)) : nextKind ts = .commandName := by
  unfold takeHeading takeName stop at h
  unfold nextKind
  grind

theorem nodesOf_of_takeHeading {step : Option Nat} {ts after : List Token} {heading : Heading}
    (h : c.takeHeading step ts = .ok (heading, after)) :
    c.nodesOf step ts = c.afterHeading step (heading, after) := by
  have hKind := kind_of_takeHeading h
  cases ts with
  | nil => cases hKind
  | cons t ts =>
    have hName : t.kind = .commandName := hKind
    rw [c.nodesOf_heading step (by simp [hName]), h]
    rfl

theorem nodesOf_of_reads {step : Option Nat} {ts rest : List Token} {nodes : List Node}
    (h : Reads c step ts nodes rest) : c.nodesOf step ts = .ok (nodes, rest) := by
  induction h with
  | nothing => exact c.nodesOf_nil _
  | eof kind => exact c.nodesOf_eof _ kind
  | newline kind _ ih => rw [c.nodesOf_newline _ kind, ih]
  | dedent kind => rw [c.nodesOf_dedent _ kind]; rfl
  | command heading _ ih =>
    rw [nodesOf_of_takeHeading heading, afterHeading, ih]
    rfl
  | chain heading _ nonempty _ ihInner ihMore =>
    rw [nodesOf_of_takeHeading heading, afterHeading, ihInner]
    dsimp only
    rw [if_neg (by simpa using nonempty), ihMore]
    rfl

theorem nodesOf_eq_ok_iff {step : Option Nat} {ts rest : List Token} {nodes : List Node} :
    c.nodesOf step ts = .ok (nodes, rest) ↔ Reads c step ts nodes rest :=
  ⟨reads_of_nodesOf, nodesOf_of_reads⟩

/-- A failure of two parsers in a row is one of the first, or of the second behind it. -/
theorem error_of_bind {α β : Type} {x : Except Stop α} {f : α → Except Stop β} {e : Stop}
    (h : x >>= f = .error e) : x = .error e ∨ ∃ a, x = .ok a ∧ f a = .error e := by
  cases x with
  | error e' =>
    cases h
    exact .inl rfl
  | ok a => exact .inr ⟨a, rfl, h⟩

/-- Where a parse stands: the number of the next step within its chain, if there is one, and the
tokens that are still ahead. -/
structure Position where
  step : Option Nat
  ahead : List Token

/-- From where a parse stands it goes on behind a line or a chain, or inside a chain. -/
inductive Proceeds (c : ParseContext) : Position → Position → Prop
  | newline {step : Option Nat} {t : Token} {ts : List Token} (kind : t.kind = .newline) :
      Proceeds c ⟨step, t :: ts⟩ ⟨step, ts⟩
  | command {step : Option Nat} {ts after : List Token} {i : Invocation}
      (heading : c.takeHeading step ts = .ok (.command i, after)) :
      Proceeds c ⟨step, ts⟩ ⟨step.map (· + 1), after⟩
  | inside {step : Option Nat} {ts after : List Token} {header : Token} {slot : Option String}
      (heading : c.takeHeading step ts = .ok (.chain header slot, after)) :
      Proceeds c ⟨step, ts⟩ ⟨some 0, after⟩
  | behind {step : Option Nat} {ts after after' : List Token} {header : Token}
      {slot : Option String} {steps : List Node}
      (heading : c.takeHeading step ts = .ok (.chain header slot, after))
      (inner : Reads c (some 0) after steps after') :
      Proceeds c ⟨step, ts⟩ ⟨step.map (· + 1), after'⟩

def Visits (c : ParseContext) : Position → Position → Prop := Relation.ReflTransGen (Proceeds c)

theorem Visits.preserves {motive : Position → Prop} {p q : Position} (h : Visits c p q)
    (start : motive p) (step : ∀ {p q}, Proceeds c p q → motive p → motive q) : motive q := by
  induction h with
  | refl => exact start
  | tail _ last ih => exact step last ih

/-- The ways in which a parse fails where it stands. -/
inductive FailsAt (c : ParseContext) : Position → Stop → Prop
  | dedent {t : Token} {ts : List Token} (kind : t.kind = .dedent) :
      FailsAt c ⟨none, t :: ts⟩ ⟨⟨.parse .strayDedent, c.placeOf t none⟩, t :: ts⟩
  | indent {step : Option Nat} {t : Token} {ts : List Token} (kind : t.kind = .indent) :
      FailsAt c ⟨step, t :: ts⟩ ⟨⟨.parse (if step.isSome then .strayIndentInChain else .strayIndent),
        c.placeOf t none⟩, t :: ts⟩
  | heading {step : Option Nat} {ts : List Token} {e : Stop}
      (fails : c.takeHeading step ts = .error e) : FailsAt c ⟨step, ts⟩ e
  | noSteps {step : Option Nat} {ts after after' : List Token} {header : Token}
      {slot : Option String} (heading : c.takeHeading step ts = .ok (.chain header slot, after))
      (inner : Reads c (some 0) after [] after') :
      FailsAt c ⟨step, ts⟩ ⟨⟨.parse .chainWithoutSteps, c.placeOf header none⟩, after'⟩

/-- A parse fails at one of the places that it comes to. -/
theorem visits_of_error {step : Option Nat} {ts : List Token} {e : Stop}
    (h : c.nodesOf step ts = .error e) : ∃ q, Visits c ⟨step, ts⟩ q ∧ FailsAt c q e := by
  have hNext {p q : Position} (proceeds : Proceeds c p q)
      (ih : c.nodesOf q.step q.ahead = .error e → ∃ r, Visits c q r ∧ FailsAt c r e)
      (h : c.nodesOf q.step q.ahead = .error e) : ∃ r, Visits c p r ∧ FailsAt c r e := by
    obtain ⟨r, hVisits, hFails⟩ := ih h
    exact ⟨r, .head proceeds hVisits, hFails⟩
  induction step, ts using block_induction with
  | nil step =>
    rw [nodesOf_nil] at h
    cases h
  | eof step t ts hEof =>
    rw [c.nodesOf_eof step hEof] at h
    cases h
  | newline step t ts hNewline ih =>
    rw [c.nodesOf_newline step hNewline] at h
    exact hNext (.newline hNewline) ih h
  | dedent step t ts hDedent =>
    rw [c.nodesOf_dedent step hDedent] at h
    cases step with
    | none =>
      cases h
      exact ⟨_, .refl, .dedent hDedent⟩
    | some k => cases h
  | indent step t ts hIndent =>
    rw [c.nodesOf_indent step hIndent] at h
    cases h
    exact ⟨_, .refl, .indent hIndent⟩
  | heading step t ts hKind ih =>
    rw [c.nodesOf_heading step hKind] at h
    obtain hFails | ⟨⟨heading, after⟩, hHeading, hFails⟩ := error_of_bind h
    · exact ⟨_, .refl, .heading hFails⟩
    clear h
    have hAfter := c.takeHeading_lt hHeading
    cases heading with
    | command i =>
      rw [afterHeading] at hFails
      rcases hMore : c.nodesOf (step.map (· + 1)) after with e' | more
      · rw [hMore] at hFails
        cases hFails
        exact hNext (.command hHeading) (ih _ _ hAfter) hMore
      · rw [hMore] at hFails
        cases hFails
    | chain header slot =>
      rw [afterHeading] at hFails
      rcases hInner : c.nodesOf (some 0) after with e' | ⟨steps, after'⟩
      · rw [hInner] at hFails
        cases hFails
        exact hNext (.inside hHeading) (ih _ _ hAfter) hInner
      rw [hInner] at hFails
      dsimp only at hFails
      split at hFails
      · rename_i hNone
        rw [List.isEmpty_iff.mp hNone] at hInner
        cases hFails
        exact ⟨_, .refl, .noSteps hHeading (reads_of_nodesOf hInner)⟩
      · have hAfter' := Nat.lt_of_le_of_lt (c.nodesOf_le hInner) hAfter
        rcases hMore : c.nodesOf (step.map (· + 1)) after' with e' | more
        · rw [hMore] at hFails
          cases hFails
          exact hNext (.behind hHeading (reads_of_nodesOf hInner)) (ih _ _ hAfter') hMore
        · rw [hMore] at hFails
          cases hFails

end Directive.ParseContext

namespace Directive.Script

open ParseContext

theorem ofTokens_eq_map (g : Grammar) (lines : List String) (ts : List Token) :
    ofTokens g lines ts = (nodesOf ⟨g, lines⟩ none ts).map fun p => ⟨p.1⟩ := by
  unfold ofTokens nodesOf
  cases takeNodes ⟨g, lines⟩ none ts <;> rfl

theorem ofTokens_eq_ok_iff {g : Grammar} {lines : List String} {ts : List Token} {s : Script} :
    ofTokens g lines ts = .ok s ↔ ∃ rest, Reads ⟨g, lines⟩ none ts s.items rest := by
  simp only [← nodesOf_eq_ok_iff, ofTokens_eq_map]
  rcases nodesOf ⟨g, lines⟩ none ts with e | ⟨items, rest⟩
  · simp [Except.map]
  · cases s
    simp [Except.map]

theorem nodesOf_of_ofTokens_error {g : Grammar} {lines : List String} {ts : List Token} {e : Stop}
    (h : ofTokens g lines ts = .error e) : nodesOf ⟨g, lines⟩ none ts = .error e := by
  rw [ofTokens_eq_map] at h
  rcases hNodes : nodesOf ⟨g, lines⟩ none ts with e' | p
  · rw [hNodes] at h
    cases h
    rfl
  · rw [hNodes] at h
    cases h

end Directive.Script
