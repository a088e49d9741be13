import Directive.Proofs.Script.Closing
import Directive.Proofs.Script.Shape

/-!
# What a text has from its lines

A parse comes to one line after another. What it finds there is what becomes of the text.

* `ofText_of_visits`: the fault of a line that a parse comes to is the fault of the text;
* `mem_invocations_of_visits`: the command of a line that a parse comes to is in the tree.
-/

namespace Directive.ParseContext

variable {c : ParseContext} {step : Option Nat} {ts rest : List Token} {e : Stop}

/-- Where the tokens are in lines, a parse fails wherever it comes to a failure. -/
theorem error_of_proceeds {p q : Position} (h : Proceeds c p q) (lines : p.InLines)
    (fails : c.nodesOf q.step q.ahead = .error e) : c.nodesOf p.step p.ahead = .error e := by
  cases h with
  | newline kind =>
    rw [c.nodesOf_newline _ kind]
    exact fails
  | command heading =>
    rw [nodesOf_of_takeHeading heading, afterHeading, fails]
    rfl
  | inside heading =>
    rw [nodesOf_of_takeHeading heading, afterHeading_chain, fails]
    rfl
  | @behind _ _ _ _ _ _ steps heading inner =>
    obtain ⟨opens, depth, laid, -⟩ := lines
    have hSteps : ¬ steps.isEmpty = true := by
      simpa using steps_ne_nil_of_laid laid heading inner
    rw [nodesOf_of_takeHeading heading, afterHeading_chain, nodesOf_of_reads inner]
    change (if _ then _ else _) = _
    rw [if_neg hSteps, fails]
    rfl

theorem command_of_reads {after : List Token} {i : Invocation} {nodes : List Node}
    (heading : c.takeHeading step ts = .ok (.command i, after)) (h : Reads c step ts nodes rest) :
    ∃ more, Reads c (step.map (· + 1)) after more rest ∧ nodes = .invocation i :: more := by
  have hNodes := nodesOf_of_reads h
  rw [nodesOf_of_takeHeading heading, afterHeading] at hNodes
  rcases hMore : c.nodesOf (step.map (· + 1)) after with e | ⟨more, rest'⟩
  · rw [hMore] at hNodes
    cases hNodes
  · rw [hMore] at hNodes
    cases hNodes
    exact ⟨more, reads_of_nodesOf hMore, rfl⟩

theorem chain_of_reads {after : List Token} {header : Token} {slot : Option String}
    {nodes : List Node} (heading : c.takeHeading step ts = .ok (.chain header slot, after))
    (h : Reads c step ts nodes rest) :
    ∃ steps after' more, Reads c (some 0) after steps after' ∧
      Reads c (step.map (· + 1)) after' more rest ∧
      nodes = .chain slot header.line header.column steps :: more := by
  have hNodes := nodesOf_of_reads h
  rw [nodesOf_of_takeHeading heading, afterHeading_chain] at hNodes
  obtain ⟨⟨steps, after'⟩, hInner, hBehind⟩ := ok_of_bind hNodes
  dsimp only at hBehind
  split at hBehind
  · cases hBehind
  rcases hMore : c.nodesOf (step.map (· + 1)) after' with e | ⟨more, rest'⟩
  · rw [hMore] at hBehind
    cases hBehind
  · rw [hMore] at hBehind
    cases hBehind
    exact ⟨steps, after', more, reads_of_nodesOf hInner, reads_of_nodesOf hMore, rfl⟩

/-- A parse that succeeds has everything in its tree that is read where it comes to. -/
theorem reads_of_proceeds {p q : Position} {nodes : List Node} (h : Proceeds c p q)
    (reads : Reads c p.step p.ahead nodes rest) :
    ∃ nodes' rest', Reads c q.step q.ahead nodes' rest' ∧
      Node.allInvocations nodes' ⊆ Node.allInvocations nodes := by
  cases h with
  | newline kind =>
    have hNodes := nodesOf_of_reads reads
    rw [c.nodesOf_newline _ kind] at hNodes
    exact ⟨nodes, rest, reads_of_nodesOf hNodes, List.Subset.refl _⟩
  | command heading =>
    obtain ⟨more, hMore, rfl⟩ := command_of_reads heading reads
    exact ⟨more, rest, hMore, List.subset_cons_self _ _⟩
  | inside heading =>
    obtain ⟨steps, after', more, hInner, -, rfl⟩ := chain_of_reads heading reads
    exact ⟨steps, after', hInner, List.subset_append_left _ _⟩
  | behind heading inner =>
    obtain ⟨steps, after', more, hInner, hMore, rfl⟩ := chain_of_reads heading reads
    have hSame := (nodesOf_of_reads inner).symm.trans (nodesOf_of_reads hInner)
    cases hSame
    exact ⟨more, rest, hMore, List.subset_append_right _ _⟩

/-- A command that a parse comes to is one of the commands of the script. -/
theorem mem_invocations_of_visits {g : Grammar} {text : String} {tokens after : List Token}
    {p : Position} {i : Invocation} {s : Script} (parsed : Script.ofText g text = .ok s)
    (hTokens : Token.ofText text = .ok tokens)
    (visits : Visits ⟨g, Script.quotableLines text⟩ ⟨none, tokens⟩ p)
    (heading : takeHeading ⟨g, Script.quotableLines text⟩ p.step p.ahead =
      .ok (.command i, after)) : i ∈ s.invocations := by
  obtain ⟨tokens', rest, hTokens', hReads⟩ := reads_of_ofText parsed
  rw [hTokens] at hTokens'
  cases hTokens'
  have hHere : ∃ nodes rest', Reads ⟨g, Script.quotableLines text⟩ p.step p.ahead nodes rest' ∧
      Node.allInvocations nodes ⊆ s.invocations := by
    -- The induction is over all positions on the way, and at most of them there is no such line.
    clear heading
    induction visits with
    | refl => exact ⟨s.items, rest, hReads, List.Subset.refl _⟩
    | tail before last ih =>
      obtain ⟨nodes, rest', hNodes, hSubset⟩ := ih
      obtain ⟨nodes', rest'', hNodes', hSubset'⟩ := reads_of_proceeds last hNodes
      exact ⟨nodes', rest'', hNodes', List.Subset.trans hSubset' hSubset⟩
  obtain ⟨nodes, rest', hNodes, hSubset⟩ := hHere
  obtain ⟨more, -, rfl⟩ := command_of_reads heading hNodes
  exact hSubset List.mem_cons_self

/-- A fault of a line that a parse comes to is the fault of the text. -/
theorem ofText_of_visits {g : Grammar} {text : String} {tokens : List Token} {p : Position}
    (hTokens : Token.ofText text = .ok tokens)
    (visits : Visits ⟨g, Script.quotableLines text⟩ ⟨none, tokens⟩ p)
    (name : nextKind p.ahead = .commandName)
    (fails : takeHeading ⟨g, Script.quotableLines text⟩ p.step p.ahead = .error e) :
    Script.ofText g text = .error e.fault := by
  have hHere : nodesOf ⟨g, Script.quotableLines text⟩ p.step p.ahead = .error e := by
    obtain ⟨step, _ | ⟨t, ts⟩⟩ := p
    · cases name
    · have hKind : t.kind = .commandName := name
      rw [nodesOf_heading _ _ (by simp [hKind]), fails]
      rfl
  have hStart : nodesOf ⟨g, Script.quotableLines text⟩ none tokens = .error e := by
    -- From that line back to the start. A chain without steps would be a fault of its own behind the
    -- steps, but the tokens of a text leave none empty.
    clear name fails
    induction visits with
    | refl => exact hHere
    | tail before last ih =>
      exact ih (error_of_proceeds last (inLines_of_visits (laid_of_ofText hTokens) before) hHere)
  rw [Script.ofText, hTokens]
  dsimp only
  rw [Script.ofTokens_eq_map, hStart]
  rfl

end Directive.ParseContext
