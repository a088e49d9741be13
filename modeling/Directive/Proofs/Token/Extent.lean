import Directive.Proofs.Token.Cover

/-!
# How far a line reaches

* `OnLine`: what is taken of the line on which a scanner starts;
* `onLine_header`, `argument_takes`: only block strings go on behind the end of their line;
* `scanLine_passes`: no line of code or of comment goes on behind a line end, but inside a block
  string.
-/

namespace Directive

theorem not_mem_of_nameAt? {p : Char → Bool} (hp : p '\n' = false) {text name : List Char}
    (h : nameAt? p text = some name) : '\n' ∉ name := by
  unfold nameAt? at h
  split at h
  · cases h
  · split at h
    · rename_i hStart
      cases h
      intro hLine
      rcases List.mem_cons.mp hLine with rfl | hLine
      · simp [isNameStart] at hStart
      · have hTaken := List.all_eq_true.mp List.all_takeWhile _ hLine
        rw [hp] at hTaken
        cases hTaken
    · cases h

theorem QuotedAs.oneLine {body text : List Char} (h : QuotedAs body text) : '\n' ∉ body := by
  induction h with
  | nil => simp
  | escaped hLine _ ih => simpa [Ne.symm hLine] using ih
  | plain _ _ hLine _ ih => simpa [Ne.symm hLine] using ih

/-- What is taken of the line on which a scanner starts: characters up to its end at most, and the
tokens that they are read as. -/
structure OnLine (c : Cursor) (taken : List Char) (ts : List Token) : Prop where
  front : taken <+: c.rest
  oneLine : '\n' ∉ taken
  kind : ∀ t ∈ ts, t.kind ≠ .blockString
  line : ∀ t ∈ ts, t.line = c.line

variable {c : Cursor}

theorem OnLine.line_advance {taken : List Char} {ts : List Token} (h : OnLine c taken ts) :
    (c.advance taken.length).line = c.line := by
  rw [Cursor.line_advance, ← List.prefix_iff_eq_take.mp h.front,
    List.count_eq_zero_of_not_mem h.oneLine]
  simp

theorem onLine_header (c : Cursor) :
    ∃ taken, taken.length = (header c).2 ∧ OnLine c taken (header c).1 := by
  have hNone : OnLine c [] [] := ⟨List.nil_prefix, by simp, by simp, by simp⟩
  unfold header
  split
  · exact ⟨[], rfl, hNone⟩
  · rename_i name hName
    obtain ⟨left, hRest⟩ := nameAt?_eq_some hName
    have hLine : '\n' ∉ name := not_mem_of_nameAt? (by decide) hName
    have hLeft : (c.advance name.length).rest = left := by simp [hRest]
    have hWord : OnLine c name [c.token .commandName name] :=
      ⟨⟨left, hRest.symm⟩, hLine, by simp [Cursor.token], by simp [Cursor.token]⟩
    dsimp only
    rw [hLeft]
    split
    · rename_i more
      have hColon := hWord.line_advance
      refine ⟨name ++ [':'], by simp, ⟨more, by simp [hRest]⟩, by simpa using hLine, ?_, ?_⟩
      · simp [Cursor.token]
      · simp [Cursor.token, hColon]
    · exact ⟨name, rfl, hWord⟩
    · split
      · exact ⟨name, rfl, hWord⟩
      · exact ⟨[], rfl, hNone⟩

theorem onLine_modifierValue {t : Token} {n : Nat} (h : modifierValue c = .ok (t, n)) :
    ∃ taken, taken.length = n ∧ OnLine c taken [t] := by
  unfold modifierValue at h
  split at h
  · rename_i cs hRest
    split at h
    · rename_i text m hQuoted
      cases h
      obtain ⟨body, left, rfl, hBody, rfl⟩ := quotedBody?_eq_some hQuoted
      refine ⟨'"' :: (body ++ ['"']), by simp, ⟨left, by simp [hRest]⟩, ?_, by simp [Cursor.token],
        by simp [Cursor.token]⟩
      simpa using hBody.oneLine
    · cases h
  · cases h
    refine ⟨_, rfl, List.takeWhile_prefix _, fun hLine => ?_, by simp [Cursor.token],
      by simp [Cursor.token]⟩
    exact absurd (List.all_eq_true.mp List.all_takeWhile _ hLine) (by decide)

theorem onLine_modifier {ts : List Token} {n : Nat} (dashes : ['-', '-'] <+: c.rest)
    (h : modifier c = .ok (ts, n)) : ∃ taken, taken.length = n ∧ OnLine c taken ts := by
  obtain ⟨cs, hRest⟩ := dashes
  have hAtKey : (c.advance 2).rest = cs := by simp [← hRest]
  unfold modifier at h
  dsimp only at h
  split at h
  · cases h
  rename_i key hKey
  rw [hAtKey] at hKey
  obtain ⟨left, rfl⟩ := nameAt?_eq_some hKey
  have hLine : '\n' ∉ key := not_mem_of_nameAt? (by decide) hKey
  have hAlone : OnLine c ('-' :: '-' :: key) [c.token .modifierKey key] :=
    ⟨⟨left, by simp [← hRest]⟩, by simpa using hLine, by simp [Cursor.token], by simp [Cursor.token]⟩
  have hLeft : ((c.advance 2).advance key.length).rest = left := by
    rw [Cursor.rest_advance, hAtKey, List.drop_left]
  have hAfter : ((c.advance 2).advance key.length).line = c.line := by
    rw [Cursor.line_advance, hAtKey, Cursor.line_advance, ← hRest]
    simp [List.count_eq_zero_of_not_mem hLine]
  rw [hLeft] at h
  split at h
  · rename_i more
    rcases hValue : modifierValue ((c.advance 2).advance key.length).next with e | ⟨value, m⟩
    · rw [hValue] at h
      cases h
    rw [hValue] at h
    cases h
    have hNext : ((c.advance 2).advance key.length).next.rest = more := by
      rw [Cursor.rest_next, hLeft]
      rfl
    have hNextLine : ((c.advance 2).advance key.length).next.line = c.line := by
      rw [Cursor.line_next, hAfter, hLeft]
      simp
    obtain ⟨taken, rfl, ⟨last, hTaken⟩, hOneLine, hKind, hValueLine⟩ := onLine_modifierValue hValue
    rw [hNext] at hTaken
    rw [hNextLine] at hValueLine
    refine ⟨'-' :: '-' :: (key ++ '=' :: taken), ?_, ⟨last, by simp [← hRest, ← hTaken]⟩, ?_, ?_, ?_⟩
    · simp only [List.length_cons, List.length_append]
      omega
    · simpa using ⟨hLine, hOneLine⟩
    · exact List.forall_mem_cons.mpr ⟨by simp [Cursor.token], hKind⟩
    · exact List.forall_mem_cons.mpr ⟨rfl, hValueLine⟩
  · cases h
    exact ⟨_, by simp, hAlone⟩
  · split at h
    · cases h
    · cases h
      exact ⟨_, by simp, hAlone⟩

/-- An argument stays on its line, unless it is a block string. -/
theorem argument_takes {ts : List Token} {n : Nat} (h : argument c = .ok (ts, n)) :
    (∃ text left, c.rest = blockQuote text ++ left ∧ n = (blockQuote text).length ∧
      ts = [c.token .blockString text]) ∨ ∃ taken, taken.length = n ∧ OnLine c taken ts := by
  unfold argument at h
  split at h
  · rename_i cs hRest
    split at h
    · rename_i text hBlock
      cases h
      obtain ⟨left, rfl⟩ := blockBody?_eq_some hBlock
      exact .inl ⟨text, left, by simp [hRest, blockQuote], by simp [blockQuote], rfl⟩
    · cases h
  · rename_i cs _ hRest
    split at h
    · rename_i text m hQuoted
      cases h
      obtain ⟨body, left, rfl, hBody, rfl⟩ := quotedBody?_eq_some hQuoted
      refine .inr ⟨'"' :: (body ++ ['"']), by simp, ⟨left, by simp [hRest]⟩, ?_,
        by simp [Cursor.token], by simp [Cursor.token]⟩
      simpa using hBody.oneLine
    · cases h
  · rename_i cs hRest
    exact .inr (onLine_modifier ⟨cs, hRest.symm⟩ h)
  · cases h
    obtain ⟨left, hRest, hLine⟩ := referenceSpan_prefix c.rest
    exact .inr ⟨_, rfl, ⟨left, hRest.symm⟩, hLine, by simp [Cursor.token], by simp [Cursor.token]⟩

theorem length_of_argument {ts : List Token} {n : Nat} (h : argument c = .ok (ts, n)) :
    n ≤ c.rest.length := by
  obtain ⟨text, left, hRest, rfl, -⟩ | ⟨taken, rfl, hTaken⟩ := argument_takes h
  · simp [hRest]
  · exact hTaken.front.length_le

/-- Line `n` starts inside a block string: one line end of the string at least is in front of it. -/
def InsideBlock (ts : List Token) (n : Int) : Prop :=
  ∃ t ∈ ts, t.kind = .blockString ∧ t.line < n ∧ n ≤ t.line + t.text.toList.count '\n'

theorem InsideBlock.mono {ts more : List Token} {n : Int} (h : InsideBlock ts n) (le : ts ⊆ more) :
    InsideBlock more n := by
  obtain ⟨t, ht, h⟩ := h
  exact ⟨t, le ht, h⟩

/-- Between two cursors a text is read as tokens. It does not end with a line end, and holds none but
inside the block strings. -/
structure Passes (c last : Cursor) (taken : List Char) (ts : List Token) : Prop where
  split : c.rest = taken ++ last.rest
  here : c.advance taken.length = last
  ends : taken.getLast? ≠ some '\n'
  inside : ∀ n, c.line < n → n ≤ last.line → InsideBlock ts n
  lines : ∀ t ∈ ts, c.line ≤ t.line ∧ t.line ≤ last.line

namespace Passes

variable {mid last : Cursor} {taken taken' : List Char} {ts ts' : List Token}

theorem line (h : Passes c last taken ts) : last.line = c.line + taken.count '\n' := by
  rw [← h.here, Cursor.line_advance, h.split, List.take_left]

theorem trans (h : Passes c mid taken ts) (h' : Passes mid last taken' ts') :
    Passes c last (taken ++ taken') (ts ++ ts') := by
  refine ⟨?_, ?_, ?_, fun n hBehind hLe => ?_, fun t ht => ?_⟩
  · rw [h.split, h'.split, List.append_assoc]
  · rw [List.length_append, ← h'.here, ← h.here, Cursor.advance_advance]
  · rw [List.getLast?_append]
    cases hLast : taken'.getLast? with
    | none => exact h.ends
    | some ch =>
      rw [Option.some_or, ← hLast]
      exact h'.ends
  · by_cases hMid : n ≤ mid.line
    · exact (h.inside n hBehind hMid).mono (List.subset_append_left _ _)
    · exact (h'.inside n (by omega) hLe).mono (List.subset_append_right _ _)
  · have hFirst := h.line
    have hSecond := h'.line
    rcases List.mem_append.mp ht with ht | ht
    · have hPlace := h.lines t ht
      omega
    · have hPlace := h'.lines t ht
      omega

theorem of_onLine (h : OnLine c taken ts) : Passes c (c.advance taken.length) taken ts := by
  obtain ⟨left, hLeft⟩ := h.front
  refine ⟨?_, rfl, fun hEnd => h.oneLine (List.mem_of_getLast? hEnd), fun n hBehind hLe => ?_,
    fun t ht => ?_⟩
  · rw [Cursor.rest_advance, ← hLeft, List.drop_left]
  · rw [h.line_advance] at hLe
    omega
  · rw [h.line_advance, h.line t ht]
    omega

theorem skip {p : Char → Bool} (hp : p '\n' = false) (c : Cursor) :
    Passes c (c.skip p) (c.rest.takeWhile p) [] :=
  of_onLine ⟨List.takeWhile_prefix p, fun hLine =>
    absurd (List.all_eq_true.mp List.all_takeWhile _ hLine) (by simp [hp]), by simp, by simp⟩

theorem block {text left : List Char} (hRest : c.rest = blockQuote text ++ left) :
    Passes c (c.advance (blockQuote text).length) (blockQuote text)
      [c.token .blockString text] := by
  refine ⟨?_, rfl, ?_, fun n hBehind hLe => ?_, ?_⟩
  · rw [Cursor.rest_advance, hRest, List.drop_left]
  · rw [blockQuote, ← List.cons_append, ← List.cons_append, ← List.cons_append, List.getLast?_append]
    simp
  · rw [Cursor.line_advance, hRest, List.take_left] at hLe
    refine ⟨_, List.mem_singleton_self _, rfl, hBehind, ?_⟩
    simpa [blockQuote, Cursor.token] using hLe
  · simpa [Cursor.token] using c.line_le_advance (blockQuote text).length

theorem argument {n : Nat} (h : Directive.argument c = .ok (ts, n)) :
    ∃ taken, taken.length = n ∧ Passes c (c.advance n) taken ts := by
  obtain ⟨text, left, hRest, rfl, rfl⟩ | ⟨taken, rfl, hTaken⟩ := argument_takes h
  · exact ⟨_, rfl, block hRest⟩
  · exact ⟨taken, rfl, of_onLine hTaken⟩

theorem scanArguments (h : Directive.scanArguments c = .ok (ts, last)) :
    ∃ taken, Passes c last taken ts := by
  fun_induction Directive.scanArguments c generalizing ts last with
  | case1 c here =>
    cases h
    exact ⟨_, skip (by decide) c⟩
  | case2 => cases h
  | case3 => cases h
  | case4 c here _ first n hFirst _ more _ hMore =>
    rename_i ih
    cases h
    obtain ⟨first', rfl, hArgument⟩ := argument hFirst
    obtain ⟨more', hBehind⟩ := ih hMore
    exact ⟨_, (skip (by decide) c).trans (hArgument.trans hBehind)⟩
  | case5 => cases h
  | case6 => cases h

end Passes

theorem line_of_enter {l inner : Layout} {run : List Char} {line : Int} {ts : List Token}
    (h : l.enter run line = .ok (inner, ts)) : ∀ t ∈ ts, t.line = line := by
  obtain ⟨-, ⟨rfl, -, -⟩ | ⟨left, rfl, -⟩⟩ := enter_cases h
  · simp
  · simp

/-- A line stands on the lines of the text on which its block strings stand. -/
theorem scanLine_passes {l inner : Layout} {last : Cursor} {ts : List Token}
    (h : scanLine l c = .ok (ts, inner, last)) : ∃ taken, Passes c last taken ts := by
  have hIndent : Passes c (c.skip isIndentChar) _ [] := .skip (by decide) c
  unfold scanLine at h
  dsimp only at h
  rw [show c.advance (c.rest.takeWhile isIndentChar).length = c.skip isIndentChar from rfl] at h
  split at h
  · cases h
    exact ⟨_, hIndent.trans (.skip (by decide) _)⟩
  split at h
  · cases h
  rename_i lead hEnter
  split at h
  · cases h
  case h_3 => cases h
  rename_i arguments last' hArguments
  cases h
  obtain ⟨name, hName, hHeader⟩ := onLine_header (c.skip isIndentChar)
  rw [← hName] at hArguments
  obtain ⟨taken, hTaken⟩ := Passes.scanArguments hArguments
  have hCode := hIndent.trans ((Passes.of_onLine hHeader).trans hTaken)
  rw [List.nil_append] at hCode
  refine ⟨_, hCode.split, hCode.here, hCode.ends, fun n hBehind hLe => ?_, fun t ht => ?_⟩
  · refine (hCode.inside n hBehind hLe).mono ?_
    rw [List.append_assoc lead]
    exact List.subset_append_of_subset_left _ (List.subset_append_right _ _)
  · have hLine := hCode.line
    have hHere : (c.skip isIndentChar).line = c.line := (c.at_skip (by decide)).1
    rw [List.append_assoc lead] at ht
    rcases List.mem_append.mp ht with ht | ht
    · rcases List.mem_append.mp ht with ht | ht
      · have hLead := line_of_enter hEnter t ht
        omega
      · exact hCode.lines t ht
    · rw [List.mem_singleton.mp ht]
      dsimp only [Cursor.token]
      omega

end Directive
