import Directive.Proofs.Token.Extent
import Directive.Proofs.Token.Relocated
import Directive.Proofs.Token.Writing

/-!
# Lines in front of another text

What is read of a line does not depend on what stands behind the line.

* `argument_onto`: an argument in front of such a text;
* `behindCode`: what is left of a text behind a line of code;
* `scanArguments_onto`, `scanCode_onto`, `scanLine_onto`: a line in front of another text than its own.
-/

namespace Directive

theorem quotedBody?_plain {c : Char} {cs : List Char} (unquoted : c ≠ '"') (unescaped : c ≠ '\\')
    (oneLine : c ≠ '\n') :
    quotedBody? (c :: cs) = (quotedBody? cs).map fun (text, n) => (c :: text, n + 1) := by
  rw [quotedBody?.eq_def]
  split <;> simp_all

namespace EndsLine

variable {tail : List Char}

theorem takeWhile {p : Char → Bool} (h : EndsLine tail) (hp : p '\n' = false)
    (text : List Char) : (text ++ tail).takeWhile p = text.takeWhile p := by
  induction text with
  | nil =>
    obtain rfl | ⟨more, rfl⟩ := h.cases
    · rfl
    · simp [hp]
  | cons c text ih =>
    by_cases hc : p c = true
    · simp [hc, ih]
    · simp [hc]

theorem prefix_iff {front : List Char} (h : EndsLine tail) (hFront : '\n' ∉ front)
    (text : List Char) : front <+: text ++ tail ↔ front <+: text := by
  induction front generalizing text with
  | nil => simp
  | cons f front ih =>
    rw [List.mem_cons, not_or] at hFront
    cases text with
    | nil =>
      obtain rfl | ⟨more, rfl⟩ := h.cases
      · rfl
      · simp [Ne.symm hFront.1]
    | cons c text =>
      rw [List.cons_append, List.cons_prefix_cons, List.cons_prefix_cons, ih hFront.2]

theorem nameAt? {p : Char → Bool} (h : EndsLine tail) (hp : p '\n' = false) (text : List Char) :
    Directive.nameAt? p (text ++ tail) = Directive.nameAt? p text := by
  cases text with
  | nil =>
    obtain rfl | ⟨more, rfl⟩ := h.cases
    · rfl
    · simp [Directive.nameAt?, isNameStart]
  | cons c text => rw [List.cons_append, Directive.nameAt?, Directive.nameAt?, h.takeWhile hp]

theorem referenceSpan (h : EndsLine tail) (text : List Char) :
    Directive.referenceSpan (text ++ tail) = Directive.referenceSpan text := by
  induction text with
  | nil =>
    obtain rfl | ⟨more, rfl⟩ := h.cases
    · rfl
    · simp [Directive.referenceSpan]
  | cons c text ih =>
    have hDashes : ['-', '-'].isPrefixOf (text ++ tail) = ['-', '-'].isPrefixOf text := by
      rw [Bool.eq_iff_iff, List.isPrefixOf_iff_prefix, List.isPrefixOf_iff_prefix]
      exact h.prefix_iff (by decide) text
    rw [List.cons_append, Directive.referenceSpan, Directive.referenceSpan, hDashes, ih]

theorem quotedBody? (h : EndsLine tail) (text : List Char) :
    Directive.quotedBody? (text ++ tail) = Directive.quotedBody? text := by
  fun_induction Directive.quotedBody? text with
  | case1 => obtain rfl | ⟨more, rfl⟩ := h.cases <;> rfl
  | case2 => rfl
  | case3 => rfl
  | case4 => obtain rfl | ⟨more, rfl⟩ := h.cases <;> rfl
  | case5 => rfl
  | case6 c cs oneLine ih =>
    rw [List.cons_append, List.cons_append, Directive.quotedBody?, ih]
    exact oneLine
  | case7 c cs unquoted oneLine alone _ unescaped ih =>
    have hSlash : c ≠ '\\' := fun hSlash => by
      cases cs with
      | nil => exact alone hSlash rfl
      | cons d cs => exact unescaped d cs hSlash rfl
    rw [List.cons_append, quotedBody?_plain unquoted hSlash oneLine, ih]

end EndsLine

/-- The cursor in front of the same text and of more behind it. -/
def Cursor.onto (c : Cursor) (tail : List Char) : Cursor := { c with rest := c.rest ++ tail }

namespace Cursor

variable {c : Cursor} {tail : List Char}

@[simp]
theorem rest_onto (c : Cursor) (tail : List Char) : (c.onto tail).rest = c.rest ++ tail := rfl

theorem onto_nil (c : Cursor) : c.onto [] = c := by rw [onto, List.append_nil]

theorem next_onto (h : c.rest ≠ []) : (c.onto tail).next = c.next.onto tail := by
  obtain ⟨rest, line, column⟩ := c
  cases rest with
  | nil => exact absurd rfl h
  | cons ch rest =>
    by_cases hEnd : ch = '\n'
    · subst hEnd
      rfl
    · rw [onto, List.cons_append, next_cons hEnd, next_cons hEnd, onto]

theorem advance_onto {n : Nat} (h : n ≤ c.rest.length) :
    (c.onto tail).advance n = (c.advance n).onto tail := by
  induction n generalizing c with
  | zero => rfl
  | succ n ih =>
    have hSome : c.rest ≠ [] := fun hNone => by simp [hNone] at h
    rw [advance, advance, next_onto hSome, ih]
    rw [rest_next, List.length_drop]
    omega

theorem skip_onto {p : Char → Bool} (h : EndsLine tail) (hp : p '\n' = false) :
    (c.onto tail).skip p = (c.skip p).onto tail := by
  rw [skip, rest_onto, h.takeWhile hp]
  exact advance_onto (List.takeWhile_prefix p).length_le

theorem atLineEnd_onto (h : EndsLine tail) : (c.onto tail).atLineEnd = c.atLineEnd := by
  rw [atLineEnd, atLineEnd, rest_onto]
  rcases c.rest with _ | ⟨ch, rest⟩
  · obtain rfl | ⟨more, rfl⟩ := h.cases <;> rfl
  · rfl

theorem isIdle_onto (h : EndsLine tail) : (c.onto tail).isIdle = c.isIdle := by
  rw [isIdle, isIdle, skip_onto h (by decide), atLineEnd_onto h, rest_onto]
  rcases (c.skip isIndentChar).rest with _ | ⟨ch, rest⟩
  · obtain rfl | ⟨more, rfl⟩ := h.cases <;> rfl
  · rfl

end Cursor

/-! ### The scanners -/

variable {c : Cursor} {tail : List Char}

theorem header_onto (h : EndsLine tail) : header (c.onto tail) = header c := by
  unfold header
  rw [Cursor.rest_onto, h.nameAt? (by decide)]
  rcases hName : nameAt? isNameChar c.rest with _ | name
  · rfl
  obtain ⟨left, hRest⟩ := nameAt?_eq_some hName
  have hLength : name.length ≤ c.rest.length := by simp [hRest]
  dsimp only
  rw [Cursor.advance_onto hLength, Cursor.rest_onto]
  rcases (c.advance name.length).rest with _ | ⟨ch, more⟩
  · obtain rfl | ⟨more, rfl⟩ := h.cases <;> rfl
  · by_cases hMark : ch = ':'
    · subst hMark
      rfl
    · simp only [List.cons_append]
      rfl

theorem modifierValue_of_quote {cs : List Char} (h : c.rest = '"' :: cs) :
    modifierValue c = match quotedBody? cs with
      | some (text, n) => .ok (c.token .modifierValue text, n + 1)
      | none => c.fail .openString := by
  unfold modifierValue
  rw [h]
  rfl

theorem modifierValue_of_plain (h : ¬ ['"'] <+: c.rest) :
    modifierValue c = .ok (c.token .modifierValue (c.rest.takeWhile isValueChar),
      (c.rest.takeWhile isValueChar).length) := by
  rw [modifierValue]
  split
  · rename_i hRest
    exact absurd ⟨_, hRest.symm⟩ h
  · rfl

theorem modifierValue_onto (h : EndsLine tail) : modifierValue (c.onto tail) = modifierValue c := by
  have hQuote : ['"'] <+: c.rest ++ tail ↔ ['"'] <+: c.rest := h.prefix_iff (by decide) c.rest
  by_cases hOpens : ['"'] <+: c.rest
  · obtain ⟨cs, hRest⟩ := hOpens
    have hOnto : (c.onto tail).rest = '"' :: (cs ++ tail) := by rw [Cursor.rest_onto, ← hRest]; rfl
    rw [modifierValue_of_quote hOnto, modifierValue_of_quote hRest.symm, h.quotedBody?]
    rfl
  · rw [modifierValue_of_plain hOpens, modifierValue_of_plain (mt hQuote.mp hOpens),
      Cursor.rest_onto, h.takeWhile (by decide)]
    rfl

theorem modifier_onto (h : EndsLine tail) (dashes : ['-', '-'] <+: c.rest) :
    modifier (c.onto tail) = modifier c := by
  obtain ⟨cs, hRest⟩ := dashes
  have hAtKey : (c.onto tail).advance 2 = (c.advance 2).onto tail :=
    Cursor.advance_onto (by simp [← hRest])
  unfold modifier
  dsimp only
  rw [hAtKey, Cursor.rest_onto, h.nameAt? (by decide)]
  rcases hKey : nameAt? isKeyChar (c.advance 2).rest with _ | key
  · rfl
  obtain ⟨left, hLeft⟩ := nameAt?_eq_some hKey
  have hLength : key.length ≤ (c.advance 2).rest.length := by
    rw [hLeft, List.length_append]
    omega
  dsimp only
  rw [Cursor.advance_onto hLength, Cursor.rest_onto]
  rcases hAfter : ((c.advance 2).advance key.length).rest with _ | ⟨ch, more⟩
  · obtain rfl | ⟨more, rfl⟩ := h.cases <;> rfl
  · by_cases hEquals : ch = '='
    · subst hEquals
      have hSome : ((c.advance 2).advance key.length).rest ≠ [] := by
        rw [hAfter]
        exact List.cons_ne_nil _ _
      simp only [List.cons_append, Cursor.next_onto hSome, modifierValue_onto h]
      rfl
    · simp only [List.cons_append]
      rfl

theorem argument_of_block {cs : List Char} {line column : Int} :
    argument ⟨'"' :: '"' :: '"' :: cs, line, column⟩ =
      match blockBody? cs with
      | some text => .ok ([⟨.blockString, String.ofList text, line, column⟩], text.length + 6)
      | none => .error ⟨.openBlock, line, column⟩ := rfl

theorem argument_of_dashes (dashes : ['-', '-'] <+: c.rest) : argument c = modifier c := by
  obtain ⟨rest, line, column⟩ := c
  obtain ⟨cs, rfl⟩ := dashes
  rfl

theorem argument_of_reference (noQuote : ¬ ['"'] <+: c.rest) (noDashes : ¬ ['-', '-'] <+: c.rest) :
    argument c = .ok ([c.token .bareReference (Text.trimEndChars (referenceSpan c.rest))],
      (referenceSpan c.rest).length) := by
  rw [argument.eq_def]
  split
  · rename_i hRest
    exact absurd ⟨_, hRest.symm⟩ noQuote
  · rename_i hRest
    exact absurd ⟨_, hRest.symm⟩ noQuote
  · rename_i hRest
    exact absurd ⟨_, hRest.symm⟩ noDashes
  · rfl

/-- An argument is read in front of other text as it is by itself, if it is no block string that ends
there. -/
theorem argument_onto (h : EndsLine tail)
    (closed : ∀ cs, c.rest = '"' :: '"' :: '"' :: cs → blockBody? (cs ++ tail) = blockBody? cs) :
    argument (c.onto tail) = argument c := by
  have hQuote : ['"'] <+: c.rest ++ tail ↔ ['"'] <+: c.rest := h.prefix_iff (by decide) c.rest
  have hDashes : ['-', '-'] <+: c.rest ++ tail ↔ ['-', '-'] <+: c.rest :=
    h.prefix_iff (by decide) c.rest
  by_cases hModifier : ['-', '-'] <+: c.rest
  · rw [argument_of_dashes hModifier, argument_of_dashes (hDashes.mpr hModifier),
      modifier_onto h hModifier]
  by_cases hString : ['"'] <+: c.rest
  · obtain ⟨rest, line, column⟩ := c
    obtain ⟨cs, rfl⟩ := hString
    by_cases hBlock : ['"', '"'] <+: cs
    · obtain ⟨cs, rfl⟩ := hBlock
      change argument ⟨'"' :: '"' :: '"' :: (cs ++ tail), line, column⟩ =
        argument ⟨'"' :: '"' :: '"' :: cs, line, column⟩
      rw [argument_of_block, argument_of_block, closed cs rfl]
    · have hOnto := mt (h.prefix_iff (by decide) cs).mp hBlock
      change argument ⟨'"' :: (cs ++ tail), line, column⟩ = argument ⟨'"' :: cs, line, column⟩
      rw [argument_of_quote hBlock, argument_of_quote hOnto, h.quotedBody?]
      rfl
  · rw [argument_of_reference hString hModifier,
      argument_of_reference (mt hQuote.mp hString) (mt hDashes.mp hModifier), Cursor.rest_onto,
      h.referenceSpan]
    rfl

/-! ### Lines -/

/-- What is left behind the code of a line, of which some arguments are at the front of the text: the
line end and what follows, or nothing. A block string that is not closed takes all of the text; any
other argument that cannot be read ends with its line. -/
def behindCode (text : List Char) : List Char :=
  let here := text.dropWhile isIndentChar
  if (Cursor.start here).atLineEnd then here
  else match argument (.start here) with
    | .ok (_, n) => if 0 < n then behindCode (here.drop n) else here.dropWhile (· != '\n')
    | .error e => if e.problem = .openBlock then [] else here.dropWhile (· != '\n')
termination_by text.length
decreasing_by
  rename_i hEnd hTaken
  have hSome : here ≠ [] := fun hNone => by simp [Cursor.atLineEnd, Cursor.start, hNone] at hEnd
  have hLength : 0 < here.length := List.length_pos_iff.mpr hSome
  have hLe : here.length ≤ text.length := (List.dropWhile_sublist _).length_le
  change (here.drop _).length < text.length
  rw [List.length_drop]
  omega

/-- Every cursor stands in front of its text somewhere. -/
theorem Cursor.eq_relocate_start (c : Cursor) :
    ∃ place, Steady place 1 ∧ c = (Cursor.start c.rest).relocate place := by
  refine ⟨fun l k => (c.line + (l - 1), if l = 1 then c.column + (k - 1) else k), ⟨?_, ?_⟩, ?_⟩
  · intro l k _
    dsimp only
    split
    · simp only [Prod.mk.injEq, true_and]
      omega
    · rfl
  · intro l k hl
    dsimp only
    rw [if_neg (by omega), Prod.mk.injEq]
    omega
  · simp [relocate, start]

/-- What is left behind the code does not depend on where the cursor stands. -/
theorem behindCode_eq (c : Cursor) : behindCode c.rest =
    if (c.skip isIndentChar).atLineEnd then (c.skip isIndentChar).rest
    else match argument (c.skip isIndentChar) with
      | .ok (_, n) =>
        if 0 < n then behindCode ((c.skip isIndentChar).advance n).rest
        else (c.skip isIndentChar).rest.dropWhile (· != '\n')
      | .error e =>
        if e.problem = .openBlock then []
        else (c.skip isIndentChar).rest.dropWhile (· != '\n') := by
  obtain ⟨place, hSteady, hPlace⟩ := (c.skip isIndentChar).eq_relocate_start
  have hArgument := argument_relocate (c := .start (c.skip isIndentChar).rest) hSteady
  rw [← hPlace] at hArgument
  have hSame : (Cursor.start (c.skip isIndentChar).rest).atLineEnd =
      (c.skip isIndentChar).atLineEnd := rfl
  rw [behindCode.eq_def, ← Cursor.rest_skip, hArgument]
  dsimp only
  rw [hSame]
  split
  · rfl
  · rcases argument (.start (c.skip isIndentChar).rest) with e | ⟨ts, n⟩
    · rfl
    · simp [relocateScan]

theorem behindCode_suffix (text : List Char) : behindCode text <:+ text := by
  fun_induction behindCode text with
  | case1 => exact List.dropWhile_suffix _
  | case2 text here _ _ n _ _ ih =>
    exact (ih.trans (List.drop_suffix n here)).trans (List.dropWhile_suffix _)
  | case3 text here =>
    exact (List.dropWhile_suffix _).trans (List.dropWhile_suffix (l := text) isIndentChar)
  | case4 => exact List.nil_suffix
  | case5 text here =>
    exact (List.dropWhile_suffix _).trans (List.dropWhile_suffix (l := text) isIndentChar)

theorem endsLine_dropWhile (text : List Char) : EndsLine (text.dropWhile (· != '\n')) := by
  intro c hc
  have hHead := List.head?_dropWhile_not (· != '\n') text
  simp only [Option.mem_def.mp hc] at hHead
  simpa using hHead

theorem endsLine_of_atLineEnd {c : Cursor} (h : c.atLineEnd = true) : EndsLine c.rest := by
  intro ch hch
  rw [Cursor.atLineEnd] at h
  rcases hRest : c.rest with _ | ⟨d, rest⟩
  · simp [hRest] at hch
  · rw [hRest] at h hch
    cases hch
    simpa using h

theorem endsLine_behindCode (text : List Char) : EndsLine (behindCode text) := by
  fun_induction behindCode text with
  | case1 _ _ hEnd => exact endsLine_of_atLineEnd hEnd
  | case2 _ _ _ _ _ _ _ ih => exact ih
  | case3 => exact endsLine_dropWhile _
  | case4 => exact .nil
  | case5 => exact endsLine_dropWhile _

theorem blockBody?_append_left {cs text : List Char} (h : blockBody? cs = some text)
    (tail : List Char) : blockBody? (cs ++ tail) = some text := by
  fun_induction blockBody? cs generalizing text with
  | case1 => cases h
  | case2 => exact h
  | case3 c cs stays ih =>
    obtain ⟨body, hBody, rfl⟩ := Option.map_eq_some_iff.mp h
    obtain ⟨left, rfl⟩ := blockBody?_eq_some hBody
    rw [List.cons_append, blockBody?, ih hBody]
    · rfl
    · rintro rest rfl hQuotes
      refine stays ((body ++ '"' :: '"' :: '"' :: left).drop 2) rfl ?_
      rcases body with _ | ⟨x, _ | ⟨y, body⟩⟩
      · rfl
      · cases hQuotes
        rfl
      · cases hQuotes
        rfl

/-- A block string that ends in front of the tail ends there without the tail, too. -/
theorem blockBody?_of_append {cs tail text : List Char} (h : blockBody? (cs ++ tail) = some text)
    (within : text.length + 3 ≤ cs.length) : blockBody? cs = some text := by
  induction cs generalizing text with
  | nil => simp at within
  | cons c cs ih =>
    by_cases hClosed : ['"', '"', '"'] <+: c :: cs
    · obtain ⟨more, hMore⟩ := hClosed
      rw [← hMore] at h ⊢
      exact h
    · have stays (tail : List Char) (within : 2 ≤ cs.length) (rest : List Char) (hc : c = '"')
          (hQuotes : cs ++ tail = '"' :: '"' :: rest) : False := by
        obtain ⟨x, y, cs, rfl⟩ : ∃ x y more, cs = x :: y :: more := by
          rcases cs with _ | ⟨x, _ | ⟨y, cs⟩⟩
          · simp at within
          · simp at within
          · exact ⟨x, y, cs, rfl⟩
        subst hc
        cases hQuotes
        exact hClosed ⟨cs, rfl⟩
      rw [List.length_cons] at within
      rw [List.cons_append, blockBody?.eq_3 _ _ (stays tail (by omega))] at h
      obtain ⟨body, hBody, rfl⟩ := Option.map_eq_some_iff.mp h
      rw [List.length_cons] at within
      have hStays := stays [] (by omega)
      rw [List.append_nil] at hStays
      rw [blockBody?.eq_3 _ _ hStays, ih hBody (by omega)]
      rfl

/-- Another text behind the line does not change an argument of it. -/
theorem argument_behind {tail' : List Char} (hTail : EndsLine tail) (ends : EndsLine tail')
    (whole : tail = [] → tail' = [])
    (within : ∀ ts n, argument (c.onto tail) = .ok (ts, n) → n ≤ c.rest.length)
    (opened : ∀ e, argument (c.onto tail) = .error e → e.problem = .openBlock → tail = []) :
    argument (c.onto tail') = argument (c.onto tail) := by
  have hClosed (cs : List Char) (hRest : c.rest = '"' :: '"' :: '"' :: cs) :
      blockBody? (cs ++ tail) = blockBody? cs ∧ blockBody? (cs ++ tail') = blockBody? cs := by
    have hOnto : argument (c.onto tail) = argument
        ⟨'"' :: '"' :: '"' :: (cs ++ tail), c.line, c.column⟩ := by
      rw [Cursor.onto, hRest]
      rfl
    rw [argument_of_block] at hOnto
    rcases hBody : blockBody? cs with _ | text
    · rcases hMore : blockBody? (cs ++ tail) with _ | text
      · rw [hMore] at hOnto
        have hNone := opened _ hOnto rfl
        rw [whole hNone, List.append_nil]
        exact ⟨rfl, hBody⟩
      · rw [hMore] at hOnto
        have hLength := within _ _ hOnto
        rw [hRest] at hLength
        simp only [List.length_cons] at hLength
        rw [blockBody?_of_append hMore (by omega)] at hBody
        cases hBody
    · exact ⟨blockBody?_append_left hBody _, blockBody?_append_left hBody _⟩
  rw [argument_onto ends fun cs hRest => (hClosed cs hRest).2,
    argument_onto hTail fun cs hRest => (hClosed cs hRest).1]

/-- The arguments of a line are read in front of any text as they are in front of their own. -/
theorem scanArguments_onto {tail' : List Char} (behind : behindCode (c.rest ++ tail) = tail)
    (ends : EndsLine tail') (whole : tail = [] → tail' = []) :
    scanArguments (c.onto tail') =
      (scanArguments (c.onto tail)).map fun p => (p.1, { p.2 with rest := tail' }) := by
  have hTail : EndsLine tail := behind ▸ endsLine_behindCode _
  induction c using Cursor.arguments_induction with
  | step c ih =>
    have hSkip : (c.onto tail).skip isIndentChar = (c.skip isIndentChar).onto tail :=
      Cursor.skip_onto hTail (by decide)
    have hSkip' : (c.onto tail').skip isIndentChar = (c.skip isIndentChar).onto tail' :=
      Cursor.skip_onto ends (by decide)
    have hBehind := behindCode_eq (c.onto tail)
    rw [hSkip, Cursor.rest_onto, behind] at hBehind
    have hEnds := Cursor.atLineEnd_onto (c := c.skip isIndentChar) hTail
    have hEnds' := Cursor.atLineEnd_onto (c := c.skip isIndentChar) ends
    generalize c.skip isIndentChar = here at *
    cases hEnd : here.atLineEnd with
    | true =>
      rw [hEnds, hEnd, if_pos rfl, Cursor.rest_onto, List.self_eq_append_left] at hBehind
      rw [scanArguments_of_end hSkip (hEnds.trans hEnd),
        scanArguments_of_end hSkip' (hEnds'.trans hEnd)]
      simp [Upshot.map, Cursor.onto, hBehind]
    | false =>
      rw [hEnds, hEnd, if_neg Bool.false_ne_true] at hBehind
      have hWithin (ts : List Token) (n : Nat) (hFirst : argument (here.onto tail) = .ok (ts, n))
          (hTaken : 0 < n) : n ≤ here.rest.length ∧
            behindCode ((here.advance n).rest ++ tail) = tail := by
        rw [hFirst] at hBehind
        dsimp only at hBehind
        rw [if_pos hTaken] at hBehind
        -- What is left behind the argument reaches back to the tail at least.
        have hLeft := (behindCode_suffix ((here.onto tail).advance n).rest).length_le
        have hLength := length_of_argument hFirst
        rw [← hBehind, Cursor.rest_advance, List.length_drop, Cursor.rest_onto,
          List.length_append] at hLeft
        rw [Cursor.rest_onto, List.length_append] at hLength
        have hLe : n ≤ here.rest.length := by omega
        rw [Cursor.advance_onto hLe] at hBehind
        exact ⟨hLe, hBehind.symm⟩
      have hSame (tail' : List Char) (ends : EndsLine tail') (whole : tail = [] → tail' = []) :
          argument (here.onto tail') = argument (here.onto tail) := by
        refine argument_behind hTail ends whole (fun ts n hFirst => ?_) fun e hFails hOpen => ?_
        · by_cases hTaken : 0 < n
          · exact (hWithin ts n hFirst hTaken).1
          · omega
        · rw [hFails] at hBehind
          dsimp only at hBehind
          rwa [if_pos hOpen] at hBehind
      have hAlone := hSame [] .nil fun _ => rfl
      rw [Cursor.onto_nil] at hAlone
      rw [scanArguments_of_code hSkip (hEnds.trans hEnd),
        scanArguments_of_code hSkip' (hEnds'.trans hEnd), hSame tail' ends whole]
      rcases hFirst : argument (here.onto tail) with e | ⟨first, n⟩
      · rfl
      change (if 0 < n then _ else _) = Upshot.map _ (if 0 < n then _ else _)
      by_cases hTaken : 0 < n
      · obtain ⟨hLe, hMore⟩ := hWithin first n hFirst hTaken
        have hNext := ih first n hEnd (hAlone.trans hFirst) hTaken hMore
        dsimp only
        rw [if_pos hTaken, if_pos hTaken, Cursor.advance_onto hLe, Cursor.advance_onto hLe, hNext]
        rcases scanArguments ((here.advance n).onto tail) with e | ⟨more, last⟩ | _ <;> rfl
      · rw [if_neg hTaken, if_neg hTaken]
        rfl

/-- What is left behind the arguments of a line, if they are read. -/
theorem behindCode_of_scanArguments {ts : List Token} {last : Cursor}
    (h : scanArguments c = .ok (ts, last)) : behindCode c.rest = last.rest := by
  fun_induction scanArguments c generalizing ts last with
  | case1 c here =>
    rename_i hEnd
    cases h
    rw [behindCode_eq]
    exact if_pos hEnd
  | case2 => cases h
  | case3 => cases h
  | case4 c here hCode first n hFirst hTaken more last' hMore =>
    rename_i ih
    cases h
    rw [behindCode_eq, if_neg hCode]
    rw [show argument (c.skip isIndentChar) = _ from hFirst]
    dsimp only
    rw [if_pos hTaken]
    exact ih hMore
  | case5 => cases h
  | case6 => cases h

theorem behindCode_of_scanCode {ts : List Token} {last : Cursor} (h : scanCode c = .ok (ts, last)) :
    behindCode (c.advance (header c).2).rest = last.rest := by
  rw [scanCode] at h
  rcases hArguments : scanArguments (c.advance (header c).2) with e | ⟨arguments, last'⟩ | _
  · rw [hArguments] at h
    cases h
  · rw [hArguments] at h
    cases h
    exact behindCode_of_scanArguments hArguments
  · rw [hArguments] at h
    cases h

/-- Code is read in front of any text as it is in front of its own. -/
theorem scanCode_onto {tail' : List Char}
    (behind : behindCode ((c.onto tail).advance (header (c.onto tail)).2).rest = tail)
    (ends : EndsLine tail') (whole : tail = [] → tail' = []) :
    scanCode (c.onto tail') =
      (scanCode (c.onto tail)).map fun p => (p.1, { p.2 with rest := tail' }) := by
  have hTail : EndsLine tail := behind ▸ endsLine_behindCode _
  obtain ⟨taken, hTaken, hHeader⟩ := onLine_header c
  have hLength : (header c).2 ≤ c.rest.length := hTaken ▸ hHeader.front.length_le
  rw [header_onto hTail, Cursor.advance_onto hLength, Cursor.rest_onto] at behind
  rw [scanCode, scanCode, header_onto hTail, header_onto ends, Cursor.advance_onto hLength,
    Cursor.advance_onto hLength, scanArguments_onto behind ends whole]
  rcases scanArguments ((c.advance (header c).2).onto tail) with e | ⟨arguments, last⟩ | _ <;> rfl

/-- What is scanned of a line is the same in front of any text. -/
theorem scanLine_onto {l inner : Layout} {ts : List Token} {last : Cursor} {tail' : List Char}
    (h : scanLine l (c.onto tail) = .ok (ts, inner, last)) (behind : last.rest = tail)
    (ends : EndsLine tail') (whole : tail = [] → tail' = []) :
    scanLine l (c.onto tail') = .ok (ts, inner, { last with rest := tail' }) := by
  have hTail : EndsLine tail := behind ▸ endsLine_of_atLineEnd (end_of_scanLine h).1
  have hSkip {t : List Char} (ht : EndsLine t) :
      (c.onto t).skip isIndentChar = (c.skip isIndentChar).onto t :=
    Cursor.skip_onto ht (by decide)
  by_cases hIdle : c.isIdle = true
  · have hRest {t : List Char} (ht : EndsLine t) : scanLine l (c.onto t) =
        .ok ([], l, ((c.skip isIndentChar).skip (· != '\n')).onto t) := by
      rw [scanLine_of_idle l ((Cursor.isIdle_onto ht).trans hIdle), hSkip ht,
        Cursor.skip_onto ht (by decide)]
    rw [hRest hTail] at h
    cases h
    rw [Cursor.rest_onto, eq_comm, List.self_eq_append_left] at behind
    rw [hRest ends, Cursor.onto, Cursor.onto, behind]
    rfl
  · have hCode {t : List Char} (ht : EndsLine t) : scanLine l (c.onto t) =
        (Upshot.ofExcept (l.enter (c.rest.takeWhile isIndentChar) (c.skip isIndentChar).line)).bind
          fun entered => (scanCode ((c.skip isIndentChar).onto t)).map fun code =>
            (entered.2 ++ code.1, entered.1, code.2) := by
      rw [scanLine_of_entered l (by rwa [Cursor.isIdle_onto ht]) (hSkip ht), Cursor.rest_onto,
        ht.takeWhile (by decide)]
      rfl
    rw [hCode hTail] at h
    rw [hCode ends]
    rcases hEnter : l.enter (c.rest.takeWhile isIndentChar) (c.skip isIndentChar).line with
      e | ⟨inner', lead⟩
    · rw [hEnter] at h
      cases h
    rcases hRead : scanCode ((c.skip isIndentChar).onto tail) with e | ⟨code, last'⟩ | _
    · rw [hEnter, hRead] at h
      cases h
    · rw [hEnter, hRead] at h
      cases h
      have hBehind := behindCode_of_scanCode hRead
      rw [behind] at hBehind
      rw [scanCode_onto hBehind ends whole, hRead]
      rfl
    · rw [hEnter, hRead] at h
      cases h

end Directive
