import Directive.Proofs.Text.Blank
import Directive.Proofs.Token.Lexeme
import Directive.Proofs.Token.Places

/-!
# Tokens cover their text

* `Cursor.behind`: the cursor behind the part of a text that has been read;
* `Ready`: a gap that a token of the line may follow;
* `covers_header`, `covers_argument`, `covers_scanArguments`: each scanner reads its tokens where the
  cursor stands, and leaves nothing out but gaps;
* `covers_of_ofText`: so do the tokens of a text.
-/

namespace Directive

/-- The cursor in front of `rest` when `passed` has been read from the start of a text. -/
def Cursor.behind (passed rest : List Char) : Cursor :=
  ⟨rest, 1 + passed.count '\n', columnAfter passed 1⟩

namespace Cursor

@[simp]
theorem rest_behind (passed rest : List Char) : (behind passed rest).rest = rest := rfl

theorem start_eq_behind (text : List Char) : start text = behind [] text := rfl

theorem advance_behind (passed span more : List Char) :
    (behind passed (span ++ more)).advance span.length = behind (passed ++ span) more := by
  rw [behind, advance_append, behind, List.count_append, columnAfter, columnAfter, columnAfter,
    List.foldl_append]
  congr 1
  push_cast
  omega

theorem next_behind (passed : List Char) (c : Char) (more : List Char) :
    (behind passed (c :: more)).next = behind (passed ++ [c]) more :=
  advance_behind passed [c] more

theorem skip_behind (p : Char → Bool) (passed rest : List Char) :
    (behind passed rest).skip p = behind (passed ++ rest.takeWhile p) (rest.dropWhile p) := by
  have hRest : behind passed rest = behind passed (rest.takeWhile p ++ rest.dropWhile p) := by
    rw [List.takeWhile_append_dropWhile]
  rw [skip, rest_behind, hRest, advance_behind]

end Cursor

/-! ### What the scanners take -/

theorem nameAt?_eq_some {p : Char → Bool} {text name : List Char} (h : nameAt? p text = some name) :
    ∃ more, text = name ++ more := by
  unfold nameAt? at h
  split at h
  · cases h
  · rename_i c cs
    split at h
    · cases h
      exact ⟨cs.dropWhile p, by rw [List.cons_append, List.takeWhile_append_dropWhile]⟩
    · cases h

theorem blockBody?_eq_some {cs text : List Char} (h : blockBody? cs = some text) :
    ∃ more, cs = text ++ '"' :: '"' :: '"' :: more := by
  fun_induction blockBody? cs generalizing text with
  | case1 => cases h
  | case2 more =>
    cases h
    exact ⟨more, rfl⟩
  | case3 c cs _ ih =>
    obtain ⟨body, hBody, rfl⟩ := Option.map_eq_some_iff.mp h
    obtain ⟨more, rfl⟩ := ih hBody
    exact ⟨more, rfl⟩

theorem quotedBody?_eq_some {cs text : List Char} {n : Nat} (h : quotedBody? cs = some (text, n)) :
    ∃ body more, cs = body ++ '"' :: more ∧ QuotedAs body text ∧ n = body.length + 1 := by
  fun_induction quotedBody? cs generalizing text n with
  | case1 => cases h
  | case2 more =>
    cases h
    exact ⟨[], more, rfl, .nil, rfl⟩
  | case3 => cases h
  | case4 => cases h
  | case5 => cases h
  | case6 c cs oneLine ih =>
    obtain ⟨⟨inner, m⟩, hInner, hText⟩ := Option.map_eq_some_iff.mp h
    cases hText
    obtain ⟨body, more, rfl, hBody, rfl⟩ := ih hInner
    exact ⟨'\\' :: c :: body, more, rfl, .escaped oneLine hBody, rfl⟩
  | case7 c cs unquoted oneLine _ _ unescaped ih =>
    obtain ⟨⟨inner, m⟩, hInner, hText⟩ := Option.map_eq_some_iff.mp h
    cases hText
    obtain ⟨body, more, rfl, hBody, rfl⟩ := ih hInner
    have hSlash : c ≠ '\\' := fun hSlash => by
      obtain ⟨d, ds, hMore⟩ := List.exists_cons_of_ne_nil (List.append_ne_nil_of_right_ne_nil body
        (List.cons_ne_nil '"' more))
      exact unescaped d ds hSlash hMore
    exact ⟨c :: body, more, rfl, .plain unquoted hSlash oneLine hBody, rfl⟩

theorem referenceSpan_prefix (cs : List Char) :
    ∃ more, cs = referenceSpan cs ++ more ∧ '\n' ∉ referenceSpan cs := by
  fun_induction referenceSpan cs with
  | case1 => exact ⟨[], rfl, by simp⟩
  | case2 c cs _ => exact ⟨c :: cs, rfl, by simp⟩
  | case3 c cs stays ih =>
    obtain ⟨more, hMore, hLine⟩ := ih
    refine ⟨more, by rw [List.cons_append, ← hMore], ?_⟩
    intro hMem
    rcases List.mem_cons.mp hMem with hSame | hMem
    · exact stays (by simp [← hSame])
    · exact hLine hMem

/-! ### The tokens of a line -/

/-- A gap that more blanks may follow, and then a token of the same line. -/
def Ready (last : Option TokenKind) (gap : List Char) : Prop :=
  ∀ (run rest : List Char) {next : TokenKind}, (∀ c ∈ run, isIndentChar c = true) →
    next.isInLine = true → Spacing last (gap ++ run) next rest

/-- The tokens of what is left when `n` characters of `rest` are read, however they are. -/
def CoversBehind (passed rest : List Char) (n : Nat) (ts : List Token) : Prop :=
  ∀ (last : Option TokenKind) (front gap taken left : List Char), rest = taken ++ left →
    taken.length = n → front ++ gap = passed ++ taken → Ready last gap →
    Covers last front (gap ++ left) ts

theorem ready_behind (kind : TokenKind) : Ready (some kind) [] :=
  fun _ _ _ blanks inLine => .within blanks inLine

theorem Ready.append {last : Option TokenKind} {gap run : List Char} (h : Ready last gap)
    (blanks : ∀ c ∈ run, isIndentChar c = true) : Ready last (gap ++ run) := by
  intro run' rest next blanks' inLine
  rw [List.append_assoc]
  refine h _ rest (fun c hc => ?_) inLine
  rcases List.mem_append.mp hc with hc | hc
  · exact blanks c hc
  · exact blanks' c hc

/-- A token that is read where the gap ends. -/
theorem Covers.read {last : Option TokenKind} {passed gap span left : List Char} {kind : TokenKind}
    {text : List Char} {ts : List Token} {c : Cursor} (ready : Ready last gap)
    (here : c = .behind (passed ++ gap) (span ++ left)) (inLine : kind.isInLine = true)
    (spelled : (c.token kind text).Spelled span left)
    (rest : Covers (some kind) (passed ++ gap ++ span) left ts) :
    Covers last passed (gap ++ (span ++ left)) (c.token kind text :: ts) := by
  subst here
  have spacing := ready [] (span ++ left) (by simp) inLine
  rw [List.append_nil] at spacing
  exact .token spacing rfl rfl spelled rest

theorem header_cases (c : Cursor) : header c = ([], 0) ∨
    ∃ name left, c.rest = name ++ left ∧
      (header c = ([c.token .commandName name], name.length) ∨
        ∃ more, left = ':' :: more ∧ header c =
          ([c.token .commandName name, (c.advance name.length).token .colon [':']],
            name.length + 1)) := by
  unfold header
  split
  · exact .inl rfl
  · rename_i name hName
    obtain ⟨left, hRest⟩ := nameAt?_eq_some hName
    have hLeft : (c.advance name.length).rest = left := by simp [hRest]
    dsimp only
    split
    · rename_i more hColon
      exact .inr ⟨name, left, hRest, .inr ⟨more, by rw [← hLeft, hColon], rfl⟩⟩
    · exact .inr ⟨name, left, hRest, .inl rfl⟩
    · split
      · exact .inr ⟨name, left, hRest, .inl rfl⟩
      · exact .inl rfl

theorem covers_header {last : Option TokenKind} {passed gap rest : List Char}
    {tokens ts : List Token} {n : Nat} (h : header (.behind (passed ++ gap) rest) = (tokens, n))
    (ready : Ready last gap) (next : CoversBehind (passed ++ gap) rest n ts) :
    Covers last passed (gap ++ rest) (tokens ++ ts) := by
  obtain hNone | ⟨name, left, hRest, hName⟩ := header_cases (.behind (passed ++ gap) rest)
  · rw [hNone] at h
    cases h
    exact next last passed gap [] rest rfl rfl (by simp) ready
  rw [Cursor.rest_behind] at hRest
  subst hRest
  have spelled (more : List Char) : ((Cursor.behind (passed ++ gap) (name ++ left)).token
      .commandName name).Spelled name more := by simp [Token.Spelled, Cursor.token]
  obtain hWord | ⟨more, rfl, hColon⟩ := hName
  · rw [hWord] at h
    cases h
    exact .read ready rfl rfl (spelled _) (next _ _ [] name left rfl rfl (by simp) (ready_behind _))
  · rw [hColon, Cursor.advance_behind] at h
    cases h
    refine .read ready rfl rfl (spelled _) ?_
    have hMore : Covers (some .colon) (passed ++ gap ++ name ++ [] ++ [':']) more ts :=
      next _ _ [] (name ++ [':']) more (List.append_cons _ _ _) (by simp) (by simp) (ready_behind _)
    have hHere : Cursor.behind (passed ++ gap ++ name) (':' :: more) =
        .behind (passed ++ gap ++ name ++ []) ([':'] ++ more) := by simp
    have hColon : Covers (some .commandName) (passed ++ gap ++ name) ([] ++ ([':'] ++ more))
        ((Cursor.behind (passed ++ gap ++ name) (':' :: more)).token .colon [':'] :: ts) :=
      .read (ready_behind _) hHere rfl rfl hMore
    exact hColon

/-- A value is read directly behind the equals sign. -/
theorem covers_modifierValue {front rest : List Char} {t : Token} {n : Nat} {ts : List Token}
    (h : modifierValue (.behind (front ++ ['=']) rest) = .ok (t, n))
    (next : CoversBehind (front ++ ['=']) rest n ts) :
    Covers (some .modifierKey) front ('=' :: rest) (t :: ts) := by
  unfold modifierValue at h
  rw [Cursor.rest_behind] at h
  split at h
  · rename_i cs
    split at h
    · rename_i text m hQuoted
      cases h
      obtain ⟨body, left, rfl, hBody, rfl⟩ := quotedBody?_eq_some hQuoted
      have hLeft :
          Covers (some .modifierValue) (front ++ ['='] ++ '"' :: (body ++ ['"'])) left ts :=
        next _ _ [] ('"' :: (body ++ ['"'])) left (by simp) (by simp) (by simp) (ready_behind _)
      have hSpelled : ((Cursor.behind (front ++ ['=']) ('"' :: (body ++ '"' :: left))).token
          .modifierValue text).Spelled ('"' :: (body ++ ['"'])) left :=
        .inr ⟨body, by simpa [Cursor.token] using hBody, rfl⟩
      simpa using Covers.token .equals rfl rfl hSpelled hLeft
    · cases h
  · cases h
    have hLeft : Covers (some .modifierValue) (front ++ ['='] ++ rest.takeWhile isValueChar)
        (rest.dropWhile isValueChar) ts :=
      next _ _ [] _ _ List.takeWhile_append_dropWhile.symm rfl (by simp) (ready_behind _)
    have hSpelled : ((Cursor.behind (front ++ ['=']) rest).token .modifierValue
        (rest.takeWhile isValueChar)).Spelled (rest.takeWhile isValueChar)
        (rest.dropWhile isValueChar) := .inl (by simp [Cursor.token])
    simpa using Covers.token .equals rfl rfl hSpelled hLeft

theorem covers_modifier {last : Option TokenKind} {passed gap rest : List Char}
    {tokens ts : List Token} {n : Nat}
    (h : modifier (.behind (passed ++ gap) ('-' :: '-' :: rest)) = .ok (tokens, n))
    (ready : Ready last gap) (next : CoversBehind (passed ++ gap) ('-' :: '-' :: rest) n ts) :
    Covers last passed (gap ++ '-' :: '-' :: rest) (tokens ++ ts) := by
  unfold modifier at h
  have hAtKey : (Cursor.behind (passed ++ gap) ('-' :: '-' :: rest)).advance 2 =
      .behind (passed ++ gap ++ ['-', '-']) rest := Cursor.advance_behind _ ['-', '-'] rest
  simp only [hAtKey, Cursor.rest_behind] at h
  split at h
  · cases h
  rename_i key hKey
  obtain ⟨left, rfl⟩ := nameAt?_eq_some hKey
  rw [Cursor.advance_behind, Cursor.rest_behind] at h
  have hRead (more : List Token) (hMore : Covers (some .modifierKey)
      (passed ++ gap ++ '-' :: '-' :: key) left more) :
      Covers last passed (gap ++ '-' :: '-' :: (key ++ left))
        ((Cursor.behind (passed ++ gap) ('-' :: '-' :: (key ++ left))).token .modifierKey key ::
          more) :=
    Covers.read ready rfl rfl (by simp [Token.Spelled, Cursor.token]) hMore
  have hAlone (hNext : CoversBehind (passed ++ gap) ('-' :: '-' :: (key ++ left)) (key.length + 2)
      ts) : Covers (some .modifierKey) (passed ++ gap ++ '-' :: '-' :: key) left ts :=
    hNext _ _ [] ('-' :: '-' :: key) left rfl rfl (by simp) (ready_behind _)
  split at h
  · rename_i more
    rw [Cursor.next_behind] at h
    rcases hValue : modifierValue (.behind (passed ++ gap ++ ['-', '-'] ++ key ++ ['=']) more) with
      e | ⟨value, m⟩
    · rw [hValue] at h
      cases h
    · rw [hValue] at h
      cases h
      have hFront : passed ++ gap ++ ['-', '-'] ++ key = passed ++ gap ++ '-' :: '-' :: key := by
        simp
      rw [hFront] at hValue
      refine hRead _ (covers_modifierValue hValue ?_)
      intro last' front gap' taken left hRest hLength hFront hReady
      refine next last' front gap' ('-' :: '-' :: (key ++ '=' :: taken)) left (by simp [hRest]) ?_
        (by simp [hFront]) hReady
      simp only [List.length_cons, List.length_append, hLength]
      omega
  · cases h
    exact hRead _ (hAlone next)
  · split at h
    · cases h
    · cases h
      exact hRead _ (hAlone next)

theorem covers_argument {last : Option TokenKind} {passed gap rest : List Char}
    {tokens ts : List Token} {n : Nat}
    (h : argument (.behind (passed ++ gap) rest) = .ok (tokens, n)) (ready : Ready last gap)
    (next : CoversBehind (passed ++ gap) rest n ts) :
    Covers last passed (gap ++ rest) (tokens ++ ts) := by
  unfold argument at h
  rw [Cursor.rest_behind] at h
  split at h
  · split at h
    · rename_i text hBlock
      cases h
      obtain ⟨left, rfl⟩ := blockBody?_eq_some hBlock
      have hRest : '"' :: '"' :: '"' :: (text ++ '"' :: '"' :: '"' :: left) =
          blockQuote text ++ left := by simp [blockQuote]
      have hLeft : Covers (some .blockString) (passed ++ gap ++ blockQuote text) left ts :=
        next _ _ [] _ left hRest (by simp [blockQuote]) (by simp) (ready_behind _)
      rw [hRest]
      exact .read ready rfl rfl (by simp [Token.Spelled, Cursor.token]) hLeft
    · cases h
  · split at h
    · rename_i text m hQuoted
      cases h
      obtain ⟨body, left, rfl, hBody, rfl⟩ := quotedBody?_eq_some hQuoted
      have hRest : '"' :: (body ++ '"' :: left) = '"' :: (body ++ ['"']) ++ left := by simp
      have hLeft : Covers (some .quotedString) (passed ++ gap ++ '"' :: (body ++ ['"'])) left ts :=
        next _ _ [] _ left hRest (by simp) (by simp) (ready_behind _)
      rw [hRest]
      exact .read ready rfl rfl ⟨body, by simpa [Cursor.token] using hBody, rfl⟩ hLeft
    · cases h
  · exact covers_modifier h ready next
  · cases h
    obtain ⟨left, hLeft, hLine⟩ := referenceSpan_prefix rest
    obtain ⟨blanks, hBlanks, hBlank⟩ := Text.trimEndChars_append (referenceSpan rest)
    have hRest : rest = Text.trimEndChars (referenceSpan rest) ++ (blanks ++ left) := by
      rw [← List.append_assoc, ← hBlanks, ← hLeft]
    have hReady : Ready (some .bareReference) blanks := fun _ _ _ hRun inLine =>
      .trimmed (fun c hc => ⟨hBlank c hc, fun hSame => hLine (by rw [hBlanks, ← hSame]; simp [hc])⟩)
        hRun inLine
    have hMore := next (some .bareReference)
      (passed ++ gap ++ Text.trimEndChars (referenceSpan rest)) blanks (referenceSpan rest) left
      hLeft rfl (by rw [List.append_assoc, ← hBlanks]) hReady
    have hHere : Cursor.behind (passed ++ gap) rest = Cursor.behind (passed ++ gap)
        (Text.trimEndChars (referenceSpan rest) ++ (blanks ++ left)) := by rw [← hRest]
    have hSpelled : ((Cursor.behind (passed ++ gap) rest).token .bareReference
        (Text.trimEndChars (referenceSpan rest))).Spelled (Text.trimEndChars (referenceSpan rest))
        (blanks ++ left) := by simp [Token.Spelled, Cursor.token]
    have hCovers := Covers.read ready hHere rfl hSpelled hMore
    rwa [← hRest] at hCovers

theorem spelled_newline {c : Cursor} (h : c.atLineEnd = true) :
    (c.token .newline ['\n']).Spelled (c.rest.take 1) (c.rest.drop 1) := by
  rw [Cursor.atLineEnd] at h
  split at h
  · rename_i hRest
    exact .inr (by simp [hRest])
  · rename_i hRest
    exact .inl (by simpa [hRest] using h)

/-- The blanks at a cursor, and the cursor behind them. -/
theorem skip_blanks {passed gap : List Char} {c : Cursor}
    (here : c = .behind (passed ++ gap) c.rest) : ∃ run left, c.rest = run ++ left ∧
      c.rest.takeWhile isIndentChar = run ∧ (∀ ch ∈ run, isIndentChar ch = true) ∧
      (∀ ch ∈ left.head?, isIndentChar ch = false) ∧
      c.skip isIndentChar = .behind (passed ++ (gap ++ run)) left := by
  refine ⟨_, c.rest.dropWhile isIndentChar, List.takeWhile_append_dropWhile.symm, rfl,
    List.all_eq_true.mp List.all_takeWhile, fun ch hch => ?_, ?_⟩
  · have hHead := List.head?_dropWhile_not isIndentChar c.rest
    simp only [Option.mem_def.mp hch] at hHead
    simpa using hHead
  · rw [← List.append_assoc, ← Cursor.skip_behind, ← here]

/-- The arguments of a line and the line's end. -/
theorem covers_scanArguments {last : Option TokenKind} {passed gap : List Char} {c lineEnd : Cursor}
    {tokens ts : List Token} (h : scanArguments c = .ok (tokens, lineEnd))
    (here : c = .behind (passed ++ gap) c.rest) (ready : Ready last gap)
    (next : ∀ front : List Char, lineEnd = .behind front lineEnd.rest →
      front ++ lineEnd.rest = passed ++ gap ++ c.rest →
      Covers (some .newline) (front ++ lineEnd.rest.take 1) (lineEnd.rest.drop 1) ts) :
    Covers last passed (gap ++ c.rest) (tokens ++ lineEnd.token .newline ['\n'] :: ts) := by
  fun_induction scanArguments c generalizing tokens lineEnd last passed gap with
  | case1 c here' =>
    rename_i hEnd
    cases h
    obtain ⟨run, left, hRest, -, hRun, -, hHere⟩ := skip_blanks here
    have hLeft : here'.rest = left := by rw [show here' = _ from hHere, Cursor.rest_behind]
    have hSplit : here'.rest.take 1 ++ here'.rest.drop 1 = left := by
      rw [List.take_append_drop, hLeft]
    have hNext := next (passed ++ (gap ++ run)) (hLeft ▸ hHere) (by rw [hLeft, hRest]; simp)
    have hCovers :=
      Covers.read (ready.append hRun) (hSplit ▸ hHere) rfl (spelled_newline hEnd) hNext
    rw [hSplit, List.append_assoc, ← hRest] at hCovers
    exact hCovers
  | case2 => cases h
  | case3 => cases h
  | case4 c here' hCode first n hFirst hTaken more lineEnd' hMore =>
    rename_i ih
    cases h
    obtain ⟨run, left, hRest, -, hRun, -, hHere⟩ := skip_blanks here
    rw [show here' = _ from hHere] at hFirst ih hMore
    rw [hRest, ← List.append_assoc, List.append_assoc first]
    refine covers_argument hFirst (ready.append hRun) ?_
    intro last' front gap' taken left' hLeft hLength hFront hReady
    rw [hLeft, ← hLength, Cursor.advance_behind, ← hFront] at ih hMore
    refine ih hMore rfl hReady fun front' hEnd hSource => next front' hEnd ?_
    rw [hSource, hFront, hRest, hLeft, Cursor.rest_behind]
    simp
  | case5 => cases h
  | case6 => cases h

/-! ### The lines of a text -/

/-- What leaves blocks at the start of a line stands there, in front of the indentation. -/
theorem covers_dedents {last : Option TokenKind} {passed gap rest : List Char} {left : List Nat}
    {line column : Int} {ts : List Token}
    (place : line = 1 + (passed ++ gap).count '\n' ∧ column = columnAfter (passed ++ gap) 1)
    (starts : StartsLine last) (spacing : Spacing last gap .dedent rest)
    (next : ∀ {last' : Option TokenKind} {front gap' : List Char}, front ++ gap' = passed ++ gap →
      StartsLine last' → (last' = last ∧ gap' = gap ∨ gap' = []) →
      Covers last' front (gap' ++ rest) ts) :
    Covers last passed (gap ++ rest) (left.map (fun _ => ⟨.dedent, "", line, column⟩) ++ ts) := by
  induction left generalizing last passed gap with
  | nil => exact next rfl starts (.inl ⟨rfl, rfl⟩)
  | cons width left ih =>
    have hMore : Covers (some .dedent) (passed ++ gap ++ []) ([] ++ rest)
        (left.map (fun _ => ⟨.dedent, "", line, column⟩) ++ ts) := by
      refine ih (by simpa using place) trivial (.layout trivial .none (.inr (.inl rfl))) ?_
      intro last' front gap' hFront hStarts hGap
      refine next (by simpa using hFront) hStarts (.inr ?_)
      obtain ⟨-, rfl⟩ | rfl := hGap <;> rfl
    have hSpelled : (⟨.dedent, "", line, column⟩ : Token).Spelled [] rest := rfl
    exact .token spacing place.1 place.2 hSpelled hMore

/-- The tokens for the blocks that a line opens or leaves, and the indentation of the line. -/
theorem covers_enter {last : Option TokenKind} {passed gap run rest : List Char}
    {l inner : Layout} {line : Int} {tokens ts : List Token}
    (h : l.enter run line = .ok (inner, tokens)) (starts : StartsLine last)
    (unread : UnreadLines gap) (hLine : line = 1 + (passed ++ gap).count '\n')
    (start : columnAfter (passed ++ gap) 1 = 1) (blanks : ∀ c ∈ run, isIndentChar c = true)
    (whole : ∀ c ∈ rest.head?, isIndentChar c = false)
    (next : ∀ {last' : Option TokenKind} {front gap' : List Char},
      front ++ gap' = passed ++ gap ++ run → Ready last' gap' →
      Covers last' front (gap' ++ rest) ts) :
    Covers last passed (gap ++ (run ++ rest)) (tokens ++ ts) := by
  obtain ⟨-, ⟨rfl, -, -⟩ | ⟨left, rfl, -⟩⟩ := enter_cases h
  · have hSpelled : (⟨.indent, String.ofList run, line, 1⟩ : Token).Spelled run rest :=
      ⟨rfl, by simp, blanks, whole⟩
    have hMore : Covers (some .indent) (passed ++ gap ++ run) ([] ++ rest) ts :=
      next (by simp) (ready_behind _)
    exact .token (.layout starts unread (.inl rfl)) hLine start.symm hSpelled hMore
  · refine covers_dedents ⟨hLine, start.symm⟩ starts (.layout starts unread (.inr (.inl rfl))) ?_
    intro last' front gap' hFront hStarts hGap
    have hUnread : UnreadLines gap' := by
      obtain ⟨-, rfl⟩ | rfl := hGap
      · exact unread
      · exact .none
    have hReady : Ready last' gap' := fun _ _ _ hRun inLine => .code hStarts hUnread hRun inLine
    rw [← List.append_assoc]
    exact next (by rw [← List.append_assoc, hFront]) (hReady.append blanks)

/-- What is passed on a line without tokens. -/
theorem unreadLine_of_skip {run left : List Char} (blanks : ∀ c ∈ run, isIndentChar c = true)
    (h : left.head? = none ∨ left.head? = some '\n' ∨ left.head? = some '#') :
    UnreadLine (run ++ left.takeWhile (· != '\n')) := by
  rcases left with _ | ⟨c, left⟩
  · simpa using UnreadLine.blank blanks
  · obtain h | h | h := h
    · cases h
    · cases h
      simpa using UnreadLine.blank blanks
    · cases h
      rw [List.takeWhile_cons_of_pos (by decide)]
      exact .comment blanks fun hLine =>
        absurd (List.all_eq_true.mp List.all_takeWhile _ hLine) (by decide)

/-- A line without tokens is passed, the tokens of any other line are read. -/
theorem covers_scanLine {last : Option TokenKind} {passed gap : List Char} {l inner : Layout}
    {c lineEnd : Cursor} {tokens ts : List Token} (h : scanLine l c = .ok (tokens, inner, lineEnd))
    (here : c = .behind (passed ++ gap) c.rest) (start : c.column = 1) (starts : StartsLine last)
    (unread : UnreadLines gap)
    (skipped : ∀ line : List Char, UnreadLine line → c.rest = line ++ lineEnd.rest →
      lineEnd = .behind (passed ++ (gap ++ line)) lineEnd.rest →
      Covers last passed (gap ++ line ++ lineEnd.rest) ts)
    (next : ∀ front : List Char, lineEnd = .behind front lineEnd.rest →
      front ++ lineEnd.rest = passed ++ gap ++ c.rest →
      Covers (some .newline) (front ++ lineEnd.rest.take 1) (lineEnd.rest.drop 1) ts) :
    Covers last passed (gap ++ c.rest) (tokens ++ ts) := by
  have hStart : columnAfter (passed ++ gap) 1 = 1 := by rw [here] at start; exact start
  obtain ⟨run, left, hRest, hTaken, hRun, hWhole, hHere⟩ := skip_blanks here
  have hLine : (c.skip isIndentChar).line = 1 + (passed ++ gap).count '\n' := by
    rw [(c.at_skip (by decide)).1, here]
    rfl
  unfold scanLine at h
  dsimp only at h
  rw [show c.advance (c.rest.takeWhile isIndentChar).length = c.skip isIndentChar from rfl] at h
  split at h
  · rename_i hEmpty
    cases h
    rw [hHere, Cursor.skip_behind, Cursor.rest_behind] at skipped
    have hHead : left.head? = none ∨ left.head? = some '\n' ∨ left.head? = some '#' := by
      rw [hHere, Cursor.atLineEnd, Cursor.rest_behind] at hEmpty
      rcases left with _ | ⟨d, left⟩
      · exact .inl rfl
      · simpa using hEmpty
    have hSkipped := skipped (run ++ left.takeWhile (· != '\n')) (unreadLine_of_skip hRun hHead)
      (by rw [hRest, List.append_assoc, List.takeWhile_append_dropWhile]) (by simp)
    rw [List.append_assoc, List.append_assoc, List.takeWhile_append_dropWhile, ← hRest] at hSkipped
    exact hSkipped
  split at h
  · cases h
  rename_i layoutTokens hEnter
  split at h
  · cases h
  case h_3 => cases h
  rename_i arguments lineEnd' hArguments
  cases h
  rw [hTaken] at hEnter
  rw [hRest, List.append_assoc, List.append_assoc, List.append_assoc]
  refine covers_enter hEnter starts unread hLine hStart hRun hWhole ?_
  intro last' front gap' hFront hReady
  have hHere' : c.skip isIndentChar = .behind (front ++ gap') left := by
    rw [hHere, hFront, List.append_assoc]
  rw [hHere'] at hArguments ⊢
  rcases hHeader : header (.behind (front ++ gap') left) with ⟨headerTokens, n⟩
  rw [hHeader] at hArguments
  refine covers_header hHeader hReady ?_
  intro last'' front' gap'' taken left' hLeft hLength hFront' hReady'
  rw [hLeft, ← hLength, Cursor.advance_behind, ← hFront'] at hArguments
  refine covers_scanArguments hArguments rfl hReady' fun front'' hEnd hSource =>
    next front'' hEnd ?_
  rw [hSource, hFront', hFront, hRest, hLeft]
  simp

theorem UnreadLines.append {lines line : List Char} (h : UnreadLines lines)
    (unread : UnreadLine line) : UnreadLines (lines ++ (line ++ ['\n'])) := by
  induction h with
  | none => exact .line unread .none
  | line first _ ih =>
    rw [List.append_assoc, List.cons_append]
    exact .line first ih

theorem covers_finish {last : Option TokenKind} {passed gap : List Char} {l : Layout}
    (starts : StartsLine last)
    (spacing : ∀ {next : TokenKind}, next = .dedent ∨ next = .eof → Spacing last gap next []) :
    Covers last passed gap (finish l (.behind (passed ++ gap) [])) := by
  have hDedents : Covers last passed (gap ++ []) (finish l (.behind (passed ++ gap) [])) := by
    refine covers_dedents ⟨rfl, rfl⟩ starts (spacing (.inl rfl)) ?_
    intro last' front gap' hFront hStarts hGap
    have hSpacing : Spacing last' gap' .eof [] := by
      obtain ⟨rfl, rfl⟩ | rfl := hGap
      · exact spacing (.inr rfl)
      · exact .layout hStarts .none (.inr (.inr rfl))
    have hSpelled : ((Cursor.behind (front ++ gap') []).token .eof []).Spelled [] [] := ⟨rfl, rfl⟩
    rw [← hFront]
    exact .token hSpacing rfl rfl hSpelled .done
  rwa [List.append_nil] at hDedents

/-- The tokens from the start of a line on. -/
theorem covers_scanLines {last : Option TokenKind} {passed gap : List Char} {l : Layout}
    {c : Cursor} {ts : List Token} (h : scanLines l c = .ok ts)
    (here : c = .behind (passed ++ gap) c.rest) (start : c.column = 1) (starts : StartsLine last)
    (unread : UnreadLines gap) : Covers last passed (gap ++ c.rest) ts := by
  fun_induction scanLines l c generalizing ts last passed gap with
  | case1 l c hEnd =>
    cases h
    rw [hEnd] at here
    rw [hEnd, List.append_nil, here]
    exact covers_finish starts fun layout => .layout starts unread (.inr layout)
  | case2 => cases h
  | case3 l c _ first inner lineEnd hFirst hEnd =>
    cases h
    refine covers_scanLine hFirst here start starts unread ?_ ?_
    · intro line hUnread _ hLast
      rw [hEnd] at hLast
      rw [hEnd, List.append_nil, hLast]
      exact covers_finish starts fun layout => .unfinished starts unread hUnread layout
    · intro front hLast _
      rw [hEnd] at hLast ⊢
      rw [hLast]
      have hFinish : Covers (some .newline) front [] (finish inner (.behind (front ++ []) [])) :=
        covers_finish trivial fun layout => .layout trivial .none (.inr layout)
      simpa using hFinish
  | case4 => cases h
  | case5 l c _ first inner lineEnd hFirst hMore more hRest ih =>
    cases h
    have hEnd := (end_of_scanLine hFirst).1
    have hColumn := (next_of_atLineEnd hEnd hMore).2
    have hLeft := rest_of_atLineEnd hEnd hMore
    have hNext {front : List Char} (hLast : lineEnd = .behind front lineEnd.rest) :
        lineEnd.next = .behind (front ++ ['\n']) lineEnd.next.rest := by
      rw [← Cursor.next_behind, ← hLeft, ← hLast]
    refine covers_scanLine hFirst here start starts unread ?_ ?_
    · intro line hUnread _ hLast
      have hGap : gap ++ line ++ lineEnd.rest = gap ++ (line ++ ['\n']) ++ lineEnd.next.rest := by
        rw [hLeft]
        simp
      rw [hGap]
      exact ih hRest (by simpa using hNext hLast) hColumn starts (unread.append hUnread)
    · intro front hLast _
      rw [hLeft]
      have hMore : Covers (some .newline) (front ++ ['\n']) ([] ++ lineEnd.next.rest) more :=
        ih hRest (by simpa using hNext hLast) hColumn trivial .none
      exact hMore
  | case6 => cases h
  | case7 => cases h

/-- **Tokens cover their text.** Whatever is written in a script is a token, in the order of the
text and where the token says, or one of the few things that stand between tokens. -/
theorem covers_of_ofText {text : String} {tokens : List Token} (h : Token.ofText text = .ok tokens) :
    Covers none [] (Text.joinLineEnds text.toList) tokens ∧ tokens.Pairwise Token.NotBehind := by
  have hCovers : Covers none [] (Text.joinLineEnds text.toList) tokens := by
    have hCovers : Covers none [] ([] ++ (Cursor.start (Text.joinLineEnds text.toList)).rest) _ :=
      covers_scanLines (Upshot.mapError_eq_ok.mp h) (Cursor.start_eq_behind _) rfl trivial .none
    exact hCovers
  exact ⟨hCovers, hCovers.sorted⟩

theorem covers_of_noted_chain :
    ∃ tokens, Token.ofText "# tea\r\nCHAIN:\n\tSEARCH: green tea  --focus=\"a b\"\n" = .ok tokens ∧
      tokens.map (fun t => (t.kind, t.text, t.line, t.column)) =
        [(.commandName, "CHAIN", 2, 1), (.colon, ":", 2, 6), (.newline, "\n", 2, 7),
          (.indent, "\t", 3, 1), (.commandName, "SEARCH", 3, 2), (.colon, ":", 3, 8),
          (.bareReference, "green tea", 3, 10), (.modifierKey, "focus", 3, 21),
          (.modifierValue, "a b", 3, 29), (.newline, "\n", 3, 34), (.dedent, "", 4, 1),
          (.eof, "", 4, 1)] ∧
      Covers none []
        ("# tea\nCHAIN:\n\tSEARCH: green tea  --focus=\"a b\"\n".toList) tokens ∧
      tokens.Pairwise Token.NotBehind := by
  generalize hText : "# tea\r\nCHAIN:\n\tSEARCH: green tea  --focus=\"a b\"\n" = text
  have hSource : Text.joinLineEnds text.toList =
      "# tea\nCHAIN:\n\tSEARCH: green tea  --focus=\"a b\"\n".toList := by
    subst hText
    decide +kernel
  have hPlaces : ((Token.ofText text).toOption.map fun tokens =>
      tokens.map fun t => (t.kind, t.text, t.line, t.column)) =
      some [(.commandName, "CHAIN", 2, 1), (.colon, ":", 2, 6), (.newline, "\n", 2, 7),
        (.indent, "\t", 3, 1), (.commandName, "SEARCH", 3, 2), (.colon, ":", 3, 8),
        (.bareReference, "green tea", 3, 10), (.modifierKey, "focus", 3, 21),
        (.modifierValue, "a b", 3, 29), (.newline, "\n", 3, 34), (.dedent, "", 4, 1),
        (.eof, "", 4, 1)] := by
    subst hText
    decide +kernel
  obtain ⟨tokens, hTokens, hRead⟩ := Upshot.exists_of_map hPlaces
  obtain ⟨hCovers, hSorted⟩ := covers_of_ofText hTokens
  rw [hSource] at hCovers
  exact ⟨tokens, hTokens, hRead, hCovers, hSorted⟩

end Directive
