import Directive.Chain.Reference

/-!
# Words

A text that is not blank still has a word once its capitals are gone.

* `lowerChars_notBlank`: small letters are as little blank as the characters that they come from;
* `wordsOf_ne_nil`: so a phrase that is not blank has a word.
-/

namespace Directive.Text

theorem wordChars_ne_nil {cs : List Char} (h : ∃ c ∈ cs, isBlank c = false) : wordChars cs ≠ [] := by
  induction cs with
  | nil => simp at h
  | cons c cs ih =>
    rw [wordChars, split]
    cases hBlank : isBlank c with
    | true =>
      have hRest : ∃ d ∈ cs, isBlank d = false := by simpa [hBlank] using h
      simpa [wordChars] using ih hRest
    | false => rcases hSplit : split isBlank cs with _ | ⟨piece, pieces⟩ <;> simp

/-- What holds of each of the first characters by number holds of every ASCII character. -/
theorem forall_ascii (P : Char → Prop) (h : ∀ n < 128, P (Char.ofNat n)) (c : Char)
    (ascii : c.toNat < 128) : P c := by
  have hHere := h c.toNat ascii
  rw [Char.ofNat_toNat] at hHere
  exact hHere

theorem isBlank_toLower {c : Char} (ascii : c.toNat < 128) (h : isBlank c = false) :
    isBlank c.toLower = false :=
  forall_ascii (fun c => isBlank c = false → isBlank c.toLower = false) (by decide) c ascii h

/-- The codes of all blanks. -/
def blankCodes : List Nat :=
  [9, 10, 11, 12, 13, 28, 29, 30, 31, 32, 0x85, 0xA0, 0x1680, 0x2000, 0x2001, 0x2002, 0x2003, 0x2004,
    0x2005, 0x2006, 0x2007, 0x2008, 0x2009, 0x200A, 0x2028, 0x2029, 0x202F, 0x205F, 0x3000]

theorem toNat_mem_blankCodes {c : Char} (h : isBlank c = true) : c.toNat ∈ blankCodes := by
  simp [isBlank, blankCodes] at h ⊢
  omega

theorem toNat_ofNat_eq (n : Nat) : (Char.ofNat n).toNat = n ∨ (Char.ofNat n).toNat = 0 := by
  by_cases valid : n.isValidChar
  · exact .inl (congrArg Char.toNat (dif_pos valid : Char.ofNat n = Char.ofNatAux n valid))
  · exact .inr (congrArg Char.toNat (dif_neg valid))

/-- No run of letters has a blank among its small letters. -/
theorem lowerRuns_notBlank : ∀ r ∈ lowerRuns, ∀ b ∈ blankCodes,
    r.target + (r.last - r.first) < b ∨ b < r.target := by
  decide +kernel

theorem isBlank_mapByRuns {c : Char} (h : isBlank c = false) :
    isBlank (mapByRuns lowerRuns c) = false := by
  unfold mapByRuns
  split
  · rename_i n hImage
    obtain ⟨r, hr, hImage⟩ := List.exists_of_findSome?_eq_some hImage
    unfold CaseRun.image? at hImage
    split at hImage
    · rename_i hIn
      cases hImage
      refine Bool.eq_false_iff.mpr fun hBlank => ?_
      have hCode := toNat_mem_blankCodes hBlank
      rcases toNat_ofNat_eq (r.target + (c.toNat - r.first)) with hSame | hZero
      · rw [hSame] at hCode
        have := lowerRuns_notBlank r hr _ hCode
        omega
      · rw [hZero] at hCode
        simp [blankCodes] at hCode
    · cases hImage
  · exact h

theorem lowerChar_notBlank {c : Char} (h : isBlank c = false) :
    ∃ d ∈ lowerChar c, isBlank d = false := by
  unfold lowerChar
  split
  · rename_i ascii
    exact ⟨_, List.mem_singleton_self _, isBlank_toLower ascii h⟩
  · split
    · exact ⟨'i', by simp, by decide⟩
    · exact ⟨_, List.mem_singleton_self _, isBlank_mapByRuns h⟩

theorem lowerFrom_notBlank (before : List Char) {cs : List Char} (h : ∃ c ∈ cs, isBlank c = false) :
    ∃ d ∈ lowerFrom before cs, isBlank d = false := by
  induction cs generalizing before with
  | nil => simp at h
  | cons c cs ih =>
    rw [lowerFrom]
    cases hBlank : isBlank c with
    | true =>
      have hRest : ∃ d ∈ cs, isBlank d = false := by simpa [hBlank] using h
      obtain ⟨d, hd, hNot⟩ := ih (c :: before) hRest
      exact ⟨d, List.mem_append_right _ hd, hNot⟩
    | false =>
      split
      · split
        · exact ⟨'ς', by simp, by decide⟩
        · exact ⟨'σ', by simp, by decide⟩
      · obtain ⟨d, hd, hNot⟩ := lowerChar_notBlank hBlank
        exact ⟨d, List.mem_append_left _ hd, hNot⟩

end Directive.Text

namespace Directive.Resolver

theorem wordsOf_ne_nil {phrase : String} (h : Text.isBlankText phrase = false) :
    wordsOf phrase ≠ [] := by
  have hSome : ∃ c ∈ phrase.toList, Text.isBlank c = false := by
    simpa [Text.isBlankText] using h
  rw [wordsOf, Text.words, Text.lower, String.toList_ofList, Text.lowerChars]
  simpa using Text.wordChars_ne_nil (Text.lowerFrom_notBlank [] hSome)

end Directive.Resolver
