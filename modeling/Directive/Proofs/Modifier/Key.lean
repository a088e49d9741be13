import Directive.Modifier.Key
import Directive.Proofs.Text.Blank
import Directive.Proofs.Text.Case
import Directive.Token.Lexer

/-!
# Canonical keys

* `IsCanonicalKey`: a small letter or an underscore, then small letters, digits and underscores;
* `IsCanonicalKey.canonicalKey_eq`: such a key is its own canonical key;
* `IsCanonicalKey.keyName`: the lexer takes it as a key.
-/

namespace Directive

/-- A key as a grammar knows it. -/
def IsCanonicalKey (key : String) : Prop :=
  isNameOf (fun c => isSmallLetter c || c == '_')
    (fun c => isSmallLetter c || c.isDigit || c == '_') key.toList = true

/-- The characters of canonical keys are letters without capitals, and no blanks. -/
structure KeyChar (c : Char) : Prop extends Text.IsSmall c where
  name : isKeyChar c = true
  notBlank : Text.isBlank c = false
  notHyphen : c ≠ '-'

theorem isAlpha_of_isSmallLetter {c : Char} (h : isSmallLetter c = true) : c.isAlpha = true := by
  simp only [isSmallLetter, Bool.and_eq_true, decide_eq_true_eq, Char.le_def] at h
  have hLower : c.isLower = true := by
    change (decide (_ ≤ _) && decide (_ ≤ _)) = true
    rw [Bool.and_eq_true, decide_eq_true_eq, decide_eq_true_eq]
    exact h
  change (c.isUpper || c.isLower) = true
  rw [hLower, Bool.or_true]

theorem keyChar_of_plain {c : Char} (h : (isSmallLetter c || c.isDigit || c == '_') = true) :
    KeyChar c := by
  have hRange : 97 ≤ c.toNat ∧ c.toNat ≤ 122 ∨ 48 ≤ c.toNat ∧ c.toNat ≤ 57 ∨ c.toNat = 95 := by
    simp only [isSmallLetter, Char.isDigit, Bool.or_eq_true, Bool.and_eq_true, decide_eq_true_eq,
      Char.le_def, UInt32.le_iff_toNat_le, beq_iff_eq] at h
    rcases h with (h | h) | rfl
    · exact .inl h
    · exact .inr (.inl h)
    · exact .inr (.inr rfl)
  have hNot (d : Char) (hd : d.toNat = 45 ∨ 128 ≤ d.toNat) : c ≠ d := by
    rintro rfl
    omega
  refine ⟨⟨hNot _ (.inr (by decide)), ?_⟩, ?_, ?_, hNot _ (.inl rfl)⟩
  · rw [Text.lowerChar_of_ascii (by omega), Text.toLower_eq_self (by omega)]
  · simp only [Bool.or_eq_true, beq_iff_eq] at h
    rcases h with (h | h) | rfl
    · simp [isKeyChar, isNameChar, Char.isAlphanum, isAlpha_of_isSmallLetter h]
    · simp [isKeyChar, isNameChar, Char.isAlphanum, h]
    · rfl
  · simp only [Text.isBlank, Bool.or_eq_false_iff, Bool.and_eq_false_iff, decide_eq_false_iff_not,
      beq_eq_false_iff_ne]
    omega

/-- A text is its own canonical key if it has small letters, no hyphens, and no blanks around it. -/
theorem canonicalKeyChars_eq_self {cs : List Char} (small : ∀ c ∈ cs, Text.IsSmall c)
    (noHyphen : '-' ∉ cs) (front : ∀ c ∈ cs.head?, Text.isBlank c = false)
    (back : ∀ c ∈ cs.getLast?, Text.isBlank c = false) : canonicalKeyChars cs = cs := by
  have hTrimmed : Text.trimChars cs = cs := Text.trimChars_eq_self front back
  have hHyphens : hyphensToUnderscores cs = cs := by
    rw [hyphensToUnderscores]
    conv => rhs; rw [← List.map_id cs]
    apply List.map_congr_left
    intro c hc
    apply if_neg
    rintro rfl
    exact noHyphen hc
  have hLowered : Text.lowerChars cs = cs := Text.lowerFrom_of_small small []
  rw [canonicalKeyChars, hTrimmed, hLowered, hHyphens, hLowered]

theorem canonicalKeyChars_of_keyChars {cs : List Char} (h : ∀ c ∈ cs, KeyChar c) :
    canonicalKeyChars cs = cs := by
  apply canonicalKeyChars_eq_self
  · intro c hc
    exact (h c hc).toIsSmall
  · intro hHyphen
    exact (h _ hHyphen).notHyphen rfl
  · intro c hc
    exact (h c (List.mem_of_mem_head? hc)).notBlank
  · intro c hc
    exact (h c (List.mem_of_getLast? hc)).notBlank

namespace IsCanonicalKey

variable {key : String}

theorem keyChars (h : IsCanonicalKey key) : ∀ c ∈ key.toList, KeyChar c := by
  unfold IsCanonicalKey at h
  generalize key.toList = cs at h
  cases cs with
  | nil => simp
  | cons c cs =>
    rw [isNameOf, Bool.and_eq_true, List.all_eq_true] at h
    rintro d (_ | ⟨_, hd⟩)
    · refine keyChar_of_plain ?_
      have hFirst := h.1
      rw [Bool.or_eq_true] at hFirst
      rcases hFirst with hFirst | hFirst <;> simp [hFirst]
    · exact keyChar_of_plain (h.2 d hd)

theorem canonicalKey_eq (h : IsCanonicalKey key) : canonicalKey key = key := by
  rw [canonicalKey, canonicalKeyChars_of_keyChars h.keyChars, String.ofList_toList]

theorem keyName (h : IsCanonicalKey key) : isNameOf isNameStart isKeyChar key.toList = true := by
  have hChars := h.keyChars
  unfold IsCanonicalKey at h
  generalize key.toList = cs at h hChars
  cases cs with
  | nil => cases h
  | cons c cs =>
    rw [isNameOf, Bool.and_eq_true, List.all_eq_true] at h ⊢
    refine ⟨?_, fun d hd => (hChars d (by simp [hd])).name⟩
    have hFirst := h.1
    rw [Bool.or_eq_true] at hFirst
    rcases hFirst with hFirst | hFirst
    · simp [isNameStart, isAlpha_of_isSmallLetter hFirst]
    · simp [isNameStart, hFirst]

end IsCanonicalKey

end Directive
