import Mathlib.Data.List.Forall2
import Mathlib.Data.List.TakeWhile
import Directive.Proofs.Grammar.Canonical

/-!
# Spellings of keys

* `canonicalKey_canonicalKey`: a canonical key is its own canonical key, whatever it came from;
* `IsSpellingOf`: spellings that differ in capitals, and in hyphens for underscores;
* `canonicalKey_of_spelling`: they have one canonical key.
-/

namespace Directive

/-! ### Keys that are canonical already -/

theorem isSmall_hyphensToUnderscores {cs : List Char} (h : ∀ c ∈ cs, Text.IsSmall c) :
    ∀ c ∈ hyphensToUnderscores cs, Text.IsSmall c := by
  intro c hc
  obtain ⟨d, hd, rfl⟩ := List.mem_map.mp hc
  split
  · exact ⟨by decide, by decide⟩
  · exact h d hd

theorem hyphen_notMem_hyphensToUnderscores (cs : List Char) : '-' ∉ hyphensToUnderscores cs := by
  intro hHyphen
  obtain ⟨c, -, hc⟩ := List.mem_map.mp hHyphen
  split at hc
  · cases hc
  · rename_i notHyphen
    exact notHyphen hc

/-- The second lowering finds small letters only. -/
theorem canonicalKeyChars_eq (cs : List Char) :
    canonicalKeyChars cs = hyphensToUnderscores (Text.lowerChars (Text.trimChars cs)) :=
  Text.lowerFrom_of_small
    (isSmall_hyphensToUnderscores (Text.isSmall_of_mem_lowerFrom [] (Text.trimChars cs))) []

/-- A text that does not begin with a blank does not begin with one in small letters. -/
theorem notBlank_head?_lowerChars {cs : List Char} (h : ∀ c ∈ cs.head?, Text.isBlank c = false) :
    ∀ d ∈ (Text.lowerChars cs).head?, Text.isBlank d = false := by
  cases cs with
  | nil =>
    intro d hd
    cases hd
  | cons c cs =>
    intro d hd
    rw [Text.lowerChars, Text.lowerFrom, List.head?_append_of_ne_nil _ (lowered_ne_nil c _)] at hd
    exact notBlank_lowered (h c rfl) _ d (List.mem_of_mem_head? hd)

/-- **A canonical key is its own canonical key.** -/
theorem canonicalKeyChars_canonicalKeyChars (cs : List Char) :
    canonicalKeyChars (canonicalKeyChars cs) = canonicalKeyChars cs := by
  apply canonicalKeyChars_eq_self
  · exact Text.isSmall_of_mem_lowerFrom [] _
  · rw [canonicalKeyChars_eq]
    exact hyphen_notMem_hyphensToUnderscores _
  · intro c hc
    rw [canonicalKeyChars_eq, hyphensToUnderscores, List.head?_map] at hc
    obtain ⟨d, hd, rfl⟩ := Option.map_eq_some_iff.mp hc
    split
    · decide
    · exact notBlank_head?_lowerChars (Text.notBlank_head?_trimChars cs) d hd
  · exact notBlank_getLast?_canonicalKeyChars cs

theorem canonicalKey_canonicalKey (key : String) :
    canonicalKey (canonicalKey key) = canonicalKey key := by
  rw [canonicalKey, canonicalKey, String.toList_ofList, canonicalKeyChars_canonicalKeyChars]

/-! ### Spellings -/

/-- Characters that a key does not tell apart: a letter of ASCII in both cases, and the two marks
between words. -/
inductive AlikeInKeys : Char → Char → Prop
  | same (c : Char) : AlikeInKeys c c
  | letter {c d : Char} (first : c.isAlpha = true) (second : d.isAlpha = true)
      (sameLetter : c.toLower = d.toLower) : AlikeInKeys c d
  | mark {c d : Char} (first : c = '-' ∨ c = '_') (second : d = '-' ∨ d = '_') : AlikeInKeys c d

theorem alikeInKeys_iff {c d : Char} :
    AlikeInKeys c d ↔ c = d ∨ (c.isAlpha = true ∧ d.isAlpha = true ∧ c.toLower = d.toLower) ∨
      (c = '-' ∨ c = '_') ∧ (d = '-' ∨ d = '_') := by
  constructor
  · intro alike
    cases alike with
    | same => exact .inl rfl
    | letter first second sameLetter => exact .inr (.inl ⟨first, second, sameLetter⟩)
    | mark first second => exact .inr (.inr ⟨first, second⟩)
  · rintro (rfl | ⟨first, second, sameLetter⟩ | ⟨first, second⟩)
    · exact .same c
    · exact .letter first second sameLetter
    · exact .mark first second

instance : DecidableRel AlikeInKeys := fun _ _ => decidable_of_iff _ alikeInKeys_iff.symm

/-- Another spelling of a key. Blanks around the key do not count. -/
def IsSpellingOf (spelling key : String) : Prop :=
  List.Forall₂ AlikeInKeys (Text.trimChars key.toList) spelling.toList

instance (spelling key : String) : Decidable (IsSpellingOf spelling key) :=
  inferInstanceAs (Decidable (List.Forall₂ _ _ _))

/-- What becomes of a character of ASCII. -/
def canonicalKeyChar (c : Char) : Char := if c.toLower = '-' then '_' else c.toLower

theorem AlikeInKeys.canonicalKeyChar_eq {c d : Char} (h : AlikeInKeys c d) :
    canonicalKeyChar c = canonicalKeyChar d := by
  cases h with
  | same => rfl
  | letter _ _ sameLetter => rw [canonicalKeyChar, canonicalKeyChar, sameLetter]
  | mark first second => obtain rfl | rfl := first <;> obtain rfl | rfl := second <;> decide

theorem ascii_of_isAlpha {c : Char} (h : c.isAlpha = true) : c.toNat < 128 := by
  change (decide ('A'.val ≤ c.val ∧ c.val ≤ 'Z'.val) ||
    decide ('a'.val ≤ c.val) && decide (c.val ≤ 'z'.val)) = true at h
  simp only [Bool.or_eq_true, Bool.and_eq_true, decide_eq_true_eq, UInt32.le_iff_toNat_le] at h
  change 65 ≤ c.toNat ∧ c.toNat ≤ 90 ∨ 97 ≤ c.toNat ∧ c.toNat ≤ 122 at h
  omega

theorem ascii_of_isKeyChar {c : Char} (h : isKeyChar c = true) : c.toNat < 128 := by
  simp only [isKeyChar, isNameChar, Char.isAlphanum, Bool.or_eq_true, beq_iff_eq] at h
  obtain ((hAlpha | hDigit) | rfl) | rfl := h
  · exact ascii_of_isAlpha hAlpha
  · simp only [Char.isDigit, Bool.and_eq_true, decide_eq_true_eq, ge_iff_le,
      UInt32.le_iff_toNat_le] at hDigit
    change 48 ≤ c.toNat ∧ c.toNat ≤ 57 at hDigit
    omega
  · decide
  · decide

theorem AlikeInKeys.ascii {c d : Char} (h : AlikeInKeys c d) (second : d.toNat < 128) :
    c.toNat < 128 := by
  cases h with
  | same => exact second
  | letter first => exact ascii_of_isAlpha first
  | mark first => obtain rfl | rfl := first <;> decide

theorem lowerFrom_of_ascii {cs : List Char} (h : ∀ c ∈ cs, c.toNat < 128) (before : List Char) :
    Text.lowerFrom before cs = cs.map Char.toLower := by
  induction cs generalizing before with
  | nil => rfl
  | cons c cs ih =>
    obtain ⟨hFirst, hRest⟩ := List.forall_mem_cons.mp h
    have notSigma : c ≠ 'Σ' := by
      rintro rfl
      exact absurd hFirst (by decide)
    rw [Text.lowerFrom, if_neg notSigma, Text.lowerChar_of_ascii hFirst, ih hRest]
    rfl

theorem canonicalKeyChars_of_ascii {cs : List Char} (h : ∀ c ∈ Text.trimChars cs, c.toNat < 128) :
    canonicalKeyChars cs = (Text.trimChars cs).map canonicalKeyChar := by
  rw [canonicalKeyChars_eq, Text.lowerChars, lowerFrom_of_ascii h, hyphensToUnderscores, List.map_map]
  rfl

theorem isKeyChar_of_isNameStart {c : Char} (h : isNameStart c = true) : isKeyChar c = true := by
  simp only [isNameStart, Bool.or_eq_true] at h
  obtain h | h := h <;> simp [isKeyChar, isNameChar, Char.isAlphanum, h]

/-- What the lexer reads as a key has no other characters than keys may have. -/
theorem isKeyChar_of_nameAt? {cs : List Char} (h : nameAt? isKeyChar cs = some cs) :
    ∀ c ∈ cs, isKeyChar c = true := by
  cases cs with
  | nil => cases h
  | cons c cs =>
    rw [nameAt?] at h
    split at h
    · rename_i hStart
      have hRest : cs.takeWhile isKeyChar = cs := (List.cons.inj (Option.some.inj h)).2
      rw [List.takeWhile_eq_self_iff] at hRest
      exact List.forall_mem_cons.mpr ⟨isKeyChar_of_isNameStart hStart, hRest⟩
    · cases h

theorem notBlank_of_isKeyChar {c : Char} (h : isKeyChar c = true) : Text.isBlank c = false :=
  Text.forall_ascii (fun c => isKeyChar c = true → Text.isBlank c = false) (by decide) c
    (ascii_of_isKeyChar h) h

theorem trimChars_of_isKeyChar {cs : List Char} (h : ∀ c ∈ cs, isKeyChar c = true) :
    Text.trimChars cs = cs :=
  Text.trimChars_eq_self
    (fun c hc => notBlank_of_isKeyChar (h c (List.mem_of_mem_head? hc)))
    (fun c hc => notBlank_of_isKeyChar (h c (List.mem_of_getLast? hc)))

theorem canonicalKeyChars_of_alike {cs ds : List Char} (alike : List.Forall₂ AlikeInKeys cs ds)
    (ascii : ∀ d ∈ ds, d.toNat < 128) :
    (∀ c ∈ cs, c.toNat < 128) ∧ cs.map canonicalKeyChar = ds.map canonicalKeyChar := by
  induction alike with
  | nil => exact ⟨List.forall_mem_nil _, rfl⟩
  | cons first _ ih =>
    obtain ⟨hFirst, hRest⟩ := List.forall_mem_cons.mp ascii
    obtain ⟨hAscii, hSame⟩ := ih hRest
    refine ⟨List.forall_mem_cons.mpr ⟨first.ascii hFirst, hAscii⟩, ?_⟩
    rw [List.map_cons, List.map_cons, first.canonicalKeyChar_eq, hSame]

/-- **All spellings of a key have its canonical key.** -/
theorem canonicalKey_of_spelling {key spelling : String} (spelled : IsSpellingOf spelling key)
    (reads : nameAt? isKeyChar spelling.toList = some spelling.toList) :
    canonicalKey spelling = canonicalKey key := by
  have hChars := isKeyChar_of_nameAt? reads
  have hTrimmed := trimChars_of_isKeyChar hChars
  have hAscii : ∀ c ∈ spelling.toList, c.toNat < 128 := by
    intro c hc
    exact ascii_of_isKeyChar (hChars c hc)
  obtain ⟨hKey, hSame⟩ := canonicalKeyChars_of_alike spelled hAscii
  have hSpelling : canonicalKeyChars spelling.toList = spelling.toList.map canonicalKeyChar := by
    rw [canonicalKeyChars_of_ascii (by rw [hTrimmed]; exact hAscii), hTrimmed]
  rw [canonicalKey, canonicalKey, hSpelling, canonicalKeyChars_of_ascii hKey, hSame]

end Directive
