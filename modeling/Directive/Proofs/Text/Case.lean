import Directive.Proofs.Text.Words

/-!
# Small letters

* `IsSmall`: the characters that stay as they are in small letters, wherever they stand;
* `isSmall_of_mem_lowerFrom`: a text in small letters has no others;
* `lowerFrom_of_small`: so it is not changed by small letters again.
-/

namespace Directive.Text

/-- A character that stays as it is in small letters. A capital sigma does not, whatever stands
around it. -/
structure IsSmall (c : Char) : Prop where
  notSigma : c ≠ 'Σ'
  lowered : lowerChar c = [c]

theorem lowerFrom_of_small {cs : List Char} (h : ∀ c ∈ cs, IsSmall c) (before : List Char) :
    lowerFrom before cs = cs := by
  induction cs generalizing before with
  | nil => rfl
  | cons c cs ih =>
    obtain ⟨hFirst, hRest⟩ := List.forall_mem_cons.mp h
    rw [lowerFrom, if_neg hFirst.notSigma, hFirst.lowered, ih hRest]
    rfl

theorem toLower_eq_self {c : Char} (notCapital : c.toNat < 65 ∨ 90 < c.toNat) : c.toLower = c := by
  have hNotUpper : ¬ (c.val ≥ 'A'.val ∧ c.val ≤ 'Z'.val) := by
    simp only [ge_iff_le, UInt32.le_iff_toNat_le]
    change ¬ (65 ≤ c.toNat ∧ c.toNat ≤ 90)
    omega
  exact dif_neg hNotUpper

theorem lowerChar_of_ascii {c : Char} (ascii : c.toNat < 128) : lowerChar c = [c.toLower] :=
  if_pos ascii

/-! ### The small letters of the tables -/

/-- No small letter of one run is a letter of the other: all are beyond its ends, or between the letters
of a run in which every other one is a capital. -/
def CaseRun.misses (r s : CaseRun) : Bool :=
  (r.target + (r.last - r.first)).blt s.first || s.last.blt r.target ||
    s.stride.beq 2 && (r.first.beq r.last || r.stride.beq 2) && ((r.target + s.first) % 2).beq 1

theorem lowerRuns_misses : lowerRuns.all (fun r => lowerRuns.all r.misses) = true := by
  decide +kernel

/-- They are neither capitals of ASCII nor letters that are lowered in a way of their own. -/
theorem lowerRuns_plain : ∀ r ∈ lowerRuns, ∀ b ∈ [(65, 90), (0x130, 0x130), (0x3A3, 0x3A3)],
    r.target + (r.last - r.first) < b.1 ∨ b.2 < r.target := by
  decide +kernel

theorem CaseRun.image?_of_misses {r s : CaseRun} (misses : r.misses s = true) {m n : Nat}
    (image : r.image? m = some n) : s.image? n = none := by
  simp only [CaseRun.misses, Bool.or_eq_true, Bool.and_eq_true, Nat.blt_eq, Nat.beq_eq] at misses
  unfold CaseRun.image? at image ⊢
  split at image
  · rename_i hIn
    cases image
    apply if_neg
    rintro ⟨hFirst, hLast, hStride⟩
    obtain (below | above) | ⟨⟨hEven, hStep⟩, hOdd⟩ := misses
    · omega
    · omega
    · rw [hEven] at hStride
      obtain hOne | hTwo := hStep
      · omega
      · rw [hTwo] at hIn
        omega
  · cases image

theorem image?_of_lowerRuns {r s : CaseRun} (hr : r ∈ lowerRuns) (hs : s ∈ lowerRuns) {m n : Nat}
    (image : r.image? m = some n) : s.image? n = none :=
  CaseRun.image?_of_misses (List.all_eq_true.mp (List.all_eq_true.mp lowerRuns_misses r hr) s hs)
    image

theorem isSmall_of_ascii {c : Char} (ascii : c.toNat < 128) : IsSmall c.toLower := by
  obtain ⟨notSigma, lowered⟩ :=
    forall_ascii (fun c => c.toLower ≠ 'Σ' ∧ lowerChar c.toLower = [c.toLower]) (by decide +kernel) c
      ascii
  exact ⟨notSigma, lowered⟩

/-- A character that is in no table and has no small letter of its own. -/
theorem isSmall_of_images {c : Char} (ascii : c.toNat < 65 ∨ 90 < c.toNat) (dotted : c.toNat ≠ 0x130)
    (sigma : c.toNat ≠ 0x3A3) (images : ∀ r ∈ lowerRuns, r.image? c.toNat = none) : IsSmall c := by
  constructor
  · rintro rfl
    exact sigma rfl
  · unfold lowerChar
    split
    · rw [toLower_eq_self ascii]
    · rw [if_neg (by rintro rfl; exact dotted rfl), mapByRuns, List.findSome?_eq_none_iff.mpr images]

theorem isSmall_mapByRuns {c : Char} (notSigma : c ≠ 'Σ') (notDotted : c ≠ 'İ')
    (notAscii : ¬ c.toNat < 128) : IsSmall (mapByRuns lowerRuns c) := by
  rcases hImage : lowerRuns.findSome? (·.image? c.toNat) with _ | n
  · have hSame : mapByRuns lowerRuns c = c := by rw [mapByRuns, hImage]
    rw [hSame]
    refine ⟨notSigma, ?_⟩
    rw [lowerChar, if_neg notAscii, if_neg notDotted, hSame]
  · have hSmall : mapByRuns lowerRuns c = Char.ofNat n := by rw [mapByRuns, hImage]
    rw [hSmall]
    obtain ⟨r, hr, hImage⟩ := List.exists_of_findSome?_eq_some hImage
    have hPlain := lowerRuns_plain r hr
    have hBounds : r.target ≤ n ∧ n ≤ r.target + (r.last - r.first) := by
      unfold CaseRun.image? at hImage
      split at hImage
      · cases hImage
        omega
      · cases hImage
    obtain hCode | hZero := toNat_ofNat_eq n
    · have hAscii := hPlain (65, 90) (by simp)
      have hDotted := hPlain (0x130, 0x130) (by simp)
      have hSigma := hPlain (0x3A3, 0x3A3) (by simp)
      dsimp only at hAscii hDotted hSigma
      apply isSmall_of_images
      · omega
      · omega
      · omega
      · intro s hs
        rw [hCode]
        exact image?_of_lowerRuns hr hs hImage
    · -- No character has this number, so it stands for the character with number zero.
      have hNull : Char.ofNat n = '\x00' := Char.toNat_inj.mp hZero
      rw [hNull]
      exact ⟨by decide, by decide⟩

/-! ### Texts in small letters -/

theorem isSmall_of_mem_lowerChar {c : Char} (notSigma : c ≠ 'Σ') : ∀ d ∈ lowerChar c, IsSmall d := by
  unfold lowerChar
  split
  · rename_i ascii
    exact List.forall_mem_singleton.mpr (isSmall_of_ascii ascii)
  · rename_i notAscii
    split
    · have hDot : IsSmall '\u0307' := ⟨by decide, by decide +kernel⟩
      have hLetter : IsSmall 'i' := ⟨by decide, by decide⟩
      exact List.forall_mem_cons.mpr ⟨hLetter, List.forall_mem_singleton.mpr hDot⟩
    · rename_i notDotted
      exact List.forall_mem_singleton.mpr (isSmall_mapByRuns notSigma notDotted notAscii)

theorem isSmall_of_mem_lowerFrom (before cs : List Char) : ∀ d ∈ lowerFrom before cs, IsSmall d := by
  induction cs generalizing before with
  | nil =>
    intro d hd
    cases hd
  | cons c cs ih =>
    rw [lowerFrom, List.forall_mem_append]
    refine ⟨?_, ih (c :: before)⟩
    split
    · have hFinal : IsSmall 'ς' := ⟨by decide, by decide +kernel⟩
      have hInner : IsSmall 'σ' := ⟨by decide, by decide +kernel⟩
      intro d hd
      rw [List.mem_singleton.mp hd]
      split
      · exact hFinal
      · exact hInner
    · rename_i notSigma
      exact isSmall_of_mem_lowerChar notSigma

end Directive.Text
