import Directive.Proofs.Token.Scan

/-!
# What holds of every token

* `HoldsOfParts`: what holds of the tokens of each part of a line;
* `HoldsOfParts.ofText`: that holds of all tokens of a text;
* `isName_of_ofText`: where a command is named there is a name.
-/

namespace Directive

/-- What the lexer sees to wherever it makes a token. -/
structure HoldsOfParts (P : Token → Prop) : Prop where
  layout : ∀ t : Token, t.kind.isLayout = true → P t
  header : ∀ c : Cursor, ∀ t ∈ (header c).1, P t
  argument : ∀ (c : Cursor) (ts : List Token) (n : Nat), argument c = .ok (ts, n) → ∀ t ∈ ts, P t

namespace HoldsOfParts

variable {P : Token → Prop} (parts : HoldsOfParts P)

include parts

theorem scanArguments {c last : Cursor} {ts : List Token}
    (h : Directive.scanArguments c = .ok (ts, last)) : ∀ t ∈ ts, P t := by
  fun_induction Directive.scanArguments c generalizing ts last with
  | case1 =>
    cases h
    exact List.forall_mem_nil _
  | case2 => cases h
  | case3 => cases h
  | case4 c here _ first n hFirst _ more _ hMore =>
    rename_i ih
    cases h
    exact List.forall_mem_append.mpr ⟨parts.argument _ _ _ hFirst, ih hMore⟩
  | case5 => cases h
  | case6 => cases h

theorem enter {l inner : Layout} {run : List Char} {line : Int} {lead : List Token}
    (h : l.enter run line = .ok (inner, lead)) : ∀ t ∈ lead, P t := by
  obtain ⟨-, ⟨rfl, -⟩ | ⟨left, rfl, -⟩⟩ := enter_cases h
  · exact List.forall_mem_singleton.mpr (parts.layout _ rfl)
  · exact List.forall_mem_map.mpr fun _ _ => parts.layout _ rfl

theorem scanLine {l inner : Layout} {c last : Cursor} {ts : List Token}
    (h : Directive.scanLine l c = .ok (ts, inner, last)) : ∀ t ∈ ts, P t := by
  unfold Directive.scanLine at h
  dsimp only at h
  split at h
  · cases h
    exact List.forall_mem_nil _
  · split at h
    · cases h
    rename_i hEnter
    split at h
    · cases h
    case h_3 => cases h
    rename_i hArguments
    cases h
    simp only [List.forall_mem_append]
    exact ⟨⟨⟨parts.enter hEnter, parts.header _⟩, parts.scanArguments hArguments⟩,
      List.forall_mem_singleton.mpr (parts.layout _ rfl)⟩

theorem scans {l final : Layout} {c last : Cursor} {ts : List Token}
    (h : Scans l c ts final last) : ∀ t ∈ ts, P t := by
  induction h with
  | done => exact List.forall_mem_nil _
  | last _ line _ => exact parts.scanLine line
  | line _ line _ _ ih => exact List.forall_mem_append.mpr ⟨parts.scanLine line, ih⟩

theorem finish (l : Layout) (c : Cursor) : ∀ t ∈ finish l c, P t := by
  refine List.forall_mem_append.mpr ⟨?_, List.forall_mem_singleton.mpr (parts.layout _ rfl)⟩
  exact List.forall_mem_map.mpr fun _ _ => parts.layout _ rfl

/-- What holds of the tokens of each part of a line holds of all tokens. -/
theorem ofText {text : String} {ts : List Token} (h : Token.ofText text = .ok ts) :
    ∀ t ∈ ts, P t := by
  obtain ⟨lines, final, last, rfl, hScans⟩ := scans_of_scanLines (ofText_eq_ok_iff.mp h)
  exact List.forall_mem_append.mpr ⟨parts.scans hScans, parts.finish final last⟩

end HoldsOfParts

/-! ### Names -/

theorem isNameOf_of_nameAt? {p : Char → Bool} {text name : List Char}
    (h : nameAt? p text = some name) : isNameOf isNameStart p name = true := by
  unfold nameAt? at h
  split at h
  · cases h
  · split at h
    · rename_i start
      cases h
      rw [isNameOf, start, Bool.true_and]
      exact List.all_takeWhile
    · cases h

/-- If the token names a command, its text is a name. -/
def Token.IsNamed (t : Token) : Prop :=
  t.kind = .commandName → isNameOf isNameStart isNameChar t.text.toList = true

theorem isNamed_of_header (c : Cursor) : ∀ t ∈ (header c).1, t.IsNamed := by
  unfold header
  split
  · exact List.forall_mem_nil _
  · rename_i name hName
    have hNamed : (c.token .commandName name).IsNamed := by
      intro _
      rw [Cursor.token, String.toList_ofList]
      exact isNameOf_of_nameAt? hName
    dsimp only
    split
    · refine List.forall_mem_cons.mpr ⟨hNamed, List.forall_mem_singleton.mpr ?_⟩
      intro hColon
      cases hColon
    · exact List.forall_mem_singleton.mpr hNamed
    · split
      · exact List.forall_mem_singleton.mpr hNamed
      · exact List.forall_mem_nil _

theorem kind_of_modifier {c : Cursor} {ts : List Token} {n : Nat} (h : modifier c = .ok (ts, n)) :
    ∀ t ∈ ts, t.kind = .modifierKey ∨ t.kind = .modifierValue := by
  unfold modifier Cursor.fail at h
  dsimp only at h
  split at h
  · cases h
  · split at h
    · rcases hValue : modifierValue _ with e | ⟨value, m⟩
      · rw [hValue] at h
        cases h
      · rw [hValue] at h
        cases h
        refine List.forall_mem_cons.mpr ⟨.inl rfl, List.forall_mem_singleton.mpr (.inr ?_)⟩
        exact kind_of_modifierValue hValue
    · cases h
      exact List.forall_mem_singleton.mpr (.inl rfl)
    · split at h <;> cases h
      exact List.forall_mem_singleton.mpr (.inl rfl)

theorem kind_ne_commandName_of_argument {c : Cursor} {ts : List Token} {n : Nat}
    (h : argument c = .ok (ts, n)) : ∀ t ∈ ts, t.kind ≠ .commandName := by
  unfold argument Cursor.fail at h
  split at h
  · split at h <;> cases h
    exact List.forall_mem_singleton.mpr (by simp [Cursor.token])
  · split at h <;> cases h
    exact List.forall_mem_singleton.mpr (by simp [Cursor.token])
  · intro t ht hName
    obtain hKind | hKind := kind_of_modifier h t ht <;> simp [hKind] at hName
  · cases h
    exact List.forall_mem_singleton.mpr (by simp [Cursor.token])

theorem isName_of_ofText {text : String} {ts : List Token} (h : Token.ofText text = .ok ts) :
    ∀ t ∈ ts, t.IsNamed := by
  refine HoldsOfParts.ofText ⟨?_, isNamed_of_header, ?_⟩ h
  · intro t hLayout hName
    simp [hName, TokenKind.isLayout] at hLayout
  · intro c ts n hArgument t ht hName
    exact absurd hName (kind_ne_commandName_of_argument hArgument t ht)

end Directive
