import Mathlib.Data.List.Forall2
import Directive.Table

/-!
# Entries of tables

The entries of a table after each way to change it, and where they come from; and what is found under
a name after it.

* `Table.keys_foldl_put`: the names of a table stand in the order in which they came first;
* `Table.get?_foldl_put`, `Table.get?_merge`: the last value of a name counts;
* `Table.merge_assoc`: it does not matter which of three tables are put together first;
* `Table.forall₂_foldl_put`: tables with corresponding entries keep them in correspondence.
-/

namespace Directive

/-! ### Lists without repetitions -/

theorem eraseDups_sublist {α : Type} [BEq α] (l : List α) : l.eraseDups.Sublist l := by
  match l with
  | [] => exact .slnil
  | a :: l =>
    rw [List.eraseDups_cons]
    exact ((eraseDups_sublist _).trans List.filter_sublist).cons_cons a
termination_by l.length
decreasing_by exact Nat.lt_succ_of_le (List.length_filter_le _ _)

theorem nodup_eraseDups {α : Type} [BEq α] [LawfulBEq α] (l : List α) : l.eraseDups.Nodup := by
  match l with
  | [] => exact .nil
  | a :: l =>
    rw [List.eraseDups_cons, List.nodup_cons]
    refine ⟨?_, nodup_eraseDups _⟩
    rw [List.mem_eraseDups]
    simp
termination_by l.length
decreasing_by exact Nat.lt_succ_of_le (List.length_filter_le _ _)

theorem eraseDups_eq_self {α : Type} [BEq α] [LawfulBEq α] {l : List α} (h : l.Nodup) :
    l.eraseDups = l := by
  induction l with
  | nil => rfl
  | cons a l ih =>
    obtain ⟨hNew, hRest⟩ := List.nodup_cons.mp h
    have hAll : l.filter (fun b => !b == a) = l := by
      refine List.filter_eq_self.mpr fun b hb => ?_
      have hDiffer : b ≠ a := fun hSame => hNew (hSame ▸ hb)
      simpa using hDiffer
    rw [List.eraseDups_cons, hAll, ih hRest]

/-- Repetitions may be taken out of the first part beforehand. -/
theorem eraseDups_eraseDups_append {α : Type} [BEq α] [LawfulBEq α] (l m : List α) :
    (l.eraseDups ++ m).eraseDups = (l ++ m).eraseDups := by
  have hRest : m.removeAll l.eraseDups = m.removeAll l := by
    unfold List.removeAll
    apply List.filter_congr
    intro a _
    rw [Bool.eq_iff_iff]
    simp
  rw [List.eraseDups_append, List.eraseDups_append, hRest, eraseDups_eq_self (nodup_eraseDups l)]

namespace Table

universe u v

variable {α : Type u} {β : Type v}

theorem entries_move (t : Table α) (k : String) (v : α) :
    (t.move k v).entries = t.entries.filter (·.1 ≠ k) ++ [(k, v)] := by
  rw [Table.move, Table.put, dif_neg (t.not_mem_keys_erase k)]
  rfl

theorem entries_foldl_put {l : List (String × α)} {t : Table α}
    (h : (t.keys ++ l.map Prod.fst).Nodup) :
    (l.foldl (fun t e => t.put e.1 e.2) t).entries = t.entries ++ l := by
  induction l generalizing t with
  | nil => simp
  | cons e l ih =>
    have hNew : e.1 ∉ t.keys := by
      intro hMem
      rw [List.map_cons, List.nodup_append] at h
      exact h.2.2 e.1 hMem e.1 (by simp) rfl
    have hPut : (t.put e.1 e.2).entries = t.entries ++ [e] := by
      rw [put, dif_neg hNew]
    rw [List.foldl_cons, ih, hPut, List.append_assoc]
    · rfl
    · rw [keys, hPut]
      simpa [keys] using h

theorem entries_ofList {l : List (String × α)} (h : (l.map Prod.fst).Nodup) :
    (Table.ofList l).entries = l :=
  entries_foldl_put h

theorem mem_of_mem_put {t : Table α} {k : String} {v : α} {e : String × α}
    (h : e ∈ (t.put k v).entries) : e ∈ t.entries ∨ e = (k, v) := by
  unfold put at h
  split at h
  · obtain ⟨e', he', rfl⟩ := List.mem_map.mp h
    split
    · exact .inr rfl
    · exact .inl he'
  · simpa using h

theorem mem_of_mem_foldl_put {l : List (String × α)} {t : Table α} {e : String × α}
    (h : e ∈ (l.foldl (fun t e => t.put e.1 e.2) t).entries) : e ∈ t.entries ∨ e ∈ l := by
  induction l generalizing t with
  | nil => exact .inl h
  | cons e' l ih =>
    obtain h | h := ih h
    · obtain h | rfl := mem_of_mem_put h
      · exact .inl h
      · exact .inr List.mem_cons_self
    · exact .inr (List.mem_cons_of_mem e' h)

theorem mem_of_mem_ofList {l : List (String × α)} {e : String × α}
    (h : e ∈ (Table.ofList l).entries) : e ∈ l :=
  (mem_of_mem_foldl_put h).resolve_left (by simp [Table.empty])

theorem mem_of_mem_merge {s t : Table α} {e : String × α} (h : e ∈ (s.merge t).entries) :
    e ∈ s.entries ∨ e ∈ t.entries :=
  mem_of_mem_foldl_put h

/-! ### Names and their values -/

theorem lookup_of_notMem {l : List (String × α)} {k : String} (h : k ∉ l.map Prod.fst) :
    l.lookup k = none := by
  rw [List.lookup_eq_none_iff]
  intro e he
  apply bne_iff_ne.mpr
  rintro rfl
  exact h (List.mem_map_of_mem he)

theorem lookup_replace_self {l : List (String × α)} {k : String} (v : α)
    (h : k ∈ l.map Prod.fst) :
    (l.map fun e => if e.1 = k then (k, v) else e).lookup k = some v := by
  induction l with
  | nil => cases h
  | cons e l ih =>
    rw [List.map_cons]
    by_cases here : e.1 = k
    · rw [if_pos here, List.lookup_cons_self]
    · rw [if_neg here, List.lookup_cons, beq_false_of_ne (Ne.symm here)]
      exact ih ((List.mem_cons.mp h).resolve_left (Ne.symm here))

theorem lookup_replace_of_ne {j k : String} (l : List (String × α)) (v : α) (ne : j ≠ k) :
    (l.map fun e => if e.1 = k then (k, v) else e).lookup j = l.lookup j := by
  induction l with
  | nil => rfl
  | cons e l ih =>
    rw [List.map_cons]
    by_cases here : e.1 = k
    · rw [if_pos here, List.lookup_cons, List.lookup_cons, here, beq_false_of_ne ne]
      exact ih
    · rw [if_neg here, List.lookup_cons, List.lookup_cons, ih]

theorem mem_of_get? {t : Table α} {k : String} {v : α} (h : t.get? k = some v) :
    (k, v) ∈ t.entries := by
  obtain ⟨before, after, hEntries, -⟩ := List.lookup_eq_some_iff.mp h
  rw [hEntries]
  exact List.mem_append_right before List.mem_cons_self

/-- What is put under a name is found there, and all else is found as before. -/
theorem get?_put (t : Table α) (k : String) (v : α) (j : String) :
    (t.put k v).get? j = if j = k then some v else t.get? j := by
  by_cases known : k ∈ t.keys
  · rw [put, dif_pos known]
    by_cases same : j = k
    · rw [if_pos same, same]
      exact lookup_replace_self v known
    · rw [if_neg same]
      exact lookup_replace_of_ne t.entries v same
  · rw [put, dif_neg known, get?, List.lookup_append]
    by_cases same : j = k
    · rw [if_pos same, same, lookup_of_notMem known, Option.none_or, List.lookup_cons_self]
    · rw [if_neg same, List.lookup_cons, beq_false_of_ne same]
      exact Option.or_none

theorem ofList_entries (t : Table α) : Table.ofList t.entries = t :=
  ext (entries_ofList t.nodup)

/-- Of the values that are put under a name the last one is found. -/
theorem get?_foldl_put (l : List (String × α)) (t : Table α) (k : String) :
    (l.foldl (fun t e => t.put e.1 e.2) t).get? k = (l.reverse.lookup k).or (t.get? k) := by
  induction l generalizing t with
  | nil => rfl
  | cons e l ih =>
    rw [List.foldl_cons, ih, get?_put, List.reverse_cons, List.lookup_append, Option.or_assoc]
    by_cases same : k = e.1
    · rw [if_pos same, same, List.lookup_cons_self]
      rfl
    · rw [if_neg same, List.lookup_cons, beq_false_of_ne same]
      rfl

theorem get?_ofList (l : List (String × α)) (k : String) :
    (ofList l).get? k = l.reverse.lookup k :=
  (get?_foldl_put l empty k).trans Option.or_none

theorem get?_merge (s t : Table α) (k : String) :
    (s.merge t).get? k = (t.get? k).or (s.get? k) := by
  have hSecond : t.entries.reverse.lookup k = t.get? k := by
    rw [← get?_ofList, ofList_entries]
  rw [merge, get?_foldl_put, hSecond]

/-- A name that only the first of two tables has keeps its value. -/
theorem get?_merge_of_notMem {s t : Table α} {k : String} (h : k ∉ t.keys) :
    (s.merge t).get? k = s.get? k := by
  rw [get?_merge, get?, lookup_of_notMem h, Option.none_or]

/-! ### The order of names -/

theorem keys_put (t : Table α) (k : String) (v : α) :
    (t.put k v).keys = if k ∈ t.keys then t.keys else t.keys ++ [k] := by
  by_cases known : k ∈ t.keys
  · rw [if_pos known, put, dif_pos known]
    exact keys_replace t.entries k v
  · rw [if_neg known, put, dif_neg known]
    exact List.map_append

theorem keys_put_eq_eraseDups (t : Table α) (k : String) (v : α) :
    (t.put k v).keys = (t.keys ++ [k]).eraseDups := by
  have hKeys : t.keys.eraseDups = t.keys := eraseDups_eq_self t.nodup
  rw [keys_put, List.eraseDups_append, hKeys]
  by_cases known : k ∈ t.keys
  · rw [if_pos known]
    simp [List.removeAll, known]
  · rw [if_neg known]
    simp [List.removeAll, known, List.eraseDups_cons]

/-- The names of a table stand in the order in which they came first. -/
theorem keys_foldl_put (l : List (String × α)) (t : Table α) :
    (l.foldl (fun t e => t.put e.1 e.2) t).keys = (t.keys ++ l.map Prod.fst).eraseDups := by
  induction l generalizing t with
  | nil =>
    rw [List.map_nil, List.append_nil]
    exact (eraseDups_eq_self t.nodup).symm
  | cons e l ih =>
    rw [List.foldl_cons, ih, keys_put_eq_eraseDups, eraseDups_eraseDups_append, List.append_assoc]
    rfl

/-! ### Tables put together -/

/-- Lists with the same names, each once, and the same value under each. -/
theorem eq_of_lookup {l m : List (String × α)} (keys : l.map Prod.fst = m.map Prod.fst)
    (nodup : (l.map Prod.fst).Nodup) (values : ∀ k, l.lookup k = m.lookup k) : l = m := by
  induction l generalizing m with
  | nil => exact (List.map_eq_nil_iff.mp keys.symm).symm
  | cons e l ih =>
    cases m with
    | nil => cases keys
    | cons f m =>
      obtain ⟨hName, hNames⟩ := List.cons.inj keys
      obtain ⟨hNew, hRest⟩ := List.nodup_cons.mp nodup
      have hValue : e.2 = f.2 := by
        have hFound := values e.1
        rw [List.lookup_cons_self, hName, List.lookup_cons_self] at hFound
        exact Option.some.inj hFound
      have hHead : e = f := Prod.ext hName hValue
      have hTail : l = m := by
        apply ih hNames hRest
        intro k
        by_cases here : k = e.1
        · rw [← here] at hNew
          rw [lookup_of_notMem hNew, lookup_of_notMem (hNames ▸ hNew)]
        · have hFound := values k
          rw [List.lookup_cons, List.lookup_cons, ← hName, beq_false_of_ne here] at hFound
          exact hFound
      rw [hHead, hTail]

theorem ext_get? {s t : Table α} (keys : s.keys = t.keys) (values : ∀ k, s.get? k = t.get? k) :
    s = t :=
  ext (eq_of_lookup keys s.nodup values)

theorem keys_merge (s t : Table α) : (s.merge t).keys = (s.keys ++ t.keys).eraseDups :=
  keys_foldl_put t.entries s

theorem merge_put (s t : Table α) (k : String) (v : α) :
    s.merge (t.put k v) = (s.merge t).put k v := by
  by_cases known : k ∈ t.keys
  · have hKnown : k ∈ (s.merge t).keys := by
      rw [keys_merge, List.mem_eraseDups]
      exact List.mem_append_right _ known
    apply ext_get?
    · rw [keys_merge, keys_put, if_pos known, keys_put, if_pos hKnown, keys_merge]
    · intro j
      rw [get?_merge, get?_put, get?_put, get?_merge]
      by_cases same : j = k
      · rw [if_pos same, if_pos same]
        rfl
      · rw [if_neg same, if_neg same]
  · -- A new name comes last on both sides.
    rw [merge, put, dif_neg known]
    exact List.foldl_append

theorem merge_foldl_put (s t : Table α) (l : List (String × α)) :
    s.merge (l.foldl (fun t e => t.put e.1 e.2) t) =
      l.foldl (fun t e => t.put e.1 e.2) (s.merge t) := by
  induction l generalizing t with
  | nil => rfl
  | cons e l ih => rw [List.foldl_cons, ih, merge_put, List.foldl_cons]

theorem merge_ofList (s : Table α) (l : List (String × α)) :
    s.merge (ofList l) = l.foldl (fun t e => t.put e.1 e.2) s :=
  merge_foldl_put s empty l

/-- It does not matter which of three tables are put together first. -/
theorem merge_assoc (r s t : Table α) : (r.merge s).merge t = r.merge (s.merge t) :=
  (merge_foldl_put r s t.entries).symm

/-! ### Tables in correspondence -/

section Correspondence

variable {R : String × α → String × β → Prop} (names : ∀ {e f}, R e f → e.1 = f.1)

include names

theorem map_fst_of_forall₂ {l : List (String × α)} {m : List (String × β)}
    (h : List.Forall₂ R l m) : l.map Prod.fst = m.map Prod.fst := by
  induction h with
  | nil => rfl
  | cons first _ ih => rw [List.map_cons, List.map_cons, names first, ih]

theorem forall₂_put {s : Table α} {t : Table β} (h : List.Forall₂ R s.entries t.entries)
    {e : String × α} {f : String × β} (new : R e f) :
    List.Forall₂ R (s.put e.1 e.2).entries (t.put f.1 f.2).entries := by
  have hKeys : s.keys = t.keys := map_fst_of_forall₂ names h
  obtain ⟨k, v⟩ := e
  obtain ⟨k', w⟩ := f
  obtain rfl : k = k' := names new
  unfold put
  by_cases known : k ∈ s.keys
  · rw [dif_pos known, dif_pos (hKeys ▸ known), List.forall₂_map_left_iff,
      List.forall₂_map_right_iff]
    apply h.imp
    intro a b hab
    rw [names hab]
    by_cases here : b.1 = k
    · rw [if_pos here, if_pos here]
      exact new
    · rw [if_neg here, if_neg here]
      exact hab
  · rw [dif_neg known, dif_neg (hKeys ▸ known)]
    exact List.rel_append h (.cons new .nil)

theorem forall₂_foldl_put {l : List (String × α)} {m : List (String × β)}
    (added : List.Forall₂ R l m) {s : Table α} {t : Table β}
    (h : List.Forall₂ R s.entries t.entries) :
    List.Forall₂ R (l.foldl (fun t e => t.put e.1 e.2) s).entries
      (m.foldl (fun t e => t.put e.1 e.2) t).entries := by
  induction added generalizing s t with
  | nil => exact h
  | cons first _ ih => exact ih (forall₂_put names h first)

end Correspondence

end Table

end Directive
