/-!
# Tables

Maps from names to values that remember in which order their names first came.

* `Table.put` keeps the place of a name that is already there;
* `Table.move` takes the name to the end instead;
* `Table.ofList` lets the last value of a repeated name win, in the name's first place.
-/

namespace Directive

universe u v

structure Table (α : Type u) where
  entries : List (String × α)
  nodup : (entries.map Prod.fst).Nodup
deriving DecidableEq

namespace Table

variable {α : Type u} {β : Type v}

def empty : Table α := ⟨[], by simp⟩

instance : Inhabited (Table α) := ⟨empty⟩

def keys (t : Table α) : List String := t.entries.map Prod.fst

def values (t : Table α) : List α := t.entries.map Prod.snd

def size (t : Table α) : Nat := t.entries.length

def get? (t : Table α) (k : String) : Option α := t.entries.lookup k

def contains (t : Table α) (k : String) : Bool := t.keys.contains k

@[ext]
theorem ext {s t : Table α} (h : s.entries = t.entries) : s = t := by
  cases s; cases t; simp_all

theorem keys_replace (l : List (String × α)) (k : String) (v : α) :
    (l.map fun e => if e.1 = k then (k, v) else e).map Prod.fst = l.map Prod.fst := by
  induction l with
  | nil => rfl
  | cons e l ih => by_cases h : e.1 = k <;> simp [h, ih]

/-- The table with `v` under `k`. -/
def put (t : Table α) (k : String) (v : α) : Table α :=
  if h : k ∈ t.keys then
    ⟨t.entries.map fun e => if e.1 = k then (k, v) else e, by
      rw [keys_replace]; exact t.nodup⟩
  else
    ⟨t.entries ++ [(k, v)], by
      simp only [List.map_append, List.map_cons, List.map_nil]
      rw [List.nodup_append]
      refine ⟨t.nodup, by simp, ?_⟩
      intro a ha b hb hab
      simp only [List.mem_singleton] at hb
      exact h (by rw [keys, ← hb, ← hab]; exact ha)⟩

def erase (t : Table α) (k : String) : Table α :=
  ⟨t.entries.filter (·.1 ≠ k), t.nodup.sublist (List.filter_sublist.map _)⟩

theorem not_mem_keys_erase (t : Table α) (k : String) : k ∉ (t.erase k).keys := by
  simp [erase, keys]

/-- The table with `v` under `k`, in the last place. -/
def move (t : Table α) (k : String) (v : α) : Table α := (t.erase k).put k v

def ofList (l : List (String × α)) : Table α := l.foldl (fun t e => t.put e.1 e.2) empty

/-- The entries of both. A name that is in both has its place in `s` and its value in `t`. -/
def merge (s t : Table α) : Table α := t.entries.foldl (fun r e => r.put e.1 e.2) s

def map (f : α → β) (t : Table α) : Table β :=
  ⟨t.entries.map fun e => (e.1, f e.2), by
    simpa [List.map_map, Function.comp_def] using t.nodup⟩

end Table

end Directive
