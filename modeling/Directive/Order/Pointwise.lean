/-!
# Lists that decrease pointwise

A list decreases if one of its members does and none of them grows; the length stays the same.

* `Pointwise.wellFounded`: this comes to an end if it does for the members.
-/

namespace Directive

/-- The first list comes from the second by making at least one member smaller. -/
inductive Pointwise {α : Type} (r : α → α → Prop) : List α → List α → Prop
  | here {a b : α} {as : List α} : r b a → Pointwise r (b :: as) (a :: as)
  | both {a b : α} {as bs : List α} : r b a → Pointwise r bs as → Pointwise r (b :: bs) (a :: as)
  | later {a : α} {as bs : List α} : Pointwise r bs as → Pointwise r (a :: bs) (a :: as)

namespace Pointwise

variable {α : Type} {r : α → α → Prop}

theorem acc_cons {a : α} (ha : Acc r a) {as : List α} (has : Acc (Pointwise r) as) :
    Acc (Pointwise r) (a :: as) := by
  induction ha generalizing as with
  | intro a _ ihHead =>
    induction has with
    | intro as hTail ihTail =>
      refine .intro _ fun bs h => ?_
      cases h with
      | here h => exact ihHead _ h (.intro _ hTail)
      | both h hs => exact ihHead _ h (hTail _ hs)
      | later hs => exact ihTail _ hs

theorem wellFounded (h : WellFounded r) : WellFounded (Pointwise r) := by
  refine ⟨fun as => ?_⟩
  induction as with
  | nil => exact .intro _ fun bs hs => nomatch hs
  | cons a as ih => exact acc_cons (h.apply a) ih

end Pointwise

end Directive
