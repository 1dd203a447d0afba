import Mathlib.Data.Multiset.Filter
import Mathlib.Logic.Function.Basic

/-! # Counters that tally a multiset

A partial map from keys to counters, such that the counter of a key tells how often the key is in a multiset, and keys
that are not in it have none: what a reference count is kept for. Adding and taking away an element changes one counter. -/

namespace Blitzd.Lib

variable {κ : Type*} [DecidableEq κ] {s : Multiset κ} {f : κ → Option ℤ} {k : κ}

/-- The counters say how often each key is in `s`. -/
def Tally (s : Multiset κ) (f : κ → Option ℤ) : Prop := ∀ k, f k = if k ∈ s then some (s.count k : ℤ) else none

namespace Tally

theorem empty : Tally (0 : Multiset κ) fun _ => none := fun k => (if_neg (Multiset.notMem_zero k)).symm

theorem of_mem (h : Tally s f) (hk : k ∈ s) : f k = some (s.count k : ℤ) := (h k).trans (if_pos hk)

theorem mem_iff (h : Tally s f) : k ∈ s ↔ f k ≠ none := by
  rw [h k]
  by_cases hk : k ∈ s <;> simp [hk]

/-- The counter of one key is set to what the key has in `s'`, and the others have what they had. -/
theorem update {s' : Multiset κ} {n : Option ℤ} (h : Tally s f) (hk : n = if k ∈ s' then some (s'.count k : ℤ) else none)
    (hne : ∀ j ≠ k, s'.count j = s.count j) : Tally s' (Function.update f k n) := by
  intro j
  by_cases hj : j = k
  · rw [hj, Function.update_self, hk]
  · have hmem : j ∈ s' ↔ j ∈ s := by rw [← Multiset.count_pos, hne j hj, Multiset.count_pos]
    rw [Function.update_of_ne hj, h j, hne j hj]
    simp only [hmem]

theorem new (h : Tally s f) (hk : k ∉ s) : Tally (k ::ₘ s) (Function.update f k (some 1)) := by
  refine h.update ?_ fun j hj => Multiset.count_cons_of_ne hj s
  rw [if_pos (Multiset.mem_cons_self k s), Multiset.count_cons_self, Multiset.count_eq_zero_of_notMem hk]
  rfl

theorem inc (h : Tally s f) : Tally (k ::ₘ s) (Function.update f k (some (s.count k + 1))) := by
  refine h.update ?_ fun j hj => Multiset.count_cons_of_ne hj s
  rw [if_pos (Multiset.mem_cons_self k s), Multiset.count_cons_self]
  rfl

theorem dec (h : Tally (k ::ₘ s) f) :
    Tally s (Function.update f k (if s.count k = 0 then none else some (s.count k : ℤ))) := by
  refine h.update ?_ fun j hj => (Multiset.count_cons_of_ne hj s).symm
  by_cases hk : k ∈ s
  · rw [if_pos hk, if_neg (Multiset.count_ne_zero.mpr hk)]
  · rw [if_neg hk, if_pos (Multiset.count_eq_zero_of_notMem hk)]

end Tally

end Blitzd.Lib
