import Blitzd.Lib.Bytes

/-! # Memory of bytes, read and written in words

A memory is a byte for each address. A word of `w` bytes is little-endian; it is read back from where it was written
(`load_store_self`), and a word that shares no byte with it is what it was (`load_store_of_disjoint`). -/

namespace Blitzd.Lib.Memory

open Blitzd.Lib.Bytes

abbrev Mem := ℕ → Byte

/-- The word of `w` bytes at `a`. -/
def load (w : ℕ) (m : Mem) (a : ℕ) : ℕ := ofLE ((List.range w).map fun i => m (a + i))

/-- The memory with the low `w` bytes of `v` at `a`. -/
def store (w : ℕ) (m : Mem) (a v : ℕ) : Mem := fun x =>
  if a ≤ x ∧ x < a + w then (toLE w v).getD (x - a) 0 else m x

variable {w : ℕ} {m m' : Mem} {a b v x : ℕ}

theorem load_congr (h : ∀ x, a ≤ x → x < a + w → m' x = m x) : load w m' a = load w m a := by
  unfold load
  congr 1
  refine List.map_congr_left fun i hi => ?_
  have := List.mem_range.mp hi
  exact h (a + i) (by omega) (by omega)

theorem load_lt (w : ℕ) (m : Mem) (a : ℕ) : load w m a < 256 ^ w := by
  have h := ofLE_lt ((List.range w).map fun i => m (a + i))
  rw [List.length_map, List.length_range] at h
  exact h

theorem store_outside (h : x < a ∨ a + w ≤ x) : store w m a v x = m x := if_neg (by omega)

@[simp] theorem load_store_self : load w (store w m a v) a = v % 256 ^ w := by
  have hbytes : (List.range w).map (fun i => store w m a v (a + i)) = toLE w v := by
    refine List.ext_getElem (by simp) fun i hi hi' => ?_
    rw [List.length_map, List.length_range] at hi
    rw [List.getElem_map, List.getElem_range]
    unfold store
    rw [if_pos (by omega), Nat.add_sub_cancel_left, List.getD_eq_getElem?_getD, List.getElem?_eq_getElem hi']
    rfl
  rw [load, hbytes, ofLE_toLE]

theorem load_store_of_disjoint (h : b + w ≤ a ∨ a + w ≤ b) : load w (store w m a v) b = load w m b :=
  load_congr fun x h1 h2 => store_outside (by omega)

end Blitzd.Lib.Memory
