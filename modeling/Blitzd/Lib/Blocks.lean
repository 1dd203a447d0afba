import Mathlib.Data.List.Induction

/-! # Blocks of a list

A list is cut into blocks of `n` entries, and what is left over is shorter than a block. One more entry at the end makes
the rest longer, or completes a block (`cut_concat`): this is what code does that is fed its input in pieces. -/

namespace Blitzd.Lib.Blocks

variable {α : Type*} {n : ℕ}

/-- The complete blocks. -/
def fullBlocks (n : ℕ) (l : List α) : List (List α) := (List.range (l.length / n)).map fun i => (l.drop (n * i)).take n

/-- What is left behind them. -/
def remainder (n : ℕ) (l : List α) : List α := l.drop (n * (l.length / n))

theorem length_remainder (n : ℕ) (l : List α) : (remainder n l).length = l.length % n := by
  rw [remainder, List.length_drop, Nat.mod_eq_sub_mul_div]

theorem length_remainder_lt (hn : 0 < n) (l : List α) : (remainder n l).length < n := by
  rw [length_remainder]
  exact Nat.mod_lt _ hn

/-- A complete block ends before the list does. -/
theorem block_end_le {l : List α} {i : ℕ} (hi : i < l.length / n) : n * i + n ≤ l.length :=
  Nat.le_trans (Nat.mul_le_mul_left n hi) (Nat.mul_div_le _ _)

theorem length_of_mem_fullBlocks {l block : List α} (h : block ∈ fullBlocks n l) : block.length = n := by
  obtain ⟨i, hi, rfl⟩ := List.mem_map.mp h
  have hle := block_end_le (List.mem_range.mp hi)
  rw [List.length_take, List.length_drop]
  omega

theorem remainder_concat (l : List α) (x : α) :
    (l ++ [x]).drop (n * (l.length / n)) = remainder n l ++ [x] :=
  List.drop_append_of_le_length (Nat.mul_div_le _ _)

/-- The blocks of `l` are blocks of a longer list. -/
theorem block_concat (l : List α) (x : α) {i : ℕ} (hi : i < l.length / n) :
    ((l ++ [x]).drop (n * i)).take n = (l.drop (n * i)).take n := by
  have hle := block_end_le hi
  rw [List.drop_append_of_le_length (by omega), List.take_append_of_le_length (by rw [List.length_drop]; omega)]

theorem map_block_concat (l : List α) (x : α) :
    (List.range (l.length / n)).map (fun i => ((l ++ [x]).drop (n * i)).take n) = fullBlocks n l :=
  List.map_congr_left fun _ hi => block_concat l x (List.mem_range.mp hi)

/-- **One more entry** completes a block or makes the rest longer. -/
theorem cut_concat (hn : 0 < n) (l : List α) (x : α) :
    if (remainder n l ++ [x]).length = n then
      fullBlocks n (l ++ [x]) = fullBlocks n l ++ [remainder n l ++ [x]] ∧ remainder n (l ++ [x]) = []
    else fullBlocks n (l ++ [x]) = fullBlocks n l ∧ remainder n (l ++ [x]) = remainder n l ++ [x] := by
  have hlen : (remainder n l ++ [x]).length = l.length % n + 1 := by
    rw [List.length_append, length_remainder, List.length_singleton]
  have hsplit := Nat.div_add_mod l.length n
  have htotal : (l ++ [x]).length = n * (l.length / n) + (l.length % n + 1) := by
    rw [List.length_append, List.length_singleton]
    omega
  split_ifs with hfull
  · have hdiv : (l ++ [x]).length / n = l.length / n + 1 := by
      rw [htotal, ← hlen, hfull, ← Nat.mul_succ, Nat.mul_div_cancel_left _ hn]
    constructor
    · rw [fullBlocks, hdiv, List.range_succ, List.map_append, map_block_concat, List.map_singleton, remainder_concat,
        List.take_of_length_le (Nat.le_of_eq hfull)]
    · rw [remainder, hdiv, Nat.mul_succ, ← List.drop_drop, remainder_concat]
      exact List.drop_eq_nil_of_le (Nat.le_of_eq hfull)
  · have hmod := Nat.mod_lt l.length hn
    have hdiv : (l ++ [x]).length / n = l.length / n := by
      rw [htotal, Nat.mul_add_div hn, Nat.div_eq_of_lt (a := l.length % n + 1) (by omega), Nat.add_zero]
    constructor
    · rw [fullBlocks, hdiv, map_block_concat]
    · rw [remainder, hdiv, remainder_concat]

/-! ### Appending -/

theorem fullBlocks_of_lt {l : List α} (h : l.length < n) : fullBlocks n l = [] := by
  rw [fullBlocks, Nat.div_eq_of_lt h]
  rfl

/-- Behind complete blocks a list is cut as if it began there. -/
theorem fullBlocks_append_of_dvd (hn : 0 < n) {a : List α} {q : ℕ} (ha : a.length = n * q) (b : List α) :
    fullBlocks n (a ++ b) = fullBlocks n a ++ fullBlocks n b := by
  have hdiv : (a ++ b).length / n = q + b.length / n := by
    rw [List.length_append, ha, Nat.mul_add_div hn]
  have hfirst : a.length / n = q := by rw [ha, Nat.mul_div_cancel_left _ hn]
  rw [fullBlocks, hdiv, List.range_add, List.map_append, List.map_map, fullBlocks, hfirst]
  congr 1
  · refine List.map_congr_left fun i hi => ?_
    have hle : n * i + n ≤ a.length := by
      rw [ha, ← Nat.mul_succ]
      exact Nat.mul_le_mul_left n (List.mem_range.mp hi)
    rw [List.drop_append_of_le_length (by omega), List.take_append_of_le_length (by rw [List.length_drop]; omega)]
  · refine List.map_congr_left fun i _ => ?_
    have hdrop : (a ++ b).drop (n * (q + i)) = b.drop (n * i) := by
      rw [Nat.mul_add, ← ha, ← List.drop_drop, List.drop_left]
    exact congrArg (List.take n) hdrop

/-- **The blocks of an appended list** are those of the list, and then those of its rest with what is appended. -/
theorem fullBlocks_append (hn : 0 < n) (l x : List α) :
    fullBlocks n (l ++ x) = fullBlocks n l ++ fullBlocks n (remainder n l ++ x) := by
  have hle : n * (l.length / n) ≤ l.length := Nat.mul_div_le _ _
  have hlen : (l.take (n * (l.length / n))).length = n * (l.length / n) := List.length_take_of_le hle
  have hsplit : l.take (n * (l.length / n)) ++ remainder n l = l := List.take_append_drop _ l
  have hblocks : fullBlocks n l = fullBlocks n (l.take (n * (l.length / n))) := by
    have h := fullBlocks_append_of_dvd hn hlen (remainder n l)
    rwa [hsplit, fullBlocks_of_lt (length_remainder_lt hn l), List.append_nil] at h
  rw [hblocks, ← fullBlocks_append_of_dvd hn hlen, ← List.append_assoc, hsplit]

theorem fullBlocks_block (hn : 0 < n) {block : List α} (h : block.length = n) : fullBlocks n block = [block] := by
  rw [fullBlocks, h, Nat.div_self hn]
  show [(block.drop (n * 0)).take n] = [block]
  rw [Nat.mul_zero, List.drop_zero, List.take_of_length_le (Nat.le_of_eq h)]

end Blitzd.Lib.Blocks
