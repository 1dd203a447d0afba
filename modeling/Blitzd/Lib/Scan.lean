import Mathlib.Data.List.DropRight
import Mathlib.Data.List.TakeWhile

/-! # Scanning a list by position

Loops that move a position through a list, as code over strings has them, and what they mean. `At xs i rest` says
that `rest` is what stands at position `i` and behind it; the rules move it over what a loop or a cut takes, so a
scanner is read as a function of the rest and no proof compares indices.

A read outside of the list and a loop that is out of passes are `none`. -/

namespace Blitzd.Lib.Scan

variable {α : Type*}

/-! ### Positions -/

/-- `rest` stands at position `i`. -/
def At (xs : List α) (i : ℕ) (rest : List α) : Prop := i ≤ xs.length ∧ xs.drop i = rest

variable {xs rest u v : List α} {i : ℕ} {p : α → Bool}

theorem At.start (xs : List α) : At xs 0 xs := ⟨Nat.zero_le _, rfl⟩

theorem At.length (h : At xs i rest) : i + rest.length = xs.length := by
  rw [← h.2, List.length_drop]
  have := h.1
  omega

theorem At.add (h : At xs i (u ++ v)) : At xs (i + u.length) v := by
  refine ⟨?_, ?_⟩
  · have := h.length
    rw [List.length_append] at this
    omega
  · rw [← List.drop_drop, h.2, List.drop_left]

theorem At.succ {a : α} (h : At xs i (a :: v)) : At xs (i + 1) v := At.add (u := [a]) h

theorem At.lt_iff (h : At xs i rest) : i < xs.length ↔ rest ≠ [] := by
  rw [← h.length, ← List.length_pos_iff]
  omega

theorem At.get (h : At xs i rest) : xs[i]? = rest.head? := by
  rw [← h.2, List.head?_drop]

/-! ### Cuts -/

/-- The elements from position `a` up to `b`, both inside of the list. -/
def slice (xs : List α) (a b : ℕ) : Option (List α) :=
  if a ≤ b ∧ b ≤ xs.length then some ((xs.drop a).take (b - a)) else none

theorem At.slice (h : At xs i (u ++ v)) : slice xs i (i + u.length) = some u := by
  have hlen := h.length
  rw [List.length_append] at hlen
  rw [Scan.slice, if_pos ⟨Nat.le_add_right _ _, by omega⟩, h.2, Nat.add_sub_cancel_left, List.take_left]

theorem At.slice_end (h : At xs i rest) : Scan.slice xs i xs.length = some rest := by
  have hs := At.slice (v := []) ((List.append_nil rest).symm ▸ h)
  rwa [h.length] at hs

/-! ### Moving on while a condition holds -/

/-- `while (i < size && p(xs[i])) ++i`, in at most so many passes. -/
def skipWhile (p : α → Bool) (xs : List α) : ℕ → ℕ → Option ℕ
  | 0, _ => none
  | n + 1, i =>
    if i < xs.length then
      match xs[i]? with
      | none => none
      | some x => if p x then skipWhile p xs n (i + 1) else some i
    else some i

theorem At.skipWhile (p : α → Bool) : ∀ {rest : List α} {n i : ℕ}, At xs i rest → rest.length < n →
    skipWhile p xs n i = some (i + (rest.takeWhile p).length)
  | _, 0, _, _, hn => absurd hn (Nat.not_lt_zero _)
  | [], n + 1, i, h, _ => by
    rw [Scan.skipWhile, if_neg (by rw [h.lt_iff]; exact fun hne => hne rfl)]
    rfl
  | x :: rest, n + 1, i, h, hn => by
    rw [Scan.skipWhile, if_pos (h.lt_iff.mpr (List.cons_ne_nil _ _)), h.get]
    dsimp only [List.head?_cons]
    rcases hx : p x with _ | _
    · rw [List.takeWhile_cons_of_neg (by simp [hx]), if_neg Bool.false_ne_true]
      rfl
    · rw [if_pos rfl, At.skipWhile p h.succ (Nat.lt_of_succ_lt_succ hn), List.takeWhile_cons_of_pos hx,
        List.length_cons, Nat.add_right_comm, Nat.add_assoc]

/-- Where the loop stops. -/
theorem At.dropWhile (p : α → Bool) (h : At xs i rest) :
    At xs (i + (rest.takeWhile p).length) (rest.dropWhile p) :=
  At.add (by rwa [List.takeWhile_append_dropWhile])

/-! ### Moving back -/

/-- `while (end > start && p(xs[end - 1])) --end`. -/
def trimBack (p : α → Bool) (xs : List α) (start : ℕ) : ℕ → Option ℕ
  | 0 => some 0
  | e + 1 =>
    if start < e + 1 then
      match xs[e]? with
      | none => none
      | some x => if p x then trimBack p xs start e else some (e + 1)
    else some (e + 1)

/-- The loop gives up what `rdropWhile` does. -/
theorem At.trimBack (p : α → Bool) (u : List α) : ∀ {v : List α}, At xs i (u ++ v) →
    trimBack p xs i (i + u.length) = some (i + (u.rdropWhile p).length) := by
  induction u using List.reverseRecOn with
  | nil =>
    intro v h
    rw [List.rdropWhile_nil, List.length_nil, Nat.add_zero]
    rcases i with _ | i
    · rfl
    · rw [Scan.trimBack, if_neg (Nat.lt_irrefl _)]
  | append_singleton u a ih =>
    intro v h
    have h' : At xs i (u ++ ([a] ++ v)) := by rwa [← List.append_assoc]
    have hget : xs[i + u.length]? = some a := (At.add h').get
    rw [List.length_append, List.length_singleton, ← Nat.add_assoc, Scan.trimBack, if_pos (by omega), hget]
    dsimp only
    rcases ha : p a with _ | _
    · rw [List.rdropWhile_concat_neg _ _ _ (by simp [ha]), if_neg Bool.false_ne_true, List.length_append]
      rfl
    · rw [if_pos rfl, ih h', List.rdropWhile_concat_pos _ _ _ ha]

/-! ### Finding an element -/

/-- The first position from `i` on that holds `a`. -/
def findFrom [DecidableEq α] (a : α) (xs : List α) (i : ℕ) : Option ℕ :=
  ((xs.drop i).findIdx? (· = a)).map (i + ·)

theorem findIdx?_eq [DecidableEq α] (a : α) : ∀ rest : List α, rest.findIdx? (· = a) =
    if a ∈ rest then some (rest.takeWhile (· ≠ a)).length else none
  | [] => rfl
  | x :: rest => by
    rw [List.findIdx?_cons]
    by_cases hx : x = a
    · subst hx
      simp
    · have hmem : a ∈ x :: rest ↔ a ∈ rest := by
        rw [List.mem_cons]
        exact or_iff_right (Ne.symm hx)
      rw [findIdx?_eq a rest, List.takeWhile_cons_of_pos (by simpa using hx)]
      by_cases ha : a ∈ rest
      · simp [hx, ha]
      · simp [hx, ha, Ne.symm hx]

theorem At.findFrom [DecidableEq α] (a : α) (h : At xs i rest) : findFrom a xs i =
    if a ∈ rest then some (i + (rest.takeWhile (· ≠ a)).length) else none := by
  rw [Scan.findFrom, h.2, findIdx?_eq]
  split_ifs with ha
  · rfl
  · rfl

/-! ### Looking for a doubled element -/

/-- `while (i + 1 < size && (xs[i] != c || xs[i + 1] != c)) ++i`, where `next` is `i + 1` in the type of `i`. -/
def findPair [DecidableEq α] (next : ℕ → ℕ) (c : α) (xs : List α) : ℕ → ℕ → Option ℕ
  | 0, _ => none
  | n + 1, i =>
    if next i < xs.length then
      match xs[i]?, xs[next i]? with
      | some x, some y => if x ≠ c ∨ y ≠ c then findPair next c xs n (next i) else some i
      | _, _ => none
    else some i

section Pair

variable [DecidableEq α] {next : ℕ → ℕ} {c : α}

/-- One pass over an element that is not the one looked for. -/
theorem At.findPair_cons {x y : α} {n : ℕ} (hnext : next i = i + 1) (h : At xs i (x :: y :: v)) (hx : x ≠ c) :
    findPair next c xs (n + 1) i = findPair next c xs n (i + 1) := by
  have hlt : next i < xs.length := hnext ▸ h.succ.lt_iff.mpr (List.cons_ne_nil _ _)
  have hy : xs[next i]? = some y := hnext ▸ h.succ.get
  rw [findPair, if_pos hlt, h.get, hy]
  dsimp only [List.head?_cons]
  rw [if_pos (.inl hx), hnext]

/-- The loop stops at the first pair. -/
theorem At.findPair_found (hnext : ∀ i < xs.length, next i = i + 1) : ∀ {u : List α} {n i : ℕ},
    At xs i (u ++ c :: c :: v) → c ∉ u → u.length < n → findPair next c xs n i = some (i + u.length)
  | _, 0, _, _, _, hn => absurd hn (Nat.not_lt_zero _)
  | [], n + 1, i, h, _, _ => by
    have hi := hnext i (h.lt_iff.mpr (List.cons_ne_nil _ _))
    have hlt : next i < xs.length := hi ▸ (At.succ h).lt_iff.mpr (List.cons_ne_nil _ _)
    have hy : xs[next i]? = some c := hi ▸ (At.succ h).get
    rw [findPair, if_pos hlt, h.get, hy]
    dsimp only [List.nil_append, List.head?_cons]
    rw [if_neg (by simp)]
    rfl
  | x :: u, n + 1, i, h, hc, hn => by
    have hi := hnext i (h.lt_iff.mpr (List.cons_ne_nil _ _))
    obtain ⟨hx, hu⟩ := not_or.mp (mt List.mem_cons.mpr hc)
    obtain ⟨y, r, hr⟩ := List.exists_cons_of_ne_nil (l := u ++ c :: c :: v) (by simp)
    have hcons : At xs i (x :: y :: r) := hr ▸ h
    rw [hcons.findPair_cons hi (Ne.symm hx), At.findPair_found hnext h.succ hu (Nat.lt_of_succ_lt_succ hn),
      List.length_cons, Nat.add_right_comm, Nat.add_assoc]

/-- Without a pair it stops in front of the last element. -/
theorem At.findPair_end (hnext : ∀ i < xs.length, next i = i + 1) {x : α} : ∀ {u : List α} {n i : ℕ},
    At xs i (u ++ [x]) → c ∉ u → u.length < n → findPair next c xs n i = some (i + u.length)
  | _, 0, _, _, _, hn => absurd hn (Nat.not_lt_zero _)
  | [], n + 1, i, h, _, _ => by
    have hi := hnext i (h.lt_iff.mpr (List.cons_ne_nil _ _))
    have hlt : ¬ next i < xs.length := hi ▸ fun hlt => (At.succ h).lt_iff.mp hlt rfl
    rw [findPair, if_neg hlt]
    rfl
  | y :: u, n + 1, i, h, hc, hn => by
    have hi := hnext i (h.lt_iff.mpr (List.cons_ne_nil _ _))
    obtain ⟨hy, hu⟩ := not_or.mp (mt List.mem_cons.mpr hc)
    obtain ⟨z, r, hr⟩ := List.exists_cons_of_ne_nil (l := u ++ [x]) (by simp)
    have hcons : At xs i (y :: z :: r) := hr ▸ h
    rw [hcons.findPair_cons hi (Ne.symm hy), At.findPair_end hnext h.succ hu (Nat.lt_of_succ_lt_succ hn),
      List.length_cons, Nat.add_right_comm, Nat.add_assoc]

end Pair

/-! ### Lists that are cut off -/

/-- A prefix ends in the first part or goes on into the second. -/
theorem prefix_append_cases {l : List α} (h : l <+: u ++ v) :
    l <+: u ∨ ∃ x r, l = u ++ x :: r ∧ x :: r <+: v := by
  rcases List.prefix_or_prefix_of_prefix h (List.prefix_append u v) with hl | ⟨r, rfl⟩
  · exact .inl hl
  · rcases r with _ | ⟨x, r⟩
    · exact .inl ((List.append_nil u).symm ▸ List.prefix_rfl)
    · exact .inr ⟨x, r, rfl, (List.prefix_append_right_inj u).mp h⟩

/-- A prefix that is not empty, without its last element. -/
theorem exists_concat_of_prefix {l : List α} {a : α} (h : l <+: u ++ [a]) (hne : l ≠ []) :
    ∃ w x, l = w ++ [x] ∧ w <+: u := by
  obtain ⟨w, x, rfl⟩ := (List.eq_nil_or_concat l).resolve_left hne
  rw [List.concat_eq_append] at h ⊢
  refine ⟨w, x, rfl, ?_⟩
  rcases prefix_append_cases ((List.prefix_append w [x]).trans h) with hw | ⟨y, r, rfl, -⟩
  · exact hw
  · have := h.length_le
    simp only [List.length_append, List.length_cons, List.length_nil] at this
    omega

end Blitzd.Lib.Scan
