import Mathlib.Data.List.DropRight

/-! # Loops that copy inside a list

The loops that shift part of an array by one place, as the assignments they make one after the other (`copyUp`,
`copyDown`, `smear`), and the move of an element to another place that such loops are meant for (`moveTo`). A
loop that walks against the direction of its copies spreads one element over its whole range (`smear_eq`). A
move that keeps the moved element only in its old place puts its neighbour in its stead (`copy_copyUp`,
`copy_copyDown`). -/

namespace Blitzd.Lib.Shift

variable {α β : Type*}

/-- `l[dst] = l[src]`. -/
def copy (l : List α) (dst src : ℕ) : List α :=
  match l[src]? with
  | some a => l.set dst a
  | none => l

/-- `for(k = i; k < j; k ++) l[k] = l[k + 1]`. -/
def copyUp (l : List α) (i j : ℕ) : List α := (List.range' i (j - i)).foldl (fun l k => copy l k (k + 1)) l

/-- `for(k = i; k > j; k --) l[k] = l[k - 1]`. -/
def copyDown (l : List α) (i j : ℕ) : List α :=
  (List.range' (j + 1) (i - j)).reverse.foldl (fun l k => copy l k (k - 1)) l

/-- `for(k = l.size() - 1; k > i; k --) l[k - 1] = l[k]`. -/
def smear (l : List α) (i : ℕ) : List α :=
  (List.range' (i + 1) (l.length - 1 - i)).reverse.foldl (fun l k => copy l (k - 1) k) l

/-- The element at `i` taken out and put back in at `j`. -/
def moveTo (l : List α) (i j : ℕ) : List α :=
  match l[i]? with
  | some a => (l.eraseIdx i).insertIdx j a
  | none => l

/-! ### Smearing -/

theorem smear_loop (a c : List α) (z : α) (k : ℕ) :
    (List.range' (a.length + 1) c.length).reverse.foldl (fun l k => copy l (k - 1) k)
      (a ++ c ++ List.replicate (k + 1) z) = a ++ List.replicate (c.length + (k + 1)) z := by
  induction c using List.reverseRecOn generalizing k with
  | nil => simp
  | append_singleton c x ih =>
    -- the first copy overwrites the end of `c`
    have hcopy : copy (a ++ (c ++ [x]) ++ List.replicate (k + 1) z) (a.length + c.length)
        (a.length + 1 + c.length) = a ++ c ++ List.replicate (k + 1 + 1) z := by
      unfold copy
      have hz : (a ++ (c ++ [x]) ++ List.replicate (k + 1) z)[a.length + 1 + c.length]? = some z := by
        have hi : a.length + 1 + c.length - (a ++ (c ++ [x])).length = 0 := by simp; omega
        rw [List.getElem?_append_right (by simp; omega), hi]
        rfl
      rw [hz]
      simp [List.replicate_succ]
    have hlen : (c ++ [x]).length = c.length + 1 := by simp
    rw [hlen, List.range'_1_concat, List.reverse_append, List.reverse_singleton, List.singleton_append,
      List.foldl_cons, show a.length + 1 + c.length - 1 = a.length + c.length by omega, hcopy, ih]
    congr 2
    omega

/-- All behind `i` becomes the last element. -/
theorem smear_eq {l : List α} {i : ℕ} (h : i < l.length) :
    smear l i = l.take i ++ List.replicate (l.length - i) (l.getLast (List.ne_nil_of_length_pos (by omega))) := by
  have hne : l.drop i ≠ [] := by
    intro h0
    have := congrArg List.length h0
    simp at this
    omega
  have hlast : (l.drop i).getLast hne = l.getLast (List.ne_nil_of_length_pos (by omega)) := List.getLast_drop hne
  have hsplit : l = l.take i ++ (l.drop i).dropLast ++ List.replicate (0 + 1) ((l.drop i).getLast hne) := by
    rw [List.append_assoc, List.replicate_one, List.dropLast_append_getLast hne, List.take_append_drop]
  have hloop := smear_loop (l.take i) (l.drop i).dropLast ((l.drop i).getLast hne) 0
  rw [← hsplit, hlast] at hloop
  have hi : (l.take i).length = i := by simp; omega
  have hc : (l.drop i).dropLast.length = l.length - 1 - i := by simp; omega
  rw [hi, hc] at hloop
  rw [smear, hloop]
  congr 2
  omega

/-- Without its last place, a list smeared from `i` on is the list without `i` when all behind `i` is alike. -/
theorem map_smear_iff (f : α → β) {l : List α} {i : ℕ} (h : i < l.length) :
    ((smear l i).take (l.length - 1)).map f = (l.map f).eraseIdx i ↔
      ∀ a ∈ (l.map f).drop (i + 1), ∀ b ∈ (l.map f).drop (i + 1), a = b := by
  have hne : l ≠ [] := List.ne_nil_of_length_pos (by omega)
  have hlhs : ((smear l i).take (l.length - 1)).map f =
      (l.map f).take i ++ List.replicate (l.length - 1 - i) (f (l.getLast hne)) := by
    rw [smear_eq h, List.take_append, List.take_take, List.length_take, List.take_replicate, List.map_append,
      List.map_take, List.map_replicate, show min (l.length - 1) i = i by omega,
      show min (l.length - 1 - min i l.length) (l.length - i) = l.length - 1 - i by omega]
  rw [hlhs, List.eraseIdx_eq_take_drop_succ, List.append_cancel_left_eq, eq_comm, List.eq_replicate_iff]
  constructor
  · rintro ⟨-, hall⟩ a ha b hb
    rw [hall a ha, hall b hb]
  · intro hall
    refine ⟨by simp; omega, fun a ha => hall a ha _ ?_⟩
    have hd : (l.map f).drop (i + 1) ≠ [] := List.ne_nil_of_mem ha
    have hm : l.map f ≠ [] := by simpa using hne
    have : ((l.map f).drop (i + 1)).getLast hd = f (l.getLast hne) := by
      rw [List.getLast_drop, List.getLast_map]
    rw [← this]
    exact List.getLast_mem hd

theorem smear_last {l : List α} {i : ℕ} (h : i < l.length) (hlast : l.length ≤ i + 2) :
    (smear l i).take (l.length - 1) = l.eraseIdx i := by
  have hone : ((l.map id).drop (i + 1)).length ≤ 1 := by simp; omega
  have hmap := (map_smear_iff id h).mpr fun a ha b hb => by
    obtain ⟨j, hj, rfl⟩ := List.mem_iff_getElem.mp ha
    obtain ⟨k, hk, rfl⟩ := List.mem_iff_getElem.mp hb
    obtain rfl : j = k := by omega
    rfl
  simpa using hmap

/-! ### Moving an element

The list is cut open around the element `x` and the part `c` it is moved over. -/

section Moves

variable (a b c : List α) (x y : α)

theorem insertIdx_behind : (a ++ b).insertIdx a.length x = a ++ x :: b := by
  induction a with
  | nil => rfl
  | cons z a ih => rw [List.cons_append, List.length_cons, List.insertIdx_succ_cons, ih, List.cons_append]

theorem moveTo_up : moveTo (a ++ x :: (c ++ b)) a.length (a.length + c.length) = a ++ (c ++ x :: b) := by
  have hget : (a ++ x :: (c ++ b))[a.length]? = some x := by simp
  have hput := insertIdx_behind (a ++ c) b x
  rw [moveTo, hget]
  dsimp only
  rw [List.eraseIdx_append_of_length_le le_rfl, Nat.sub_self, List.eraseIdx_cons_zero]
  simpa using hput

theorem moveTo_down : moveTo (a ++ (c ++ x :: b)) (a.length + c.length) a.length = a ++ x :: (c ++ b) := by
  have hget : (a ++ (c ++ x :: b))[a.length + c.length]? = some x := by simp
  have herase : (a ++ (c ++ x :: b)).eraseIdx (a.length + c.length) = a ++ (c ++ b) := by
    rw [List.eraseIdx_append_of_length_le (by omega), Nat.add_sub_cancel_left,
      List.eraseIdx_append_of_length_le le_rfl, Nat.sub_self, List.eraseIdx_cons_zero]
  rw [moveTo, hget]
  dsimp only
  rw [herase, insertIdx_behind]

theorem moveTo_self {l : List α} {i : ℕ} (h : i < l.length) : moveTo l i i = l := by
  have hlen : (l.take i).length = i := by simp; omega
  have hmove := moveTo_up (l.take i) (l.drop (i + 1)) [] l[i]
  rw [List.length_nil, Nat.add_zero, hlen, List.nil_append, List.nil_append, ← List.drop_eq_getElem_cons,
    List.take_append_drop] at hmove
  exact hmove

theorem copy_left : copy (a ++ x :: y :: b) a.length (a.length + 1) = a ++ y :: y :: b := by
  simp [copy]

theorem copy_right : copy (a ++ x :: y :: b) (a.length + 1) a.length = a ++ x :: x :: b := by
  simp [copy]

/-- The loop moves `c` one place to the left; the last place keeps what it held. -/
theorem copyUp_eq : copyUp (a ++ x :: (c ++ b)) a.length (a.length + c.length) = a ++ (c ++ c.getLastD x :: b) := by
  rw [copyUp, Nat.add_sub_cancel_left]
  induction c generalizing a x with
  | nil => rfl
  | cons y c ih =>
    -- after the first copy the element before `c` is `y`
    have hrest := ih (a ++ [y]) y
    rw [List.length_append, List.length_singleton, List.append_assoc, List.singleton_append] at hrest
    rw [List.length_cons, List.range'_succ, List.foldl_cons, List.cons_append, copy_left, hrest, List.getLastD_cons,
      List.append_assoc, List.singleton_append, List.cons_append]

/-- The loop moves `c` one place to the right; the first place keeps what it held. -/
theorem copyDown_eq : copyDown (a ++ (c ++ x :: b)) (a.length + c.length) a.length = a ++ c.headD x :: (c ++ b) := by
  rw [copyDown, Nat.add_sub_cancel_left]
  induction c using List.reverseRecOn generalizing b x with
  | nil => rfl
  | append_singleton c y ih =>
    -- after the first copy the element behind `c` is `y`
    have hcopy := copy_right (a ++ c) b y x
    rw [List.length_append] at hcopy
    have hlen : (c ++ [y]).length = c.length + 1 := by simp
    rw [hlen, List.range'_1_concat, List.reverse_append, List.reverse_singleton, List.singleton_append,
      List.foldl_cons, show a.length + 1 + c.length = a.length + c.length + 1 by omega, Nat.add_sub_cancel,
      List.append_assoc, List.singleton_append, ← List.append_assoc, hcopy, List.append_assoc, ih]
    cases c <;> simp

/-- Moved to the right by way of its own place, an element is replaced by the one behind it. -/
theorem copy_copyUp : copy (copyUp (a ++ x :: (c ++ b)) a.length (a.length + c.length)) (a.length + c.length) a.length =
    a ++ (c ++ c.headD x :: b) := by
  rw [copyUp_eq]
  cases c <;> simp [copy]

/-- Moved to the left by way of its own place, an element is replaced by the one before it. -/
theorem copy_copyDown : copy (copyDown (a ++ (c ++ x :: b)) (a.length + c.length) a.length) a.length
    (a.length + c.length) = a ++ c.getLastD x :: (c ++ b) := by
  rw [copyDown_eq]
  cases c using List.reverseRecOn <;> simp [copy]

/-- A list cut open behind its place `i` and behind the `n` places that follow. -/
theorem exists_cut_up {l : List α} {i n : ℕ} (h : i + n < l.length) :
    ∃ a x c b, l = a ++ x :: (c ++ b) ∧ a.length = i ∧ c.length = n := by
  refine ⟨l.take i, l[i], (l.drop (i + 1)).take n, (l.drop (i + 1)).drop n, ?_, by simp; omega, by simp; omega⟩
  rw [List.take_append_drop, ← List.drop_eq_getElem_cons, List.take_append_drop]

/-- A list cut open before its place `i + n` and before the `n` places in front of it. -/
theorem exists_cut_down {l : List α} {i n : ℕ} (h : i + n < l.length) :
    ∃ a c x b, l = a ++ (c ++ x :: b) ∧ a.length = i ∧ c.length = n := by
  refine ⟨l.take i, (l.drop i).take n, l[i + n], (l.drop i).drop (n + 1), ?_, by simp; omega, by simp; omega⟩
  rw [List.drop_drop, ← Nat.add_assoc, ← List.drop_eq_getElem_cons, ← List.drop_drop, List.take_append_drop,
    List.take_append_drop]

theorem getElem?_headD : (a ++ (c ++ x :: b))[a.length]? = some (c.headD x) := by
  cases c <;> simp

theorem getElem?_getLastD : (a ++ x :: (c ++ b))[a.length + c.length]? = some (c.getLastD x) := by
  cases c using List.reverseRecOn <;> simp

theorem exists_neighbours {l : List α} {i : ℕ} (h : i + 1 < l.length) :
    ∃ a x y b, l = a ++ x :: y :: b ∧ a.length = i := by
  obtain ⟨a, x, c, b, hl, hi, hc⟩ := exists_cut_up h
  obtain ⟨y, rfl⟩ := List.length_eq_one_iff.mp hc
  exact ⟨a, x, y, b, hl, hi⟩

end Moves

/-! ### Nothing new is copied in -/

theorem mem_of_mem_copy {l : List α} {dst src : ℕ} {x : α} (h : x ∈ copy l dst src) : x ∈ l := by
  unfold copy at h
  split at h
  · next a ha =>
    rcases List.mem_or_eq_of_mem_set h with h | rfl
    · exact h
    · exact List.mem_of_getElem? ha
  · exact h

theorem length_copy (l : List α) (dst src : ℕ) : (copy l dst src).length = l.length := by
  unfold copy
  split
  · exact List.length_set
  · rfl

/-- A loop of copies. -/
theorem foldl_copy (dst src : ℕ → ℕ) (ks : List ℕ) (l : List α) :
    (ks.foldl (fun l k => copy l (dst k) (src k)) l).length = l.length ∧
      ∀ x ∈ ks.foldl (fun l k => copy l (dst k) (src k)) l, x ∈ l := by
  induction ks generalizing l with
  | nil => exact ⟨rfl, fun _ hx => hx⟩
  | cons k ks ih =>
    obtain ⟨hlen, hmem⟩ := ih (copy l (dst k) (src k))
    exact ⟨hlen.trans (length_copy ..), fun x hx => mem_of_mem_copy (hmem x hx)⟩

end Blitzd.Lib.Shift
