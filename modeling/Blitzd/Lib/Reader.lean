import Blitzd.Lib.Bytes

/-! # Reading byte strings

A reader takes a value off the front of a byte string, or fails. `Reads r x l` says that `r` takes just `l` off and gives
`x`, whatever follows, with a rule for each way readers are put together. `whole_times` says when a sequence of records
that are read so is read by a given number of passes: only if it has as many. -/

namespace Blitzd.Lib

open Blitzd.Lib.Bytes

abbrev Reader (α : Type) := StateT (List Byte) Option α

namespace Reader

variable {α β : Type}

/-! ### Readers -/

/-- The next `n` bytes. -/
def take (n : ℕ) : Reader (List Byte) := fun l => if n ≤ l.length then some (l.take n, l.drop n) else none

/-- A number of `n` bytes. -/
def uint (n : ℕ) : Reader ℕ := do return ofLE (← take n)

/-- `n` zero bytes. -/
def zeros (n : ℕ) : Reader Unit := fun l => if l.take n = List.replicate n 0 then some ((), l.drop n) else none

/-- The bytes up to a zero byte, which is taken off, too. -/
def terminated : Reader (List Byte) := fun l =>
  if 0 ∈ l then some (l.takeWhile (· ≠ 0), (l.dropWhile (· ≠ 0)).drop 1) else none

/-- The same reader `n` times. -/
def times (r : Reader α) : ℕ → Reader (List α)
  | 0 => return []
  | n + 1 => do
    let x ← r
    return x :: (← times r n)

/-- What is read of a byte string, if it is used up. -/
def whole (r : Reader α) (l : List Byte) : Option α :=
  match r l with
  | some (x, []) => some x
  | _ => none

/-! ### What a reader takes off -/

/-- The reader takes `l` off and gives `x`. -/
def Reads (r : Reader α) (x : α) (l : List Byte) : Prop := ∀ rest, r (l ++ rest) = some (x, rest)

section

variable {r : Reader α} {f : α → Reader β} {x : α} {y : β} {l l' : List Byte}

theorem bind_apply (r : Reader α) (f : α → Reader β) (l : List Byte) :
    (r >>= f) l = (r l).bind fun q => f q.1 q.2 := rfl

theorem bind_eq_some {p : β × List Byte} (h : (r >>= f) l = some p) : ∃ q, r l = some q ∧ f q.1 q.2 = some p :=
  Option.bind_eq_some_iff.mp h

theorem rest_of_uint {n : ℕ} {q : ℕ × List Byte} (h : uint n l = some q) : q.2 = l.drop n := by
  obtain ⟨p, hp, hq⟩ := bind_eq_some h
  rw [Reader.take] at hp
  split_ifs at hp
  cases hp
  cases hq
  rfl

theorem take_of_zeros {n : ℕ} {q : Unit × List Byte} (h : zeros n l = some q) : l.take n = List.replicate n 0 := by
  rw [Reader.zeros] at h
  split_ifs at h with hl
  exact hl

theorem Reads.pure (x : α) : Reads (return x) x [] := fun _ => rfl

theorem Reads.bind (h : Reads r x l) (h' : Reads (f x) y l') : Reads (r >>= f) y (l ++ l') := by
  intro rest
  rw [bind_apply, List.append_assoc, h, Option.bind_some, h']

theorem Reads.whole_eq (h : Reads r x l) : whole r l = some x := by
  have hl := h []
  rw [List.append_nil] at hl
  rw [whole, hl]

theorem whole_map {r' : Reader β} (g : α → β) (h : r' l' = (r l).map fun p => (g p.1, p.2)) :
    whole r' l' = (whole r l).map g := by
  rw [whole, h, whole]
  rcases r l with _ | ⟨x, _ | ⟨b, t⟩⟩
  · rfl
  · rfl
  · rfl

theorem Reads.take {n : ℕ} (h : l.length = n) : Reads (take n) l l := by
  intro rest
  rw [Reader.take, if_pos (by rw [List.length_append]; omega), ← h, List.take_left, List.drop_left]

theorem Reads.uint {n x : ℕ} (h : x < 256 ^ n) : Reads (uint n) x (toLE n x) := by
  intro rest
  rw [Reader.uint, bind_apply, Reads.take (length_toLE n x), Option.bind_some, ofLE_toLE_of_lt h]
  rfl

/-- A byte, as a number. -/
theorem Reads.byte {x : ℕ} (h : x < 256) : Reads (Reader.uint 1) x [UInt8.ofNat x] := by
  have hbytes : toLE 1 x = [UInt8.ofNat x] := by rw [toLE, toLE, Nat.mod_eq_of_lt h]
  rw [← hbytes]
  exact Reads.uint (by simpa using h)

theorem Reads.zeros (n : ℕ) : Reads (zeros n) () (List.replicate n 0) := by
  intro rest
  have hlen : (List.replicate n (0 : Byte)).length = n := List.length_replicate
  rw [Reader.zeros, if_pos (List.take_left' hlen), List.drop_left' hlen]

theorem Reads.terminated (h : ∀ b ∈ l, b ≠ 0) : Reads terminated l (l ++ [0]) := by
  intro rest
  have hall : ∀ b ∈ l, decide (b ≠ 0) = true := fun b hb => decide_eq_true (h b hb)
  rw [Reader.terminated, if_pos (by simp), List.append_assoc, List.takeWhile_append_of_pos hall,
    List.dropWhile_append_of_pos hall]
  simp

end

/-! ### Records in a row -/

section

variable {r : Reader α} {γ : Type} {f : γ → α} {g : γ → List Byte}

theorem times_cons (r : Reader α) (n : ℕ) {x : α} {l rest : List Byte} (h : Reads r x l) :
    times r (n + 1) (l ++ rest) = (times r n rest).map fun p => (x :: p.1, p.2) := by
  rw [times, bind_apply, h, Option.bind_some, bind_apply, Option.map_eq_bind]
  rfl

/-- Records in a row, whatever follows them. -/
theorem Reads.times {as : List γ} (h : ∀ a ∈ as, Reads r (f a) (g a)) :
    Reads (times r as.length) (as.map f) (as.flatMap g) := by
  induction as with
  | nil => exact Reads.pure []
  | cons a as ih =>
    intro rest
    rw [List.flatMap_cons, List.append_assoc, List.length_cons, times_cons r _ (h a List.mem_cons_self),
      ih fun b hb => h b (List.mem_cons_of_mem _ hb)]
    rfl

/-- **Records are read by as many passes as there are, and by no other number.** -/
theorem whole_times (h : ∀ a, Reads r (f a) (g a)) (hnil : r [] = none) (as : List γ) (n : ℕ) :
    whole (times r n) (as.flatMap g) = if n = as.length then some (as.map f) else none := by
  induction as generalizing n with
  | nil =>
    cases n with
    | zero => rfl
    | succ n =>
      have hfail : times r (n + 1) [] = none := by rw [times, bind_apply, hnil, Option.bind_none]
      rw [List.flatMap_nil, whole, hfail]
      rfl
  | cons a as ih =>
    rw [List.flatMap_cons]
    cases n with
    | zero =>
      -- a record has bytes, which no pass is there for
      have hne : g a ≠ [] := fun hg => by
        have := h a []
        rw [hg, List.append_nil, hnil] at this
        cases this
      obtain ⟨b, t, hb⟩ := List.exists_cons_of_ne_nil hne
      rw [hb]
      rfl
    | succ n =>
      have hwhole : whole (times r (n + 1)) (g a ++ as.flatMap g) =
          (whole (times r n) (as.flatMap g)).map (f a :: ·) := whole_map _ (times_cons r n (h a))
      rw [hwhole, ih, List.length_cons]
      by_cases hn : n = as.length
      · rw [if_pos hn, if_pos (by omega), Option.map_some, List.map_cons]
      · rw [if_neg hn, if_neg (by omega), Option.map_none]

end

end Reader

end Blitzd.Lib
