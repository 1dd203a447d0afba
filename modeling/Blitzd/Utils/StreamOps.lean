import Blitzd.Lib.Run
import Blitzd.Utils.CString
import Blitzd.Utils.Stream

/-! # All operations of a stream

The public operations of `Stream.h` with the numbers they are called with: sums of a `size_t` are taken modulo 2^64, a
vector throws when it would get longer than `max_size`, and what the language does not define is a `fault`: an access
outside of the buffer, a range that ends before it starts, `front` of an empty vector.

`position_inside_iff`: in a run from a constructed stream, the read position stays within the buffer exactly as long as
every operation meets `Ok`. It is `pop_front` and `remove` that do not look at the position. -/

namespace Blitzd.Utils.StreamOps

open Blitzd.Lib Blitzd.Lib.Bytes Blitzd.Utils.CString

/-- `std::vector<byte>::max_size()`. -/
def maxSize : ℕ := 2 ^ 63 - 1

/-- How an operation ends. -/
inductive Outcome
  | done (s : Stream)
  | thrown (s : Stream)
  | fault
deriving DecidableEq

namespace Outcome

/-- The stream after it. -/
def state : Outcome → Option Stream
  | done s => some s
  | thrown s => some s
  | fault => none

/-- The next statement, unless there was an exception. -/
def andThen : Outcome → (Stream → Outcome) → Outcome
  | done s, f => f s
  | o, _ => o

theorem andThen_done {o : Outcome} {f : Stream → Outcome} {s' : Stream} :
    o.andThen f = done s' ↔ ∃ s, o = done s ∧ f s = done s' := by
  cases o <;> simp [andThen]

end Outcome

open Outcome

/-! ### Reading -/

/-- `left()`. -/
def left (s : Stream) : ℕ := (s.buf.length + 2 ^ 64 - s.pos) % 2 ^ 64

/-- `read`; what it copies is `Stream.read`. -/
def read (s : Stream) (len : UInt64) : Outcome :=
  let n := if (s.pos + len.toNat) % 2 ^ 64 > s.buf.length then left s else len.toNat
  if n = 0 then done s
  else if s.pos + n ≤ s.buf.length then done { s with pos := s.pos + n }
  else fault

/-- What `sizeof` and the size of a vector can be. -/
abbrev Size := Fin (2 ^ 63)

/-- `operator>>(T&)` for a type of this size. -/
def readValue (s : Stream) (size : Size) : Outcome := read s (UInt64.ofNat size)

/-- `operator>>(std::vector<byte>&)` for a vector of this size. -/
def readBytes (s : Stream) (size : Size) : Outcome :=
  if size.val = 0 then fault else read s (UInt64.ofNat size)

/-- `operator+=`. -/
def forward (s : Stream) (n : UInt32) : Stream :=
  let pos := (s.pos + n.toNat) % 2 ^ 64
  { s with pos := if pos > s.buf.length then s.buf.length else pos }

/-- `operator-=`. -/
def backward (s : Stream) (n : UInt32) : Stream :=
  { s with pos := if s.pos < n.toNat then 0 else s.pos - n.toNat }

def reset (s : Stream) : Stream := { s with pos := 0 }

/-! ### Writing -/

/-- `append`. -/
def append (s : Stream) (v : List Byte) : Outcome :=
  if s.buf.length + v.length > maxSize then thrown s else done { s with buf := s.buf ++ v }

/-- `prepend`. -/
def prepend (s : Stream) (v : List Byte) : Outcome :=
  if s.buf.length + v.length > maxSize then thrown s else done { s with buf := v ++ s.buf }

/-- `append_zero`. -/
def appendZero (s : Stream) (len : UInt64) : Outcome :=
  if len = 0 then done s
  else
    let n := (s.buf.length + len.toNat) % 2 ^ 64
    if n > maxSize then thrown s
    else done { s with buf := s.buf.take n ++ List.replicate (n - s.buf.length) 0 }

/-- `operator<<(const T&)` for a value with these bytes. -/
def putValue (s : Stream) (v : List Byte) : Outcome := append s v

/-- `operator<<(const std::vector<byte>&)`. -/
def putBytes (s : Stream) (v : List Byte) : Outcome := append s v

/-- `operator<<(const std::vector<T>&)`: their number in 32 bits, and so many of the values. -/
def putVector (s : Stream) (vs : List (List Byte)) : Outcome :=
  let n := vs.length % 2 ^ 32
  (vs.take n).foldl (fun o v => o.andThen (append · v)) (append s (toLE 4 n))

/-- `operator<<(const std::string&)`. -/
def putString (s : Stream) (v : Text) : Outcome := (append s v).andThen (append · [0])

/-- `_STR.strlen`, which returns an `int`. -/
def strlen (v : Text) : ℤ :=
  let n : ℕ := v.length % 2 ^ 32
  if n < 2 ^ 31 then n else n - 2 ^ 32

/-- What `operator<<(const char *)` inserts of a text: the range from `v` to `v + strlen(v) + 1`. -/
def cstringBytes (v : Text) : Option (List Byte) :=
  if strlen v + 1 < 0 then none else some ((v ++ [0]).take (strlen v + 1).toNat)

/-- `operator<<(const char *)`. -/
def putCString (s : Stream) (v : Name) : Outcome :=
  match cstringBytes v with
  | none => fault
  | some b => append s b

/-! ### Removing -/

def clear (_ : Stream) : Stream := ⟨[], 0⟩

/-- `pop_front`. -/
def popFront (s : Stream) (n : UInt64) : Stream :=
  { s with buf := if n.toNat ≥ s.buf.length then [] else s.buf.drop n.toNat }

theorem popFront_eq (s : Stream) (n : UInt64) : popFront s n = ⟨s.buf.drop n.toNat, s.pos⟩ := by
  unfold popFront
  split_ifs with h
  · rw [List.drop_eq_nil_of_le h]
  · rfl

/-- `remove`. -/
def remove (s : Stream) (start n : UInt64) : Outcome :=
  if start.toNat ≥ s.buf.length then done s
  else
    let n := if (start.toNat + n.toNat) % 2 ^ 64 > s.buf.length then s.buf.length - start.toNat else n.toNat
    if start.toNat + n ≤ s.buf.length then
      done { s with buf := s.buf.take start.toNat ++ s.buf.drop (start.toNat + n) }
    else fault

/-! ### Runs -/

inductive Op
  | read (len : UInt64)
  | readValue (size : Size)
  | readBytes (size : Size)
  | readStr
  | forward (n : UInt32)
  | backward (n : UInt32)
  | reset
  | append (v : List Byte)
  | prepend (v : List Byte)
  | appendZero (len : UInt64)
  | putValue (v : List Byte)
  | putBytes (v : List Byte)
  | putVector (vs : List (List Byte))
  | putString (v : Text)
  | putCString (v : Name)
  | clear
  | popFront (n : UInt64)
  | remove (start n : UInt64)

def exec (s : Stream) : Op → Outcome
  | .read len => read s len
  | .readValue size => readValue s size
  | .readBytes size => readBytes s size
  | .readStr => done s.readStr.2
  | .forward n => done (forward s n)
  | .backward n => done (backward s n)
  | .reset => done (reset s)
  | .append v => append s v
  | .prepend v => prepend s v
  | .appendZero len => appendZero s len
  | .putValue v => putValue s v
  | .putBytes v => putBytes s v
  | .putVector vs => putVector s vs
  | .putString v => putString s v
  | .putCString v => putCString s v
  | .clear => done (clear s)
  | .popFront n => done (popFront s n)
  | .remove start n => remove s start n

/-- A step of a run; there is none after a fault. -/
def step (t : Option Stream) (op : Op) (t' : Option Stream) : Prop := ∃ s, t = some s ∧ t' = (exec s op).state

/-- `pos() <= size()`. -/
def Inside (t : Option Stream) : Prop := ∃ s, t = some s ∧ s.pos ≤ s.buf.length

/-- What an operation may be called with. -/
def Ok (s : Stream) : Op → Prop
  | .read len => s.pos + len.toNat < 2 ^ 64
  | .readBytes size => size.val ≠ 0
  | .appendZero len => s.buf.length + len.toNat < 2 ^ 64 ∨ s.pos + 2 ^ 64 ≤ s.buf.length + len.toNat
  | .putCString v => -1 ≤ strlen v
  | .popFront n => s.pos ≤ s.buf.length - n.toNat
  | .remove start n => s.buf.length ≤ start.toNat ∨
      start.toNat + n.toNat < 2 ^ 64 ∧ s.pos ≤ s.buf.length - min n.toNat (s.buf.length - start.toNat)
  | _ => True

/-! ### What is inserted -/

theorem strlen_lt (v : Text) : strlen v < 2 ^ 31 := by
  unfold strlen
  dsimp only
  split_ifs <;> omega

theorem strlen_eq {v : Text} (h : v.length < 2 ^ 31) : strlen v = v.length := by
  unfold strlen
  dsimp only
  split_ifs <;> omega

/-- A text of less than 2^31 bytes is inserted with its zero byte. -/
theorem cstringBytes_eq {v : Text} (h : v.length < 2 ^ 31) : cstringBytes v = some (v ++ [0]) := by
  have hlen : (v ++ [0]).length = v.length + 1 := List.length_append
  rw [cstringBytes, strlen_eq h, if_neg (by omega), List.take_of_length_le (by omega)]

theorem cstringBytes_isSome {v : Text} : (∃ b, cstringBytes v = some b) ↔ -1 ≤ strlen v := by
  unfold cstringBytes
  split_ifs with h
  · exact iff_of_false (by rintro ⟨b, hb⟩; cases hb) (by omega)
  · exact iff_of_true ⟨_, rfl⟩ (by omega)

theorem length_of_cstringBytes {v : Text} {b : List Byte} (h : cstringBytes v = some b) :
    b.length ≤ v.length + 1 ∧ b.length ≤ 2 ^ 31 := by
  have hlt := strlen_lt v
  unfold cstringBytes at h
  split_ifs at h with hneg
  cases h
  rw [List.length_take, List.length_append, List.length_singleton]
  omega

theorem append_done {s s' : Stream} {v : List Byte} :
    append s v = done s' ↔ s.buf.length + v.length ≤ maxSize ∧ s' = ⟨s.buf ++ v, s.pos⟩ := by
  unfold append
  split_ifs with h
  · simp only [false_iff]
    omega
  · rw [done.injEq, eq_comm]
    exact (and_iff_right (Nat.le_of_not_lt h)).symm

theorem putString_done {s s' : Stream} {v : Text} :
    putString s v = done s' ↔ s.buf.length + (v ++ [0]).length ≤ maxSize ∧ s' = ⟨s.buf ++ (v ++ [0]), s.pos⟩ := by
  have hlen : (v ++ [0]).length = v.length + 1 := List.length_append
  unfold putString
  rw [andThen_done]
  constructor
  · rintro ⟨s₁, h₁, h⟩
    obtain ⟨-, rfl⟩ := append_done.mp h₁
    obtain ⟨hle, rfl⟩ := append_done.mp h
    rw [List.length_append, List.length_singleton] at hle
    exact ⟨by omega, by rw [List.append_assoc]⟩
  · rintro ⟨hle, rfl⟩
    refine ⟨_, append_done.mpr ⟨by omega, rfl⟩, append_done.mpr ⟨?_, by rw [List.append_assoc]⟩⟩
    rw [List.length_append, List.length_singleton]
    omega

/-! ### Operations that make the buffer longer -/

/-- The position stays where it is, and the buffer becomes no shorter. -/
def Grows (s : Stream) (o : Outcome) : Prop :=
  ∃ s', o.state = some s' ∧ s'.pos = s.pos ∧ s.buf.length ≤ s'.buf.length ∧ s'.buf.length ≤ maxSize

theorem Grows.andThen {s : Stream} {o : Outcome} {f : Stream → Outcome} (h : Grows s o)
    (hf : ∀ s', s'.buf.length ≤ maxSize → Grows s' (f s')) : Grows s (o.andThen f) := by
  obtain ⟨s₁, hs₁, hpos, hle, hmax⟩ := h
  cases o with
  | done s' =>
    obtain rfl := Option.some_inj.mp hs₁
    obtain ⟨s₂, hs₂, hpos₂, hle₂, hmax₂⟩ := hf s' hmax
    exact ⟨s₂, hs₂, hpos₂.trans hpos, hle.trans hle₂, hmax₂⟩
  | thrown s' => exact ⟨s₁, hs₁, hpos, hle, hmax⟩
  | fault => cases hs₁

variable {s : Stream}

theorem grows_append (hmax : s.buf.length ≤ maxSize) (v : List Byte) : Grows s (append s v) := by
  unfold append
  split_ifs with h
  · exact ⟨s, rfl, rfl, le_rfl, hmax⟩
  · have hlen : (s.buf ++ v).length = s.buf.length + v.length := List.length_append
    exact ⟨_, rfl, rfl, by rw [hlen]; omega, by rw [hlen]; omega⟩

theorem grows_prepend (hmax : s.buf.length ≤ maxSize) (v : List Byte) : Grows s (prepend s v) := by
  unfold prepend
  split_ifs with h
  · exact ⟨s, rfl, rfl, le_rfl, hmax⟩
  · have hlen : (v ++ s.buf).length = v.length + s.buf.length := List.length_append
    exact ⟨_, rfl, rfl, by rw [hlen]; omega, by rw [hlen]; omega⟩

theorem grows_foldl_append {o : Outcome} (h : Grows s o) (vs : List (List Byte)) :
    Grows s (vs.foldl (fun o v => o.andThen (append · v)) o) := by
  induction vs generalizing o with
  | nil => exact h
  | cons v vs ih => exact ih (h.andThen fun _ hmax => grows_append hmax v)

theorem grows_putString (hmax : s.buf.length ≤ maxSize) (v : Text) : Grows s (putString s v) :=
  (grows_append hmax v).andThen fun _ hmax => grows_append hmax [0]

theorem grows_putVector (hmax : s.buf.length ≤ maxSize) (vs : List (List Byte)) : Grows s (putVector s vs) :=
  grows_foldl_append (grows_append hmax _) _

/-! ### One operation -/

/-- The operation leaves a buffer that a vector can hold, and the position in it exactly if `ok`. -/
def Settles (o : Outcome) (ok : Prop) : Prop :=
  (∀ s', o.state = some s' → s'.buf.length ≤ maxSize) ∧ (Inside o.state ↔ ok)

theorem inside_some {s : Stream} : Inside (some s) ↔ s.pos ≤ s.buf.length := by
  simp [Inside]

theorem settles_fault {ok : Prop} (h : ¬ ok) : Settles fault ok :=
  ⟨fun _ hs => (by cases hs), iff_of_false (by rintro ⟨s, hs, -⟩; cases hs) h⟩

theorem settles_done {ok : Prop} (hmax : s.buf.length ≤ maxSize) (h : s.pos ≤ s.buf.length ↔ ok) :
    Settles (done s) ok :=
  ⟨fun _ hs => Option.some_inj.mp hs ▸ hmax, inside_some.trans h⟩

theorem Grows.settles {o : Outcome} (h : Grows s o) (hs : s.pos ≤ s.buf.length) : Settles o True := by
  obtain ⟨s', hs', hpos, hle, hmax⟩ := h
  rw [Settles, hs', inside_some, hpos]
  exact ⟨fun _ h => Option.some_inj.mp h ▸ hmax, iff_of_true (by omega) trivial⟩

theorem lt_of_le_maxSize {n : ℕ} (h : n ≤ maxSize) : n < 2 ^ 63 := by
  rw [maxSize] at h
  omega

/-- Within the buffer `left` does not underflow. -/
theorem left_eq (hs : s.pos ≤ s.buf.length) (hmax : s.buf.length ≤ maxSize) : left s = s.buf.length - s.pos := by
  have := lt_of_le_maxSize hmax
  rw [left]
  omega

theorem left_after {l r : List Byte} (h : (l ++ r).length ≤ maxSize) : left (Stream.after l r) = r.length := by
  have hlen : (l ++ r).length = l.length + r.length := List.length_append
  have hleft := left_eq (s := Stream.after l r) (by show l.length ≤ (l ++ r).length; omega) h
  rw [hleft]
  show (l ++ r).length - l.length = r.length
  omega

/-- Within the buffer, `read` is `Stream.read` unless the sum wraps. -/
theorem read_eq (hmax : s.buf.length ≤ maxSize) (hs : s.pos ≤ s.buf.length) {len : UInt64}
    (hlen : s.pos + len.toNat < 2 ^ 64) : read s len = done (s.read len.toNat).2 := by
  unfold read Stream.read
  dsimp only
  rw [Nat.mod_eq_of_lt hlen, left_eq hs hmax]
  set n := if s.pos + len.toNat > s.buf.length then s.buf.length - s.pos else len.toNat with hn
  have hfits : s.pos + n ≤ s.buf.length := by
    rw [hn]
    split_ifs <;> omega
  rw [if_pos hfits]
  split_ifs <;> rfl

/-- Within the buffer, `operator+=` is `Stream.skip`. -/
theorem forward_eq (hmax : s.buf.length ≤ maxSize) (hs : s.pos ≤ s.buf.length) (n : UInt32) :
    forward s n = s.skip n.toNat := by
  have hlt := lt_of_le_maxSize hmax
  have hn := n.toNat_lt
  unfold forward Stream.skip
  dsimp only
  rw [Nat.mod_eq_of_lt (by omega)]
  congr 1
  split_ifs <;> omega

section Settles

variable (hmax : s.buf.length ≤ maxSize)

include hmax

theorem settles_forward (n : UInt32) : Settles (done (forward s n)) True := by
  refine settles_done hmax (iff_of_true ?_ trivial)
  unfold forward
  dsimp only
  split_ifs <;> omega

theorem settles_popFront (n : UInt64) : Settles (done (popFront s n)) (s.pos ≤ s.buf.length - n.toNat) := by
  have hlen : (s.buf.drop n.toNat).length = s.buf.length - n.toNat := List.length_drop
  rw [popFront_eq]
  exact settles_done (by rw [hlen]; omega) (by rw [hlen])

variable (hs : s.pos ≤ s.buf.length)

include hs

theorem settles_read (len : UInt64) : Settles (read s len) (s.pos + len.toNat < 2 ^ 64) := by
  by_cases hok : s.pos + len.toNat < 2 ^ 64
  · rw [read_eq hmax hs hok]
    refine settles_done (by rwa [Stream.read_buf]) (iff_of_true ?_ hok)
    rw [Stream.read_pos s _ hs, Stream.read_buf]
    exact Nat.min_le_right _ _
  · -- the sum is small again, and nothing is clamped
    have hlen := len.toNat_lt
    have hlt := lt_of_le_maxSize hmax
    have hsum : ¬ (s.pos + len.toNat) % 2 ^ 64 > s.buf.length := by omega
    unfold read
    dsimp only
    rw [if_neg hsum, if_neg (by omega), if_neg (by omega)]
    exact settles_fault hok

theorem settles_readValue (size : Size) : Settles (readValue s size) True := by
  have hlt := lt_of_le_maxSize hmax
  have hsize : (UInt64.ofNat size).toNat = size := UInt64.toNat_ofNat_of_lt' (size.isLt.trans (by decide))
  have h := settles_read hmax hs (UInt64.ofNat size)
  rw [hsize] at h
  exact ⟨h.1, h.2.trans (iff_true_intro (by omega))⟩

theorem settles_readBytes (size : Size) : Settles (readBytes s size) (size.val ≠ 0) := by
  unfold readBytes
  split_ifs with hsize
  · exact settles_fault fun h => h hsize
  · have h := settles_readValue hmax hs size
    exact ⟨h.1, h.2.trans (iff_of_true trivial hsize)⟩

theorem settles_readStr : Settles (done s.readStr.2) True := by
  refine settles_done hmax (iff_of_true ?_ trivial)
  have hle : ((s.buf.drop s.pos).takeWhile (· ≠ 0)).length ≤ s.buf.length - s.pos := by
    rw [← List.length_drop]
    exact (List.takeWhile_prefix _).length_le
  unfold Stream.readStr
  dsimp only
  split_ifs <;> omega

theorem settles_backward (n : UInt32) : Settles (done (backward s n)) True := by
  refine settles_done hmax (iff_of_true ?_ trivial)
  unfold backward
  dsimp only
  split_ifs <;> omega

theorem settles_appendZero (len : UInt64) : Settles (appendZero s len)
    (s.buf.length + len.toNat < 2 ^ 64 ∨ s.pos + 2 ^ 64 ≤ s.buf.length + len.toNat) := by
  have hlen := len.toNat_lt
  have hlt := lt_of_le_maxSize hmax
  unfold appendZero
  dsimp only
  set n := (s.buf.length + len.toNat) % 2 ^ 64 with hn
  have hnew : (s.buf.take n ++ List.replicate (n - s.buf.length) 0).length = n := by
    rw [List.length_append, List.length_take, List.length_replicate]
    omega
  split_ifs with hzero hthrow
  · subst hzero
    exact settles_done hmax (iff_of_true hs (Or.inl (by show s.buf.length + 0 < _; omega)))
  · refine ⟨fun _ h => Option.some_inj.mp h ▸ hmax, iff_of_true (inside_some.mpr hs) (Or.inl ?_)⟩
    omega
  · refine settles_done (by rw [hnew]; omega) ?_
    rw [hnew]
    show s.pos ≤ n ↔ _
    omega

theorem settles_putCString (v : Name) : Settles (putCString s v) (-1 ≤ strlen v) := by
  unfold putCString
  rcases hv : cstringBytes v with _ | b
  · refine settles_fault fun h => ?_
    obtain ⟨b, hb⟩ := cstringBytes_isSome.mpr h
    rw [hv] at hb
    cases hb
  · have h := (grows_append hmax b).settles hs
    exact ⟨h.1, h.2.trans (iff_of_true trivial (cstringBytes_isSome.mp ⟨b, hv⟩))⟩

theorem settles_remove (start n : UInt64) : Settles (remove s start n) (s.buf.length ≤ start.toNat ∨
    start.toNat + n.toNat < 2 ^ 64 ∧ s.pos ≤ s.buf.length - min n.toNat (s.buf.length - start.toNat)) := by
  have hn := n.toNat_lt
  have hlt := lt_of_le_maxSize hmax
  unfold remove
  by_cases hstart : start.toNat ≥ s.buf.length
  · rw [if_pos hstart]
    exact settles_done hmax (iff_of_true hs (Or.inl hstart))
  rw [if_neg hstart]
  dsimp only
  by_cases hok : start.toNat + n.toNat < 2 ^ 64
  · rw [Nat.mod_eq_of_lt hok]
    set m := if start.toNat + n.toNat > s.buf.length then s.buf.length - start.toNat else n.toNat with hm
    have hmin : m = min n.toNat (s.buf.length - start.toNat) := by
      rw [hm]
      split_ifs <;> omega
    have hnew : (s.buf.take start.toNat ++ s.buf.drop (start.toNat + m)).length = s.buf.length - m := by
      rw [List.length_append, List.length_take, List.length_drop]
      omega
    rw [if_pos (by omega), ← hmin]
    refine settles_done (by rw [hnew]; omega) ?_
    rw [hnew]
    show s.pos ≤ s.buf.length - m ↔ _
    omega
  · -- the range would end before it starts
    have hsum : ¬ (start.toNat + n.toNat) % 2 ^ 64 > s.buf.length := by omega
    rw [if_neg hsum, if_neg (by omega)]
    exact settles_fault (by omega)

end Settles

/-! ### The position of a run -/

/-- **What one operation does to the position.** -/
theorem settles_exec (hmax : s.buf.length ≤ maxSize) (hs : s.pos ≤ s.buf.length) (op : Op) :
    Settles (exec s op) (Ok s op) := by
  cases op with
  | read len => exact settles_read hmax hs len
  | readValue size => exact settles_readValue hmax hs size
  | readBytes size => exact settles_readBytes hmax hs size
  | readStr => exact settles_readStr hmax hs
  | forward n => exact settles_forward hmax n
  | backward n => exact settles_backward hmax hs n
  | reset => exact settles_done hmax (iff_of_true (Nat.zero_le _) trivial)
  | append v => exact (grows_append hmax v).settles hs
  | prepend v => exact (grows_prepend hmax v).settles hs
  | appendZero len => exact settles_appendZero hmax hs len
  | putValue v => exact (grows_append hmax v).settles hs
  | putBytes v => exact (grows_append hmax v).settles hs
  | putVector vs => exact (grows_putVector hmax vs).settles hs
  | putString v => exact (grows_putString hmax v).settles hs
  | putCString v => exact settles_putCString hmax hs v
  | clear => exact settles_done (Nat.zero_le _) (iff_of_true le_rfl trivial)
  | popFront n => exact settles_popFront hmax n
  | remove start n => exact settles_remove hmax hs start n

/-- **The read position stays within the buffer**, from any constructed stream, exactly in the runs whose operations are
all called with what they may be called with. -/
theorem position_inside_iff {p : List Byte} (hp : p.length ≤ maxSize) {hist : List (Entry (Option Stream) Op)}
    {t : Option Stream} (hr : Run step (some (Stream.ofBytes p)) hist t) :
    (∀ x ∈ hist, Inside x.after) ↔ Allowed (fun _ t op => ∀ s, t = some s → Ok s op) hist := by
  refine Run.good_iff (I := fun t => ∀ s, t = some s → s.buf.length ≤ maxSize) ?_ ?_ ?_ hr
  · intro s hs
    obtain rfl := Option.some_inj.mp hs
    exact hp
  · exact inside_some.mpr (Nat.zero_le _)
  · rintro _ op _ hmax ⟨s, rfl, hs⟩ ⟨s', h, rfl⟩
    obtain rfl := Option.some_inj.mp h
    obtain ⟨hsize, hin⟩ := settles_exec (hmax s rfl) hs op
    refine ⟨hsize, hin.trans ⟨fun hok s' hs' => Option.some_inj.mp hs' ▸ hok, fun hok => hok s rfl⟩⟩

/-- A byte is read and taken back. -/
theorem position_inside_read : ∃ hist t, hist.length = 2 ∧ Run step (some (Stream.ofBytes [7])) hist t ∧
    ∀ x ∈ hist, Inside x.after := by
  have hr : Run step (some (Stream.ofBytes [7]))
      [⟨some ⟨[7], 1⟩, .backward 1, some ⟨[7], 0⟩⟩, ⟨some ⟨[7], 0⟩, .read 1, some ⟨[7], 1⟩⟩] (some ⟨[7], 0⟩) :=
    Run.snoc (Run.snoc Run.nil ⟨_, rfl, rfl⟩) ⟨_, rfl, rfl⟩
  have hread : ∀ s, some (⟨[7], 0⟩ : Stream) = some s → Ok s (.read 1) := by
    intro s hs
    obtain rfl := Option.some_inj.mp hs
    show 0 + (1 : UInt64).toNat < 2 ^ 64
    decide
  exact ⟨_, _, rfl, hr, (position_inside_iff (by decide) hr).mpr ⟨fun _ _ => trivial, hread, trivial⟩⟩

/-- `pop_front` takes a byte away that was read: the position is behind the end, and `left` underflows. -/
theorem popFront_of_read :
    exec (Stream.ofBytes [7]) (.read 1) = done ⟨[7], 1⟩ ∧ exec ⟨[7], 1⟩ (.popFront 1) = done ⟨[], 1⟩ ∧
      ¬ Inside (some ⟨[], 1⟩) ∧ left ⟨[], 1⟩ = 2 ^ 64 - 1 := by
  refine ⟨by decide, by decide, ?_, by decide⟩
  rw [inside_some]
  decide

end Blitzd.Utils.StreamOps
