import Mathlib.Data.List.TakeWhile
import Blitzd.Lib.Bytes

/-! # The byte stream packets are read from

`Stream.h`, the part the handlers read with. `read` copies what is left when fewer bytes are left
than asked for, so a local array is only filled from the front (`Buf.fill`); a string ends at the next
zero byte or at the end of the stream. `after l r` is a stream that has been read up to the end of `l`,
for packets that are read back as they were packed. -/

namespace Blitzd.Utils

open Blitzd.Lib.Bytes

structure Stream where
  buf : List Byte
  pos : ℕ
deriving DecidableEq

namespace Stream

/-- `Stream(buf, len)`. -/
def ofBytes (p : List Byte) : Stream := ⟨p, 0⟩

/-- `read`: the bytes copied to the caller's array, and the stream after it. -/
def read (s : Stream) (len : ℕ) : List Byte × Stream :=
  let len := if s.pos + len > s.buf.length then s.buf.length - s.pos else len
  if len = 0 then ([], s) else ((s.buf.drop s.pos).take len, { s with pos := s.pos + len })

/-- `read` into the local array `a`. -/
def readBuf {n : ℕ} (s : Stream) (a : Buf n) : Buf n × Stream :=
  let r := s.read n
  (a.fill r.1, r.2)

/-- `operator>>(std::string&)`. -/
def readStr (s : Stream) : Text × Stream :=
  let v := (s.buf.drop s.pos).takeWhile (· ≠ 0)
  let n := s.pos + v.length
  (v, { s with pos := if n = s.buf.length then n else n + 1 })

/-- `operator+=`. -/
def skip (s : Stream) (n : ℕ) : Stream := { s with pos := min (s.pos + n) s.buf.length }

/-- What `read` copies is the front of the rest of the stream. -/
theorem read_fst (s : Stream) (len : ℕ) : (s.read len).1 = (s.buf.drop s.pos).take len := by
  unfold read
  dsimp only
  split_ifs with h1 h2 h2
  · rw [List.drop_eq_nil_of_le (by omega), List.take_nil]
  · rw [List.take_of_length_le (by simp), List.take_of_length_le (by simp; omega)]
  · rw [h2, List.take_zero]
  · rfl

@[simp] theorem read_buf (s : Stream) (len : ℕ) : (s.read len).2.buf = s.buf := by
  unfold read
  dsimp only
  split_ifs <;> rfl

theorem read_pos (s : Stream) (len : ℕ) (h : s.pos ≤ s.buf.length) :
    (s.read len).2.pos = min (s.pos + len) s.buf.length := by
  unfold read
  dsimp only
  split_ifs with h1 h2 h2
  · show s.pos = _; omega
  · show s.pos + _ = _; omega
  · show s.pos = _; omega
  · show s.pos + len = _; omega

/-- An array that is there in full is read whole, whatever it held. -/
theorem readBuf_full {n : ℕ} (s : Stream) (a : Buf n) (h : s.pos + n ≤ s.buf.length) :
    (s.readBuf a).1.bytes = (s.buf.drop s.pos).take n ∧ (s.readBuf a).2 = ⟨s.buf, s.pos + n⟩ := by
  have hfst := s.read_fst n
  have hlen : ((s.buf.drop s.pos).take n).length = n := by
    rw [List.length_take, List.length_drop]; omega
  refine ⟨?_, ?_⟩
  · show (a.fill (s.read n).1).bytes = _
    rw [hfst, Buf.fill_bytes_of_ge a (by omega), List.take_of_length_le (by omega)]
  · show (s.read n).2 = _
    have hpos := s.read_pos n (by omega)
    have hbuf := s.read_buf n
    rw [Nat.min_eq_left h] at hpos
    rw [← hpos, ← hbuf]

/-- The stream behind `l`, with `r` still to be read. -/
def after (l r : List Byte) : Stream := ⟨l ++ r, l.length⟩

theorem ofBytes_eq (p : List Byte) : ofBytes p = after [] p := rfl

theorem after_assoc (l v r : List Byte) : (⟨l ++ (v ++ r), (l ++ v).length⟩ : Stream) = after (l ++ v) r := by
  rw [after, List.append_assoc]

theorem readBuf_after {n : ℕ} (l r : List Byte) (b a : Buf n) :
    (after l (b.bytes ++ r)).readBuf a = (b, after (l ++ b.bytes) r) := by
  have hlen : l.length + n ≤ (l ++ (b.bytes ++ r)).length := by
    simp only [List.length_append, b.len]
    omega
  obtain ⟨h1, h2⟩ := readBuf_full (after l (b.bytes ++ r)) a hlen
  refine Prod.ext (Buf.ext ?_) (h2.trans ?_)
  · rw [h1, after, List.drop_left, List.take_left' b.len]
  · rw [← after_assoc, List.length_append, b.len, after]

/-- A string at the end of a packet. -/
theorem readStr_after_end (l : List Byte) {v : List Byte} (hv : ∀ x ∈ v, x ≠ 0) : (after l v).readStr.1 = v := by
  show ((l ++ v).drop l.length).takeWhile _ = v
  rw [List.drop_left]
  exact List.takeWhile_eq_self_iff.mpr fun x hx => by simpa using hv x hx

/-- A string with its zero byte. -/
theorem readStr_after (l r : List Byte) {v : List Byte} (hv : ∀ x ∈ v, x ≠ 0) :
    (after l (v ++ [0] ++ r)).readStr = (v, after (l ++ (v ++ [0])) r) := by
  have htake : (v ++ [0] ++ r).takeWhile (fun x : Byte => decide (x ≠ 0)) = v := by
    rw [List.append_assoc, List.takeWhile_append_of_pos fun x hx => by simpa using hv x hx, List.singleton_append,
      List.takeWhile_cons_of_neg (by simp), List.append_nil]
  have hne : l.length + v.length ≠ (l ++ (v ++ [0] ++ r)).length := by
    simp only [List.length_append, List.length_singleton]
    omega
  rw [readStr, after, List.drop_left, htake, if_neg hne, ← after_assoc, List.length_append, List.length_append,
    List.length_singleton, Nat.add_assoc]

theorem skip_after (l r : List Byte) {v : List Byte} {n : ℕ} (h : v.length = n) :
    (after l (v ++ r)).skip n = after (l ++ v) r := by
  have hle : l.length + n ≤ (l ++ (v ++ r)).length := by
    simp only [List.length_append, h]
    omega
  rw [skip, after, Nat.min_eq_left hle, ← after_assoc, List.length_append, h]

/-- A string read from a stream has no zero byte. -/
theorem readStr_ne_zero {s : Stream} {x : Byte} (h : x ∈ s.readStr.1) : x ≠ 0 := by
  have := List.all_takeWhile (p := fun b : Byte => decide (b ≠ 0)) (l := s.buf.drop s.pos)
  simpa using List.all_eq_true.mp this x h

end Stream

end Blitzd.Utils
