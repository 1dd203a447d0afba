import Blitzd.Utils.StreamOps

/-! # The packet loops of baald

`Client::ProcessBNetRealm` and `BlitzConn::ProcessBaal` hand the packets of their buffer over to the plugins, with headers
of 3 and of 4 bytes that start with the length of the packet. What a loop is meant to do is said by a splitting of the
buffer: whole packets, and a rest that no packet is at the front of (`HandsOver`).

`packetLoops_iff`: they do that exactly if every length they come to covers the header (`Sized`). A smaller one, minus the
header, is a negative number that is passed as a `size_t`. -/

namespace Blitzd.Baald.PacketLoop

open Blitzd.Lib.Bytes Blitzd.Utils Blitzd.Utils.StreamOps

/-! ### The code -/

/-- `*(ushort *)` of the first bytes. -/
def ushortOf (b : List Byte) : ℕ := ofLE (b.take 2)

/-- A header: its size, and the number of the packet, which is in it. -/
structure Header where
  size : ℕ
  op : List Byte → UInt16
  two_le : 2 ≤ size
  op_append : ∀ {p : List Byte} (b : List Byte), size ≤ p.length → op (p ++ b) = op p

/-- The length, and the number in one byte. -/
def realmHeader : Header where
  size := 3
  op b := (b.getD 2 0).toUInt16
  two_le := by omega
  op_append b hp := by
    rw [List.getD_eq_getElem?_getD, List.getD_eq_getElem?_getD, List.getElem?_append_left (by omega)]

/-- The length, and the number in two bytes. -/
def baalHeader : Header where
  size := 4
  op b := UInt16.ofNat (ushortOf (b.drop 2))
  two_le := by omega
  op_append b hp := by
    rw [ushortOf, ushortOf, List.drop_append_of_le_length (by omega),
      List.take_append_of_le_length (by rw [List.length_drop]; omega)]

/-- A call of `Process` of a plugin. -/
structure Call where
  op : UInt16
  payload : List Byte
deriving DecidableEq

/-- How a loop ends; `running` after the passes that are looked at. -/
inductive Result
  | stopped (calls : List Call) (buffer : Stream)
  | fault (calls : List Call)
  | running
deriving DecidableEq

/-- A call before the others. -/
def Result.cons (c : Call) : Result → Result
  | stopped calls buffer => stopped (c :: calls) buffer
  | fault calls => fault (c :: calls)
  | running => running

/-- `Stream(buf, len)` for a length that is a difference: with a negative one the range ends before it starts. -/
def ofRange (buf : List Byte) (len : ℤ) : Option Stream :=
  if 0 ≤ len ∧ len ≤ buf.length then some (Stream.ofBytes (buf.take len.toNat)) else none

/-- The loops, for a header. -/
def loop (hd : Header) : ℕ → Stream → Result
  | 0, _ => .running
  | n + 1, s =>
    let size := s.buf.length
    let psize := ushortOf s.buf
    if size ≥ hd.size ∧ psize ≤ size then
      match ofRange (s.buf.drop hd.size) ((psize : ℤ) - hd.size) with
      | none => .fault []
      | some st =>
        let s' := if psize < size then popFront s (UInt64.ofNat psize) else clear s
        (loop hd n s').cons ⟨hd.op s.buf, st.buf⟩
    else .stopped [] s

/-- `Client::ProcessBNetRealm`. -/
def processBNetRealm : ℕ → Stream → Result := loop realmHeader

/-- `BlitzConn::ProcessBaal`. -/
def processBaal : ℕ → Stream → Result := loop baalHeader

/-! ### What is meant -/

/-- The bytes of one packet: it has a header, and the length it declares. -/
def Whole (hd : Header) (p : List Byte) : Prop := hd.size ≤ p.length ∧ ushortOf p = p.length

/-- There is no complete packet at the front. -/
def Stops (hd : Header) (b : List Byte) : Prop := ¬ (hd.size ≤ b.length ∧ ushortOf b ≤ b.length)

/-- The loop ends with this: the packets were handed over without their headers, and removed, until there was no more. -/
def HandsOver (hd : Header) (run : ℕ → Stream → Result) (b : List Byte) : Prop :=
  ∃ (packets : List (List Byte)) (rest : List Byte), b = packets.flatten ++ rest ∧ (∀ p ∈ packets, Whole hd p) ∧
    Stops hd rest ∧ ∃ n, run n (Stream.ofBytes b) =
      .stopped (packets.map fun p => ⟨hd.op p, p.drop hd.size⟩) (Stream.ofBytes rest)

/-- Behind whole packets there is no header with a length that does not cover it. -/
def Sized (hd : Header) (b : List Byte) : Prop :=
  ∀ (packets : List (List Byte)) (rest : List Byte), b = packets.flatten ++ rest → (∀ p ∈ packets, Whole hd p) →
    hd.size ≤ rest.length → hd.size ≤ ushortOf rest

variable {hd : Header} {p b : List Byte}

/-! ### One pass -/

/-- The length is in the header. -/
theorem Whole.ushortOf_append (hp : Whole hd p) (b : List Byte) : ushortOf (p ++ b) = p.length := by
  rw [ushortOf, List.take_append_of_le_length (hd.two_le.trans hp.1)]
  exact hp.2

theorem Whole.lt (hp : Whole hd p) : p.length < 2 ^ 16 := by
  have hlt := ofLE_lt (p.take 2)
  have hle : 256 ^ (p.take 2).length ≤ 256 ^ 2 := Nat.pow_le_pow_right (by omega) (List.length_take_le 2 p)
  rw [← hp.2]
  exact Nat.lt_of_lt_of_le hlt hle

/-- A whole packet does not stop the loop. -/
theorem Whole.not_stops (hp : Whole hd p) (b : List Byte) : ¬ Stops hd (p ++ b) := by
  have hlen : (p ++ b).length = p.length + b.length := List.length_append
  have hle := hp.1
  refine not_not.mpr ⟨by omega, ?_⟩
  rw [hp.ushortOf_append]
  omega

/-- Which one it is, the bytes say. -/
theorem Whole.rest_eq {q b' : List Byte} (hp : Whole hd p) (hq : Whole hd q) (h : p ++ b = q ++ b') : b = b' := by
  have hlen : p.length = q.length := by
    rw [← hp.ushortOf_append b, h, hq.ushortOf_append]
  exact (List.append_inj h hlen).2

theorem loop_stops (hb : Stops hd b) (n : ℕ) : loop hd (n + 1) (Stream.ofBytes b) = .stopped [] (Stream.ofBytes b) := by
  rw [loop]
  exact if_neg hb

/-- What the loop removes. -/
theorem Whole.removed (hp : Whole hd p) (b : List Byte) :
    (if p.length < (p ++ b).length then popFront (Stream.ofBytes (p ++ b)) (UInt64.ofNat p.length)
      else clear (Stream.ofBytes (p ++ b))) = Stream.ofBytes b := by
  have hlen : (p ++ b).length = p.length + b.length := List.length_append
  have hnat : (UInt64.ofNat p.length).toNat = p.length := UInt64.toNat_ofNat_of_lt' (hp.lt.trans (by decide))
  split_ifs with hlt
  · rw [popFront_eq, hnat]
    show Stream.mk ((p ++ b).drop p.length) 0 = _
    rw [List.drop_left]
    rfl
  · obtain rfl := List.eq_nil_of_length_eq_zero (by omega : b.length = 0)
    rfl

/-- A whole packet at the front is handed over and removed. -/
theorem loop_whole (hp : Whole hd p) (n : ℕ) (b : List Byte) :
    loop hd (n + 1) (Stream.ofBytes (p ++ b)) =
      (loop hd n (Stream.ofBytes b)).cons ⟨hd.op p, p.drop hd.size⟩ := by
  have hbuf : (Stream.ofBytes (p ++ b)).buf = p ++ b := rfl
  have hsize := hp.ushortOf_append b
  have hrest := hp.removed b
  have hlen : (p ++ b).length = p.length + b.length := List.length_append
  have hle := hp.1
  have hdrop : (p ++ b).drop hd.size = p.drop hd.size ++ b := List.drop_append_of_le_length hle
  have hrange : ofRange ((p ++ b).drop hd.size) ((p.length : ℤ) - hd.size) = some (Stream.ofBytes (p.drop hd.size)) := by
    have htake : ((p.length : ℤ) - hd.size).toNat = (p.drop hd.size).length := by
      rw [List.length_drop]
      omega
    rw [hdrop, ofRange, if_pos, htake, List.take_left]
    rw [List.length_append, List.length_drop]
    omega
  rw [loop]
  simp only [hbuf, hsize, hrange]
  rw [if_pos ⟨by omega, by omega⟩, hrest, hd.op_append b hle]
  rfl

/-- A complete packet at the front that covers its header is a whole one. -/
theorem exists_whole (hb : ¬ Stops hd b) (hlen : hd.size ≤ ushortOf b) : ∃ p b', b = p ++ b' ∧ Whole hd p := by
  obtain ⟨-, hle⟩ := not_not.mp hb
  have htake : (b.take (ushortOf b)).length = ushortOf b := List.length_take_of_le hle
  refine ⟨b.take (ushortOf b), b.drop (ushortOf b), (List.take_append_drop _ _).symm, by omega, ?_⟩
  rw [htake, ushortOf, List.take_take, Nat.min_eq_left (hd.two_le.trans hlen)]
  rfl

/-! ### The loops -/

theorem Sized.of_append (hp : Whole hd p) (h : Sized hd (p ++ b)) : Sized hd b := by
  rintro packets rest rfl hwhole
  exact h (p :: packets) rest (by rw [List.flatten_cons, List.append_assoc]) (List.forall_mem_cons.mpr ⟨hp, hwhole⟩)

/-- Where the lengths are sufficient, by induction on the length of the buffer. -/
theorem Sized.handsOver (n : ℕ) : ∀ {b : List Byte}, b.length ≤ n → Sized hd b → HandsOver hd (loop hd) b := by
  induction n using Nat.strong_induction_on with
  | _ n ih =>
    intro b hn h
    by_cases hb : Stops hd b
    · exact ⟨[], b, rfl, by simp, hb, 1, loop_stops hb 0⟩
    · have hfront := h [] b rfl (by simp) (not_not.mp hb).1
      obtain ⟨p, b', rfl, hp⟩ := exists_whole hb hfront
      have hlt : b'.length < n := by
        have h2 := hd.two_le
        have hle := hp.1
        rw [List.length_append] at hn
        omega
      obtain ⟨packets, rest, rfl, hwhole, hstops, m, hm⟩ := ih _ hlt le_rfl (h.of_append hp)
      refine ⟨p :: packets, rest, by rw [List.flatten_cons, List.append_assoc], List.forall_mem_cons.mpr ⟨hp, hwhole⟩,
        hstops, m + 1, ?_⟩
      rw [loop_whole hp, hm]
      rfl

/-- A splitting into whole packets and a rest that stops the loop has no short length, by induction on its packets. -/
theorem sized_of_split {packets : List (List Byte)} {rest : List Byte} (hwhole : ∀ p ∈ packets, Whole hd p)
    (hstops : Stops hd rest) : Sized hd (packets.flatten ++ rest) := by
  induction packets with
  | nil =>
    intro packets' rest' heq hwhole' hle
    cases packets' with
    | nil =>
      obtain rfl : rest = rest' := heq
      have : ¬ ushortOf rest ≤ rest.length := fun h => hstops ⟨hle, h⟩
      omega
    | cons q packets' =>
      rw [List.flatten_nil, List.nil_append, List.flatten_cons, List.append_assoc] at heq
      exact absurd (heq ▸ hstops) ((hwhole' q List.mem_cons_self).not_stops _)
  | cons p packets ih =>
    intro packets' rest' heq hwhole' hle
    obtain ⟨hp, hwhole⟩ := List.forall_mem_cons.mp hwhole
    rw [List.flatten_cons, List.append_assoc] at heq
    cases packets' with
    | nil =>
      obtain rfl : _ = rest' := heq
      rw [hp.ushortOf_append]
      exact hp.1
    | cons q packets' =>
      obtain ⟨hq, hwhole'⟩ := List.forall_mem_cons.mp hwhole'
      rw [List.flatten_cons, List.append_assoc] at heq
      exact ih hwhole packets' rest' (hp.rest_eq hq heq) hwhole' hle

theorem handsOver_iff_sized (hd : Header) (b : List Byte) : HandsOver hd (loop hd) b ↔ Sized hd b := by
  constructor
  · rintro ⟨packets, rest, rfl, hwhole, hstops, -⟩
    exact sized_of_split hwhole hstops
  · exact Sized.handsOver b.length le_rfl

/-- **The loops of baald** end and hand over what was received, packet by packet, exactly if the lengths that they come to
cover the headers. -/
theorem packetLoops_iff (b : List Byte) :
    (HandsOver realmHeader processBNetRealm b ↔ Sized realmHeader b) ∧
      (HandsOver baalHeader processBaal b ↔ Sized baalHeader b) :=
  ⟨handsOver_iff_sized realmHeader b, handsOver_iff_sized baalHeader b⟩

/-- A packet that declares no bytes. -/
theorem packetLoops_zero :
    (processBNetRealm 1 (Stream.ofBytes [0, 0, 1]) = .fault [] ∧ ¬ HandsOver realmHeader processBNetRealm [0, 0, 1]) ∧
      processBaal 1 (Stream.ofBytes [0, 0, 1, 0]) = .fault [] ∧
      ¬ HandsOver baalHeader processBaal [0, 0, 1, 0] := by
  refine ⟨⟨by decide, fun h => ?_⟩, by decide, fun h => ?_⟩
  · have := (handsOver_iff_sized realmHeader _).mp h [] [0, 0, 1] rfl (by simp) (by decide)
    exact absurd this (by decide)
  · have := (handsOver_iff_sized baalHeader _).mp h [] [0, 0, 1, 0] rfl (by simp) (by decide)
    exact absurd this (by decide)

end Blitzd.Baald.PacketLoop
