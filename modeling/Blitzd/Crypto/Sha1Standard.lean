import Blitzd.Crypto.OldHash

/-! # SHA-1 as it is defined

The logon hashes with SHA-1: `SHA1Input` takes a message in pieces, `SHA1Result` pads what is left of the last block, in
place, and the padding may need a block of its own. Here is the hash in the terms of its definition: the whole message
is padded with a bit `1`, zeros and its length, the padded message is cut into blocks of 64 bytes, the words of a block are
expanded to 80, and each block is worked in by 80 rounds.

`sha1_pieces`: a message however cut has that digest when it is shorter than 2^61 bytes, and no digest when it is longer. -/

namespace Blitzd.Crypto.Sha1Standard

open Blitzd.Lib.Bytes Blitzd.Lib.Blocks Blitzd.Crypto.Sha Blitzd.Crypto.OldHash

/-! ### The definition -/

/-- The `w` low bytes of `n`, most significant first. -/
def toBE (w n : ℕ) : List Byte := (toLE w n).reverse

/-- The zeros behind the bit `1`. -/
def zeros (len : ℕ) : ℕ := (119 - len % 64) % 64

/-- The message with its padding. -/
def paddedMessage (m : List Byte) : List Byte := m ++ (0x80 :: List.replicate (zeros m.length) 0 ++ toBE 8 (8 * m.length))

/-- The word `t` of a block. -/
def messageWord (block : List Byte) (t : ℕ) : UInt32 := UInt32.ofNat (ofLE ((block.drop (4 * t)).take 4).reverse)

/-- The words of a block, and those they are expanded to. -/
def messageSchedule (block : List Byte) (t : ℕ) : UInt32 :=
  if t < 16 then messageWord block t
  else rotl (messageSchedule block (t - 3) ^^^ messageSchedule block (t - 8) ^^^ messageSchedule block (t - 14) ^^^
    messageSchedule block (t - 16)) 1

/-- The functions `Ch`, `Parity`, `Maj` and `Parity` of the definition. -/
def standardFun (t : ℕ) (x y z : UInt32) : UInt32 :=
  if t < 20 then (x &&& y) ^^^ (~~~ x &&& z)
  else if t < 40 then x ^^^ y ^^^ z
  else if t < 60 then (x &&& y) ^^^ (x &&& z) ^^^ (y &&& z)
  else x ^^^ y ^^^ z

/-- The round `t` with the words `W`. -/
def standardRound (W : ℕ → UInt32) (s : Words) (t : ℕ) : Words where
  A := rotl s.A 5 + standardFun t s.B s.C s.D + s.E + roundConst t + W t
  B := s.A
  C := rotl s.B 30
  D := s.C
  E := s.D

def standardBlock (h : Words) (block : List Byte) : Words :=
  addWords h ((List.range 80).foldl (standardRound (messageSchedule block)) h)

/-- **SHA-1 of a message.** -/
def standardDigest (m : List Byte) : List Byte :=
  let h := (fullBlocks 64 (paddedMessage m)).foldl standardBlock
    ⟨0x67452301, 0xEFCDAB89, 0x98BADCFE, 0x10325476, 0xC3D2E1F0⟩
  [h.A, h.B, h.C, h.D, h.E].flatMap fun w => toBE 4 w.toNat

/-- The padding ends a block, and no shorter one does. -/
theorem zeros_least (len : ℕ) :
    (len + 1 + zeros len) % 64 = 56 ∧ ∀ k, (len + 1 + k) % 64 = 56 → zeros len ≤ k := by
  unfold zeros
  refine ⟨by omega, fun k hk => by omega⟩

/-! ### The block function -/

theorem choose_eq_xor (x y z : UInt32) : choose x y z = (x &&& y) ^^^ (~~~ x &&& z) := by
  apply UInt32.toBitVec_inj.mp
  apply BitVec.eq_of_getLsbD_eq
  intro i hi
  simp only [choose, UInt32.toBitVec_or, UInt32.toBitVec_and, UInt32.toBitVec_not, UInt32.toBitVec_xor,
    BitVec.getLsbD_or, BitVec.getLsbD_and, BitVec.getLsbD_not, BitVec.getLsbD_xor]
  cases x.toBitVec.getLsbD i <;> simp

theorem majority_eq_xor (x y z : UInt32) : majority x y z = (x &&& y) ^^^ (x &&& z) ^^^ (y &&& z) := by
  apply UInt32.toBitVec_inj.mp
  apply BitVec.eq_of_getLsbD_eq
  intro i _
  simp only [majority, UInt32.toBitVec_or, UInt32.toBitVec_and, UInt32.toBitVec_xor, BitVec.getLsbD_or,
    BitVec.getLsbD_and, BitVec.getLsbD_xor]
  cases x.toBitVec.getLsbD i <;> cases y.toBitVec.getLsbD i <;> simp

/-- The code's functions, with `|`, are the definition's, with `xor`. -/
theorem standardFun_eq (t : ℕ) (x y z : UInt32) : standardFun t x y z = roundFun t x y z := by
  unfold standardFun roundFun
  split_ifs
  · exact (choose_eq_xor x y z).symm
  · rfl
  · exact (majority_eq_xor x y z).symm
  · rfl

theorem standardRound_eq (W : ℕ → UInt32) (s : Words) (t : ℕ) : standardRound W s t = oldRound W s t := by
  rw [standardRound, oldRound, standardFun_eq, UInt32.add_assoc _ (roundConst t), UInt32.add_comm (roundConst t),
    ← UInt32.add_assoc]

theorem wordsOf_wordBE : ∀ {n : ℕ} {block : List Byte}, block.length = 4 * n →
    wordsOf wordBE block = (List.range n).map (messageWord block)
  | 0, block, h => by
    rw [List.eq_nil_of_length_eq_zero h]
    rfl
  | n + 1, a :: b :: c :: d :: rest, h => by
    have hrest : rest.length = 4 * n := by
      simp only [List.length_cons] at h
      omega
    rw [wordsOf, wordsOf_wordBE hrest, List.range_succ_eq_map, List.map_cons, List.map_map]
    exact congrArg (· :: _) (wordLE_eq d c b a)

/-- The loop that expands the words fills in the schedule. -/
theorem expand_messageSchedule (block : List Byte) : ∀ k j : ℕ,
    expand (circularShift 1) k ((List.range (16 + j)).map (messageSchedule block)).reverse =
      ((List.range (16 + j + k)).map (messageSchedule block)).reverse
  | 0, _ => rfl
  | k + 1, j => by
    have hget : ∀ i < 16 + j, ((List.range (16 + j)).map (messageSchedule block)).reverse.getD i 0 =
        messageSchedule block (16 + j - 1 - i) := by
      intro i hi
      rw [List.getD_eq_getElem?_getD, List.getElem?_reverse (by simpa using hi), List.getElem?_map,
        List.getElem?_range (by simp; omega)]
      simp
    have hnext : circularShift 1 (messageSchedule block (16 + j - 1 - 2) ^^^ messageSchedule block (16 + j - 1 - 7) ^^^
        messageSchedule block (16 + j - 1 - 13) ^^^ messageSchedule block (16 + j - 1 - 15)) =
          messageSchedule block (16 + j) := by
      rw [circularShift_eq, messageSchedule.eq_def block (16 + j), if_neg (by omega)]
      rfl
    have hcons : messageSchedule block (16 + j) :: ((List.range (16 + j)).map (messageSchedule block)).reverse =
        ((List.range (16 + (j + 1))).map (messageSchedule block)).reverse := by
      rw [← Nat.add_assoc, List.range_succ, List.map_append, List.map_singleton, List.reverse_append]
      rfl
    rw [expand, hget 2 (by omega), hget 7 (by omega), hget 13 (by omega), hget 15 (by omega), hnext, hcons,
      expand_messageSchedule block k (j + 1)]
    congr 3
    omega

/-- **The block function of the code.** -/
theorem sha1Block_eq (h : Words) {block : List Byte} (hlen : block.length = 64) :
    sha1Block h block = standardBlock h block := by
  have hfirst : (List.range 16).map (messageWord block) = (List.range (16 + 0)).map (messageSchedule block) := by
    refine List.map_congr_left fun t ht => ?_
    rw [messageSchedule, if_pos (List.mem_range.mp ht)]
  have hrounds : (List.range 80).foldl (oldRound (messageSchedule block)) h =
      (List.range 80).foldl (standardRound (messageSchedule block)) h :=
    List.foldl_ext _ _ _ fun s t _ => (standardRound_eq _ s t).symm
  rw [sha1Block, blockWith, wordsOf_wordBE (n := 16) hlen, hfirst, expand_messageSchedule, List.reverse_reverse,
    rounds_eq, hrounds]
  rfl

theorem foldl_sha1Block_eq {blocks : List (List Byte)} (hlen : ∀ b ∈ blocks, b.length = 64) (h : Words) :
    blocks.foldl sha1Block h = blocks.foldl standardBlock h :=
  List.foldl_ext _ _ _ fun h _ hb => sha1Block_eq h (hlen _ hb)

/-! ### The padding -/

theorem toUInt8_shiftRight (w : UInt32) {s : UInt32} (hs : s.toNat < 32) :
    (w >>> s).toUInt8 = UInt8.ofNat (w.toNat / 2 ^ s.toNat % 256) := by
  apply UInt8.toNat_inj.mp
  rw [UInt8.toNat_ofNat', UInt32.toNat_toUInt8, UInt32.toNat_shiftRight, Nat.shiftRight_eq_div_pow,
    Nat.mod_eq_of_lt hs, Nat.mod_mod]

theorem bytesBE_eq (w : UInt32) : bytesBE w = toBE 4 w.toNat := by
  have hlow : w.toUInt8 = UInt8.ofNat (w.toNat % 256) := by
    apply UInt8.toNat_inj.mp
    rw [UInt8.toNat_ofNat', UInt32.toNat_toUInt8, Nat.mod_mod]
  rw [bytesBE, toUInt8_shiftRight w (by decide), toUInt8_shiftRight w (by decide), toUInt8_shiftRight w (by decide), hlow]
  simp only [toBE, toLE, Nat.div_div_eq_div_mul]
  rfl

theorem toLE_append : ∀ v w n : ℕ, toLE (v + w) n = toLE v n ++ toLE w (n / 256 ^ v)
  | 0, w, n => by simp [toLE]
  | v + 1, w, n => by
    rw [Nat.add_right_comm, toLE, toLE, toLE_append v w, Nat.div_div_eq_div_mul, ← pow_succ', List.cons_append]

theorem toLE_mod : ∀ w n : ℕ, toLE w (n % 256 ^ w) = toLE w n
  | 0, _ => rfl
  | w + 1, n => by
    have hdiv : n % 256 ^ (w + 1) / 256 = n / 256 % 256 ^ w := by
      rw [pow_succ', Nat.mod_mul_right_div_self]
    have hmod : n % 256 ^ (w + 1) % 256 = n % 256 := Nat.mod_mod_of_dvd n (Dvd.intro_left _ (pow_succ 256 w).symm)
    rw [toLE, toLE, hdiv, hmod, toLE_mod w]

/-- The two words that count the bits are the length of the message in eight bytes. -/
theorem lengthBytes_eq (n : ℕ) :
    bytesBE (UInt32.ofNat (8 * n / 2 ^ 32)) ++ bytesBE (UInt32.ofNat (8 * n)) = toBE 8 (8 * n) := by
  have hword : ∀ k, toLE 4 (UInt32.ofNat k).toNat = toLE 4 k := fun k => by
    rw [UInt32.toNat_ofNat']
    exact toLE_mod 4 k
  rw [bytesBE_eq, bytesBE_eq, toBE, toBE, toBE, hword, hword, ← List.reverse_append]
  exact congrArg List.reverse (toLE_append 4 4 (8 * n)).symm

/-- A block and its padding, when the length fits behind it. -/
theorem fullBlocks_short {r tail : List Byte} (hr : r.length ≤ 55) (htail : tail.length = 8) {len : ℕ}
    (hlen : len % 64 = r.length) :
    fullBlocks 64 (r ++ (0x80 :: List.replicate (zeros len) 0 ++ tail)) =
      [r ++ 0x80 :: List.replicate (55 - r.length) 0 ++ tail] := by
  have hzeros : zeros len = 55 - r.length := by
    unfold zeros
    omega
  rw [hzeros, ← List.append_assoc]
  refine fullBlocks_block (by omega) ?_
  simp only [List.length_append, List.length_cons, List.length_replicate, htail]
  omega

/-- A block and its padding, when the length needs a block of its own. -/
theorem fullBlocks_long {r tail : List Byte} (hr : 55 < r.length) (hr' : r.length < 64)
    (htail : tail.length = 8) {len : ℕ} (hlen : len % 64 = r.length) :
    fullBlocks 64 (r ++ (0x80 :: List.replicate (zeros len) 0 ++ tail)) =
      [r ++ 0x80 :: List.replicate (63 - r.length) 0, List.replicate 56 0 ++ tail] := by
  have hzeros : zeros len = (63 - r.length) + 56 := by
    unfold zeros
    omega
  have hsplit : r ++ (0x80 :: List.replicate (zeros len) 0 ++ tail) =
      (r ++ 0x80 :: List.replicate (63 - r.length) 0) ++ (List.replicate 56 0 ++ tail) := by
    rw [hzeros, List.replicate_add]
    simp
  have hfirst : (r ++ (0x80 : Byte) :: List.replicate (63 - r.length) 0).length = 64 := by
    simp only [List.length_append, List.length_cons, List.length_replicate]
    omega
  have hsecond : (List.replicate 56 0 ++ tail).length = 64 := by
    rw [List.length_append, List.length_replicate, htail]
  rw [hsplit, fullBlocks_append_of_dvd (by omega) (q := 1) hfirst, fullBlocks_block (by omega) hfirst,
    fullBlocks_block (by omega) hsecond]
  rfl

theorem sha1Pad_fed (m : List Byte) :
    sha1Pad (fed sha1Algo m) = (fullBlocks 64 (paddedMessage m)).foldl standardBlock reset.hash := by
  have hrest := length_remainder_lt (by omega : 0 < 64) m
  have hlen : m.length % 64 = (remainder 64 m).length := (length_remainder 64 m).symm
  have htail : (toBE 8 (8 * m.length)).length = 8 := by rw [toBE, List.length_reverse, length_toLE]
  rw [← foldl_sha1Block_eq fun _ hb => length_of_mem_fullBlocks hb, paddedMessage, fullBlocks_append (by omega),
    List.foldl_append, sha1Pad]
  by_cases hlong : (fed sha1Algo m).block.length > 55
  · rw [if_pos hlong, fullBlocks_long (r := remainder 64 m) hlong hrest htail hlen, ← lengthBytes_eq]
    rfl
  · rw [if_neg hlong, fullBlocks_short (r := remainder 64 m) (Nat.le_of_not_gt hlong) htail hlen, ← lengthBytes_eq]
    rfl

theorem digest_bytes (h : Words) :
    (digest h).bytes = [h.A, h.B, h.C, h.D, h.E].flatMap fun w => toBE 4 w.toNat := by
  simp [digest, bytesBE_eq]

/-! ### A message in pieces -/

/-- The byte that makes the counter run over spoils the context. -/
theorem inputByte_too_long (al : Algo) {m : List Byte} (hm : m.length + 1 = 2 ^ 61) (b : Byte) :
    (inputByte al (fed al m) b).corrupted = 1 := by
  obtain ⟨hlow, hhigh⟩ := bits_succ m.length
  have hover : UInt32.ofNat (8 * (m.length + 1)) = 0 ∧ UInt32.ofNat (8 * (m.length + 1) / 2 ^ 32) = 0 := by
    rw [hm]
    decide
  unfold inputByte
  dsimp only [fed]
  rw [hlow, hhigh, if_pos hover]
  split_ifs <;> rfl

theorem inputLoop_of_corrupted (al : Algo) {c : Context} (hc : c.corrupted ≠ 0) (m : List Byte) :
    inputLoop al c m = c := by
  cases m with
  | nil => rfl
  | cons b m => rw [inputLoop, if_pos hc]

theorem inputLoop_too_long (al : Algo) {m : List Byte} (hm : 2 ^ 61 ≤ m.length) :
    (inputLoop al reset m).corrupted = 1 := by
  have hlen : (m.take (2 ^ 61 - 1)).length + 1 = 2 ^ 61 := by
    rw [List.length_take_of_le (by omega)]
    omega
  obtain ⟨b, rest, hrest⟩ : ∃ b rest, m.drop (2 ^ 61 - 1) = b :: rest := by
    cases h : m.drop (2 ^ 61 - 1) with
    | nil =>
      have := List.drop_eq_nil_iff.mp h
      omega
    | cons b rest => exact ⟨b, rest, rfl⟩
  have hbad := inputByte_too_long al hlen b
  rw [← List.take_append_drop (2 ^ 61 - 1) m, hrest, inputLoop_append, inputLoop_fed al (by omega), inputLoop,
    if_neg (by simp [fed]), inputLoop_of_corrupted al (by rw [hbad]; decide), hbad]

/-- **SHA-1 of a message in pieces**: for less than 2^61 bytes the digest of the definition, whatever the pieces and
whatever the array held; for more bytes an error, and the array is left as it was. -/
theorem sha1_pieces (ms : List (List Byte)) (out : Buf 20) :
    let c := ms.foldl (input sha1Algo) reset
    if ms.flatten.length < 2 ^ 61 then
      resultCode c = shaSuccess ∧ (result sha1Algo c out).2.bytes = standardDigest ms.flatten
    else resultCode c = 1 ∧ (result sha1Algo c out).2 = out := by
  dsimp only
  rw [foldl_input _ ms rfl, input_eq_loop _ rfl]
  split_ifs with hm
  · rw [inputLoop_fed _ hm]
    refine ⟨rfl, ?_⟩
    show (digest (sha1Pad (fed sha1Algo ms.flatten))).bytes = _
    rw [digest_bytes, sha1Pad_fed]
    rfl
  · have hbad := inputLoop_too_long sha1Algo (by omega : 2 ^ 61 ≤ ms.flatten.length)
    rw [resultCode, result, hbad]
    exact ⟨rfl, rfl⟩

end Blitzd.Crypto.Sha1Standard
