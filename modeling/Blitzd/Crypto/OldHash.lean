import Mathlib.Data.List.Basic
import Mathlib.Data.List.Induction
import Blitzd.Crypto.Sha
import Blitzd.Lib.Blocks

/-! # The hash of the old logon

`BSHA1Input` takes a message in pieces of any size and keeps a part of a block, the number of bits so far and an error
between the calls. `oldDigest` is what the hash is defined as, of the whole message: the block function over its blocks of
64 bytes and over what is left of it, padded with zeros. The words of a block are expanded by rotations of `1`.

`oldHash_pieces`: a message of less than 2^61 bytes, however it is cut, has that digest, asked for once or twice; and
the hash then takes no further byte. -/

namespace Blitzd.Crypto.OldHash

open Blitzd.Lib.Bytes Blitzd.Lib.Blocks Blitzd.Crypto.Sha

/-! ### What the calls return -/

def shaSuccess : ℕ := 0

/-- The return value of `BSHA1Input`. -/
def inputCode (c : Context) (m : List Byte) : ℕ :=
  if m = [] then shaSuccess
  else if c.computed then shaStateError
  else if c.corrupted ≠ 0 then c.corrupted
  else shaSuccess

/-- The return value of `BSHA1Result`. -/
def resultCode (c : Context) : ℕ := if c.corrupted ≠ 0 then c.corrupted else shaSuccess

/-! ### The definition -/

def rotl (x : UInt32) (n : ℕ) : UInt32 := ⟨x.toBitVec.rotateLeft n⟩

/-- The word `t` of a block, little-endian. -/
def word (block : List Byte) (t : ℕ) : UInt32 := UInt32.ofNat (ofLE ((block.drop (4 * t)).take 4))

/-- The words of a block, and those they are expanded to. -/
def schedule (block : List Byte) (t : ℕ) : UInt32 :=
  if t < 16 then word block t
  else rotl 1 ((schedule block (t - 3) ^^^ schedule block (t - 8) ^^^ schedule block (t - 14) ^^^
    schedule block (t - 16)).toNat % 32)

/-- The functions of SHA-1. -/
def roundFun (t : ℕ) : UInt32 → UInt32 → UInt32 → UInt32 :=
  if t < 20 then choose else if t < 40 then parity else if t < 60 then majority else parity

/-- The constants of SHA-1. -/
def roundConst (t : ℕ) : UInt32 :=
  if t < 20 then 0x5A827999 else if t < 40 then 0x6ED9EBA1 else if t < 60 then 0x8F1BBCDC else 0xCA62C1D6

/-- The round `t` of SHA-1 with the words `W`. -/
def oldRound (W : ℕ → UInt32) (s : Words) (t : ℕ) : Words where
  A := rotl s.A 5 + roundFun t s.B s.C s.D + s.E + W t + roundConst t
  B := s.A
  C := rotl s.B 30
  D := s.C
  E := s.D

/-- The block function. -/
def oldBlock (h : Words) (block : List Byte) : Words :=
  addWords h ((List.range 80).foldl (oldRound (schedule block)) h)

/-- A last block, padded with zeros. -/
def padded (r : List Byte) : List Byte := r ++ List.replicate (64 - r.length) 0

/-- **The hash of a message.** -/
def oldDigest (m : List Byte) : Buf 20 :=
  digest (oldBlock ((fullBlocks 64 m).foldl oldBlock reset.hash) (padded (remainder 64 m)))

/-! ### The block function -/

theorem circularShift_eq (bits w : UInt32) : circularShift bits w = rotl w bits.toNat := by
  have hleft : (bits.toBitVec % 32).toNat = bits.toNat % 32 := rfl
  have hright : ((32 - bits).toBitVec % 32).toNat = (32 - bits.toNat % 32) % 32 := by
    show (32 - bits).toNat % 32 = _
    have := bits.toNat_lt
    rw [UInt32.toNat_sub, show (32 : UInt32).toNat = 32 from rfl]
    omega
  have hbits := Nat.mod_lt bits.toNat (by omega : 0 < 32)
  apply UInt32.toBitVec_inj.mp
  show w.toBitVec <<< (bits.toBitVec % 32) ||| w.toBitVec >>> ((32 - bits).toBitVec % 32) = w.toBitVec.rotateLeft bits.toNat
  rw [BitVec.rotateLeft_def, BitVec.shiftLeft_eq', BitVec.ushiftRight_eq', hleft, hright]
  by_cases hzero : bits.toNat % 32 = 0
  · rw [hzero, Nat.sub_zero, Nat.mod_self, BitVec.shiftLeft_zero, BitVec.ushiftRight_zero,
      BitVec.ushiftRight_eq_zero le_rfl, BitVec.or_self, BitVec.or_zero]
  · rw [Nat.mod_eq_of_lt (by omega : 32 - bits.toNat % 32 < 32)]

/-- A byte shifted to its place in a word. -/
theorem toNat_shiftLeft_byte (x : Byte) {k : UInt32} (hk : k.toNat ≤ 24) :
    (x.toUInt32 <<< k).toNat = 2 ^ k.toNat * x.toNat := by
  have hlt : 2 ^ k.toNat * x.toNat < 2 ^ 32 :=
    calc 2 ^ k.toNat * x.toNat < 2 ^ k.toNat * 2 ^ 8 := Nat.mul_lt_mul_of_pos_left x.toNat_lt (Nat.two_pow_pos _)
      _ ≤ 2 ^ 24 * 2 ^ 8 := Nat.mul_le_mul_right _ (Nat.pow_le_pow_right (by omega) hk)
  rw [UInt32.toNat_shiftLeft, UInt8.toNat_toUInt32, Nat.mod_eq_of_lt (by omega : k.toNat < 32), Nat.shiftLeft_eq,
    Nat.mul_comm, Nat.mod_eq_of_lt hlt]

theorem wordLE_eq (a b c d : Byte) : wordLE a b c d = UInt32.ofNat (ofLE [a, b, c, d]) := by
  have ha := a.toNat_lt
  have hb := b.toNat_lt
  have hc := c.toNat_lt
  have hd := d.toNat_lt
  have hsum : ofLE [a, b, c, d] = 2 ^ 24 * d.toNat + 2 ^ 16 * c.toNat + 2 ^ 8 * b.toNat + a.toNat := by
    simp only [ofLE]
    omega
  apply UInt32.toNat_inj.mp
  rw [UInt32.toNat_ofNat_of_lt' (by rw [hsum, UInt32.size]; omega), hsum, wordLE, wordBE, UInt32.toNat_or,
    UInt32.toNat_or, UInt32.toNat_or, toNat_shiftLeft_byte d (by decide), toNat_shiftLeft_byte c (by decide),
    toNat_shiftLeft_byte b (by decide), UInt8.toNat_toUInt32]
  -- the bytes do not overlap, so each `|` is a sum
  show 2 ^ 24 * d.toNat ||| 2 ^ 16 * c.toNat ||| 2 ^ 8 * b.toNat ||| a.toNat = _
  rw [← Nat.two_pow_add_eq_or_of_lt (by omega),
    show 2 ^ 24 * d.toNat + 2 ^ 16 * c.toNat = 2 ^ 16 * (2 ^ 8 * d.toNat + c.toNat) by omega,
    ← Nat.two_pow_add_eq_or_of_lt (by omega),
    show 2 ^ 16 * (2 ^ 8 * d.toNat + c.toNat) + 2 ^ 8 * b.toNat =
      2 ^ 8 * (2 ^ 8 * (2 ^ 8 * d.toNat + c.toNat) + b.toNat) by omega,
    ← Nat.two_pow_add_eq_or_of_lt (by omega)]

theorem wordsOf_eq : ∀ {n : ℕ} {block : List Byte}, block.length = 4 * n →
    wordsOf wordLE block = (List.range n).map (word block)
  | 0, block, h => by
    rw [List.eq_nil_of_length_eq_zero h]
    rfl
  | n + 1, a :: b :: c :: d :: rest, h => by
    have hrest : rest.length = 4 * n := by
      simp only [List.length_cons] at h
      omega
    have hword : ∀ t, word (a :: b :: c :: d :: rest) (t + 1) = word rest t := fun t => by
      rw [word, word, show 4 * (t + 1) = 4 * t + 1 + 1 + 1 + 1 by omega]
      simp only [List.drop_succ_cons]
    rw [wordsOf, wordsOf_eq hrest, List.range_succ_eq_map, List.map_cons, List.map_map, wordLE_eq]
    exact congrArg _ (List.map_congr_left fun t _ => (hword t).symm)

/-- The loop that expands the words fills in the schedule. -/
theorem expand_eq (block : List Byte) : ∀ k j : ℕ,
    expand (fun x => circularShift x 1) k ((List.range (16 + j)).map (schedule block)).reverse =
      ((List.range (16 + j + k)).map (schedule block)).reverse
  | 0, _ => rfl
  | k + 1, j => by
    have hget : ∀ i < 16 + j, ((List.range (16 + j)).map (schedule block)).reverse.getD i 0 =
        schedule block (16 + j - 1 - i) := by
      intro i hi
      rw [List.getD_eq_getElem?_getD, List.getElem?_reverse (by simpa using hi), List.getElem?_map,
        List.getElem?_range (by simp; omega)]
      simp
    have hnext : circularShift (schedule block (16 + j - 1 - 2) ^^^ schedule block (16 + j - 1 - 7) ^^^
        schedule block (16 + j - 1 - 13) ^^^ schedule block (16 + j - 1 - 15)) 1 = schedule block (16 + j) := by
      rw [circularShift_eq, schedule.eq_def block (16 + j), if_neg (by omega), rotl, rotl,
        BitVec.rotateLeft_mod_eq_rotateLeft]
      rfl
    have hcons : schedule block (16 + j) :: ((List.range (16 + j)).map (schedule block)).reverse =
        ((List.range (16 + (j + 1))).map (schedule block)).reverse := by
      rw [← Nat.add_assoc, List.range_succ, List.map_append, List.map_singleton, List.reverse_append]
      rfl
    rw [expand, hget 2 (by omega), hget 7 (by omega), hget 13 (by omega), hget 15 (by omega), hnext, hcons,
      expand_eq block k (j + 1)]
    congr 3
    omega

/-- Twenty rounds with one function and one constant. -/
theorem foldl_round_eq {W : ℕ → UInt32} {f : UInt32 → UInt32 → UInt32 → UInt32} {k : UInt32} {l : List ℕ}
    (h : ∀ t ∈ l, roundFun t = f ∧ roundConst t = k) (s : Words) :
    (l.map W).foldl (Sha.round f k) s = l.foldl (oldRound W) s := by
  rw [List.foldl_map]
  refine List.foldl_ext _ _ _ fun s t ht => ?_
  obtain ⟨hf, hk⟩ := h t ht
  rw [Sha.round, oldRound, hf, hk, circularShift_eq, circularShift_eq]
  rfl

theorem rounds_eq (W : ℕ → UInt32) (s : Words) :
    rounds ((List.range 80).map W) s = (List.range 80).foldl (oldRound W) s := by
  have hrange : List.range 80 = List.range' 0 20 ++ (List.range' 20 20 ++ (List.range' 40 20 ++ List.range' 60 20)) := rfl
  have hin : ∀ {t a : ℕ}, t ∈ List.range' a 20 → a ≤ t ∧ t < a + 20 := fun h => List.mem_range'_1.mp h
  have h0 : ((List.range 80).map W).take 20 = (List.range' 0 20).map W := rfl
  have h20 : (((List.range 80).map W).drop 20).take 20 = (List.range' 20 20).map W := rfl
  have h40 : (((List.range 80).map W).drop 40).take 20 = (List.range' 40 20).map W := rfl
  have h60 : (((List.range 80).map W).drop 60).take 20 = (List.range' 60 20).map W := rfl
  rw [rounds, h0, h20, h40, h60, foldl_round_eq (l := List.range' 0 20), foldl_round_eq (l := List.range' 20 20),
    foldl_round_eq (l := List.range' 40 20), foldl_round_eq (l := List.range' 60 20), hrange, List.foldl_append,
    List.foldl_append, List.foldl_append]
  · intro t ht
    obtain ⟨h1, h2⟩ := hin ht
    rw [roundFun, roundConst, if_neg (by omega), if_neg (by omega), if_neg (by omega), if_neg (by omega),
      if_neg (by omega), if_neg (by omega)]
    exact ⟨rfl, rfl⟩
  · intro t ht
    obtain ⟨h1, h2⟩ := hin ht
    rw [roundFun, roundConst, if_neg (by omega), if_neg (by omega), if_pos (by omega), if_neg (by omega),
      if_neg (by omega), if_pos (by omega)]
    exact ⟨rfl, rfl⟩
  · intro t ht
    obtain ⟨h1, h2⟩ := hin ht
    rw [roundFun, roundConst, if_neg (by omega), if_pos (by omega), if_neg (by omega), if_pos (by omega)]
    exact ⟨rfl, rfl⟩
  · intro t ht
    obtain ⟨h1, h2⟩ := hin ht
    rw [roundFun, roundConst, if_pos (by omega), if_pos (by omega)]
    exact ⟨rfl, rfl⟩

/-- **The block function of the code.** -/
theorem bsha1Block_eq (h : Words) {block : List Byte} (hlen : block.length ≤ 64) :
    bsha1Block h block = oldBlock h (padded block) := by
  have hpad : (padded block).length = 4 * 16 := by
    rw [padded, List.length_append, List.length_replicate]
    omega
  have hfirst : (List.range 16).map (word (padded block)) = (List.range (16 + 0)).map (schedule (padded block)) := by
    refine List.map_congr_left fun t ht => ?_
    rw [schedule, if_pos (List.mem_range.mp ht)]
  show blockWith _ (wordsOf wordLE (padded block)) h = _
  rw [blockWith, wordsOf_eq hpad, hfirst, expand_eq, List.reverse_reverse, rounds_eq]
  rfl

theorem padded_of_full {block : List Byte} (h : block.length = 64) : padded block = block := by
  rw [padded, h]
  exact List.append_nil block

/-! ### Feeding the message -/

section Fed

variable (al : Algo)

/-- The context when the bytes `m` have been fed. -/
def fed (m : List Byte) : Context where
  hash := (fullBlocks 64 m).foldl al.process reset.hash
  lengthLow := UInt32.ofNat (8 * m.length)
  lengthHigh := UInt32.ofNat (8 * m.length / 2 ^ 32)
  block := remainder 64 m
  computed := false
  corrupted := 0

/-- The two words that count bits, with one more byte. -/
theorem bits_succ (n : ℕ) : UInt32.ofNat (8 * n) + 8 = UInt32.ofNat (8 * (n + 1)) ∧
    (if UInt32.ofNat (8 * (n + 1)) = 0 then UInt32.ofNat (8 * n / 2 ^ 32) + 1 else UInt32.ofNat (8 * n / 2 ^ 32)) =
      UInt32.ofNat (8 * (n + 1) / 2 ^ 32) := by
  have hzero : UInt32.ofNat (8 * (n + 1)) = 0 ↔ 8 * (n + 1) % 2 ^ 32 = 0 := by
    rw [← UInt32.toNat_inj, UInt32.toNat_ofNat']
    rfl
  refine ⟨by rw [Nat.mul_succ, UInt32.ofNat_add]; rfl, ?_⟩
  split_ifs with h
  · rw [hzero] at h
    rw [show (1 : UInt32) = UInt32.ofNat 1 from rfl, ← UInt32.ofNat_add]
    congr 1
    omega
  · rw [hzero] at h
    congr 1
    omega

/-- The counter does not run out. -/
theorem bits_ne_zero {n : ℕ} (hn : n + 1 < 2 ^ 61) :
    ¬ (UInt32.ofNat (8 * (n + 1)) = 0 ∧ UInt32.ofNat (8 * (n + 1) / 2 ^ 32) = 0) := by
  rintro ⟨hlow, hhigh⟩
  have hlow' := congrArg UInt32.toNat hlow
  have hhigh' := congrArg UInt32.toNat hhigh
  rw [UInt32.toNat_ofNat'] at hlow' hhigh'
  change _ = 0 at hlow' hhigh'
  omega

theorem inputByte_fed {m : List Byte} (hm : m.length + 1 < 2 ^ 61) (b : Byte) :
    inputByte al (fed al m) b = fed al (m ++ [b]) := by
  obtain ⟨hlow, hhigh⟩ := bits_succ m.length
  have hlen : (m ++ [b]).length = m.length + 1 := List.length_append
  have hcut := cut_concat (by omega : 0 < 64) m b
  unfold inputByte
  dsimp only [fed]
  rw [hlow, hhigh, if_neg (bits_ne_zero hm)]
  split_ifs at hcut ⊢ with hfull
  · rw [hcut.1, hcut.2, List.foldl_append, hlen]
    rfl
  · rw [hcut.1, hcut.2, hlen]

/-- **The context after a message**, by induction over its bytes. -/
theorem inputLoop_fed {m : List Byte} (hm : m.length < 2 ^ 61) : inputLoop al reset m = fed al m := by
  induction m using List.reverseRecOn with
  | nil => rfl
  | append_singleton m b ih =>
    rw [List.length_append, List.length_singleton] at hm
    rw [inputLoop_append, ih (by omega), inputLoop, if_neg (by simp [fed]), inputLoop, inputByte_fed al hm]

end Fed

theorem foldl_process_eq (m : List Byte) (h : Words) :
    (fullBlocks 64 m).foldl bsha1Algo.process h = (fullBlocks 64 m).foldl oldBlock h := by
  refine List.foldl_ext _ _ _ fun h block hblock => ?_
  have hfull := length_of_mem_fullBlocks hblock
  show bsha1Block h block = oldBlock h block
  rw [bsha1Block_eq h hfull.le, padded_of_full hfull]

/-- `BSHA1PadMessage`, when the message was fed. -/
theorem pad_fed (m : List Byte) : digest (bsha1Algo.pad (fed bsha1Algo m)) = oldDigest m := by
  have hrest := length_remainder_lt (by omega : 0 < 64) m
  show digest (bsha1Block _ (remainder 64 m)) = _
  rw [bsha1Block_eq _ hrest.le, oldDigest]
  exact congrArg (fun h => digest (oldBlock h _)) (foldl_process_eq m _)

theorem foldl_input_fed {ms : List (List Byte)} (hm : ms.flatten.length < 2 ^ 61) :
    ms.foldl (input bsha1Algo) reset = fed bsha1Algo ms.flatten := by
  rw [foldl_input _ ms rfl, input_eq_loop _ rfl, inputLoop_fed _ hm]

/-- **The hash of the old logon is a function of the message**: of the pieces only their concatenation counts, and the
digest is that of the definition. Asked for again it is the same, and no byte is taken after it. -/
theorem oldHash_pieces (ms : List (List Byte)) (hm : ms.flatten.length < 2 ^ 61) (out out' : Buf 20) :
    let c := ms.foldl (input bsha1Algo) reset
    let first := result bsha1Algo c out
    let second := result bsha1Algo first.1 out'
    (resultCode c = shaSuccess ∧ first.2 = oldDigest ms.flatten) ∧
      (resultCode first.1 = shaSuccess ∧ second.2 = first.2) ∧
      ∀ m, m ≠ [] → inputCode first.1 m = shaStateError ∧ inputCode second.1 m = shaStateError := by
  dsimp only
  rw [foldl_input_fed hm]
  have hfirst : result bsha1Algo (fed bsha1Algo ms.flatten) out =
      ({ fed bsha1Algo ms.flatten with
          hash := bsha1Algo.pad (fed bsha1Algo ms.flatten), block := [], lengthLow := 0, lengthHigh := 0,
          computed := true }, oldDigest ms.flatten) := by
    rw [← pad_fed]
    rfl
  rw [hfirst]
  refine ⟨⟨rfl, rfl⟩, ⟨rfl, pad_fed _⟩, fun m hne => ?_⟩
  constructor
  · rw [inputCode, if_neg hne]
    rfl
  · rw [inputCode, if_neg hne]
    rfl

theorem oldHash_pieces_abc :
    ([str "a", [], str "bc"].flatten.length < 2 ^ 61) ∧
      (result bsha1Algo ([str "a", [], str "bc"].foldl (input bsha1Algo) reset) (Buf.zero 20)).2 = oldDigest (str "abc") :=
  ⟨by decide, (oldHash_pieces [str "a", [], str "bc"] (by decide) (Buf.zero 20) (Buf.zero 20)).1.2⟩

/-- An empty piece is taken at any time. -/
theorem empty_input_after_result :
    inputCode (result bsha1Algo reset (Buf.zero 20)).1 [] = shaSuccess ∧ shaSuccess ≠ shaStateError := by
  decide

end Blitzd.Crypto.OldHash
