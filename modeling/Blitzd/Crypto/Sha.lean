import Blitzd.Lib.Bytes

/-! # SHA-1 and the broken SHA-1 of the old logon

`SHA1Hash.cpp` and `BSHA1Hash.cpp` are one program with two block functions and two paddings:
`Reset`, `Input` and `Result` are the same code. They are written once here, over an `Algo`.

* The block kept in a context is the list of its first `Message_Block_Index` bytes; what the array
  holds behind them is never read.
* `sha1` pads as SHA-1 does. `bsha1` processes the last block unpadded, reads its words little-endian
  and expands them with the two arguments of the rotation exchanged.
* The shift amounts of the exchanged rotation can be 32 or more; they are taken modulo 32, as the
  machine does. -/

namespace Blitzd.Crypto.Sha

open Blitzd.Lib.Bytes

/-! ### The block functions -/

/-- `Intermediate_Hash`. -/
structure Words where
  A : UInt32
  B : UInt32
  C : UInt32
  D : UInt32
  E : UInt32
deriving DecidableEq

/-- `SHA1CircularShift(bits, word)`. -/
def circularShift (bits word : UInt32) : UInt32 := (word <<< bits) ||| (word >>> (32 - bits))

/-- One round: `f` is the round's function of `B`, `C`, `D`, `k` its constant. -/
def round (f : UInt32 → UInt32 → UInt32 → UInt32) (k : UInt32) (s : Words) (w : UInt32) : Words where
  A := circularShift 5 s.A + f s.B s.C s.D + s.E + w + k
  B := s.A
  C := circularShift 30 s.B
  D := s.C
  E := s.D

def choose (b c d : UInt32) : UInt32 := (b &&& c) ||| ((~~~ b) &&& d)

def parity (b c d : UInt32) : UInt32 := b ^^^ c ^^^ d

def majority (b c d : UInt32) : UInt32 := (b &&& c) ||| (b &&& d) ||| (c &&& d)

/-- The four loops of 20 rounds over the words `W[0..80)`. -/
def rounds (W : List UInt32) (s : Words) : Words :=
  let s := (W.take 20).foldl (round choose 0x5A827999) s
  let s := ((W.drop 20).take 20).foldl (round parity 0x6ED9EBA1) s
  let s := ((W.drop 40).take 20).foldl (round majority 0x8F1BBCDC) s
  ((W.drop 60).take 20).foldl (round parity 0xCA62C1D6) s

/-- The loop `t = 16 .. 79`: the words are kept last first, so that `W[t-3]` is entry 2. -/
def expand (mix : UInt32 → UInt32) : ℕ → List UInt32 → List UInt32
  | 0, W => W
  | t + 1, W => expand mix t
      (mix (W.getD 2 0 ^^^ W.getD 7 0 ^^^ W.getD 13 0 ^^^ W.getD 15 0) :: W)

def addWords (h s : Words) : Words := ⟨h.A + s.A, h.B + s.B, h.C + s.C, h.D + s.D, h.E + s.E⟩

/-- The block function over the first 16 words and the expansion step. -/
def blockWith (mix : UInt32 → UInt32) (W : List UInt32) (h : Words) : Words :=
  addWords h (rounds (expand mix 64 W.reverse).reverse h)

def wordBE (a b c d : Byte) : UInt32 :=
  (a.toUInt32 <<< 24) ||| (b.toUInt32 <<< 16) ||| (c.toUInt32 <<< 8) ||| d.toUInt32

def wordLE (a b c d : Byte) : UInt32 := wordBE d c b a

/-- The words of a block of bytes. -/
def wordsOf (word : Byte → Byte → Byte → Byte → UInt32) : List Byte → List UInt32
  | a :: b :: c :: d :: rest => word a b c d :: wordsOf word rest
  | _ => []

/-- `SHA1ProcessMessageBlock`, of a full block. -/
def sha1Block (h : Words) (block : List Byte) : Words :=
  blockWith (circularShift 1) (wordsOf wordBE block) h

/-- `BSHA1ProcessMessageBlock`: the first `Message_Block_Index` bytes copied over zeroed words. -/
def bsha1Block (h : Words) (block : List Byte) : Words :=
  blockWith (fun x => circularShift x 1)
    (wordsOf wordLE (block ++ List.replicate (64 - block.length) 0)) h

/-! ### The contexts -/

structure Context where
  hash : Words
  lengthLow : UInt32
  lengthHigh : UInt32
  block : List Byte
  computed : Bool
  corrupted : ℕ
deriving DecidableEq

/-- What `SHA1` and `BSHA1` do differently: the block function, and `PadMessage`, which gives the
final hash. -/
structure Algo where
  process : Words → List Byte → Words
  pad : Context → Words

def reset : Context where
  hash := ⟨0x67452301, 0xEFCDAB89, 0x98BADCFE, 0x10325476, 0xC3D2E1F0⟩
  lengthLow := 0
  lengthHigh := 0
  block := []
  computed := false
  corrupted := 0

/-- `shaStateError`. -/
def shaStateError : ℕ := 3

/-- One pass of the loop of `Input`. -/
def inputByte (al : Algo) (c : Context) (b : Byte) : Context :=
  let low := c.lengthLow + 8
  let high := if low = 0 then c.lengthHigh + 1 else c.lengthHigh
  let corrupted := if low = 0 ∧ high = 0 then 1 else c.corrupted
  let block := c.block ++ [b]
  if block.length = 64 then
    { c with hash := al.process c.hash block, lengthLow := low, lengthHigh := high,
             corrupted := corrupted, block := [] }
  else
    { c with lengthLow := low, lengthHigh := high, corrupted := corrupted, block := block }

/-- The loop of `Input`: it stops when the context is corrupted. -/
def inputLoop (al : Algo) : Context → List Byte → Context
  | c, [] => c
  | c, b :: bs => if c.corrupted ≠ 0 then c else inputLoop al (inputByte al c b) bs

/-- `SHA1Input`, `BSHA1Input`. -/
def input (al : Algo) (c : Context) (m : List Byte) : Context :=
  if m = [] then c
  else if c.computed then { c with corrupted := shaStateError }
  else if c.corrupted ≠ 0 then c
  else inputLoop al c m

def bytesBE (w : UInt32) : List Byte :=
  [(w >>> 24).toUInt8, (w >>> 16).toUInt8, (w >>> 8).toUInt8, w.toUInt8]

/-- `Message_Digest`, from the intermediate hash. -/
def digest (h : Words) : Buf 20 where
  bytes := bytesBE h.A ++ bytesBE h.B ++ bytesBE h.C ++ bytesBE h.D ++ bytesBE h.E
  len := rfl

/-- `SHA1Result`, `BSHA1Result`: the context after it, and the digest array, which is not written
when the context is corrupted. -/
def result (al : Algo) (c : Context) (out : Buf 20) : Context × Buf 20 :=
  if c.corrupted ≠ 0 then (c, out)
  else if c.computed then (c, digest c.hash)
  else
    let h := al.pad c
    ({ c with hash := h, block := [], lengthLow := 0, lengthHigh := 0, computed := true }, digest h)

/-- The digest of a message fed in pieces to a fresh context. -/
def hashPieces (al : Algo) (ms : List (List Byte)) : Buf 20 :=
  (result al (ms.foldl (input al) reset) (Buf.zero 20)).2

/-! ### The two algorithms -/

/-- `SHA1PadMessage`. -/
def sha1Pad (c : Context) : Words :=
  let tail := bytesBE c.lengthHigh ++ bytesBE c.lengthLow
  if c.block.length > 55 then
    sha1Block (sha1Block c.hash (c.block ++ 0x80 :: List.replicate (63 - c.block.length) 0))
      (List.replicate 56 0 ++ tail)
  else
    sha1Block c.hash (c.block ++ 0x80 :: List.replicate (55 - c.block.length) 0 ++ tail)

def sha1Algo : Algo := ⟨sha1Block, sha1Pad⟩

/-- `BSHA1PadMessage` processes the last block as it is. -/
def bsha1Algo : Algo := ⟨bsha1Block, fun c => bsha1Block c.hash c.block⟩

/-- SHA-1 of a message fed in pieces. -/
def sha1 : List (List Byte) → Buf 20 := hashPieces sha1Algo

/-- The broken SHA-1 of a message fed in pieces. -/
def bsha1 : List (List Byte) → Buf 20 := hashPieces bsha1Algo

/-! ### Feeding a message in pieces -/

variable (al : Algo)

theorem inputByte_computed (c : Context) (b : Byte) :
    (inputByte al c b).computed = c.computed := by
  unfold inputByte; dsimp only; split_ifs <;> rfl

theorem inputLoop_computed : ∀ (m : List Byte) (c : Context),
    (inputLoop al c m).computed = c.computed
  | [], _ => rfl
  | b :: m, c => by
    unfold inputLoop
    split_ifs
    · rfl
    · rw [inputLoop_computed m, inputByte_computed]

theorem input_computed {c : Context} (hc : c.computed = false) (m : List Byte) :
    (input al c m).computed = false := by
  unfold input
  split_ifs <;> simp_all [inputLoop_computed]

/-- On a context whose digest was not taken, `Input` is its loop. -/
theorem input_eq_loop {c : Context} (hc : c.computed = false) (m : List Byte) :
    input al c m = inputLoop al c m := by
  unfold input
  rw [hc]
  cases m with
  | nil => simp [inputLoop]
  | cons b m =>
    by_cases h : c.corrupted = 0
    · simp [h]
    · simp [inputLoop, h]

theorem inputLoop_append : ∀ (x y : List Byte) (c : Context),
    inputLoop al c (x ++ y) = inputLoop al (inputLoop al c x) y
  | [], _, _ => rfl
  | b :: x, y, c => by
    rw [List.cons_append, inputLoop, inputLoop]
    split_ifs with h
    · cases y with
      | nil => rfl
      | cons b' y => rw [inputLoop, if_pos h]
    · exact inputLoop_append x y _

theorem foldl_input : ∀ (ms : List (List Byte)) {c : Context}, c.computed = false →
    ms.foldl (input al) c = input al c ms.flatten
  | [], c, _ => by simp [input]
  | m :: ms, c, hc => by
    have hm := input_computed al hc m
    rw [List.foldl_cons, foldl_input ms hm, List.flatten_cons, input_eq_loop al hm,
      input_eq_loop al hc, input_eq_loop al hc, inputLoop_append]

/-- **The pieces do not matter**: only their concatenation is hashed. -/
theorem hashPieces_flatten (ms : List (List Byte)) :
    hashPieces al ms = hashPieces al [ms.flatten] := by
  unfold hashPieces
  rw [foldl_input al ms rfl, List.foldl_cons, List.foldl_nil]

end Blitzd.Crypto.Sha
