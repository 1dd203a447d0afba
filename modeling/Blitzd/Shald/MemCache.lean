import Mathlib.Data.Nat.Bitwise
import Blitzd.Lib.Memory

/-! # The memory pool of shald (`MemCache`)

One block of memory is cut into chunks, whose sizes are multiples of 16 bytes. A free chunk starts with the address of the
next free one and its own size, one that is in use with its size only, and the bytes behind that word are the user's. The
free chunks are linked by address.

`Alloc` takes the first free chunk that is large enough and leaves the rest of it free; `Free` puts a chunk back and merges
it with the free ones it touches. Sizes and addresses are numbers of 64 bits. The loops follow links in the memory, so they
are given as much fuel as the pool has bytes; `none` is a call that does not return. -/

namespace Blitzd.Shald

open Blitzd.Lib.Bytes Blitzd.Lib.Memory

/-! ### `size_t` -/

def add (a b : ℕ) : ℕ := (a + b) % 2 ^ 64

def sub (a b : ℕ) : ℕ := (a + 2 ^ 64 - b) % 2 ^ 64

/-- `COUNT_ALIGNED`: `(n + 15) & ~15`. -/
def countAligned (n : ℕ) : ℕ := add n 15 &&& (2 ^ 64 - 16)

theorem add_eq {a b : ℕ} (h : a + b < 2 ^ 64) : add a b = a + b := Nat.mod_eq_of_lt h

theorem sub_eq {a b : ℕ} (ha : a < 2 ^ 64) (hb : b ≤ a) : sub a b = a - b := by
  unfold sub
  omega

/-- The mask clears the four lowest bits. -/
theorem land_mask {x : ℕ} (hx : x < 2 ^ 64) : x &&& (2 ^ 64 - 16) = x / 16 * 16 := by
  have hmask : (2 ^ 64 - 16 : ℕ) = (2 ^ 60 - 1) <<< 4 := by decide
  have hshift : x / 16 * 16 = (x >>> 4) <<< 4 := by rw [Nat.shiftLeft_eq, Nat.shiftRight_eq_div_pow]
  rw [hmask, hshift]
  refine Nat.eq_of_testBit_eq fun i => ?_
  rw [Nat.testBit_land, Nat.testBit_shiftLeft, Nat.testBit_shiftLeft, Nat.testBit_shiftRight, Nat.testBit_two_pow_sub_one]
  by_cases hi : 4 ≤ i
  · have hadd : 4 + (i - 4) = i := by omega
    rw [hadd]
    by_cases hlt : i - 4 < 60
    · simp [hi, hlt]
    · have hbit : x.testBit i = false :=
        Nat.testBit_lt_two_pow (lt_of_lt_of_le hx (Nat.pow_le_pow_right (by omega) (by omega)))
      simp [hbit]
  · simp [hi]

/-- The next multiple of 16. -/
theorem countAligned_eq {n : ℕ} (h : n + 15 < 2 ^ 64) : countAligned n = (n + 15) / 16 * 16 := by
  rw [countAligned, add_eq h, land_mask h]

theorem dvd_countAligned (n : ℕ) : 16 ∣ countAligned n := by
  have hlt : add n 15 < 2 ^ 64 := Nat.mod_lt _ (by decide)
  rw [countAligned, land_mask hlt]
  exact dvd_mul_left 16 _

/-! ### Chunks -/

structure MemCache where
  mem : Mem
  memBase : ℕ
  size : ℕ
  firstFree : ℕ

namespace MemCache

def chunkUsed (s : MemCache) (c : ℕ) : ℕ := load 8 s.mem c

def chunkNext (s : MemCache) (c : ℕ) : ℕ := load 8 s.mem c

def chunkSize (s : MemCache) (c : ℕ) : ℕ := load 8 s.mem (c + 8)

def setUsed (s : MemCache) (c v : ℕ) : MemCache := { s with mem := store 8 s.mem c v }

def setNext (s : MemCache) (c v : ℕ) : MemCache := { s with mem := store 8 s.mem c v }

def setSize (s : MemCache) (c v : ℕ) : MemCache := { s with mem := store 8 s.mem (c + 8) v }

/-- `Init`, with the memory it gets at `base`; `none` for `false`. -/
def init (mem : Mem) (base memsize : ℕ) : Option MemCache :=
  let memsize := countAligned memsize
  if memsize = 0 then none
  else if base = 0 then none
  else
    let s : MemCache := ⟨mem, base, memsize, base⟩
    some ((s.setNext base 0).setSize base memsize)

/-! ### `Alloc` -/

/-- What points to a chunk: `_first_free`, or the chunk before it. -/
def setLink (s : MemCache) (c v : ℕ) : MemCache := if c = 0 then { s with firstFree := v } else s.setNext c v

/-- The chunk at `next` is taken, behind `this`. -/
def carve (s : MemCache) (memsize this next : ℕ) : MemCache :=
  let size := s.chunkSize next
  let nnext := s.chunkNext next
  let s :=
    if size = memsize then s.setLink this nnext
    else
      ((s.setLink this (add next memsize)).setNext (add next memsize) nnext).setSize (add next memsize) (sub size memsize)
  s.setUsed next memsize

def allocLoop (s : MemCache) (memsize : ℕ) : ℕ → ℕ → ℕ → Option (ℕ × MemCache)
  | 0, _, _ => none
  | fuel + 1, this, next =>
    if next = 0 then some (0, s)
    else if memsize ≤ s.chunkSize next then some (add next 8, s.carve memsize this next)
    else allocLoop s memsize fuel next (s.chunkNext next)

/-- `Alloc`; 0 is `NULL`. -/
def alloc (s : MemCache) (memsize : ℕ) : Option (ℕ × MemCache) :=
  if memsize = 0 then some (0, s)
  else s.allocLoop (countAligned (add memsize 8)) (s.size + 1) 0 s.firstFree

/-! ### `Free` -/

/-- The free chunks on both sides of `this`. -/
def freeLoop (s : MemCache) (this : ℕ) : ℕ → ℕ → ℕ → Option (ℕ × ℕ)
  | 0, _, _ => none
  | fuel + 1, prev, next =>
    if 0 < next ∧ next < this then freeLoop s this fuel next (s.chunkNext next) else some (prev, next)

/-- The chunk `c` gets its size, and the one behind it is merged if it touches. -/
def settle (s : MemCache) (c size next : ℕ) (touches : Bool) : MemCache :=
  if touches then
    let s := s.setNext c (s.chunkNext next)
    s.setSize c (add size (s.chunkSize next))
  else
    let s := s.setNext c next
    s.setSize c size

def free (s : MemCache) (ptr : ℕ) : Option MemCache :=
  let this := sub ptr 8
  match s.freeLoop this (s.size + 1) 0 s.firstFree with
  | none => none
  | some (prev, next) =>
    let thisSize := s.chunkUsed this
    let touches := decide (add this thisSize = next)
    if prev = 0 then some (settle { s with firstFree := this } this thisSize next touches)
    else
      let prevSize := s.chunkSize prev
      if add prev prevSize = this then some (s.settle prev (add prevSize thisSize) next touches)
      else some (settle (s.setNext prev this) this thisSize next touches)

/-- The loop of `PrintDebugInfo`: addresses and sizes of the free chunks. -/
def walk (s : MemCache) : ℕ → ℕ → Option (List (ℕ × ℕ))
  | 0, _ => none
  | fuel + 1, chunk =>
    if chunk = 0 then some [] else (s.walk fuel (s.chunkNext chunk)).map ((chunk, s.chunkSize chunk) :: ·)

end MemCache

end Blitzd.Shald
