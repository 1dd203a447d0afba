import Mathlib.Data.Nat.Log
import Mathlib.Tactic.Ring
import Mathlib.Tactic.NormNum

/-! # Bytes: strings, fixed-size buffers and little-endian numbers

A string is the list of its bytes. A buffer of `n` bytes (`Buf n`) carries its size; `fill` copies
bytes to its front and keeps what the buffer held behind them, so a buffer that is only partly
written still shows its old content.

`toLE w n` are the `w` low bytes of `n`, least significant first, `ofLE` reads them back, and
`sigLE n` are the significant bytes only (none for `0`). A buffer of `w` bytes filled with `sigLE n`
is `toLE w n` whatever it held when `n` needs all `w` bytes (`fill_sigLE_of_full`), and otherwise
shows what it held (`fill_sigLE_ne`); a zeroed buffer always is (`fill_zero_sigLE`). -/

namespace Blitzd.Lib.Bytes

abbrev Byte := UInt8

/-- A byte string. -/
abbrev Text := List Byte

/-- The bytes of an ASCII literal. -/
def str (s : String) : Text := s.toList.map fun c => UInt8.ofNat c.toNat

/-! ### Buffers -/

/-- A buffer of `n` bytes. -/
structure Buf (n : ℕ) where
  bytes : List Byte
  len : bytes.length = n
deriving DecidableEq

namespace Buf

variable {n : ℕ}

@[ext] theorem ext {a b : Buf n} (h : a.bytes = b.bytes) : a = b := by
  cases a; cases b; cases h; rfl

@[simp] theorem length_bytes (a : Buf n) : a.bytes.length = n := a.len

/-- The zeroed buffer. -/
def zero (n : ℕ) : Buf n := ⟨List.replicate n 0, List.length_replicate⟩

/-- The buffer with every byte `x`. -/
def const (n : ℕ) (x : Byte) : Buf n := ⟨List.replicate n x, List.length_replicate⟩

instance : Inhabited (Buf n) := ⟨zero n⟩

/-- The bytes `l` copied to the front of the buffer; bytes past its end are cut off. -/
def fill (a : Buf n) (l : List Byte) : Buf n where
  bytes := (l ++ a.bytes.drop l.length).take n
  len := by simp only [List.length_take, List.length_append, List.length_drop, a.len]; omega

theorem fill_bytes_of_le (a : Buf n) {l : List Byte} (h : l.length ≤ n) :
    (a.fill l).bytes = l ++ a.bytes.drop l.length := by
  refine List.take_of_length_le ?_
  simp only [List.length_append, List.length_drop, a.len]; omega

/-- A full copy leaves nothing of the old content. -/
theorem fill_bytes_of_ge (a : Buf n) {l : List Byte} (h : n ≤ l.length) :
    (a.fill l).bytes = l.take n := List.take_append_of_le_length h

theorem fill_eq_of_ge (a b : Buf n) {l : List Byte} (h : n ≤ l.length) : a.fill l = b.fill l := by
  ext1; rw [fill_bytes_of_ge a h, fill_bytes_of_ge b h]

/-- A copy that ends early leaves the old content to be seen. -/
theorem const_fill_ne {l : List Byte} (hl : l.length < n) {x y : Byte} (hxy : x ≠ y) :
    (const n x).fill l ≠ (const n y).fill l := by
  intro h
  have h' := congrArg bytes h
  rw [fill_bytes_of_le _ hl.le, fill_bytes_of_le _ hl.le] at h'
  have h2 := List.append_cancel_left h'
  simp only [const, List.drop_replicate] at h2
  obtain ⟨k, hk⟩ : ∃ k, n - l.length = k + 1 := ⟨n - l.length - 1, by omega⟩
  rw [hk, List.replicate_succ, List.replicate_succ, List.cons.injEq] at h2
  exact hxy h2.1

end Buf

/-! ### Little-endian numbers -/

/-- The `w` low bytes of `n`, least significant first. -/
def toLE : ℕ → ℕ → List Byte
  | 0, _ => []
  | w + 1, n => UInt8.ofNat (n % 256) :: toLE w (n / 256)

/-- The number with the given little-endian bytes. -/
def ofLE : List Byte → ℕ
  | [] => 0
  | b :: bs => b.toNat + 256 * ofLE bs

@[simp] theorem length_toLE : ∀ w n, (toLE w n).length = w
  | 0, _ => rfl
  | w + 1, n => by rw [toLE, List.length_cons, length_toLE w]

theorem ofLE_lt : ∀ l : List Byte, ofLE l < 256 ^ l.length
  | [] => by simp [ofLE]
  | b :: bs => by
    have hb := b.toNat_lt
    have ih := ofLE_lt bs
    rw [ofLE, List.length_cons, pow_succ]
    omega

theorem ofLE_toLE : ∀ w n, ofLE (toLE w n) = n % 256 ^ w
  | 0, n => by simp [toLE, ofLE, Nat.mod_one]
  | w + 1, n => by
    have hb : (UInt8.ofNat (n % 256)).toNat = n % 256 := by
      rw [UInt8.toNat_ofNat']; omega
    rw [toLE, ofLE, hb, ofLE_toLE w, pow_succ', Nat.mod_mul]

theorem ofLE_toLE_of_lt {w n : ℕ} (h : n < 256 ^ w) : ofLE (toLE w n) = n := by
  rw [ofLE_toLE, Nat.mod_eq_of_lt h]

theorem toLE_ofLE : ∀ l : List Byte, toLE l.length (ofLE l) = l
  | [] => rfl
  | b :: bs => by
    have hb := b.toNat_lt
    have hmod : (b.toNat + 256 * ofLE bs) % 256 = b.toNat := by omega
    have hdiv : (b.toNat + 256 * ofLE bs) / 256 = ofLE bs := by omega
    rw [List.length_cons, toLE, ofLE, hmod, hdiv, toLE_ofLE bs, UInt8.ofNat_toNat]

theorem toLE_zero : ∀ w, toLE w 0 = List.replicate w 0
  | 0 => rfl
  | w + 1 => by rw [toLE, Nat.zero_div, toLE_zero w]; rfl

/-- Bytes past the significant ones are zero. -/
theorem toLE_add : ∀ {k : ℕ} (j : ℕ) {n : ℕ}, n < 256 ^ k →
    toLE (k + j) n = toLE k n ++ List.replicate j 0
  | 0, j, n, h => by
    have : n = 0 := by rw [pow_zero] at h; omega
    subst this
    rw [Nat.zero_add, toLE_zero]; rfl
  | k + 1, j, n, h => by
    have h' : n / 256 < 256 ^ k := by rw [pow_succ] at h; omega
    rw [Nat.add_right_comm, toLE, toLE, toLE_add j h', List.cons_append]

/-- The number of significant bytes. -/
def byteLen (n : ℕ) : ℕ := if n = 0 then 0 else Nat.log2 n / 8 + 1

/-- The significant bytes, least significant first. -/
def sigLE (n : ℕ) : List Byte := toLE (byteLen n) n

theorem byteLen_le_iff {n w : ℕ} : byteLen n ≤ w ↔ n < 256 ^ w := by
  have h256 : (256 : ℕ) ^ w = 2 ^ (8 * w) := by rw [pow_mul]; norm_num
  unfold byteLen
  split_ifs with h
  · subst h; simp
  · rw [h256, ← Nat.log2_lt h]; omega

theorem lt_pow_byteLen (n : ℕ) : n < 256 ^ byteLen n := byteLen_le_iff.mp le_rfl

@[simp] theorem length_sigLE (n : ℕ) : (sigLE n).length = byteLen n := length_toLE _ _

theorem toLE_eq_sigLE {w n : ℕ} (h : n < 256 ^ w) :
    toLE w n = sigLE n ++ List.replicate (w - byteLen n) 0 := by
  have hle := byteLen_le_iff.mpr h
  rw [sigLE, ← toLE_add (w - byteLen n) (lt_pow_byteLen n), Nat.add_sub_cancel' hle]

/-- The little-endian buffer of `n`. -/
def leBuf (w n : ℕ) : Buf w := ⟨toLE w n, length_toLE w n⟩

/-- A zeroed buffer filled with the significant bytes is the padded encoding. -/
theorem fill_zero_sigLE {w n : ℕ} (h : n < 256 ^ w) : (Buf.zero w).fill (sigLE n) = leBuf w n := by
  ext1
  rw [Buf.fill_bytes_of_le _ (by rw [length_sigLE]; exact byteLen_le_iff.mpr h)]
  show sigLE n ++ (List.replicate w 0).drop _ = toLE w n
  rw [toLE_eq_sigLE h, length_sigLE, List.drop_replicate]

/-- The significant bytes fill the buffer when `n` needs them all. -/
theorem fill_sigLE_of_full {w n : ℕ} (h : n < 256 ^ w) (hw : w ≤ byteLen n) (a : Buf w) :
    a.fill (sigLE n) = leBuf w n := by
  rw [← fill_zero_sigLE h]
  exact Buf.fill_eq_of_ge _ _ (by rw [length_sigLE]; exact hw)

/-- When a byte is missing, the old content shows through: no two different constant buffers give
the same result. -/
theorem fill_sigLE_ne {w n : ℕ} (hw : byteLen n < w) {x y : Byte} (hxy : x ≠ y) :
    (Buf.const w x).fill (sigLE n) ≠ (Buf.const w y).fill (sigLE n) :=
  Buf.const_fill_ne (by rwa [length_sigLE]) hxy

end Blitzd.Lib.Bytes
