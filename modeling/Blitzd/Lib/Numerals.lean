import Blitzd.Lib.Bytes

/-! # Numbers and bytes written as text

Decimal numbers (`decimal`) and bytes as two upper-case hexadecimal digits (`hex`), with the readers
that stop at the first byte that does not belong to them, and the round trips `readDigits_decimal`,
`readHex_hex`. -/

namespace Blitzd.Lib.Numerals

open Blitzd.Lib.Bytes

/-! ### Decimal -/

/-- The digit `d < 10`. -/
def digit (d : ℕ) : Byte := UInt8.ofNat (48 + d)

def isDigit (c : Byte) : Bool := 48 ≤ c ∧ c ≤ 57

/-- The digits of `n` in front of `acc`; `k` bounds their number. -/
def decAux : ℕ → ℕ → Text → Text
  | 0, _, acc => acc
  | k + 1, n, acc =>
    if n < 10 then digit n :: acc else decAux k (n / 10) (digit (n % 10) :: acc)

/-- A number in decimal. -/
def decimal (n : ℕ) : Text := decAux (n + 1) n []

/-- The number the digits at the front continue, and what follows them. -/
def readDigits : ℕ → Text → ℕ × Text
  | acc, c :: t => if isDigit c then readDigits (10 * acc + (c.toNat - 48)) t else (acc, c :: t)
  | acc, [] => (acc, [])

theorem isDigit_digit {d : ℕ} (h : d < 10) : isDigit (digit d) = true := by
  have : ∀ d < 10, isDigit (digit d) = true := by decide
  exact this d h

theorem toNat_digit {d : ℕ} (h : d < 10) : (digit d).toNat - 48 = d := by
  have : ∀ d < 10, (digit d).toNat - 48 = d := by decide
  exact this d h

theorem readDigits_digit {d : ℕ} (h : d < 10) (acc : ℕ) (t : Text) :
    readDigits acc (digit d :: t) = readDigits (10 * acc + d) t := by
  rw [readDigits, if_pos (isDigit_digit h), toNat_digit h]

/-- Reading the digits of `n` from nothing gives `n`, whatever follows. -/
theorem readDigits_decAux : ∀ (k n : ℕ) (t : Text), n < 10 ^ k →
    readDigits 0 (decAux k n t) = readDigits n t
  | 0, n, t, h => by
    have : n = 0 := by rw [pow_zero] at h; omega
    subst this; rfl
  | k + 1, n, t, h => by
    rw [decAux]
    split_ifs with h10
    · rw [readDigits_digit h10, Nat.mul_zero, Nat.zero_add]
    · have hk : n / 10 < 10 ^ k := by rw [pow_succ] at h; omega
      rw [readDigits_decAux k _ _ hk, readDigits_digit (by omega),
        show 10 * (n / 10) + n % 10 = n by omega]

theorem decAux_append : ∀ (k n : ℕ) (t u : Text), decAux k n t ++ u = decAux k n (t ++ u)
  | 0, _, _, _ => rfl
  | k + 1, n, t, u => by
    rw [decAux, decAux]
    split_ifs
    · rfl
    · rw [decAux_append k]; rfl

/-- **A decimal number is read back**, up to the first byte after it that is no digit. -/
theorem readDigits_decimal (n : ℕ) {t : Text} (h : ∀ c ∈ t.head?, isDigit c = false) :
    readDigits 0 (decimal n ++ t) = (n, t) := by
  have hn : n < 10 ^ (n + 1) := (Nat.lt_pow_self (by norm_num)).trans
    (Nat.pow_lt_pow_right (by norm_num) (by omega))
  rw [decimal, decAux_append, List.nil_append, readDigits_decAux _ _ _ hn]
  rcases t with _ | ⟨c, t⟩
  · rfl
  · rw [readDigits, if_neg (by simp [h c (by simp)])]

theorem decAux_head : ∀ (k n : ℕ) (t : Text), ∃ d u, d < 10 ∧ decAux (k + 1) n t = digit d :: u
  | 0, n, t => by
    rw [decAux]
    split_ifs with h
    · exact ⟨n, t, h, rfl⟩
    · exact ⟨n % 10, t, by omega, rfl⟩
  | k + 1, n, t => by
    rw [decAux]
    split_ifs with h
    · exact ⟨n, t, h, rfl⟩
    · exact decAux_head k _ _

/-- A decimal number starts with a digit. -/
theorem decimal_head (n : ℕ) : ∃ c u, isDigit c = true ∧ decimal n = c :: u := by
  obtain ⟨d, u, hd, h⟩ := decAux_head n n []
  exact ⟨digit d, u, isDigit_digit hd, h⟩

theorem isDigit_of_mem_decAux {c : Byte} : ∀ {k n : ℕ} {t : Text}, c ∈ decAux k n t →
    c ∈ t ∨ isDigit c = true
  | 0, _, _, h => Or.inl h
  | k + 1, n, t, h => by
    rw [decAux] at h
    split_ifs at h with h10
    · rcases List.mem_cons.mp h with rfl | h
      · exact Or.inr (isDigit_digit h10)
      · exact Or.inl h
    · rcases isDigit_of_mem_decAux h with h | h
      · rcases List.mem_cons.mp h with rfl | h
        · exact Or.inr (isDigit_digit (by omega))
        · exact Or.inl h
      · exact Or.inr h

theorem isDigit_of_mem_decimal {c : Byte} {n : ℕ} (h : c ∈ decimal n) : isDigit c = true := by
  rcases isDigit_of_mem_decAux h with h | h
  · cases h
  · exact h

theorem length_decAux : ∀ (k n d : ℕ) (t : Text), n < 10 ^ d → 0 < d →
    (decAux k n t).length ≤ d + t.length
  | 0, _, _, t, _, _ => by rw [decAux]; omega
  | k + 1, n, d, t, hn, hd => by
    rw [decAux]
    split_ifs with h
    · rw [List.length_cons]; omega
    · obtain ⟨e, rfl⟩ : ∃ e, d = e + 1 := ⟨d - 1, by omega⟩
      have he : 0 < e := by
        by_contra h0
        have : e = 0 := by omega
        subst this
        rw [Nat.zero_add, pow_one] at hn
        omega
      have hlt : n / 10 < 10 ^ e := by rw [pow_succ] at hn; omega
      have := length_decAux k (n / 10) e (digit (n % 10) :: t) hlt he
      rw [List.length_cons] at this
      omega

theorem length_decimal {n d : ℕ} (hn : n < 10 ^ d) (hd : 0 < d) : (decimal n).length ≤ d :=
  length_decAux _ n d [] hn hd

/-! ### Hexadecimal -/

/-- The digit `d < 16`. -/
def hexDigit (d : ℕ) : Byte := UInt8.ofNat (if d < 10 then 48 + d else 55 + d)

/-- A byte as two digits. -/
def hexByte (b : Byte) : Text := [hexDigit (b.toNat / 16), hexDigit (b.toNat % 16)]

/-- Bytes as digits. -/
def hex (l : List Byte) : Text := l.flatMap hexByte

/-- The value of a digit, of either case. -/
def hexVal (c : Byte) : Option ℕ :=
  if 48 ≤ c ∧ c ≤ 57 then some (c.toNat - 48)
  else if 65 ≤ c ∧ c ≤ 70 then some (c.toNat - 55)
  else if 97 ≤ c ∧ c ≤ 102 then some (c.toNat - 87)
  else none

/-- The bytes up to the closing byte `q`, and what follows it; `none` if they are not pairs of
digits. -/
def readHex (q : Byte) : Text → Option (List Byte × Text)
  | [] => none
  | [c] => if c = q then some ([], []) else none
  | c :: d :: t =>
    if c = q then some ([], d :: t)
    else match hexVal c, hexVal d with
      | some x, some y => (readHex q t).map fun r => (UInt8.ofNat (16 * x + y) :: r.1, r.2)
      | _, _ => none

theorem hexVal_hexDigit {d : ℕ} (h : d < 16) : hexVal (hexDigit d) = some d := by
  have : ∀ d < 16, hexVal (hexDigit d) = some d := by decide
  exact this d h

theorem hexVal_of_mem_hex {c : Byte} {l : List Byte} (h : c ∈ hex l) : hexVal c ≠ none := by
  obtain ⟨b, -, hc⟩ := List.mem_flatMap.mp h
  have hb := b.toNat_lt
  simp only [hexByte, List.mem_cons, List.not_mem_nil, or_false] at hc
  rcases hc with rfl | rfl
  · rw [hexVal_hexDigit (by omega)]; simp
  · rw [hexVal_hexDigit (by omega)]; simp

theorem length_hex : ∀ l : List Byte, (hex l).length = 2 * l.length
  | [] => rfl
  | b :: l => by
    have : hex (b :: l) = hexByte b ++ hex l := rfl
    rw [this, List.length_append, length_hex l, List.length_cons]
    show 2 + _ = _
    omega

/-- **Hexadecimal bytes are read back** up to a closing byte that is no digit. -/
theorem readHex_hex {q : Byte} (hq : hexVal q = none) (t : Text) :
    ∀ l : List Byte, readHex q (hex l ++ q :: t) = some (l, t)
  | [] => by
    rcases t with _ | ⟨c, t⟩ <;> simp [hex, readHex]
  | b :: l => by
    have hb := b.toNat_lt
    have hne : hexDigit (b.toNat / 16) ≠ q := fun h => by
      have := hexVal_hexDigit (d := b.toNat / 16) (by omega)
      rw [h, hq] at this
      cases this
    have hcons : hex (b :: l) ++ q :: t = hexDigit (b.toNat / 16) :: hexDigit (b.toNat % 16) ::
        (hex l ++ q :: t) := by simp [hex, hexByte]
    rw [hcons, readHex, if_neg hne, hexVal_hexDigit (by omega), hexVal_hexDigit (by omega)]
    simp only [readHex_hex hq t l, Option.map_some]
    rw [show 16 * (b.toNat / 16) + b.toNat % 16 = b.toNat by omega, UInt8.ofNat_toNat]

end Blitzd.Lib.Numerals
