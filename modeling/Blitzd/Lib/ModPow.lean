import Mathlib.Data.Nat.ModEq
import Mathlib.Tactic.Ring

/-! # Modular exponentiation by squaring

`powm b e m` is `b ^ e % m` (`powm_eq`), computed with one squaring per bit of the exponent, so that
it can be evaluated at exponents of any size. -/

namespace Blitzd.Lib.ModPow

/-- `b ^ e % m` for an exponent of at most `k` bits. -/
def powAux (m : ℕ) : ℕ → ℕ → ℕ → ℕ
  | 0, _, _ => 1 % m
  | k + 1, b, e =>
    if e % 2 = 0 then powAux m k (b * b % m) (e / 2)
    else b * powAux m k (b * b % m) (e / 2) % m

/-- Modular exponentiation. -/
def powm (b e m : ℕ) : ℕ := powAux m (Nat.log2 e + 1) b e

theorem sq_pow_mod (b e m : ℕ) : (b * b % m) ^ e % m = b ^ (2 * e) % m := by
  rw [← Nat.pow_mod, pow_mul, pow_two]

theorem powAux_eq (m : ℕ) : ∀ (k b e : ℕ), e < 2 ^ k → powAux m k b e = b ^ e % m
  | 0, b, e, h => by
    have : e = 0 := by rw [pow_zero] at h; omega
    subst this; rfl
  | k + 1, b, e, h => by
    have hk : e / 2 < 2 ^ k := by rw [pow_succ] at h; omega
    unfold powAux
    rw [powAux_eq m k _ _ hk, sq_pow_mod]
    split_ifs with he
    · rw [show 2 * (e / 2) = e by omega]
    · conv_rhs => rw [show e = 2 * (e / 2) + 1 by omega, pow_succ, Nat.mul_comm]
      rw [Nat.mul_mod, Nat.mod_mod, ← Nat.mul_mod]

theorem powm_eq (b e m : ℕ) : powm b e m = b ^ e % m := powAux_eq m _ b e Nat.lt_log2_self

theorem powm_lt {m : ℕ} (hm : 0 < m) (b e : ℕ) : powm b e m < m := by
  rw [powm_eq]; exact Nat.mod_lt _ hm

theorem powm_modEq (b e m : ℕ) : powm b e m ≡ b ^ e [MOD m] := by
  rw [powm_eq]; exact Nat.mod_modEq _ _

end Blitzd.Lib.ModPow
