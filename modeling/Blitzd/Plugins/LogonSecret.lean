import Blitzd.Crypto.Srp3Buffers
import Blitzd.Plugins.LogonRun

/-! # Keys that fix the secret

The server takes any public key (`accepted`). A key that is a multiple of `N` makes the secret `0`
whatever the account (`secret_of_zero`); no other key does (`depends_of_ne_zero`): the verifiers `1`
and `N - 48` with the server key `1` give two secrets. -/

namespace Blitzd.Plugins.LogonSecret

open Blitzd.Lib Blitzd.Lib.Bytes Blitzd.Lib.ModPow Blitzd.Utils Blitzd.Utils.CString Blitzd.Crypto
open Blitzd.Crypto.Srp3 Blitzd.Crypto.Srp3Buffers Blitzd.Cache Blitzd.Core Blitzd.Plugins.Logon

/-- Some `AuthLogon` with this key is answered with status 0. -/
def Accepted (key : Buf 32) : Prop :=
  ∃ env w c call w' rs salt pubkey, call.op = .authLogon ∧
    (readLogon call.scratch call.payload).pubkey = key ∧ handle env c call w = some (w', rs) ∧
    .authLogon 0 salt pubkey ∈ rs

/-- The object of a logon, the session key being `b`, and the array the public key is exported to. -/
structure Side where
  username : Text
  salt : Buf 32
  rawB : Buf 32

/-- `getServerSecret`, for the client key imported from `key`. -/
def secret (key : Buf 32) (v b : ℕ) (x : Side) : ℕ :=
  (getServerSecret Sha.sha1 (ofSalt x.username x.salt b) x.rawB (mpzImport key) v).1

/-- Two accounts have different secrets under the key, whatever the locals hold. -/
def Depends (key : Buf 32) : Prop :=
  ∃ v₁ b₁ v₂ b₂, (1 ≤ v₁ ∧ v₁ < N) ∧ (1 ≤ b₁ ∧ b₁ < N) ∧ (1 ≤ v₂ ∧ v₂ < N) ∧ (1 ≤ b₂ ∧ b₂ < N) ∧
    ∀ x y, secret key v₁ b₁ x ≠ secret key v₂ b₂ y

/-! ### Multiples of `N` -/

theorem secret_eq {key : Buf 32} {v b : ℕ} (hb : b < N) (x : Side) : secret key v b x =
    (v ^ getScrambler Sha.sha1 x.rawB ((powm g b N + v) % N) * mpzImport key) ^ b % N := by
  have hmod : b % N = b := Nat.mod_eq_of_lt hb
  unfold secret getServerSecret getServerSessionPublicKey ofSalt mpzUrandomm
  dsimp only
  rw [hmod, powm_eq _ b, powm_eq v, ← Nat.pow_mod]
  exact ((Nat.mod_modEq _ _).mul_right _).pow b

theorem secret_of_zero {key : Buf 32} (hk : mpzImport key % N = 0) {v b : ℕ} (h1 : 1 ≤ b) (hb : b < N)
    (x : Side) : secret key v b x = 0 := by
  rw [secret_eq hb, Nat.pow_mod, Nat.mul_mod, hk, Nat.mul_zero, Nat.zero_mod, Nat.zero_pow (by omega),
    Nat.zero_mod]

/-! ### All other keys -/

/-- With the verifier `N - 48` and the key `1` the public key is `N - 1`, which fills its array. -/
theorem scrambler_top (rawB : Buf 32) :
    getScrambler Sha.sha1 rawB ((powm g 1 N + (N - 48)) % N) = 4085827834 := by
  have hB : (powm g 1 N + (N - 48)) % N = N - 1 := by rw [N_eq]; decide +kernel
  have hfull : mpzExport rawB (N - 1) = leBuf 32 (N - 1) := by
    refine mpzExport_full (by have := N_lt; omega) (byteLen_full.mpr ?_) rawB
    rw [N_eq]
    norm_num
  unfold getScrambler
  rw [hB, hfull, N_eq]
  decide +kernel

/-- The factor between the two secrets is not `1` modulo any divisor of `N`. -/
theorem factor_coprime : Nat.Coprime ((N - 48) ^ 4085827834 % N - 1) N ∧
    1 ≤ (N - 48) ^ 4085827834 % N := by
  rw [← powm_eq, N_eq]
  decide +kernel

theorem depends_of_ne_zero {key : Buf 32} (hk : mpzImport key % N ≠ 0) : Depends key := by
  have hN := N_eq
  refine ⟨1, 1, N - 48, 1, by omega, by omega, by omega, by omega, fun x y he => hk ?_⟩
  rw [secret_eq (by omega), secret_eq (by omega), scrambler_top, one_pow, one_mul, pow_one, pow_one] at he
  -- `A ≡ w A` with `w - 1` invertible
  obtain ⟨hcop, hone⟩ := factor_coprime
  have hmod : (N - 48) ^ 4085827834 % N * mpzImport key ≡ 1 * mpzImport key [MOD N] := by
    rw [one_mul]
    refine Nat.ModEq.trans ?_ he.symm
    exact (Nat.mod_modEq _ _).mul_right _
  have hdvd : N ∣ ((N - 48) ^ 4085827834 % N - 1) * mpzImport key := by
    rw [Nat.sub_mul]
    exact (Nat.modEq_iff_dvd' (Nat.mul_le_mul_right _ hone)).mp hmod.symm
  exact Nat.mod_eq_zero_of_dvd (hcop.symm.dvd_of_dvd_mul_left hdvd)

/-! ### The keys the server takes -/

theorem accepted (key : Buf 32) : Accepted key := by
  have hkey : LogonRun.duo.store.cache.findKey (.name ((str "alice").take 15)) = some 0 := by decide
  have hl := lookup_cached UserLookup.idleEnv UserLookup.idleEnv.depth _ hkey
  have hread := readLogon_pack Scratch.zero key (n := str "alice") (by decide)
  have ht : ∃ a, srpTarget UserLookup.idleEnv LogonRun.duo
      ⟨.authLogon, key.bytes ++ str "alice", Scratch.zero⟩ = some (0, a) := by
    refine ⟨srpAnswer Scratch.zero ((str "alice").take 15) (LogonRun.duoItem 0) key, ?_⟩
    unfold srpTarget
    dsimp only
    rw [hread, hl]
    rfl
  obtain ⟨a, ht⟩ := ht
  obtain ⟨store, rs, -, hh, hr⟩ := handle_srp (c := 0) ht
  exact ⟨_, _, 0, _, _, rs, _, _, rfl, by rw [hread], hh, hr rfl⟩

/-- **Which keys leave the secret to the account**: those that are not multiples of `N`. -/
theorem accepted_depends_iff (key : Buf 32) :
    (Accepted key → Depends key) ↔ mpzImport key % N ≠ 0 := by
  constructor
  · intro h hk
    obtain ⟨v₁, b₁, v₂, b₂, -, ⟨h1, h1'⟩, -, ⟨h2, h2'⟩, hne⟩ := h (accepted key)
    refine hne ⟨[], Buf.zero 32, Buf.zero 32⟩ ⟨[], Buf.zero 32, Buf.zero 32⟩ ?_
    rw [secret_of_zero hk h1 h1', secret_of_zero hk h2 h2']
  · exact fun hk _ => depends_of_ne_zero hk

theorem zero_key_fixes_secret : Accepted (Buf.zero 32) ∧ ¬ Depends (Buf.zero 32) := by
  refine ⟨accepted _, fun ⟨v₁, b₁, v₂, b₂, _, ⟨h1, h1'⟩, _, ⟨h2, h2'⟩, hne⟩ => ?_⟩
  have hk : mpzImport (Buf.zero 32) % N = 0 := by decide
  refine hne ⟨[], Buf.zero 32, Buf.zero 32⟩ ⟨[], Buf.zero 32, Buf.zero 32⟩ ?_
  rw [secret_of_zero hk h1 h1', secret_of_zero hk h2 h2']

end Blitzd.Plugins.LogonSecret
