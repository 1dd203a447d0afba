import Blitzd.Crypto.Srp3

/-! # The two sides of the SRP agree

The client computes `(N + B - g^x)^(a + u x)`, the server `(A v^u)^b`. With `v = g^x`, `A = g^a` and
`B = g^b + v` modulo `N` both are `g^(b (x u + a))` (`client_eq`, `server_eq`), and the scrambler `u`
is computed from the same `B`. So the hashed secrets are equal, and with them the proofs
(`srp_agreement`). Numbers are exported to zeroed arrays here. -/

namespace Blitzd.Crypto.Srp3Agree

open Blitzd.Lib.Bytes Blitzd.Lib.ModPow Blitzd.Utils.CString Blitzd.Crypto.Srp3

/-! ### The exponents -/

/-- Taking the verifier off the server's public key leaves `g^b`. -/
theorem sub_verifier_modEq {n v s B : ℕ} (hv : v < n) (hB : B ≡ s + v [MOD n]) :
    n + B - v ≡ s [MOD n] := by
  refine Nat.ModEq.add_right_cancel' v ?_
  rw [Nat.sub_add_cancel (by omega)]
  calc n + B ≡ 0 + B [MOD n] := (Nat.modEq_zero_iff_dvd.mpr dvd_rfl).add_right B
    _ = B := Nat.zero_add B
    _ ≡ s + v [MOD n] := hB

theorem client_eq {n g x a b u B : ℕ} (hn : 0 < n) (hB : B ≡ powm g b n + powm g x n [MOD n]) :
    powm (n + B - powm g x n) (x * u + a) n = g ^ (b * (x * u + a)) % n := by
  have hbase : n + B - powm g x n ≡ g ^ b [MOD n] :=
    (sub_verifier_modEq (powm_lt hn g x) hB).trans (powm_modEq g b n)
  rw [powm_eq, pow_mul]
  exact hbase.pow _

theorem server_eq (n g x a b u : ℕ) :
    powm (powm (powm g x n) u n * powm g a n % n) b n = g ^ (b * (x * u + a)) % n := by
  have hv : powm (powm g x n) u n ≡ g ^ (x * u) [MOD n] := by
    refine (powm_modEq _ u n).trans ?_
    rw [pow_mul]
    exact (powm_modEq g x n).pow u
  have hbase : powm (powm g x n) u n * powm g a n % n ≡ g ^ (x * u + a) [MOD n] := by
    refine (Nat.mod_modEq _ _).trans ?_
    rw [pow_add]
    exact hv.mul (powm_modEq g a n)
  rw [powm_eq, Nat.mul_comm b, pow_mul]
  exact hbase.pow b

/-! ### Case variants of a name -/

theorem toupper_tolower (x : Byte) : toupper (tolower x) = toupper x := by
  have h : ∀ n < 256, toupper (tolower (UInt8.ofNat n)) = toupper (UInt8.ofNat n) := by
    decide +kernel
  have hx := h x.toNat x.toNat_lt
  rwa [UInt8.ofNat_toNat] at hx

/-- Names that differ in case only are the same to the SRP. -/
theorem map_toupper_of_strcmpiEq {s t : Text} (h : strcmpiEq s t = true) :
    (cstr s).map toupper = (cstr t).map toupper := by
  have h' := congrArg (List.map toupper) (strcmpiEq_iff.mp h)
  have hcomp : toupper ∘ tolower = toupper := funext toupper_tolower
  simpa only [lower, List.map_map, hcomp] using h'

/-! ### Agreement -/

variable (H : Hash)

/-- Both sides compute the same secret. -/
theorem secret_eq (username username' password : Text) (salt salt0 : Buf 32) (a b : ℕ) :
    let cl := (ofPassword username password a salt0).setSalt salt
    let r := getServerSessionPublicKey (ofSalt username' salt b) (getVerifier H cl)
    getClientSecret H cl Locals.zero.rawB r.1 =
      (getServerSecret H r.2 Locals.zero.rawB (getClientSessionPublicKey cl) (getVerifier H cl)).1 := by
  intro cl r
  have hB : r.1 ≡ powm g (mpzUrandomm b N) N + powm g (getClientPrivateKey H cl) N [MOD N] :=
    Nat.mod_modEq _ _
  have hc := client_eq (a := cl.a) (u := getScrambler H Locals.zero.rawB r.1) N_pos hB
  have hs := server_eq N g (getClientPrivateKey H cl) cl.a (mpzUrandomm b N)
    (getScrambler H Locals.zero.rawB r.1)
  exact hc.trans hs.symm

/-- **Agreement.** A client built from a name and a password and a server built from any case variant
of the name and the client's salt, with `v`, `A` and `B` exchanged, end with the same hashed secret
and the same two proofs. -/
theorem srp_agreement (username username' password : Text) (salt salt0 : Buf 32) (a b : ℕ)
    (hcase : strcmpiEq username' username = true) :
    let cl := (ofPassword username password a salt0).setSalt salt
    let v := getVerifier H cl
    let A := getClientSessionPublicKey cl
    let r := getServerSessionPublicKey (ofSalt username' salt b) v
    let K := getHashedClientSecret H cl Locals.zero r.1
    let K' := (getHashedServerSecret H r.2 Locals.zero A v).1
    let M := getClientPasswordProof H cl Locals.zero A r.1 K
    let M' := getClientPasswordProof H r.2 Locals.zero A r.1 K'
    K = K' ∧ M = M' ∧
      getServerPasswordProof H Locals.zero A M K = getServerPasswordProof H Locals.zero A M' K' := by
  intro cl v A r K K' M M'
  have hK : K = K' :=
    congrArg (hashSecret H Locals.zero.rawSecret)
      (secret_eq H username username' password salt salt0 a b)
  have hname : cl.username = r.2.username := (map_toupper_of_strcmpiEq hcase).symm
  have hM : M = M' := by
    unfold M M' getClientPasswordProof clientProof
    rw [hname, hK]
    rfl
  exact ⟨hK, hM, by rw [hK, hM]⟩

/-- The server is given the name in capitals. -/
theorem srp_agreement_capitals :
    strcmpiEq (str "BOB") (str "Bob") = true ∧
      let cl := (ofPassword (str "Bob") (str "secret") 5 (Buf.zero 32)).setSalt (Buf.const 32 7)
      let v := getVerifier Sha.sha1 cl
      let r := getServerSessionPublicKey (ofSalt (str "BOB") (Buf.const 32 7) 3) v
      getHashedClientSecret Sha.sha1 cl Locals.zero r.1 =
        (getHashedServerSecret Sha.sha1 r.2 Locals.zero (getClientSessionPublicKey cl) v).1 :=
  ⟨by decide, (srp_agreement Sha.sha1 (str "Bob") (str "BOB") (str "secret") (Buf.const 32 7)
    (Buf.zero 32) 5 3 (by decide)).1⟩

end Blitzd.Crypto.Srp3Agree
