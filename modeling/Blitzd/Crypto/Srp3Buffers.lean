import Blitzd.Crypto.Srp3

/-! # What the exported numbers leave of their arrays

`mpz_export` writes the significant bytes only, and the arrays it writes to are not cleared before. So
what is hashed and sent is the padded encoding of the numbers exactly when each number needs all the
bytes of its array (`padded_iff_fullWidth`): otherwise a byte of the array's old content is hashed, or
sent to the client.

Different messages may have the same SHA-1, so "exactly" is about every hash: the property asks that
the results be those of the padded encodings for whatever hash is used. The direction from the widths
to the results holds of each hash alone. -/

namespace Blitzd.Crypto.Srp3Buffers

open Blitzd.Lib.Bytes Blitzd.Crypto.Srp3

/-- At all five places the result is that of the padded encoding: `getScrambler`, `hashSecret`,
`getClientPasswordProof`, `getServerPasswordProof` and the reply's public key, for the numbers `A`,
`B`, `S` (the secret) and `K`. -/
structure Padded (H : Hash) (o : BnetSRP3) (loc : Locals) (pubkey : Buf 32) (M : Buf 20)
    (A B S K : ℕ) : Prop where
  scrambler : getScrambler H loc.rawB B = scramble H (leBuf 32 B)
  secret : hashSecret H loc.rawSecret S = hashRaw H (leBuf 32 S)
  client : getClientPasswordProof H o loc A B K =
    clientProof H o (leBuf 32 A) (leBuf 32 B) (leBuf 40 K)
  server : getServerPasswordProof H loc A M K = serverProof H (leBuf 32 A) M (leBuf 40 K)
  sent : replyPubkey pubkey B = leBuf 32 B

/-- Every number needs all the bytes of its array. -/
def FullWidth (A B S K : ℕ) : Prop := 256 ^ 31 ≤ A ∧ 256 ^ 31 ≤ B ∧ 256 ^ 31 ≤ S ∧ 256 ^ 39 ≤ K

theorem byteLen_full {v w : ℕ} : w + 1 ≤ byteLen v ↔ 256 ^ w ≤ v := by
  have h := byteLen_le_iff (n := v) (w := w)
  omega

/-! ### Full-width numbers -/

/-- Exporting a full-width number leaves nothing of the array. -/
theorem mpzExport_full {n v : ℕ} (hv : v < 256 ^ n) (h : n ≤ byteLen v) (a : Buf n) :
    mpzExport a v = leBuf n v := fill_sigLE_of_full hv h a

theorem padded_of_fullWidth {A B S K : ℕ} (hA : A < 256 ^ 32) (hB : B < 256 ^ 32) (hS : S < 256 ^ 32)
    (hK : K < 256 ^ 40) (h : FullWidth A B S K) (H : Hash) (o : BnetSRP3) (loc : Locals)
    (pubkey : Buf 32) (M : Buf 20) : Padded H o loc pubkey M A B S K := by
  obtain ⟨h1, h2, h3, h4⟩ := h
  have eA := mpzExport_full (n := 32) hA (byteLen_full.mpr h1)
  have eB := mpzExport_full (n := 32) hB (byteLen_full.mpr h2)
  have eS := mpzExport_full (n := 32) hS (byteLen_full.mpr h3)
  have eK := mpzExport_full (n := 40) hK (byteLen_full.mpr h4)
  refine ⟨?_, ?_, ?_, ?_, eB _⟩
  · unfold getScrambler; rw [eB]
  · unfold hashSecret; rw [eS]
  · unfold getClientPasswordProof; rw [eA, eB, eK]
  · unfold getServerPasswordProof; rw [eA, eK]

/-! ### A missing byte shows -/

/-- An array whose export does not depend on its content was filled by the number. -/
theorem full_of_mpzExport {n v : ℕ} (h : ∀ a : Buf n, mpzExport a v = leBuf n v) :
    n ≤ byteLen v := by
  by_contra hlt
  exact fill_sigLE_ne (not_le.mp hlt) (show (0 : Byte) ≠ 1 by decide)
    ((h (Buf.const n 0)).trans (h (Buf.const n 1)).symm)

/-- Messages that no hash tells apart are equal. -/
theorem eq_of_hash_eq {m m' : List (List Byte)} (h : ∀ H : Hash, H m = H m') : m = m' := by
  by_contra hne
  have h1 := h fun x => if x = m then Buf.const 20 0 else Buf.const 20 1
  simp only [if_true, if_neg (Ne.symm hne)] at h1
  exact absurd h1 (by decide)

theorem zip_inj : ∀ {a a' b b' : List Byte}, a.length = b.length → a'.length = b'.length →
    a.length = a'.length → zip a b = zip a' b' → a = a' ∧ b = b'
  | [], [], [], [], _, _, _, _ => ⟨rfl, rfl⟩
  | x :: a, x' :: a', y :: b, y' :: b', h1, h2, h3, h => by
    simp only [zip, List.cons.injEq] at h
    obtain ⟨rfl, rfl, h⟩ := h
    obtain ⟨rfl, rfl⟩ := zip_inj (by simpa using h1) (by simpa using h2) (by simpa using h3) h
    exact ⟨rfl, rfl⟩

theorem length_zip : ∀ {a b : List Byte}, a.length = b.length → (zip a b).length = 2 * a.length
  | [], [], _ => rfl
  | x :: a, y :: b, h => by
    have ih := length_zip (a := a) (b := b) (by simpa using h)
    simp only [zip, List.length_cons, ih]
    ring

theorem ofLE_inj {l l' : List Byte} (hl : l.length = l'.length) (h : ofLE l = ofLE l') : l = l' := by
  rw [← toLE_ofLE l, ← toLE_ofLE l', hl, h]

theorem unzip_inj : ∀ {n : ℕ} {l l' : List Byte}, l.length = 2 * n → l'.length = 2 * n →
    unzip l = unzip l' → l = l'
  | 0, l, l', h, h', _ => by
    rw [List.length_eq_zero_iff.mp h, List.length_eq_zero_iff.mp h']
  | n + 1, x :: y :: l, x' :: y' :: l', h, h', he => by
    simp only [unzip, Prod.mk.injEq, List.cons.injEq] at he
    obtain ⟨⟨rfl, h1⟩, rfl, h2⟩ := he
    have hl : l.length = 2 * n := by simp only [List.length_cons] at h; omega
    have hl' : l'.length = 2 * n := by simp only [List.length_cons] at h'; omega
    rw [unzip_inj hl hl' (Prod.ext h1 h2)]

/-- The hashed secret, over all hashes, gives the exported bytes back. -/
theorem eq_of_hashRaw_eq {r r' : Buf 32} (h : ∀ H : Hash, hashRaw H r = hashRaw H r') : r = r' := by
  have hlen : ∀ (H : Hash) (m m' : List (List Byte)),
      (zip (H m).bytes (H m').bytes).length = 40 := fun H m m' => by
    rw [length_zip (by simp)]; simp
  have hz : ∀ H : Hash, H [(unzip r.bytes).1] = H [(unzip r'.bytes).1] ∧
      H [(unzip r.bytes).2] = H [(unzip r'.bytes).2] := by
    intro H
    have h1 := ofLE_inj (by rw [hlen, hlen]) (h H)
    obtain ⟨e1, e2⟩ := zip_inj (by simp) (by simp) (by simp) h1
    exact ⟨Buf.ext e1, Buf.ext e2⟩
  have ho := eq_of_hash_eq fun H => (hz H).1
  have he := eq_of_hash_eq fun H => (hz H).2
  rw [List.cons.injEq] at ho he
  exact Buf.ext (unzip_inj (n := 16) r.len r'.len (Prod.ext ho.1 he.1))

/-- The server proof, over all hashes, gives the exported numbers back. -/
theorem eq_of_serverProof_eq {A A' : Buf 32} {M : Buf 20} {K K' : Buf 40}
    (h : ∀ H : Hash, serverProof H A M K = serverProof H A' M K') : A = A' ∧ K = K' := by
  have h1 := eq_of_hash_eq h
  simp only [List.cons.injEq, and_true, true_and] at h1
  exact ⟨Buf.ext h1.1, Buf.ext h1.2⟩

theorem fullWidth_of_padded {A B S K : ℕ}
    (h : ∀ (H : Hash) (o : BnetSRP3) (loc : Locals) (pubkey : Buf 32) (M : Buf 20),
      Padded H o loc pubkey M A B S K) : FullWidth A B S K := by
  have o : BnetSRP3 := ofSalt [] (Buf.zero 32) 0
  have hB : ∀ a : Buf 32, mpzExport a B = leBuf 32 B := fun a =>
    (h Sha.sha1 o Locals.zero a (Buf.zero 20)).sent
  have hS : ∀ a : Buf 32, mpzExport a S = leBuf 32 S := fun a =>
    eq_of_hashRaw_eq fun H =>
      (h H o { Locals.zero with rawSecret := a } (Buf.zero 32) (Buf.zero 20)).secret
  have hAK : ∀ (a : Buf 32) (k : Buf 40), mpzExport a A = leBuf 32 A ∧ mpzExport k K = leBuf 40 K :=
    fun a k => eq_of_serverProof_eq fun H =>
      (h H o { Locals.zero with A' := a, K' := k } (Buf.zero 32) (Buf.zero 20)).server
  refine ⟨?_, byteLen_full.mp (full_of_mpzExport hB), byteLen_full.mp (full_of_mpzExport hS), ?_⟩
  · exact byteLen_full.mp (full_of_mpzExport fun a => (hAK a (Buf.zero 40)).1)
  · exact byteLen_full.mp (full_of_mpzExport fun k => (hAK (Buf.zero 32) k).2)

/-- **When the old content of the arrays does not matter.** For numbers in range, the results at all
five places are those of the padded encodings, whatever the arrays held, exactly when every number
needs all the bytes of its array. -/
theorem padded_iff_fullWidth (A B S K : ℕ) (hA : A < 256 ^ 32) (hB : B < 256 ^ 32) (hS : S < 256 ^ 32)
    (hK : K < 256 ^ 40) :
    (∀ (H : Hash) (o : BnetSRP3) (loc : Locals) (pubkey : Buf 32) (M : Buf 20),
      Padded H o loc pubkey M A B S K) ↔ FullWidth A B S K :=
  ⟨fullWidth_of_padded, fun h H o loc pubkey M => padded_of_fullWidth hA hB hS hK h H o loc pubkey M⟩

/-- All numbers of full width. -/
theorem padded_iff_fullWidth_top : FullWidth (256 ^ 31) (256 ^ 31) (256 ^ 31) (256 ^ 39) ∧
    ∀ (H : Hash) (o : BnetSRP3) (loc : Locals) (pubkey : Buf 32) (M : Buf 20),
      Padded H o loc pubkey M (256 ^ 31) (256 ^ 31) (256 ^ 31) (256 ^ 39) := by
  have hfull : FullWidth (256 ^ 31) (256 ^ 31) (256 ^ 31) (256 ^ 39) := ⟨le_rfl, le_rfl, le_rfl, le_rfl⟩
  exact ⟨hfull, (padded_iff_fullWidth (256 ^ 31) (256 ^ 31) (256 ^ 31) (256 ^ 39) (by norm_num)
    (by norm_num) (by norm_num) (by norm_num)).mpr hfull⟩

/-- A server key `b = 1` and a zero verifier give `B = 47`; a reply array of ones is sent with it. -/
theorem not_padded_small_key :
    ¬ ∀ A B S K : ℕ, A < 256 ^ 32 → B < 256 ^ 32 → S < 256 ^ 32 → K < 256 ^ 40 →
      ∀ (o : BnetSRP3) (loc : Locals) (pubkey : Buf 32) (M : Buf 20),
        Padded Sha.sha1 o loc pubkey M A B S K := by
  intro h
  have h1 := (h 0 47 0 0 (by norm_num) (by norm_num) (by norm_num) (by norm_num)
    (ofSalt [] (Buf.zero 32) 1) Locals.zero (Buf.const 32 0xFF) (Buf.zero 20)).sent
  exact absurd h1 (by decide)

end Blitzd.Crypto.Srp3Buffers
