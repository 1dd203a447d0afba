import Blitzd.Lib.ModPow
import Blitzd.Utils.CString
import Blitzd.Crypto.Sha

/-! # The SRP of the new logon (`BnetSRP3.cpp`)

The numbers are GMP integers, exact. `mpz_export` writes the significant bytes of a number and nothing
else, so a local array it writes to keeps its old content behind them: every such array is an
argument (`Locals` collects the arrays of one logon). `mpz_import` reads all bytes of an array.

The hash is a parameter `H`, the digest of a message fed in pieces; the server runs with
`H = Sha.sha1`. -/

namespace Blitzd.Crypto.Srp3

open Blitzd.Lib.Bytes Blitzd.Lib.ModPow Blitzd.Utils.CString

/-! ### Numbers and byte arrays -/

/-- `mpz_import(_, n, -1, 1, 0, 0, a)`. -/
def mpzImport {n : ℕ} (a : Buf n) : ℕ := ofLE a.bytes

/-- `mpz_export(a, NULL, -1, 1, 0, 0, v)`. -/
def mpzExport {n : ℕ} (a : Buf n) (v : ℕ) : Buf n := a.fill (sigLE v)

/-- `mpz_urandomm`: the random bits `r` give a number below `n`. -/
def mpzUrandomm (r n : ℕ) : ℕ := r % n

theorem mpzImport_lt {n : ℕ} (a : Buf n) : mpzImport a < 256 ^ n := by
  have := ofLE_lt a.bytes
  rwa [a.len] at this

/-! ### The constants -/

def srp3N : Buf 32 where
  bytes := [
    0x87, 0xC7, 0x23, 0x85, 0x65, 0xF6, 0x16, 0x12, 0xD9, 0x12, 0x32, 0xC7, 0x78, 0x6C, 0x97, 0x7E,
    0x55, 0xB5, 0x92, 0xA0, 0x8C, 0xB6, 0x86, 0x21, 0x03, 0x18, 0x99, 0x61, 0x8B, 0x1A, 0xFF, 0xF8]
  len := rfl

def srp3I : Buf 20 where
  bytes := [
    0x6c, 0x0e, 0x97, 0xed, 0x0a, 0xf9, 0x6b, 0xab, 0xb1, 0x58, 0x89, 0xeb, 0x8b, 0xba, 0x25, 0xa4,
    0xf0, 0x8c, 0x01, 0xf8]
  len := rfl

def N : ℕ := mpzImport srp3N

/-- `SRP3_g`. -/
def g : ℕ := 0x2F

theorem N_eq : N = 0xf8ff1a8b619918032186b68ca092b5557e976c78c73212d91216f6658523c787 := by decide

theorem N_pos : 0 < N := by rw [N_eq]; norm_num

theorem N_lt : N < 256 ^ 32 := mpzImport_lt srp3N

/-! ### The object -/

/-- `BnetSRP3`: the session keys, the cached server public key, and who logs on. -/
structure BnetSRP3 where
  a : ℕ
  b : ℕ
  B : Option ℕ
  username : Text
  password : Text
  rawSalt : Buf 32
deriving DecidableEq

/-- `init` with a password: the client's side. The random salt it makes is `salt`. -/
def ofPassword (username password : Text) (r : ℕ) (salt : Buf 32) : BnetSRP3 where
  a := mpzUrandomm r N
  b := 0
  B := none
  username := (cstr username).map toupper
  password := (cstr password).map toupper
  rawSalt := salt

/-- `init` with a salt: the server's side. -/
def ofSalt (username : Text) (salt : Buf 32) (r : ℕ) : BnetSRP3 where
  a := 0
  b := mpzUrandomm r N
  B := none
  username := (cstr username).map toupper
  password := []
  rawSalt := salt

namespace BnetSRP3

def setSalt (o : BnetSRP3) (salt : Buf 32) : BnetSRP3 := { o with rawSalt := salt }

end BnetSRP3

/-- The hash of a message fed in pieces. -/
abbrev Hash := List (List Byte) → Buf 20

/-- The arrays one logon exports numbers to: `raw_B`, `raw_secret`, then `A_`, `B__`, `K_` of
`getClientPasswordProof` and `A_`, `K_` of `getServerPasswordProof`. -/
structure Locals where
  rawB : Buf 32
  rawSecret : Buf 32
  A : Buf 32
  B : Buf 32
  K : Buf 40
  A' : Buf 32
  K' : Buf 40
deriving DecidableEq

/-- All arrays zeroed. -/
def Locals.zero : Locals :=
  ⟨Buf.zero 32, Buf.zero 32, Buf.zero 32, Buf.zero 32, Buf.zero 40, Buf.zero 32, Buf.zero 40⟩

variable (H : Hash)

/-! ### Scrambler, private key, secrets -/

/-- `htonl(*(uint*) hash)`: the first four bytes, most significant first. -/
def firstWordBE (h : Buf 20) : ℕ := ofLE (h.bytes.take 4).reverse

/-- The scrambler of an exported public key. -/
def scramble (rawB : Buf 32) : ℕ := firstWordBE (H [rawB.bytes])

def getScrambler (rawB : Buf 32) (B : ℕ) : ℕ := scramble H (mpzExport rawB B)

def getClientPrivateKey (o : BnetSRP3) : ℕ :=
  mpzImport (H [o.rawSalt.bytes, (H [o.username ++ str ":" ++ o.password]).bytes])

def getVerifier (o : BnetSRP3) : ℕ := powm g (getClientPrivateKey H o) N

def getClientSessionPublicKey (o : BnetSRP3) : ℕ := powm g o.a N

/-- The key, and the object with the key cached; a cached key ignores the verifier. -/
def getServerSessionPublicKey (o : BnetSRP3) (v : ℕ) : ℕ × BnetSRP3 :=
  match o.B with
  | some B => (B, o)
  | none =>
    let B := (powm g o.b N + v) % N
    (B, { o with B := some B })

/-- `(N + B - g^x) ^ (a + u x)`; `g^x` is reduced, so the subtraction does not go below zero. -/
def getClientSecret (o : BnetSRP3) (rawB : Buf 32) (B : ℕ) : ℕ :=
  let x := getClientPrivateKey H o
  let u := getScrambler H rawB B
  powm (N + B - powm g x N) (x * u + o.a) N

/-- `(A v^u) ^ b`. -/
def getServerSecret (o : BnetSRP3) (rawB : Buf 32) (A v : ℕ) : ℕ × BnetSRP3 :=
  let r := getServerSessionPublicKey o v
  let u := getScrambler H rawB r.1
  (powm (powm v u N * A % N) r.2.b N, r.2)

/-! ### The hashed secret -/

/-- The bytes at the places `0, 2, …` and at the places `1, 3, …`. -/
def unzip : List Byte → List Byte × List Byte
  | x :: y :: l => (x :: (unzip l).1, y :: (unzip l).2)
  | _ => ([], [])

/-- The bytes of two lists, in turn. -/
def zip : List Byte → List Byte → List Byte
  | x :: l, y :: l' => x :: y :: zip l l'
  | _, _ => []

/-- The number hashed from an exported secret. -/
def hashRaw (raw : Buf 32) : ℕ :=
  let (odd, even) := unzip raw.bytes
  ofLE (zip (H [odd]).bytes (H [even]).bytes)

def hashSecret (rawSecret : Buf 32) (secret : ℕ) : ℕ := hashRaw H (mpzExport rawSecret secret)

def getHashedClientSecret (o : BnetSRP3) (loc : Locals) (B : ℕ) : ℕ :=
  hashSecret H loc.rawSecret (getClientSecret H o loc.rawB B)

def getHashedServerSecret (o : BnetSRP3) (loc : Locals) (A v : ℕ) : ℕ × BnetSRP3 :=
  let r := getServerSecret H o loc.rawB A v
  (hashSecret H loc.rawSecret r.1, r.2)

/-! ### The proofs -/

/-- The client proof of exported numbers. -/
def clientProof (o : BnetSRP3) (A B : Buf 32) (K : Buf 40) : Buf 20 :=
  H [srp3I.bytes, (H [o.username]).bytes, o.rawSalt.bytes, A.bytes, B.bytes, K.bytes]

/-- The server proof of exported numbers. -/
def serverProof (A : Buf 32) (M : Buf 20) (K : Buf 40) : Buf 20 := H [A.bytes, M.bytes, K.bytes]

def getClientPasswordProof (o : BnetSRP3) (loc : Locals) (A B K : ℕ) : Buf 20 :=
  clientProof H o (mpzExport loc.A A) (mpzExport loc.B B) (mpzExport loc.K K)

def getServerPasswordProof (loc : Locals) (A : ℕ) (M : Buf 20) (K : ℕ) : Buf 20 :=
  serverProof H (mpzExport loc.A' A) M (mpzExport loc.K' K)

/-- The server's public key as a reply carries it: exported to the reply's `pubkey`. -/
def replyPubkey (pubkey : Buf 32) (B : ℕ) : Buf 32 := mpzExport pubkey B

end Blitzd.Crypto.Srp3
