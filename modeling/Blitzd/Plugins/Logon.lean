import Blitzd.Utils.Stream
import Blitzd.Crypto.Srp3
import Blitzd.Core.Client

/-! # The packets before login (`plugins/bnet`)

The eight handlers of the pre-login suite that deal with accounts: the SRP logon and password change
(`AuthLogon`, `AuthLogonProof`, `AccountChange`, `AccountChangeProof`, `AccountCreate`) and their old
counterparts (`OldAccountCreate2`, `OldAccountChange`, `OldAuthLogon2`).

Handlers read into local arrays that are not initialised, and a short packet fills only their front;
`Scratch` is what those arrays held at the call, with the random number drawn for the server's key. A
handler gives the new state and the replies it sends, or `none` when the account lookup does not
return. -/

namespace Blitzd.Plugins.Logon

open Blitzd.Lib.Bytes Blitzd.Utils Blitzd.Utils.CString Blitzd.Crypto Blitzd.Cache Blitzd.Core

/-- What the locals of a call held before it, and the random number it draws. -/
structure Scratch where
  pubkey : Buf 32
  clientProof : Buf 20
  s : Buf 32
  v : Buf 32
  salt : Buf 32
  verifier : Buf 32
  token : Buf 8
  pwd : Buf 20
  newpwd : Buf 20
  replyPubkey : Buf 32
  srp : Srp3.Locals
  random : ℕ
deriving DecidableEq

/-- All locals zeroed, and the random number `1`. -/
def Scratch.zero : Scratch :=
  ⟨Buf.zero 32, Buf.zero 20, Buf.zero 32, Buf.zero 32, Buf.zero 32, Buf.zero 32, Buf.zero 8, Buf.zero 20,
    Buf.zero 20, Buf.zero 32, .zero, 1⟩

/-- The packets sent back, with the fields they are packed from. -/
inductive Reply
  | authLogon (status : ℕ) (salt pubkey : Buf 32)
  | authLogonProof (status : ℕ) (proof : Buf 20)
  | accountChange (status : ℕ) (salt pubkey : Buf 32)
  | accountChangeProof (status : ℕ) (proof : Buf 20)
  | accountCreate (result : ℕ)
  | oldAccountCreate2 (result : ℕ)
  | oldAccountChange (result : ℕ)
  | oldAuthLogon2 (result : ℕ) (reason : Text)
  | reqEmail
deriving DecidableEq

/-! ### Reading a packet -/

/-- `in >> username`, cut to 15 bytes. -/
def readName (st : Stream) : Text := (st.readStr.1).take 15

/-- `AuthLogon` and `AccountChange`: `pubkey[32]`, then the name. -/
structure LogonIn where
  pubkey : Buf 32
  username : Text

def readLogon (sc : Scratch) (payload : List Byte) : LogonIn :=
  let r := (Stream.ofBytes payload).readBuf sc.pubkey
  ⟨r.1, readName r.2⟩

/-- `AccountCreate`: `salt[32]`, `verifier[32]`, then the name. -/
structure CreateIn where
  salt : Buf 32
  verifier : Buf 32
  username : Text

def readCreate (sc : Scratch) (payload : List Byte) : CreateIn :=
  let r1 := (Stream.ofBytes payload).readBuf sc.salt
  let r2 := r1.2.readBuf sc.verifier
  ⟨r1.1, r2.1, readName r2.2⟩

/-- `OldAccountCreate2`: `pwd[20]`, then the name. -/
structure OldCreateIn where
  pwd : Buf 20
  username : Text

def readOldCreate (sc : Scratch) (payload : List Byte) : OldCreateIn :=
  let r := (Stream.ofBytes payload).readBuf sc.pwd
  ⟨r.1, readName r.2⟩

/-- `OldAuthLogon2`: `token[8]`, `pwd[20]`, then the name. -/
structure OldLogonIn where
  token : Buf 8
  pwd : Buf 20
  username : Text

def readOldLogon (sc : Scratch) (payload : List Byte) : OldLogonIn :=
  let r1 := (Stream.ofBytes payload).readBuf sc.token
  let r2 := r1.2.readBuf sc.pwd
  ⟨r1.1, r2.1, readName r2.2⟩

/-- `OldAccountChange`: `token[8]`, `pwd[20]`, `newpwd[20]`, then the name. -/
structure OldChangeIn where
  token : Buf 8
  pwd : Buf 20
  newpwd : Buf 20
  username : Text

def readOldChange (sc : Scratch) (payload : List Byte) : OldChangeIn :=
  let r1 := (Stream.ofBytes payload).readBuf sc.token
  let r2 := r1.2.readBuf sc.pwd
  let r3 := r2.2.readBuf sc.newpwd
  ⟨r1.1, r2.1, r3.1, readName r3.2⟩

/-- `clientProof[20]` of the two proof packets. -/
def readProof (sc : Scratch) (payload : List Byte) : Buf 20 :=
  ((Stream.ofBytes payload).readBuf sc.clientProof).1

/-- `AccountChangeProof`: `s[32]` and `v[32]`, behind the proof. -/
structure ChangeIn where
  s : Buf 32
  v : Buf 32

def readChange (sc : Scratch) (payload : List Byte) : ChangeIn :=
  let r0 := (Stream.ofBytes payload).readBuf sc.clientProof
  let r1 := r0.2.readBuf sc.s
  ⟨r1.1, (r1.2.readBuf sc.v).1⟩

/-! ### Packets as clients pack them -/

theorem readName_after (l : List Byte) {n : List Byte} (hn : NulFree n) : readName (.after l n) = n.take 15 := by
  rw [readName, Stream.readStr_after_end l hn]

theorem readLogon_pack (sc : Scratch) (key : Buf 32) {n : Text} (hn : NulFree n) :
    readLogon sc (key.bytes ++ n) = ⟨key, n.take 15⟩ := by
  unfold readLogon
  simp only [Stream.ofBytes_eq, Stream.readBuf_after, readName_after _ hn]

theorem readOldLogon_pack (sc : Scratch) (t : Buf 8) (q : Buf 20) {n : Text} (hn : NulFree n) :
    readOldLogon sc (t.bytes ++ q.bytes ++ n) = ⟨t, q, n.take 15⟩ := by
  unfold readOldLogon
  simp only [Stream.ofBytes_eq, List.append_assoc, Stream.readBuf_after, readName_after _ hn]

theorem readChange_pack (sc : Scratch) (m : Buf 20) (s v : Buf 32) :
    readChange sc (m.bytes ++ s.bytes ++ v.bytes) = ⟨s, v⟩ := by
  have hpack : Stream.ofBytes (m.bytes ++ s.bytes ++ v.bytes) = .after [] (m.bytes ++ (s.bytes ++ (v.bytes ++ []))) := by
    simp only [Stream.ofBytes_eq, List.append_assoc, List.append_nil]
  unfold readChange
  simp only [hpack, Stream.readBuf_after]

/-! ### The two logons -/

/-- What the server computes for an SRP exchange: its own proof, the proof it expects, and its public
key as sent. -/
structure SrpAnswer where
  serverProof : Buf 20
  clientProof : Buf 20
  pubkey : Buf 32
deriving DecidableEq

/-- The SRP computation for the account `u` under the name typed. -/
def srpAnswer (sc : Scratch) (username : Text) (u : UserCacheItem) (pubkey : Buf 32) : SrpAnswer :=
  let srp3 := Srp3.ofSalt username u.salt sc.random
  let verifier := Srp3.mpzImport u.verifier
  let clientKey := Srp3.mpzImport pubkey
  let serverKey := Srp3.getServerSessionPublicKey srp3 verifier
  let secret := Srp3.getHashedServerSecret Sha.sha1 serverKey.2 sc.srp clientKey verifier
  let proof := Srp3.getClientPasswordProof Sha.sha1 secret.2 sc.srp clientKey serverKey.1 secret.1
  { serverProof := Srp3.getServerPasswordProof Sha.sha1 sc.srp clientKey proof secret.1
    clientProof := proof
    pubkey := Srp3.replyPubkey sc.replyPubkey serverKey.1 }

/-- `SetUser`, the SRP computation and `SetProof`; with it the salt and the key to reply. -/
def beginSrp (sc : Scratch) (c : ConnId) (username : Text) (pubkey : Buf 32) (p : Ptr) (w : Server) :
    Server × Buf 32 × Buf 32 :=
  let a := srpAnswer sc username (w.item p) pubkey
  ((w.setUser c (some p)).setProof c a.serverProof a.clientProof, (w.item p).salt, a.pubkey)

/-- The bytes of each 32-bit word reversed. -/
def reverseWords : List Byte → List Byte
  | a :: b :: c :: d :: l => d :: c :: b :: a :: reverseWords l
  | l => l

theorem length_reverseWords : ∀ l : List Byte, (reverseWords l).length = l.length
  | a :: b :: c :: d :: l => by simp [reverseWords, length_reverseWords l]
  | [] => rfl
  | [_] => rfl
  | [_, _] => rfl
  | [_, _, _] => rfl

/-- The hash an old logon must bring: BSHA-1 of the token and the stored password. -/
def oldHash (token : Buf 8) (passwd : Buf 20) : Buf 20 where
  bytes := reverseWords (Sha.bsha1 [token.bytes, passwd.bytes]).bytes
  len := by rw [length_reverseWords, Buf.len]

/-! ### The handlers -/

/-- `userCache[username]`, then the rest of the handler. -/
def withUser (env : Env) (w : Server) (username : Text)
    (k : Option Ptr → Server → Server × List Reply) : Option (Server × List Reply) :=
  (lookup env env.depth w.store (.name username)).map fun r => k r.1 { w with store := r.2 }

variable (env : Env) (c : ConnId) (sc : Scratch) (payload : List Byte) (w : Server)

def authLogon : Option (Server × List Reply) :=
  let i := readLogon sc payload
  withUser env w i.username fun ptr w =>
    match ptr with
    | none => (w, [.authLogon 1 (Buf.zero 32) (Buf.zero 32)])
    | some p =>
      if (w.item p).isExist = false then (w, [.authLogon 1 (Buf.zero 32) (Buf.zero 32)])
      else if (w.item p).flag &&& UCF_NLSAUTH = 0 then
        (w, [.authLogon 5 (Buf.zero 32) (Buf.zero 32)])
      else
        let r := beginSrp sc c i.username i.pubkey p w
        (r.1, [.authLogon 0 r.2.1 r.2.2])

/-- Unlike `AuthLogon` it checks neither that the account exists nor its flags. -/
def accountChange : Option (Server × List Reply) :=
  let i := readLogon sc payload
  withUser env w i.username fun ptr w =>
    match ptr with
    | none => (w, [.accountChange 1 (Buf.zero 32) (Buf.zero 32)])
    | some p =>
      let r := beginSrp sc c i.username i.pubkey p w
      (r.1, [.accountChange 0 r.2.1 r.2.2])

def authLogonProof : Server × List Reply :=
  let cl := w.client c
  if readProof sc payload = cl.clientProof then
    let status := match cl.user with
      | some p => if (w.item p).mail = [] then 0x0E else 0
      | none => 0
    (w.setStage c .bnetLoggedIn, [.authLogonProof status cl.serverProof])
  else (w, [.authLogonProof 2 (Buf.zero 20)])

def accountChangeProof : Server × List Reply :=
  let cl := w.client c
  match cl.user with
  | none => (w.setUser c none, [.accountChangeProof 2 (Buf.zero 20)])
  | some p =>
    if readProof sc payload = cl.clientProof then
      let i := readChange sc payload
      ((w.modifyItem p fun u => (u.setSalt i.s).setVerifier i.v).setUser c none,
        [.accountChangeProof 0 cl.serverProof])
    else (w.setUser c none, [.accountChangeProof 2 (Buf.zero 20)])

/-- The account is there: not null and with an id. -/
def Taken (w : Server) (ptr : Option Ptr) : Prop := ∃ p, ptr = some p ∧ (w.item p).isExist = true

instance (w : Server) : (ptr : Option Ptr) → Decidable (Taken w ptr)
  | none => .isFalse fun ⟨_, h, _⟩ => by cases h
  | some p => decidable_of_iff ((w.item p).isExist = true)
      ⟨fun h => ⟨p, rfl, h⟩, fun ⟨_, h, h'⟩ => by cases h; exact h'⟩

/-- A new account, set up by `f`. -/
def addAccount (username : Text) (f : UserCacheItem → UserCacheItem) (w : Server) : Server :=
  let r := w.store.cache.add env username 0
  { w with store := { w.store with cache := r.2.modify r.1 f } }

def accountCreate : Option (Server × List Reply) :=
  let i := readCreate sc payload
  withUser env w i.username fun ptr w =>
    if Taken w ptr then (w, [.accountCreate 4])
    else (addAccount env i.username
      (fun u => ((u.setSalt i.salt).setVerifier i.verifier).addFlag UCF_NLSAUTH) w, [.accountCreate 0])

def oldAccountCreate2 : Option (Server × List Reply) :=
  let i := readOldCreate sc payload
  withUser env w i.username fun ptr w =>
    if Taken w ptr then (w, [.oldAccountCreate2 4])
    else (addAccount env i.username (fun u => (u.setPasswd i.pwd).addFlag UCF_OLSAUTH) w,
      [.oldAccountCreate2 0])

def oldAccountChange : Option (Server × List Reply) :=
  let i := readOldChange sc payload
  withUser env w i.username fun ptr w =>
    match ptr with
    | none => (w, [.oldAccountChange 0])
    | some p =>
      if (w.item p).isExist = true ∧ oldHash i.token (w.item p).passwd = i.pwd then
        (w.modifyItem p fun u => u.setPasswd i.newpwd, [.oldAccountChange 1])
      else (w, [.oldAccountChange 0])

def oldAuthLogon2 : Option (Server × List Reply) :=
  let i := readOldLogon sc payload
  withUser env w i.username fun ptr w =>
    match ptr with
    | none => (w, [.oldAuthLogon2 1 []])
    | some p =>
      if (w.item p).isExist = false then (w, [.oldAuthLogon2 1 []])
      else if (w.item p).flag &&& UCF_OLSAUTH = 0 then
        (w, [.oldAuthLogon2 6 (str
          "Your account is not used for this game, please use or register another account.")])
      else if oldHash i.token (w.item p).passwd = i.pwd then
        ((w.setUser c (some p)).setStage c .bnetLoggedIn,
          (if (w.item p).mail = [] then [.reqEmail] else []) ++ [.oldAuthLogon2 0 []])
      else (w, [.oldAuthLogon2 2 []])

/-! ### Dispatch -/

inductive Op
  | authLogon | authLogonProof | accountChange | accountChangeProof | accountCreate
  | oldAccountCreate2 | oldAccountChange | oldAuthLogon2
deriving DecidableEq

/-- A packet handed to the suite, and what the locals held. -/
structure Call where
  op : Op
  payload : List Byte
  scratch : Scratch
deriving DecidableEq

/-- The handler of a packet. -/
def handle (env : Env) (c : ConnId) (call : Call) (w : Server) : Option (Server × List Reply) :=
  match call.op with
  | .authLogon => authLogon env c call.scratch call.payload w
  | .authLogonProof => some (authLogonProof c call.scratch call.payload w)
  | .accountChange => accountChange env c call.scratch call.payload w
  | .accountChangeProof => some (accountChangeProof c call.scratch call.payload w)
  | .accountCreate => accountCreate env call.scratch call.payload w
  | .oldAccountCreate2 => oldAccountCreate2 env call.scratch call.payload w
  | .oldAccountChange => oldAccountChange env call.scratch call.payload w
  | .oldAuthLogon2 => oldAuthLogon2 env c call.scratch call.payload w

end Blitzd.Plugins.Logon
