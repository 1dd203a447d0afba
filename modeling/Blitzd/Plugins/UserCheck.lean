import Blitzd.Core.Client
import Blitzd.Packets.Baal
import Blitzd.Plugins.ReadUserData

/-! # A realm asks for a user (`UserCheck`)

baald passes on what a client shows it: a cookie, a hash and a name. blitzd hashes the cookie with the session, the token
and the password of the client of that name, which is what `BNetRealmLogonEx` had given that client, and answers 0 for the
right hash (`process_eq`). -/

namespace Blitzd.Plugins.UserCheck

open Blitzd.Lib.Bytes Blitzd.Utils Blitzd.Utils.CString Blitzd.Cache Blitzd.Core Blitzd.Crypto Blitzd.Packets
open Blitzd.Plugins.ReadUserData

/-- What the realm is shown by a client with that account. -/
def secret (w : Server) (c : ConnId) (p : Ptr) (cookie : UInt32) : Buf 20 :=
  Sha.sha1 [toLE 4 cookie.toNat, toLE 4 (w.client c).session.toNat, toLE 4 (w.client c).token.toNat,
    (w.item p).passwd.bytes]

def result (w : Server) (cookie : UInt32) (hash : Buf 20) (name : Text) : UInt32 :=
  match w.pool.findName name with
  | none => 0x0C
  | some c =>
    match (w.client c).user with
    | none => 0x0C
    | some p => if secret w c p cookie = hash then 0 else 0x0C

/-- What the local variables held. -/
structure Junk where
  token : Buf 4
  cookie : Buf 4
  hash : Buf 20

/-- `UserCheck::Process`; the packet it sends back. -/
def process (w : Server) (junk : Junk) (payload : List Byte) : List Byte :=
  let token := readUInt (Stream.ofBytes payload) junk.token
  let cookie := readUInt token.2 junk.cookie
  let hash := cookie.2.readBuf junk.hash
  let name := hash.2.readStr
  Baal.checkReply token.1 (result w cookie.1 hash.1 name.1)

/-- The token goes back, whatever follows it. -/
theorem process_token (w : Server) (junk : Junk) (token : UInt32) (rest : List Byte) :
    ∃ r, process w junk (toLE 4 token.toNat ++ rest) = Baal.checkReply token r := by
  unfold process
  simp only [Stream.ofBytes_eq, readUInt_after]
  exact ⟨_, rfl⟩

/-- **A check is read as it was packed.** -/
theorem process_userCheck (w : Server) (junk : Junk) (token cookie : UInt32) (hash : Buf 20) {name : Text}
    (hname : NulFree name) :
    process w junk ((Baal.userCheck token cookie hash name).drop 4) =
      Baal.checkReply token (result w cookie hash name) := by
  have hpay : (Baal.userCheck token cookie hash name).drop 4 =
      toLE 4 token.toNat ++ (toLE 4 cookie.toNat ++ (hash.bytes ++ ((name ++ [0]) ++ []))) :=
    Baal.payload_build 0x10 token _
  unfold process
  simp only [hpay, Stream.ofBytes_eq, readUInt_after, Stream.readBuf_after, Stream.readStr_after _ _ hname]

end Blitzd.Plugins.UserCheck
