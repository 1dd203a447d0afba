import Blitzd.Packets.BNet

/-! # Packets between the daemons (`PacketBaal`, `PacketRealm`)

blitzd and baald have the same `PacketBaal`: a size, an opcode, the token of the one who asked, and what `Pack` appends.
baald answers its clients in `PacketRealm`, which has an opcode of one byte and no token. Unlike `PacketBNet` both put the
size first. A packet whose size has room in 16 bits is handed over by `ProcessBaal` as it was packed (`build_front`). -/

namespace Blitzd.Packets.Baal

open Blitzd.Lib.Bytes Blitzd.Core

/-- `*(ushort *)&_packet[0] = (ushort)_packet.size()`. -/
def putSize (p : List Byte) : List Byte := toLE 2 p.length ++ p.drop 2

/-- `PacketBaal::Build`. -/
def build (cmd : UInt16) (token : UInt32) (pack : List Field) : List Byte :=
  putSize (fieldBytes ([.u16 0, .u16 cmd, .u32 token] ++ pack))

/-- `PacketRealm::Build`. -/
def buildRealm (cmd : UInt8) (pack : List Field) : List Byte := putSize (fieldBytes ([.u16 0, .u8 cmd] ++ pack))

/-- `BaalUserCheck`. -/
def userCheck (token cookie : UInt32) (hash : Buf 20) (username : Text) : List Byte :=
  build 0x10 token [.u32 cookie, .raw hash.bytes, .str username]

/-- `BaalCheckReply`. -/
def checkReply (token result : UInt32) : List Byte := build 0x10 token [.u32 result]

/-- `RealmStartupConn`. -/
def startupConn (result : UInt32) : List Byte := buildRealm 0x01 [.u32 result]

section Build

variable (cmd : UInt16) (token : UInt32) (pack : List Field)

theorem build_eq : build cmd token pack =
    toLE 2 (8 + (fieldBytes pack).length) ++ (toLE 2 cmd.toNat ++ (toLE 4 token.toNat ++ fieldBytes pack)) := by
  have hfields : fieldBytes ([.u16 0, .u16 cmd, .u32 token] ++ pack) =
      toLE 2 0 ++ (toLE 2 cmd.toNat ++ (toLE 4 token.toNat ++ fieldBytes pack)) := rfl
  have hlen : (toLE 2 0 ++ (toLE 2 cmd.toNat ++ (toLE 4 token.toNat ++ fieldBytes pack))).length =
      8 + (fieldBytes pack).length := by
    rw [List.length_append, List.length_append, List.length_append, length_toLE, length_toLE, length_toLE]
    omega
  rw [build, putSize, hfields, hlen]
  rfl

/-- What the handlers read. -/
@[simp] theorem payload_build : (build cmd token pack).drop 4 = toLE 4 token.toNat ++ fieldBytes pack := by
  rw [build_eq]
  rfl

theorem length_build : (build cmd token pack).length = 8 + (fieldBytes pack).length := by
  rw [build_eq, List.length_append, List.length_append, List.length_append, length_toLE, length_toLE, length_toLE]
  omega

theorem header_build : Suite.header .baal (build cmd token pack) =
    ⟨cmd.toNat, (8 + (fieldBytes pack).length) % 65536⟩ := by
  have hcmd : ofLE (toLE 2 cmd.toNat) = cmd.toNat := ofLE_toLE_of_lt cmd.toNat_lt
  have hsize : ofLE (toLE 2 (8 + (fieldBytes pack).length)) = (8 + (fieldBytes pack).length) % 65536 := ofLE_toLE _ _
  rw [build_eq]
  show Header.mk (ofLE (toLE 2 cmd.toNat)) (ofLE (toLE 2 (8 + (fieldBytes pack).length))) = _
  rw [hcmd, hsize]

/-- **blitzd hands over what was packed**, and what follows stays. -/
theorem build_front (hfits : (build cmd token pack).length < 65536) (mem : (n : ℕ) → Buf n) (b : List Byte) :
    Complete .baal (build cmd token pack ++ b) ∧
      packetCall mem .baal (build cmd token pack ++ b) = ⟨.baal, cmd.toNat, (build cmd token pack).drop 4⟩ ∧
      behind .baal (build cmd token pack ++ b) = b := by
  have hlen := length_build cmd token pack
  have hheader : Suite.header .baal (build cmd token pack) = ⟨cmd.toNat, (build cmd token pack).length⟩ := by
    rw [header_build, hlen, Nat.mod_eq_of_lt (by omega)]
  have hwhole : Whole .baal (build cmd token pack) := by
    constructor
    · rw [hheader]
      show 4 ≤ (build cmd token pack).length
      omega
    · rw [hheader]
  refine ⟨hwhole.complete.append, ?_, ?_⟩
  · rw [hwhole.append.packetCall_eq, hwhole.wholeCall_append, wholeCall, hheader]
    rw [List.take_of_length_le (by rw [List.length_drop])]
  · rw [hwhole.behind_append, hwhole.behind_eq, hheader, List.drop_length, List.nil_append]

end Build

theorem length_userCheck (token cookie : UInt32) (hash : Buf 20) (username : Text) :
    (userCheck token cookie hash username).length = 33 + username.length := by
  have hfields : fieldBytes [.u32 cookie, .raw hash.bytes, .str username] =
      toLE 4 cookie.toNat ++ (hash.bytes ++ (username ++ [0] ++ [])) := rfl
  rw [userCheck, length_build, hfields]
  simp only [List.length_append, length_toLE, hash.len, List.length_singleton, List.length_nil]
  omega

theorem length_checkReply (token result : UInt32) : (checkReply token result).length = 12 := by
  rw [checkReply, length_build]
  rfl

end Blitzd.Packets.Baal
