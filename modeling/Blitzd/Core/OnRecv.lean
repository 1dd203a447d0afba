import Blitzd.Core.Client
import Blitzd.Lib.Feed

/-! # Cutting the received bytes into packets (`Client::OnRecv`)

The first byte of a connection goes to the `Init` suite, which sets the stage. The stage at that point
picks a loop: `ProcessBNet`, `ProcessBNetLoggedIn` and `ProcessBaal` hand packets to their suite until
the buffer holds no complete one, whatever the handlers do to the stage meanwhile; `ProcessFile` looks at
the stage again before each packet, and in `FILERAW` hands over the whole buffer once it has 53 bytes.

The suites are a parameter (`Suites`): what they do is known only as far as the stage goes. A packet is
copied to an allocated array that is not cleared, and a size below four wraps around, so that its
payload ends in what the memory held; `Memory` is that content. -/

namespace Blitzd.Core

open Blitzd.Lib.Bytes Blitzd.Lib.Feed

inductive Suite
  | init | bnet | bnetLoggedIn | file | baal
deriving DecidableEq

/-- A call of `PluginManager::Process`, also for an opcode without a plugin. -/
structure PluginCall where
  suite : Suite
  op : ℕ
  payload : List Byte
deriving DecidableEq

/-- The stage behind a call: `InitBnet`, `InitFile` and `InitBaal` choose the protocol, `TokenReq` goes to
raw transfer, and the packets before login may log in. No other plugin calls `SetStage`. -/
def stageAfter (call : PluginCall) (login : Bool) (st : Stage) : Stage :=
  match call.suite with
  | .init =>
    if call.op = 0x01 then .bnet else if call.op = 0x02 then .fileTrans
    else if call.op = 0x65 then .baal else st
  | .bnet => if login then .bnetLoggedIn else st
  | .file => if call.op = 0x0200 then .fileRaw else st
  | .bnetLoggedIn | .baal => st

/-- The plugins, as one connection sees them: a state with its stage, and what a call does to it. -/
structure Suites (σ : Type) where
  stage : σ → Stage
  process : PluginCall → σ → σ
  logsIn : PluginCall → σ → Bool
  stage_process : ∀ call s, stage (process call s) = stageAfter call (logsIn call s) (stage s)

/-- What `new byte[n]` finds in memory. -/
abbrev Memory (σ : Type) := σ → (n : ℕ) → Buf n

/-! ### Headers -/

structure Header where
  op : ℕ
  psize : ℕ

/-- The `uint hdr` at the front of the buffer. BNet packets have the opcode in its low half and the size in
the other, the others the other way round. -/
def Suite.header (suite : Suite) (b : List Byte) : Header :=
  match suite with
  | .bnet | .bnetLoggedIn => ⟨ofLE (b.take 2), ofLE ((b.drop 2).take 2)⟩
  | .init | .file | .baal => ⟨ofLE ((b.drop 2).take 2), ofLE (b.take 2)⟩

/-- The buffer starts with a packet that is all there. -/
def Complete (suite : Suite) (b : List Byte) : Prop :=
  4 ≤ b.length ∧ (suite.header b).psize ≤ b.length

instance (suite : Suite) (b : List Byte) : Decidable (Complete suite b) :=
  inferInstanceAs (Decidable (_ ∧ _))

/-- `psize -= 4`, on a `ushort`. -/
def bodySize (suite : Suite) (b : List Byte) : ℕ := ((suite.header b).psize + 65532) % 65536

/-- The call for the packet at the front of the buffer; `read` copies what is there. -/
def packetCall (mem : (n : ℕ) → Buf n) (suite : Suite) (b : List Byte) : PluginCall where
  suite := suite
  op := (suite.header b).op
  payload := ((mem (bodySize suite b)).fill (b.drop 4)).bytes

/-- What is left of the buffer behind the packet. -/
def behind (suite : Suite) (b : List Byte) : List Byte := b.drop (4 + bodySize suite b)

/-! ### The loops -/

section Loops

variable {σ : Type} (S : Suites σ) (mem : Memory σ)

/-- The loop of `ProcessBNet`, `ProcessBNetLoggedIn` and `ProcessBaal`. A pass takes four bytes or more, so
the length of the buffer is enough fuel. -/
def packets (suite : Suite) : ℕ → σ → List Byte → Out σ Byte PluginCall
  | 0, s, b => ⟨s, b, []⟩
  | fuel + 1, s, b =>
    if Complete suite b then
      (packets suite fuel (S.process (packetCall (mem s) suite b) s) (behind suite b)).cons
        (packetCall (mem s) suite b)
    else ⟨s, b, []⟩

def processBNet (s : σ) (b : List Byte) : Out σ Byte PluginCall := packets S mem .bnet b.length s b

def processBNetLoggedIn (s : σ) (b : List Byte) : Out σ Byte PluginCall :=
  packets S mem .bnetLoggedIn b.length s b

def processBaal (s : σ) (b : List Byte) : Out σ Byte PluginCall := packets S mem .baal b.length s b

/-- The call of `FILERAW`. -/
def rawCall (b : List Byte) : PluginCall := ⟨.file, 0, b⟩

def fileLoop : ℕ → σ → List Byte → Out σ Byte PluginCall
  | 0, s, b => ⟨s, b, []⟩
  | fuel + 1, s, b =>
    match S.stage s with
    | .fileTrans =>
      if Complete .file b then
        (fileLoop fuel (S.process (packetCall (mem s) .file b) s) (behind .file b)).cons
          (packetCall (mem s) .file b)
      else ⟨s, b, []⟩
    | .fileRaw => if b.length < 53 then ⟨s, b, []⟩ else ⟨S.process (rawCall b) s, [], [rawCall b]⟩
    | _ => ⟨s, b, []⟩

def processFile (s : σ) (b : List Byte) : Out σ Byte PluginCall := fileLoop S mem b.length s b

/-- The `switch` on the stage. -/
def dispatch (s : σ) (b : List Byte) : Out σ Byte PluginCall :=
  match S.stage s with
  | .bnet => processBNet S mem s b
  | .bnetLoggedIn => processBNetLoggedIn S mem s b
  | .fileTrans | .fileRaw => processFile S mem s b
  | .baal => processBaal S mem s b
  | .connected => ⟨s, b, []⟩

/-- The call for the first byte. -/
def initCall (op : Byte) : PluginCall := ⟨.init, op.toNat, []⟩

def onRecv (s : σ) : List Byte → Out σ Byte PluginCall
  | [] => ⟨s, [], []⟩
  | op :: b =>
    if S.stage s = .connected then
      if b = [] then ⟨S.process (initCall op) s, [], [initCall op]⟩
      else (dispatch S mem (S.process (initCall op) s) b).cons (initCall op)
    else dispatch S mem s (op :: b)

end Loops

/-! ### Packets -/

section Packets

variable {suite : Suite} {b r : List Byte}

theorem header_append (suite : Suite) {b : List Byte} (r : List Byte) (hb : 4 ≤ b.length) :
    suite.header (b ++ r) = suite.header b := by
  have h1 : (b ++ r).take 2 = b.take 2 := List.take_append_of_le_length (by omega)
  have h2 : ((b ++ r).drop 2).take 2 = (b.drop 2).take 2 := by
    rw [List.drop_append_of_le_length (by omega), List.take_append_of_le_length]
    rw [List.length_drop]
    omega
  unfold Suite.header
  rw [h1, h2]

theorem psize_lt (suite : Suite) (b : List Byte) : (suite.header b).psize < 65536 := by
  have hlt : ∀ l : List Byte, ofLE (l.take 2) < 65536 := fun l =>
    calc ofLE (l.take 2) < 256 ^ (l.take 2).length := ofLE_lt _
      _ ≤ 256 ^ 2 := Nat.pow_le_pow_right (by omega) (by rw [List.length_take]; omega)
      _ = 65536 := by norm_num
  rcases suite <;> exact hlt _

/-- More bytes do not undo a packet. -/
theorem Complete.append (h : Complete suite b) : Complete suite (b ++ r) := by
  obtain ⟨h4, hp⟩ := h
  refine ⟨?_, ?_⟩ <;> simp only [header_append suite r h4, List.length_append] <;> omega

theorem Complete.ne_nil (h : Complete suite b) : b ≠ [] := by
  rintro rfl
  exact absurd h.1 (by simp)

theorem length_behind (h : Complete suite b) : (behind suite b).length < b.length := by
  have := h.1
  rw [behind, List.length_drop]
  omega

/-- The size of the packet covers its own header. -/
structure Whole (suite : Suite) (b : List Byte) : Prop where
  low : 4 ≤ (suite.header b).psize
  high : (suite.header b).psize ≤ b.length

/-- The call of a whole packet. -/
def wholeCall (suite : Suite) (b : List Byte) : PluginCall where
  suite := suite
  op := (suite.header b).op
  payload := (b.drop 4).take ((suite.header b).psize - 4)

theorem bodySize_eq (h : 4 ≤ (suite.header b).psize) : bodySize suite b = (suite.header b).psize - 4 := by
  have hlt := psize_lt suite b
  unfold bodySize
  omega

/-- `psize -= 4` wraps around. -/
theorem bodySize_pos_of_short (h : (suite.header b).psize < 4) : 0 < bodySize suite b := by
  unfold bodySize
  omega

namespace Whole

theorem length_ge (h : Whole suite b) : 4 ≤ b.length := le_trans h.low h.high

theorem complete (h : Whole suite b) : Complete suite b := ⟨h.length_ge, h.high⟩

theorem behind_eq (h : Whole suite b) : behind suite b = b.drop (suite.header b).psize := by
  have hlow := h.low
  rw [behind, bodySize_eq hlow]
  congr 1
  omega

/-- The payload of a whole packet shows nothing of the memory. -/
theorem packetCall_eq (h : Whole suite b) (mem : (n : ℕ) → Buf n) :
    packetCall mem suite b = wholeCall suite b := by
  have hle : bodySize suite b ≤ (b.drop 4).length := by
    have := h.high
    rw [bodySize_eq h.low, List.length_drop]
    omega
  rw [packetCall, Buf.fill_bytes_of_ge _ hle, bodySize_eq h.low, wholeCall]

/-- What is behind the packet does not change its call. -/
theorem wholeCall_append (h : Whole suite b) : wholeCall suite (b ++ r) = wholeCall suite b := by
  have hpay : ((b ++ r).drop 4).take ((suite.header b).psize - 4) =
      (b.drop 4).take ((suite.header b).psize - 4) := by
    have := h.high
    rw [List.drop_append_of_le_length h.length_ge, List.take_append_of_le_length]
    rw [List.length_drop]
    omega
  rw [wholeCall, header_append suite r h.length_ge, hpay, wholeCall]

theorem append (h : Whole suite b) : Whole suite (b ++ r) := by
  have hh := header_append suite r h.length_ge
  constructor
  · rw [hh]
    exact h.low
  · rw [hh, List.length_append]
    exact le_trans h.high (Nat.le_add_right _ _)

theorem behind_append (h : Whole suite b) : behind suite (b ++ r) = behind suite b ++ r := by
  rw [h.append.behind_eq, h.behind_eq, header_append suite r h.length_ge, List.drop_append_of_le_length h.high]

/-- A complete packet of a stream in which it is whole. -/
theorem of_append (h : Whole suite (b ++ r)) (hc : Complete suite b) : Whole suite b := by
  have hh := header_append suite r hc.1
  constructor
  · rw [← hh]
    exact h.low
  · exact hc.2

/-- The bytes of the packet itself. -/
theorem front (h : Whole suite b) : Whole suite (b.take (suite.header b).psize) ∧
    behind suite (b.take (suite.header b).psize) = [] := by
  have hlen : (b.take (suite.header b).psize).length = (suite.header b).psize := by
    rw [List.length_take]
    exact Nat.min_eq_left h.high
  have hh : suite.header (b.take (suite.header b).psize) = suite.header b := by
    have := header_append suite (b.drop (suite.header b).psize) (hlen.symm ▸ h.low)
    rwa [List.take_append_drop, eq_comm] at this
  have hw : Whole suite (b.take (suite.header b).psize) := by
    constructor
    · rw [hh]
      exact h.low
    · rw [hh, hlen]
  refine ⟨hw, ?_⟩
  rw [hw.behind_eq, hh]
  exact List.drop_eq_nil_of_le hlen.le

end Whole

/-- A size below four leaves the end of the payload to the memory. -/
theorem packetCall_ne_of_short (h : (suite.header b).psize < 4) (hb : b.length ≤ 4) {x y : Byte}
    (hxy : x ≠ y) :
    packetCall (fun n => Buf.const n x) suite b ≠ packetCall (fun n => Buf.const n y) suite b := by
  intro he
  simp only [packetCall, PluginCall.mk.injEq, true_and] at he
  have hlen : (b.drop 4).length < bodySize suite b := by
    have hpos := bodySize_pos_of_short h
    rw [List.length_drop]
    omega
  exact Buf.const_fill_ne hlen hxy (Buf.ext he)

end Packets

end Blitzd.Core
