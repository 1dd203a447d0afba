import Mathlib.Data.Finset.Basic
import Blitzd.Plugins.UserCheck

/-! # The realm server (baald)

A client that connects gets the next session number and is found by it. `StartupConn` sends what the client shows to
blitzd in a packet with the session as its token; blitzd's answer has the token again, and `UserCheck` passes the result to
the client found under it, if there is one. -/

namespace Blitzd.Baald

open Blitzd.Lib Blitzd.Lib.Bytes Blitzd.Lib.KeyMap Blitzd.Utils Blitzd.Utils.CString Blitzd.Core Blitzd.Packets
open Blitzd.Plugins.ReadUserData

/-- The clients, and the pool. `current` is `_current_session`. -/
structure Realm where
  live : Finset ConnId
  session : ConnId → UInt32
  sessionMap : List (UInt32 × ConnId)
  current : UInt32

namespace Realm

/-- `clientPool[s]`. -/
def find (r : Realm) (s : UInt32) : Option ConnId := KeyMap.find KeyEq.ofEq r.sessionMap s

/-- `Client()`. -/
def connect (r : Realm) (c : ConnId) : Realm where
  live := insert c r.live
  session := Function.update r.session c (r.current + 1)
  sessionMap := KeyMap.insert KeyEq.ofEq r.sessionMap (r.current + 1) c
  current := r.current + 1

/-- `~Client()`. -/
def disconnect (r : Realm) (c : ConnId) : Realm :=
  { r with live := r.live.erase c, sessionMap := erase KeyEq.ofEq r.sessionMap (r.session c) }

/-! ### Sessions -/

theorem find_connect (r : Realm) (c : ConnId) (s : UInt32) :
    (r.connect c).find s = if r.current + 1 = s then some c else r.find s := by
  have hins := find_insert (e := KeyEq.ofEq) r.sessionMap (r.current + 1) s c
  simp only [KeyEq.ofEq_eqv, decide_eq_true_eq] at hins
  exact hins

theorem find_disconnect (r : Realm) (c : ConnId) (s : UInt32) :
    (r.disconnect c).find s = if r.session c = s then none else r.find s := by
  have her := find_erase (e := KeyEq.ofEq) r.sessionMap (r.session c) s
  simp only [KeyEq.ofEq_eqv, decide_eq_true_eq] at her
  exact her

theorem session_connect_self (r : Realm) (c : ConnId) : (r.connect c).session c = r.current + 1 :=
  Function.update_self _ _ _

theorem session_connect_ne (r : Realm) {c d : ConnId} (h : d ≠ c) : (r.connect c).session d = r.session d :=
  Function.update_of_ne h _ _

/-- The pool has the live clients by their sessions. -/
def Pooled (r : Realm) : Prop := ∀ {s c}, r.find s = some c ↔ c ∈ r.live ∧ r.session c = s

theorem Pooled.connect {r : Realm} {c : ConnId} (h : r.Pooled) (hc : c ∉ r.live)
    (hfresh : ∀ d ∈ r.live, r.session d ≠ r.current + 1) : (r.connect c).Pooled := by
  have hsession : ∀ {d}, d ∈ r.live → (r.connect c).session d = r.session d := fun hd =>
    r.session_connect_ne fun he => hc (he ▸ hd)
  intro s d
  rw [r.find_connect]
  show _ ↔ d ∈ insert c r.live ∧ (r.connect c).session d = s
  rw [Finset.mem_insert]
  by_cases hs : r.current + 1 = s
  · rw [if_pos hs]
    constructor
    · rintro ⟨⟩
      exact ⟨.inl rfl, (r.session_connect_self c).trans hs⟩
    · rintro ⟨rfl | hd, hsd⟩
      · rfl
      · rw [hsession hd] at hsd
        exact absurd (hsd.trans hs.symm) (hfresh d hd)
  · rw [if_neg hs, h]
    constructor
    · rintro ⟨hd, hsd⟩
      exact ⟨.inr hd, (hsession hd).trans hsd⟩
    · rintro ⟨rfl | hd, hsd⟩
      · exact absurd ((r.session_connect_self d).symm.trans hsd) hs
      · exact ⟨hd, (hsession hd).symm.trans hsd⟩

theorem Pooled.disconnect {r : Realm} {c : ConnId} (h : r.Pooled) (hc : c ∈ r.live) : (r.disconnect c).Pooled := by
  intro s d
  rw [r.find_disconnect]
  show _ ↔ d ∈ r.live.erase c ∧ r.session d = s
  rw [Finset.mem_erase]
  by_cases hs : r.session c = s
  · rw [if_pos hs]
    refine iff_of_false (fun he => by cases he) ?_
    rintro ⟨⟨hne, hd⟩, hsd⟩
    -- two clients of one session would both be found under it
    have hc' := h.mpr ⟨hc, hs⟩
    have hd' := h.mpr ⟨hd, hsd⟩
    exact hne (Option.some.inj (hd'.symm.trans hc'))
  · rw [if_neg hs, h]
    refine ⟨fun ⟨hd, hsd⟩ => ⟨⟨?_, hd⟩, hsd⟩, fun ⟨hd, hsd⟩ => ⟨hd.2, hsd⟩⟩
    rintro rfl
    exact hs hsd

/-! ### The handlers -/

/-- What the members of the packet held before they are read. -/
structure Junk where
  cookie : Buf 4
  hash : Buf 20

/-- `StartupConn::Process`; the packet it sends to blitzd. -/
def startupConn (session : UInt32) (junk : Junk) (payload : List Byte) : List Byte :=
  let cookie := readUInt (Stream.ofBytes payload) junk.cookie
  let hash := (cookie.2.skip 40).readBuf junk.hash
  let username := hash.2.readStr
  Baal.userCheck session cookie.1 hash.1 username.1

/-- `UserCheck::Process`; the client the packet is sent to, and the packet. -/
def userCheck (r : Realm) (token result : Buf 4) (payload : List Byte) : Option (ConnId × List Byte) :=
  let t := readUInt (Stream.ofBytes payload) token
  match r.find t.1 with
  | none => none
  | some c => some (c, Baal.startupConn (readUInt t.2 result).1)

/-! ### The packets are read back -/

/-- **A request is passed on**: the cookie, the hash behind 40 bytes, and the name. -/
theorem startupConn_eq (session : UInt32) (junk : Junk) (cookie : UInt32) {skipped : List Byte}
    (hskipped : skipped.length = 40) (hash : Buf 20) {name : Text} (hname : NulFree name) :
    startupConn session junk (toLE 4 cookie.toNat ++ skipped ++ hash.bytes ++ (name ++ [0])) =
      Baal.userCheck session cookie hash name := by
  have hpay : Stream.ofBytes (toLE 4 cookie.toNat ++ skipped ++ hash.bytes ++ (name ++ [0])) =
      .after [] (toLE 4 cookie.toNat ++ (skipped ++ (hash.bytes ++ (name ++ [0] ++ [])))) := by
    simp only [Stream.ofBytes_eq, List.append_assoc, List.append_nil]
  unfold startupConn
  simp only [hpay, readUInt_after, Stream.skip_after _ _ hskipped, Stream.readBuf_after, Stream.readStr_after _ _ hname]

/-- A request that has room in a packet of the client has room in one to blitzd. -/
theorem length_startupConn (session : UInt32) (junk : Junk) {payload : List Byte} (h : payload.length ≤ 65532) :
    (startupConn session junk payload).length < 65536 := by
  have hstr : ∀ s : Stream, s.readStr.1.length ≤ s.buf.length - s.pos := by
    intro s
    have htake := (List.takeWhile_prefix (l := s.buf.drop s.pos) fun x : Byte => decide (x ≠ 0)).length_le
    rw [List.length_drop] at htake
    exact htake
  unfold startupConn
  dsimp only
  rw [Baal.length_userCheck]
  -- the name starts behind 64 bytes, or is empty
  set s₁ := (readUInt (Stream.ofBytes payload) junk.cookie).2 with hs₁
  set s₂ := ((s₁.skip 40).readBuf junk.hash).2 with hs₂
  have hbuf₁ : s₁.buf = payload := Stream.read_buf _ _
  have hpos₁ : s₁.pos = min (0 + 4) payload.length := Stream.read_pos _ _ (Nat.zero_le _)
  have hpos : (s₁.skip 40).pos = min (s₁.pos + 40) s₁.buf.length := rfl
  have hbuf₂ : s₂.buf = s₁.buf := Stream.read_buf _ _
  have hpos₂ : s₂.pos = min ((s₁.skip 40).pos + 20) s₁.buf.length := by
    refine Stream.read_pos (s₁.skip 40) 20 ?_
    rw [hpos]
    exact Nat.min_le_right _ _
  have hname := hstr s₂
  rw [hbuf₂, hpos₂, hpos, hpos₁, hbuf₁] at hname
  omega

/-- **An answer is passed to the client of the token.** -/
theorem userCheck_eq (r : Realm) (junk junk' : Buf 4) (token result : UInt32) :
    r.userCheck junk junk' ((Baal.checkReply token result).drop 4) =
      (r.find token).map fun c => (c, Baal.startupConn result) := by
  have hpay : (Baal.checkReply token result).drop 4 = toLE 4 token.toNat ++ (toLE 4 result.toNat ++ []) :=
    Baal.payload_build 0x10 token _
  unfold userCheck
  simp only [hpay, Stream.ofBytes_eq, readUInt_after]
  rcases r.find token with _ | c <;> rfl

/-! ### The connection to blitzd -/

/-- `BlitzConn::ProcessBaal`: the opcodes and payloads, and what is left of the buffer. `none` stands for a size that does
not cover the header, with which the stream is read far out of the buffer. -/
def processBaal : ℕ → List Byte → Option (List (ℕ × List Byte) × List Byte)
  | 0, b => some ([], b)
  | fuel + 1, b =>
    let psize := ofLE (b.take 2)
    if 4 ≤ b.length ∧ psize ≤ b.length then
      if psize < 4 then none
      else (processBaal fuel (b.drop psize)).map fun r =>
        ((ofLE ((b.drop 2).take 2), (b.drop 4).take (psize - 4)) :: r.1, r.2)
    else some ([], b)

/-- **Answers that come back to back are passed to `UserCheck` one by one.** -/
theorem processBaal_checkReply (replies : List (UInt32 × UInt32)) :
    processBaal (replies.length + 1) (replies.flatMap fun x => Baal.checkReply x.1 x.2) =
      some (replies.map fun x => (0x10, (Baal.checkReply x.1 x.2).drop 4), []) := by
  induction replies with
  | nil => rfl
  | cons x replies ih =>
    have hlen := Baal.length_checkReply x.1 x.2
    have hheader := Baal.header_build 0x10 x.1 [.u32 x.2]
    have hsize : ofLE ((Baal.checkReply x.1 x.2).take 2) = 12 := congrArg Header.psize hheader
    have hop : ofLE (((Baal.checkReply x.1 x.2).drop 2).take 2) = 0x10 := congrArg Header.op hheader
    rw [List.flatMap_cons, List.length_cons, List.map_cons, processBaal]
    generalize replies.flatMap (fun x => Baal.checkReply x.1 x.2) = rest at ih
    generalize Baal.checkReply x.1 x.2 = pkt at hlen hsize hop
    have hfront : (pkt ++ rest).take 2 = pkt.take 2 := List.take_append_of_le_length (by omega)
    have hsecond : ((pkt ++ rest).drop 2).take 2 = (pkt.drop 2).take 2 := by
      rw [List.drop_append_of_le_length (by omega), List.take_append_of_le_length]
      rw [List.length_drop]
      omega
    have hbody : ((pkt ++ rest).drop 4).take (12 - 4) = pkt.drop 4 := by
      rw [List.drop_append_of_le_length (by omega), List.take_left' (by rw [List.length_drop]; omega)]
    have hrest : (pkt ++ rest).drop 12 = rest := List.drop_left' hlen
    have hthere : 4 ≤ (pkt ++ rest).length ∧ 12 ≤ (pkt ++ rest).length := by
      rw [List.length_append]
      omega
    rw [hfront, hsize, if_pos hthere, if_neg (by omega), hrest, ih, hsecond, hop, hbody]
    rfl

end Realm

end Blitzd.Baald
