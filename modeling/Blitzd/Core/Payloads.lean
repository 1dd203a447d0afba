import Blitzd.Core.Segmentation

/-! # What the packet loops hand over

The four loops of `OnRecv` as one (`loop`, `loop_succ`): as long as the front of the buffer is a complete packet it is
handed over and removed, and the file loop ends with the stage of its packets. `Split` is what that is meant to do to a
buffer: each payload is the bytes behind the header that the declared length covers, and as many bytes as declared are
removed.

The loops end whatever is in the buffer (`loop_eq_of_le`). They do what is meant exactly when no complete packet that
they meet declares less than its own header (`handsOver_iff`): otherwise the size wraps around, and the payload is
filled up from memory that was not received. -/

namespace Blitzd.Core

open Blitzd.Lib.Bytes Blitzd.Lib.Feed

variable {σ : Type}

/-! ### One loop for all stages -/

section Loop

variable (S : Suites σ) (mem : Memory σ) (suite : Suite)

/-- The loop a suite's packets are handed over by. -/
def loop (fuel : ℕ) (s : σ) (b : List Byte) : Out σ Byte PluginCall :=
  if suite = .file then fileLoop S mem fuel s b else packets S mem suite fuel s b

/-- Packets are being handed over: the file loop looks at the stage before each. -/
def Active (s : σ) : Prop := suite = .file → S.stage s = .fileTrans

/-- What the file loop does with the buffer in `FILERAW`; the other loops do nothing more. -/
def finish (s : σ) (b : List Byte) : Out σ Byte PluginCall :=
  if suite = .file ∧ S.stage s = .fileRaw ∧ 53 ≤ b.length then ⟨S.process (rawCall b) s, [], [rawCall b]⟩
  else ⟨s, b, []⟩

variable {S suite} {s s' : σ} {b b' : List Byte}

theorem finish_nil : finish S suite s [] = ⟨s, [], []⟩ := if_neg (by simp)

theorem loop_packet (ha : Active S suite s) (hc : Complete suite b) (fuel : ℕ) :
    loop S mem suite (fuel + 1) s b =
      (loop S mem suite fuel (S.process (packetCall (mem s) suite b) s) (behind suite b)).cons
        (packetCall (mem s) suite b) := by
  unfold loop
  by_cases hf : suite = .file
  · subst hf
    rw [if_pos rfl, if_pos rfl, fileLoop, ha rfl]
    exact if_pos hc
  · rw [if_neg hf, if_neg hf, Core.packets, if_pos hc]

theorem loop_end (h : ¬ (Active S suite s ∧ Complete suite b)) (fuel : ℕ) :
    loop S mem suite (fuel + 1) s b = finish S suite s b := by
  unfold loop finish
  by_cases hf : suite = .file
  · subst hf
    rw [if_pos rfl, fileLoop]
    rcases hst : S.stage s
    case fileTrans =>
      have hc : ¬ Complete .file b := fun hc => h ⟨fun _ => hst, hc⟩
      dsimp only
      rw [if_neg hc, if_neg (by simp)]
    case fileRaw =>
      dsimp only
      by_cases hlen : b.length < 53
      · rw [if_pos hlen, if_neg (by omega)]
      · rw [if_neg hlen, if_pos ⟨rfl, rfl, by omega⟩]
    all_goals rfl
  · have hc : ¬ Complete suite b := fun hc => h ⟨fun e => absurd e hf, hc⟩
    rw [if_neg hf, packets_stop hc, if_neg fun e => hf e.1]

theorem loop_nil (fuel : ℕ) : loop S mem suite fuel s [] = ⟨s, [], []⟩ := by
  rcases fuel with _ | fuel
  · unfold loop
    split_ifs <;> rfl
  · rw [loop_end mem (fun h => h.2.ne_nil rfl), finish_nil]

/-- **The loops end**: with more passes than the buffer has bytes nothing more happens. -/
theorem loop_eq_of_le {n m : ℕ} (hn : b.length ≤ n) (hm : b.length ≤ m) :
    loop S mem suite n s b = loop S mem suite m s b := by
  induction n generalizing m s b with
  | zero =>
    obtain rfl := List.eq_nil_of_length_eq_zero (Nat.le_zero.mp hn)
    rw [loop_nil, loop_nil]
  | succ n ih =>
    rcases m with _ | m
    · obtain rfl := List.eq_nil_of_length_eq_zero (Nat.le_zero.mp hm)
      rw [loop_nil, loop_nil]
    by_cases h : Active S suite s ∧ Complete suite b
    · have hlt := length_behind h.2
      rw [loop_packet mem h.1 h.2, loop_packet mem h.1 h.2, ih (m := m) (by omega) (by omega)]
    · rw [loop_end mem h, loop_end mem h]

theorem dispatch_eq_loop (hs : suiteOf (S.stage s) = some suite) (b : List Byte) :
    dispatch S mem s b = loop S mem suite b.length s b := by
  unfold dispatch loop
  rcases hst : S.stage s <;> rw [hst] at hs <;> cases hs <;> rfl

end Loop

/-! ### What is meant -/

/-- The buffer is cut into packets: the calls, the state behind them, and what is left of the buffer when no packet
is at its front. -/
inductive Split (S : Suites σ) (suite : Suite) : σ → List Byte → List PluginCall → σ → List Byte → Prop
  | done {s b} : ¬ (Active S suite s ∧ Complete suite b) → Split S suite s b [] s b
  | packet {s b l s' b'} : Active S suite s → Whole suite b →
      Split S suite (S.process (wholeCall suite b) s) (b.drop (suite.header b).psize) l s' b' →
        Split S suite s b (wholeCall suite b :: l) s' b'

/-- The loop of the stage hands over the packets the buffer is cut into, and leaves what is behind them. -/
def HandsOver (S : Suites σ) (mem : Memory σ) (suite : Suite) (s : σ) (b : List Byte) : Prop :=
  ∃ l s' b', Split S suite s b l s' b' ∧
    dispatch S mem s b = { finish S suite s' b' with calls := l ++ (finish S suite s' b').calls }

/-- The packet boundaries a loop comes to. -/
inductive Met (S : Suites σ) (suite : Suite) : σ → List Byte → σ → List Byte → Prop
  | here {s b} : Met S suite s b s b
  | next {s b s' b'} : Active S suite s → Whole suite b →
      Met S suite (S.process (wholeCall suite b) s) (b.drop (suite.header b).psize) s' b' → Met S suite s b s' b'

/-- Every packet that is met covers its own header. -/
def Sized (S : Suites σ) (suite : Suite) (s : σ) (b : List Byte) : Prop :=
  ∀ s' b', Met S suite s b s' b' → Active S suite s' → Complete suite b' → 4 ≤ (suite.header b').psize

section Iff

variable {S : Suites σ} {suite : Suite} {s s' : σ} {b b' : List Byte} {l : List PluginCall}

theorem Split.sized (h : Split S suite s b l s' b') : Sized S suite s b := by
  induction h with
  | done hn =>
    intro s' b' hm ha hc
    rcases hm with _ | ⟨ha', hw, -⟩
    · exact absurd ⟨ha, hc⟩ hn
    · exact absurd ⟨ha', hw.complete⟩ hn
  | packet _ hw _ ih =>
    intro s' b' hm ha hc
    rcases hm with _ | ⟨-, -, hm⟩
    · exact hw.low
    · exact ih s' b' hm ha hc

theorem Sized.loop (mem : Memory σ) {n : ℕ} (hn : b.length ≤ n) (h : Sized S suite s b) :
    ∃ l s' b', Split S suite s b l s' b' ∧
      Core.loop S mem suite (n + 1) s b = { finish S suite s' b' with calls := l ++ (finish S suite s' b').calls } := by
  induction n generalizing s b with
  | zero =>
    obtain rfl := List.eq_nil_of_length_eq_zero (Nat.le_zero.mp hn)
    exact ⟨[], s, [], .done fun hc => hc.2.ne_nil rfl, loop_end mem (fun hc => hc.2.ne_nil rfl) 0⟩
  | succ n ih =>
    by_cases hc : Active S suite s ∧ Complete suite b
    · have hw : Whole suite b := ⟨h s b .here hc.1 hc.2, hc.2.2⟩
      have hlt := length_behind hc.2
      rw [hw.behind_eq] at hlt
      obtain ⟨l, s', b', hsplit, hloop⟩ := ih (by omega) fun s' b' hm => h s' b' (.next hc.1 hw hm)
      refine ⟨_, s', b', .packet hc.1 hw hsplit, ?_⟩
      rw [loop_packet mem hc.1 hc.2, hw.packetCall_eq, hw.behind_eq, hloop]
      rfl
    · exact ⟨[], s, b, .done hc, loop_end mem hc _⟩

/-- **The loops hand over received bytes only**, packet by packet, exactly when every packet they meet covers its own
header; and they end in any case. -/
theorem handsOver_iff (S : Suites σ) (mem : Memory σ) {suite : Suite} {s : σ} (hs : suiteOf (S.stage s) = some suite)
    (b : List Byte) : (∀ n, b.length ≤ n → loop S mem suite n s b = dispatch S mem s b) ∧
      (HandsOver S mem suite s b ↔ Sized S suite s b) := by
  have hd := dispatch_eq_loop mem hs b
  refine ⟨fun n hn => by rw [hd, loop_eq_of_le mem hn le_rfl], fun ⟨l, s', b', hsplit, _⟩ => hsplit.sized, fun h => ?_⟩
  obtain ⟨l, s', b', hsplit, hloop⟩ := h.loop mem le_rfl
  exact ⟨l, s', b', hsplit, by rw [hd, loop_eq_of_le mem le_rfl (Nat.le_add_right _ 1), hloop]⟩

end Iff

/-! ### Connections of `fresh` -/

/-- `fresh` with its connection in a stage. -/
def freshIn (st : Stage) : Server := fresh.modifyClient 0 fun cl => { cl with stage := st }

/-- A packet of five bytes and the beginning of the next one. -/
theorem handsOver_five : suiteOf (freshSuites.stage (freshIn .bnet)) = some .bnet ∧
    HandsOver freshSuites (fun _ n => Buf.zero n) .bnet (freshIn .bnet) [0xFF, 0x25, 5, 0, 7, 0xFF] := by
  have hsize : (Suite.header .bnet [0xFF, 0x25, 5, 0, 7, 0xFF]).psize = 5 := by decide
  have hrest : ¬ Complete .bnet [0xFF] := by decide
  refine ⟨rfl, (handsOver_iff freshSuites _ rfl _).2.mpr fun s' b' hm _ hc => ?_⟩
  rcases hm with _ | ⟨-, -, hm⟩
  · rw [hsize]
    omega
  · rw [hsize] at hm
    rcases hm with _ | ⟨-, hw, -⟩
    · exact absurd hc hrest
    · exact absurd hw.complete hrest

/-- A packet that declares no bytes at all is dispatched with 65532 bytes, none of them received. -/
theorem short_packet_dispatched : suiteOf (freshSuites.stage (freshIn .bnet)) = some .bnet ∧ ∀ mem : Memory Server,
    (dispatch freshSuites mem (freshIn .bnet) [0xFF, 0x25, 0, 0]).calls =
      [⟨.bnet, 0x25FF, (mem (freshIn .bnet) 65532).bytes⟩] ∧
    ¬ HandsOver freshSuites mem .bnet (freshIn .bnet) [0xFF, 0x25, 0, 0] := by
  have hs : suiteOf (freshSuites.stage (freshIn .bnet)) = some .bnet := rfl
  have hc : Complete .bnet [0xFF, 0x25, 0, 0] := by decide
  have ha : Active freshSuites .bnet (freshIn .bnet) := fun h => by cases h
  refine ⟨hs, fun mem => ⟨?_, fun ⟨l, s', b', hsplit, _⟩ => ?_⟩⟩
  · rw [dispatch_eq_loop mem hs, show [0xFF, 0x25, 0, (0 : Byte)].length = 3 + 1 from rfl, loop_packet mem ha hc,
      show behind .bnet [0xFF, 0x25, 0, 0] = [] from List.drop_eq_nil_of_le (by decide), loop_nil]
    have hbody : bodySize .bnet [0xFF, 0x25, 0, 0] = 65532 := by decide
    have hop : (Suite.header .bnet [0xFF, 0x25, 0, 0]).op = 0x25FF := by decide
    have hempty : ∀ {n : ℕ} (a : Buf n), (a.fill []).bytes = a.bytes := fun a => by
      rw [a.fill_bytes_of_le (Nat.zero_le _), List.length_nil, List.drop_zero, List.nil_append]
    rw [Out.cons_calls, packetCall, hop, show [0xFF, 0x25, 0, (0 : Byte)].drop 4 = [] from rfl, hempty, hbody]
  · exact absurd (hsplit.sized _ _ .here ha hc) (by decide)

end Blitzd.Core
