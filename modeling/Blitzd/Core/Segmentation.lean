import Blitzd.Cache.UserLookup
import Blitzd.Core.OnRecv
import Blitzd.Plugins.Dispatch

/-! # Which streams do not depend on how they arrive

TCP cuts a stream as it likes, and every segment is a call of `OnRecv`. `Transcript S s b l` lists the
streams `b` that are framed cleanly from the state `s`, with the calls `l` they make: the first byte is a
known protocol, every packet has a size of at least four, nothing complete follows the packet that logs
in, and at most 53 bytes follow the request for a raw transfer.

`independent_iff_framed`: those are exactly the streams whose calls are the same for any two cuts. From
such a stream each call of `OnRecv` makes a beginning of the transcript (`Reads`); any other stream is cut
in two ways that differ (`framed_of_independent`). -/

namespace Blitzd.Core

open Blitzd.Lib.Bytes Blitzd.Lib.Feed Blitzd.Cache Blitzd.Plugins.Dispatch

/-- The suite that takes the packets of a stage. -/
def suiteOf : Stage → Option Suite
  | .bnet => some .bnet
  | .bnetLoggedIn => some .bnetLoggedIn
  | .fileTrans => some .file
  | .baal => some .baal
  | .connected | .fileRaw => none

/-- `InitBnet`, `InitFile` or `InitBaal`. -/
def Known (op : Byte) : Prop := op = 0x01 ∨ op = 0x02 ∨ op = 0x65

instance (op : Byte) : Decidable (Known op) := inferInstanceAs (Decidable (_ ∨ _))

variable {σ : Type}

/-- A packet before login that logs in. -/
def LogsIn (S : Suites σ) (suite : Suite) (b : List Byte) (s : σ) : Prop :=
  suite = .bnet ∧ S.logsIn (wholeCall suite b) s = true

/-- The stream is framed cleanly and makes the calls. -/
inductive Transcript (S : Suites σ) : σ → List Byte → List PluginCall → Prop
  | nil {s : σ} : Transcript S s [] []
  | lone {s : σ} {op : Byte} : S.stage s = .connected → Transcript S s [op] [initCall op]
  | init {s : σ} {op : Byte} {b : List Byte} {l : List PluginCall} :
      S.stage s = .connected → Known op → Transcript S (S.process (initCall op) s) b l →
        Transcript S s (op :: b) (initCall op :: l)
  | wait {s : σ} {suite : Suite} {b : List Byte} :
      suiteOf (S.stage s) = some suite → ¬ Complete suite b → Transcript S s b []
  | packet {s : σ} {suite : Suite} {b : List Byte} {l : List PluginCall} :
      suiteOf (S.stage s) = some suite → Whole suite b → ¬ LogsIn S suite b s →
        Transcript S (S.process (wholeCall suite b) s) (behind suite b) l →
          Transcript S s b (wholeCall suite b :: l)
  | login {s : σ} {suite : Suite} {b : List Byte} :
      suiteOf (S.stage s) = some suite → Whole suite b → LogsIn S suite b s →
        ¬ Complete suite (behind suite b) → Transcript S s b [wholeCall suite b]
  | rawWait {s : σ} {b : List Byte} :
      S.stage s = .fileRaw → b.length < 53 → Transcript S s b []
  | raw {s : σ} {b : List Byte} :
      S.stage s = .fileRaw → b.length = 53 → Transcript S s b [rawCall b]

/-- The stream is framed cleanly. -/
def Framed (S : Suites σ) (s : σ) (stream : List Byte) : Prop := ∃ l, Transcript S s stream l

variable {S : Suites σ} {mem : Memory σ} {s : σ} {suite : Suite} {b r : List Byte} {l : List PluginCall}

/-! ### Stages -/

theorem stage_init {op : Byte} (h : Known op) :
    S.stage (S.process (initCall op) s) = .bnet ∨ S.stage (S.process (initCall op) s) = .fileTrans ∨
      S.stage (S.process (initCall op) s) = .baal := by
  rw [S.stage_process]
  rcases h with rfl | rfl | rfl
  · exact .inl rfl
  · exact .inr (.inl rfl)
  · exact .inr (.inr rfl)

theorem stage_unknown {op : Byte} (hs : S.stage s = .connected) (h : ¬ Known op) :
    S.stage (S.process (initCall op) s) = .connected := by
  have hne : ∀ k : Byte, op ≠ k → op.toNat ≠ k.toNat := fun k hk he => hk (UInt8.toNat_inj.mp he)
  simp only [Known, not_or] at h
  rw [S.stage_process, hs]
  exact (if_neg (hne 0x01 h.1)).trans ((if_neg (hne 0x02 h.2.1)).trans (if_neg (hne 0x65 h.2.2)))

theorem stage_login (h : LogsIn S suite b s) :
    S.stage (S.process (wholeCall suite b) s) = .bnetLoggedIn := by
  obtain ⟨rfl, hl⟩ := h
  rw [S.stage_process, hl]
  rfl

/-- Outside the file protocol a packet that does not log in keeps the stage. -/
theorem stage_keep (hs : suiteOf (S.stage s) = some suite) (hf : suite ≠ .file)
    (h : ¬ LogsIn S suite b s) : S.stage (S.process (wholeCall suite b) s) = S.stage s := by
  rw [S.stage_process]
  rcases suite
  · rcases hst : S.stage s <;> rw [hst] at hs <;> cases hs
  · have hl : S.logsIn (wholeCall .bnet b) s = false := by
      by_contra hc
      exact h ⟨rfl, Bool.eq_true_of_not_eq_false hc⟩
    rw [hl]
    rfl
  · rfl
  · exact absurd rfl hf
  · rfl

theorem stage_file (hs : S.stage s = .fileTrans) :
    S.stage (S.process (wholeCall .file b) s) = .fileTrans ∨
      S.stage (S.process (wholeCall .file b) s) = .fileRaw := by
  rw [S.stage_process, hs]
  by_cases hop : (wholeCall .file b).op = 0x0200
  · exact .inr (if_pos hop)
  · exact .inl (if_neg hop)

theorem suiteOf_ne (hs : S.stage s = .connected ∨ S.stage s = .fileRaw) (x : Suite) :
    suiteOf (S.stage s) ≠ some x := by
  rcases hs with hs | hs <;> rw [hs] <;> simp [suiteOf]

/-! ### Reading a transcript back -/

theorem Transcript.eq_nil (h : Transcript S s [] l) : l = [] := by
  rcases h with _ | _ | _ | _ | ⟨-, hw⟩ | ⟨-, hw⟩ | _ | ⟨-, hlen⟩
  · rfl
  · rfl
  · exact absurd hw.length_ge (by simp)
  · exact absurd hw.length_ge (by simp)
  · rfl
  · exact absurd hlen (by simp)

theorem Transcript.connected {op : Byte} (h : Transcript S s (op :: b) l) (hs : S.stage s = .connected) :
    (b = [] ∧ l = [initCall op]) ∨
      (Known op ∧ ∃ l', l = initCall op :: l' ∧ Transcript S (S.process (initCall op) s) b l') := by
  have hno := suiteOf_ne (.inl hs)
  rcases h with _ | _ | ⟨-, hk, ht⟩ | ⟨hx⟩ | ⟨hx⟩ | ⟨hx⟩ | ⟨hx⟩ | ⟨hx⟩
  · exact .inl ⟨rfl, rfl⟩
  · exact .inr ⟨hk, _, rfl, ht⟩
  · exact absurd hx (hno _)
  · exact absurd hx (hno _)
  · exact absurd hx (hno _)
  · rw [hs] at hx
    cases hx
  · rw [hs] at hx
    cases hx

theorem Transcript.fileRaw (h : Transcript S s b l) (hs : S.stage s = .fileRaw) :
    (b.length < 53 ∧ l = []) ∨ (b.length = 53 ∧ l = [rawCall b]) := by
  have hno := suiteOf_ne (.inr hs)
  rcases h with _ | ⟨hx⟩ | ⟨hx⟩ | ⟨hx⟩ | ⟨hx⟩ | ⟨hx⟩ | ⟨-, hlen⟩ | ⟨-, hlen⟩
  · exact .inl ⟨by simp, rfl⟩
  · rw [hs] at hx
    cases hx
  · rw [hs] at hx
    cases hx
  · exact absurd hx (hno _)
  · exact absurd hx (hno _)
  · exact absurd hx (hno _)
  · exact .inl ⟨hlen, rfl⟩
  · exact .inr ⟨hlen, rfl⟩

/-- In the stages with packets: nothing complete yet, a packet and the transcript behind it, or the packet
that logs in. -/
theorem Transcript.packets (h : Transcript S s b l) (hs : suiteOf (S.stage s) = some suite) :
    (¬ Complete suite b ∧ l = []) ∨
      (Whole suite b ∧ ¬ LogsIn S suite b s ∧ ∃ l', l = wholeCall suite b :: l' ∧
        Transcript S (S.process (wholeCall suite b) s) (behind suite b) l') ∨
      (Whole suite b ∧ LogsIn S suite b s ∧ l = [wholeCall suite b] ∧
        ¬ Complete suite (behind suite b)) := by
  have hno : S.stage s ≠ .connected ∧ S.stage s ≠ .fileRaw :=
    ⟨fun hx => suiteOf_ne (.inl hx) _ hs, fun hx => suiteOf_ne (.inr hx) _ hs⟩
  rcases h with _ | ⟨hx⟩ | ⟨hx⟩ | ⟨hx, hc⟩ | ⟨hx, hw, hl, ht⟩ | ⟨hx, hw, hl, hc⟩ | ⟨hx⟩ | ⟨hx⟩
  · exact .inl ⟨fun hc => hc.ne_nil rfl, rfl⟩
  · exact absurd hx hno.1
  · exact absurd hx hno.1
  · rw [hs] at hx
    cases hx
    exact .inl ⟨hc, rfl⟩
  · rw [hs] at hx
    cases hx
    exact .inr (.inl ⟨hw, hl, _, rfl, ht⟩)
  · rw [hs] at hx
    cases hx
    exact .inr (.inr ⟨hw, hl, rfl, hc⟩)
  · exact absurd hx hno.2
  · exact absurd hx hno.2

/-! ### A call of `OnRecv` makes a beginning of the transcript -/

/-- With `r` still to come, the calls made are a beginning of `l`, and all of it when nothing comes. -/
def Reads (S : Suites σ) (o : Out σ Byte PluginCall) (r : List Byte) (l : List PluginCall) : Prop :=
  ∃ l', l = o.calls ++ l' ∧ Transcript S o.state (o.rest ++ r) l' ∧ (r = [] → l' = [])

theorem Reads.cons {o : Out σ Byte PluginCall} {x : PluginCall} (h : Reads S o r l) :
    Reads S (o.cons x) r (x :: l) := by
  obtain ⟨l', rfl, ht, hr⟩ := h
  exact ⟨l', rfl, ht, hr⟩

theorem Reads.stop (h : Transcript S s (b ++ r) l) (hr : r = [] → l = []) : Reads S ⟨s, b, []⟩ r l :=
  ⟨l, rfl, h, hr⟩

/-- All bytes are used up. -/
theorem Reads.used {x : PluginCall} (h : Transcript S s r l) : Reads S ⟨s, [], [x]⟩ r (x :: l) := by
  refine ⟨l, rfl, h, ?_⟩
  rintro rfl
  exact h.eq_nil

theorem packets_stop (hc : ¬ Complete suite b) (fuel : ℕ) : packets S mem suite fuel s b = ⟨s, b, []⟩ := by
  rcases fuel with _ | fuel
  · rfl
  · rw [Core.packets, if_neg hc]

theorem packets_step (S : Suites σ) (mem : Memory σ) (s : σ) {suite : Suite} {b : List Byte}
    (hc : Complete suite b) {fuel : ℕ} (hf : b.length ≤ fuel) :
    ∃ n, (behind suite b).length ≤ n ∧ packets S mem suite fuel s b =
      (packets S mem suite n (S.process (packetCall (mem s) suite b) s) (behind suite b)).cons
        (packetCall (mem s) suite b) := by
  have hlt := length_behind hc
  obtain ⟨n, rfl⟩ : ∃ n, fuel = n + 1 := ⟨fuel - 1, by omega⟩
  refine ⟨n, by omega, ?_⟩
  rw [Core.packets, if_pos hc]

/-- The stream's packet is the buffer's, once the buffer has it. -/
theorem Whole.buffered (h : Whole suite (b ++ r)) (hc : Complete suite b) (m : (n : ℕ) → Buf n) :
    packetCall m suite b = wholeCall suite (b ++ r) ∧ behind suite (b ++ r) = behind suite b ++ r := by
  have hw := h.of_append hc
  exact ⟨by rw [hw.packetCall_eq, hw.wholeCall_append], hw.behind_append⟩

theorem reads_wait (h : Transcript S s (b ++ r) l) (hs : suiteOf (S.stage s) = some suite)
    (hc : ¬ Complete suite b) : Reads S ⟨s, b, []⟩ r l := by
  refine Reads.stop h ?_
  rintro rfl
  rw [List.append_nil] at h
  rcases h.packets hs with ⟨-, hl⟩ | ⟨hw, -⟩ | ⟨hw, -⟩
  · exact hl
  · exact absurd hw.complete hc
  · exact absurd hw.complete hc

theorem reads_rawWait (h : Transcript S s (b ++ r) l) (hs : S.stage s = .fileRaw) (hlen : b.length < 53) :
    Reads S ⟨s, b, []⟩ r l := by
  refine Reads.stop h ?_
  rintro rfl
  rw [List.append_nil] at h
  rcases h.fileRaw hs with ⟨-, hl⟩ | ⟨hl, -⟩
  · exact hl
  · omega

theorem reads_packets (hf : suite ≠ .file) : ∀ (fuel : ℕ) {s : σ} {b : List Byte} {l : List PluginCall},
    b.length ≤ fuel → suiteOf (S.stage s) = some suite → Transcript S s (b ++ r) l →
      Reads S (packets S mem suite fuel s b) r l := by
  intro fuel
  induction fuel with
  | zero =>
    intro s b l hb hs h
    have hc : ¬ Complete suite b := fun hc => by
      have := hc.1
      omega
    exact reads_wait h hs hc
  | succ fuel ih =>
    intro s b l hb hs h
    by_cases hc : Complete suite b
    · have hlt := length_behind hc
      rw [Core.packets, if_pos hc]
      rcases h.packets hs with ⟨hn, -⟩ | ⟨hw, hl, l', rfl, ht⟩ | ⟨hw, hl, rfl, hn⟩
      · exact absurd hc.append hn
      · obtain ⟨hcall, hrest⟩ := hw.buffered hc (mem s)
        rw [hcall]
        rw [hrest] at ht
        refine (ih (by omega) ?_ ht).cons
        rw [stage_keep hs hf hl, hs]
      · -- the loop goes on in the old suite, but finds nothing complete
        obtain ⟨hcall, hrest⟩ := hw.buffered hc (mem s)
        rw [hcall]
        rw [hrest] at hn
        rw [packets_stop fun h => hn h.append]
        have hst := congrArg suiteOf (stage_login hl)
        refine (Reads.stop (.wait hst ?_) fun _ => rfl).cons
        obtain ⟨rfl, -⟩ := hl
        exact hn
    · rw [packets_stop hc]
      exact reads_wait h hs hc

theorem reads_file : ∀ (fuel : ℕ) {s : σ} {b : List Byte} {l : List PluginCall}, b.length ≤ fuel →
    S.stage s = .fileTrans ∨ S.stage s = .fileRaw → Transcript S s (b ++ r) l →
      Reads S (fileLoop S mem fuel s b) r l := by
  intro fuel
  induction fuel with
  | zero =>
    rintro s b l hb (hs | hs) h
    · have hc : ¬ Complete .file b := fun hc => by
        have := hc.1
        omega
      exact reads_wait h (by rw [hs]; rfl) hc
    · exact reads_rawWait h hs (by omega)
  | succ fuel ih =>
    rintro s b l hb (hs | hs) h
    · have hsuite : suiteOf (S.stage s) = some .file := by
        rw [hs]
        rfl
      unfold fileLoop
      rw [hs]
      by_cases hc : Complete .file b
      · have hlt := length_behind hc
        rw [if_pos hc]
        rcases h.packets hsuite with ⟨hn, -⟩ | ⟨hw, -, l', rfl, ht⟩ | ⟨-, hl, -⟩
        · exact absurd hc.append hn
        · obtain ⟨hcall, hrest⟩ := hw.buffered hc (mem s)
          rw [hcall]
          rw [hrest] at ht
          exact (ih (by omega) (stage_file hs) ht).cons
        · exact absurd hl.1 (by simp)
      · rw [if_neg hc]
        exact reads_wait h hsuite hc
    · unfold fileLoop
      rw [hs]
      by_cases hlen : b.length < 53
      · rw [if_pos hlen]
        exact reads_rawWait h hs hlen
      · rw [if_neg hlen]
        rcases h.fileRaw hs with ⟨hl, -⟩ | ⟨hl, rfl⟩
        · rw [List.length_append] at hl
          omega
        · have hr : r = [] := by
            rw [List.length_append] at hl
            exact List.eq_nil_of_length_eq_zero (by omega)
          subst hr
          rw [List.append_nil]
          exact Reads.used .nil

theorem reads_dispatch (hs : S.stage s ≠ .connected) (h : Transcript S s (b ++ r) l) :
    Reads S (dispatch S mem s b) r l := by
  unfold dispatch
  rcases hst : S.stage s
  · exact absurd hst hs
  · exact reads_packets (by simp) _ le_rfl (by rw [hst]; rfl) h
  · exact reads_packets (by simp) _ le_rfl (by rw [hst]; rfl) h
  · exact reads_file _ le_rfl (.inl hst) h
  · exact reads_file _ le_rfl (.inr hst) h
  · exact reads_packets (by simp) _ le_rfl (by rw [hst]; rfl) h

theorem onRecv_dispatch (hs : S.stage s ≠ .connected) (hb : b ≠ []) :
    onRecv S mem s b = dispatch S mem s b := by
  obtain ⟨op, b, rfl⟩ := List.exists_cons_of_ne_nil hb
  rw [onRecv, if_neg hs]

theorem reads_onRecv (S : Suites σ) (mem : Memory σ) {s : σ} {b r : List Byte} {l : List PluginCall}
    (hb : b ≠ []) (h : Transcript S s (b ++ r) l) : Reads S (onRecv S mem s b) r l := by
  by_cases hs : S.stage s = .connected
  · obtain ⟨op, b, rfl⟩ := List.exists_cons_of_ne_nil hb
    rw [onRecv, if_pos hs]
    rcases Transcript.connected h hs with ⟨hnil, rfl⟩ | ⟨hk, l', rfl, ht⟩
    · obtain ⟨rfl, rfl⟩ := List.append_eq_nil_iff.mp hnil
      exact Reads.used .nil
    · by_cases hb : b = []
      · subst hb
        exact Reads.used ht
      · rw [if_neg hb]
        refine (reads_dispatch ?_ ht).cons
        rcases stage_init (S := S) (s := s) hk with h | h | h <;> rw [h] <;> simp
  · rw [onRecv_dispatch hs hb]
    exact reads_dispatch hs h

/-- `OnRecv` reads transcripts, whatever the memory holds. -/
theorem framing_onRecv (S : Suites σ) (mem : Memory σ) : Framing (onRecv S mem) (Transcript S) where
  nil := Transcript.eq_nil
  step hb h := by
    obtain ⟨l', hl, ht, -⟩ := reads_onRecv S mem hb h
    exact ⟨l', hl, ht⟩
  all {s b l} hb h := by
    rw [← List.append_nil b] at h
    obtain ⟨l', hl, -, hr⟩ := reads_onRecv S mem hb h
    rw [hl, hr rfl, List.append_nil]

/-! ### Two cuts that differ -/

theorem packets_nil (fuel : ℕ) : packets S mem suite fuel s [] = ⟨s, [], []⟩ :=
  packets_stop (fun hc => hc.ne_nil rfl) fuel

theorem fileLoop_nil (fuel : ℕ) : fileLoop S mem fuel s [] = ⟨s, [], []⟩ := by
  rcases fuel with _ | fuel
  · rfl
  · unfold fileLoop
    rcases S.stage s <;> rfl

/-- The first complete packet of a buffer is handed over; what follows depends on the loop. -/
theorem onRecv_complete (S : Suites σ) (mem : Memory σ) {s : σ} {suite : Suite} {b : List Byte}
    (hs : suiteOf (S.stage s) = some suite) (hc : Complete suite b) :
    ∃ n, (behind suite b).length ≤ n ∧ onRecv S mem s b =
      (if suite = .file then
        fileLoop S mem n (S.process (packetCall (mem s) suite b) s) (behind suite b)
      else packets S mem suite n (S.process (packetCall (mem s) suite b) s) (behind suite b)).cons
        (packetCall (mem s) suite b) := by
  rw [onRecv_dispatch (fun hx => suiteOf_ne (.inl hx) _ hs) hc.ne_nil]
  unfold dispatch
  rcases hst : S.stage s <;> rw [hst] at hs <;> cases hs
  · exact packets_step S mem s hc le_rfl
  · exact packets_step S mem s hc le_rfl
  · have hlt := length_behind hc
    obtain ⟨n, hn⟩ : ∃ n, b.length = n + 1 := ⟨b.length - 1, by omega⟩
    refine ⟨n, by omega, ?_⟩
    simp only [processFile, hn, fileLoop, hst, if_pos hc, if_true]
  · exact packets_step S mem s hc le_rfl

theorem onRecv_head (S : Suites σ) (mem : Memory σ) {s : σ} {suite : Suite} {b : List Byte}
    (hs : suiteOf (S.stage s) = some suite) (hc : Complete suite b) :
    ∃ l, (onRecv S mem s b).calls = packetCall (mem s) suite b :: l := by
  obtain ⟨n, -, h⟩ := onRecv_complete S mem hs hc
  rw [h]
  exact ⟨_, rfl⟩

/-- The packet at the front of the stream, in a segment of its own. -/
theorem onRecv_front (S : Suites σ) (mem : Memory σ) {s : σ} {suite : Suite} {b : List Byte}
    (hs : suiteOf (S.stage s) = some suite) (hw : Whole suite b) :
    onRecv S mem s (b.take (suite.header b).psize) =
      ⟨S.process (wholeCall suite b) s, [], [wholeCall suite b]⟩ := by
  obtain ⟨hf, hnil⟩ := hw.front
  have hcall : wholeCall suite (b.take (suite.header b).psize) = wholeCall suite b := by
    rw [← hf.wholeCall_append (r := b.drop (suite.header b).psize), List.take_append_drop]
  obtain ⟨n, -, h⟩ := onRecv_complete S mem hs hf.complete
  rw [h, hnil, packets_nil, fileLoop_nil, ite_self, hf.packetCall_eq, hcall]
  rfl

theorem Whole.take_append_behind (hw : Whole suite b) :
    b.take (suite.header b).psize ++ behind suite b = b := by
  rw [hw.behind_eq, List.take_append_drop]

theorem short_differs (hs : suiteOf (S.stage s) = some suite) (hc : Complete suite b)
    (hshort : (suite.header b).psize < 4) : ¬ Independent (onRecv S) s b := by
  intro h
  -- the four bytes of the header alone, and two contents of the memory
  have hh : suite.header (b.take 4) = suite.header b := by
    have := header_append suite (b.drop 4) (b := b.take 4) (by rw [List.length_take]; have := hc.1; omega)
    rwa [List.take_append_drop, eq_comm] at this
  have hlen : (b.take 4).length = 4 := by
    have := hc.1
    rw [List.length_take]
    omega
  have hc' : Complete suite (b.take 4) := ⟨hlen.ge, by rw [hh, hlen]; omega⟩
  obtain ⟨segs, hsegs⟩ := exists_cut (b.drop 4)
  have hcut := hsegs.cons (p := b.take 4) hc'.ne_nil
  rw [List.take_append_drop] at hcut
  have he := h (fun _ n => Buf.const n 0) (fun _ n => Buf.const n 1) _ _ hcut hcut
  obtain ⟨l₁, h₁⟩ := onRecv_head S (fun _ n => Buf.const n 0) hs hc'
  obtain ⟨l₂, h₂⟩ := onRecv_head S (fun _ n => Buf.const n 1) hs hc'
  simp only [deliver, List.nil_append, h₁, h₂, List.cons_append, List.cons.injEq] at he
  exact packetCall_ne_of_short (by rwa [hh]) hlen.le (by decide) he.1

/-- A first byte that is no protocol: the bytes behind it wait for the next segment. -/
theorem unknown_differs {op : Byte} (hs : S.stage s = .connected) (hk : ¬ Known op) (hb : b ≠ []) :
    ¬ Independent (onRecv S) s (op :: b) := by
  intro h
  have hs' : S.stage (S.process (initCall op) s) = .connected := stage_unknown hs hk
  let mem : Memory σ := fun _ n => Buf.zero n
  have hop : onRecv S mem s [op] = ⟨S.process (initCall op) s, [], [initCall op]⟩ := by
    rw [onRecv, if_pos hs, if_pos rfl]
  have he := Independent.split (p := [op]) h (by simp) mem hop hb
  obtain ⟨op', b', rfl⟩ := List.exists_cons_of_ne_nil hb
  have hall : (onRecv S mem s ([op] ++ op' :: b')).calls = [initCall op] := by
    simp [onRecv, dispatch, hs, hs']
  have hnext : ∃ l, (onRecv S mem (S.process (initCall op) s) (op' :: b')).calls = initCall op' :: l := by
    rw [onRecv, if_pos hs']
    by_cases hb' : b' = []
    · exact ⟨[], by rw [if_pos hb']⟩
    · exact ⟨_, by rw [if_neg hb', Out.cons_calls]⟩
  obtain ⟨l, hl⟩ := hnext
  rw [hall, hl] at he
  cases he

theorem raw_differs (hs : S.stage s = .fileRaw) (hlen : 53 < b.length) : ¬ Independent (onRecv S) s b := by
  intro h
  let mem : Memory σ := fun _ n => Buf.zero n
  have hraw : ∀ {s : σ} {b : List Byte}, S.stage s = .fileRaw → 53 ≤ b.length →
      onRecv S mem s b = ⟨S.process (rawCall b) s, [], [rawCall b]⟩ := by
    intro s b hs hb
    obtain ⟨n, hn⟩ : ∃ n, b.length = n + 1 := ⟨b.length - 1, by omega⟩
    have hne : b ≠ [] := fun h => by
      rw [h] at hb
      exact absurd hb (by simp)
    rw [onRecv_dispatch (by rw [hs]; simp) hne]
    simp only [dispatch, processFile, fileLoop, hs, hn]
    rw [if_neg (by omega)]
  have h53 : (b.take 53).length = 53 := by
    rw [List.length_take]
    omega
  have hp : b.take 53 ≠ [] := fun hx => by
    rw [hx] at h53
    cases h53
  have hrest : b.drop 53 ≠ [] := fun hx => by
    have := congrArg List.length hx
    rw [List.length_drop, List.length_nil] at this
    omega
  rw [← List.take_append_drop 53 b] at h
  have he := h.split hp mem (hraw hs h53.ge) hrest
  rw [List.take_append_drop, hraw hs hlen.le] at he
  have hpay := congrArg (fun l => (l.head?.map fun x => x.payload.length)) he
  simp only [rawCall, List.head?_cons, List.singleton_append, Option.map_some, h53, Option.some.injEq] at hpay
  omega

/-- A complete packet behind the login goes to the old suite, or in a segment of its own to the new. -/
theorem login_differs (hs : suiteOf (S.stage s) = some suite) (hw : Whole suite b) (hl : LogsIn S suite b s)
    (hc : Complete suite (behind suite b)) : ¬ Independent (onRecv S) s b := by
  intro h
  let mem : Memory σ := fun _ n => Buf.zero n
  have hst := congrArg suiteOf (stage_login hl)
  rw [← hw.take_append_behind] at h
  have he := h.split hw.front.1.complete.ne_nil mem (onRecv_front S mem hs hw) hc.ne_nil
  obtain ⟨n, hn, hall⟩ := onRecv_complete S mem hs hw.complete
  obtain ⟨rfl, -⟩ := hl
  obtain ⟨n', -, hstep⟩ := packets_step S mem (S.process (wholeCall .bnet b) s) hc hn
  obtain ⟨l, hsecond⟩ := onRecv_head S mem hst (b := behind .bnet b) hc
  rw [hw.take_append_behind, hall, if_neg (by simp), hw.packetCall_eq, hstep, hsecond] at he
  simp only [Out.cons_calls, List.singleton_append, List.cons.injEq, true_and] at he
  exact absurd (congrArg PluginCall.suite he.1) (by simp [packetCall])

/-! ### The streams that do not depend on their cut -/

theorem stage_of_suiteOf_none : ∀ {st : Stage}, suiteOf st = none → st = .connected ∨ st = .fileRaw
  | .connected, _ => .inl rfl
  | .fileRaw, _ => .inr rfl

theorem framed_raw (hs : S.stage s = .fileRaw) (h : Independent (onRecv S) s b) : Framed S s b := by
  by_cases hlt : b.length < 53
  · exact ⟨_, .rawWait hs hlt⟩
  by_cases hgt : 53 < b.length
  · exact absurd h (raw_differs hs hgt)
  · exact ⟨_, .raw hs (by omega)⟩

/-- Induction on the stream: a part that is used up alone is taken off both cuts. -/
theorem framed_of_independent (S : Suites σ) : ∀ (n : ℕ) (s : σ) (b : List Byte), b.length ≤ n →
    Independent (onRecv S) s b → Framed S s b := by
  intro n
  induction n with
  | zero =>
    intro s b hb _
    rw [List.eq_nil_of_length_eq_zero (Nat.le_zero.mp hb)]
    exact ⟨[], .nil⟩
  | succ n ih =>
    intro s b hb h
    rcases hst : suiteOf (S.stage s) with _ | suite
    · rcases stage_of_suiteOf_none hst with hs | hs
      · rcases b with _ | ⟨op, b⟩
        · exact ⟨[], .nil⟩
        by_cases hk : Known op
        · have hop : ∀ mem, onRecv S mem s [op] = ⟨S.process (initCall op) s, [], [initCall op]⟩ := by
            intro mem
            rw [onRecv, if_pos hs, if_pos rfl]
          obtain ⟨l, hl⟩ := ih _ b (Nat.le_of_succ_le_succ hb)
            (Independent.tail (p := [op]) h (by simp) hop)
          exact ⟨_, .init hs hk hl⟩
        · by_cases hnil : b = []
          · subst hnil
            exact ⟨_, .lone hs⟩
          · exact absurd h (unknown_differs hs hk hnil)
      · exact framed_raw hs h
    · by_cases hc : Complete suite b
      · by_cases hshort : (suite.header b).psize < 4
        · exact absurd h (short_differs hst hc hshort)
        have hw : Whole suite b := ⟨by omega, hc.2⟩
        by_cases hl : LogsIn S suite b s
        · by_cases hc' : Complete suite (behind suite b)
          · exact absurd h (login_differs hst hw hl hc')
          · exact ⟨_, .login hst hw hl hc'⟩
        · have hlt := length_behind hc
          rw [← hw.take_append_behind] at h
          obtain ⟨l, ht⟩ := ih _ (behind suite b) (by omega)
            (h.tail hw.front.1.complete.ne_nil fun mem => onRecv_front S mem hst hw)
          exact ⟨_, .packet hst hw hl ht⟩
      · exact ⟨_, .wait hst hc⟩

/-- **Segmentation.** The calls made do not depend on how the stream is cut exactly if the stream is framed
cleanly. -/
theorem independent_iff_framed (S : Suites σ) (s : σ) (stream : List Byte) :
    Independent (onRecv S) s stream ↔ Framed S s stream := by
  constructor
  · exact framed_of_independent S _ s stream le_rfl
  · rintro ⟨l, h⟩
    exact Framing.independent (framing_onRecv S) h

/-! ### A file request with one byte too many -/

/-- A server with a new connection. -/
def fresh : Server where
  clients := ⟨fun _ => .new 0 0 (Buf.zero 20) (Buf.zero 20), 1⟩
  pool := ⟨[], []⟩
  store := ⟨.new, ⟨[], []⟩⟩

def freshSuites : Suites Server := server UserLookup.idleEnv 0 (fun _ => .zero) (.idle 0)

/-- `InitFile`, then `TokenReq`, which has no payload. -/
def tokenRequest : List Byte := [0x02, 0x04, 0x00, 0x00, 0x02]

/-- The 54 bytes behind `TokenReq` are one request, or with the last in a segment of its own a request of
53 bytes. -/
theorem raw_request_cut : (fresh.client 0).stage = .connected ∧
    ¬ Independent (onRecv freshSuites) fresh (tokenRequest ++ List.replicate 54 0) := by
  refine ⟨rfl, fun h => ?_⟩
  let mem : Memory Server := fun _ n => Buf.zero n
  have hwhole : Cut (tokenRequest ++ List.replicate 54 0) [tokenRequest ++ List.replicate 54 0] :=
    Cut.whole (by simp [tokenRequest])
  have hcut : Cut (tokenRequest ++ List.replicate 54 0)
      [tokenRequest ++ List.replicate 53 0, [0]] := ⟨rfl, by simp [tokenRequest]⟩
  exact absurd (h mem mem _ _ hwhole hcut) (by decide +kernel)

end Blitzd.Core
