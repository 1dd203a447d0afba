import Blitzd.Core.Payloads
import Blitzd.Plugins.SuitesActs

/-! # The server and the bytes it receives

A `Machine` is the server with the bytes of each connection that are received and not handled yet. What comes in
(`Input`) is a connection, bytes of a connection, a datagram, or the end of a connection; bytes go through `OnRecv`, with
all the plugins as its suites. A call that does not return, or does what the language does not define, ends the machine:
there is no step then.

However the bytes of the connections are cut and interleaved, the server gets one packet after the other
(`machine_serve`), and goes through a run of acts (`machine_run`). The nets and the lobbies of machines are those of runs
of the net and the lobby (`refines`). -/

namespace Blitzd.Plugins.Daemon

open Blitzd.Lib Blitzd.Lib.Bytes Blitzd.Lib.Feed Blitzd.Utils Blitzd.Cache Blitzd.Core Blitzd.Plugins.LogonPool
open Blitzd.Plugins.Acts Blitzd.Plugins.Suites Blitzd.Plugins.SuitesActs

/-! ### Calls of plugins -/

theorem bounded_does {env : Env} {w w' : World} {a : Act} (hb : Bounded w.server.store.cache) (h : Does env w a w') :
    Bounded w'.server.store.cache := by
  cases a with
  | connect c token sp cp ip =>
    subst h
    exact hb
  | enter c s =>
    obtain ⟨xs, -, rfl⟩ := h
    exact hb
  | account c call =>
    obtain ⟨s, rs, xs, hh, -, rfl⟩ := h
    exact (Logon.handle_did hh).bounded hb
  | plain c => exact h.bounded
  | move m =>
    obtain ⟨-, rfl⟩ := h
    exact hb
  | whisper c d text =>
    obtain ⟨-, -, -, rfl⟩ := h
    unfold World.server
    rw [(whisperTo_same ..).1]
    exact hb
  | friendWhisper c text =>
    obtain ⟨p, -, rfl⟩ := h
    unfold World.server
    rw [(friendWhisper_same ..).1]
    exact hb
  | talk c text =>
    subst h
    unfold World.server
    rw [(talk_same ..).1]
    exact hb
  | address d ip port =>
    subst h
    exact hb
  | disconnect c =>
    subst h
    exact hb

theorem bounded_process {st : Settings} {am : Ambient} {c : ConnId} {call : PluginCall} {w w' : World}
    (hb : Bounded w.server.store.cache) (h : process st am c call w = some w') : Bounded w'.server.store.cache := by
  obtain ⟨a, hd, -⟩ := process_does hb h
  exact bounded_does hb hd

/-- What one `OnRecv` works on: the server, the number of calls made, and whether one of them did not return. -/
structure Session where
  world : World
  bounded : Bounded world.server.store.cache
  calls : ℕ
  fault : Bool

variable {st : Settings} {am : ℕ → Ambient} {c : ConnId} {s : Session} {k : PluginCall} {sc : Logon.Scratch}

def call (st : Settings) (am : ℕ → Ambient) (c : ConnId) (k : PluginCall) (s : Session) : Session :=
  match h : process st (am s.calls) c k s.world with
  | some w => ⟨w, bounded_process s.bounded h, s.calls + 1, s.fault⟩
  | none => { s with fault := true }

theorem call_cases (st : Settings) (am : ℕ → Ambient) (c : ConnId) (k : PluginCall) (s : Session) :
    (∃ w, process st (am s.calls) c k s.world = some w ∧ (call st am c k s).world = w ∧
      (call st am c k s).fault = s.fault) ∨
    (process st (am s.calls) c k s.world = none ∧ call st am c k s = { s with fault := true }) := by
  unfold call
  split
  · next w h => exact .inl ⟨w, h, rfl, rfl⟩
  · next h => exact .inr ⟨h, rfl⟩

/-- What an act of a suite does to the stage of its connection. -/
theorem stage_does {env : Env} {w w' : World} {a : Act} (hd : Does env w a w') (hs : Suited sc c k a) :
    (w'.client c).stage = stageAfter k ((w'.client c).stage = .bnetLoggedIn) (w.client c).stage := by
  obtain ⟨suite, op, payload⟩ := k
  cases suite with
  | init =>
    rcases hs with ⟨rfl, hst⟩ | ⟨s, rfl, -, hst⟩
    · rw [hst]
      exact hd.stage_eq c
    · obtain ⟨xs, -, rfl⟩ := hd
      rw [hst]
      exact congrArg Client.stage (w.server.setStage_client_self c s)
  | bnet =>
    have hkeep : (w'.client c).stage = .bnetLoggedIn ∨ (w'.client c).stage = (w.client c).stage := by
      rcases hs with rfl | rfl | ⟨op, -, rfl⟩
      · exact .inr (hd.stage_eq c)
      · obtain ⟨-, rfl⟩ := hd
        exact .inr rfl
      · obtain ⟨s, rs, xs, hh, -, rfl⟩ := hd
        have hst : (s.client c).stage = _ := Dispatch.handle_stage hh
        split_ifs at hst
        · exact .inl hst
        · exact .inr hst
    unfold stageAfter
    dsimp only
    split_ifs with hlog
    · exact of_decide_eq_true hlog
    · exact hkeep.resolve_left fun h => hlog (decide_eq_true h)
  | bnetLoggedIn =>
    show (w'.client c).stage = (w.client c).stage
    cases a with
    | plain d =>
      obtain rfl : d = c := hs
      exact hd.stage_eq d
    | move m =>
      obtain ⟨-, rfl⟩ := hd
      rfl
    | whisper d e text =>
      obtain ⟨-, -, -, rfl⟩ := hd
      unfold World.client
      rw [(whisperTo_same ..).1]
    | friendWhisper d text =>
      obtain ⟨p, -, rfl⟩ := hd
      unfold World.client
      rw [(friendWhisper_same ..).1]
    | talk d text =>
      subst hd
      unfold World.client
      rw [(talk_same ..).1]
    | _ => exact hs.elim
  | file =>
    unfold stageAfter
    rcases hs with ⟨rfl, hop⟩ | ⟨rfl, hop⟩
    · rw [if_neg hop]
      exact hd.stage_eq c
    · obtain ⟨xs, -, rfl⟩ := hd
      rw [if_pos hop]
      exact congrArg Client.stage (w.server.setStage_client_self c .fileRaw)
  | baal =>
    obtain rfl : a = .plain c := hs
    exact hd.stage_eq c

/-- The calls that do not return are none of those that choose a protocol. -/
theorem stage_none {am : Ambient} {w : World} (h : process st am c k w = none) (st : Stage) :
    st = stageAfter k (st = .bnetLoggedIn) st := by
  obtain ⟨suite, op, payload⟩ := k
  cases suite with
  | init => cases h
  | bnet =>
    unfold stageAfter
    dsimp only
    split_ifs with hlog
    · exact of_decide_eq_true hlog
    · rfl
  | bnetLoggedIn => rfl
  | file =>
    have hop : op ≠ 0x0200 := by
      rintro rfl
      cases h
    unfold stageAfter
    rw [if_neg hop]
  | baal => cases h

theorem stage_call (st : Settings) (am : ℕ → Ambient) (c : ConnId) (k : PluginCall) (s : Session) :
    ((call st am c k s).world.client c).stage = stageAfter k
      (((call st am c k s).world.client c).stage = .bnetLoggedIn) (s.world.client c).stage := by
  rcases call_cases st am c k s with ⟨w, hw, he, -⟩ | ⟨hnone, he⟩
  · obtain ⟨a, hd, hs⟩ := process_does s.bounded hw
    rw [he]
    exact stage_does hd hs
  · rw [he]
    exact stage_none hnone _

/-- All the plugins, as `c` sees them. -/
def suites (st : Settings) (am : ℕ → Ambient) (c : ConnId) : Core.Suites Session where
  stage s := (s.world.client c).stage
  process := call st am c
  logsIn k s := ((call st am c k s).world.client c).stage = .bnetLoggedIn
  stage_process := stage_call st am c

/-! ### Inputs -/

structure Machine where
  world : World
  /-- What is in the input buffer of each connection. -/
  rest : ConnId → List Byte

inductive Input
  | connect (c : ConnId) (token : UInt32) (serverProof clientProof : Buf 20) (ip : UInt32)
  /-- Bytes of a connection, with what its calls find around them. -/
  | recv (c : ConnId) (bytes : List Byte) (am : ℕ → Ambient) (mem : Memory Session)
  | datagram (ip : UInt32) (port : UInt16) (bytes : List Byte) (am : Ambient)
  | close (c : ConnId)

/-- `BNetUDPServer::OnRecv`; `ConnTest2` is the only plugin of the suite. -/
def onDatagram (am : Ambient) (ip : UInt32) (port : UInt16) (bytes : List Byte) (w : World) : Option World :=
  if bytes.length < 4 then some w
  else if ofLE (bytes.take 4) = 0x09 then connTest2 am (bytes.drop 4) w ip port
  else some w

/-- What `OnRecv` makes of the buffer. -/
def received (st : Settings) (c : ConnId) (am : ℕ → Ambient) (mem : Memory Session) (w : World)
    (hb : Bounded w.server.store.cache) (b : List Byte) : Out Session Byte PluginCall :=
  onRecv (suites st am c) mem ⟨w, hb, 0, false⟩ b

def Step (st : Settings) (m : Machine) : Input → Machine → Prop
  | .connect c token sp cp ip, m' => c ∉ m.world.net.live ∧
      m' = ⟨m.world.connect c token sp cp ip, Function.update m.rest c []⟩
  | .recv c b am mem, m' => c ∈ m.world.net.live ∧ ∃ hb : Bounded m.world.server.store.cache,
      (received st c am mem m.world hb (m.rest c ++ b)).state.fault = false ∧
      m' = ⟨(received st c am mem m.world hb (m.rest c ++ b)).state.world,
        Function.update m.rest c (received st c am mem m.world hb (m.rest c ++ b)).rest⟩
  | .datagram ip port b am, m' => ∃ w, onDatagram am ip port b m.world = some w ∧ m' = ⟨w, m.rest⟩
  | .close c, m' => c ∈ m.world.net.live ∧ m' = ⟨m.world.disconnect c, m.rest⟩

def Start (m : Machine) : Prop := Acts.Start m.world

/-! ### One packet after the other -/

inductive Event
  | connect (c : ConnId) (token : UInt32) (serverProof clientProof : Buf 20) (ip : UInt32)
  | call (c : ConnId) (k : PluginCall) (am : Ambient)
  | datagram (ip : UInt32) (port : UInt16) (bytes : List Byte) (am : Ambient)
  | close (c : ConnId)

/-- A packet goes to the suite of the stage its connection is at. -/
def Serve (st : Settings) (w : World) : Event → World → Prop
  | .connect c token sp cp ip, w' => c ∉ w.net.live ∧ w' = w.connect c token sp cp ip
  | .call c k am, w' => c ∈ w.net.live ∧ Fits (w.client c).stage k ∧ process st am c k w = some w'
  | .datagram ip port b am, w' => onDatagram am ip port b w = some w'
  | .close c, w' => c ∈ w.net.live ∧ w' = w.disconnect c

/-- A run of calls of `c`, if all of them returned. -/
def Through (st : Settings) (c : ConnId) (s s' : Session) : Prop :=
  s'.fault = false → s.fault = false ∧ (c ∈ s.world.net.live → ∃ hist, Run (Serve st) s.world hist s'.world ∧
    c ∈ s'.world.net.live ∧ ∀ x ∈ hist, ∃ k am, x.event = .call c k am)

theorem Through.refl (st : Settings) (c : ConnId) (s : Session) : Through st c s s :=
  fun hf => ⟨hf, fun hc => ⟨[], .nil, hc, fun x hx => by cases hx⟩⟩

theorem Through.trans {s' s'' : Session} (h : Through st c s s') (h' : Through st c s' s'') : Through st c s s'' := by
  intro hf
  obtain ⟨hf', hrun'⟩ := h' hf
  obtain ⟨hf0, hrun⟩ := h hf'
  refine ⟨hf0, fun hc => ?_⟩
  obtain ⟨hist, hr, hc', hwho⟩ := hrun hc
  obtain ⟨hist', hr', hc'', hwho'⟩ := hrun' hc'
  refine ⟨hist' ++ hist, hr.trans hr', hc'', fun x hx => ?_⟩
  rcases List.mem_append.mp hx with hx | hx
  · exact hwho' x hx
  · exact hwho x hx

/-- An act of a suite is one of its connection, and ends no connection. -/
theorem who_of_suited {a : Act} (hs : Suited sc c k a) : a.who = c := by
  obtain ⟨suite, op, payload⟩ := k
  cases suite with
  | init => rcases hs with ⟨rfl, -⟩ | ⟨s, rfl, -⟩ <;> rfl
  | bnet => rcases hs with rfl | rfl | ⟨op, -, rfl⟩ <;> rfl
  | bnetLoggedIn => cases a <;> first | exact hs | exact hs.elim
  | file => rcases hs with ⟨rfl, -⟩ | ⟨rfl, -⟩ <;> rfl
  | baal => rw [show a = .plain c from hs]; rfl

theorem live_of_suited {env : Env} {w w' : World} {a : Act} (hd : Does env w a w') (hs : Suited sc c k a) :
    w'.net.live = w.net.live := by
  have hinner := not_outer hs
  cases a with
  | connect d token sp cp ip => exact (hinner trivial).elim
  | enter d s =>
    obtain ⟨xs, -, rfl⟩ := hd
    rfl
  | account d call =>
    obtain ⟨s, rs, xs, -, -, rfl⟩ := hd
    rfl
  | plain d => exact hd.live
  | move m =>
    obtain ⟨-, rfl⟩ := hd
    rfl
  | whisper d e text =>
    obtain ⟨-, -, -, rfl⟩ := hd
    rw [(whisperTo_same ..).1]
  | friendWhisper d text =>
    obtain ⟨p, -, rfl⟩ := hd
    rw [(friendWhisper_same ..).1]
  | talk d text =>
    subst hd
    rw [(talk_same ..).1]
  | address d ip port =>
    subst hd
    rfl
  | disconnect d => exact (hinner trivial).elim

/-- An act of a suite leaves the other clients alone. -/
theorem client_of_suited {env : Env} {w w' : World} {a : Act} (hdo : Does env w a w') (hs : Suited sc c k a) {d : ConnId}
    (hdc : d ≠ c) : w'.client d = w.client d := by
  have hwho := who_of_suited hs
  have hinner := not_outer hs
  have hsame : w'.net = w.net → w'.client d = w.client d := fun he => by rw [World.client, he, World.client]
  cases a with
  | connect e token sp cp ip => exact (hinner trivial).elim
  | enter e s =>
    obtain rfl : e = c := hwho
    obtain ⟨xs, -, rfl⟩ := hdo
    exact w.server.modifyClient_ne _ hdc
  | account e call =>
    obtain rfl : e = c := hwho
    obtain ⟨s, rs, xs, hh, -, rfl⟩ := hdo
    exact (Logon.handle_did hh).client_ne hdc
  | plain e =>
    obtain rfl : e = c := hwho
    exact hdo.client d hdc
  | move m => exact hsame (hdo.2 ▸ rfl)
  | whisper e f text => exact hsame (hdo.2.2.2 ▸ (whisperTo_same ..).1)
  | friendWhisper e text =>
    obtain ⟨p, -, rfl⟩ := hdo
    exact hsame (friendWhisper_same ..).1
  | talk e text => exact hsame (hdo ▸ (talk_same ..).1)
  | address e ip port => exact (hinner trivial).elim
  | disconnect e => exact (hinner trivial).elim

theorem through_call (am : ℕ → Ambient) (hfit : Fits (s.world.client c).stage k) : Through st c s (call st am c k s) := by
  intro hf
  rcases call_cases st am c k s with ⟨w, hw, he, hfault⟩ | ⟨-, he⟩
  · refine ⟨hfault ▸ hf, fun hc => ?_⟩
    obtain ⟨a, hdo, hsuit⟩ := process_does s.bounded hw
    have hserve : Serve st s.world (.call c k (am s.calls)) w := ⟨hc, hfit, hw⟩
    rw [he]
    refine ⟨_, .one hserve, ?_, ?_⟩
    · rw [live_of_suited hdo hsuit]
      exact hc
    · intro x hx
      rw [List.mem_singleton.mp hx]
      exact ⟨k, _, rfl⟩
  · rw [he] at hf
    cases hf

/-- The three suites with a loop of their own. -/
def Loops (suite : Suite) : Prop := suite = .bnet ∨ suite = .bnetLoggedIn ∨ suite = .baal

/-- Such a suite stays in charge. -/
theorem fits_stays {suite : Suite} (hloop : Loops suite) {stage : Stage} {k k' : PluginCall} (hk : k.suite = suite)
    (hk' : k'.suite = suite) (hfit : Fits stage k) (b : Bool) : Fits (stageAfter k b stage) k' := by
  obtain ⟨_, op, payload⟩ := k
  obtain ⟨_, op', payload'⟩ := k'
  obtain rfl : _ = suite := hk
  obtain rfl : _ = _ := hk'
  rcases hloop with rfl | rfl | rfl
  · unfold stageAfter
    dsimp only
    split_ifs
    · exact List.mem_cons_of_mem _ List.mem_cons_self
    · exact hfit
  · exact hfit
  · exact hfit

section Rules

variable {σ : Type} {S : Core.Suites σ} {P : σ → Prop}

/-- What the calls keep, each at a stage its suite is called at, the loops keep. -/
theorem keeps_packets (hP : ∀ {k s}, Fits (S.stage s) k → P s → P (S.process k s)) (mem : Memory σ) {suite : Suite}
    (hloop : Loops suite) (fuel : ℕ) : ∀ {s : σ} {b : List Byte},
      (∀ k : PluginCall, k.suite = suite → Fits (S.stage s) k) → P s → P (packets S mem suite fuel s b).state := by
  induction fuel with
  | zero => exact fun {s b} _ hs => hs
  | succ fuel ih =>
    intro s b hfit hs
    unfold packets
    split_ifs
    · refine ih (fun k hk => ?_) (hP (hfit (packetCall (mem s) suite b) rfl) hs)
      rw [S.stage_process]
      exact fits_stays hloop rfl hk (hfit _ rfl) _
    · exact hs

theorem keeps_fileLoop (hP : ∀ {k s}, Fits (S.stage s) k → P s → P (S.process k s)) (mem : Memory σ) (fuel : ℕ) :
    ∀ {s : σ} {b : List Byte}, P s → P (fileLoop S mem fuel s b).state := by
  induction fuel with
  | zero => exact fun {s b} hs => hs
  | succ fuel ih =>
    intro s b hs
    unfold fileLoop
    split
    · next hst =>
      have hfit : Fits (S.stage s) (packetCall (mem s) .file b) := .inl hst
      split_ifs
      · exact ih (hP hfit hs)
      · exact hs
    · next hst =>
      have hfit : Fits (S.stage s) (rawCall b) := .inr ⟨hst, rfl⟩
      split_ifs
      · exact hs
      · exact hP hfit hs
    · exact hs

theorem keeps_dispatch (hP : ∀ {k s}, Fits (S.stage s) k → P s → P (S.process k s)) (mem : Memory σ) {s : σ}
    (b : List Byte) (hs : P s) : P (dispatch S mem s b).state := by
  unfold dispatch
  split
  · next hst =>
    refine keeps_packets hP mem (.inl rfl) _ (fun k hk => ?_) hs
    obtain ⟨_, op, payload⟩ := k
    obtain rfl : _ = Suite.bnet := hk
    rw [hst]
    exact List.mem_cons_self
  · next hst =>
    refine keeps_packets hP mem (.inr (.inl rfl)) _ (fun k hk => ?_) hs
    obtain ⟨_, op, payload⟩ := k
    obtain rfl : _ = Suite.bnetLoggedIn := hk
    exact hst
  · exact keeps_fileLoop hP mem _ hs
  · exact keeps_fileLoop hP mem _ hs
  · next hst =>
    refine keeps_packets hP mem (.inr (.inr rfl)) _ (fun k hk => ?_) hs
    obtain ⟨_, op, payload⟩ := k
    obtain rfl : _ = Suite.baal := hk
    exact hst
  · exact hs

/-- **What the calls keep, `OnRecv` keeps.** -/
theorem keeps_onRecv (hP : ∀ {k s}, Fits (S.stage s) k → P s → P (S.process k s)) (mem : Memory σ) {s : σ}
    (b : List Byte) (hs : P s) : P (onRecv S mem s b).state := by
  rcases b with _ | ⟨op, b⟩
  · exact hs
  rw [onRecv]
  by_cases hst : S.stage s = .connected
  · have hfit : Fits (S.stage s) (initCall op) := hst
    rw [if_pos hst]
    split_ifs
    · exact hP hfit hs
    · exact keeps_dispatch hP mem b (hP hfit hs)
  · rw [if_neg hst]
    exact keeps_dispatch hP mem _ hs

section Map

variable {τ : Type} {T : Core.Suites τ} {f : σ → τ} {o : Out σ Byte PluginCall}

/-- The outcome, seen through `f`. -/
def view (f : σ → τ) (o : Out σ Byte PluginCall) : Out τ Byte PluginCall := ⟨f o.state, o.rest, o.calls⟩

variable (hprocess : ∀ k s, T.process k (f s) = f (S.process k s)) (hstage : ∀ s, T.stage (f s) = S.stage s)

include hprocess

theorem packets_view (mem : Memory τ) (suite : Suite) (fuel : ℕ) : ∀ (s : σ) (b : List Byte),
    packets T mem suite fuel (f s) b = view f (packets S (fun s => mem (f s)) suite fuel s b) := by
  induction fuel with
  | zero => exact fun s b => rfl
  | succ fuel ih =>
    intro s b
    unfold packets
    split_ifs
    · rw [hprocess, ih]
      rfl
    · rfl

include hstage

theorem fileLoop_view (mem : Memory τ) (fuel : ℕ) : ∀ (s : σ) (b : List Byte),
    fileLoop T mem fuel (f s) b = view f (fileLoop S (fun s => mem (f s)) fuel s b) := by
  induction fuel with
  | zero => exact fun s b => rfl
  | succ fuel ih =>
    intro s b
    unfold fileLoop
    rw [hstage]
    split
    · split_ifs
      · rw [hprocess, ih]
        rfl
      · rfl
    · split_ifs
      · rfl
      · rw [hprocess]
        rfl
    · rfl

theorem dispatch_view (mem : Memory τ) (s : σ) (b : List Byte) :
    dispatch T mem (f s) b = view f (dispatch S (fun s => mem (f s)) s b) := by
  unfold dispatch
  rw [hstage]
  split
  · exact packets_view hprocess mem _ _ s b
  · exact packets_view hprocess mem _ _ s b
  · exact fileLoop_view hprocess hstage mem _ s b
  · exact fileLoop_view hprocess hstage mem _ s b
  · exact packets_view hprocess mem _ _ s b
  · rfl

/-- Suites that see less make the same calls. -/
theorem onRecv_view (mem : Memory τ) (s : σ) (b : List Byte) :
    onRecv T mem (f s) b = view f (onRecv S (fun s => mem (f s)) s b) := by
  rcases b with _ | ⟨op, b⟩
  · rfl
  rw [onRecv, onRecv, hstage]
  split_ifs
  · rw [hprocess]
    rfl
  · rw [hprocess, dispatch_view hprocess hstage]
    rfl
  · exact dispatch_view hprocess hstage mem s _

end Map

end Rules

theorem through_onRecv (st : Settings) (am : ℕ → Ambient) (c : ConnId) (mem : Memory Session) (s : Session)
    (b : List Byte) : Through st c s (onRecv (suites st am c) mem s b).state :=
  keeps_onRecv (P := Through st c s) (fun hfit hs => hs.trans (through_call am hfit)) mem b (.refl st c s)

/-- The bytes of `c` make calls of `c`. -/
theorem recv_serve {m m' : Machine} {b : List Byte} {am : ℕ → Ambient} {mem : Memory Session}
    (hs : Step st m (.recv c b am mem) m') : ∃ hist, Run (Serve st) m.world hist m'.world ∧
      ∀ x ∈ hist, ∃ k am, x.event = .call c k am := by
  obtain ⟨hc, hb, hf, rfl⟩ := hs
  obtain ⟨-, hrun⟩ := through_onRecv st am c mem ⟨m.world, hb, 0, false⟩ (m.rest c ++ b) hf
  obtain ⟨hist, hr, -, hcalls⟩ := hrun hc
  exact ⟨hist, hr, hcalls⟩

theorem step_serve {m m' : Machine} {e : Input} (hs : Step st m e m') :
    ∃ hist, Run (Serve st) m.world hist m'.world := by
  cases e with
  | connect c token sp cp ip =>
    obtain ⟨hc, rfl⟩ := hs
    have hserve : Serve st m.world (.connect c token sp cp ip) _ := ⟨hc, rfl⟩
    exact ⟨_, .one hserve⟩
  | recv c b am mem =>
    obtain ⟨hist, hr, -⟩ := recv_serve hs
    exact ⟨hist, hr⟩
  | datagram ip port b am =>
    obtain ⟨w, hw, rfl⟩ := hs
    have hserve : Serve st m.world (.datagram ip port b am) w := hw
    exact ⟨_, .one hserve⟩
  | close c =>
    obtain ⟨hc, rfl⟩ := hs
    have hserve : Serve st m.world (.close c) _ := ⟨hc, rfl⟩
    exact ⟨_, .one hserve⟩

variable {m₀ m : Machine} {hist : List (Entry Machine Input)} {w₀ w w' : World} {e : Event}

/-- **However the bytes of the connections are cut and interleaved, the server gets one packet after the other.** -/
theorem machine_serve (hr : Run (Step st) m₀ hist m) : ∃ evs, Run (Serve st) m₀.world evs m.world :=
  (Run.simulate (f := Machine.world) (I := fun _ => True) trivial (fun _ hs => ⟨trivial, step_serve hs⟩) hr).2

/-! ### Packets make runs of acts -/

/-- A packet is one act, of a kind its suite has. -/
theorem call_act {am : Ambient} (hi : Inv w) (hs : Serve st w (.call c k am) w') :
    ∃ a, Acts.Step st.env w a w' ∧ Suited am.scratch c k a := by
  obtain ⟨hc, hfit, h⟩ := hs
  exact process_step hi hc hfit h

/-- A datagram tells the address of a connection, or does nothing. -/
theorem datagram_cases {ip : UInt32} {port : UInt16} {b : List Byte} {am : Ambient}
    (hs : Serve st w (.datagram ip port b am) w') :
    w' = w ∨ ∃ d, Acts.Step st.env w (.address d ip port) w' := by
  have hw : onDatagram am ip port b w = some w' := hs
  have hstay : some w = some w' → w' = w := fun he => (Option.some.inj he).symm
  unfold onDatagram connTest2 at hw
  split_ifs at hw
  · exact .inl (hstay hw)
  · exact .inl (hstay hw)
  · split at hw
    · cases hw
    · next d hd =>
      split_ifs at hw with hlive
      cases hw
      exact .inr ⟨d, hlive, rfl⟩
  · exact .inl (hstay hw)

theorem serve_acts (hi : Inv w) (hs : Serve st w e w') : ∃ acts, Run (Acts.Step st.env) w acts w' := by
  cases e with
  | connect c token sp cp ip =>
    obtain ⟨hc, rfl⟩ := hs
    have hstep : Acts.Step st.env w (.connect c token sp cp ip) _ := ⟨hc, rfl⟩
    exact ⟨_, .one hstep⟩
  | call c k am =>
    obtain ⟨a, hstep, -⟩ := call_act hi hs
    exact ⟨_, .one hstep⟩
  | datagram ip port b am =>
    rcases datagram_cases hs with rfl | ⟨d, hstep⟩
    · exact ⟨[], .nil⟩
    · exact ⟨_, .one hstep⟩
  | close c =>
    obtain ⟨hc, rfl⟩ := hs
    have hstep : Acts.Step st.env w (.disconnect c) _ := ⟨hc, rfl⟩
    exact ⟨_, .one hstep⟩

/-- **Packets make a run of acts**, from any state that is in order. -/
theorem serve_run {evs : List (Entry World Event)} (hi : Inv w₀) (hr : Run (Serve st) w₀ evs w) :
    Inv w ∧ ∃ acts, Run (Acts.Step st.env) w₀ acts w := by
  refine Run.simulate (f := id) (I := Inv) hi ?_ hr
  intro w e w' hi hs
  obtain ⟨acts, hacts⟩ := serve_acts hi hs
  exact ⟨Run.always hi Inv.step hacts, acts, hacts⟩

theorem machine_run (hs : Start m₀) (hr : Run (Step st) m₀ hist m) :
    Inv m.world ∧ ∃ acts, Run (Acts.Step st.env) m₀.world acts m.world := by
  obtain ⟨evs, hevs⟩ := machine_serve hr
  exact serve_run (inv_start hs) hevs

/-! ### One packet -/

/-- A whole packet that is all there is in the buffer makes one call. -/
theorem received_packet {w : World} {suite : Suite} {b : List Byte} (hb : Bounded w.server.store.cache)
    (hsuite : suiteOf (w.client c).stage = some suite) (hw : Whole suite b) (hlen : (suite.header b).psize = b.length)
    (am : ℕ → Ambient) (mem : Memory Session) : received st c am mem w hb b =
      ⟨call st am c (wholeCall suite b) ⟨w, hb, 0, false⟩, [], [wholeCall suite b]⟩ := by
  have hstage : (suites st am c).stage ⟨w, hb, 0, false⟩ = (w.client c).stage := rfl
  have hactive : Active (suites st am c) suite ⟨w, hb, 0, false⟩ := by
    rintro rfl
    rw [hstage]
    revert hsuite
    cases (w.client c).stage <;> simp [suiteOf]
  have hconn : (suites st am c).stage ⟨w, hb, 0, false⟩ ≠ .connected := by
    intro he
    rw [hstage] at he
    rw [he] at hsuite
    cases hsuite
  have hbehind : behind suite b = [] := by
    rw [hw.behind_eq, hlen]
    exact List.drop_length
  obtain ⟨op, b', rfl⟩ := List.exists_cons_of_ne_nil hw.complete.ne_nil
  rw [received, onRecv, if_neg hconn, dispatch_eq_loop mem (by rw [hstage]; exact hsuite), List.length_cons,
    loop_packet mem hactive hw.complete, hw.packetCall_eq, hbehind, loop_nil]
  rfl

theorem step_packet (am : ℕ → Ambient) {m : Machine} {suite : Suite} {b : List Byte} {w : World}
    (hc : c ∈ m.world.net.live) (hb : Bounded m.world.server.store.cache)
    (hsuite : suiteOf (m.world.client c).stage = some suite) (hrest : m.rest c = []) (hw : Whole suite b)
    (hlen : (suite.header b).psize = b.length) (mem : Memory Session)
    (h : process st (am 0) c (wholeCall suite b) m.world = some w) :
    Step st m (.recv c b am mem) ⟨w, Function.update m.rest c []⟩ := by
  have hrec : received st c am mem m.world hb (m.rest c ++ b) =
      ⟨call st am c (wholeCall suite b) ⟨m.world, hb, 0, false⟩, [], [wholeCall suite b]⟩ := by
    rw [hrest]
    exact received_packet hb hsuite hw hlen am mem
  rcases call_cases st am c (wholeCall suite b) ⟨m.world, hb, 0, false⟩ with ⟨w', hw', hworld, hfault⟩ | ⟨hnone, -⟩
  · obtain rfl : w' = w := Option.some.inj (hw'.symm.trans h)
    refine ⟨hc, hb, ?_, ?_⟩
    · rw [hrec]
      exact hfault
    · rw [hrec, hworld]
  · exact absurd (h.symm.trans hnone) (by simp)

/-- A packet of the chat protocol. -/
def framed (op : ℕ) (payload : List Byte) : List Byte := toLE 2 op ++ toLE 2 (payload.length + 4) ++ payload

theorem framed_spec {suite : Suite} (hsuite : suite = .bnet ∨ suite = .bnetLoggedIn) {op : ℕ} (payload : List Byte)
    (hop : op < 65536) (hlen : payload.length + 4 < 65536) : Whole suite (framed op payload) ∧
      (suite.header (framed op payload)).psize = (framed op payload).length ∧
      wholeCall suite (framed op payload) = ⟨suite, op, payload⟩ := by
  have htotal : (framed op payload).length = payload.length + 4 := by
    rw [framed, List.length_append, List.length_append, length_toLE, length_toLE]
    omega
  have hhead : suite.header (framed op payload) = ⟨op, payload.length + 4⟩ := by
    have hfront : (framed op payload).take 2 = toLE 2 op := by
      rw [framed, List.append_assoc]
      exact List.take_left' (length_toLE 2 op)
    have hsize : ((framed op payload).drop 2).take 2 = toLE 2 (payload.length + 4) := by
      rw [framed, List.append_assoc, List.drop_left' (length_toLE 2 op)]
      exact List.take_left' (length_toLE 2 _)
    rcases hsuite with rfl | rfl
    all_goals
      rw [Suite.header, hfront, hsize, ofLE_toLE_of_lt hop, ofLE_toLE_of_lt hlen]
  have hbody : (framed op payload).drop 4 = payload := by
    rw [framed]
    exact List.drop_left' (by rw [List.length_append, length_toLE, length_toLE])
  refine ⟨⟨by rw [hhead]; exact Nat.le_add_left 4 _, by rw [hhead, htotal]⟩, by rw [hhead, htotal], ?_⟩
  rw [wholeCall, hhead, hbody, Nat.add_sub_cancel, List.take_length]

/-! ### Two connections -/

open UserLookup (idleEnv)
open Logon (Scratch)

def bare : Settings := ⟨idleEnv, default, ⟨[], []⟩, ⟨[], [], [], [], []⟩, [], []⟩

/-- Locals that hold zeros. -/
def blank : Ambient where
  scratch := .zero
  readUserData := ⟨Buf.zero 4, Buf.zero 4, Buf.zero 4⟩
  acount := Buf.zero 4
  kcount := Buf.zero 4
  getAdvListEx := ⟨Buf.zero 4, Buf.zero 4, Buf.zero 4, Buf.zero 4⟩
  fileReq := ⟨Buf.zero 4, Buf.zero 4, Buf.zero 4, Buf.zero 4, Buf.zero 4, Buf.zero 8, Buf.zero 8⟩
  authCheck := ⟨Buf.zero 4, Buf.zero 4, Buf.zero 4, Buf.zero 4, Buf.zero 4⟩
  userCheck := ⟨Buf.zero 4, Buf.zero 4, Buf.zero 20⟩
  uints _ := Buf.zero 4
  ushort := Buf.zero 2
  bytes _ := Buf.zero 1
  disk _ := none
  random := 1
  ticks := 1
  now := 1
  peer := none

/-- The accounts of `alice` and `bob`, and nobody connected. -/
def hall : Machine := ⟨⟨idleNet, Lobby.quiet, fun _ => [], fun _ => .new 0, fun _ => [], [], [], ∅⟩, fun _ => []⟩

theorem start_hall : Start hall := ⟨start_idleNet, Lobby.start_quiet⟩

/-- The machine with one connection more. -/
def Machine.joined (m : Machine) (c : ConnId) (token : UInt32) : Machine :=
  ⟨m.world.connect c token (Buf.zero 20) (Buf.zero 20) 0, Function.update m.rest c []⟩

def pair : Machine := (hall.joined 0 7).joined 1 8

theorem run_pair : ∃ hist, Run (Step bare) hall hist pair := by
  have h0 : Step bare hall (.connect 0 7 (Buf.zero 20) (Buf.zero 20) 0) (hall.joined 0 7) :=
    ⟨Finset.notMem_empty 0, rfl⟩
  have h1 : Step bare (hall.joined 0 7) (.connect 1 8 (Buf.zero 20) (Buf.zero 20) 0) pair := ⟨by decide, rfl⟩
  exact ⟨_, .snoc (.snoc .nil h0) h1⟩

theorem bounded_pair : Bounded pair.world.server.store.cache := start_idleNet.bounded

/-- The first of them chooses the chat protocol. -/
def chatter : Machine :=
  ⟨(received bare 0 (fun _ => blank) (fun _ n => Buf.zero n) pair.world bounded_pair [1]).state.world,
    Function.update pair.rest 0 []⟩

theorem recv_chatter : Step bare pair (.recv 0 [1] (fun _ => blank) fun _ n => Buf.zero n) chatter :=
  ⟨by decide, bounded_pair, rfl, rfl⟩

theorem run_chatter : ∃ hist, Run (Step bare) hall hist chatter := by
  obtain ⟨hist, hr⟩ := run_pair
  exact ⟨_, .snoc hr recv_chatter⟩

/-- An account packet that is answered. -/
theorem process_account (st : Settings) (am : Ambient) {w : World} {n : ℕ} {op : Logon.Op} {payload : List Byte}
    {s : Server} {rs : List Logon.Reply} (hop : Dispatch.bnetOps.lookup n = some op)
    (hh : Logon.handle st.env c ⟨op, payload, am.scratch⟩ w.server = some (s, rs)) :
    ∃ xs, process st am c ⟨.bnet, n, payload⟩ w = some ((w.setServer s).deliver c xs) := by
  obtain ⟨xs, -, he⟩ := answers_eq (c := c) rs (w.setServer s)
  refine ⟨xs, ?_⟩
  show bnet st am c payload w n = _
  unfold bnet
  rw [hop]
  show account st am c payload w op = _
  rw [account, hh, Option.map_some, he]

/-- `bob` logs in. -/
theorem bob_loggedIn : ∃ w, process bare blank 0 ⟨.bnet, 0x3AFF, OldReplay.recorded⟩ chatter.world = some w ∧
    (w.client 0).stage = .bnetLoggedIn ∧ (w.client 0).gameid = 0 ∧ (w.client 1).stage = .connected ∧
    w.net.live = pair.world.net.live ∧ w.lobby = pair.world.lobby ∧ w.persona = pair.world.persona := by
  have hstore : chatter.world.server.store = LogonRun.duo.store := rfl
  obtain ⟨p, ht⟩ := OldReplay.fits_iff_oldTarget.mp (OldReplay.fits_recorded hstore)
  obtain ⟨store, rs, -, hh, -⟩ := Logon.handle_old (c := 0) ht
  obtain ⟨xs, hp⟩ := process_account bare blank (n := 0x3AFF) rfl hh
  refine ⟨_, hp, ?_, ?_, ?_, rfl, rfl, rfl⟩
  · exact congrArg Client.stage (Server.setStage_client_self _ 0 .bnetLoggedIn)
  · have hself := congrArg Client.gameid (Server.setStage_client_self
      ((Logon.withStore chatter.world.server store).setUser 0 (some p)) 0 .bnetLoggedIn)
    rw [Server.setUser_client_self] at hself
    exact hself
  · have hother : (((Logon.withStore chatter.world.server store).setUser 0 (some p)).setStage 0
        .bnetLoggedIn).client 1 = chatter.world.client 1 := by
      rw [Server.setStage, Server.modifyClient_ne _ _ (by decide), Server.setUser_client_ne _ _ (by decide)]
      rfl
    exact congrArg Client.stage hother

/-- A request to join a channel. -/
def joinTavern : List Byte := toLE 4 0 ++ (str "Tavern" ++ [0])

theorem process_joinTavern (w : World) :
    process bare blank 0 ⟨.bnetLoggedIn, 0x0CFF, joinTavern⟩ w = some (w.joinChannel 0 Lobby.tavern) := by
  have hname : (readName (ReadUserData.readUInt (Stream.ofBytes joinTavern) (Buf.zero 4)).2).1 = Lobby.tavern := by
    decide
  rw [← hname]
  rfl

/-- `bob` in the tavern, and a second connection that has said nothing. -/
theorem run_tavern : ∃ hist n, Run (Step bare) hall hist n ∧ 0 ∈ n.world.lobby.connset 0 ∧ LoggedIn n.world 0 ∧
    1 ∈ n.world.net.live ∧ (n.world.client 1).stage = .connected := by
  obtain ⟨hist, hr⟩ := run_chatter
  have hb := (machine_run start_hall hr).1.pool.bounded
  obtain ⟨w, hw, hstage, hgame, hother, hlive, hlobby, hpersona⟩ := bob_loggedIn
  -- the logon
  have hlen : OldReplay.recorded.length + 4 < 65536 := by
    simp only [OldReplay.recorded, List.length_append]
    decide
  obtain ⟨hwhole, hsize, hcall⟩ := framed_spec (.inl rfl) OldReplay.recorded (show 0x3AFF < 65536 by decide) hlen
  have hlogon : Step bare chatter _ ⟨w, Function.update chatter.rest 0 []⟩ :=
    step_packet (fun _ => blank) (by decide) hb rfl rfl hwhole hsize (fun _ n => Buf.zero n) (hcall ▸ hw)
  have hr₂ := Run.snoc hr hlogon
  -- the request to join
  have hb₂ := (machine_run start_hall hr₂).1.pool.bounded
  obtain ⟨hwhole₂, hsize₂, hcall₂⟩ :=
    framed_spec (.inr rfl) joinTavern (show 0x0CFF < 65536 by decide) (by decide)
  have hlive₂ : (0 : ConnId) ∈ w.net.live := by
    rw [hlive]
    decide
  have hsuite : suiteOf (w.client 0).stage = some .bnetLoggedIn := by
    rw [hstage]
    rfl
  have hrest : Function.update chatter.rest 0 [] 0 = [] := Function.update_self _ _ _
  have hjoin := step_packet (fun _ => blank) hlive₂ hb₂ hsuite hrest hwhole₂ hsize₂ (fun _ n => Buf.zero n)
    (hcall₂ ▸ process_joinTavern w)
  refine ⟨_, _, .snoc hr₂ hjoin, ?_, ⟨hlive₂, hstage⟩, ?_, hother⟩
  · show (0 : ConnId) ∈ (w.lobby.joinChannel 0 Lobby.tavern (w.client 0).gameid (w.persona 0).countryab).connset 0
    rw [hgame, hlobby, hpersona]
    decide
  · show (1 : ConnId) ∈ w.net.live
    rw [hlive]
    decide

/-- **The net and the lobby of the server are those of the smaller models**: from the start on, the net has gone through
a run of connections, logons and other packets, and the lobby through a run of moves, of the same connections. -/
theorem refines (hs : Start m₀) (hr : Run (Step st) m₀ hist m) :
    (∃ h, Run (LogonPool.Step st.env) m₀.world.net h m.world.net) ∧
      (∃ h, Run Lobby.AdStep m₀.world.lobby h m.world.lobby) ∧ m.world.lobby.live = m.world.net.live := by
  obtain ⟨hinv, acts, hacts⟩ := machine_run hs hr
  have hnet := Run.simulate (f := World.net) (I := fun _ => True) trivial
    (fun _ hstep => ⟨trivial, step_net hstep⟩) hacts
  have hlobby := Run.simulate (f := World.lobby) (I := Inv) (inv_start hs)
    (fun hi hstep => ⟨hi.step hstep, step_lobby hi hstep⟩) hacts
  exact ⟨hnet.2, hlobby.2, hinv.live⟩

theorem refines_tavern : ∃ n : Machine, (∃ h, Run (LogonPool.Step idleEnv) hall.world.net h n.world.net) ∧
    (∃ h, Run Lobby.AdStep hall.world.lobby h n.world.lobby) ∧ 0 ∈ n.world.lobby.connset 0 := by
  obtain ⟨hist, n, hr, hin, -⟩ := run_tavern
  obtain ⟨hnet, hlobby, -⟩ := refines start_hall hr
  exact ⟨n, hnet, hlobby, hin⟩

/-- **Whoever is in a channel or a game is connected and logged in**, whatever bytes were received: the clients of every
channel, and those of every game, its host among them. Nobody is in a game twice, or in a game and a channel. -/
theorem members_loggedIn (hs : Start m₀) (hr : Run (Step st) m₀ hist m) :
    (∀ ch, ∀ c ∈ m.world.lobby.connset ch, LoggedIn m.world c) ∧
    (∀ g, ∀ c ∈ (m.world.lobby.game g).connlist, LoggedIn m.world c ∧ (m.world.lobby.game g).connlist.count c = 1 ∧
      ∀ ch, c ∉ m.world.lobby.connset ch) ∧
    (∀ k g, m.world.lobby.findGame k = some g → ∃ h ∈ (m.world.lobby.game g).connlist,
      (m.world.lobby.game g).host = some h) := by
  obtain ⟨hinv, -⟩ := machine_run hs hr
  have hlive : ∀ {c}, c ∈ m.world.lobby.live → m.world.lobby.Inside c → LoggedIn m.world c := fun hc hin =>
    ⟨hinv.live ▸ hc, hinv.inside _ (hinv.live ▸ hc) hin⟩
  refine ⟨fun ch c hc => hlive (hinv.lobby.channels.inSet hc).1 (.inr ⟨ch, hc⟩), fun g c hc => ?_,
    fun k g hk => hinv.lobby.games.hosted hk (by simp)⟩
  rcases hinv.lobby.games.of_mem hc with ⟨hl, hg⟩ | hp
  · refine ⟨hlive hl (.inl (by rw [hg]; simp)), ?_, fun ch hch => ?_⟩
    · have hcount := hinv.lobby.games.count g c
      rwa [if_pos ⟨hl, hg⟩, if_neg (by simp), Nat.add_zero] at hcount
    · rw [hinv.lobby.apart hch] at hg
      cases hg
  · cases hp

/-- `bob` is in the tavern, and the one that has not logged in is not. -/
theorem members_loggedIn_tavern : ∃ n : Machine, 0 ∈ n.world.lobby.connset 0 ∧ LoggedIn n.world 0 ∧
    1 ∈ n.world.net.live ∧ ∀ ch, 1 ∉ n.world.lobby.connset ch := by
  obtain ⟨hist, n, hr, hin, -, hlive, hstage⟩ := run_tavern
  have hmember := (members_loggedIn start_hall hr).1
  refine ⟨n, hin, hmember 0 0 hin, hlive, fun ch hch => ?_⟩
  have hlogged := (hmember ch 1 hch).2
  rw [hstage] at hlogged
  exact absurd hlogged (by decide)

end Blitzd.Plugins.Daemon
