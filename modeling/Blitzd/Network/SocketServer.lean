import Blitzd.Network.TcpClient
import Blitzd.Plugins.Hearing
import Blitzd.Plugins.Realms

/-! # The server on its sockets (`SocketServer.cpp`)

The loop of libevent accepts connections, reads and writes, and runs callbacks when they are due (`Event`). The clients
are in `_fd_map`; one that is erased there is deleted. While `OnRecv` handles the input of one connection, each packet
writes to the buffers of any connections (`call`). A packet that writes to a client that was deleted, or deletes the one
whose input is being handled, does what the language does not define: there is no step then.

None of that happens (`handled`). What the socket of a connection has taken and what is in its buffer is what the server
sent to it, in its order, and nothing is forgotten (`delivered`). The server closes a connection only at its end, or when
all that was sent is written (`closed_written`). -/

namespace Blitzd.Network

open Blitzd.Lib Blitzd.Lib.Bytes Blitzd.Lib.Feed Blitzd.Utils Blitzd.Cache Blitzd.Core Blitzd.Packets
open Blitzd.Plugins.Acts Blitzd.Plugins.Suites Blitzd.Plugins.SuitesActs Blitzd.Plugins.Hearing Blitzd.Plugins.Realms
open Blitzd.Plugins.Daemon (Session Machine Serve)
open Blitzd.Plugins

/-! ### Bytes -/

/-- What `Build` makes of a packet. -/
def bytes : Wire → List Byte
  | .bnet p => p.build.getD []
  | .file b | .baal b => b

/-- The bytes of the packets that `d` was sent more. -/
def written (sent sent' : ConnId → List Wire) (d : ConnId) : List Byte :=
  ((sent' d).drop (sent d).length).flatMap bytes

abbrev Fds := ConnId → Option TcpClient

/-- Each of the packets goes through `Send`. -/
def sendAll (sent sent' : ConnId → List Wire) (fds : Fds) : Fds := fun d =>
  (fds d).map fun t => t.send (written sent sent' d)

/-- A client was sent something that is deleted. -/
def Stray (sent sent' : ConnId → List Wire) (fds : Fds) : Prop := ∃ d, fds d = none ∧ sent' d ≠ sent d

/-! ### Input -/

/-- What one `OnRecv` works on, with the clients; `lost` says that a client was used after it was deleted. -/
structure Online where
  session : Session
  fds : Fds
  lost : Prop

/-- The packet makes `RealmAuth` call `PendClose`. -/
def PendsClose (am : Ambient) (c : ConnId) (k : PluginCall) (w : World) : Prop :=
  k.suite = .baal ∧ k.op = 0x02 ∧ (registered am c k.payload w).isNone = true

instance (am : Ambient) (c : ConnId) (k : PluginCall) (w : World) : Decidable (PendsClose am c k w) :=
  inferInstanceAs (Decidable (_ ∧ _))

variable {st : Settings} {c d : ConnId} {k : PluginCall}

def call (st : Settings) (am : ℕ → Ambient) (c : ConnId) (k : PluginCall) (s : Online) : Online :=
  let session := Daemon.call st am c k s.session
  let fds := sendAll s.session.world.sent session.world.sent s.fds
  let lost := s.lost ∨ Stray s.session.world.sent session.world.sent s.fds
  if PendsClose (am s.session.calls) c k s.session.world then
    match (fds c).bind TcpClient.pendClose with
    | some t => ⟨session, Function.update fds c (some t), lost⟩
    | none => ⟨session, Function.update fds c none, True⟩
  else ⟨session, fds, lost⟩

theorem session_call (st : Settings) (am : ℕ → Ambient) (c : ConnId) (k : PluginCall) (s : Online) :
    (call st am c k s).session = Daemon.call st am c k s.session := by
  unfold call
  dsimp only
  split_ifs
  · split <;> rfl
  · rfl

def suites (st : Settings) (am : ℕ → Ambient) (c : ConnId) : Core.Suites Online where
  stage s := (s.session.world.client c).stage
  process := call st am c
  logsIn k s := (Daemon.suites st am c).logsIn k s.session
  stage_process k s := by
    rw [session_call]
    exact Daemon.stage_call st am c k s.session

/-- The read callback. -/
def received (st : Settings) (c : ConnId) (am : ℕ → Ambient) (mem : Memory Session) (m : Machine)
    (hb : Bounded m.world.server.store.cache) (fds : Fds) (t : TcpClient) : Out Online Byte PluginCall :=
  onRecv (suites st am c) (fun s => mem s.session) ⟨⟨m.world, hb, 0, false⟩, Function.update fds c (some t.taken), False⟩
    (m.rest c ++ t.bufev.input)

/-! ### The loop -/

structure SocketServer where
  machine : Machine
  /-- `_fd_map`. -/
  fds : Fds

inductive Event
  | accept (c : ConnId) (token : UInt32) (serverProof clientProof : Buf 20) (ip : UInt32)
  | readable (c : ConnId) (r : Read)
  | writable (c : ConnId) (r : Write)
  /-- The callbacks that are due, with what the packets find around them. -/
  | deferred (c : ConnId) (am : ℕ → Ambient) (mem : Memory Session)
  | datagram (ip : UInt32) (port : UInt16) (bytes : List Byte) (am : Ambient)

namespace SocketServer

def world (h : SocketServer) : World := h.machine.world

/-- Another client in the place of one. -/
def put (h : SocketServer) (c : ConnId) (t : TcpClient) : SocketServer :=
  { h with fds := Function.update h.fds c (some t) }

/-- `Close`: the client is erased, and `~Client` writes to those it leaves. -/
def close (h : SocketServer) (c : ConnId) : SocketServer where
  machine := ⟨h.world.disconnect c, h.machine.rest⟩
  fds := Function.update (sendAll h.world.sent (h.world.disconnect c).sent h.fds) c none

/-- The read callback, if it is due. -/
def DoRecv (st : Settings) (h : SocketServer) (c : ConnId) (t : TcpClient) (am : ℕ → Ambient) (mem : Memory Session)
    (h' : SocketServer) : Prop :=
  if t.bufev.readcbPending = true then
    ∃ hb : Bounded h.machine.world.server.store.cache,
      (received st c am mem h.machine hb h.fds t).state.session.fault = false ∧
      ¬ (received st c am mem h.machine hb h.fds t).state.lost ∧
      h' = ⟨⟨(received st c am mem h.machine hb h.fds t).state.session.world,
        Function.update h.machine.rest c (received st c am mem h.machine hb h.fds t).rest⟩,
        (received st c am mem h.machine hb h.fds t).state.fds⟩
  else h' = h

/-- The other callbacks. -/
def DoRest (h : SocketServer) (c : ConnId) (h' : SocketServer) : Prop :=
  ∃ t, h.fds c = some t ∧ match t.runRest with
    | some t' => h' = h.put c t'
    | none => ¬ Stray h.world.sent (h.world.disconnect c).sent h.fds ∧ h' = h.close c

def Step (st : Settings) (h : SocketServer) : Event → SocketServer → Prop
  | .accept c token sp cp ip, h' => h.fds c = none ∧
      h' = ⟨⟨h.world.connect c token sp cp ip, Function.update h.machine.rest c []⟩, Function.update h.fds c (some .new)⟩
  | .readable c r, h' => ∃ t, h.fds c = some t ∧ t.bufev.reading = true ∧ (∀ b, r = .data b → b ≠ []) ∧
      h' = h.put c { t with bufev := t.bufev.readcb r }
  | .writable c r, h' => ∃ t, h.fds c = some t ∧ t.bufev.evWrite = true ∧
      (∀ n, r = .took n → 0 < n ∧ n ≤ t.bufev.output.length) ∧ h' = h.put c { t with bufev := t.bufev.writecb r }
  | .deferred c am mem, h' => ∃ t, h.fds c = some t ∧ t.bufev.Queued ∧
      ∃ h₁, DoRecv st h c t am mem h₁ ∧ DoRest h₁ c h'
  | .datagram ip port b am, h' => ∃ w, Daemon.onDatagram am ip port b h.world = some w ∧
      h' = ⟨⟨w, h.machine.rest⟩, h.fds⟩

/-- Nobody is connected. -/
structure Start (h : SocketServer) : Prop where
  machine : Daemon.Start h.machine
  fds : h.fds = fun _ => none

end SocketServer

/-! ### Clients and what they were sent -/

/-- The clients are those of the connections that are there, and have what these were sent. -/
structure Linked (live : Finset ConnId) (sent : ConnId → List Wire) (closing : Finset ConnId) (fds : Fds) : Prop where
  none_iff : ∀ d, fds d = none ↔ d ∉ live
  stream : ∀ {d t}, fds d = some t → t.bufev.stream = (sent d).flatMap bytes
  pend : ∀ {d t}, fds d = some t → (t.pend = true ↔ d ∈ closing)
  due : ∀ {d t}, fds d = some t → t.Due

namespace Linked

variable {live live' closing closing' : Finset ConnId} {sent sent' : ConnId → List Wire} {fds : Fds} {t t' : TcpClient}

/-- A client that is sent more. -/
theorem sent_more (h : Linked live sent closing fds) (ht : Network.sendAll sent sent' fds d = some t)
    (hsent : ∃ xs, sent' d = sent d ++ xs) :
    t.bufev.stream = (sent' d).flatMap bytes ∧ (t.pend = true ↔ d ∈ closing) ∧ t.Due := by
  obtain ⟨u, hu, rfl⟩ := Option.map_eq_some_iff.mp ht
  obtain ⟨xs, hxs⟩ := hsent
  refine ⟨?_, (h.pend hu :), (h.due hu).send _⟩
  rw [TcpClient.send, BufferEvent.stream_write, h.stream hu, written, hxs, List.drop_left, ← List.flatMap_append]

theorem sendAll (h : Linked live sent closing fds) (hsent : ∀ d, ∃ xs, sent' d = sent d ++ xs) :
    Linked live sent' closing (sendAll sent sent' fds) :=
  ⟨fun d => Option.map_eq_none_iff.trans (h.none_iff d), fun ht => (h.sent_more ht (hsent _)).1,
    fun ht => (h.sent_more ht (hsent _)).2.1, fun ht => (h.sent_more ht (hsent _)).2.2⟩

/-- The client of one connection is another one, or a new one. -/
theorem update (h : Linked live sent closing fds) (hlive : ∀ d ≠ c, d ∈ live' ↔ d ∈ live)
    (hsent : ∀ d ≠ c, sent' d = sent d) (hclosing : ∀ d ≠ c, d ∈ closing' ↔ d ∈ closing) (hc : c ∈ live')
    (hstream : t.bufev.stream = (sent' c).flatMap bytes) (hpend : t.pend = true ↔ c ∈ closing') (hdue : t.Due) :
    Linked live' sent' closing' (Function.update fds c (some t)) := by
  have hcases : ∀ {d u}, Function.update fds c (some t) d = some u → d = c ∧ u = t ∨ d ≠ c ∧ fds d = some u := by
    intro d u hu
    by_cases hd : d = c
    · rw [hd, Function.update_self] at hu
      exact .inl ⟨hd, (Option.some.inj hu).symm⟩
    · rw [Function.update_of_ne hd] at hu
      exact .inr ⟨hd, hu⟩
  refine ⟨fun d => ?_, fun hu => ?_, fun hu => ?_, fun hu => ?_⟩
  · by_cases hd : d = c
    · rw [hd, Function.update_self]
      exact iff_of_false (by simp) (not_not.mpr hc)
    · rw [Function.update_of_ne hd, hlive d hd]
      exact h.none_iff d
  · rcases hcases hu with ⟨rfl, rfl⟩ | ⟨hd, hold⟩
    · exact hstream
    · rw [hsent _ hd]
      exact h.stream hold
  · rcases hcases hu with ⟨rfl, rfl⟩ | ⟨hd, hold⟩
    · exact hpend
    · rw [hclosing _ hd]
      exact h.pend hold
  · rcases hcases hu with ⟨rfl, rfl⟩ | ⟨-, hold⟩
    · exact hdue
    · exact h.due hold

theorem mem_live (h : Linked live sent closing fds) (ht : fds c = some t) : c ∈ live := by
  by_contra hc
  rw [(h.none_iff c).mpr hc] at ht
  cases ht

theorem exists_client (h : Linked live sent closing fds) (hc : c ∈ live) : ∃ t, fds c = some t := by
  rcases ht : fds c with _ | t
  · exact absurd hc ((h.none_iff c).mp ht)
  · exact ⟨t, rfl⟩

/-- A client that goes on. -/
theorem put (h : Linked live sent closing fds) (ht : fds c = some t) (hstream : t'.bufev.stream = t.bufev.stream)
    (hpend : t'.pend = t.pend) (hdue : t'.Due) : Linked live sent closing (Function.update fds c (some t')) :=
  h.update (fun _ _ => Iff.rfl) (fun _ _ => rfl) (fun _ _ => Iff.rfl) (h.mem_live ht) (hstream.trans (h.stream ht))
    (hpend ▸ h.pend ht) hdue

/-- `PendClose`, of a client with output. -/
theorem pendClose (h : Linked live sent closing fds) (ht : fds c = some t) (hp : t.pendClose = some t') :
    Linked live sent (insert c closing) (Function.update fds c (some t')) := by
  have hdue := (h.due ht).pendClose hp
  unfold TcpClient.pendClose at hp
  split_ifs at hp
  cases hp
  refine h.update (fun _ _ => Iff.rfl) (fun _ _ => rfl) (fun d hd => ?_) (h.mem_live ht) (h.stream ht :) ?_ hdue
  · exact ⟨fun hmem => Finset.mem_of_mem_insert_of_ne hmem hd, Finset.mem_insert_of_mem⟩
  · exact iff_of_true rfl (Finset.mem_insert_self _ _)

/-- A client is closed, and others are sent more. -/
theorem close (h : Linked live sent closing fds) (c : ConnId) (hsent : ∀ d ≠ c, ∃ xs, sent' d = sent d ++ xs) :
    Linked (live.erase c) sent' closing (Function.update (Network.sendAll sent sent' fds) c none) := by
  have hmore : ∀ {d t}, Function.update (Network.sendAll sent sent' fds) c none d = some t →
      t.bufev.stream = (sent' d).flatMap bytes ∧ (t.pend = true ↔ d ∈ closing) ∧ t.Due := by
    intro d t ht
    by_cases hd : d = c
    · rw [hd, Function.update_self] at ht
      cases ht
    · rw [Function.update_of_ne hd] at ht
      exact h.sent_more ht (hsent d hd)
  refine ⟨fun d => ?_, fun ht => (hmore ht).1, fun ht => (hmore ht).2.1, fun ht => (hmore ht).2.2⟩
  by_cases hd : d = c
  · rw [hd, Function.update_self]
    exact iff_of_true rfl (Finset.notMem_erase c live)
  · rw [Function.update_of_ne hd, Finset.mem_erase, not_and]
    exact (Option.map_eq_none_iff.trans (h.none_iff d)).trans ⟨fun hn _ => hn, fun hn => hn hd⟩

end Linked

/-! ### What becomes of a client -/

/-- While input is handled, nothing is written and output only grows; a close is pending only as long as there is some. -/
structure Later (t t' : TcpClient) : Prop where
  wire : t'.bufev.wire = t.bufev.wire
  event : t'.bufev.eventcbPending = t.bufev.eventcbPending
  output : t'.bufev.output = [] → t.bufev.output = []
  pend : t'.pend = true → t.pend = true ∨ t'.bufev.output ≠ []

theorem Later.refl (t : TcpClient) : Later t t := ⟨rfl, rfl, id, .inl⟩

theorem Later.trans {t t' t'' : TcpClient} (h : Later t t') (h' : Later t' t'') : Later t t'' := by
  refine ⟨h'.wire.trans h.wire, h'.event.trans h.event, fun he => h.output (h'.output he), fun hp => ?_⟩
  rcases h'.pend hp with hp' | hne
  · rcases h.pend hp' with hp'' | hne
    · exact .inl hp''
    · exact .inr fun he => hne (h'.output he)
  · exact .inr hne

theorem later_send (t : TcpClient) (data : List Byte) : Later t (t.send data) :=
  ⟨rfl, rfl, fun he => (List.append_eq_nil_iff.mp he).1, .inl⟩

/-- The clients are still there. -/
def Stay (fds fds' : Fds) : Prop := ∀ d t, fds d = some t → ∃ t', fds' d = some t' ∧ Later t t'

theorem Stay.refl (fds : Fds) : Stay fds fds := fun _ t ht => ⟨t, ht, .refl t⟩

theorem Stay.trans {fds fds' fds'' : Fds} (h : Stay fds fds') (h' : Stay fds' fds'') : Stay fds fds'' := by
  intro d t ht
  obtain ⟨t', ht', hl⟩ := h d t ht
  obtain ⟨t'', ht'', hl'⟩ := h' d t' ht'
  exact ⟨t'', ht'', hl.trans hl'⟩

theorem stay_sendAll (sent sent' : ConnId → List Wire) (fds : Fds) : Stay fds (sendAll sent sent' fds) :=
  fun d t ht => ⟨_, by rw [sendAll, ht]; rfl, later_send t _⟩

theorem stay_put {fds : Fds} {t t' : TcpClient} (ht : fds c = some t) (hl : Later t t') :
    Stay fds (Function.update fds c (some t')) := by
  intro d u hu
  by_cases hd : d = c
  · subst hd
    obtain rfl : u = t := Option.some.inj (hu.symm.trans ht)
    exact ⟨t', Function.update_self _ _ _, hl⟩
  · exact ⟨u, (Function.update_of_ne hd _ _).trans hu, .refl u⟩

theorem later_pendClose {t t' : TcpClient} (h : t.pendClose = some t') : Later t t' := by
  unfold TcpClient.pendClose at h
  split_ifs at h with hout
  cases h
  exact ⟨rfl, rfl, id, fun _ => .inr hout⟩

theorem stay_call {am : ℕ → Ambient} {s : Online} (hlost : ¬ (call st am c k s).lost) :
    Stay s.fds (call st am c k s).fds := by
  have hsend := stay_sendAll s.session.world.sent (Daemon.call st am c k s.session).world.sent s.fds
  unfold call at hlost ⊢
  dsimp only at hlost ⊢
  split_ifs at hlost ⊢
  · split at hlost
    · next t hbind =>
      obtain ⟨u, hu, hpend⟩ := Option.bind_eq_some_iff.mp hbind
      exact hsend.trans (stay_put hu (later_pendClose hpend))
    · exact absurd trivial hlost
  · exact hsend

/-! ### One packet -/

/-- A refusal is sent before the connection is to be closed. -/
theorem sent_refused {am : Ambient} {w : World} {payload : List Byte} (h : registered am c payload w = none) :
    ∃ b, b ≠ [] ∧ (realmAuth am c payload w).sent c = w.sent c ++ [.baal b] := by
  have hne : ∀ cmd token pack, Baal.build cmd token pack ≠ [] := fun cmd token pack he => by
    have hlen := congrArg List.length he
    rw [Baal.length_build, List.length_nil] at hlen
    omega
  unfold registered readRequest at h
  unfold realmAuth
  dsimp only at h ⊢
  split_ifs at h ⊢
  · rcases hpeer : am.peer with _ | ip
    · exact ⟨_, hne _ _ _, Function.update_self _ _ _⟩
    · rw [hpeer] at h
      cases h
  · exact ⟨_, hne _ _ _, Function.update_self _ _ _⟩

/-- `PendClose` finds output. -/
theorem output_of_pendsClose {am : Ambient} {w w' : World} {fds : Fds} {t : TcpClient} (hp : PendsClose am c k w)
    (hw : process st am c k w = some w') (ht : sendAll w.sent w'.sent fds c = some t) : t.bufev.output ≠ [] := by
  obtain ⟨suite, op, payload⟩ := k
  obtain ⟨rfl, rfl, hnone⟩ := hp
  have he : w' = realmAuth am c payload w := (Option.some.inj hw).symm
  obtain ⟨b, hb, hsent⟩ := sent_refused (Option.isNone_iff_eq_none.mp hnone)
  rw [← he] at hsent
  obtain ⟨u, -, rfl⟩ := Option.map_eq_some_iff.mp ht
  have hwritten : written w.sent w'.sent c = b := by
    rw [written, hsent, List.drop_left]
    exact List.append_nil b
  intro hnil
  exact hb (hwritten ▸ (List.append_eq_nil_iff.mp hnil).2)

/-- A packet has its connection closed, or leaves alone which are to be closed. -/
theorem closing_process {am : Ambient} {w w' : World} (h : process st am c k w = some w') :
    w'.closing = if PendsClose am c k w then insert c w.closing else w.closing := by
  have hauth : ∀ {payload}, w' = realmAuth am c payload w →
      w'.closing = if (registered am c payload w).isNone = true then insert c w.closing else w.closing := by
    intro payload he
    have hreg := registry_realmAuth am c payload w
    rw [← he] at hreg
    rcases hr : registered am c payload w with _ | r
    · rw [hr] at hreg
      exact (Prod.mk.inj hreg).2
    · rw [hr] at hreg
      exact (Prod.mk.inj hreg).2
  by_cases hk : k.suite = .baal ∧ k.op = 0x02
  · obtain ⟨suite, op, payload⟩ := k
    obtain ⟨rfl, rfl⟩ := hk
    rw [hauth (Option.some.inj h).symm]
    simp [PendsClose]
  · have hreg := (registry_process h).resolve_right fun h => hk ⟨h.1, h.2.1⟩
    rw [(Prod.mk.inj hreg).2, if_neg fun hp => hk ⟨hp.1, hp.2.1⟩]

/-- The clients are in order while the input of `c` is handled, and those that were there at its beginning still are. -/
def Sound (c : ConnId) (fds : Fds) (s : Online) : Prop :=
  s.session.fault = false → Acts.Inv s.session.world ∧ c ∈ s.session.world.net.live ∧
    Linked s.session.world.net.live s.session.world.sent s.session.world.closing s.fds ∧ ¬ s.lost ∧ Stay fds s.fds

theorem sound_call (st : Settings) (am : ℕ → Ambient) {fds : Fds} {s : Online}
    (hfit : Fits (s.session.world.client c).stage k) (h : Sound c fds s) : Sound c fds (call st am c k s) := by
  intro hf
  rw [session_call] at hf
  rcases Daemon.call_cases st am c k s.session with ⟨w', hw, he, hfault⟩ | ⟨-, he⟩
  swap
  · rw [he] at hf
    cases hf
  obtain ⟨hi, hc, hlinked, hlost, hstay⟩ := h (hfault ▸ hf)
  obtain ⟨a, hstep, hsuit⟩ := process_step hi hc hfit hw
  have hlive := Daemon.live_of_suited hstep.2 hsuit
  have hsent := suited_sent hi hstep hsuit
  have hmore := hlinked.sendAll fun d => (hsent d).imp fun _ h => h.1
  have hstray : ¬ Stray s.session.world.sent w'.sent s.fds := by
    rintro ⟨d, hd, hne⟩
    obtain ⟨xs, hxs, hwritten⟩ := hsent d
    rcases xs with _ | ⟨x, xs⟩
    · exact hne (hxs.trans (List.append_nil _))
    · exact (hlinked.none_iff d).mp hd ((hwritten x List.mem_cons_self).live hi hc)
  have hnew : Linked w'.net.live w'.sent w'.closing (call st am c k s).fds ∧ ¬ (call st am c k s).lost := by
    have hclosing := closing_process hw
    unfold call
    dsimp only
    rw [he]
    split_ifs at hclosing ⊢ with hp
    · obtain ⟨t, ht⟩ := hmore.exists_client hc
      have hpend : t.pendClose = some { t with pend := true } := if_neg (output_of_pendsClose hp hw ht)
      rw [ht]
      simp only [Option.bind_some, hpend]
      rw [hlive, hclosing]
      exact ⟨hmore.pendClose ht hpend, not_or.mpr ⟨hlost, hstray⟩⟩
    · rw [hlive, hclosing]
      exact ⟨hmore, not_or.mpr ⟨hlost, hstray⟩⟩
  rw [session_call, he]
  exact ⟨hi.step hstep, hlive ▸ hc, hnew.1, hnew.2, hstay.trans (stay_call hnew.2)⟩

/-! ### One event -/

namespace SocketServer

variable {h h' h₀ : SocketServer} {e : Event} {t : TcpClient} {am : ℕ → Ambient} {mem : Memory Session}

/-- The server is in order. -/
structure Ok (h : SocketServer) : Prop where
  inv : Acts.Inv h.world
  linked : Linked h.world.net.live h.world.sent h.world.closing h.fds

theorem ok_start (hs : Start h) : Ok h := by
  have hi : Acts.Inv h.world := inv_start hs.machine
  have hlive : h.world.net.live = ∅ := hs.machine.net.live
  refine ⟨hi, ⟨fun d => ?_, fun ht => ?_, fun ht => ?_, fun ht => ?_⟩⟩
  · rw [hs.fds, hlive]
    exact iff_of_true rfl (Finset.notMem_empty d)
  all_goals
    rw [hs.fds] at ht
    cases ht

theorem Ok.put (hok : Ok h) {t' : TcpClient} (ht : h.fds c = some t) (hstream : t'.bufev.stream = t.bufev.stream)
    (hpend : t'.pend = t.pend) (hdue : t'.Due) : Ok (h.put c t') :=
  ⟨hok.inv, hok.linked.put ht hstream hpend hdue⟩

/-- The input of `c` was handled. -/
theorem sound_received (st : Settings) (am : ℕ → Ambient) (mem : Memory Session) (hok : Ok h) (ht : h.fds c = some t)
    (hb : Bounded h.machine.world.server.store.cache) :
    Sound c h.fds (received st c am mem h.machine hb h.fds t).state := by
  refine Daemon.keeps_onRecv (S := suites st am c) (fun hfit hs => sound_call st am hfit hs) _ _ fun _ => ?_
  exact ⟨hok.inv, hok.linked.mem_live ht, hok.linked.put ht rfl rfl (hok.linked.due ht).taken, not_false,
    stay_put ht ⟨rfl, rfl, id, .inl⟩⟩

theorem Ok.doRecv (hok : Ok h) (ht : h.fds c = some t) (hs : DoRecv st h c t am mem h') : Ok h' ∧ Stay h.fds h'.fds := by
  unfold DoRecv at hs
  split_ifs at hs
  · obtain ⟨hb, hf, -, rfl⟩ := hs
    obtain ⟨hi, -, hlinked, -, hstay⟩ := sound_received st am mem hok ht hb hf
    exact ⟨⟨hi, hlinked⟩, hstay⟩
  · rw [hs]
    exact ⟨hok, .refl h.fds⟩

/-- A client that is closed writes to nobody who is gone. -/
theorem not_stray_disconnect (hok : Ok h) (ht : h.fds c = some t) :
    ¬ Stray h.world.sent (h.world.disconnect c).sent h.fds := by
  rintro ⟨d, hd, hne⟩
  have hdc : d ≠ c := by
    rintro rfl
    rw [ht] at hd
    cases hd
  obtain ⟨xs, hxs, hwritten⟩ := sent_others (Lobby.onlyBy_disconnect h.world.lobby c) hdc
  rcases xs with _ | ⟨x, xs⟩
  · exact hne (hxs.trans (List.append_nil _))
  · exact (hok.linked.none_iff d).mp hd ((hwritten x List.mem_cons_self).live hok.inv (hok.linked.mem_live ht))

theorem Ok.close (hok : Ok h) (ht : h.fds c = some t) : Ok (h.close c) := by
  have hstep : Acts.Step UserLookup.idleEnv h.world (.disconnect c) (h.world.disconnect c) :=
    ⟨hok.linked.mem_live ht, rfl⟩
  refine ⟨hok.inv.step hstep, hok.linked.close c fun d hd => ?_⟩
  obtain ⟨xs, hxs, -⟩ := sent_others (Lobby.onlyBy_disconnect h.world.lobby c) hd
  exact ⟨xs, hxs⟩

theorem Ok.doRest (hok : Ok h) (hs : DoRest h c h') : Ok h' := by
  obtain ⟨t, ht, hs⟩ := hs
  rcases hrest : t.runRest with _ | t'
  · rw [hrest] at hs
    rw [hs.2]
    exact hok.close ht
  · rw [hrest] at hs
    rw [show h' = h.put c t' from hs]
    have hdue := (hok.linked.due ht).runRest hrest
    obtain ⟨-, -, rfl⟩ := TcpClient.runRest_some hrest
    exact hok.put ht rfl rfl hdue

theorem Ok.step (hok : Ok h) (hs : Step st h e h') : Ok h' := by
  cases e with
  | accept c token sp cp ip =>
    obtain ⟨hfd, rfl⟩ := hs
    have hc := (hok.linked.none_iff c).mp hfd
    have hstep : Acts.Step st.env h.world (.connect c token sp cp ip) (h.world.connect c token sp cp ip) := ⟨hc, rfl⟩
    refine ⟨hok.inv.step hstep, hok.linked.update (fun d hd => ?_) (fun d hd => Function.update_of_ne hd _ _)
      (fun d hd => ?_) (Finset.mem_insert_self _ _) ?_ ?_ TcpClient.due_new⟩
    · exact ⟨fun hmem => Finset.mem_of_mem_insert_of_ne hmem hd, Finset.mem_insert_of_mem⟩
    · exact ⟨Finset.mem_of_mem_erase, fun hmem => Finset.mem_erase.mpr ⟨hd, hmem⟩⟩
    · have hsent : (h.world.connect c token sp cp ip).sent c = [] := Function.update_self _ _ _
      show TcpClient.new.bufev.stream = ((h.world.connect c token sp cp ip).sent c).flatMap bytes
      rw [hsent]
      rfl
    · exact iff_of_false (by decide) (Finset.notMem_erase c _)
  | readable c r =>
    obtain ⟨t, ht, -, -, rfl⟩ := hs
    exact hok.put ht (t.bufev.stream_readcb r) rfl ((hok.linked.due ht).readcb r)
  | writable c r =>
    obtain ⟨t, ht, -, -, rfl⟩ := hs
    exact hok.put ht (t.bufev.stream_writecb r) rfl ((hok.linked.due ht).writecb r)
  | deferred c am mem =>
    obtain ⟨t, ht, -, h₁, hrecv, hrest⟩ := hs
    exact (hok.doRecv ht hrecv).1.doRest hrest
  | datagram ip port b am =>
    obtain ⟨w, hw, rfl⟩ := hs
    have hserve : Serve st h.world (.datagram ip port b am) w := hw
    obtain ⟨hi, -⟩ := Daemon.serve_run hok.inv (.one hserve)
    refine ⟨hi, ?_⟩
    rcases Daemon.datagram_cases hserve with rfl | ⟨d, -, rfl⟩
    · exact hok.linked
    · exact hok.linked

variable {hist : List (Entry SocketServer Event)}

theorem ok_run (hs : Start h₀) (hr : Run (Step st) h₀ hist h) : Ok h :=
  Run.always (ok_start hs) (fun hok hstep => hok.step hstep) hr

/-! ### The server without its sockets -/

/-- The calls are those of the server without its sockets. -/
theorem received_view (st : Settings) (c : ConnId) (am : ℕ → Ambient) (mem : Memory Session) (h : SocketServer)
    (hb : Bounded h.machine.world.server.store.cache) (t : TcpClient) :
    Daemon.received st c am mem h.machine.world hb (h.machine.rest c ++ t.bufev.input) =
      Daemon.view Online.session (received st c am mem h.machine hb h.fds t) := by
  unfold Daemon.received received
  exact Daemon.onRecv_view (S := suites st am c) (T := Daemon.suites st am c) (f := Online.session)
    (fun k s => (session_call st am c k s).symm) (fun _ => rfl) mem
    ⟨⟨h.machine.world, hb, 0, false⟩, Function.update h.fds c (some t.taken), False⟩ _

theorem doRecv_machine (hok : Ok h) (ht : h.fds c = some t) (hs : DoRecv st h c t am mem h') :
    ∃ hist, Run (Daemon.Step st) h.machine hist h'.machine := by
  unfold DoRecv at hs
  split_ifs at hs
  · obtain ⟨hb, hf, -, rfl⟩ := hs
    have hstep : Daemon.Step st h.machine (.recv c t.bufev.input am mem)
        ⟨(received st c am mem h.machine hb h.fds t).state.session.world,
          Function.update h.machine.rest c (received st c am mem h.machine hb h.fds t).rest⟩ := by
      refine ⟨hok.linked.mem_live ht, hb, ?_⟩
      rw [received_view]
      exact ⟨hf, rfl⟩
    exact ⟨_, .one hstep⟩
  · exact ⟨[], hs ▸ .nil⟩

theorem doRest_machine (st : Settings) (hok : Ok h) (hs : DoRest h c h') :
    ∃ hist, Run (Daemon.Step st) h.machine hist h'.machine := by
  obtain ⟨t, ht, hs⟩ := hs
  rcases hrest : t.runRest with _ | t'
  · rw [hrest] at hs
    have hstep : Daemon.Step st h.machine (.close c) (h.close c).machine := ⟨hok.linked.mem_live ht, rfl⟩
    rw [hs.2]
    exact ⟨_, .one hstep⟩
  · rw [hrest] at hs
    rw [show h' = h.put c t' from hs]
    exact ⟨[], .nil⟩

theorem step_machine (hok : Ok h) (hs : Step st h e h') : ∃ hist, Run (Daemon.Step st) h.machine hist h'.machine := by
  cases e with
  | accept c token sp cp ip =>
    obtain ⟨hfd, rfl⟩ := hs
    have hstep : Daemon.Step st h.machine (.connect c token sp cp ip) _ := ⟨(hok.linked.none_iff c).mp hfd, rfl⟩
    exact ⟨_, .one hstep⟩
  | readable c r =>
    obtain ⟨t, -, -, -, rfl⟩ := hs
    exact ⟨[], .nil⟩
  | writable c r =>
    obtain ⟨t, -, -, -, rfl⟩ := hs
    exact ⟨[], .nil⟩
  | deferred c am mem =>
    obtain ⟨t, ht, -, h₁, hrecv, hrest⟩ := hs
    obtain ⟨hist, hr⟩ := doRecv_machine hok ht hrecv
    obtain ⟨hist', hr'⟩ := doRest_machine st (hok.doRecv ht hrecv).1 hrest
    exact ⟨_, hr.trans hr'⟩
  | datagram ip port b am =>
    obtain ⟨w, hw, rfl⟩ := hs
    have hstep : Daemon.Step st h.machine (.datagram ip port b am) ⟨w, h.machine.rest⟩ := ⟨w, hw, rfl⟩
    exact ⟨_, .one hstep⟩

/-- On its sockets, the server goes through a run of the server without them. -/
theorem run_machine (hs : Start h₀) (hr : Run (Step st) h₀ hist h) :
    ∃ hist', Run (Daemon.Step st) h₀.machine hist' h.machine :=
  (Run.simulate (f := machine) (I := Ok) (ok_start hs)
    (fun hok hstep => ⟨hok.step hstep, step_machine hok hstep⟩) hr).2

/-! ### A realm server is refused -/

section Refused

open Daemon (hall bare blank start_hall)

def idle : SocketServer := ⟨hall, fun _ => none⟩

theorem start_idle : Start idle := ⟨start_hall, rfl⟩

/-- It says that it is a realm server, and asks for a realm without a session number. -/
def greeting : List Byte := [0x65, 4, 0, 2, 0]

def asking : TcpClient := { TcpClient.new with bufev := BufferEvent.new.readcb (.data greeting) }

def asked : SocketServer := (⟨hall.joined 0 7, Function.update idle.fds 0 (some .new)⟩ : SocketServer).put 0 asking

def answer : Out Online Byte PluginCall :=
  received bare 0 (fun _ => blank) (fun _ n => Buf.zero n) asked.machine start_hall.net.bounded asked.fds asking

/-- Its client, with the greeting and the refusal. -/
def refused : TcpClient where
  bufev := { BufferEvent.new with output := Baal.build 0x01 0 [.u32 1] ++ Baal.build 0x02 0 [.u32 1] }
  pend := true

def answered : SocketServer :=
  ⟨⟨answer.state.session.world, Function.update asked.machine.rest 0 answer.rest⟩, answer.state.fds⟩

def flushed : TcpClient := { refused with bufev := refused.bufev.writecb (.took 24) }

/-- Everything is written. -/
def drained : SocketServer := (answered.put 0 refused).put 0 flushed

theorem client_drained : drained.fds 0 = some flushed := rfl

theorem run_asked : ∃ hist, Run (Step bare) idle hist asked := by
  have h₁ : Step bare idle (.accept 0 7 (Buf.zero 20) (Buf.zero 20) 0) _ := ⟨rfl, rfl⟩
  have h₂ : Step bare _ (.readable 0 (.data greeting)) asked :=
    ⟨.new, rfl, rfl, fun b hb => by cases hb; decide, rfl⟩
  exact ⟨_, (Run.one h₁).snoc h₂⟩

theorem run_flushed : ∃ hist, Run (Step bare) idle hist drained := by
  obtain ⟨hist, hr⟩ := run_asked
  obtain ⟨-, -, -, hlost, -⟩ := sound_received bare (fun _ => blank) (fun _ n => Buf.zero n) (ok_run start_idle hr)
    (rfl : asked.fds 0 = some asking) start_hall.net.bounded rfl
  have h₁ : Step bare asked (.deferred 0 (fun _ => blank) (fun _ n => Buf.zero n)) (answered.put 0 refused) :=
    ⟨asking, rfl, .inl rfl, answered, ⟨start_hall.net.bounded, rfl, hlost, rfl⟩, refused, rfl, rfl⟩
  have h₂ : Step bare (answered.put 0 refused) (.writable 0 (.took 24)) drained :=
    ⟨refused, rfl, rfl, fun n hn => by cases hn; decide, rfl⟩
  exact ⟨_, (hr.snoc h₁).snoc h₂⟩

end Refused

/-! ### The results -/

/-- **Nothing that is sent is lost, doubled or put out of order, and nothing is forgotten.** Whatever the loop does on the
sockets: the clients are those of the connections that are there. What the socket of one has taken, and behind it what is
in its buffer, are the bytes of the packets it was sent. If there are bytes to be written or to be handled, the event or
the callback that does it is due; and as long as the connection is to be closed, there are bytes to be written or a
callback that closes it is due. -/
theorem delivered (hs : Start h₀) (hr : Run (Step st) h₀ hist h) : (∀ c, h.fds c = none ↔ c ∉ h.world.net.live) ∧
    ∀ c t, h.fds c = some t → t.bufev.wire ++ t.bufev.output = (h.world.sent c).flatMap bytes ∧
      (t.bufev.output ≠ [] → t.bufev.evWrite = true ∨ t.bufev.eventcbPending = true) ∧
      (t.bufev.input ≠ [] → t.bufev.readcbPending = true) ∧
      (c ∈ h.world.closing → t.bufev.output ≠ [] ∨ t.bufev.writecbPending = true ∨ t.bufev.eventcbPending = true) := by
  have hok := ok_run hs hr
  refine ⟨hok.linked.none_iff, fun c t ht => ?_⟩
  have hdue := hok.linked.due ht
  refine ⟨hok.linked.stream ht, hdue.output, hdue.input, fun hc => ?_⟩
  by_cases hout : t.bufev.output = []
  · exact .inr (hdue.close ((hok.linked.pend ht).mpr hc) hout)
  · exact .inl hout

/-- The refused realm server: all is written, and the callback that closes it is due. -/
theorem delivered_refused : ∃ hist, Run (Step Daemon.bare) idle hist drained ∧
    flushed.bufev.wire ++ flushed.bufev.output = (answered.world.sent 0).flatMap bytes ∧
    (flushed.bufev.output ≠ [] ∨ flushed.bufev.writecbPending = true ∨ flushed.bufev.eventcbPending = true) := by
  obtain ⟨hist, hr⟩ := run_flushed
  obtain ⟨hstream, -, -, hclose⟩ := (delivered start_idle hr).2 0 flushed client_drained
  exact ⟨hist, hr, hstream, hclose (show 0 ∈ answered.world.closing by decide)⟩

/-- **A client is deleted at its end, or when it was to be closed and has been written all it was sent.** -/
theorem closed_written (hs : Start h₀) (hr : Run (Step st) h₀ hist h) (hstep : Step st h e h') (ht : h.fds c = some t)
    (hgone : h'.fds c = none) : t.bufev.eventcbPending = true ∨
      c ∈ h.world.closing ∧ t.bufev.wire = (h.world.sent c).flatMap bytes := by
  have hok := ok_run hs hr
  have hput : ∀ (h₁ : SocketServer) {d t₁ t'}, h₁.fds c = some t₁ → (h₁.put d t').fds c ≠ none := by
    intro h₁ d t₁ t' h₁c hn
    by_cases hcd : c = d
    · subst hcd
      have hself : (h₁.put c t').fds c = some t' := Function.update_self _ _ _
      rw [hself] at hn
      cases hn
    · have hother : (h₁.put d t').fds c = h₁.fds c := Function.update_of_ne hcd _ _
      rw [hother, h₁c] at hn
      cases hn
  cases e with
  | accept d token sp cp ip =>
    obtain ⟨-, rfl⟩ := hstep
    exact absurd hgone (hput h ht)
  | readable d r =>
    obtain ⟨u, -, -, -, rfl⟩ := hstep
    exact absurd hgone (hput h ht)
  | writable d r =>
    obtain ⟨u, -, -, -, rfl⟩ := hstep
    exact absurd hgone (hput h ht)
  | datagram ip port b am =>
    obtain ⟨w, -, rfl⟩ := hstep
    rw [ht] at hgone
    cases hgone
  | deferred d am mem =>
    obtain ⟨u, hu, -, h₁, hrecv, v, hv, hrest⟩ := hstep
    obtain ⟨t₁, ht₁, hlater⟩ := (hok.doRecv hu hrecv).2 c t ht
    rcases hrun : v.runRest with _ | v'
    · rw [hrun] at hrest
      obtain ⟨-, rfl⟩ := hrest
      by_cases hcd : c = d
      · subst hcd
        obtain rfl : v = t₁ := Option.some.inj (hv.symm.trans ht₁)
        rcases TcpClient.runRest_none hrun with hevent | ⟨hpend, hout⟩
        · exact .inl (hlater.event ▸ hevent)
        · have hold := (hlater.pend hpend).resolve_right fun hne => hne hout
          refine .inr ⟨(hok.linked.pend ht).mp hold, ?_⟩
          rw [← hok.linked.stream ht, BufferEvent.stream, hlater.output hout, List.append_nil]
      · have hother : (h₁.close d).fds c = sendAll h₁.world.sent (h₁.world.disconnect d).sent h₁.fds c :=
          Function.update_of_ne hcd _ _
        rw [hother, sendAll, ht₁] at hgone
        cases hgone
    · rw [hrun] at hrest
      rw [show h' = h₁.put d v' from hrest] at hgone
      exact absurd hgone (hput h₁ ht₁)

theorem closed_written_refused :
    ∃ h', Step Daemon.bare drained (.deferred 0 (fun _ => Daemon.blank) fun _ n => Buf.zero n) h' ∧ h'.fds 0 = none ∧
      0 ∈ answered.world.closing ∧ flushed.bufev.wire = (answered.world.sent 0).flatMap bytes := by
  obtain ⟨hist, hr⟩ := run_flushed
  have hstray := not_stray_disconnect (ok_run start_idle hr) client_drained
  have hstep : Step Daemon.bare drained (.deferred 0 (fun _ => Daemon.blank) fun _ n => Buf.zero n) (drained.close 0) :=
    ⟨flushed, rfl, .inr (.inl rfl), _, rfl, flushed, rfl, hstray, rfl⟩
  have hgone : (drained.close 0).fds 0 = none := rfl
  rcases closed_written start_idle hr hstep client_drained hgone with hevent | hwritten
  · cases hevent
  · exact ⟨_, hstep, hgone, hwritten⟩

/-- **No client is used after it was deleted.** Whenever callbacks are due and the packets of the input can be handled,
the loop can run the callbacks: no packet writes to a client that is gone, `PendClose` does not delete the client whose
input is handled, and neither does one that is deleted write to one that is gone. -/
theorem handled (hs : Start h₀) (hr : Run (Step st) h₀ hist h) (ht : h.fds c = some t) (hq : t.bufev.Queued)
    (hrecv : t.bufev.readcbPending = true → ∃ m, Daemon.Step st h.machine (.recv c t.bufev.input am mem) m) :
    ∃ h', Step st h (.deferred c am mem) h' := by
  have hok := ok_run hs hr
  have hread : ∃ h₁, DoRecv st h c t am mem h₁ := by
    unfold DoRecv
    split_ifs with hcb
    · obtain ⟨m, -, hb, hf, -⟩ := hrecv hcb
      rw [received_view] at hf
      obtain ⟨-, -, -, hlost, -⟩ := sound_received st am mem hok ht hb hf
      exact ⟨_, hb, hf, hlost, rfl⟩
    · exact ⟨h, rfl⟩
  obtain ⟨h₁, hread⟩ := hread
  obtain ⟨hok₁, hstay⟩ := hok.doRecv ht hread
  obtain ⟨t₁, ht₁, -⟩ := hstay c t ht
  rcases hrun : t₁.runRest with _ | t₂
  · exact ⟨h₁.close c, t, ht, hq, h₁, hread, t₁, ht₁, by rw [hrun]; exact ⟨not_stray_disconnect hok₁ ht₁, rfl⟩⟩
  · exact ⟨h₁.put c t₂, t, ht, hq, h₁, hread, t₁, ht₁, by rw [hrun]⟩

theorem handled_asked :
    ∃ h', Step Daemon.bare asked (.deferred 0 (fun _ => Daemon.blank) fun _ n => Buf.zero n) h' := by
  obtain ⟨hist, hr⟩ := run_asked
  refine handled start_idle hr (rfl : asked.fds 0 = some asking) (.inl rfl) fun _ => ?_
  exact ⟨_, by decide, Daemon.start_hall.net.bounded, rfl, rfl⟩

end SocketServer

end Blitzd.Network
