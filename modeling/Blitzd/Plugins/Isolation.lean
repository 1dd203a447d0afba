import Blitzd.Plugins.Hearing

/-! # What a connection cannot do to the others

The bytes of one connection leave the others where they are (`isolated`): their stage, account, proofs, game address and
texts, the channels and games they are in, and the name they are found under. They get nothing written unless they are
found under a name or are in a channel. The chat events they get show the name of the one who caused them
(`events_named`).

No packet changes an account's id or name, and what it logs on with changes only with a proof or the old password
(`secrets_kept`). -/

namespace Blitzd.Plugins.Isolation

open Blitzd.Lib Blitzd.Lib.Bytes Blitzd.Utils Blitzd.Cache Blitzd.Core Blitzd.Packets Blitzd.Plugins.LogonPool
open Blitzd.Plugins.Acts Blitzd.Plugins.Suites Blitzd.Plugins.SuitesActs Blitzd.Plugins.Hearing

variable {env : Env} {st : Settings} {am : Ambient} {w w' w'' w₀ : World} {c d : ConnId} {a : Act} {call : PluginCall}

/-! ### Other connections -/

/-- Found under no name, and in no channel. -/
def Unseen (w : World) (d : ConnId) : Prop :=
  (∀ name, w.server.pool.findName name ≠ some d) ∧ ∀ ch, d ∉ w.lobby.connset ch

/-- Somebody else is written to if they are seen. -/
theorem not_unseen {x : Wire} (h : Written w c d x) (hdc : d ≠ c) : ¬ Unseen w d := by
  rintro ⟨hname, hchan⟩
  cases h with
  | mute _ hreach =>
    obtain ⟨name, hn⟩ := hreach.resolve_left hdc
    exact hname name hn
  | own hd => exact hdc hd
  | channel _ hch => exact hchan _ hch
  | whisper _ hn => exact hname _ hn

/-- What stays of the client and of what it is in. -/
structure Settled (d : ConnId) (w w' : World) : Prop where
  client : w'.client d = w.client d
  channel : (w'.lobby.member d).channel = (w.lobby.member d).channel
  game : (w'.lobby.member d).game = (w.lobby.member d).game
  connset : ∀ ch, d ∈ w'.lobby.connset ch ↔ d ∈ w.lobby.connset ch
  found : ∀ name, w'.server.pool.findName name = some d → w.server.pool.findName name = some d
  persona : w'.persona d = w.persona d ∨
    ¬ Unseen w d ∧ ∃ name, w'.persona d = { w.persona d with lastWhisper := name }

/-- What stays of a connection while another one acts. -/
structure Apart (d : ConnId) (w w' : World) : Prop extends Settled d w w' where
  live : d ∈ w'.net.live
  sent : w.sent d <+: w'.sent d
  unseen : Unseen w d → w'.sent d = w.sent d

namespace Apart

theorem refl (hd : d ∈ w.net.live) : Apart d w w :=
  ⟨⟨rfl, rfl, rfl, fun _ => .rfl, fun _ => id, .inl rfl⟩, hd, List.prefix_refl _, fun _ => rfl⟩

theorem still_unseen (h : Apart d w w') (hu : Unseen w d) : Unseen w' d :=
  ⟨fun name hn => hu.1 name (h.found name hn), fun ch hch => hu.2 ch ((h.connset ch).mp hch)⟩

theorem trans (h : Apart d w w') (h' : Apart d w' w'') : Apart d w w'' := by
  refine ⟨⟨h'.client.trans h.client, h'.channel.trans h.channel, h'.game.trans h.game,
    fun ch => (h'.connset ch).trans (h.connset ch), fun name hn => h.found name (h'.found name hn), ?_⟩, h'.live,
    h.sent.trans h'.sent, fun hu => (h'.unseen (h.still_unseen hu)).trans (h.unseen hu)⟩
  rcases h'.persona with he' | ⟨hseen', n', he'⟩
  · rw [he']
    exact h.persona
  · refine .inr ⟨fun hu => hseen' (h.still_unseen hu), n', ?_⟩
    rcases h.persona with he | ⟨-, n, he⟩
    · rw [he', he]
    · rw [he', he]

end Apart

/-- An act that leaves the lobby alone. -/
theorem settled_of_lobby (hclient : w'.client d = w.client d) (hlobby : w'.lobby = w.lobby)
    (hfound : ∀ name, w'.server.pool.findName name = some d → w.server.pool.findName name = some d)
    (hpersona : w'.persona d = w.persona d ∨
      ¬ Unseen w d ∧ ∃ name, w'.persona d = { w.persona d with lastWhisper := name }) : Settled d w w' :=
  ⟨hclient, by rw [hlobby], by rw [hlobby], fun ch => by rw [hlobby], hfound, hpersona⟩

/-- An act that leaves the net alone, too. -/
theorem settled_of_net (hnet : w'.net = w.net) (hlobby : w'.lobby = w.lobby) (hpersona : w'.persona d = w.persona d ∨
    ¬ Unseen w d ∧ ∃ name, w'.persona d = { w.persona d with lastWhisper := name }) : Settled d w w' := by
  refine settled_of_lobby ?_ hlobby (fun name hn => ?_) hpersona
  · rw [World.client, hnet, World.client]
  · unfold World.server at hn ⊢
    rwa [hnet] at hn

theorem settled_step (hi : Inv w) (hi' : Inv w') (hdo : Does env w a w')
    (hsuit : Suited am.scratch c call a) (hdc : d ≠ c) (hl : d ∈ w.net.live) : Settled d w w' := by
  have hwho := Daemon.who_of_suited hsuit
  have hclient := Daemon.client_of_suited hdo hsuit hdc
  cases a with
  | enter e s =>
    obtain ⟨xs, -, rfl⟩ := hdo
    exact settled_of_lobby hclient rfl (fun _ => id) (.inl rfl)
  | account e k =>
    obtain rfl : e = c := hwho
    obtain ⟨s, rs, xs, hh, -, rfl⟩ := hdo
    refine settled_of_lobby hclient rfl (fun name hn => ?_) (.inl rfl)
    exact (entry_packet (Logon.handle_did hh) hn).resolve_right fun h => hdc h.1
  | plain e =>
    obtain rfl : e = c := hwho
    exact settled_of_lobby hclient hdo.lobby (fun name hn => hdo.pool ▸ hn) (.inl (hdo.persona d hdc))
  | move m =>
    obtain rfl : m.who = c := hwho
    obtain ⟨hm, rfl⟩ := hdo
    have hby := Lobby.onlyBy_apply hi.lobby hm
    exact ⟨rfl, hby.channel d hdc, hby.game_eq hi.lobby hi'.lobby hdc (hi.live ▸ hl),
      fun ch => hby.connset ch d hdc, fun _ => id, .inl rfl⟩
  | whisper e f text =>
    obtain ⟨hfe, ⟨name, hname⟩, -, rfl⟩ := hdo
    obtain ⟨xs, -, -, hpersona⟩ := whisperTo_spec w hfe text
    refine settled_of_net (whisperTo_same ..).1 (whisperTo_same ..).2 ?_
    rw [hpersona]
    by_cases hdf : d = f
    · exact .inr ⟨fun hu => hu.1 name (hdf ▸ hname), _, by rw [hdf, Function.update_self]⟩
    · exact .inl (Function.update_of_ne hdf _ _)
  | friendWhisper e text =>
    obtain ⟨p, -, rfl⟩ := hdo
    refine settled_of_net (friendWhisper_same ..).1 (friendWhisper_same ..).2 ?_
    rw [(friendWhisper_spec w p e text false).2]
    dsimp only
    split_ifs with hmem
    · obtain ⟨name, hname⟩ := mem_friendsOnline hmem
      exact .inr ⟨fun hu => hu.1 name hname, _, rfl⟩
    · exact .inl rfl
  | talk e text =>
    subst hdo
    exact settled_of_net (talk_same ..).1 (talk_same ..).2 (.inl (by rw [(talk_spec w e text).1]))
  | connect e t sp cp ip => exact (not_outer hsuit trivial).elim
  | address e ip port => exact (not_outer hsuit trivial).elim
  | disconnect e => exact (not_outer hsuit trivial).elim

/-- A packet of `c`, for the others. -/
theorem apart_step (hi : Inv w) (hs : Step env w a w') (hsuit : Suited am.scratch c call a) (hdc : d ≠ c)
    (hl : d ∈ w.net.live) : Apart d w w' := by
  have hlive : d ∈ w'.net.live := (Daemon.live_of_suited hs.2 hsuit).symm ▸ hl
  obtain ⟨xs, he, hxs⟩ := suited_sent hi hs hsuit d
  refine ⟨settled_step hi (hi.step hs) hs.2 hsuit hdc hl, hlive, he ▸ List.prefix_append _ _, fun hu => ?_⟩
  have hnil : xs = [] := List.eq_nil_iff_forall_not_mem.mpr fun x hx => not_unseen (hxs x hx) hdc hu
  rw [he, hnil, List.append_nil]

/-- A run of packets of `c`. -/
theorem apart_run {evs : List (Entry World Daemon.Event)} (hi : Inv w) (hr : Run (Daemon.Serve st) w evs w')
    (hcalls : ∀ x ∈ evs, ∃ k am, x.event = .call c k am) (hdc : d ≠ c) (hl : d ∈ w.net.live) :
    Inv w' ∧ Apart d w w' := by
  induction hr with
  | nil => exact ⟨hi, .refl hl⟩
  | @snoc _ _ _ e _ hs ih =>
    obtain ⟨k, am, hk⟩ := hcalls _ List.mem_cons_self
    obtain rfl : e = .call c k am := hk
    obtain ⟨hi1, h1⟩ := ih fun x hx => hcalls x (List.mem_cons_of_mem _ hx)
    obtain ⟨a, hstep, hsuit⟩ := Daemon.call_act hi1 hs
    exact ⟨hi1.step hstep, h1.trans (apart_step hi1 hstep hsuit hdc h1.live)⟩

/-- **The bytes of a connection leave the others alone**: whatever `c` sends, in every state that is reached, another
connection keeps its client, its channel and game and the channels it is in the set of, is found under no new name, and
has no bytes taken from its buffer; of its other members only the name of the last whisper may change. It is written to,
and that name changes, only if it is found under a name or is in a channel. -/
theorem isolated {m₀ n n' : Daemon.Machine} {hist : List (Entry Daemon.Machine Daemon.Input)} {bytes : List Byte}
    {am : ℕ → Ambient} {mem : Memory Daemon.Session} (hs : Daemon.Start m₀) (hr : Run (Daemon.Step st) m₀ hist n)
    (hrecv : Daemon.Step st n (.recv c bytes am mem) n') (hdc : d ≠ c) (hl : d ∈ n.world.net.live) :
    Apart d n.world n'.world ∧ n'.rest d = n.rest d := by
  obtain ⟨hi, -⟩ := Daemon.machine_run hs hr
  obtain ⟨evs, hevs, hcalls⟩ := Daemon.recv_serve hrecv
  obtain ⟨-, hb, -, rfl⟩ := hrecv
  exact ⟨(apart_run hi hevs hcalls hdc hl).2, Function.update_of_ne hdc _ _⟩

/-- A second connection, while the first one chooses its protocol. -/
theorem isolated_chatter :
    Apart 1 Daemon.pair.world Daemon.chatter.world ∧ Daemon.chatter.rest 1 = Daemon.pair.rest 1 := by
  obtain ⟨hist, hr⟩ := Daemon.run_pair
  exact isolated Daemon.start_hall hr Daemon.recv_chatter (by decide) (by decide)

/-! ### Names -/

/-- The packet of a client that UDP works for. -/
def udpPacket : PluginCall := ⟨.bnet, 0x14FF, []⟩

theorem serve_udpPacket : Daemon.Serve Daemon.bare Daemon.chatter.world (.call 0 udpPacket Daemon.blank)
    (Suites.udpResponse 0 Daemon.chatter.world) := ⟨by decide, List.mem_cons_self, rfl⟩

open Logon (Did)

/-- What an account packet does to what accounts log on with. -/
theorem did_identity {k : Logon.Call} {s s' : Server} (h : Did env c k s s') (hb : Bounded s.store.cache) {p : Ptr}
    (hp : p < s.store.cache.heap.brk) : identity (s'.item p) = identity (s.item p) ∨
      (k.op = .accountChangeProof ∧ (s.client c).user = some p ∧ Logon.proofMatches c k s) ∨
      ∃ q, Logon.changeTarget env s k = some (p, q) := by
  have hlook : ∀ {a : Option Ptr} {store : Store},
      lookup env env.depth s.store (.name k.username) = some (a, store) →
        Heap.Extends identity s.store.cache.heap store.cache.heap := fun hl => (sameAccounts_lookup hb hl).heap
  cases h with
  | looked _ _ hl => exact .inl ((hlook hl).cell p hp)
  | srp hl =>
    unfold Server.item
    rw [Server.setProof_store, Server.setUser_store]
    exact .inl ((hlook hl).cell p hp)
  | oldLogin hl =>
    unfold Server.item
    rw [Server.setStage_store, Server.setUser_store]
    exact .inl ((hlook hl).cell p hp)
  | @passwd p' q store hl ht =>
    by_cases hpp : p = p'
    · exact .inr (.inr ⟨q, hpp ▸ ht⟩)
    · rw [Server.modifyItem_item_ne _ _ hpp]
      exact .inl ((hlook hl).cell p hp)
  | create _ hl => exact .inl (((hlook hl).trans ((Heap.Extends.alloc _ _ _).modify_new le_rfl _)).cell p hp)
  | login => exact .inl rfl
  | refused => exact .inl rfl
  | @change p' hop hu hm =>
    unfold Server.item
    rw [Server.setUser_store]
    by_cases hpp : p = p'
    · exact .inr (.inl ⟨hop, hpp ▸ hu, hm⟩)
    · exact .inl (congrArg identity (s.modifyItem_item_ne _ hpp))
  | unchanged =>
    unfold Server.item
    rw [Server.setUser_store]
    exact .inl rfl

/-- The packet that entitles to a change of what the account `p` logs on with: a proof packet with the proof the
connection expects, of a connection that named `p`, or a change with the hash of the password that is stored. -/
def Entitled (env : Env) (w : World) (c : ConnId) (call : PluginCall) (am : Ambient) (p : Ptr) : Prop :=
  ∃ k, Account am.scratch call k ∧ ((k.op = .accountChangeProof ∧ w.user c = some p ∧ Logon.proofMatches c k w.server) ∨
    ∃ q, Logon.changeTarget env w.server k = some (p, q))

theorem identity_does {call : PluginCall} (hb : Bounded w.server.store.cache) (hdo : Does env w a w')
    (hsuit : Suited am.scratch c call a) {p : Ptr} (hp : p < w.server.store.cache.heap.brk) :
    identity (w'.server.item p) = identity (w.server.item p) ∨ Entitled env w c call am p := by
  have hsame : w'.net = w.net → identity (w'.server.item p) = identity (w.server.item p) := fun he => by
    rw [World.server, he, World.server]
  cases a with
  | enter e s =>
    obtain ⟨xs, -, rfl⟩ := hdo
    exact .inl rfl
  | account e k =>
    have hk := account_of_suited hsuit
    obtain rfl : e = c := Daemon.who_of_suited hsuit
    obtain ⟨s, rs, xs, hh, -, rfl⟩ := hdo
    rcases did_identity (Logon.handle_did hh) hb hp with he | hproof | htarget
    · exact .inl he
    · exact .inr ⟨k, hk, .inl hproof⟩
    · exact .inr ⟨k, hk, .inr htarget⟩
  | plain e => exact .inl (hdo.accounts.heap.cell p hp)
  | move m => exact .inl (hsame (hdo.2 ▸ rfl))
  | whisper e f text => exact .inl (hsame (hdo.2.2.2 ▸ (whisperTo_same ..).1))
  | friendWhisper e text =>
    obtain ⟨q, -, rfl⟩ := hdo
    exact .inl (hsame (friendWhisper_same ..).1)
  | talk e text => exact .inl (hsame (hdo ▸ (talk_same ..).1))
  | connect e t sp cp ip => exact (not_outer hsuit trivial).elim
  | address e ip port => exact (not_outer hsuit trivial).elim
  | disconnect e => exact (not_outer hsuit trivial).elim

/-- **No packet changes what an account logs on with, unless it is entitled to**: a packet of any suite, in any state that
is reached, keeps id, name, salt, verifier and password of every account that is there, but for the two changes of
passwords. -/
theorem secrets_kept {evs : List (Entry World Daemon.Event)} (hs : Acts.Start w₀) (hr : Run (Daemon.Serve st) w₀ evs w)
    (h : Daemon.Serve st w (.call c call am) w') {p : Ptr} (hp : p < w.server.store.cache.heap.brk)
    (hno : ¬ Entitled st.env w c call am p) : identity (w'.server.item p) = identity (w.server.item p) := by
  obtain ⟨hi, -⟩ := Daemon.serve_run (inv_start hs) hr
  obtain ⟨a, hstep, hsuit⟩ := Daemon.call_act hi h
  exact (identity_does hi.pool.bounded hstep.2 hsuit hp).resolve_right hno

theorem secrets_kept_chatter : identity ((Suites.udpResponse 0 Daemon.chatter.world).server.item 0) =
    identity (Daemon.chatter.world.server.item 0) := by
  obtain ⟨hist, hr⟩ := Daemon.run_chatter
  obtain ⟨evs, hevs⟩ := Daemon.machine_serve hr
  refine secrets_kept Daemon.start_hall hevs serve_udpPacket (by decide) ?_
  rintro ⟨k, ⟨-, op, hop, -⟩, -⟩
  cases hop

end Blitzd.Plugins.Isolation
