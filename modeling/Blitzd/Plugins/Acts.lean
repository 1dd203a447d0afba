import Blitzd.Cache.Credentials
import Blitzd.Core.Chat
import Blitzd.Core.LobbyFrame
import Blitzd.Plugins.LogonPool

/-! # What can happen to the server

Whatever packet is handled, the server changes in one of a few ways (`Act`): a stage is entered, an account packet is
handled, somebody moves between channels and games, whispers or talks, or the act is a plain one. A `Plain` act of a
connection leaves stages, accounts of clients, channels, games and all other connections as they are, and writes no chat
events but information; all accounts keep their names and what they log on with.

`Inv` is kept by all acts (`Inv.step`): the net and the lobby are in order, have the same connections, and whoever is in
a channel or a game is logged in. What the acts do to the net alone is a run of the net, and likewise for the lobby
(`step_net`, `step_lobby`), so that what was proved of those holds of the server. -/

namespace Blitzd.Plugins.Acts

open Blitzd.Lib Blitzd.Lib.Bytes Blitzd.Utils.CString Blitzd.Cache Blitzd.Core Blitzd.Packets Blitzd.Plugins.LogonPool

/-! ### Accounts -/

/-- What an account is known and logs on by. -/
def identity (u : UserCacheItem) : UInt32 × Text × Creds := (u.id, u.username, u.creds)

theorem identity_of_core {u v : UserCacheItem} (h : u.core = v.core) : identity u = identity v := by
  have hcore : identity u.core = identity v.core := by rw [h]
  exact hcore

/-- The accounts that are there keep their identity. -/
structure SameAccounts (s s' : Store) : Prop where
  heap : Heap.Extends identity s.cache.heap s'.cache.heap
  bounded : Bounded s'.cache

namespace SameAccounts

variable {s s' s'' : Store}

theorem refl (hb : Bounded s.cache) : SameAccounts s s := ⟨.refl _ _, hb⟩

theorem trans (h : SameAccounts s s') (h' : SameAccounts s' s'') : SameAccounts s s'' :=
  ⟨h.heap.trans h'.heap, h'.bounded⟩

theorem of_keeps (h : Keeps s s') : SameAccounts s s' :=
  ⟨h.heap.mono fun _ _ he => identity_of_core he, h.bounded⟩

theorem modify (hb : Bounded s.cache) (p : Ptr) {f : UserCacheItem → UserCacheItem}
    (hf : identity (f (s.cache.get p)) = identity (s.cache.get p)) :
    SameAccounts s { s with cache := s.cache.modify p f } :=
  ⟨⟨le_rfl, fun q _ => Heap.modify_keeps identity s.cache.heap hf q⟩, hb.name, hb.id⟩

end SameAccounts

/-! ### Plain acts -/

/-- The type of a chat event, and the name it shows. -/
def event : Wire → Option (UInt32 × Text)
  | .bnet (.chatEvent id _ _ username _) => some (id, username)
  | _ => none

/-- No chat event, or a piece of information. -/
def Mute (x : Wire) : Prop := event x = none ∨ event x = some (MessageType.info.code, [])

/-- `c` itself, or somebody who is found under a name. -/
def InReach (w : World) (c d : ConnId) : Prop := d = c ∨ ∃ name, w.server.pool.findName name = some d

/-- What most packets of `c` do. -/
structure Plain (c : ConnId) (w w' : World) : Prop where
  live : w'.net.live = w.net.live
  pool : w'.server.pool = w.server.pool
  accounts : SameAccounts w.server.store w'.server.store
  client : ∀ d ≠ c, w'.client d = w.client d
  own : ∃ gameid, w'.client c = { w.client c with gameid := gameid }
  lobby : w'.lobby = w.lobby
  persona : ∀ d ≠ c, w'.persona d = w.persona d
  lastWhisper : (w'.persona c).lastWhisper = (w.persona c).lastWhisper
  sent : ∀ d, ∃ xs, w'.sent d = w.sent d ++ xs ∧ ∀ x ∈ xs, Mute x ∧ InReach w c d

variable {c d : ConnId} {w w' w'' : World}

namespace Plain

theorem refl (c : ConnId) (hb : Bounded w.server.store.cache) : Plain c w w :=
  ⟨rfl, rfl, .refl hb, fun _ _ => rfl, ⟨_, rfl⟩, rfl, fun _ _ => rfl, rfl,
    fun _ => ⟨[], (List.append_nil _).symm, fun x hx => by cases hx⟩⟩

theorem trans (h : Plain c w w') (h' : Plain c w' w'') : Plain c w w'' := by
  refine ⟨h'.live.trans h.live, h'.pool.trans h.pool, h.accounts.trans h'.accounts,
    fun d hd => (h'.client d hd).trans (h.client d hd), ?_,
    h'.lobby.trans h.lobby, fun d hd => (h'.persona d hd).trans (h.persona d hd),
    h'.lastWhisper.trans h.lastWhisper, fun d => ?_⟩
  · obtain ⟨g, hg⟩ := h.own
    obtain ⟨g', hg'⟩ := h'.own
    exact ⟨g', by rw [hg', hg]⟩
  · obtain ⟨xs, he, hxs⟩ := h.sent d
    obtain ⟨ys, he', hys⟩ := h'.sent d
    refine ⟨xs ++ ys, by rw [he', he, List.append_assoc], fun x hx => ?_⟩
    rcases List.mem_append.mp hx with hx | hx
    · exact hxs x hx
    · refine ⟨(hys x hx).1, ?_⟩
      have hreach := (hys x hx).2
      unfold InReach at hreach ⊢
      rwa [h.pool] at hreach

/-- What does not look at the game of a client is kept. -/
theorem kept {α : Type*} (h : Plain c w w') (f : Client → α) (hf : ∀ cl g, f { cl with gameid := g } = f cl)
    (d : ConnId) : f (w'.client d) = f (w.client d) := by
  by_cases hd : d = c
  · obtain ⟨g, hg⟩ := h.own
    rw [hd, hg, hf]
  · rw [h.client d hd]

theorem bounded (h : Plain c w w') : Bounded w'.server.store.cache := h.accounts.bounded

/-- One plain act and then another. -/
theorem andThen (h : Plain c w w') (h' : Bounded w'.server.store.cache → Plain c w' w'') : Plain c w w'' :=
  h.trans (h' h.bounded)

theorem user_eq (h : Plain c w w') (d : ConnId) : w'.user d = w.user d := h.kept Client.user (fun _ _ => rfl) d

theorem stage_eq (h : Plain c w w') (d : ConnId) : (w'.client d).stage = (w.client d).stage :=
  h.kept Client.stage (fun _ _ => rfl) d

/-- To the net, a plain act is the packet of another handler. -/
theorem elsewhere (h : Plain c w w') : Elsewhere w.net w'.net :=
  ⟨h.live, h.pool, h.user_eq, h.stage_eq, h.bounded, h.accounts.heap.brk,
    fun p hp => congrArg (fun x : UInt32 × Text × Creds => x.2.1) (h.accounts.heap.cell p hp)⟩

theorem foldl {α : Type*} (hb : Bounded w.server.store.cache) (xs : List α) {f : World → α → World}
    (hf : ∀ {w : World}, Bounded w.server.store.cache → ∀ x ∈ xs, Plain c w (f w x)) : Plain c w (xs.foldl f w) := by
  induction xs generalizing w with
  | nil => exact .refl c hb
  | cons x xs ih =>
    exact (hf hb x List.mem_cons_self).andThen fun hb => ih hb fun hb y hy => hf hb y (List.mem_cons_of_mem x hy)

/-- Files, realms and lists of channels are nobody's. -/
theorem of_same (hb : Bounded w.server.store.cache) (hnet : w'.net = w.net) (hlobby : w'.lobby = w.lobby)
    (hpersona : w'.persona = w.persona) (hsent : w'.sent = w.sent) : Plain c w w' := by
  have h := Plain.refl c hb
  cases w
  cases w'
  cases hnet
  cases hlobby
  cases hpersona
  cases hsent
  exact ⟨h.live, h.pool, h.accounts, h.client, h.own, h.lobby, h.persona, h.lastWhisper, h.sent⟩

theorem modifyPersona (hb : Bounded w.server.store.cache) (c : ConnId) {f : Persona → Persona}
    (hf : (f (w.persona c)).lastWhisper = (w.persona c).lastWhisper) : Plain c w (w.modifyPersona c f) := by
  have h := Plain.refl c hb
  refine ⟨h.live, h.pool, h.accounts, h.client, h.own, h.lobby, fun d hd => Function.update_of_ne hd _ _,
    ?_, h.sent⟩
  exact (congrArg Persona.lastWhisper (Function.update_self c _ w.persona)).trans hf

theorem deliver (hb : Bounded w.server.store.cache) (hreach : InReach w c d) {xs : List Wire} (hxs : ∀ x ∈ xs, Mute x) :
    Plain c w (w.deliver d xs) := by
  have h := Plain.refl c hb
  refine ⟨h.live, h.pool, h.accounts, h.client, h.own, h.lobby, h.persona, h.lastWhisper, fun e => ?_⟩
  by_cases he : e = d
  · subst he
    exact ⟨xs, Function.update_self _ _ _, fun x hx => ⟨hxs x hx, hreach⟩⟩
  · exact ⟨[], (Function.update_of_ne he _ _).trans (List.append_nil _).symm, fun x hx => by cases hx⟩

theorem reply (hb : Bounded w.server.store.cache) (hreach : InReach w c d) {p : Packet} (hp : Mute (.bnet p)) :
    Plain c w (w.reply d p) := by
  unfold World.reply
  split_ifs
  · refine .deliver hb hreach fun x hx => ?_
    rw [List.mem_singleton.mp hx]
    exact hp
  · exact .refl c hb

theorem info (hb : Bounded w.server.store.cache) (c : ConnId) (msg : Text) : Plain c w (w.info c msg) := by
  refine .deliver hb (.inl rfl) fun x hx => ?_
  rw [List.mem_singleton.mp hx]
  exact .inr rfl

theorem setServer {s : Server} (hpool : s.pool = w.server.pool) (hacc : SameAccounts w.server.store s.store)
    (hclient : ∀ d ≠ c, s.client d = w.client d)
    (hown : ∃ gameid, s.client c = { w.client c with gameid := gameid }) : Plain c w (w.setServer s) :=
  ⟨rfl, hpool, hacc, hclient, hown, rfl, fun _ _ => rfl, rfl,
    fun _ => ⟨[], (List.append_nil _).symm, fun x hx => by cases hx⟩⟩

/-- A handler that changes accounts only. -/
theorem setStore {store : Store} (c : ConnId) (hacc : SameAccounts w.server.store store) :
    Plain c w (w.setServer { w.server with store := store }) :=
  .setServer rfl hacc (fun _ _ => rfl) ⟨_, rfl⟩

theorem modifyItem (hb : Bounded w.server.store.cache) (c : ConnId) (p : Ptr) {f : UserCacheItem → UserCacheItem}
    (hf : identity (f (w.server.item p)) = identity (w.server.item p)) :
    Plain c w (w.setServer (w.server.modifyItem p f)) := .setStore c (.modify hb p hf)

/-- `SetAuthInfo` and `SwitchGameID`. -/
theorem setGameid (hb : Bounded w.server.store.cache) (c : ConnId) (gameid : UInt32) :
    Plain c w (w.setServer (w.server.modifyClient c fun cl => { cl with gameid := gameid })) :=
  .setServer rfl (.refl hb) (fun _ hd => Server.modifyClient_ne _ _ hd) ⟨gameid, Server.modifyClient_self ..⟩

end Plain

/-! ### Acts -/

inductive Act
  | connect (c : ConnId) (token : UInt32) (serverProof clientProof : Buf 20) (ip : UInt32)
  /-- a first byte, or `TokenReq` -/
  | enter (c : ConnId) (s : Stage)
  | account (c : ConnId) (call : Logon.Call)
  | plain (c : ConnId)
  | move (m : AdMove)
  | whisper (c d : ConnId) (text : Text)
  | friendWhisper (c : ConnId) (text : Text)
  | talk (c : ConnId) (text : Text)
  /-- a packet over UDP that brings the token of `d` -/
  | address (d : ConnId) (ip : UInt32) (port : UInt16)
  | disconnect (c : ConnId)

/-- The connection that acts. -/
def Act.who : Act → ConnId
  | .connect c .. | .enter c _ | .account c _ | .plain c | .whisper c .. | .friendWhisper c _ | .talk c _ | .address c ..
  | .disconnect c => c
  | .move m => m.who

def LoggedIn (w : World) (c : ConnId) : Prop := c ∈ w.net.live ∧ (w.client c).stage = .bnetLoggedIn

/-- When an act can happen. -/
def Ready (w : World) : Act → Prop
  | .connect c .. => c ∉ w.net.live
  | .enter c s => c ∈ w.net.live ∧ ((w.client c).stage, s) ∈ entrances
  | .account c _ => c ∈ w.net.live ∧ (w.client c).stage ∈ [Stage.bnet, .bnetLoggedIn]
  | .plain c => c ∈ w.net.live
  | .move m => m.who ∈ w.net.live ∧ (m = .stopAdv m.who ∨ LoggedIn w m.who)
  | .whisper c .. | .friendWhisper c _ | .talk c _ => LoggedIn w c
  | .address d .. => d ∈ w.net.live
  | .disconnect c => c ∈ w.net.live

/-- What it leads to. -/
def Does (env : Env) (w : World) : Act → World → Prop
  | .connect c token sp cp ip, w' => w' = w.connect c token sp cp ip
  | .enter c s, w' => ∃ xs, (∀ x ∈ xs, event x = none) ∧ w' = (w.setServer (w.server.setStage c s)).deliver c xs
  | .account c call, w' => ∃ s rs xs, Logon.handle env c call w.server = some (s, rs) ∧
      (∀ x ∈ xs, event x = none) ∧ w' = (w.setServer s).deliver c xs
  | .plain c, w' => Plain c w w'
  | .move m, w' => m.Stays ∧ w' = w.move (m.apply w.lobby)
  | .whisper c d text, w' => d ≠ c ∧ (∃ name, w.server.pool.findName name = some d) ∧ (w.persona d).dnd = [] ∧
      w' = w.whisperTo d c text true
  | .friendWhisper c text, w' => ∃ p, w.user c = some p ∧ w' = w.friendWhisper p c text false
  | .talk c text, w' => w' = w.talk c text
  | .address d ip port, w' => w' = w.modifyPersona d fun p => { p with gameIp := ip, gamePort := port }
  | .disconnect c, w' => w' = w.disconnect c

def Step (env : Env) (w : World) (a : Act) (w' : World) : Prop := Ready w a ∧ Does env w a w'

/-! ### The invariant -/

structure Inv (w : World) : Prop where
  pool : PoolInv w.net
  lobby : w.lobby.Inv
  live : w.lobby.live = w.net.live
  inside : ∀ d ∈ w.net.live, w.lobby.Inside d → (w.client d).stage = .bnetLoggedIn

/-- Nobody is connected. -/
structure Start (w : World) : Prop where
  net : LogonPool.Start w.net
  lobby : w.lobby.Start

variable {env : Env} {a : Act}

theorem inv_start (h : Start w) : Inv w := by
  have hdead : ∀ {c}, c ∉ w.net.live := fun {c} hc => by
    rw [h.net.live] at hc
    exact absurd hc (Finset.notMem_empty c)
  refine ⟨⟨h.net.bounded, fun c hc => absurd hc hdead, h.net.nameIndex⟩, Lobby.inv_start h.lobby, ?_,
    fun c hc => absurd hc hdead⟩
  rw [h.lobby.live, h.net.live]

/-- Acts that write, and change nothing else that the invariant speaks of. -/
theorem Inv.of_same (h : Inv w) (hnet : w'.net = w.net) (hlobby : w'.lobby = w.lobby) : Inv w' := by
  refine ⟨hnet ▸ h.pool, hlobby ▸ h.lobby, by rw [hlobby, hnet, h.live], fun d hd hin => ?_⟩
  rw [hnet] at hd
  rw [hlobby] at hin
  have hst := h.inside d hd hin
  unfold World.client at hst ⊢
  rwa [hnet]

theorem whisperTo_same (w : World) (d c : ConnId) (text : Text) (ack : Bool) :
    (w.whisperTo d c text ack).net = w.net ∧ (w.whisperTo d c text ack).lobby = w.lobby := by
  unfold World.whisperTo
  dsimp only
  split_ifs <;> exact ⟨rfl, rfl⟩

theorem friendWhisper_same (w : World) (p : Ptr) (c : ConnId) (text : Text) (m : Bool) :
    (w.friendWhisper p c text m).net = w.net ∧ (w.friendWhisper p c text m).lobby = w.lobby := by
  unfold World.friendWhisper
  split_ifs <;> exact ⟨rfl, rfl⟩

theorem talk_same (w : World) (c : ConnId) (text : Text) :
    (w.talk c text).net = w.net ∧ (w.talk c text).lobby = w.lobby := by
  unfold World.talk
  split <;> exact ⟨rfl, rfl⟩

theorem Inv.connect (h : Inv w) (hc : c ∉ w.net.live) {token : UInt32} {sp cp : Buf 20}
    (hpool : PoolInv (w.net.connect c token sp cp)) (ip : UInt32) : Inv (w.connect c token sp cp ip) := by
  have hnew : ¬ (w.lobby.connect c).Inside c := by
    have hmember : (w.lobby.connect c).member c = .new := Function.update_self _ _ _
    rintro (hg | ⟨ch, hch⟩)
    · rw [hmember] at hg
      exact hg rfl
    · exact hc (h.live ▸ (h.lobby.channels.inSet hch).1)
  refine ⟨hpool, h.lobby.connect (h.live.symm ▸ hc), ?_, fun d hd hin => ?_⟩
  · show insert c w.lobby.live = insert c w.net.live
    rw [h.live]
  · by_cases hdc : d = c
    · exact absurd (hdc ▸ hin) hnew
    · have hold : w.lobby.Inside d := by
        have hmember : (w.lobby.connect c).member d = w.lobby.member d := Function.update_of_ne hdc _ _
        unfold Lobby.Inside at hin ⊢
        rwa [show (w.connect c token sp cp ip).lobby.member d = _ from hmember] at hin
      exact (congrArg Client.stage (Net.client_connect_ne w.net token sp cp hdc)).trans
        (h.inside d (Finset.mem_of_mem_insert_of_ne hd hdc) hold)

/-- Nobody is logged out. -/
theorem loggedIn_step (hs : Step env w a w') (hd : d ∈ w.net.live) (hst : (w.client d).stage = .bnetLoggedIn) :
    (w'.client d).stage = .bnetLoggedIn := by
  obtain ⟨hr, hdo⟩ := hs
  have hsame : w'.net = w.net → (w'.client d).stage = .bnetLoggedIn := fun he => by
    unfold World.client at hst ⊢
    rwa [he]
  cases a with
  | connect c token sp cp ip =>
    subst hdo
    have hdc : d ≠ c := fun he => hr (he ▸ hd)
    exact (congrArg Client.stage (Net.client_connect_ne w.net token sp cp hdc)).trans hst
  | enter c s =>
    obtain ⟨xs, -, rfl⟩ := hdo
    have hdc : d ≠ c := by
      rintro rfl
      have hin := hr.2
      rw [hst] at hin
      simp [entrances] at hin
    exact (congrArg Client.stage (w.server.modifyClient_ne _ hdc)).trans hst
  | account c call =>
    obtain ⟨s, rs, xs, hh, -, rfl⟩ := hdo
    exact stage_packet (Logon.handle_did hh) hst
  | plain c => exact (hdo.stage_eq d).trans hst
  | move m => exact hsame (hdo.2 ▸ rfl)
  | whisper c e text => exact hsame (hdo.2.2.2 ▸ (whisperTo_same ..).1)
  | friendWhisper c text =>
    obtain ⟨p, -, rfl⟩ := hdo
    exact hsame (friendWhisper_same ..).1
  | talk c text => exact hsame (hdo ▸ (talk_same ..).1)
  | address c ip port => exact hsame (hdo ▸ rfl)
  | disconnect c =>
    subst hdo
    exact hst

/-- An act on the net alone. -/
theorem Inv.onNet (h : Inv w) (hs : Step env w a w') {e : NetEvent} (hn : LogonPool.Step env w.net e w'.net)
    (hl : w'.net.live = w.net.live) (hlobby : w'.lobby = w.lobby) : Inv w' := by
  refine ⟨h.pool.step hn, hlobby ▸ h.lobby, by rw [hlobby, hl, h.live], fun d hd hin => ?_⟩
  rw [hl] at hd
  rw [hlobby] at hin
  exact loggedIn_step hs hd (h.inside d hd hin)

theorem enabled_of_live {m : AdMove} {l : Lobby} (hm : m.Stays) (hl : m.who ∈ l.live) : m.Enabled l := by
  rcases m with m | c
  · cases m <;> first | exact hl | exact hm.elim
  · exact hl

theorem Inv.move (h : Inv w) {m : AdMove} (hm : m.Stays) (hr : Ready w (.move m)) : Inv (w.move (m.apply w.lobby)) := by
  have hen : m.Enabled w.lobby := enabled_of_live hm (h.live.symm ▸ hr.1)
  have hinv : (m.apply w.lobby).Inv := by
    rcases m with m | c
    · exact h.lobby.step ⟨hen, rfl⟩
    · exact h.lobby.stopAdv c
  refine ⟨h.pool, hinv, (Lobby.live_apply w.lobby hm).trans h.live, fun d hd hin => ?_⟩
  by_cases hdc : d = m.who
  · rcases hr.2 with hstop | hlog
    · have hin : (m.apply w.lobby).Inside d := hin
      rw [hstop] at hin
      exact h.inside d hd (Lobby.inside_stopAdv hin)
    · rw [hdc]
      exact hlog.2
  · exact h.inside d hd ((Lobby.onlyBy_apply h.lobby hm).inside hdc hin)

theorem Inv.disconnect (h : Inv w) (hc : c ∈ w.net.live) (hpool : PoolInv (w.net.disconnect c)) :
    Inv (w.disconnect c) := by
  have hlive : (w.lobby.disconnect c).live = w.net.live.erase c := by
    rw [Lobby.disconnect, ← h.live]
    dsimp only
    rw [Lobby.live_leaveOwnChannel, Lobby.live_leaveOwnGame]
  refine ⟨hpool, h.lobby.disconnect (h.live.symm ▸ hc), hlive, fun d hd hin => ?_⟩
  have hdc := Finset.ne_of_mem_erase hd
  exact h.inside d (Finset.mem_of_mem_erase hd) ((Lobby.onlyBy_disconnect w.lobby c).inside hdc hin)

/-- **Every act keeps the invariant.** -/
theorem Inv.step (h : Inv w) (hs : Step env w a w') : Inv w' := by
  have hstep := hs
  obtain ⟨hr, hd⟩ := hs
  cases a with
  | connect c token sp cp ip =>
    subst hd
    have hnet : LogonPool.Step env w.net (.connect c token sp cp) _ := ⟨hr, rfl⟩
    exact h.connect hr (h.pool.step hnet) ip
  | enter c s =>
    obtain ⟨xs, -, rfl⟩ := hd
    exact h.onNet hstep (e := .enter c s) ⟨hr.1, hr.2, rfl⟩ rfl rfl
  | account c call =>
    obtain ⟨s, rs, xs, hh, -, rfl⟩ := hd
    exact h.onNet hstep (e := .packet c call) ⟨hr.1, hr.2, s, rs, hh, rfl⟩ rfl rfl
  | plain c => exact h.onNet hstep (e := .other c) ⟨hr, hd.elsewhere⟩ hd.live hd.lobby
  | move m =>
    obtain ⟨hm, rfl⟩ := hd
    exact h.move hm hr
  | whisper c d text =>
    obtain ⟨-, -, -, rfl⟩ := hd
    exact h.of_same (whisperTo_same ..).1 (whisperTo_same ..).2
  | friendWhisper c text =>
    obtain ⟨p, -, rfl⟩ := hd
    exact h.of_same (friendWhisper_same ..).1 (friendWhisper_same ..).2
  | talk c text =>
    subst hd
    exact h.of_same (talk_same ..).1 (talk_same ..).2
  | address d ip port =>
    subst hd
    exact h.of_same rfl rfl
  | disconnect c =>
    subst hd
    have hnet : LogonPool.Step env w.net (.disconnect c) _ := ⟨hr, rfl⟩
    exact h.disconnect hr (h.pool.step hnet)

/-! ### The net and the lobby of a run -/

/-- What an act does to the net is a run of the net. -/
theorem step_net (hs : Step env w a w') : ∃ hist, Run (LogonPool.Step env) w.net hist w'.net := by
  obtain ⟨hr, hd⟩ := hs
  have hstay : w'.net = w.net → ∃ hist, Run (LogonPool.Step env) w.net hist w'.net := fun he => ⟨[], he ▸ .nil⟩
  have hone : ∀ e, LogonPool.Step env w.net e w'.net → ∃ hist, Run (LogonPool.Step env) w.net hist w'.net :=
    fun e he => ⟨_, .one he⟩
  cases a with
  | connect c token sp cp ip =>
    subst hd
    exact hone (.connect c token sp cp) ⟨hr, rfl⟩
  | enter c s =>
    obtain ⟨xs, -, rfl⟩ := hd
    exact hone (.enter c s) ⟨hr.1, hr.2, rfl⟩
  | account c call =>
    obtain ⟨s, rs, xs, hh, -, rfl⟩ := hd
    exact hone (.packet c call) ⟨hr.1, hr.2, s, rs, hh, rfl⟩
  | plain c => exact hone (.other c) ⟨hr, hd.elsewhere⟩
  | move m => exact hstay (hd.2 ▸ rfl)
  | whisper c d text => exact hstay (hd.2.2.2 ▸ (whisperTo_same ..).1)
  | friendWhisper c text =>
    obtain ⟨p, -, rfl⟩ := hd
    exact hstay (friendWhisper_same ..).1
  | talk c text => exact hstay (hd ▸ (talk_same ..).1)
  | address d ip port => exact hstay (hd ▸ rfl)
  | disconnect c =>
    subst hd
    exact hone (.disconnect c) ⟨hr, rfl⟩

/-- What it does to the lobby is a run of the lobby. -/
theorem step_lobby (h : Inv w) (hs : Step env w a w') : ∃ hist, Run Lobby.AdStep w.lobby hist w'.lobby := by
  obtain ⟨hr, hd⟩ := hs
  have hstay : w'.lobby = w.lobby → ∃ hist, Run Lobby.AdStep w.lobby hist w'.lobby := fun he => ⟨[], he ▸ .nil⟩
  have hone : ∀ m, Lobby.AdStep w.lobby m w'.lobby → ∃ hist, Run Lobby.AdStep w.lobby hist w'.lobby :=
    fun m hm => ⟨_, .one hm⟩
  cases a with
  | connect c token sp cp ip =>
    subst hd
    have hc : c ∉ w.lobby.live := h.live.symm ▸ hr
    exact hone (.move (.connect c)) ⟨hc, rfl⟩
  | enter c s =>
    obtain ⟨xs, -, rfl⟩ := hd
    exact hstay rfl
  | account c call =>
    obtain ⟨s, rs, xs, -, -, rfl⟩ := hd
    exact hstay rfl
  | plain c => exact hstay hd.lobby
  | move m =>
    obtain ⟨hm, rfl⟩ := hd
    exact hone m ⟨enabled_of_live hm (h.live.symm ▸ hr.1), rfl⟩
  | whisper c d text => exact hstay (hd.2.2.2 ▸ (whisperTo_same ..).2)
  | friendWhisper c text =>
    obtain ⟨p, -, rfl⟩ := hd
    exact hstay (friendWhisper_same ..).2
  | talk c text => exact hstay (hd ▸ (talk_same ..).2)
  | address d ip port => exact hstay (hd ▸ rfl)
  | disconnect c =>
    subst hd
    have hc : c ∈ w.lobby.live := h.live.symm ▸ hr
    exact hone (.move (.disconnect c)) ⟨hc, rfl⟩

end Blitzd.Plugins.Acts
