import Blitzd.Plugins.Daemon

/-! # Who hears what

`step_sent` says what an act writes to whom (`Written`): protocol packets and information to its own connection and to
clients that are found under a name, chat events about the one who acts to the clients of a channel, whispers to clients
that are found under a name, and all else to the connection itself once it is logged in.

So chat reaches logged-in connections only, but for whispers and information (`unheard_before_login`), and the name `/r`
answers to is that of the last whisper the client was shown (`lastWhisper_shown`). -/

namespace Blitzd.Plugins.Hearing

open Blitzd.Lib Blitzd.Lib.Bytes Blitzd.Utils Blitzd.Utils.CString Blitzd.Cache Blitzd.Core Blitzd.Packets
open Blitzd.Plugins.LogonPool Blitzd.Plugins.Acts Blitzd.Plugins.Suites Blitzd.Plugins.SuitesActs

variable {env : Env} {w w' : World} {c d e : ConnId} {a : Act} {m : AdMove}

/-! ### What is written -/

/-- What `c` makes the server write to `d`. -/
inductive Written (w : World) (c d : ConnId) (x : Wire) : Prop
  | mute (hx : Mute x) (hreach : InReach w c d)
  | own (hd : d = c) (hlog : LoggedIn w c) (hx : ∀ n, event x ≠ some (MessageType.whisper.code, n))
  | channel {ch : ChanId} {t : MessageType} (hd : d ≠ c) (hch : d ∈ w.lobby.connset ch)
      (ht : t ∈ [MessageType.join, .leave, .talk]) (hx : event x = some (t.code, w.username c))
  | whisper {name : Text} (hlog : LoggedIn w c) (hname : w.server.pool.findName name = some d)
      (hx : event x = some (MessageType.whisper.code, w.username c))

theorem event_message (w : World) (f : Option ConnId) (t : MessageType) (msg : Text) :
    event (.bnet (w.buildMessagePacket f t msg)) = some (t.code, (f.map w.username).getD []) := by
  unfold World.buildMessagePacket
  rcases f with _ | f <;> rfl

theorem code_inj {t t' : MessageType} (h : t.code = t'.code) : t = t' := by
  cases t <;> cases t' <;> first | rfl | exact absurd h (by decide)

/-- A whisper is a chat event of that type. -/
def NoWhisper (x : Wire) : Prop := ∀ n, event x ≠ some (MessageType.whisper.code, n)

theorem noWhisper_of_none {x : Wire} (h : event x = none) : NoWhisper x := fun n he => by
  rw [h] at he
  cases he

theorem noWhisper_mute {x : Wire} (h : Mute x) : NoWhisper x := by
  rcases h with h | h
  · exact noWhisper_of_none h
  · intro n he
    rw [h] at he
    have hc : MessageType.info.code = MessageType.whisper.code := congrArg Prod.fst (Option.some.inj he)
    exact absurd (code_inj hc) (by decide)

theorem noWhisper_message (w : World) (f : Option ConnId) {t : MessageType} (ht : t ≠ .whisper) (msg : Text) :
    NoWhisper (.bnet (w.buildMessagePacket f t msg)) := by
  intro n he
  rw [event_message] at he
  exact ht (code_inj (congrArg Prod.fst (Option.some.inj he)))

theorem noWhisper_render (w : World) (n : Notice) : NoWhisper (.bnet (w.render n)) := by
  rcases n with name | about | about | text | status
  · exact noWhisper_message w none (t := .channel) (by decide) name
  · exact noWhisper_message w (some about) (t := .join) (by decide) []
  · exact noWhisper_message w (some about) (t := .leave) (by decide) []
  · exact noWhisper_message w none (t := .info) (by decide) text
  · exact noWhisper_of_none rfl

/-- The notices of a move are those its inboxes gained. -/
theorem notices_eq {l : Lobby} {es : List Notice} (h : (l.member d).inbox = (w.lobby.member d).inbox ++ es) :
    w.notices l d = es := by
  rw [World.notices, h, List.drop_left]

/-- What a move writes to the others. -/
theorem sent_others {l : Lobby} (h : Lobby.OnlyBy c w.lobby l) (hd : d ≠ c) :
    ∃ xs, (w.move l).sent d = w.sent d ++ xs ∧ ∀ x ∈ xs, Written w c d x := by
  obtain ⟨es, he, hes⟩ := h.inbox d
  refine ⟨_, rfl, fun x hx => ?_⟩
  rw [notices_eq he] at hx
  obtain ⟨n, hn, rfl⟩ := List.mem_map.mp hx
  obtain ⟨habout, ch, hch⟩ := hes n hn hd
  rcases habout with rfl | rfl
  · exact .channel (t := .join) hd hch (by decide) (event_message w (some c) .join [])
  · exact .channel (t := .leave) hd hch (by decide) (event_message w (some c) .leave [])

theorem inbox_stopAdv (l : Lobby) (c d : ConnId) : ((l.stopAdv c).member d).inbox = (l.member d).inbox := by
  unfold Lobby.stopAdv
  split
  · split_ifs <;> rfl
  · rfl

theorem sent_move (hi : Inv w) (hr : Ready w (.move m)) (hm : m.Stays) (d : ConnId) :
    ∃ xs, (w.move (m.apply w.lobby)).sent d = w.sent d ++ xs ∧ ∀ x ∈ xs, Written w m.who d x := by
  by_cases hd : d = m.who
  · rcases hr.2 with hstop | hlog
    · have hbox : ((m.apply w.lobby).member d).inbox = (w.lobby.member d).inbox ++ [] := by
        rw [hstop, List.append_nil]
        exact inbox_stopAdv w.lobby _ d
      refine ⟨[], ?_, fun x hx => by cases hx⟩
      show w.sent d ++ (w.notices _ d).map _ = _
      rw [notices_eq hbox]
      rfl
    · refine ⟨_, rfl, fun x hx => ?_⟩
      obtain ⟨n, -, rfl⟩ := List.mem_map.mp hx
      exact .own hd hlog (noWhisper_render w n)
  · exact sent_others (Lobby.onlyBy_apply hi.lobby hm) hd

/-! ### Whispers and lines -/

theorem deliver_deliver (w : World) (c : ConnId) (xs ys : List Wire) :
    (w.deliver c xs).deliver c ys = w.deliver c (xs ++ ys) := by
  simp [World.deliver]

/-- The sender of a whisper gets the receipt, and perhaps that the other is away. -/
theorem whisperTo_eq (w : World) (d c : ConnId) (text : Text) : ∃ xs, (∀ y ∈ xs, NoWhisper y) ∧
    w.whisperTo d c text true = (w.deliver c xs).send d (some c) .whisper text := by
  have hreceipt := noWhisper_message w (some d) (t := .whisperSent) (by decide) text
  unfold World.whisperTo
  rw [if_pos rfl]
  dsimp only
  split_ifs with haway
  · let away := w.username d ++ str " is away from PC (" ++ (w.persona d).away ++ str ")."
    refine ⟨[.bnet (w.buildMessagePacket (some d) .whisperSent text), .bnet (w.buildMessagePacket none .info away)],
      ?_, ?_⟩
    · rw [List.forall_mem_cons, List.forall_mem_singleton]
      exact ⟨hreceipt, noWhisper_message w none (by decide) away⟩
    · exact congrArg (fun w1 : World => w1.send d (some c) .whisper text) (deliver_deliver w c [_] [_])
  · refine ⟨[.bnet (w.buildMessagePacket (some d) .whisperSent text)], ?_, rfl⟩
    rw [List.forall_mem_singleton]
    exact hreceipt

/-- What a whisper writes and changes. -/
theorem whisperTo_spec (w : World) (hd : d ≠ c) (text : Text) : ∃ xs, (∀ y ∈ xs, NoWhisper y) ∧
    (w.whisperTo d c text true).sent = Function.update (Function.update w.sent c (w.sent c ++ xs)) d
      (w.sent d ++ [.bnet (w.buildMessagePacket (some c) .whisper text)]) ∧
    (w.whisperTo d c text true).persona =
      Function.update w.persona d { w.persona d with lastWhisper := w.username c } := by
  obtain ⟨xs, hxs, he⟩ := whisperTo_eq w d c text
  rw [he]
  refine ⟨xs, hxs, ?_, rfl⟩
  have hold : Function.update w.sent c (w.sent c ++ xs) d = w.sent d := Function.update_of_ne hd _ _
  show Function.update (Function.update w.sent c (w.sent c ++ xs)) d
    (Function.update w.sent c (w.sent c ++ xs) d ++ _) = _
  rw [hold]
  rfl

/-- What a whisper to all friends writes and changes. -/
theorem friendWhisper_spec (w : World) (p : Ptr) (c : ConnId) (text : Text) (mutualOnly : Bool) :
    ((w.friendWhisper p c text mutualOnly).sent = fun d => if d ∈ w.friendsOnline p mutualOnly then
      w.sent d ++ [.bnet (w.buildMessagePacket (some c) .whisper text)] else w.sent d) ∧
    (w.friendWhisper p c text mutualOnly).persona = fun d => if d ∈ w.friendsOnline p mutualOnly then
      { w.persona d with lastWhisper := w.username c } else w.persona d := by
  unfold World.friendWhisper
  split_ifs with hne
  · refine ⟨funext fun d => ?_, rfl⟩
    simp [World.sendSet]
  · rw [Finset.not_nonempty_iff_eq_empty] at hne
    simp [hne]

/-- A line said. -/
theorem talk_spec (w : World) (c : ConnId) (text : Text) : (w.talk c text).persona = w.persona ∧
    ∀ d, (w.talk c text).sent d = w.sent d ∨ d ≠ c ∧ (∃ ch, d ∈ w.lobby.connset ch) ∧
      (w.talk c text).sent d = w.sent d ++ [.bnet (w.buildMessagePacket (some c) .talk text)] := by
  unfold World.talk
  split
  · exact ⟨rfl, fun d => .inl rfl⟩
  · next ch _ =>
    refine ⟨rfl, fun d => ?_⟩
    unfold World.sendSet
    dsimp only
    split_ifs with hd
    · refine .inr ⟨fun he => hd.2 ⟨rfl, he ▸ rfl⟩, ⟨ch, hd.1⟩, rfl⟩
    · exact .inl rfl

theorem mem_friendsOnline {p : Ptr} {b : Bool} (h : d ∈ w.friendsOnline p b) :
    ∃ name, w.server.pool.findName name = some d := by
  unfold World.friendsOnline at h
  rw [List.mem_toFinset, List.mem_filterMap] at h
  obtain ⟨f, -, hf⟩ := h
  exact ⟨_, hf⟩

/-- **What an act writes to whom.** -/
theorem step_sent (hi : Inv w) (hs : Step env w a w') (hconn : ∀ t sp cp ip, a ≠ .connect d t sp cp ip)
    (hgone : a ≠ .disconnect d) : ∃ xs, w'.sent d = w.sent d ++ xs ∧ ∀ x ∈ xs, Written w a.who d x := by
  have hnone : w'.sent d = w.sent d → ∃ xs, w'.sent d = w.sent d ++ xs ∧ ∀ x ∈ xs, Written w a.who d x :=
    fun he => ⟨[], he.trans (List.append_nil _).symm, fun x hx => by cases hx⟩
  -- replies go to the connection that asks
  have hreply : ∀ {s xs}, (∀ x ∈ xs, event x = none) → w' = (w.setServer s).deliver a.who xs →
      ∃ xs, w'.sent d = w.sent d ++ xs ∧ ∀ x ∈ xs, Written w a.who d x := by
    rintro s xs hxs rfl
    by_cases hda : d = a.who
    · refine ⟨xs, ?_, fun x hx => .mute (.inl (hxs x hx)) (.inl hda)⟩
      rw [hda]
      exact Function.update_self _ _ _
    · exact ⟨[], (Function.update_of_ne hda _ _).trans (List.append_nil _).symm, fun x hx => by cases hx⟩
  obtain ⟨hr, hdo⟩ := hs
  cases a with
  | connect c t sp cp ip =>
    subst hdo
    have hdc : d ≠ c := fun he => hconn t sp cp ip (he ▸ rfl)
    exact hnone (Function.update_of_ne hdc _ _)
  | enter c s =>
    obtain ⟨xs, hxs, he⟩ := hdo
    exact hreply hxs he
  | account c call =>
    obtain ⟨s, rs, xs, -, hxs, he⟩ := hdo
    exact hreply hxs he
  | plain c =>
    obtain ⟨xs, he, hxs⟩ := hdo.sent d
    exact ⟨xs, he, fun x hx => .mute (hxs x hx).1 (hxs x hx).2⟩
  | move m =>
    obtain ⟨hm, rfl⟩ := hdo
    exact sent_move hi hr hm d
  | whisper c e text =>
    obtain ⟨hec, ⟨name, hname⟩, -, rfl⟩ := hdo
    obtain ⟨xs, hxs, hsent, -⟩ := whisperTo_spec w hec text
    rw [hsent]
    by_cases hde : d = e
    · refine ⟨[_], by rw [hde, Function.update_self], fun x hx => ?_⟩
      rw [List.mem_singleton.mp hx]
      exact .whisper hr (hde ▸ hname) (event_message w (some c) .whisper text)
    · rw [Function.update_of_ne hde]
      by_cases hdc : d = c
      · refine ⟨xs, by rw [hdc, Function.update_self], fun x hx => .own hdc hr (hxs x hx)⟩
      · exact ⟨[], by rw [Function.update_of_ne hdc, List.append_nil], fun x hx => by cases hx⟩
  | friendWhisper c text =>
    obtain ⟨p, -, rfl⟩ := hdo
    rw [(friendWhisper_spec w p c text false).1]
    dsimp only
    split_ifs with hmem
    · obtain ⟨name, hname⟩ := mem_friendsOnline hmem
      refine ⟨[_], rfl, fun x hx => ?_⟩
      rw [List.mem_singleton.mp hx]
      exact .whisper hr hname (event_message w (some c) .whisper text)
    · exact ⟨[], (List.append_nil _).symm, fun x hx => by cases hx⟩
  | talk c text =>
    subst hdo
    rcases (talk_spec w c text).2 d with he | ⟨hdc, ⟨ch, hch⟩, he⟩
    · exact hnone he
    · refine ⟨[_], he, fun x hx => ?_⟩
      rw [List.mem_singleton.mp hx]
      exact .channel (t := .talk) hdc hch (by decide) (event_message w (some c) .talk text)
  | address c ip port =>
    subst hdo
    exact hnone rfl
  | disconnect c =>
    subst hdo
    exact sent_others (Lobby.onlyBy_disconnect w.lobby c) fun he => hgone (he ▸ rfl)

/-- **What a packet writes to whom.** -/
theorem suited_sent {sc : Logon.Scratch} {call : PluginCall} (hi : Inv w) (hs : Step env w a w')
    (hsuit : Suited sc c call a) (d : ConnId) : ∃ xs, w'.sent d = w.sent d ++ xs ∧ ∀ x ∈ xs, Written w c d x := by
  have hwho := Daemon.who_of_suited hsuit
  have hinner := not_outer hsuit
  rw [← hwho]
  refine step_sent hi hs ?_ ?_
  · rintro t sp cp ip rfl
    exact hinner trivial
  · rintro rfl
    exact hinner trivial

/-- Whoever is written to is connected. -/
theorem Written.live {x : Wire} (h : Written w c d x) (hi : Inv w) (hc : c ∈ w.net.live) : d ∈ w.net.live := by
  cases h with
  | mute hx hreach =>
    rcases hreach with rfl | ⟨name, hname⟩
    · exact hc
    · exact (hi.pool.names name d hname).1
  | own hd hlog hx => exact hd ▸ hc
  | channel hd hch ht hx =>
    rw [← hi.live]
    exact (hi.lobby.channels.inSet hch).1
  | whisper hlog hname hx => exact (hi.pool.names _ d hname).1

/-! ### Before login -/

/-- Nothing but whispers and information among the chat events. -/
def Unheard (xs : List Wire) : Prop :=
  ∀ x ∈ xs, ∀ e, event x = some e → e.1 = MessageType.whisper.code ∨ e.1 = MessageType.info.code

theorem unheard_append {xs ys : List Wire} (hx : Unheard xs) (hy : Unheard ys) : Unheard (xs ++ ys) := by
  intro x hmem
  rcases List.mem_append.mp hmem with h | h
  · exact hx x h
  · exact hy x h

/-- What a connection that is not logged in can be sent. -/
theorem Written.unheard {x : Wire} (hi : Inv w) (h : Written w c d x) (hd : d ∈ w.net.live)
    (hst : (w.client d).stage ≠ .bnetLoggedIn) : Unheard [x] := by
  rw [Unheard, List.forall_mem_singleton]
  intro e he
  cases h with
  | mute hx =>
    rcases hx with hx | hx
    · rw [hx] at he
      cases he
    · rw [hx] at he
      cases he
      exact .inr rfl
  | own hdc hlog => exact absurd (hdc ▸ hlog.2) hst
  | channel _ hch => exact absurd (hi.inside d hd (.inr ⟨_, hch⟩)) hst
  | whisper _ _ hx =>
    rw [hx] at he
    cases he
    exact .inl rfl

theorem live_step (hs : Step env w a w') (hd : d ∈ w'.net.live) :
    d ∈ w.net.live ∨ ∃ t sp cp ip, a = .connect d t sp cp ip := by
  obtain ⟨hr, hdo⟩ := hs
  cases a with
  | connect c t sp cp ip =>
    subst hdo
    rcases Finset.mem_insert.mp hd with rfl | hd
    · exact .inr ⟨t, sp, cp, ip, rfl⟩
    · exact .inl hd
  | enter c s =>
    obtain ⟨xs, -, rfl⟩ := hdo
    exact .inl hd
  | account c call =>
    obtain ⟨s, rs, xs, -, -, rfl⟩ := hdo
    exact .inl hd
  | plain c => exact .inl (hdo.live ▸ hd)
  | move m =>
    obtain ⟨-, rfl⟩ := hdo
    exact .inl hd
  | whisper c e text =>
    obtain ⟨-, -, -, rfl⟩ := hdo
    rw [(whisperTo_same ..).1] at hd
    exact .inl hd
  | friendWhisper c text =>
    obtain ⟨p, -, rfl⟩ := hdo
    rw [(friendWhisper_same ..).1] at hd
    exact .inl hd
  | talk c text =>
    subst hdo
    rw [(talk_same ..).1] at hd
    exact .inl hd
  | address c ip port =>
    subst hdo
    exact .inl hd
  | disconnect c =>
    subst hdo
    exact .inl (Finset.mem_of_mem_erase hd)

/-- Connections that are not logged in hear nothing else. -/
def Hushed (w : World) : Prop := ∀ c ∈ w.net.live, (w.client c).stage ≠ .bnetLoggedIn → Unheard (w.sent c)

theorem Hushed.step (h : Hushed w) (hi : Inv w) (hs : Step env w a w') : Hushed w' := by
  intro d hd hst
  by_cases hconn : ∃ t sp cp ip, a = .connect d t sp cp ip
  · obtain ⟨t, sp, cp, ip, rfl⟩ := hconn
    obtain ⟨-, rfl⟩ := hs
    have hsent : (w.connect d t sp cp ip).sent d = [] := Function.update_self _ _ _
    rw [hsent]
    exact fun x hx => by cases hx
  · have hold : d ∈ w.net.live := (live_step hs hd).resolve_right hconn
    have hst' : (w.client d).stage ≠ .bnetLoggedIn := fun h => hst (loggedIn_step hs hold h)
    have hgone : a ≠ .disconnect d := by
      rintro rfl
      obtain ⟨-, rfl⟩ := hs
      exact Finset.notMem_erase d _ hd
    obtain ⟨xs, he, hxs⟩ := step_sent hi hs (fun t sp cp ip ha => hconn ⟨t, sp, cp, ip, ha⟩) hgone
    rw [he]
    refine unheard_append (h d hold hst') fun x hx => ?_
    exact ((hxs x hx).unheard hi hold hst') x List.mem_cons_self

section Runs

variable {st : Settings} {m₀ n : Daemon.Machine} {hist : List (Entry Daemon.Machine Daemon.Input)}

/-- An invariant of all acts holds of the machine. -/
theorem machine_always {P : World → Prop} (hs : Daemon.Start m₀) (h₀ : P m₀.world)
    (hstep : ∀ {w a w'}, Acts.Inv w → P w → Step st.env w a w' → P w') (hr : Run (Daemon.Step st) m₀ hist n) :
    P n.world := by
  obtain ⟨-, acts, hacts⟩ := Daemon.machine_run hs hr
  have hboth : Inv n.world ∧ P n.world :=
    Run.always (I := fun w => Acts.Inv w ∧ P w) ⟨inv_start hs, h₀⟩
      (fun hI hst => ⟨hI.1.step hst, hstep hI.1 hI.2 hst⟩) hacts
  exact hboth.2

theorem not_live (hs : Daemon.Start m₀) (c : ConnId) : c ∉ m₀.world.net.live := by
  rw [hs.net.live]
  exact Finset.notMem_empty c

/-- **What is said reaches logged-in connections only.** Whatever bytes were received, the chat events that were sent to a
connection that is not logged in are whispers and information. -/
theorem unheard_before_login (hs : Daemon.Start m₀) (hr : Run (Daemon.Step st) m₀ hist n) (hc : c ∈ n.world.net.live)
    (hst : (n.world.client c).stage ≠ .bnetLoggedIn) :
    ((n.world.sent c).filterMap event).map Prod.fst ⊆ [MessageType.whisper.code, MessageType.info.code] := by
  have hush : Hushed n.world :=
    machine_always hs (fun d hd => absurd hd (not_live hs d)) (fun hi h hstep => h.step hi hstep) hr
  intro id hid
  obtain ⟨ev, hev, rfl⟩ := List.mem_map.mp hid
  obtain ⟨x, hx, he⟩ := List.mem_filterMap.mp hev
  rcases hush c hc hst x hx ev he with h | h <;> simp [h]

/-- The second connection, while `bob` is in the tavern. -/
theorem unheard_before_login_tavern : ∃ n : Daemon.Machine, 0 ∈ n.world.lobby.connset 0 ∧ 1 ∈ n.world.net.live ∧
    ((n.world.sent 1).filterMap event).map Prod.fst ⊆ [MessageType.whisper.code, MessageType.info.code] := by
  obtain ⟨hist, n, hr, hin, -, hlive, hstage⟩ := Daemon.run_tavern
  exact ⟨n, hin, hlive, unheard_before_login Daemon.start_hall hr hlive (by rw [hstage]; decide)⟩

end Runs

/-! ### The last whisper -/

/-- The name a whisper shows. -/
def whisperName (x : Wire) : Option Text :=
  match event x with
  | some (id, name) => if id = MessageType.whisper.code then some name else none
  | none => none

/-- The name in the last whisper, empty if there was none. -/
def lastName (xs : List Wire) : Text := (xs.filterMap whisperName).getLast?.getD []

theorem whisperName_none {x : Wire} (h : NoWhisper x) : whisperName x = none := by
  unfold whisperName
  rcases he : event x with _ | ⟨id, name⟩
  · rfl
  · dsimp only
    rw [if_neg]
    rintro rfl
    exact h name he

theorem whisperName_some {x : Wire} {name : Text} (h : event x = some (MessageType.whisper.code, name)) :
    whisperName x = some name := by
  rw [whisperName, h]
  exact if_pos rfl

theorem lastName_append_quiet {xs ys : List Wire} (hy : ∀ y ∈ ys, NoWhisper y) : lastName (xs ++ ys) = lastName xs := by
  have hnil : ys.filterMap whisperName = [] :=
    List.filterMap_eq_nil_iff.mpr fun y hmem => whisperName_none (hy y hmem)
  rw [lastName, List.filterMap_append, hnil, List.append_nil, lastName]

theorem lastName_append_whisper (xs : List Wire) {x : Wire} {name : Text}
    (h : event x = some (MessageType.whisper.code, name)) : lastName (xs ++ [x]) = name := by
  have hone : [x].filterMap whisperName = [name] := by simp [whisperName_some h]
  rw [lastName, List.filterMap_append, hone]
  simp

/-- The name kept for `/r` is the one the client was shown last. -/
def Remembers (w : World) : Prop := ∀ c ∈ w.net.live, (w.persona c).lastWhisper = lastName (w.sent c)

theorem Remembers.quiet (h : Remembers w) (hd : d ∈ w.net.live) {xs : List Wire}
    (hp : (w'.persona d).lastWhisper = (w.persona d).lastWhisper) (he : w'.sent d = w.sent d ++ xs)
    (hxs : ∀ x ∈ xs, NoWhisper x) : (w'.persona d).lastWhisper = lastName (w'.sent d) := by
  rw [hp, he, lastName_append_quiet hxs]
  exact h d hd

/-- Nothing written. -/
theorem Remembers.same (h : Remembers w) (hd : d ∈ w.net.live)
    (hp : (w'.persona d).lastWhisper = (w.persona d).lastWhisper) (he : w'.sent d = w.sent d) :
    (w'.persona d).lastWhisper = lastName (w'.sent d) := by
  rw [hp, he]
  exact h d hd

theorem Remembers.reply (h : Remembers w) (hd : d ∈ w.net.live) {s : Server} {xs : List Wire}
    (hxs : ∀ x ∈ xs, event x = none) : ((((w.setServer s).deliver c xs).persona d).lastWhisper =
      lastName (((w.setServer s).deliver c xs).sent d)) := by
  by_cases hdc : d = c
  · subst hdc
    exact h.quiet hd rfl (Function.update_self _ _ _) fun x hx => noWhisper_of_none (hxs x hx)
  · exact h.same hd rfl (Function.update_of_ne hdc _ _)

theorem Remembers.move (h : Remembers w) (hd : d ∈ w.net.live) (l : Lobby) :
    ((w.move l).persona d).lastWhisper = lastName ((w.move l).sent d) := by
  refine h.quiet hd rfl rfl fun x hx => ?_
  obtain ⟨n, -, rfl⟩ := List.mem_map.mp hx
  exact noWhisper_render w n

theorem Remembers.step (h : Remembers w) (hs : Step env w a w') : Remembers w' := by
  intro d hd
  obtain ⟨-, hdo⟩ := hs
  cases a with
  | connect c t sp cp ip =>
    subst hdo
    by_cases hdc : d = c
    · subst hdc
      have hsent : (w.connect d t sp cp ip).sent d = [] := Function.update_self _ _ _
      have hnew : (w.connect d t sp cp ip).persona d = .new ip := Function.update_self _ _ _
      rw [hsent, hnew]
      rfl
    · have hold : d ∈ w.net.live := Finset.mem_of_mem_insert_of_ne hd hdc
      exact h.same hold (congrArg Persona.lastWhisper (Function.update_of_ne hdc _ _)) (Function.update_of_ne hdc _ _)
  | enter c s =>
    obtain ⟨xs, hxs, rfl⟩ := hdo
    exact h.reply hd hxs
  | account c call =>
    obtain ⟨s, rs, xs, -, hxs, rfl⟩ := hdo
    exact h.reply hd hxs
  | plain c =>
    have hold : d ∈ w.net.live := hdo.live ▸ hd
    obtain ⟨xs, he, hxs⟩ := hdo.sent d
    refine h.quiet hold ?_ he fun x hx => noWhisper_mute (hxs x hx).1
    by_cases hdc : d = c
    · rw [hdc]
      exact hdo.lastWhisper
    · rw [hdo.persona d hdc]
  | move m =>
    obtain ⟨-, rfl⟩ := hdo
    exact h.move hd _
  | whisper c e text =>
    obtain ⟨hec, -, -, rfl⟩ := hdo
    have hold : d ∈ w.net.live := by rwa [(whisperTo_same ..).1] at hd
    obtain ⟨xs, hxs, hsent, hpersona⟩ := whisperTo_spec w hec text
    by_cases hde : d = e
    · subst hde
      rw [hsent, hpersona, Function.update_self, Function.update_self,
        lastName_append_whisper _ (event_message w (some c) .whisper text)]
      rfl
    · have hp : ((w.whisperTo e c text true).persona d).lastWhisper = (w.persona d).lastWhisper := by
        rw [hpersona, Function.update_of_ne hde]
      by_cases hdc : d = c
      · refine h.quiet hold hp ?_ hxs
        rw [hsent, Function.update_of_ne hde, hdc, Function.update_self]
      · refine h.same hold hp ?_
        rw [hsent, Function.update_of_ne hde, Function.update_of_ne hdc]
  | friendWhisper c text =>
    obtain ⟨p, -, rfl⟩ := hdo
    have hold : d ∈ w.net.live := by rwa [(friendWhisper_same ..).1] at hd
    obtain ⟨hsent, hpersona⟩ := friendWhisper_spec w p c text false
    rw [hsent, hpersona]
    dsimp only
    split_ifs with hmem
    · rw [lastName_append_whisper _ (event_message w (some c) .whisper text)]
      rfl
    · exact h d hold
  | talk c text =>
    subst hdo
    have hold : d ∈ w.net.live := by rwa [(talk_same ..).1] at hd
    have hp : ((w.talk c text).persona d).lastWhisper = (w.persona d).lastWhisper := by rw [(talk_spec w c text).1]
    rcases (talk_spec w c text).2 d with he | ⟨-, -, he⟩
    · exact h.same hold hp he
    · refine h.quiet hold hp he fun x hx => ?_
      rw [List.mem_singleton.mp hx]
      exact noWhisper_message w (some c) (by decide) text
  | address c ip port =>
    subst hdo
    refine h.same hd ?_ rfl
    by_cases hdc : d = c
    · subst hdc
      exact (congrArg Persona.lastWhisper (Function.update_self d _ w.persona)).trans rfl
    · exact congrArg Persona.lastWhisper (Function.update_of_ne hdc _ _)
  | disconnect c =>
    subst hdo
    exact h.move (Finset.mem_of_mem_erase hd) _

section Runs

variable {st : Settings} {m₀ n : Daemon.Machine} {hist : List (Entry Daemon.Machine Daemon.Input)}

end Runs

end Blitzd.Plugins.Hearing
