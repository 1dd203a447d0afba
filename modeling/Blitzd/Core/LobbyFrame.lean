import Blitzd.Core.Advertised

/-! # What a move does to the others

A client that moves between channels and games leaves the other clients where they are: in the games and channels they
are in, with the pointers they have. All it does to them is to write to them, and then they are in a channel, and what
they get is that it joined or left (`OnlyBy`, `onlyBy_apply`). -/

namespace Blitzd.Core.Lobby

open Blitzd.Lib Blitzd.Lib.KeyMap Blitzd.Utils.CString Blitzd.Cache

/-- `l'` came from `l` by moves of `c`. -/
structure OnlyBy (c : ConnId) (l l' : Lobby) : Prop where
  channel : ∀ d ≠ c, (l'.member d).channel = (l.member d).channel
  connset : ∀ ch, ∀ d ≠ c, d ∈ l'.connset ch ↔ d ∈ l.connset ch
  game : ∀ d ≠ c, (l'.member d).game = (l.member d).game ∨ (l'.member d).game = none
  players : ∀ g, ∀ d ≠ c, (l'.game g).connlist.count d = (l.game g).connlist.count d
  inbox : ∀ d, ∃ es, (l'.member d).inbox = (l.member d).inbox ++ es ∧
    ∀ n ∈ es, d ≠ c → (n = .join c ∨ n = .leave c) ∧ ∃ ch, d ∈ l.connset ch

variable {l l' l'' : Lobby} {c d : ConnId}

namespace OnlyBy

theorem refl (c : ConnId) (l : Lobby) : OnlyBy c l l :=
  ⟨fun _ _ => rfl, fun _ _ _ => .rfl, fun _ _ => .inl rfl, fun _ _ _ => rfl,
    fun _ => ⟨[], (List.append_nil _).symm, fun n hn => by cases hn⟩⟩

theorem trans (h : OnlyBy c l l') (h' : OnlyBy c l' l'') : OnlyBy c l l'' := by
  refine ⟨fun d hd => (h'.channel d hd).trans (h.channel d hd),
    fun ch d hd => (h'.connset ch d hd).trans (h.connset ch d hd), fun d hd => ?_,
    fun g d hd => (h'.players g d hd).trans (h.players g d hd), fun d => ?_⟩
  · rcases h'.game d hd with hg | hg
    · rw [hg]
      exact h.game d hd
    · exact .inr hg
  · obtain ⟨es, he, hes⟩ := h.inbox d
    obtain ⟨es', he', hes'⟩ := h'.inbox d
    refine ⟨es ++ es', by rw [he', he, List.append_assoc], fun n hn hd => ?_⟩
    rcases List.mem_append.mp hn with hn | hn
    · exact hes n hn hd
    · obtain ⟨habout, ch, hch⟩ := hes' n hn hd
      exact ⟨habout, ch, (h.connset ch d hd).mp hch⟩

/-- A move between games. -/
theorem of_sameChannels (hs : SameChannels l l')
    (hgame : ∀ d ≠ c, (l'.member d).game = (l.member d).game ∨ (l'.member d).game = none)
    (hplayers : ∀ g, ∀ d ≠ c, (l'.game g).connlist.count d = (l.game g).connlist.count d) : OnlyBy c l l' := by
  refine ⟨fun d _ => hs.channel d, fun ch d _ => by rw [hs.connset], hgame, hplayers, fun d => ?_⟩
  exact ⟨[], by rw [hs.inbox, List.append_nil], fun n hn => by cases hn⟩

/-- A move between channels. -/
theorem of_sameGames (hs : SameGames l l') (hchannel : ∀ d ≠ c, (l'.member d).channel = (l.member d).channel)
    (hset : ∀ ch, ∀ d ≠ c, d ∈ l'.connset ch ↔ d ∈ l.connset ch)
    (hinbox : ∀ d, ∃ es, (l'.member d).inbox = (l.member d).inbox ++ es ∧
      ∀ n ∈ es, d ≠ c → (n = .join c ∨ n = .leave c) ∧ ∃ ch, d ∈ l.connset ch) : OnlyBy c l l' := by
  refine ⟨hchannel, hset, fun d _ => .inl (hs.game d), fun g d _ => ?_, hinbox⟩
  rw [Lobby.game, hs.games, Lobby.game]

end OnlyBy

/-! ### Games -/

theorem onlyBy_setGame (l : Lobby) (c : ConnId) (x : Option GameId) : OnlyBy c l (l.setGame c x) :=
  .of_sameChannels (sameChannels_setGame c l x) (fun _ hd => .inl (game_setGame_ne l x hd)) fun _ _ _ => rfl

theorem onlyBy_modifyGame (l : Lobby) (c : ConnId) (g : GameId) {f : Game → Game}
    (hf : ∀ x, ∀ d ≠ c, (f x).connlist.count d = x.connlist.count d) : OnlyBy c l (l.modifyGame g f) :=
  .of_sameChannels (sameChannels_modifyGame g l f) (fun _ _ => .inl rfl) fun g' d hd =>
    game_modifyGame_congr l g g' (r := fun x => x.connlist.count d) fun x => hf x d hd

theorem onlyBy_removeGame (l : Lobby) (c : ConnId) (name : Name) : OnlyBy c l (l.removeGame name) := by
  refine .of_sameChannels (sameChannels_removeGame l name) (fun d _ => ?_) fun g d _ => ?_
  · unfold removeGame
    rcases l.findGame name with _ | g
    · exact .inl rfl
    · dsimp only
      split_ifs
      · exact .inr rfl
      · exact .inl rfl
  · unfold removeGame
    rcases l.findGame name with _ | g' <;> rfl

theorem onlyBy_addGame (h : GamesOk none none l) (c : ConnId) (name : Name) (status : GameStatus) :
    OnlyBy c l (l.addGame name status) := by
  refine .of_sameChannels (sameChannels_addGame l name status) (fun _ _ => .inl rfl) fun g d _ => ?_
  by_cases hg : g = l.games.brk
  · have hnew : (l.addGame name status).game l.games.brk = .new name status := Heap.alloc_new _ _
    rw [hg, hnew, h.fresh le_rfl]
    rfl
  · have hold : (l.addGame name status).game g = l.game g := Function.update_of_ne hg _ _
    rw [hold]

theorem onlyBy_gameLeave (l : Lobby) (g : GameId) (c : ConnId) : OnlyBy c l (l.gameLeave g c) := by
  have hdrop : OnlyBy c l ((l.setGame c none).modifyGame g fun x => { x with connlist := x.connlist.erase c }) :=
    (onlyBy_setGame l c none).trans (onlyBy_modifyGame _ c g fun x d hd => List.count_erase_of_ne hd)
  unfold gameLeave
  dsimp only
  split_ifs
  · split
    · exact hdrop.trans (onlyBy_removeGame _ c _)
    · exact hdrop.trans (onlyBy_modifyGame _ c g fun _ _ _ => rfl)
  · exact hdrop

theorem onlyBy_leaveOwnGame (l : Lobby) (c : ConnId) : OnlyBy c l (l.leaveOwnGame c) := by
  unfold leaveOwnGame
  rcases (l.member c).game with _ | g
  · exact .refl c l
  · exact onlyBy_gameLeave l g c

theorem onlyBy_pushBack (l : Lobby) (g : GameId) (c : ConnId) : OnlyBy c l (l.pushBack g c) :=
  onlyBy_modifyGame l c g fun x d hd => by
    rw [List.count_append, List.count_singleton, if_neg (by simpa using hd.symm), Nat.add_zero]

/-! ### Channels -/

theorem onlyBy_send (l : Lobby) (c : ConnId) (es : List Notice) : OnlyBy c l (l.send c es) := by
  refine .of_sameGames (sameGames_send c l es) (fun d _ => channel_send l c d es) (fun _ _ _ => .rfl) fun d => ?_
  by_cases hd : d = c
  · subst hd
    exact ⟨es, congrArg Member.inbox (modifyMember_self d l _), fun n _ hne => absurd rfl hne⟩
  · refine ⟨[], ?_, fun n hn => by cases hn⟩
    rw [List.append_nil, Lobby.send, modifyMember_ne l _ hd]

/-- A message about `c` to the clients of a channel. -/
theorem onlyBy_sendSet (l : Lobby) (ch : ChanId) {c : ConnId} {n : Notice} (hn : n = .join c ∨ n = .leave c) :
    OnlyBy c l (l.sendSet (l.connset ch) c n) := by
  refine .of_sameGames (sameGames_sendSet c l _ n) (fun d _ => channel_sendSet l _ c d n) (fun _ _ _ => .rfl)
    fun d => ?_
  unfold sendSet
  dsimp only
  split_ifs with hd
  · refine ⟨[n], rfl, fun m hm _ => ?_⟩
    rw [List.mem_singleton.mp hm]
    exact ⟨hn, ch, hd.1⟩
  · exact ⟨[], (List.append_nil _).symm, fun m hm => by cases hm⟩

theorem onlyBy_modifyConnset (l : Lobby) (ch : ChanId) {c : ConnId} {f : Finset ConnId → Finset ConnId}
    (hf : ∀ s, ∀ d ≠ c, d ∈ f s ↔ d ∈ s) : OnlyBy c l (l.modifyConnset ch f) := by
  refine .of_sameGames (sameGames_modifyConnset ch l f) (fun _ _ => rfl) (fun ch' d hd => ?_) fun d => ?_
  · rw [connset_modifyConnset]
    split_ifs with he
    · rw [he, hf _ d hd]
    · rfl
  · exact ⟨[], (List.append_nil _).symm, fun n hn => by cases hn⟩

theorem onlyBy_leaveOwnChannel (l : Lobby) (c : ConnId) : OnlyBy c l (l.leaveOwnChannel c) := by
  unfold leaveOwnChannel
  rcases (l.member c).channel with _ | ch
  · exact .refl c l
  · have herase : OnlyBy c l (l.modifyConnset ch fun s => s.erase c) :=
      onlyBy_modifyConnset l ch fun s d hd => by rw [Finset.mem_erase, and_iff_right hd]
    exact herase.trans (onlyBy_sendSet _ ch (.inr rfl))

theorem onlyBy_setChannel (l : Lobby) (c : ConnId) (x : Option ChanId) : OnlyBy c l (l.setChannel c x) := by
  refine .of_sameGames (sameGames_setChannel c l x) (fun _ hd => channel_setChannel_ne l x hd) (fun _ _ _ => .rfl)
    fun d => ⟨[], ?_, fun n hn => by cases hn⟩
  rw [List.append_nil]
  exact modifyMember_congr c d l (r := Member.inbox) fun _ => rfl

theorem onlyBy_enter (l : Lobby) (ch : ChanId) (c : ConnId) : OnlyBy c l (l.enter ch c) := by
  have hin : ∀ l : Lobby, OnlyBy c l (l.modifyConnset ch fun s => insert c s) := fun l =>
    onlyBy_modifyConnset l ch fun s d hd => by rw [Finset.mem_insert, or_iff_right hd]
  exact ((((onlyBy_setChannel l c _).trans (hin _)).trans (onlyBy_send _ c _)).trans
    (onlyBy_sendSet _ ch (.inl rfl))).trans (onlyBy_send _ c _)

/-! ### The handlers -/

theorem onlyBy_gameJoin (l : Lobby) (g : GameId) (c : ConnId) : OnlyBy c l (l.gameJoin g c) :=
  (((onlyBy_pushBack l g c).trans (onlyBy_leaveOwnGame _ c)).trans (onlyBy_leaveOwnChannel _ c)).trans
    (onlyBy_setGame _ c _)

theorem onlyBy_joinChannel (h : Inv l) (c : ConnId) (name : Name) (tag : UInt32) (country : Name) :
    OnlyBy c l (l.joinChannel c name tag country) := by
  obtain ⟨hg, -⟩ := ChannelCache.ensure_grows h.channels.sound name tag country
  have hchan : OnlyBy c l { l with channels := (l.channels.ensure name tag country).2 } :=
    .of_sameGames ⟨rfl, rfl, rfl, fun _ => rfl⟩ (fun _ _ => rfl)
      (fun ch d _ => by rw [connset_withChannels hg]) fun d => ⟨[], (List.append_nil _).symm, fun n hn => by cases hn⟩
  unfold joinChannel
  dsimp only
  rcases (l.channels.ensure name tag country).1 with _ | ch
  · exact hchan.trans (onlyBy_send _ c _)
  · exact hchan.trans (((onlyBy_leaveOwnGame _ c).trans (onlyBy_leaveOwnChannel _ c)).trans (onlyBy_enter _ ch c))

theorem onlyBy_notifyJoin (l : Lobby) (c : ConnId) (name : Name) : OnlyBy c l (l.notifyJoin c name) := by
  unfold notifyJoin
  rcases l.findGame name with _ | g
  · exact .refl c l
  · exact onlyBy_gameJoin l g c

theorem onlyBy_startAdvEx3 (h : Inv l) (c : ConnId) (name : Name) (status : GameStatus) :
    OnlyBy c l (l.startAdvEx3 c name status) := by
  unfold startAdvEx3
  rcases l.findGame name with _ | g
  · exact ((onlyBy_addGame h.games c name status).trans (onlyBy_gameJoin _ _ c)).trans (onlyBy_send _ c _)
  · dsimp only
    split_ifs
    · exact onlyBy_send l c _
    · have hset : OnlyBy c l (l.modifyGame g fun x => { x with status := status }) :=
        onlyBy_modifyGame l c g fun _ _ _ => rfl
      exact hset.trans (onlyBy_send _ c _)

theorem onlyBy_stopAdv (l : Lobby) (c : ConnId) : OnlyBy c l (l.stopAdv c) := by
  unfold Lobby.stopAdv
  rcases (l.member c).game with _ | g
  · exact .refl c l
  · dsimp only
    split_ifs
    · exact onlyBy_modifyGame l c g fun _ _ _ => rfl
    · exact .refl c l

theorem onlyBy_disconnect (l : Lobby) (c : ConnId) : OnlyBy c l (l.disconnect c) := by
  have hlive : ∀ l : Lobby, OnlyBy c l { l with live := l.live.erase c } := fun l =>
    ⟨fun _ _ => rfl, fun _ _ _ => .rfl, fun _ _ => .inl rfl, fun _ _ _ => rfl,
      fun _ => ⟨[], (List.append_nil _).symm, fun n hn => by cases hn⟩⟩
  exact ((onlyBy_leaveOwnGame l c).trans (onlyBy_leaveOwnChannel _ c)).trans (hlive _)

end Blitzd.Core.Lobby

namespace Blitzd.Core

open Blitzd.Lib Blitzd.Cache Lobby

/-- The client that moves. -/
def AdMove.who : AdMove → ConnId
  | .move (.connect c) | .move (.joinChannel c ..) | .move (.leaveChat c) | .move (.notifyJoin c _)
  | .move (.startAdvEx3 c ..) | .move (.leaveGame c) | .move (.disconnect c) | .stopAdv c => c

/-- A move of a client that stays connected. -/
def AdMove.Stays : AdMove → Prop
  | .move (.connect _) | .move (.disconnect _) => False
  | _ => True

namespace Lobby

variable {l : Lobby} {m : AdMove} {c d : ConnId}

/-- **A move changes nothing about the others**, but for what is written to them. -/
theorem onlyBy_apply (h : Inv l) (hm : m.Stays) : OnlyBy m.who l (m.apply l) := by
  rcases m with m | c
  · cases m with
    | connect c => exact hm.elim
    | joinChannel c name tag country => exact onlyBy_joinChannel h c name tag country
    | leaveChat c => exact onlyBy_leaveOwnChannel l c
    | notifyJoin c name => exact onlyBy_notifyJoin l c name
    | startAdvEx3 c name status => exact onlyBy_startAdvEx3 h c name status
    | leaveGame c => exact onlyBy_leaveOwnGame l c
    | disconnect c => exact hm.elim
  · exact onlyBy_stopAdv l c

theorem live_enter (l : Lobby) (ch : ChanId) (c : ConnId) : (l.enter ch c).live = l.live := (sameGames_enter c ch l).live

theorem live_gameJoin (l : Lobby) (g : GameId) (c : ConnId) : (l.gameJoin g c).live = l.live := by
  rw [gameJoin, (sameChannels_setGame c _ _).live, live_leaveOwnChannel, live_leaveOwnGame]
  rfl

theorem live_apply (l : Lobby) (hm : m.Stays) : (m.apply l).live = l.live := by
  rcases m with m | c
  · cases m with
    | connect c => exact hm.elim
    | joinChannel c name tag country =>
      show (l.joinChannel c name tag country).live = l.live
      unfold joinChannel
      dsimp only
      rcases (l.channels.ensure name tag country).1 with _ | ch
      · rfl
      · dsimp only
        rw [channelJoin, live_enter, live_leaveOwnChannel, live_leaveOwnGame]
    | leaveChat c => exact live_leaveOwnChannel l c
    | notifyJoin c name =>
      show (l.notifyJoin c name).live = l.live
      unfold notifyJoin
      rcases l.findGame name with _ | g
      · rfl
      · exact live_gameJoin l g c
    | startAdvEx3 c name status =>
      show (l.startAdvEx3 c name status).live = l.live
      unfold startAdvEx3
      rcases l.findGame name with _ | g
      · exact live_gameJoin (l.addGame name status) _ c
      · dsimp only
        split_ifs <;> rfl
    | leaveGame c => exact live_leaveOwnGame l c
    | disconnect c => exact hm.elim
  · show (l.stopAdv c).live = l.live
    unfold Lobby.stopAdv
    rcases (l.member c).game with _ | g
    · rfl
    · dsimp only
      split_ifs <;> rfl

/-- In a game, or in the set of a channel. -/
def Inside (l : Lobby) (c : ConnId) : Prop := (l.member c).game ≠ none ∨ ∃ ch, c ∈ l.connset ch

theorem OnlyBy.inside {l' : Lobby} (h : OnlyBy c l l') (hd : d ≠ c) (hin : Inside l' d) : Inside l d := by
  rcases hin with hg | ⟨ch, hch⟩
  · rcases h.game d hd with he | he
    · exact .inl (he ▸ hg)
    · exact absurd he hg
  · exact .inr ⟨ch, (h.connset ch d hd).mp hch⟩

/-- Nobody else is put out of a game. -/
theorem OnlyBy.game_eq {l' : Lobby} (h : OnlyBy c l l') (hi : Inv l) (hi' : Inv l') (hd : d ≠ c) (hl : d ∈ l.live) :
    (l'.member d).game = (l.member d).game := by
  rcases h.game d hd with he | he
  · exact he
  · rcases hg : (l.member d).game with _ | g
    · exact he
    · have hmem : d ∈ (l'.game g).connlist := by
        rw [← List.count_pos_iff, h.players g d hd, List.count_pos_iff]
        exact hi.games.mem hl hg
      rcases hi'.games.of_mem hmem with ⟨-, hg'⟩ | hp
      · rw [he] at hg'
        cases hg'
      · cases hp

theorem inside_stopAdv (h : Inside (l.stopAdv c) d) : Inside l d := by
  unfold Lobby.stopAdv at h
  split at h
  · split_ifs at h <;> exact h
  · exact h

end Lobby

end Blitzd.Core
