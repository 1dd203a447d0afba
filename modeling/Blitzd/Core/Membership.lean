import Blitzd.Core.ChannelMembers
import Blitzd.Core.GameMembers

/-! # Who is in which channel and game

Both facts are stored twice, in the client and in the channel or game. For games the two sides agree in
every reachable state (`games_agree`): a client is in the list of its game once and in no other, every game
of the cache has a host who is in its list, and nobody is in a game and in a channel at once.

For channels a client in the set of a channel points to it, but not the other way round: `LeaveChat` and
joining a game leave the pointer as it is (`stale_after_leaveChat`). Along every run in which these are only
done by clients without a channel the two sides agree (`channels_agree`). -/

namespace Blitzd.Core.Lobby

open Blitzd.Lib Blitzd.Lib.KeyMap Blitzd.Lib.Bytes Blitzd.Utils.CString Blitzd.Cache

variable {l l' : Lobby} {c d : ConnId} {g : GameId} {ch : ChanId} {x : Option GameId}

/-! ### Steps -/

/-- The invariant of all runs. -/
structure Inv (l : Lobby) : Prop where
  channels : ChannelsOk l
  games : GamesOk none none l
  /-- Whoever is in a channel has no game. -/
  apart : ∀ {ch c}, c ∈ l.connset ch → (l.member c).game = none

theorem inv_start (h : Start l) : Inv l := by
  have hfind : ∀ k, l.findGame k = none := fun k => by rw [findGame, h.games.1]; rfl
  have hempty : ∀ {ch c}, c ∉ l.connset ch := fun {ch c} hc => by
    rw [h.connset] at hc
    exact absurd hc (Finset.notMem_empty c)
  have hdead : ∀ c, c ∉ l.live := fun c hc => by
    rw [h.live] at hc
    exact absurd hc (Finset.notMem_empty c)
  refine ⟨⟨h.sound, fun hc => absurd hc hempty⟩, ⟨?_, ?_, ?_, ?_, fun _ => h.games.2 _⟩, fun hc => absurd hc hempty⟩
  · intro g c
    rw [h.games.2, if_neg fun hc => hdead c hc.1, if_neg (by simp)]
    rfl
  · rintro g c (hc | hc)
    · exact absurd hc.1 (hdead c)
    · cases hc
  · intro k g hk
    rw [hfind] at hk
    cases hk
  · intro k g hk
    rw [hfind] at hk
    cases hk

section Steps

theorem live_leaveOwnGame (l : Lobby) (c : ConnId) : (l.leaveOwnGame c).live = l.live :=
  (sameChannels_leaveOwnGame c l).live

theorem live_leaveOwnChannel (l : Lobby) (c : ConnId) : (l.leaveOwnChannel c).live = l.live :=
  (sameGames_leaveOwnChannel c l).live

theorem brk_leaveOwnChannel (l : Lobby) (c : ConnId) :
    (l.leaveOwnChannel c).channels.heap.brk = l.channels.heap.brk := by
  unfold Lobby.leaveOwnChannel
  rcases (l.member c).channel with _ | ch <;> rfl

theorem Inv.leaveOwnGame (h : Inv l) (hc : c ∈ l.live) : Inv (l.leaveOwnGame c) := by
  have hs := sameChannels_leaveOwnGame c l
  refine ⟨h.channels.of_same hs, h.games.leaveOwnGame hc, fun {ch d} hd => ?_⟩
  rw [hs.connset] at hd
  rcases game_leaveOwnGame l c d with hn | ⟨-, hn⟩
  · exact hn
  · rw [hn, h.apart hd]

theorem Inv.leaveOwnChannel (h : Inv l) (c : ConnId) : Inv (l.leaveOwnChannel c) := by
  have hs := sameGames_leaveOwnChannel c l
  refine ⟨h.channels.leaveOwnChannel c, h.games.of_same hs, fun {ch d} hd => ?_⟩
  rw [connset_leaveOwnChannel h.channels] at hd
  rw [hs.game, h.apart (Finset.mem_of_mem_erase hd)]

/-- **`ChannelCacheItem::Join`.** -/
theorem Inv.channelJoin (h : Inv l) (hc : c ∈ l.live) (hch : ch < l.channels.heap.brk) :
    Inv (l.channelJoin ch c) := by
  have h1 := h.leaveOwnGame hc
  have h2 := h1.leaveOwnChannel c
  have hs := sameGames_leaveOwnChannel c (l.leaveOwnGame c)
  have hout : ∀ ch', c ∉ ((l.leaveOwnGame c).leaveOwnChannel c).connset ch' := fun ch' hmem => by
    rw [connset_leaveOwnChannel h1.channels] at hmem
    exact Finset.notMem_erase c _ hmem
  have hlive : c ∈ ((l.leaveOwnGame c).leaveOwnChannel c).live := by
    rw [live_leaveOwnChannel, live_leaveOwnGame]
    exact hc
  have hbrk : ch < ((l.leaveOwnGame c).leaveOwnChannel c).channels.heap.brk := by
    rw [brk_leaveOwnChannel, (sameChannels_leaveOwnGame c l).channels]
    exact hch
  have hgame : (((l.leaveOwnGame c).leaveOwnChannel c).member c).game = none := by
    rw [hs.game]
    rcases game_leaveOwnGame l c c with hn | ⟨hn, -⟩
    · exact hn
    · exact absurd rfl hn
  have he := sameGames_enter c ch ((l.leaveOwnGame c).leaveOwnChannel c)
  unfold Lobby.channelJoin
  refine ⟨h2.channels.enter hlive hbrk hout, h2.games.of_same he, fun {ch' d} hd => ?_⟩
  rw [he.game]
  rw [connset_enter] at hd
  by_cases hdc : d = c
  · rw [hdc, hgame]
  · split_ifs at hd
    · exact h2.apart (Finset.mem_of_mem_insert_of_ne hd hdc)
    · exact h2.apart hd

theorem channel_gameJoin (l : Lobby) (g : GameId) (c d : ConnId) :
    ((l.gameJoin g c).member d).channel = (l.member d).channel := by
  rw [gameJoin, (sameChannels_setGame c _ _).channel, channel_leaveOwnChannel,
    (sameChannels_leaveOwnGame c _).channel]
  rfl

/-- A client that joins a game is in no channel. -/
theorem connset_gameJoin (h : ChannelsOk l) (g : GameId) (c : ConnId) (ch : ChanId) :
    (l.gameJoin g c).connset ch = (l.connset ch).erase c := by
  have hpush := sameChannels_modifyGame g l fun x =>
    { x with host := if x.connlist = [] then some c else x.host, connlist := x.connlist ++ [c] }
  have hleave := hpush.trans (sameChannels_leaveOwnGame c (l.pushBack g c))
  rw [gameJoin, (sameChannels_setGame c _ _).connset, connset_leaveOwnChannel (h.of_same hleave), hleave.connset]

/-- **`GameCacheItem::Join`**, of a game that is there or was just made. -/
theorem inv_gameJoin (hchan : ChannelsOk l) (hgames : GamesOk none x l)
    (hapart : ∀ {ch c}, c ∈ l.connset ch → (l.member c).game = none) (hc : c ∈ l.live)
    (hfind : l.findGame (l.game g).name = some g) (hx : x = none ∨ (x = some g ∧ (l.game g).connlist = [])) :
    Inv (l.gameJoin g c) := by
  have hpush := hgames.pushBack c hfind hx
  have hleave := hpush.leaveOwnGame (c := c) hc
  have hs := sameGames_leaveOwnChannel c ((l.pushBack g c).leaveOwnGame c)
  have hnone : ((((l.pushBack g c).leaveOwnGame c).leaveOwnChannel c).member c).game = none := by
    rw [hs.game]
    rcases game_leaveOwnGame (l.pushBack g c) c c with hn | ⟨hn, -⟩
    · exact hn
    · exact absurd rfl hn
  have hlive : c ∈ (((l.pushBack g c).leaveOwnGame c).leaveOwnChannel c).live := by
    rw [live_leaveOwnChannel, live_leaveOwnGame]
    exact hc
  have hok : ChannelsOk ((l.pushBack g c).leaveOwnGame c) :=
    (hchan.of_same (sameChannels_modifyGame g l _)).of_same (sameChannels_leaveOwnGame c _)
  refine ⟨(hok.leaveOwnChannel c).of_same (sameChannels_setGame c _ _), (hleave.of_same hs).setGame hnone hlive, ?_⟩
  intro ch d hd
  rw [connset_gameJoin hchan] at hd
  obtain ⟨hdc, hd⟩ := Finset.mem_erase.mp hd
  rw [gameJoin, game_setGame_ne _ _ hdc, hs.game]
  rcases game_leaveOwnGame (l.pushBack g c) c d with hn | ⟨-, hn⟩
  · exact hn
  · rw [hn]
    exact hapart hd

theorem Inv.withChannels (h : Inv l) {cc : ChannelCache} (hg : ChannelCache.Grows l.channels cc) :
    Inv { l with channels := cc } := by
  refine ⟨h.channels.withChannels hg, h.games.of_same ⟨rfl, rfl, rfl, fun _ => rfl⟩, fun {ch c} hc => ?_⟩
  rw [connset_withChannels hg] at hc
  exact h.apart hc

theorem Inv.send (h : Inv l) (c : ConnId) (es : List Notice) : Inv (l.send c es) := by
  have hs := sameGames_send c l es
  refine ⟨⟨h.channels.sound, fun {ch d} hd => ?_⟩, h.games.of_same hs, fun {ch d} hd => ?_⟩
  · rw [channel_send]
    exact h.channels.inSet hd
  · rw [hs.game]
    exact h.apart hd

theorem Inv.joinChannel (h : Inv l) (hc : c ∈ l.live) (name : Name) (tag : UInt32) (country : Name) :
    Inv (l.joinChannel c name tag country) := by
  obtain ⟨hg, hlt⟩ := ChannelCache.ensure_grows h.channels.sound name tag country
  unfold Lobby.joinChannel
  dsimp only
  rcases hr : (l.channels.ensure name tag country).1 with _ | ch
  · exact (h.withChannels hg).send c _
  · exact (h.withChannels hg).channelJoin hc (hlt ch hr)

theorem Inv.notifyJoin (h : Inv l) (hc : c ∈ l.live) (name : Name) : Inv (l.notifyJoin c name) := by
  unfold Lobby.notifyJoin
  rcases hf : l.findGame name with _ | g
  · exact h
  · refine inv_gameJoin h.channels h.games h.apart hc ?_ (.inl rfl)
    rw [← findGame_eq l (h.games.key hf).1, hf]

theorem Inv.startAdvEx3 (h : Inv l) (hc : c ∈ l.live) (name : Name) (status : GameStatus) :
    Inv (l.startAdvEx3 c name status) := by
  unfold Lobby.startAdvEx3
  rcases hf : l.findGame name with _ | g
  · have hadd := h.games.addGame hf status
    have hnew : (l.addGame name status).game l.games.brk = .new name status := Heap.alloc_new _ _
    refine Inv.send (inv_gameJoin (h.channels.of_same (sameChannels_addGame l name status)) hadd h.apart hc ?_
      (.inr ⟨rfl, by rw [hnew]; rfl⟩)) c _
    rw [hnew]
    exact find_insert_of_eqv (keyEq.refl name) _ _
  · dsimp only
    split_ifs
    · exact h.send c _
    · refine Inv.send ⟨h.channels.of_same (sameChannels_modifyGame g l _), ?_, h.apart⟩ c _
      exact h.games.congr rfl rfl rfl (fun g' => game_modifyGame_congr l g g' (r := Game.name) fun _ => rfl)
        (fun g' => game_modifyGame_congr l g g' (r := Game.host) fun _ => rfl)
        (fun g' => game_modifyGame_congr l g g' (r := Game.connlist) fun _ => rfl) fun _ => rfl

theorem Inv.connect (h : Inv l) (hc : c ∉ l.live) : Inv (l.connect c) := by
  have hself : (l.connect c).member c = .new := Function.update_self _ _ _
  have hother : ∀ d, d ≠ c → (l.connect c).member d = l.member d := fun d hd => Function.update_of_ne hd _ _
  have hlive : ∀ {d}, d ∈ (l.connect c).live ↔ d = c ∨ d ∈ l.live := Finset.mem_insert
  have hplays : ∀ {d g}, (d ∈ (l.connect c).live ∧ ((l.connect c).member d).game = some g) ↔
      (d ∈ l.live ∧ (l.member d).game = some g) := by
    intro d g
    by_cases hd : d = c
    · subst hd
      simp [hself, Member.new, hc]
    · rw [hother d hd, hlive, or_iff_right hd]
  have hin : ∀ {ch d}, d ∈ l.connset ch → d ≠ c := fun hd he => hc (he ▸ (h.channels.inSet hd).1)
  refine ⟨⟨h.channels.sound, fun {ch d} hd => ?_⟩, ⟨?_, ?_, fun hk => h.games.key hk,
    fun hk hx => h.games.hosted hk hx, fun hg => h.games.fresh hg⟩, fun {ch d} hd => ?_⟩
  · rw [hother d (hin hd), hlive]
    exact ⟨.inr (h.channels.inSet hd).1, (h.channels.inSet hd).2⟩
  · intro g d
    have hcount := h.games.count g d
    simp only [hplays]
    exact hcount
  · rintro g d (hd | hd)
    · exact h.games.owned (.inl (hplays.mp hd))
    · cases hd
  · rw [hother d (hin hd)]
    exact h.apart hd

theorem Inv.disconnect (h : Inv l) (hc : c ∈ l.live) : Inv (l.disconnect c) := by
  have h1 := h.leaveOwnGame hc
  have h2 := h1.leaveOwnChannel c
  have hs := sameGames_leaveOwnChannel c (l.leaveOwnGame c)
  have hnone : (((l.leaveOwnGame c).leaveOwnChannel c).member c).game = none := by
    rw [hs.game]
    rcases game_leaveOwnGame l c c with hn | ⟨hn, -⟩
    · exact hn
    · exact absurd rfl hn
  unfold Lobby.disconnect
  dsimp only
  generalize hl : (l.leaveOwnGame c).leaveOwnChannel c = l2 at h2 hnone
  have hplays : ∀ {d g}, (d ∈ l2.live.erase c ∧ (l2.member d).game = some g) ↔
      (d ∈ l2.live ∧ (l2.member d).game = some g) := by
    intro d g
    by_cases hd : d = c
    · subst hd
      simp [hnone]
    · rw [Finset.mem_erase, and_iff_right hd]
  have hout : ∀ {ch d}, d ∈ l2.connset ch → d ≠ c := by
    intro ch d hd
    rw [← hl, connset_leaveOwnChannel h1.channels] at hd
    exact Finset.ne_of_mem_erase hd
  refine ⟨⟨h2.channels.sound, fun {ch d} hd => ?_⟩, ⟨?_, ?_, fun hk => h2.games.key hk,
    fun hk hx => h2.games.hosted hk hx, fun hg => h2.games.fresh hg⟩, fun hd => h2.apart hd⟩
  · exact ⟨Finset.mem_erase.mpr ⟨hout hd, (h2.channels.inSet hd).1⟩, (h2.channels.inSet hd).2⟩
  · intro g d
    have hcount := h2.games.count g d
    simp only [hplays]
    exact hcount
  · rintro g d (hd | hd)
    · exact h2.games.owned (.inl (hplays.mp hd))
    · cases hd

/-- **The step lemma.** -/
theorem Inv.step {m : Move} (h : Inv l) (hs : Step l m l') : Inv l' := by
  obtain ⟨hen, rfl⟩ := hs
  cases m with
  | connect c => exact h.connect hen
  | joinChannel c name tag country => exact h.joinChannel hen name tag country
  | leaveChat c => exact h.leaveOwnChannel c
  | notifyJoin c name => exact h.notifyJoin hen name
  | startAdvEx3 c name status => exact h.startAdvEx3 hen name status
  | leaveGame c => exact h.leaveOwnGame hen
  | disconnect c => exact h.disconnect hen

end Steps

variable {l₀ : Lobby} {hist : List (Entry Lobby Move)}

theorem inv_run (hs : Start l₀) (hr : Run Step l₀ hist l) : Inv l := Run.always (inv_start hs) Inv.step hr

/-- **Games and their clients agree** in every reachable state: who is in a list and how often, the hosts, the
cache, and the channels. -/
theorem games_agree (hs : Start l₀) (hr : Run Step l₀ hist l) :
    (∀ g c, (l.game g).connlist.count c = if c ∈ l.live ∧ (l.member c).game = some g then 1 else 0) ∧
    (∀ k g, l.findGame k = some g → ∃ h ∈ (l.game g).connlist, (l.game g).host = some h) ∧
    (∀ c g, c ∈ l.live → (l.member c).game = some g → l.findGame (l.game g).name = some g) ∧
    (∀ c g ch, c ∈ (l.game g).connlist → c ∉ l.connset ch) := by
  have hinv := inv_run hs hr
  refine ⟨fun g c => ?_, fun k g hk => hinv.games.hosted hk (by simp),
    fun c g hc hg => hinv.games.owned (.inl ⟨hc, hg⟩), fun c g ch hc hch => ?_⟩
  · have hno : ¬ (none : Option (GameId × ConnId)) = some (g, c) := by simp
    have := hinv.games.count g c
    rwa [if_neg hno, Nat.add_zero] at this
  · rcases hinv.games.of_mem hc with ⟨-, hg⟩ | hp
    · rw [hinv.apart hch] at hg
      cases hg
    · cases hp

/-! ### A game of two -/

/-- No channels yet, nobody there. -/
def quiet : Lobby := ⟨∅, fun _ => .new, ⟨Heap.empty, []⟩, Heap.empty, []⟩

theorem start_quiet : Start quiet := by
  refine ⟨rfl, ⟨?_, fun _ => rfl⟩, fun _ => rfl, rfl, fun _ => rfl⟩
  intro k ch hk
  cases hk

/-- A move that can be made adds to a run. -/
theorem Run.move (hr : Run Step l₀ hist l) (m : Move) (hen : m.Enabled l) :
    Run Step l₀ (⟨l, m, m.apply l⟩ :: hist) (m.apply l) := .snoc hr ⟨hen, rfl⟩

def melee : Name := ⟨str "Melee", by decide⟩

/-- One client makes a game, another joins it, and the first joins again. -/
def twoPlayers : Lobby :=
  ((((quiet.connect 1).connect 2).startAdvEx3 1 melee default).notifyJoin 2 melee).notifyJoin 1 melee

theorem run_twoPlayers : ∃ hist, Run Step quiet hist twoPlayers := by
  have h1 := Run.move (.nil : Run Step quiet [] quiet) (.connect 1) (by simp [Move.Enabled, quiet])
  have h2 := Run.move h1 (.connect 2) (by decide)
  have h3 := Run.move h2 (.startAdvEx3 1 melee default) (by decide)
  have h4 := Run.move h3 (.notifyJoin 2 melee) (by decide)
  exact ⟨_, Run.move h4 (.notifyJoin 1 melee) (by decide)⟩

theorem twoPlayers_agree : Start quiet ∧ (∃ hist, Run Step quiet hist twoPlayers) ∧
    (twoPlayers.game 0).connlist = [2, 1] ∧
      ∃ h ∈ (twoPlayers.game 0).connlist, (twoPlayers.game 0).host = some h := by
  obtain ⟨hist, hr⟩ := run_twoPlayers
  exact ⟨start_quiet, ⟨hist, hr⟩, by decide, (games_agree start_quiet hr).2.1 melee 0 (by decide)⟩

/-! ### Channels and their clients -/

/-- `LeaveChat` does nothing, and a client that joins a game has no channel. -/
def Careful (l : Lobby) : Move → Prop
  | .leaveChat c => (l.member c).channel = none
  | .notifyJoin c name => l.findGame name = none ∨ (l.member c).channel = none
  | .startAdvEx3 c name _ => l.findGame name ≠ none ∨ (l.member c).channel = none
  | _ => True

/-- Whoever points to a channel is in it. -/
def Present (l : Lobby) : Prop := ∀ ch c, c ∈ l.live → (l.member c).channel = some ch → c ∈ l.connset ch

theorem Present.of_same (h : Present l) (hs : SameChannels l l') : Present l' := by
  intro ch c hc hch
  rw [hs.live] at hc
  rw [hs.channel] at hch
  rw [hs.connset]
  exact h ch c hc hch

theorem Present.send (h : Present l) (c : ConnId) (es : List Notice) : Present (l.send c es) := by
  intro ch d hd hch
  rw [channel_send] at hch
  exact h ch d hd hch

theorem leaveOwnChannel_eq (hc : (l.member c).channel = none) : l.leaveOwnChannel c = l := by
  rw [leaveOwnChannel, hc]

theorem Present.channelJoin (h : Present l) (hok : ChannelsOk l) (ch : ChanId) (c : ConnId) :
    Present (l.channelJoin ch c) := by
  have hs := sameChannels_leaveOwnGame c l
  intro ch' d hd hch
  rw [Lobby.channelJoin, channel_enter, channel_leaveOwnChannel, hs.channel] at hch
  rw [Lobby.channelJoin, connset_enter]
  have hlive : d ∈ l.live := by
    rw [Lobby.channelJoin, (sameGames_enter c ch _).live, live_leaveOwnChannel, hs.live] at hd
    exact hd
  by_cases hdc : d = c
  · rw [if_pos hdc] at hch
    cases hch
    rw [if_pos rfl, hdc]
    exact Finset.mem_insert_self c _
  · rw [if_neg hdc] at hch
    have hmem : d ∈ ((l.leaveOwnGame c).leaveOwnChannel c).connset ch' := by
      rw [connset_leaveOwnChannel (hok.of_same hs), hs.connset]
      exact Finset.mem_erase.mpr ⟨hdc, h _ d hlive hch⟩
    split_ifs with heq
    · exact Finset.mem_insert_of_mem (heq ▸ hmem)
    · exact hmem

theorem Present.gameJoin (h : Present l) (hok : ChannelsOk l) (hc : (l.member c).channel = none) (g : GameId) :
    Present (l.gameJoin g c) := by
  intro ch d hd hch
  rw [channel_gameJoin] at hch
  have hlive : d ∈ l.live := by
    rw [Lobby.gameJoin, (sameChannels_setGame c _ _).live, live_leaveOwnChannel, live_leaveOwnGame] at hd
    exact hd
  have hdc : d ≠ c := by
    rintro rfl
    rw [hc] at hch
    cases hch
  rw [connset_gameJoin hok]
  exact Finset.mem_erase.mpr ⟨hdc, h _ d hlive hch⟩

theorem Present.joinChannel (h : Present l) (hok : ChannelsOk l) (c : ConnId) (name : Name) (tag : UInt32)
    (country : Name) : Present (l.joinChannel c name tag country) := by
  obtain ⟨hg, -⟩ := ChannelCache.ensure_grows hok.sound name tag country
  have h1 : Present { l with channels := (l.channels.ensure name tag country).2 } := by
    intro ch d hd hch
    rw [connset_withChannels hg]
    exact h ch d hd hch
  unfold Lobby.joinChannel
  dsimp only
  rcases (l.channels.ensure name tag country).1 with _ | ch
  · exact h1.send c _
  · exact h1.channelJoin (hok.withChannels hg) ch c

theorem Present.connect (h : Present l) (c : ConnId) : Present (l.connect c) := by
  intro ch d hd hch
  have hdc : d ≠ c := by
    rintro rfl
    have hnew : ((l.connect d).member d).channel = none := by
      unfold Lobby.connect
      simp [Member.new]
    exact absurd (hnew.symm.trans hch) (by simp)
  have hmember : (l.connect c).member d = l.member d := Function.update_of_ne hdc _ _
  rw [hmember] at hch
  exact h ch d (Finset.mem_of_mem_insert_of_ne hd hdc) hch

theorem Present.disconnect (h : Present l) (hok : ChannelsOk l) (c : ConnId) : Present (l.disconnect c) := by
  have hs := sameChannels_leaveOwnGame c l
  intro ch d hd hch
  obtain ⟨hdc, hd⟩ := Finset.mem_erase.mp hd
  rw [live_leaveOwnChannel, hs.live] at hd
  have hch : (((l.leaveOwnGame c).leaveOwnChannel c).member d).channel = some ch := hch
  rw [channel_leaveOwnChannel, hs.channel] at hch
  show d ∈ ((l.leaveOwnGame c).leaveOwnChannel c).connset ch
  rw [connset_leaveOwnChannel (hok.of_same hs), hs.connset]
  exact Finset.mem_erase.mpr ⟨hdc, h ch d hd hch⟩

/-- The step lemma for careful moves. -/
theorem Present.step {m : Move} (h : Present l) (hok : ChannelsOk l) (hm : Careful l m) (hs : Step l m l') :
    Present l' := by
  obtain ⟨hen, rfl⟩ := hs
  cases m with
  | connect c => exact h.connect c
  | joinChannel c name tag country => exact h.joinChannel hok c name tag country
  | leaveChat c =>
    rw [Move.apply, leaveChat, leaveOwnChannel_eq hm]
    exact h
  | notifyJoin c name =>
    rw [Move.apply, notifyJoin]
    rcases hf : l.findGame name with _ | g
    · exact h
    · refine h.gameJoin hok ?_ g
      exact hm.resolve_left (by rw [hf]; simp)
  | startAdvEx3 c name status =>
    rw [Move.apply, startAdvEx3]
    rcases hf : l.findGame name with _ | g
    · have hc : (l.member c).channel = none := hm.resolve_left (by rw [hf]; simp)
      have hs := sameChannels_addGame l name status
      exact ((h.of_same hs).gameJoin (hok.of_same hs) hc _).send c _
    · dsimp only
      split_ifs
      · exact h.send c _
      · exact (h.of_same (sameChannels_modifyGame g l _)).send c _
  | leaveGame c => exact h.of_same (sameChannels_leaveOwnGame c l)
  | disconnect c => exact h.disconnect hok c

/-- **Channels and their clients agree** along every run of careful moves. -/
theorem channels_agree (hs : Start l₀) (hr : Run Step l₀ hist l) (hok : Allowed (fun _ => Careful) hist) :
    ∀ ch c, c ∈ l.connset ch ↔ c ∈ l.live ∧ (l.member c).channel = some ch := by
  have hinv : Inv l ∧ Present l := by
    refine Run.invariant (I := fun _ l => Inv l ∧ Present l) ⟨inv_start hs, ?_⟩ ?_ hr hok
    · intro ch c hc
      rw [hs.live] at hc
      exact absurd hc (Finset.notMem_empty c)
    · rintro _ _ _ _ ⟨hi, hp⟩ hm hstep
      exact ⟨hi.step hstep, hp.step hi.channels hm hstep⟩
  intro ch c
  exact ⟨fun hc => hinv.1.channels.inSet hc, fun hc => hinv.2 ch c hc.1 hc.2⟩

def tavern : Name := ⟨str "Tavern", by decide⟩

/-- A client joins a channel and leaves the chat. -/
def strayed : Lobby := ((quiet.connect 1).joinChannel 1 tavern 0 default).leaveChat 1

theorem stale_after_leaveChat : Start quiet ∧ (∃ hist, Run Step quiet hist strayed) ∧
    ¬ ∀ ch c, c ∈ strayed.connset ch ↔ c ∈ strayed.live ∧ (strayed.member c).channel = some ch := by
  have h1 := Run.move (.nil : Run Step quiet [] quiet) (.connect 1) (by simp [Move.Enabled, quiet])
  have h2 := Run.move h1 (.joinChannel 1 tavern 0 default) (by decide)
  have h3 := Run.move h2 (.leaveChat 1) (by decide)
  refine ⟨start_quiet, ⟨_, h3⟩, fun h => ?_⟩
  have hgone : 1 ∉ strayed.connset 0 := by decide
  exact hgone ((h 0 1).mpr (by decide))

/-- From one channel to another. -/
theorem channels_agree_moved : ∃ hist l, Start quiet ∧ Run Step quiet hist l ∧ Allowed (fun _ => Careful) hist ∧
    ∀ ch c, c ∈ l.connset ch ↔ c ∈ l.live ∧ (l.member c).channel = some ch := by
  have h1 := Run.move (.nil : Run Step quiet [] quiet) (.connect 1) (by simp [Move.Enabled, quiet])
  have h2 := Run.move h1 (.joinChannel 1 tavern 0 default) (by decide)
  have h3 := Run.move h2 (.joinChannel 1 melee 0 default) (by decide)
  refine ⟨_, _, start_quiet, h3, ?_, channels_agree start_quiet h3 ?_⟩ <;>
    exact ⟨trivial, trivial, trivial, trivial⟩

end Blitzd.Core.Lobby
