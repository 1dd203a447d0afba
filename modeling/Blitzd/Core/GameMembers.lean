import Blitzd.Core.Lobby

/-! # Clients in games

A client is in the list of its game once and in no other list, every game that has clients is in the cache
under its name, and its host is in its list. On the way a client that joins is in a list once too often, and a
game that is made or left may have no host yet: `GamesOk p x` allows for the pending entry `p` and the game
`x`. Each step of `GameCacheItem::Join` and `Leave` moves between these (`drop`, `settle`, `removeGame`,
`addGame`, `pushBack`, `setGame`). -/

namespace Blitzd.Core.Lobby

open Blitzd.Lib Blitzd.Lib.KeyMap Blitzd.Lib.Bytes Blitzd.Utils.CString Blitzd.Cache

variable {l l' : Lobby} {c d : ConnId} {g : GameId} {p : Option (GameId × ConnId)} {x : Option GameId}

/-- The two sides of who is in a game agree, but for an entry `p` that is there before the client points to
the game, and every game of the cache but `x` has a host in its list. -/
structure GamesOk (p : Option (GameId × ConnId)) (x : Option GameId) (l : Lobby) : Prop where
  count : ∀ g c, (l.game g).connlist.count c =
    (if c ∈ l.live ∧ (l.member c).game = some g then 1 else 0) + if p = some (g, c) then 1 else 0
  owned : ∀ {g c}, (c ∈ l.live ∧ (l.member c).game = some g) ∨ p = some (g, c) →
    l.findGame (l.game g).name = some g
  key : ∀ {k g}, l.findGame k = some g → keyEq.eqv k (l.game g).name = true ∧ g < l.games.brk
  hosted : ∀ {k g}, l.findGame k = some g → x ≠ some g →
    ∃ h ∈ (l.game g).connlist, (l.game g).host = some h
  fresh : ∀ {g}, l.games.brk ≤ g → (l.game g).connlist = []

namespace GamesOk

/-- What the invariant reads. -/
theorem congr (h : GamesOk p x l) (hlive : l'.live = l.live) (hmap : l'.gameMap = l.gameMap)
    (hbrk : l'.games.brk = l.games.brk) (hname : ∀ g, (l'.game g).name = (l.game g).name)
    (hhost : ∀ g, (l'.game g).host = (l.game g).host)
    (hlist : ∀ g, (l'.game g).connlist = (l.game g).connlist)
    (hgame : ∀ c, (l'.member c).game = (l.member c).game) : GamesOk p x l' := by
  have hfind : ∀ k, l'.findGame k = l.findGame k := fun k => by rw [findGame, hmap, findGame]
  constructor
  · intro g c
    rw [hlist, hlive, hgame]
    exact h.count g c
  · intro g c hc
    rw [hlive, hgame] at hc
    rw [hname, hfind]
    exact h.owned hc
  · intro k g hk
    rw [hfind] at hk
    rw [hname, hbrk]
    exact h.key hk
  · intro k g hk hx
    rw [hfind] at hk
    rw [hlist, hhost]
    exact h.hosted hk hx
  · intro g hg
    rw [hlist]
    exact h.fresh (hbrk ▸ hg)

theorem of_same (h : GamesOk p x l) (hs : SameGames l l') : GamesOk p x l' := by
  have hgame : ∀ g, l'.game g = l.game g := fun g => by rw [Lobby.game, hs.games, Lobby.game]
  exact h.congr hs.live hs.gameMap (by rw [hs.games]) (fun g => by rw [hgame]) (fun g => by rw [hgame])
    (fun g => by rw [hgame]) hs.game

/-- Whoever is in a list has the game, or is about to. -/
theorem of_mem (h : GamesOk p x l) (hc : c ∈ (l.game g).connlist) :
    (c ∈ l.live ∧ (l.member c).game = some g) ∨ p = some (g, c) := by
  by_contra hno
  rw [not_or] at hno
  have := h.count g c
  rw [if_neg hno.1, if_neg hno.2] at this
  exact List.count_eq_zero.mp this hc

theorem mem (h : GamesOk p x l) (hc : c ∈ l.live) (hg : (l.member c).game = some g) :
    c ∈ (l.game g).connlist := by
  have := h.count g c
  rw [if_pos ⟨hc, hg⟩] at this
  exact List.count_pos_iff.mp (by omega)

end GamesOk

@[simp] theorem game_modifyGame_self (l : Lobby) (g : GameId) (f : Game → Game) :
    (l.modifyGame g f).game g = f (l.game g) := Heap.modify_self _ _ _

theorem game_modifyGame_ne (l : Lobby) (f : Game → Game) {g g' : GameId} (h : g' ≠ g) :
    (l.modifyGame g f).game g' = l.game g' := Heap.modify_ne _ f h

/-- A change of a game that keeps what `r` reads. -/
theorem game_modifyGame_congr {α : Type*} (l : Lobby) (g g' : GameId) {f : Game → Game} {r : Game → α}
    (h : ∀ x, r (f x) = r x) : r ((l.modifyGame g f).game g') = r (l.game g') := l.games.modify_keeps r (h _) g'

/-- A client stops pointing to its game and its first entry goes; the game may have lost its host. -/
theorem GamesOk.drop (h : GamesOk p none l) (hc : c ∈ l.live) (hg : (l.member c).game = some g) :
    GamesOk p (some g) ((l.setGame c none).modifyGame g fun x => { x with connlist := x.connlist.erase c }) := by
  set l1 := (l.setGame c none).modifyGame g fun x => { x with connlist := x.connlist.erase c } with hl1
  have hname : ∀ g', (l1.game g').name = (l.game g').name := fun g' =>
    game_modifyGame_congr (l.setGame c none) g g' (r := Game.name) fun _ => rfl
  have hhost : ∀ g', (l1.game g').host = (l.game g').host := fun g' =>
    game_modifyGame_congr (l.setGame c none) g g' (r := Game.host) fun _ => rfl
  have hlist : (l1.game g).connlist = (l.game g).connlist.erase c :=
    congrArg Game.connlist (game_modifyGame_self (l.setGame c none) g _)
  have hlist' : ∀ g', g' ≠ g → (l1.game g').connlist = (l.game g').connlist := fun g' hne =>
    congrArg Game.connlist (game_modifyGame_ne (l.setGame c none) _ hne)
  have hself : (l1.member c).game = none := game_setGame_self c l none
  have hother : ∀ d, d ≠ c → (l1.member d).game = (l.member d).game := fun d hd => game_setGame_ne l none hd
  have hlive : l1.live = l.live := rfl
  have hfind : ∀ k, l1.findGame k = l.findGame k := fun _ => rfl
  have hmem := h.mem hc hg
  constructor
  · intro g' d
    have hold := h.count g' d
    rw [hlive]
    by_cases hd : d = c
    · subst hd
      have hno : ¬ (d ∈ l.live ∧ (l1.member d).game = some g') := by
        rw [hself]
        simp
      rw [if_neg hno]
      by_cases hg' : g' = g
      · subst hg'
        rw [if_pos ⟨hc, hg⟩] at hold
        rw [hlist, List.count_erase_self, hold]
        omega
      · rw [if_neg fun hx => hg' (Option.some.inj (hx.2.symm.trans hg))] at hold
        rw [hlist' g' hg', hold]
    · rw [hother d hd, ← hold]
      by_cases hg' : g' = g
      · rw [hg', hlist, List.count_erase_of_ne hd]
      · rw [hlist' g' hg']
  · intro g' d hd
    rw [hname, hfind]
    refine h.owned (hd.imp_left ?_)
    rintro ⟨hlive, hgame⟩
    have hdc : d ≠ c := fun he => by
      rw [he, hself] at hgame
      cases hgame
    exact ⟨hlive, (hother d hdc).symm.trans hgame⟩
  · intro k g' hk
    rw [hname]
    exact h.key hk
  · intro k g' hk hne
    have hg' : g' ≠ g := fun he => hne (by rw [he])
    rw [hlist' g' hg', hhost]
    exact h.hosted hk (by simp)
  · intro g' hg'
    by_cases he : g' = g
    · rw [he, hlist, h.fresh (he ▸ hg')]
      rfl
    · rw [hlist' g' he]
      exact h.fresh hg'

/-- A host from the list settles the game. -/
theorem GamesOk.settle (h : GamesOk p (some g) l) {d : ConnId} (hd : d ∈ (l.game g).connlist) :
    GamesOk p none (l.modifyGame g fun x => { x with host := some d }) := by
  have hname : ∀ g', ((l.modifyGame g fun x => { x with host := some d }).game g').name = (l.game g').name :=
    fun g' => game_modifyGame_congr l g g' (r := Game.name) fun _ => rfl
  have hlist : ∀ g', ((l.modifyGame g fun x => { x with host := some d }).game g').connlist =
      (l.game g').connlist := fun g' => game_modifyGame_congr l g g' (r := Game.connlist) fun _ => rfl
  constructor
  · intro g' c
    rw [hlist]
    exact h.count g' c
  · intro g' c hc
    rw [hname]
    exact h.owned hc
  · intro k g' hk
    rw [hname]
    exact h.key hk
  · intro k g' hk _
    rw [hlist]
    by_cases hg' : g' = g
    · exact ⟨d, hg' ▸ hd, by rw [hg', game_modifyGame_self]⟩
    · rw [game_modifyGame_ne l _ hg']
      exact h.hosted hk (by simpa using Ne.symm hg')
  · intro g' hg'
    rw [hlist]
    exact h.fresh hg'

/-- The host is there still. -/
theorem GamesOk.settled (h : GamesOk p (some g) l) {d : ConnId} (hd : d ∈ (l.game g).connlist)
    (hhost : (l.game g).host = some d) : GamesOk p none l := by
  refine ⟨h.count, h.owned, h.key, ?_, h.fresh⟩
  intro k g' hk _
  by_cases hg' : g' = g
  · exact ⟨d, hg' ▸ hd, by rw [hg', hhost]⟩
  · exact h.hosted hk (by simpa using Ne.symm hg')

theorem findGame_eq (l : Lobby) {k k' : Name} (h : keyEq.eqv k k' = true) : l.findGame k = l.findGame k' :=
  find_congr h l.gameMap

/-- One game less in the cache. -/
theorem GamesOk.find_erase_name (h : GamesOk p x l) (hfind : l.findGame (l.game g).name = some g) {k : Name}
    {g' : GameId} : find keyEq (erase keyEq l.gameMap (l.game g).name) k = some g' ↔
      l.findGame k = some g' ∧ g' ≠ g := by
  rcases hk : keyEq.eqv (l.game g).name k with _ | _
  · rw [find_erase_of_ne hk]
    refine ⟨fun hf => ⟨hf, ?_⟩, fun hf => hf.1⟩
    rintro rfl
    have := keyEq.symm (h.key hf).1
    rw [hk] at this
    cases this
  · rw [find_erase_of_eqv hk]
    have hsame : l.findGame k = some g := by rw [← findGame_eq l hk, hfind]
    constructor
    · intro hf
      cases hf
    · rintro ⟨hf, hne⟩
      rw [hsame] at hf
      exact absurd (Option.some.inj hf).symm hne

/-- A game without clients goes. -/
theorem GamesOk.removeGame (h : GamesOk p (some g) l) (hempty : (l.game g).connlist = [])
    (hfind : l.findGame (l.game g).name = some g) : GamesOk p none (l.removeGame (l.game g).name) := by
  set l1 := l.removeGame (l.game g).name with hl1
  have heq : l1 = { l with gameMap := erase keyEq l.gameMap (l.game g).name } := by
    rw [hl1, Lobby.removeGame, hfind]
    simp only [hempty, List.not_mem_nil, if_false]
  have hgame : ∀ g', l1.game g' = l.game g' := fun g' => by rw [heq]; rfl
  have hmember : ∀ d, l1.member d = l.member d := fun d => by rw [heq]
  have hlive : l1.live = l.live := by rw [heq]
  have hbrk : l1.games.brk = l.games.brk := by rw [heq]
  have hfind' : ∀ {k g'}, l1.findGame k = some g' ↔ l.findGame k = some g' ∧ g' ≠ g := by
    intro k g'
    have hmap : l1.findGame k = find keyEq (erase keyEq l.gameMap (l.game g).name) k := by rw [heq]; rfl
    rw [hmap]
    exact h.find_erase_name hfind
  -- nobody is in the game, so nobody points to it
  have hnone : ∀ {d g'}, (d ∈ l.live ∧ (l.member d).game = some g') ∨ p = some (g', d) → g' ≠ g := by
    rintro d g' hd rfl
    have := h.count g' d
    rw [hempty, List.count_nil] at this
    rcases hd with hd | hd
    · rw [if_pos hd] at this
      omega
    · rw [if_pos hd] at this
      omega
  constructor
  · intro g' d
    rw [hgame, hlive, hmember]
    exact h.count g' d
  · intro g' d hd
    rw [hlive, hmember] at hd
    rw [hgame, hfind']
    exact ⟨h.owned hd, hnone hd⟩
  · intro k g' hk
    rw [hgame, hbrk]
    exact h.key (hfind'.mp hk).1
  · intro k g' hk _
    rw [hgame]
    obtain ⟨hf, hne⟩ := hfind'.mp hk
    exact h.hosted hf (by simpa using Ne.symm hne)
  · intro g' hg'
    rw [hgame]
    exact h.fresh (hbrk ▸ hg')

/-- **`GameCacheItem::Leave`**, by a client of the game. -/
theorem GamesOk.gameLeave (h : GamesOk p none l) (hc : c ∈ l.live) (hg : (l.member c).game = some g) :
    GamesOk p none (l.gameLeave g c) := by
  have hdrop := h.drop hc hg
  obtain ⟨h0, hmem0, hhost0⟩ := h.hosted (h.owned (.inl ⟨hc, hg⟩)) (by simp)
  unfold Lobby.gameLeave
  dsimp only
  generalize hl1 : ((l.setGame c none).modifyGame g fun x => { x with connlist := x.connlist.erase c }) = l1 at hdrop
  have hgame : l1.game g = { l.game g with connlist := (l.game g).connlist.erase c } := by
    rw [← hl1, game_modifyGame_self]
    rfl
  have hfind : l1.findGame (l1.game g).name = some g := by
    rw [hgame, ← hl1]
    exact h.owned (.inl ⟨hc, hg⟩)
  split_ifs with hhost
  · rcases hl : (l1.game g).connlist with _ | ⟨d, rest⟩
    · exact hdrop.removeGame hl hfind
    · exact hdrop.settle (by rw [hl]; exact List.mem_cons_self)
  · have hne : h0 ≠ c := by
      rintro rfl
      rw [hgame] at hhost
      exact hhost hhost0
    refine hdrop.settled (d := h0) ?_ (by rw [hgame, ← hhost0])
    rw [hgame]
    exact (List.mem_erase_of_ne hne).mpr hmem0

/-- A client that leaves a game, or whose game is destroyed, points to none. -/
theorem game_gameLeave (l : Lobby) (g : GameId) (c d : ConnId) :
    ((l.gameLeave g c).member d).game = none ∨
      (d ≠ c ∧ ((l.gameLeave g c).member d).game = (l.member d).game) := by
  have hset : ((l.setGame c none).member d).game = none ∨
      (d ≠ c ∧ ((l.setGame c none).member d).game = (l.member d).game) := by
    by_cases hd : d = c
    · rw [hd]
      exact .inl (game_setGame_self c l none)
    · exact .inr ⟨hd, game_setGame_ne l none hd⟩
  unfold gameLeave
  dsimp only
  split_ifs
  · split
    · unfold removeGame
      split
      · exact hset
      · dsimp only
        split_ifs
        · exact .inl rfl
        · exact hset
    · exact hset
  · exact hset

theorem GamesOk.leaveOwnGame (h : GamesOk p none l) (hc : c ∈ l.live) : GamesOk p none (l.leaveOwnGame c) := by
  unfold Lobby.leaveOwnGame
  rcases hg : (l.member c).game with _ | g
  · exact h
  · exact h.gameLeave hc hg

theorem game_leaveOwnGame (l : Lobby) (c d : ConnId) :
    ((l.leaveOwnGame c).member d).game = none ∨
      (d ≠ c ∧ ((l.leaveOwnGame c).member d).game = (l.member d).game) := by
  unfold leaveOwnGame
  rcases hg : (l.member c).game with _ | g
  · by_cases hd : d = c
    · rw [hd]
      exact .inl hg
    · exact .inr ⟨hd, rfl⟩
  · exact game_gameLeave l g c d

/-- A new game, without a host yet. -/
theorem GamesOk.addGame (h : GamesOk none none l) {name : Name} (hfree : l.findGame name = none)
    (status : GameStatus) : GamesOk none (some l.games.brk) (l.addGame name status) := by
  have hnew : (l.addGame name status).game l.games.brk = .new name status := Heap.alloc_new _ _
  have hold : ∀ g, g ≠ l.games.brk → (l.addGame name status).game g = l.game g := fun g hg =>
    Function.update_of_ne hg _ _
  have hfind : ∀ {k}, (l.addGame name status).findGame k =
      if keyEq.eqv name k then some l.games.brk else l.findGame k := by
    intro k
    rcases hk : keyEq.eqv name k with _ | _
    · exact find_insert_of_ne hk _ _
    · exact find_insert_of_eqv hk _ _
  have hlt : ∀ {k g}, l.findGame k = some g → g ≠ l.games.brk := fun hk => Nat.ne_of_lt (h.key hk).2
  constructor
  · intro g c
    have hcount := h.count g c
    by_cases hg : g = l.games.brk
    · subst hg
      rw [hnew]
      rw [h.fresh le_rfl] at hcount
      exact hcount
    · rw [hold g hg]
      exact hcount
  · intro g c hc
    have hf := h.owned hc
    have hne : ¬ keyEq.eqv name (l.game g).name = true := fun he => by
      rw [← findGame_eq l he, hfree] at hf
      cases hf
    rw [hold g (hlt hf), hfind, if_neg hne, hf]
  · intro k g hk
    rw [hfind] at hk
    split_ifs at hk with he
    · cases hk
      rw [hnew]
      exact ⟨keyEq.symm he, Nat.lt_succ_self _⟩
    · rw [hold g (hlt hk)]
      exact ⟨(h.key hk).1, Nat.lt_succ_of_lt (h.key hk).2⟩
  · intro k g hk hne
    rw [hfind] at hk
    split_ifs at hk with he
    · exact absurd hk hne
    · rw [hold g (hlt hk)]
      exact h.hosted hk (by simp)
  · intro g hg
    have hg' : l.games.brk + 1 ≤ g := hg
    rw [hold g (by omega)]
    exact h.fresh (by omega)

/-- The entry of a client that joins; it makes a first client the host. -/
theorem GamesOk.pushBack (h : GamesOk none x l) (c : ConnId) (hfind : l.findGame (l.game g).name = some g)
    (hx : x = none ∨ (x = some g ∧ (l.game g).connlist = [])) :
    GamesOk (some (g, c)) none (l.pushBack g c) := by
  set l1 := l.pushBack g c with hl1
  have hself : l1.game g = { l.game g with
      host := if (l.game g).connlist = [] then some c else (l.game g).host,
      connlist := (l.game g).connlist ++ [c] } := game_modifyGame_self l g _
  have hold : ∀ g', g' ≠ g → l1.game g' = l.game g' := fun g' hg' => game_modifyGame_ne l _ hg'
  have hname : ∀ g', (l1.game g').name = (l.game g').name := fun g' =>
    game_modifyGame_congr l g g' (r := Game.name) fun _ => rfl
  constructor
  · intro g' d
    have hcount : (l.game g').connlist.count d =
        if d ∈ l1.live ∧ (l1.member d).game = some g' then 1 else 0 := by
      have hno : ¬ (none : Option (GameId × ConnId)) = some (g', d) := by simp
      have := h.count g' d
      rwa [if_neg hno, Nat.add_zero] at this
    by_cases hg' : g' = g
    · subst hg'
      have hlist : (l1.game g').connlist = (l.game g').connlist ++ [c] := by rw [hself]
      rw [hlist, List.count_append, hcount, List.count_singleton]
      by_cases hd : d = c
      · simp [hd]
      · simp [Ne.symm hd]
    · have hno : ¬ some (g, c) = some (g', d) := by simp [Ne.symm hg']
      rw [hold g' hg', hcount, if_neg hno, Nat.add_zero]
  · rintro g' d (hd | hd)
    · rw [hname]
      exact h.owned (.inl hd)
    · cases hd
      rw [hname]
      exact hfind
  · intro k g' hk
    rw [hname]
    exact h.key hk
  · intro k g' hk _
    by_cases hg' : g' = g
    · subst hg'
      rw [hself]
      dsimp only
      by_cases hempty : (l.game g').connlist = []
      · exact ⟨c, by simp, by rw [if_pos hempty]⟩
      · have hne : x ≠ some g' := by
          rintro rfl
          rcases hx with hx | ⟨-, hx⟩
          · cases hx
          · exact hempty hx
        obtain ⟨d, hd, hhost⟩ := h.hosted hk hne
        exact ⟨d, List.mem_append_left _ hd, by rw [if_neg hempty, hhost]⟩
    · rw [hold g' hg']
      refine h.hosted hk ?_
      rcases hx with rfl | ⟨rfl, -⟩
      · simp
      · simpa using Ne.symm hg'
  · intro g' hg'
    have hne : g' ≠ g := Nat.ne_of_gt (lt_of_lt_of_le (h.key hfind).2 hg')
    rw [hold g' hne]
    exact h.fresh hg'

/-- The client points to the game its entry is in. -/
theorem GamesOk.setGame (h : GamesOk (some (g, c)) none l) (hnone : (l.member c).game = none) (hc : c ∈ l.live) :
    GamesOk none none (l.setGame c (some g)) := by
  have hself : ((l.setGame c (some g)).member c).game = some g := game_setGame_self c l (some g)
  have hother : ∀ d, d ≠ c → ((l.setGame c (some g)).member d).game = (l.member d).game := fun d hd =>
    game_setGame_ne l (some g) hd
  constructor
  · intro g' d
    have hcount := h.count g' d
    have hlive : (l.setGame c (some g)).live = l.live := rfl
    have hgame : (l.setGame c (some g)).game g' = l.game g' := rfl
    rw [hlive, hgame, hcount]
    by_cases hd : d = c
    · subst hd
      rw [hself, hnone]
      by_cases hg' : g = g'
      · simp [hg', hc]
      · simp [hg']
    · rw [hother d hd]
      simp [Ne.symm hd]
  · rintro g' d (⟨hd, hg'⟩ | hd)
    · by_cases hdc : d = c
      · subst hdc
        rw [hself] at hg'
        cases hg'
        exact h.owned (.inr rfl)
      · rw [hother d hdc] at hg'
        exact h.owned (.inl ⟨hd, hg'⟩)
    · cases hd
  · exact fun hk => h.key hk
  · exact fun hk hx => h.hosted hk hx
  · exact fun hg' => h.fresh hg'

end Blitzd.Core.Lobby
