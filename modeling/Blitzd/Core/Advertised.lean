import Blitzd.Core.Advert

/-! # What the games of the cache were last advertised with

Over all runs, with `StopAdv` among the moves: the game cache has one entry for each name (`unique_run`), and a game has
the status of the last `StartAdvEx3` for its name that was accepted (`status_eq_lastAdvert`). -/

namespace Blitzd.Core

open Blitzd.Lib Blitzd.Lib.KeyMap Blitzd.Utils.CString Blitzd.Cache

namespace Lobby

variable {l l' l₀ : Lobby} {c : ConnId} {g : GameId} {hist : List (Entry Lobby AdMove)}

def AdStep (l : Lobby) (m : AdMove) (l' : Lobby) : Prop := m.Enabled l ∧ l' = m.apply l

/-! ### The entries of the game cache -/

theorem gameMap_gameLeave (l : Lobby) (g : GameId) (c : ConnId) : (l.gameLeave g c).gameMap.Sublist l.gameMap := by
  have hremove : ∀ (l' : Lobby) (name : Name), (l'.removeGame name).gameMap.Sublist l'.gameMap := by
    intro l' name
    unfold removeGame
    rcases l'.findGame name with _ | g
    · exact .refl _
    · exact List.filter_sublist
  unfold gameLeave
  dsimp only
  split_ifs
  · split
    · exact hremove _ _
    · exact .refl _
  · exact .refl _

theorem gameMap_leaveOwnGame (l : Lobby) (c : ConnId) : (l.leaveOwnGame c).gameMap.Sublist l.gameMap := by
  unfold leaveOwnGame
  rcases (l.member c).game with _ | g
  · exact .refl _
  · exact gameMap_gameLeave l g c

theorem gameMap_leaveBoth (l : Lobby) (c : ConnId) :
    ((l.leaveOwnGame c).leaveOwnChannel c).gameMap.Sublist l.gameMap := by
  rw [(sameGames_leaveOwnChannel c _).gameMap]
  exact gameMap_leaveOwnGame l c

theorem gameMap_gameJoin (l : Lobby) (g : GameId) (c : ConnId) : (l.gameJoin g c).gameMap.Sublist l.gameMap :=
  gameMap_leaveBoth (l.pushBack g c) c

theorem gameMap_joinChannel (l : Lobby) (c : ConnId) (name : Name) (tag : UInt32) (country : Name) :
    (l.joinChannel c name tag country).gameMap.Sublist l.gameMap := by
  unfold joinChannel
  dsimp only
  rcases (l.channels.ensure name tag country).1 with _ | ch
  · exact .refl _
  · dsimp only
    rw [channelJoin, (sameGames_enter c ch _).gameMap]
    exact gameMap_leaveBoth { l with channels := (l.channels.ensure name tag country).2 } c

/-- A move removes entries, or assigns to one name. -/
theorem gameMap_apply (l : Lobby) (m : AdMove) : (m.apply l).gameMap.Sublist l.gameMap ∨
    ∃ name g, (m.apply l).gameMap.Sublist (KeyMap.insert keyEq l.gameMap name g) := by
  rcases m with m | c
  · cases m with
    | connect c => exact .inl (.refl _)
    | joinChannel c name tag country => exact .inl (gameMap_joinChannel l c name tag country)
    | leaveChat c => exact .inl (by rw [AdMove.apply, Move.apply, leaveChat, (sameGames_leaveOwnChannel c l).gameMap])
    | notifyJoin c name =>
      refine .inl ?_
      rw [AdMove.apply, Move.apply, notifyJoin]
      rcases l.findGame name with _ | g
      · exact .refl _
      · exact gameMap_gameJoin l g c
    | startAdvEx3 c name status =>
      rw [AdMove.apply, Move.apply, startAdvEx3]
      rcases l.findGame name with _ | g
      · exact .inr ⟨name, l.games.brk, gameMap_gameJoin (l.addGame name status) l.games.brk c⟩
      · dsimp only
        split_ifs
        · exact .inl (.refl _)
        · exact .inl (.refl _)
    | leaveGame c => exact .inl (gameMap_leaveOwnGame l c)
    | disconnect c => exact .inl (gameMap_leaveBoth l c)
  · refine .inl ?_
    rw [AdMove.apply, stopAdv]
    rcases (l.member c).game with _ | g
    · exact .refl _
    · dsimp only
      split_ifs
      · exact .refl _
      · exact .refl _

theorem unique_run (h₀ : l₀.Start) (hr : Run AdStep l₀ hist l) : KeyUnique keyEq l.gameMap := by
  refine Run.always (I := fun l => KeyUnique keyEq l.gameMap) ?_ ?_ hr
  · rw [h₀.games.1]
    exact List.Pairwise.nil
  · rintro l m l' hu ⟨-, rfl⟩
    rcases gameMap_apply l m with hsub | ⟨name, g, hsub⟩
    · exact List.Pairwise.sublist hsub hu
    · exact List.Pairwise.sublist hsub (hu.insert name g)

/-! ### The names of games -/

theorem GamesOk.stopAdv (h : GamesOk none none l) (c : ConnId) : GamesOk none none (l.stopAdv c) := by
  unfold Lobby.stopAdv
  rcases (l.member c).game with _ | g
  · exact h
  · dsimp only
    split_ifs
    · have hkeep : ∀ {α : Type} (r : Game → α), (∀ x : Game, r { x with broadcast := false } = r x) → ∀ g',
          r ((l.modifyGame g fun x => { x with broadcast := false }).game g') = r (l.game g') :=
        fun r hr g' => game_modifyGame_congr l g g' (r := r) hr
      exact h.congr rfl rfl rfl (hkeep Game.name fun _ => rfl) (hkeep Game.host fun _ => rfl)
        (hkeep Game.connlist fun _ => rfl) fun _ => rfl
    · exact h

theorem Inv.stopAdv (h : Inv l) (c : ConnId) : Inv (l.stopAdv c) := by
  have hsame : SameChannels l (l.stopAdv c) ∧ ∀ d, ((l.stopAdv c).member d).game = (l.member d).game := by
    unfold Lobby.stopAdv
    rcases (l.member c).game with _ | g
    · exact ⟨.refl l, fun _ => rfl⟩
    · dsimp only
      split_ifs
      · exact ⟨⟨rfl, rfl, fun _ => rfl, fun _ => rfl⟩, fun _ => rfl⟩
      · exact ⟨.refl l, fun _ => rfl⟩
  refine ⟨h.channels.of_same hsame.1, h.games.stopAdv c, fun {ch d} hd => ?_⟩
  rw [hsame.1.connset] at hd
  rw [hsame.2]
  exact h.apart hd

theorem inv_adRun (h₀ : l₀.Start) (hr : Run AdStep l₀ hist l) : Inv l := by
  refine Run.always (inv_start h₀) ?_ hr
  rintro l m l' hi ⟨hen, rfl⟩
  rcases m with m | c
  · exact hi.step ⟨hen, rfl⟩
  · exact hi.stopAdv c

/-! ### The last advert -/

/-- `StartAdvEx3` answers 0: the name is new, or its game is open to changes. -/
def accepts (l : Lobby) (name : Name) : Bool :=
  match l.findGame name with
  | none => true
  | some g => (l.game g).status.flag &&& 0x0E ≠ 0

/-- What the last accepted `StartAdvEx3` for a name came with. -/
def lastAdvert (name : Name) : List (Entry Lobby AdMove) → Option GameStatus
  | [] => none
  | x :: hist =>
    match x.event with
    | .move (.startAdvEx3 _ name' status) =>
      if keyEq.eqv name' name ∧ x.before.accepts name' then some status else lastAdvert name hist
    | _ => lastAdvert name hist

theorem lastAdvert_startAdvEx3 (name name' : Name) (status : GameStatus) :
    lastAdvert name' (⟨l, .move (.startAdvEx3 c name status), l'⟩ :: hist) =
      if keyEq.eqv name name' ∧ l.accepts name then some status else lastAdvert name' hist := rfl

theorem lastAdvert_cons_of_ne {m : Move} (hm : ∀ c name status, m ≠ .startAdvEx3 c name status) (name : Name) :
    lastAdvert name (⟨l, .move m, l'⟩ :: hist) = lastAdvert name hist := by
  cases m with
  | startAdvEx3 c name status => exact absurd rfl (hm c name status)
  | _ => rfl

/-- The games of the cache have the status they were last advertised with. -/
def UpToDate (hist : List (Entry Lobby AdMove)) (l : Lobby) : Prop :=
  ∀ ⦃name g⦄, l.findGame name = some g → lastAdvert name hist = some (l.game g).status

/-- `StartAdvEx3` for a game that is there. -/
theorem UpToDate.found (h : UpToDate hist l) (hok : GamesOk none none l) {name : Name} (status : GameStatus)
    (hg : l.findGame name = some g) :
    UpToDate (⟨l, .move (.startAdvEx3 c name status), l.startAdvEx3 c name status⟩ :: hist)
      (l.startAdvEx3 c name status) := by
  intro name' g' hg'
  obtain ⟨hfind, -, -, hopen, hclosed⟩ := startAdvEx3_found (c := c) status hg
  rw [hfind] at hg'
  have haccepts : l.accepts name = true ↔ Open l g := by simp [accepts, hg, Open]
  rw [lastAdvert_startAdvEx3]
  by_cases ho : Open l g
  · rw [hopen ho]
    by_cases he : keyEq.eqv name name' = true
    · have hsame : g' = g := by
        rw [findGame, ← find_congr he] at hg'
        exact Option.some.inj (hg'.symm.trans hg)
      rw [if_pos ⟨he, haccepts.mpr ho⟩, if_pos hsame]
    · -- another name is that of another game
      have hne : g' ≠ g := fun e => by
        subst e
        exact he (keyEq.trans (hok.key hg).1 (keyEq.symm (hok.key hg').1))
      rw [if_neg fun h => he h.1, if_neg hne, h hg']
  · rw [if_neg fun h => ho (haccepts.mp h.2), hclosed ho, h hg']

/-- `StartAdvEx3` for a new game. -/
theorem UpToDate.new (h : UpToDate hist l) (hok : GamesOk none none l) {name : Name} (status : GameStatus)
    (hnone : l.findGame name = none) :
    UpToDate (⟨l, .move (.startAdvEx3 c name status), l.startAdvEx3 c name status⟩ :: hist)
      (l.startAdvEx3 c name status) := by
  intro name' g' hg'
  have hsame := startAdvEx3_new (c := c) status hnone
  have hadd : find keyEq (KeyMap.insert keyEq l.gameMap name l.games.brk) name' = some g' := hsame.found hg'
  have haccepts : l.accepts name = true := by simp [accepts, hnone]
  rw [lastAdvert_startAdvEx3, hsame.status]
  rcases he : keyEq.eqv name name' with _ | _
  · rw [find_insert_of_ne he] at hadd
    rw [if_neg fun h => absurd h.1 (by simp), game_addGame_ne _ _ _ (Nat.ne_of_lt (hok.key hadd).2), h hadd]
  · rw [find_insert_of_eqv he] at hadd
    rw [if_pos ⟨rfl, haccepts⟩, ← Option.some.inj hadd, game_addGame_self]
    rfl

theorem UpToDate.step (h : UpToDate hist l) (hok : GamesOk none none l) (m : AdMove) :
    UpToDate (⟨l, m, m.apply l⟩ :: hist) (m.apply l) := by
  rcases m with m | c
  · by_cases hm : ∀ c name status, m ≠ .startAdvEx3 c name status
    · intro name g hg
      have hsame := sameAdverts_apply l hm
      have hg : (m.apply l).findGame name = some g := hg
      rw [lastAdvert_cons_of_ne hm, h (hsame.found hg)]
      exact congrArg some (hsame.status g).symm
    · push Not at hm
      obtain ⟨c, name, status, rfl⟩ := hm
      rcases hg : l.findGame name with _ | g
      · exact h.new hok status hg
      · exact h.found hok status hg
  · intro name g hg
    obtain ⟨hfind, -, hstatus, -⟩ := Board.stopAdv_found l c
    exact (h ((hfind name).symm.trans hg)).trans (congrArg some (hstatus g).symm)

/-- **A game of the cache has the status it was last advertised with.** -/
theorem status_eq_lastAdvert (h₀ : l₀.Start) (hr : Run AdStep l₀ hist l) : UpToDate hist l := by
  induction hr with
  | nil =>
    intro name g hg
    rw [findGame, h₀.games.1] at hg
    cases hg
  | snoc hr hs ih =>
    obtain ⟨-, rfl⟩ := hs
    exact ih.step (inv_adRun h₀ hr).games _

end Lobby

end Blitzd.Core
