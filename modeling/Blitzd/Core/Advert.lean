import Blitzd.Core.Membership

/-! # What a game is advertised with

A game's status (flag, elapsed time, type, option, ladder, password and stat) is set by `StartAdvEx3`, and its broadcast
flag is cleared by `StopAdv`. All other moves change at most the clients and the host of games, and remove games
(`SameAdverts`).

`StopAdv` looks whether the client is the host, `StartAdvEx3` does not: it takes the status of whoever names the game, if
the flag that is stored allows a change at all, and refuses the host's as well if it does not. A `Board` keeps, beside the
lobby, the status last asked for by the one entitled to it; `own_iff` says which requests keep the games in step with
it. -/

namespace Blitzd.Core

open Blitzd.Lib Blitzd.Lib.KeyMap Blitzd.Lib.Bytes Blitzd.Utils.CString Blitzd.Cache

/-- What other clients are shown of a game. -/
def Game.advert (x : Game) : GameStatus × Bool := (x.status, x.broadcast)

namespace Lobby

variable {l l' l'' : Lobby} {c : ConnId} {g : GameId}

/-- `StopAdv`. -/
def stopAdv (l : Lobby) (c : ConnId) : Lobby :=
  match (l.member c).game with
  | some g => if (l.game g).host = some c then l.modifyGame g fun x => { x with broadcast := false } else l
  | none => l

/-! ### Moves that advertise nothing -/

/-- No game is new, and none is advertised otherwise than before. -/
structure SameAdverts (l l' : Lobby) : Prop where
  advert : ∀ g, (l'.game g).advert = (l.game g).advert
  brk : l'.games.brk = l.games.brk
  found : ∀ {k g}, l'.findGame k = some g → l.findGame k = some g

theorem SameAdverts.refl (l : Lobby) : SameAdverts l l := ⟨fun _ => rfl, rfl, id⟩

theorem SameAdverts.trans (h : SameAdverts l l') (h' : SameAdverts l' l'') : SameAdverts l l'' :=
  ⟨fun g => (h'.advert g).trans (h.advert g), h'.brk.trans h.brk, fun hk => h.found (h'.found hk)⟩

theorem SameAdverts.status (h : SameAdverts l l') (g : GameId) : (l'.game g).status = (l.game g).status :=
  congrArg Prod.fst (h.advert g)

theorem SameAdverts.broadcast (h : SameAdverts l l') (g : GameId) : (l'.game g).broadcast = (l.game g).broadcast :=
  congrArg Prod.snd (h.advert g)

theorem SameGames.adverts (h : SameGames l l') : SameAdverts l l' := by
  refine ⟨fun g => ?_, by rw [h.games], fun {k g} hk => ?_⟩
  · rw [Lobby.game, h.games, Lobby.game]
  · rw [findGame, h.gameMap] at hk
    exact hk

theorem sameAdverts_modifyGame (l : Lobby) (g : GameId) {f : Game → Game} (hf : ∀ x, (f x).advert = x.advert) :
    SameAdverts l (l.modifyGame g f) :=
  ⟨fun g' => game_modifyGame_congr l g g' (r := Game.advert) hf, rfl, id⟩

theorem sameAdverts_setGame (l : Lobby) (c : ConnId) (x : Option GameId) : SameAdverts l (l.setGame c x) :=
  ⟨fun _ => rfl, rfl, id⟩

theorem sameAdverts_removeGame (l : Lobby) (name : Name) : SameAdverts l (l.removeGame name) := by
  unfold removeGame
  rcases hname : l.findGame name with _ | g
  · exact .refl l
  · refine ⟨fun _ => rfl, rfl, fun {k g'} hk => ?_⟩
    have hk : find keyEq (erase keyEq l.gameMap name) k = some g' := hk
    rcases he : keyEq.eqv name k with _ | _
    · rw [find_erase_of_ne he] at hk
      exact hk
    · rw [find_erase_of_eqv he] at hk
      cases hk

theorem sameAdverts_gameLeave (l : Lobby) (g : GameId) (c : ConnId) : SameAdverts l (l.gameLeave g c) := by
  have hdrop : SameAdverts l ((l.setGame c none).modifyGame g fun x => { x with connlist := x.connlist.erase c }) :=
    (sameAdverts_setGame l c none).trans (sameAdverts_modifyGame _ g fun _ => rfl)
  unfold gameLeave
  dsimp only
  split_ifs
  · split
    · exact hdrop.trans (sameAdverts_removeGame _ _)
    · exact hdrop.trans (sameAdverts_modifyGame _ g fun _ => rfl)
  · exact hdrop

theorem sameAdverts_leaveOwnGame (l : Lobby) (c : ConnId) : SameAdverts l (l.leaveOwnGame c) := by
  unfold leaveOwnGame
  rcases (l.member c).game with _ | g
  · exact .refl l
  · exact sameAdverts_gameLeave l g c

theorem sameAdverts_gameJoin (l : Lobby) (g : GameId) (c : ConnId) : SameAdverts l (l.gameJoin g c) := by
  have hpush : SameAdverts l (l.pushBack g c) := sameAdverts_modifyGame l g fun _ => rfl
  exact ((hpush.trans (sameAdverts_leaveOwnGame _ c)).trans (sameGames_leaveOwnChannel c _).adverts).trans
    (sameAdverts_setGame _ c _)

theorem sameAdverts_channelJoin (l : Lobby) (ch : ChanId) (c : ConnId) : SameAdverts l (l.channelJoin ch c) :=
  ((sameAdverts_leaveOwnGame l c).trans (sameGames_leaveOwnChannel c _).adverts).trans (sameGames_enter c ch _).adverts

theorem sameAdverts_joinChannel (l : Lobby) (c : ConnId) (name : Name) (tag : UInt32) (country : Name) :
    SameAdverts l (l.joinChannel c name tag country) := by
  have hchan : SameAdverts l { l with channels := (l.channels.ensure name tag country).2 } := ⟨fun _ => rfl, rfl, id⟩
  unfold joinChannel
  dsimp only
  rcases (l.channels.ensure name tag country).1 with _ | ch
  · exact hchan.trans (sameGames_send c _ _).adverts
  · exact hchan.trans (sameAdverts_channelJoin _ ch c)

theorem sameAdverts_notifyJoin (l : Lobby) (c : ConnId) (name : Name) : SameAdverts l (l.notifyJoin c name) := by
  unfold notifyJoin
  rcases l.findGame name with _ | g
  · exact .refl l
  · exact sameAdverts_gameJoin l g c

theorem sameAdverts_disconnect (l : Lobby) (c : ConnId) : SameAdverts l (l.disconnect c) :=
  ((sameAdverts_leaveOwnGame l c).trans (sameGames_leaveOwnChannel c _).adverts).trans ⟨fun _ => rfl, rfl, id⟩

/-- Of the moves between channels and games, only `StartAdvEx3` advertises. -/
theorem sameAdverts_apply (l : Lobby) {m : Move} (hm : ∀ c name status, m ≠ .startAdvEx3 c name status) :
    SameAdverts l (m.apply l) := by
  cases m with
  | connect c => exact ⟨fun _ => rfl, rfl, id⟩
  | joinChannel c name tag country => exact sameAdverts_joinChannel l c name tag country
  | leaveChat c => exact (sameGames_leaveOwnChannel c l).adverts
  | notifyJoin c name => exact sameAdverts_notifyJoin l c name
  | startAdvEx3 c name status => exact absurd rfl (hm c name status)
  | leaveGame c => exact sameAdverts_leaveOwnGame l c
  | disconnect c => exact sameAdverts_disconnect l c

/-! ### `StartAdvEx3` and `StopAdv` -/

/-- The stored flag lets `StartAdvEx3` change the game. -/
def Open (l : Lobby) (g : GameId) : Prop := (l.game g).status.flag &&& 0x0E ≠ 0

/-- A game that is there: it stays under its names, and its status is replaced if it is open. -/
theorem startAdvEx3_found {name : Name} (status : GameStatus) (hg : l.findGame name = some g) :
    (∀ k, (l.startAdvEx3 c name status).findGame k = l.findGame k) ∧
      (l.startAdvEx3 c name status).games.brk = l.games.brk ∧
      (∀ g', ((l.startAdvEx3 c name status).game g').broadcast = (l.game g').broadcast) ∧
      (Open l g → ∀ g', ((l.startAdvEx3 c name status).game g').status =
        if g' = g then status else (l.game g').status) ∧
      (¬ Open l g → ∀ g', ((l.startAdvEx3 c name status).game g').status = (l.game g').status) := by
  unfold startAdvEx3 Open
  rw [hg]
  dsimp only
  by_cases hopen : (l.game g).status.flag &&& 0x0E = 0
  · rw [if_pos hopen]
    exact ⟨fun _ => rfl, rfl, fun _ => rfl, fun h => absurd hopen h, fun _ _ => rfl⟩
  · rw [if_neg hopen]
    refine ⟨fun _ => rfl, rfl, fun g' => ?_, fun _ g' => ?_, fun h => absurd hopen h⟩
    · show ((l.modifyGame g fun x => { x with status := status }).game g').broadcast = _
      exact game_modifyGame_congr l g g' (r := Game.broadcast) fun _ => rfl
    · show ((l.modifyGame g fun x => { x with status := status }).game g').status = _
      split_ifs with hg'
      · rw [hg', game_modifyGame_self]
      · rw [game_modifyGame_ne l _ hg']

/-- A new game, which its maker joins. -/
theorem startAdvEx3_new {name : Name} (status : GameStatus) (hnone : l.findGame name = none) :
    SameAdverts (l.addGame name status) (l.startAdvEx3 c name status) := by
  unfold startAdvEx3
  rw [hnone]
  exact (sameAdverts_gameJoin _ _ c).trans (sameGames_send c _ _).adverts

theorem game_addGame_self (l : Lobby) (name : Name) (status : GameStatus) :
    (l.addGame name status).game l.games.brk = .new name status := Heap.alloc_new _ _

theorem game_addGame_ne (l : Lobby) (name : Name) (status : GameStatus) {g : GameId} (h : g ≠ l.games.brk) :
    (l.addGame name status).game g = l.game g := Function.update_of_ne h _ _

end Lobby

/-! ### Boards -/

/-- The moves of the lobby, and `StopAdv`. -/
inductive AdMove
  | move (m : Move)
  | stopAdv (c : ConnId)

namespace AdMove

def apply : AdMove → Lobby → Lobby
  | move m, l => m.apply l
  | stopAdv c, l => l.stopAdv c

def Enabled : AdMove → Lobby → Prop
  | move m, l => m.Enabled l
  | stopAdv c, l => c ∈ l.live

end AdMove

/-- The lobby, with the status each game was last asked to have by its host or its maker. -/
structure Board where
  lobby : Lobby
  own : GameId → GameStatus

namespace Board

open Lobby

variable {b b' : Board} {l₀ : Lobby}

/-- What a move asks for, if the client that asks is the host of the game it names, or makes it. -/
def record (b : Board) : AdMove → GameId → GameStatus
  | .move (.startAdvEx3 c name status) =>
    match b.lobby.findGame name with
    | some g => if (b.lobby.game g).host = some c then Function.update b.own g status else b.own
    | none => Function.update b.own b.lobby.games.brk status
  | _ => b.own

def Step (b : Board) (m : AdMove) (b' : Board) : Prop :=
  m.Enabled b.lobby ∧ b' = ⟨m.apply b.lobby, b.record m⟩

/-- The games of the cache have the status asked for by their hosts. -/
def Owned (b : Board) : Prop := ∀ {k g}, b.lobby.findGame k = some g → (b.lobby.game g).status = b.own g

/-- A game whose broadcast flag is cleared by the step is cleared by its host. -/
def ClearedByHost (x : Entry Board AdMove) : Prop :=
  ∀ g, (x.before.lobby.game g).broadcast = true → (x.after.lobby.game g).broadcast = false →
    ∃ c, x.event = .stopAdv c ∧ (x.before.lobby.game g).host = some c

/-- A `StartAdvEx3` for a game that is there comes from its host just if the game is open to changes, or changes
nothing. -/
def HostOnly (b : Board) : AdMove → Prop
  | .move (.startAdvEx3 c name status) => ∀ g, b.lobby.findGame name = some g →
      ((b.lobby.game g).host = some c ↔ Open b.lobby g) ∨ status = (b.lobby.game g).status
  | _ => True

/-- The games of the cache are allocated. -/
def Allocated (b : Board) : Prop := ∀ {k g}, b.lobby.findGame k = some g → g < b.lobby.games.brk

theorem of_sameAdverts (ha : b.Allocated) (ho : b.Owned) (hs : SameAdverts b.lobby b'.lobby) (hown : b'.own = b.own) :
    b'.Allocated ∧ b'.Owned := by
  refine ⟨fun hk => ?_, fun {k g} hk => ?_⟩
  · rw [hs.brk]
    exact ha (hs.found hk)
  · rw [hs.status, hown]
    exact ho (hs.found hk)

/-- The status of one game, once by what the code does and once by who asked. -/
theorem status_iff {α : Type*} {opened host : Prop} [Decidable opened] [Decidable host] {old new : α} :
    (if opened then new else old) = (if host then new else old) ↔ ((host ↔ opened) ∨ new = old) := by
  by_cases ho : opened
  · by_cases hh : host
    · simp [ho, hh]
    · simp [ho, hh]
  · by_cases hh : host
    · simp [ho, hh, eq_comm]
    · simp [ho, hh]

open Classical in
/-- `StartAdvEx3` for a game that is there. -/
theorem owned_found_iff (ho : b.Owned) {c : ConnId} {name : Name} {g : GameId} (status : GameStatus)
    (hg : b.lobby.findGame name = some g) :
    Owned ⟨b.lobby.startAdvEx3 c name status, b.record (.move (.startAdvEx3 c name status))⟩ ↔
      ((b.lobby.game g).host = some c ↔ Open b.lobby g) ∨ status = (b.lobby.game g).status := by
  obtain ⟨hfind, -, -, hopen, hclosed⟩ := startAdvEx3_found (c := c) status hg
  have hrec : b.record (.move (.startAdvEx3 c name status)) =
      if (b.lobby.game g).host = some c then Function.update b.own g status else b.own := by
    simp only [record, hg]
  have hstatus : ∀ g', ((b.lobby.startAdvEx3 c name status).game g').status =
      if g' = g then (if Open b.lobby g then status else (b.lobby.game g).status)
      else (b.lobby.game g').status := by
    intro g'
    by_cases ho : Open b.lobby g
    · rw [hopen ho, if_pos ho]
    · rw [hclosed ho, if_neg ho]
      split_ifs with hg'
      · rw [hg']
      · rfl
  have hown : ∀ g', b.record (.move (.startAdvEx3 c name status)) g' =
      if g' = g then (if (b.lobby.game g).host = some c then status else b.own g) else b.own g' := by
    intro g'
    rw [hrec]
    by_cases hh : (b.lobby.game g).host = some c
    · rw [if_pos hh, if_pos hh, Function.update_apply]
    · rw [if_neg hh, if_neg hh]
      split_ifs with hg'
      · rw [hg']
      · rfl
  rw [← status_iff]
  constructor
  · intro h
    have hsame : ((b.lobby.startAdvEx3 c name status).game g).status =
        b.record (.move (.startAdvEx3 c name status)) g := h ((hfind name).trans hg)
    rw [hstatus, hown, if_pos rfl, if_pos rfl, ← ho hg] at hsame
    exact hsame
  · intro h k g' hk
    rw [hfind] at hk
    dsimp only
    rw [hstatus, hown]
    by_cases hg' : g' = g
    · rw [if_pos hg', if_pos hg', ← ho hg]
      exact h
    · rw [if_neg hg', if_neg hg']
      exact ho hk

/-- `StartAdvEx3` for a new game. -/
theorem owned_new (ha : b.Allocated) (ho : b.Owned) {c : ConnId} {name : Name} (status : GameStatus)
    (hnone : b.lobby.findGame name = none) :
    Allocated ⟨b.lobby.startAdvEx3 c name status, b.record (.move (.startAdvEx3 c name status))⟩ ∧
      Owned ⟨b.lobby.startAdvEx3 c name status, b.record (.move (.startAdvEx3 c name status))⟩ := by
  have hrec : b.record (.move (.startAdvEx3 c name status)) = Function.update b.own b.lobby.games.brk status := by
    simp only [record, hnone]
  have hfound : ∀ {k g}, (b.lobby.addGame name status).findGame k = some g →
      g = b.lobby.games.brk ∨ b.lobby.findGame k = some g := by
    intro k g hk
    have hk : find keyEq (KeyMap.insert keyEq b.lobby.gameMap name b.lobby.games.brk) k = some g := hk
    rcases he : keyEq.eqv name k with _ | _
    · rw [find_insert_of_ne he] at hk
      exact .inr hk
    · rw [find_insert_of_eqv he] at hk
      exact .inl (Option.some.inj hk).symm
  have hadd : Allocated ⟨b.lobby.addGame name status, Function.update b.own b.lobby.games.brk status⟩ ∧
      Owned ⟨b.lobby.addGame name status, Function.update b.own b.lobby.games.brk status⟩ := by
    constructor
    · intro k g hk
      rcases hfound hk with rfl | hk
      · exact Nat.lt_succ_self _
      · exact Nat.lt_succ_of_lt (ha hk)
    · intro k g hk
      dsimp only
      rcases hfound hk with rfl | hk
      · rw [game_addGame_self, Function.update_self]
        rfl
      · have hne : g ≠ b.lobby.games.brk := Nat.ne_of_lt (ha hk)
        rw [game_addGame_ne _ _ _ hne, Function.update_of_ne hne]
        exact ho hk
  exact of_sameAdverts hadd.1 hadd.2 (startAdvEx3_new status hnone) hrec

theorem stopAdv_found (l : Lobby) (c : ConnId) : (∀ k, (l.stopAdv c).findGame k = l.findGame k) ∧
    (l.stopAdv c).games.brk = l.games.brk ∧ (∀ g, ((l.stopAdv c).game g).status = (l.game g).status) ∧
    ∀ g, (l.game g).broadcast = true → ((l.stopAdv c).game g).broadcast = false → (l.game g).host = some c := by
  have hsame : ∀ g, (l.game g).broadcast = true → (l.game g).broadcast = false → (l.game g).host = some c :=
    fun g h h' => by rw [h] at h'; cases h'
  unfold stopAdv
  rcases (l.member c).game with _ | g
  · exact ⟨fun _ => rfl, rfl, fun _ => rfl, hsame⟩
  · dsimp only
    split_ifs with hhost
    · refine ⟨fun _ => rfl, rfl, fun g' => ?_, fun g' h h' => ?_⟩
      · exact game_modifyGame_congr l g g' (r := Game.status) fun _ => rfl
      · by_cases hg' : g' = g
        · rw [hg']
          exact hhost
        · rw [game_modifyGame_ne l _ hg'] at h'
          exact hsame g' h h'
    · exact ⟨fun _ => rfl, rfl, fun _ => rfl, hsame⟩

/-- **What one move does to the board.** -/
theorem Step.owned_iff {m : AdMove} (hs : Step b m b') (ha : b.Allocated) (ho : b.Owned) :
    b'.Allocated ∧ (b'.Owned ↔ b.HostOnly m) := by
  obtain ⟨-, rfl⟩ := hs
  rcases m with m | c
  · by_cases hm : ∀ c name status, m ≠ .startAdvEx3 c name status
    · have hrec : b.record (.move m) = b.own := by
        cases m with
        | startAdvEx3 c name status => exact absurd rfl (hm c name status)
        | _ => rfl
      have hok : b.HostOnly (.move m) := by
        cases m with
        | startAdvEx3 c name status => exact absurd rfl (hm c name status)
        | _ => trivial
      obtain ⟨ha', ho'⟩ : Allocated ⟨m.apply b.lobby, b.record (.move m)⟩ ∧
          Owned ⟨m.apply b.lobby, b.record (.move m)⟩ :=
        of_sameAdverts ha ho (sameAdverts_apply b.lobby hm) hrec
      exact ⟨ha', iff_of_true ho' hok⟩
    · push Not at hm
      obtain ⟨c, name, status, rfl⟩ := hm
      rcases hg : b.lobby.findGame name with _ | g
      · obtain ⟨ha', ho'⟩ := owned_new (c := c) ha ho status hg
        refine ⟨ha', iff_of_true ho' fun g hg' => ?_⟩
        rw [hg] at hg'
        cases hg'
      · obtain ⟨hfind, hbrk, -⟩ := startAdvEx3_found (c := c) status hg
        refine ⟨fun {k g'} hk => ?_, ?_⟩
        · have hk : (b.lobby.startAdvEx3 c name status).findGame k = some g' := hk
          rw [hfind] at hk
          exact (ha hk).trans_eq hbrk.symm
        · refine (owned_found_iff ho status hg).trans ⟨fun h g' hg' => ?_, fun h => h g hg⟩
          rw [hg] at hg'
          cases hg'
          exact h
  · obtain ⟨hfind, hbrk, hstatus, -⟩ := stopAdv_found b.lobby c
    refine ⟨fun {k g} hk => ?_, iff_of_true (fun {k g} hk => ?_) trivial⟩
    · exact (ha ((hfind k).symm.trans hk)).trans_eq hbrk.symm
    · exact (hstatus g).trans (ho ((hfind k).symm.trans hk))

theorem Step.clearedByHost {m : AdMove} (hs : Step b m b') : ClearedByHost ⟨b, m, b'⟩ := by
  obtain ⟨-, rfl⟩ := hs
  intro g htrue hfalse
  dsimp only at htrue hfalse ⊢
  rcases m with m | c
  · exfalso
    have hkept : ((m.apply b.lobby).game g).broadcast = true := by
      by_cases hm : ∀ c name status, m ≠ .startAdvEx3 c name status
      · rw [(sameAdverts_apply b.lobby hm).broadcast, htrue]
      · push Not at hm
        obtain ⟨c, name, status, rfl⟩ := hm
        show ((b.lobby.startAdvEx3 c name status).game g).broadcast = true
        rcases hg : b.lobby.findGame name with _ | g'
        · rw [(startAdvEx3_new status hg).broadcast]
          by_cases hnew : g = b.lobby.games.brk
          · rw [hnew, game_addGame_self]
            rfl
          · rw [game_addGame_ne _ _ _ hnew, htrue]
        · rw [(startAdvEx3_found status hg).2.2.1, htrue]
    exact absurd (hkept.symm.trans hfalse) (by decide)
  · exact ⟨c, rfl, (stopAdv_found b.lobby c).2.2.2 g htrue hfalse⟩

/-- **Which requests keep a game's status its host's**, over all runs; the broadcast flag is always the host's. -/
theorem own_iff (h₀ : l₀.Start) (own : GameId → GameStatus) {hist : List (Entry Board AdMove)}
    (hr : Run Step ⟨l₀, own⟩ hist b) :
    (∀ x ∈ hist, x.after.Owned ∧ ClearedByHost x) ↔ Allowed (fun _ => HostOnly) hist := by
  have hnone : ∀ k, l₀.findGame k = none := fun k => by rw [findGame, h₀.games.1]; rfl
  have hcleared : ∀ x ∈ hist, ClearedByHost x := by
    clear hnone
    induction hr with
    | nil => exact fun x hx => absurd hx List.not_mem_nil
    | snoc _ hs ih =>
      intro x hx
      rcases List.mem_cons.mp hx with rfl | hx
      · exact hs.clearedByHost
      · exact ih x hx
  have howned : (∀ x ∈ hist, Owned x.after) ↔ Allowed (fun _ => HostOnly) hist := Run.good_iff (I := Allocated)
    (fun {k g} hk => by rw [hnone] at hk; cases hk) (fun {k g} hk => by rw [hnone] at hk; cases hk)
    (fun ha ho hs => hs.owned_iff ha ho) hr
  rw [← howned]
  exact ⟨fun h x hx => (h x hx).1, fun h x hx => ⟨h x hx, hcleared x hx⟩⟩

/-! ### Two clients and a game -/

/-- A status that allows changes. -/
def openStatus (type : UInt32) : GameStatus := { (default : GameStatus) with flag := 2, type := type }

/-- Client `1` has made a game, client `2` is there. -/
def made : Lobby := ((quiet.connect 1).connect 2).startAdvEx3 1 melee (openStatus 0)

/-- A move that can be made adds to a run. -/
theorem run_move {b₀ : Board} {hist : List (Entry Board AdMove)} (hr : Run Step b₀ hist b) (m : AdMove)
    (hen : m.Enabled b.lobby) :
    Run Step b₀ (⟨b, m, ⟨m.apply b.lobby, b.record m⟩⟩ :: hist) ⟨m.apply b.lobby, b.record m⟩ := .snoc hr ⟨hen, rfl⟩

theorem run_made : ∃ hist, Run Step ⟨quiet, fun _ => default⟩ hist
    ⟨made, Function.update (fun _ => default) 0 (openStatus 0)⟩ ∧ Allowed (fun _ => HostOnly) hist := by
  have h1 := run_move (.nil : Run Step ⟨quiet, fun _ => default⟩ [] _) (.move (.connect 1))
    (by simp [AdMove.Enabled, Move.Enabled, quiet])
  have h2 := run_move h1 (.move (.connect 2)) (show (2 : ConnId) ∉ (quiet.connect 1).live by decide)
  have h3 := run_move h2 (.move (.startAdvEx3 1 melee (openStatus 0)))
    (show (1 : ConnId) ∈ ((quiet.connect 1).connect 2).live by decide)
  exact ⟨_, h3, (fun g hg => by cases hg), trivial, trivial, trivial⟩

/-- The host changes its game and stops advertising it. -/
theorem own_melee : quiet.Start ∧ ∃ hist b, Run Step ⟨quiet, fun _ => default⟩ hist b ∧
    (b.lobby.game 0).status.type = 9 ∧ (b.lobby.game 0).broadcast = false ∧
      ∀ x ∈ hist, x.after.Owned ∧ ClearedByHost x := by
  obtain ⟨hist, hr, hok⟩ := run_made
  have h4 := run_move hr (.move (.startAdvEx3 1 melee (openStatus 9)))
    (show (1 : ConnId) ∈ made.live by decide)
  have h5 := run_move h4 (.stopAdv 1) (show (1 : ConnId) ∈ (made.startAdvEx3 1 melee (openStatus 9)).live by decide)
  refine ⟨start_quiet, _, _, h5, by decide, by decide, (own_iff start_quiet _ h5).mpr ⟨trivial, ?_, hok⟩⟩
  intro g hg
  have hg : made.findGame melee = some g := hg
  have h0 : made.findGame melee = some 0 := by decide
  obtain rfl : (0 : GameId) = g := Option.some.inj (h0.symm.trans hg)
  refine .inl (iff_of_true ?_ ?_)
  · show (made.game 0).host = some 1
    decide
  · show (made.game 0).status.flag &&& 0x0E ≠ 0
    decide

/-- Client `2` changes the game of client `1`. -/
theorem stranger_changes_game : quiet.Start ∧ ∃ hist b, Run Step ⟨quiet, fun _ => default⟩ hist b ∧
    b.lobby.findGame melee = some 0 ∧ (b.lobby.game 0).host = some 1 ∧ (b.lobby.game 0).connlist = [1] ∧
      (b.own 0).type = 0 ∧ (b.lobby.game 0).status.type = 9 := by
  obtain ⟨hist, hr, -⟩ := run_made
  have h4 := run_move hr (.move (.startAdvEx3 2 melee (openStatus 9)))
    (show (2 : ConnId) ∈ made.live by decide)
  exact ⟨start_quiet, _, _, h4, by decide, by decide, by decide, by decide, by decide⟩

end Board

end Blitzd.Core
