import Blitzd.Cache.ChannelCache
import Blitzd.Core.Client
import Blitzd.Lib.Run

/-! # Channels, games and who is in them

The part of the server in which clients move between channels and games: `ChannelCacheItem::Join` and
`Leave`, `GameCacheItem::Join` and `Leave`, the game cache, and the handlers that call them. A client
keeps a pointer to its game and one to its channel; a game lists its clients, a channel has a set of them.

Each move works on both, in the order of the source: joining a game puts the client at the end of the list
before it leaves its old game, and leaving a channel does not reset the client's pointer. What is sent to a
client (`Client::Send`) is kept in its `inbox`, oldest first.

A game without clients is removed from the cache, which destroys it; a channel stays. `SameChannels` and
`SameGames` say which half of the state a move leaves alone. -/

namespace Blitzd.Core

open Blitzd.Lib Blitzd.Lib.Bytes Blitzd.Lib.KeyMap Blitzd.Utils.CString Blitzd.Cache

abbrev GameId := ℕ

/-- What `UpdateStatus`, `SetPasswd` and `SetStat` set. -/
structure GameStatus where
  flag : UInt32
  elapsed : UInt32
  type : UInt32
  option : UInt32
  ladder : UInt32
  passwd : Text
  stat : Text

instance : Inhabited GameStatus := ⟨0, 0, 0, 0, 0, [], []⟩

structure Game where
  name : Name
  status : GameStatus
  broadcast : Bool
  host : Option ConnId
  connlist : List ConnId

/-- A new game, once its status is set. -/
def Game.new (name : Name) (status : GameStatus) : Game := ⟨name, status, true, none, []⟩

instance : Inhabited Game := ⟨.new default default⟩

/-- The packets sent to a client. The chat events are about the client they name. -/
inductive Notice
  | channel (name : Name)
  | join (about : ConnId)
  | leave (about : ConnId)
  | info (text : Text)
  | startAdvEx3 (status : UInt32)
deriving DecidableEq

/-- A client, as far as channels and games go. -/
structure Member where
  game : Option GameId
  channel : Option ChanId
  inbox : List Notice
deriving DecidableEq

def Member.new : Member := ⟨none, none, []⟩

structure Lobby where
  live : Finset ConnId
  member : ConnId → Member
  channels : ChannelCache
  games : Heap Game
  gameMap : List (Name × GameId)

namespace Lobby

def connset (l : Lobby) (ch : ChanId) : Finset ConnId := (l.channels.get ch).connset

def game (l : Lobby) (g : GameId) : Game := l.games.cell g

/-- `gameCache[name]`. -/
def findGame (l : Lobby) (name : Name) : Option GameId := find keyEq l.gameMap name

/-! ### Clients -/

def modifyMember (l : Lobby) (c : ConnId) (f : Member → Member) : Lobby :=
  { l with member := Function.update l.member c (f (l.member c)) }

def setGame (l : Lobby) (c : ConnId) (g : Option GameId) : Lobby :=
  l.modifyMember c fun m => { m with game := g }

def setChannel (l : Lobby) (c : ConnId) (ch : Option ChanId) : Lobby :=
  l.modifyMember c fun m => { m with channel := ch }

/-- `Message::Send` to one client. -/
def send (l : Lobby) (c : ConnId) (es : List Notice) : Lobby :=
  l.modifyMember c fun m => { m with inbox := m.inbox ++ es }

/-- `Message::Send` to a set: one copy for each, and none for the client it is about. -/
def sendSet (l : Lobby) (s : Finset ConnId) (c : ConnId) (e : Notice) : Lobby :=
  { l with member := fun d =>
      if d ∈ s ∧ d ≠ c then { l.member d with inbox := (l.member d).inbox ++ [e] } else l.member d }

/-! ### Games -/

def modifyGame (l : Lobby) (g : GameId) (f : Game → Game) : Lobby := { l with games := l.games.modify g f }

/-- `GameCache::Add`. -/
def addGame (l : Lobby) (name : Name) (status : GameStatus) : Lobby :=
  { l with
    games := l.games.alloc (.new name status)
    gameMap := insert keyEq l.gameMap name l.games.brk }

/-- `GameCache::Remove`, which destroys the game. -/
def removeGame (l : Lobby) (name : Name) : Lobby :=
  match l.findGame name with
  | none => l
  | some g =>
    { l with
      gameMap := erase keyEq l.gameMap name
      member := fun d => if d ∈ (l.game g).connlist then { l.member d with game := none } else l.member d }

/-- `GameCacheItem::Leave`. -/
def gameLeave (l : Lobby) (g : GameId) (c : ConnId) : Lobby :=
  let l := (l.setGame c none).modifyGame g fun x => { x with connlist := x.connlist.erase c }
  if (l.game g).host = some c then
    match (l.game g).connlist with
    | [] => l.removeGame (l.game g).name
    | h :: _ => l.modifyGame g fun x => { x with host := some h }
  else l

/-- `if(GetGame() != NULL) GetGame()->Leave(conn)`. -/
def leaveOwnGame (l : Lobby) (c : ConnId) : Lobby :=
  match (l.member c).game with
  | some g => l.gameLeave g c
  | none => l

/-! ### Channels -/

def modifyConnset (l : Lobby) (ch : ChanId) (f : Finset ConnId → Finset ConnId) : Lobby :=
  { l with channels :=
      { l.channels with heap := l.channels.heap.modify ch fun x => { x with connset := f x.connset } } }

/-- `ChannelCacheItem::Leave`. -/
def channelLeave (l : Lobby) (ch : ChanId) (c : ConnId) : Lobby :=
  let l := l.modifyConnset ch fun s => s.erase c
  l.sendSet (l.connset ch) c (.leave c)

/-- `if(GetChannel() != NULL) GetChannel()->Leave(conn)`. -/
def leaveOwnChannel (l : Lobby) (c : ConnId) : Lobby :=
  match (l.member c).channel with
  | some ch => l.channelLeave ch c
  | none => l

/-- `ChannelCacheItem::Join`, behind the leaves. -/
def enter (l : Lobby) (ch : ChanId) (c : ConnId) : Lobby :=
  let l := (l.setChannel c (some ch)).modifyConnset ch fun s => insert c s
  let l := l.send c [.channel (l.channels.get ch).name]
  let l := l.sendSet (l.connset ch) c (.join c)
  l.send c (((l.connset ch).sort (· ≤ ·)).map .join)

/-- `ChannelCacheItem::Join`. -/
def channelJoin (l : Lobby) (ch : ChanId) (c : ConnId) : Lobby := ((l.leaveOwnGame c).leaveOwnChannel c).enter ch c

/-- The first lines of `GameCacheItem::Join`: a first client is the host. -/
def pushBack (l : Lobby) (g : GameId) (c : ConnId) : Lobby :=
  l.modifyGame g fun x =>
    { x with host := if x.connlist = [] then some c else x.host, connlist := x.connlist ++ [c] }

/-- `GameCacheItem::Join`. -/
def gameJoin (l : Lobby) (g : GameId) (c : ConnId) : Lobby :=
  (((l.pushBack g c).leaveOwnGame c).leaveOwnChannel c).setGame c (some g)

/-! ### The handlers -/

/-- `JoinChannel` and `/join`, for a client of that game and country. -/
def joinChannel (l : Lobby) (c : ConnId) (name : Name) (tag : UInt32) (country : Name) : Lobby :=
  let r := l.channels.ensure name tag country
  match r.1 with
  | some ch => { l with channels := r.2 }.channelJoin ch c
  | none => { l with channels := r.2 }.send c [.info (str "The channel is full.")]

def leaveChat (l : Lobby) (c : ConnId) : Lobby := l.leaveOwnChannel c

def notifyJoin (l : Lobby) (c : ConnId) (name : Name) : Lobby :=
  match l.findGame name with
  | some g => l.gameJoin g c
  | none => l

/-- `StartAdvEx3`. The name of a game that is there changes its status, and only if one of three flags is
set. -/
def startAdvEx3 (l : Lobby) (c : ConnId) (name : Name) (status : GameStatus) : Lobby :=
  match l.findGame name with
  | some g =>
    if (l.game g).status.flag &&& 0x0E = 0 then l.send c [.startAdvEx3 1]
    else (l.modifyGame g fun x => { x with status := status }).send c [.startAdvEx3 0]
  | none => ((l.addGame name status).gameJoin l.games.brk c).send c [.startAdvEx3 0]

def leaveGame (l : Lobby) (c : ConnId) : Lobby := l.leaveOwnGame c

/-- `Client()`. -/
def connect (l : Lobby) (c : ConnId) : Lobby :=
  { l with live := insert c l.live, member := Function.update l.member c .new }

/-- `~Client()`. -/
def disconnect (l : Lobby) (c : ConnId) : Lobby :=
  let l := (l.leaveOwnGame c).leaveOwnChannel c
  { l with live := l.live.erase c }

end Lobby

/-! ### Runs -/

inductive Move
  | connect (c : ConnId)
  | joinChannel (c : ConnId) (name : Name) (tag : UInt32) (country : Name)
  | leaveChat (c : ConnId)
  | notifyJoin (c : ConnId) (name : Name)
  | startAdvEx3 (c : ConnId) (name : Name) (status : GameStatus)
  | leaveGame (c : ConnId)
  | disconnect (c : ConnId)

namespace Move

def apply : Move → Lobby → Lobby
  | connect c, l => l.connect c
  | joinChannel c name tag country, l => l.joinChannel c name tag country
  | leaveChat c, l => l.leaveChat c
  | notifyJoin c name, l => l.notifyJoin c name
  | startAdvEx3 c name status, l => l.startAdvEx3 c name status
  | leaveGame c, l => l.leaveGame c
  | disconnect c, l => l.disconnect c

/-- A new client has an address of its own; the others are there. -/
def Enabled : Move → Lobby → Prop
  | connect c, l => c ∉ l.live
  | joinChannel c .., l | leaveChat c, l | notifyJoin c _, l | startAdvEx3 c .., l | leaveGame c, l
  | disconnect c, l => c ∈ l.live

instance : ∀ (m : Move) (l : Lobby), Decidable (m.Enabled l)
  | connect c, l => inferInstanceAs (Decidable (c ∉ l.live))
  | joinChannel c .., l | leaveChat c, l | notifyJoin c _, l | startAdvEx3 c .., l | leaveGame c, l
  | disconnect c, l => inferInstanceAs (Decidable (c ∈ l.live))

end Move

namespace Lobby

def Step (l : Lobby) (m : Move) (l' : Lobby) : Prop := m.Enabled l ∧ l' = m.apply l

/-- Nobody is connected; the channels are those of the configuration. -/
structure Start (l : Lobby) : Prop where
  live : l.live = ∅
  sound : l.channels.Sound
  connset : ∀ ch, l.connset ch = ∅
  games : l.gameMap = [] ∧ ∀ g, (l.game g).connlist = []

/-! ### The half that is left alone -/

/-- Channels, and what clients know of them, are the same. -/
structure SameChannels (l l' : Lobby) : Prop where
  live : l'.live = l.live
  channels : l'.channels = l.channels
  channel : ∀ c, (l'.member c).channel = (l.member c).channel
  inbox : ∀ c, (l'.member c).inbox = (l.member c).inbox

/-- Games, and the pointers to them, are the same. -/
structure SameGames (l l' : Lobby) : Prop where
  live : l'.live = l.live
  games : l'.games = l.games
  gameMap : l'.gameMap = l.gameMap
  game : ∀ c, (l'.member c).game = (l.member c).game

section Same

variable {l l' l'' : Lobby} (c d : ConnId) (g : GameId) (ch : ChanId)

theorem SameChannels.refl (l : Lobby) : SameChannels l l := ⟨rfl, rfl, fun _ => rfl, fun _ => rfl⟩

theorem SameChannels.trans (h : SameChannels l l') (h' : SameChannels l' l'') : SameChannels l l'' :=
  ⟨h'.live.trans h.live, h'.channels.trans h.channels, fun c => (h'.channel c).trans (h.channel c),
    fun c => (h'.inbox c).trans (h.inbox c)⟩

theorem SameGames.refl (l : Lobby) : SameGames l l := ⟨rfl, rfl, rfl, fun _ => rfl⟩

theorem SameGames.trans (h : SameGames l l') (h' : SameGames l' l'') : SameGames l l'' :=
  ⟨h'.live.trans h.live, h'.games.trans h.games, h'.gameMap.trans h.gameMap,
    fun c => (h'.game c).trans (h.game c)⟩

theorem SameChannels.connset (h : SameChannels l l') : l'.connset ch = l.connset ch := by
  unfold Lobby.connset
  rw [h.channels]

@[simp] theorem modifyMember_self (l : Lobby) (f : Member → Member) :
    (l.modifyMember c f).member c = f (l.member c) := Function.update_self _ _ _

theorem modifyMember_ne (l : Lobby) (f : Member → Member) {c d : ConnId} (h : d ≠ c) :
    (l.modifyMember c f).member d = l.member d := Function.update_of_ne h _ _

/-- A change of one client that a function does not see. -/
theorem modifyMember_congr {α : Type*} (l : Lobby) {f : Member → Member} {r : Member → α}
    (h : ∀ m, r (f m) = r m) : r ((l.modifyMember c f).member d) = r (l.member d) := by
  by_cases hd : d = c
  · rw [hd, modifyMember_self, h]
  · rw [modifyMember_ne l f hd]

@[simp] theorem game_setGame_self (l : Lobby) (x : Option GameId) : ((l.setGame c x).member c).game = x :=
  congrArg Member.game (modifyMember_self c l fun m => { m with game := x })

theorem game_setGame_ne (l : Lobby) (x : Option GameId) {c d : ConnId} (h : d ≠ c) :
    ((l.setGame c x).member d).game = (l.member d).game :=
  congrArg Member.game (modifyMember_ne l (fun m => { m with game := x }) h)

@[simp] theorem channel_setChannel_self (l : Lobby) (x : Option ChanId) :
    ((l.setChannel c x).member c).channel = x :=
  congrArg Member.channel (modifyMember_self c l fun m => { m with channel := x })

theorem channel_setChannel_ne (l : Lobby) (x : Option ChanId) {c d : ConnId} (h : d ≠ c) :
    ((l.setChannel c x).member d).channel = (l.member d).channel :=
  congrArg Member.channel (modifyMember_ne l (fun m => { m with channel := x }) h)

theorem sameChannels_setGame (l : Lobby) (x : Option GameId) : SameChannels l (l.setGame c x) :=
  ⟨rfl, rfl, fun d => modifyMember_congr c d l (r := Member.channel) fun _ => rfl,
    fun d => modifyMember_congr c d l (r := Member.inbox) fun _ => rfl⟩

theorem sameChannels_modifyGame (l : Lobby) (f : Game → Game) : SameChannels l (l.modifyGame g f) :=
  ⟨rfl, rfl, fun _ => rfl, fun _ => rfl⟩

theorem sameChannels_addGame (l : Lobby) (name : Name) (status : GameStatus) :
    SameChannels l (l.addGame name status) := ⟨rfl, rfl, fun _ => rfl, fun _ => rfl⟩

theorem sameChannels_removeGame (l : Lobby) (name : Name) : SameChannels l (l.removeGame name) := by
  unfold removeGame
  rcases l.findGame name with _ | g
  · exact .refl l
  · refine ⟨rfl, rfl, fun d => ?_, fun d => ?_⟩ <;> dsimp only <;> split_ifs <;> rfl

theorem sameChannels_gameLeave (l : Lobby) : SameChannels l (l.gameLeave g c) := by
  have h1 : SameChannels l ((l.setGame c none).modifyGame g fun x => { x with connlist := x.connlist.erase c }) :=
    (sameChannels_setGame c l none).trans (sameChannels_modifyGame g _ _)
  unfold gameLeave
  dsimp only
  split_ifs
  · split
    · exact h1.trans (sameChannels_removeGame _ _)
    · exact h1.trans (sameChannels_modifyGame g _ _)
  · exact h1

theorem sameChannels_leaveOwnGame (l : Lobby) : SameChannels l (l.leaveOwnGame c) := by
  unfold leaveOwnGame
  rcases (l.member c).game with _ | g
  · exact .refl l
  · exact sameChannels_gameLeave c g l

theorem sameGames_send (l : Lobby) (es : List Notice) : SameGames l (l.send c es) :=
  ⟨rfl, rfl, rfl, fun d => modifyMember_congr c d l (r := Member.game) fun _ => rfl⟩

theorem sameGames_setChannel (l : Lobby) (x : Option ChanId) : SameGames l (l.setChannel c x) :=
  ⟨rfl, rfl, rfl, fun d => modifyMember_congr c d l (r := Member.game) fun _ => rfl⟩

theorem sameGames_sendSet (l : Lobby) (s : Finset ConnId) (e : Notice) : SameGames l (l.sendSet s c e) := by
  refine ⟨rfl, rfl, rfl, fun d => ?_⟩
  unfold sendSet
  dsimp only
  split_ifs <;> rfl

theorem sameGames_modifyConnset (l : Lobby) (f : Finset ConnId → Finset ConnId) :
    SameGames l (l.modifyConnset ch f) := ⟨rfl, rfl, rfl, fun _ => rfl⟩

theorem sameGames_channelLeave (l : Lobby) : SameGames l (l.channelLeave ch c) :=
  (sameGames_modifyConnset ch l _).trans (sameGames_sendSet c _ _ _)

theorem sameGames_leaveOwnChannel (l : Lobby) : SameGames l (l.leaveOwnChannel c) := by
  unfold leaveOwnChannel
  rcases (l.member c).channel with _ | ch
  · exact .refl l
  · exact sameGames_channelLeave c ch l

theorem sameGames_enter (l : Lobby) : SameGames l (l.enter ch c) :=
  ((((sameGames_setChannel c l _).trans (sameGames_modifyConnset ch _ _)).trans (sameGames_send c _ _)).trans
    (sameGames_sendSet c _ _ _)).trans (sameGames_send c _ _)

end Same

end Lobby

end Blitzd.Core
