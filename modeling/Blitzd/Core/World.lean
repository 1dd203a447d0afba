import Blitzd.Cache.FileCache
import Blitzd.Core.Advert
import Blitzd.Core.FriendFlags
import Blitzd.Core.Pool

/-! # The whole server

`World` is everything the handlers of blitzd work on: the connections with the pool and the accounts (`Net`), who is in
which channel and game (`Lobby`), the other members of the clients (`Persona`), the lists of channels by game, the files
that were opened, the realms, and what has been sent to each client, oldest first.

A move between channels and games is made in the lobby; the notices it leaves there are sent as the packets they stand
for (`World.move`). `send` and `sendSet` are the two overloads of `Message::Send`. -/

namespace Blitzd.Core

open Blitzd.Lib Blitzd.Lib.Bytes Blitzd.Lib.KeyMap Blitzd.Utils.CString Blitzd.Cache Blitzd.Packets
open Blitzd.Cache.FileCache (CacheMap)

/-- `UF_NOUDP`. -/
def UF_NOUDP : UInt32 := 0x10

/-- The members of `Client` that have to do with chat, game addresses and realms. -/
structure Persona where
  version : UInt32
  gameIp : UInt32
  gamePort : UInt16
  checkSid : UInt32
  checkTick : UInt32
  latency : UInt32
  protocolVer : UInt8
  flag : UInt32
  countryab : Name
  dnd : Text
  away : Text
  lastWhisper : Text

/-- A new client, at that address. -/
def Persona.new (ip : UInt32) : Persona := ⟨0, ip, 0, 0, 0, 0, 0, UF_NOUDP, default, [], [], []⟩

/-- `RealmCacheItem`. -/
structure RealmCacheItem where
  name : Text
  desc : Text
  port : UInt16
  ip : UInt32

/-- What is written to a connection. -/
inductive Wire
  | bnet (p : Packet)
  | file (b : List Byte)
  | baal (b : List Byte)

structure World where
  net : Net
  lobby : Lobby
  /-- `_game_channelmap`. -/
  lists : UInt32 → List ChanId
  persona : ConnId → Persona
  sent : ConnId → List Wire
  files : CacheMap
  /-- `_realmMap`, in the order of the names. -/
  realms : List (Text × RealmCacheItem)
  /-- The connections `PendClose` was called for. -/
  closing : Finset ConnId

/-- The types of `Message`. -/
inductive MessageType
  | addUser | join | leave | whisper | talk | broadcast | channel | userFlags | whisperSent | channelFull
  | channelNotExit | channelRestricted | info | error | emote
deriving DecidableEq

def MessageType.code : MessageType → UInt32
  | addUser => 1
  | join => 2
  | leave => 3
  | whisper => 4
  | talk => 5
  | broadcast => 6
  | channel => 7
  | userFlags => 9
  | whisperSent => 0xA
  | channelFull => 0xD
  | channelNotExit => 0xE
  | channelRestricted => 0xF
  | info => 0x12
  | error => 0x13
  | emote => 0x17

namespace World

/-! ### Reading -/

def server (w : World) : Server := w.net.server

def client (w : World) (c : ConnId) : Client := w.net.client c

def user (w : World) (c : ConnId) : Option Ptr := (w.client c).user

/-- `GetUsername`. -/
def username (w : World) (c : ConnId) : Text :=
  match w.user c with
  | none => []
  | some p => (w.server.item p).username

/-- `GetFlag`. -/
def flag (w : World) (c : ConnId) : UInt32 :=
  (w.persona c).flag ||| match w.user c with
    | none => 0
    | some p => (w.server.item p).flag &&& 0xFFFFFFF

/-- `GetChannel()->GetName()`, if there is a channel. -/
def channelName (w : World) (c : ConnId) : Option Name :=
  (w.lobby.member c).channel.map fun ch => (w.lobby.channels.get ch).name

/-- `GetGame()->GetName()`, if there is a game. -/
def gameName (w : World) (c : ConnId) : Option Name := (w.lobby.member c).game.map fun g => (w.lobby.game g).name

/-- What the friend packets read of a client. -/
def clientView (w : World) (c : ConnId) : ClientView where
  gameid := (w.client c).gameid
  game := (w.lobby.member c).game.map fun g => ((w.lobby.game g).status.flag, (w.lobby.game g).name.1)
  channel := (w.channelName c).map Subtype.val
  dnd := (w.persona c).dnd
  away := (w.persona c).away

/-- Where other players reach the host of a game. -/
def endpoint (w : World) (c : ConnId) : Endpoint := ⟨(w.persona c).gamePort, (w.persona c).gameIp⟩

/-! ### Writing -/

def setServer (w : World) (s : Server) : World := { w with net := { w.net with server := s } }

def modifyPersona (w : World) (c : ConnId) (f : Persona → Persona) : World :=
  { w with persona := Function.update w.persona c (f (w.persona c)) }

/-- Bytes written to a connection. -/
def deliver (w : World) (c : ConnId) (xs : List Wire) : World :=
  { w with sent := Function.update w.sent c (w.sent c ++ xs) }

/-- `BuildAndSendTo`, which sends nothing if `Pack` fails. -/
def reply (w : World) (c : ConnId) (p : Packet) : World :=
  if p.pack.isSome then w.deliver c [.bnet p] else w

/-- The packets of a friend command. -/
def replyAll (w : World) (out : List Command.Sent) : World := out.foldl (fun w s => w.reply s.conn s.packet) w

/-! ### Messages -/

/-- `BuildMessagePacket`. -/
def buildMessagePacket (w : World) (cl : Option ConnId) (type : MessageType) (msg : Text) : Packet :=
  let text := match type with
    | .addUser | .join | .userFlags => match cl with
      | none => []
      | some d => cstr (w.client d).stats
    | _ => msg
  match cl with
  | none => .chatEvent type.code 0 0 [] text
  | some d =>
    let uflag := match type with
      | .channel => match (w.lobby.member d).channel with
        | none => 0
        | some ch => (w.lobby.channels.get ch).flag
      | _ => w.flag d
    .chatEvent type.code uflag (w.persona d).latency (w.username d) text

/-- `Message::Send` to one client. Nobody whispers without a sender. -/
def send (w : World) (toconn : ConnId) (conn : Option ConnId) (type : MessageType) (msg : Text) : World :=
  let w' := w.deliver toconn [.bnet (w.buildMessagePacket conn type msg)]
  match type, conn with
  | .whisper, some d => w'.modifyPersona toconn fun p => { p with lastWhisper := w.username d }
  | _, _ => w'

/-- `Message::Send(&client, NULL, Info, msg)`. -/
def info (w : World) (c : ConnId) (msg : Text) : World := w.send c none .info msg

/-- `Message::Send` to a set. -/
def sendSet (w : World) (toset : Finset ConnId) (conn : Option ConnId) (type : MessageType) (msg : Text)
    (ignoreSelf : Bool) : World :=
  let x := Wire.bnet (w.buildMessagePacket conn type msg)
  let w' := { w with sent := fun d =>
    if d ∈ toset ∧ ¬ (ignoreSelf = true ∧ conn = some d) then w.sent d ++ [x] else w.sent d }
  match type, conn with
  | .whisper, some f => { w' with persona := fun d =>
      if d ∈ toset then { w.persona d with lastWhisper := w.username f } else w.persona d }
  | _, _ => w'

/-! ### Moves between channels and games -/

/-- The packet a notice stands for. -/
def render (w : World) : Notice → Packet
  | .channel name => w.buildMessagePacket none .channel name
  | .join about => w.buildMessagePacket (some about) .join []
  | .leave about => w.buildMessagePacket (some about) .leave []
  | .info text => w.buildMessagePacket none .info text
  | .startAdvEx3 status => .startAdvEx3 status

/-- The notices a client gets by the move to `l`. -/
def notices (w : World) (l : Lobby) (c : ConnId) : List Notice :=
  (l.member c).inbox.drop (w.lobby.member c).inbox.length

/-- `_game_channelmap`, with the channels that were added. -/
def filed (old new : ChannelCache) (lists : UInt32 → List ChanId) (tag : UInt32) : List ChanId :=
  lists tag ++ (List.range' old.heap.brk (new.heap.brk - old.heap.brk)).filter fun ch => (new.get ch).gameid = tag

/-- The lobby changes to `l`, and its notices are sent. -/
def move (w : World) (l : Lobby) : World :=
  { w with
    lobby := l
    lists := filed w.lobby.channels l.channels w.lists
    sent := fun d => w.sent d ++ (w.notices l d).map fun n => .bnet (w.render n) }

/-! ### Connections -/

/-- `Client::Client`, for a peer at that address. -/
def connect (w : World) (c : ConnId) (token : UInt32) (serverProof clientProof : Buf 20) (ip : UInt32) : World :=
  { w with
    net := w.net.connect c token serverProof clientProof
    lobby := w.lobby.connect c
    persona := Function.update w.persona c (.new ip)
    sent := Function.update w.sent c []
    closing := w.closing.erase c }

/-- `Client::~Client`. -/
def disconnect (w : World) (c : ConnId) : World :=
  let w := w.move (w.lobby.disconnect c)
  { w with net := w.net.disconnect c }

end World

end Blitzd.Core
