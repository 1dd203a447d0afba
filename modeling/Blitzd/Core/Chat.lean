import Blitzd.Core.Command
import Blitzd.Core.World

/-! # Whispers and chat commands

`SendWhisper` finds the client of a name, tells the sender if there is none, if it is the sender itself or if it does not
want to be disturbed, and otherwise sends the message with a receipt. `FriendWhisper` sends it to all friends of an
account that are online, and asks nobody.

`command` runs one of the nine chat commands, `sendChat` a chat packet: a command, or a line said in the channel the
client points to. `none` is a lookup that does not return, or a null pointer that is followed. -/

namespace Blitzd.Core.World

open Blitzd.Lib Blitzd.Lib.Bytes Blitzd.Lib.KeyMap Blitzd.Lib.Numerals Blitzd.Utils Blitzd.Utils.CString Blitzd.Cache
open Blitzd.Packets
open Blitzd.Core.Command (CommandHandler ChatAction FriendVerb cmdMap)

/-! ### Whispers -/

/-- `Message::FindOnlineUser`. -/
def findOnlineUser (w : World) (name : Text) (conn : ConnId) (ack : Bool) : Option ConnId × World :=
  let refuse (text : Text) : Option ConnId × World := (none, if ack then w.info conn text else w)
  match w.server.pool.findName name with
  | none => refuse (str "The user is not logged in!")
  | some c =>
    if c = conn then refuse (str "You cannot do whisper to yourself!")
    else if (w.persona c).dnd ≠ [] then
      refuse (w.username c ++ str " is at DnD status (" ++ (w.persona c).dnd ++ str ").")
    else (some c, w)

/-- `Message::SendWhisper`, once its client is found. -/
def whisperTo (w : World) (c conn : ConnId) (msg : Text) (ack : Bool) : World :=
  let w1 := if ack then
      let w1 := w.send conn (some c) .whisperSent msg
      if (w.persona c).away ≠ [] then
        w1.info conn (w.username c ++ str " is away from PC (" ++ (w.persona c).away ++ str ").")
      else w1
    else w
  w1.send c (some conn) .whisper msg

/-- `Message::SendWhisper`. -/
def sendWhisper (w : World) (toname : Text) (conn : ConnId) (msg : Text) (ack : Bool) : World :=
  match w.findOnlineUser toname conn ack with
  | (none, w') => w'
  | (some c, w') => w'.whisperTo c conn msg ack

/-- The clients of an account's friends. -/
def friendsOnline (w : World) (p : Ptr) (isMutual : Bool) : Finset ConnId :=
  (((w.server.item p).friendList.filter fun f => !isMutual || f.isMutual).filterMap fun f =>
    w.server.pool.findName (w.server.item f.user).username).toFinset

/-- `UserCacheItem::FriendWhisper`. -/
def friendWhisper (w : World) (p : Ptr) (conn : ConnId) (text : Text) (isMutual : Bool) : World :=
  if (w.friendsOnline p isMutual).Nonempty then
    w.sendSet (w.friendsOnline p isMutual) (some conn) .whisper text false
  else w

/-! ### The commands -/

/-- A `std::string` that came out of a packet. -/
def toName (t : Text) : Name := ⟨cstr t, nulFree_cstr t⟩

/-- `CommandAway` and `CommandDND`: the old text, what is set, and the words. -/
def setStatusText (w : World) (c : ConnId) (old arg1 : Text) (set : Persona → Persona) (word : Text) : World :=
  let w1 := w.modifyPersona c set
  if arg1 = [] then
    if old ≠ [] then w1.info c (str "You have set your status back to online") else w1
  else w1.info c (str "You have set your status to " ++ word ++ str " (" ++ arg1 ++ str ").")

def commandAway (w : World) (c : ConnId) (arg1 : Text) : World :=
  w.setStatusText c (w.persona c).away arg1 (fun p => { p with away := arg1 }) (str "away")

def commandDND (w : World) (c : ConnId) (arg1 : Text) : World :=
  w.setStatusText c (w.persona c).dnd arg1 (fun p => { p with dnd := arg1 }) (str "DND")

def commandReply (w : World) (c : ConnId) (arg1 : Text) : World :=
  if arg1 = [] then w else w.sendWhisper (w.persona c).lastWhisper c arg1 true

def commandWhisper (w : World) (c : ConnId) (arg1 argr : Text) : World :=
  if arg1 = [] ∨ argr = [] then w else w.sendWhisper arg1 c argr true

def commandChannels (w : World) (c : ConnId) : World :=
  (w.lists (w.client c).gameid).foldl (fun w ch => w.info c (str "  " ++ (w.lobby.channels.get ch).name.1))
    (w.info c (str "Channels:"))

def commandStatus (w : World) (c : ConnId) : World :=
  (w.info c (str "There are " ++ decimal w.server.store.cache.count.toNat ++ str " registered users.")).info c
    (str "There are " ++ decimal w.server.pool.clientMap.length ++ str " online users in " ++
      decimal w.lobby.gameMap.length ++ str " games.")

/-- `JoinChannel` and `CommandJoin`. -/
def joinChannel (w : World) (c : ConnId) (name : Name) : World :=
  w.move (w.lobby.joinChannel c name (w.client c).gameid (w.persona c).countryab)

def commandWhoIs (w : World) (c : ConnId) (arg1 : Text) : World :=
  if arg1 = [] then w
  else match w.server.pool.findName arg1 with
    | none => w.info c (str "The user is offline.")
    | some d => match w.gameName d, w.channelName d with
      | some name, _ => w.info c (w.username d ++ str " is in game '" ++ name.1 ++ str "'.")
      | none, some name => w.info c (w.username d ++ str " is in channel '" ++ name.1 ++ str "'.")
      | none, none => w.info c (w.username d ++ str " is online.")

/-! ### The friend command -/

/-- What `/f` is asked to do. -/
inductive FriendTask
  | help | list | whisper | verb (v : FriendVerb)
deriving DecidableEq

/-- The first argument of `/f`, in the order of the comparisons. -/
def friendTask (arg1 : Text) : Option FriendTask :=
  let is (words : List String) : Bool := words.any fun s => strcmpiEq arg1 (str s)
  if arg1 = [] ∨ is ["h", "help"] then some .help
  else if is ["l", "list"] then some .list
  else if is ["w", "whisper", "m", "msg"] then some .whisper
  else if is ["a", "add"] then some (.verb .add)
  else if is ["del", "delete", "r", "remove"] then some (.verb .remove)
  else if is ["d", "demote"] then some (.verb .demote)
  else if is ["p", "promote"] then some (.verb .promote)
  else none

def friendHelp : List String :=
  ["Usage:", "  /f h          show this help", "  /f l          list friends",
    "  /f w/m <msg>  send whisper to all friends", "  /f a <name>   add friend", "  /f r <name>   remove friend",
    "  /f p <name>   promote friend", "  /f d <name>   demote friend"]

/-- Where `/f l` says a friend is. For a friend in a game the name of the channel is asked for, and there is none. -/
def whereIs (w : World) (f : Friend) : Option Text :=
  match w.server.pool.findName (w.server.item f.user).username with
  | none => some (str "offline")
  | some d => match w.channelName d, w.gameName d with
    | some name, _ => some (if f.isMutual then str "in channel " ++ name.1 else str "in a channel")
    | none, some _ => if f.isMutual then none else some (str "in a game")
    | none, none => some (str "online")

/-- `/f l`. -/
def listFriends (w : World) (c : ConnId) : Option World :=
  let w := w.info c (str "Your friends:")
  match w.user c with
  | none => some w
  | some p => (w.server.item p).friendList.foldlM (fun w f =>
      (w.whereIs f).map fun t => w.info c ((w.server.item f.user).username ++ str ", " ++ t)) w

def commandFriend (env : Env) (w : World) (c : ConnId) (arg1 argr : Text) : Option World :=
  match friendTask arg1 with
  | none => some w
  | some .help => some (friendHelp.foldl (fun w s => w.info c (str s)) w)
  | some .list => w.listFriends c
  | some .whisper =>
    if argr = [] then some w
    else match w.user c with
      | none => some w
      | some p => some (w.friendWhisper p c argr false)
  | some (.verb v) => (Command.commandFriend w.clientView c env v argr w.server).map fun r =>
      (w.setServer r.1).replyAll r.2

/-! ### The chat packet -/

def command (env : Env) (w : World) (c : ConnId) (k : Command.Call) : Option World :=
  match k.handler with
  | .commandFriend => commandFriend env w c k.arg1 k.argr
  | .commandWhisper => some (w.commandWhisper c k.arg1 k.argr)
  | .commandReply => some (w.commandReply c k.arg1)
  | .commandChannels => some (w.commandChannels c)
  | .commandDND => some (w.commandDND c k.arg1)
  | .commandAway => some (w.commandAway c k.arg1)
  | .commandStatus => some (w.commandStatus c)
  | .commandJoin => some (w.joinChannel c (toName k.arg1))
  | .commandWhoIs => some (w.commandWhoIs c k.arg1)

/-- `ChannelCacheItem::Talk`, of the channel the client points to. -/
def talk (w : World) (c : ConnId) (text : Text) : World :=
  match (w.lobby.member c).channel with
  | none => w
  | some ch => w.sendSet (w.lobby.connset ch) (some c) .talk text true

def chatAction (env : Env) (c : ConnId) (w : World) : ChatAction → Option World
  | .call k => w.command env c k
  | .talk text => some (w.talk c text)

/-- `SendChat::Process`. -/
def sendChat (env : Env) (c : ConnId) (payload : List Byte) (w : World) : Option World :=
  (Command.sendChat cmdMap (w.lobby.member c).channel.isSome (Stream.ofBytes payload)).bind fun r =>
    r.2.foldlM (chatAction env c) w

end Blitzd.Core.World
