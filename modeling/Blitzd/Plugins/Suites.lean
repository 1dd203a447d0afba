import Blitzd.Core.Chat
import Blitzd.Packets.Baal
import Blitzd.Plugins.AuthCheck
import Blitzd.Plugins.Dispatch
import Blitzd.Plugins.FileReq
import Blitzd.Plugins.GetAdvListEx
import Blitzd.Plugins.ListChannel
import Blitzd.Plugins.LogonPool
import Blitzd.Plugins.UserCheck
import Blitzd.Plugins.WriteUserData

/-! # All the plugins

Every plugin of the five suites, as a change of the whole server. A handler finds things that are not part of the state:
what its locals held, random numbers, the clock, the address of the peer and the disk (`Ambient`). `none` is a handler
that does not return or does what the language does not define.

`process` picks the handler of a packet by suite and opcode, as `PluginManager` does; an opcode without a plugin does
nothing. -/

namespace Blitzd.Plugins.Suites

open Blitzd.Lib Blitzd.Lib.Bytes Blitzd.Lib.KeyMap Blitzd.Utils Blitzd.Utils.CString Blitzd.Cache Blitzd.Core
open Blitzd.Packets Blitzd.Plugins
open Blitzd.Plugins.ReadUserData (readUInt)
open Blitzd.Plugins.Logon (Scratch)

/-- What the server was started with. -/
structure Settings where
  env : Env
  filesDir : Name
  news : NewsView
  ladder : LadderInfo
  revlist : List CheckRevision.Revision
  formula : Text

/-- What a call finds around it. -/
structure Ambient where
  scratch : Scratch
  readUserData : ReadUserData.Junk
  acount : Buf 4
  kcount : Buf 4
  getAdvListEx : GetAdvListEx.Junk
  fileReq : FileReq.Junk
  authCheck : AuthCheck.Junk
  userCheck : UserCheck.Junk
  /-- The other local numbers. -/
  uints : ℕ → Buf 4
  ushort : Buf 2
  bytes : ℕ → Buf 1
  disk : FileCache.Disk
  random : UInt32
  ticks : UInt32
  now : UInt32
  /-- What `getpeername` gives. -/
  peer : Option UInt32

/-- `in >> x`, for so many numbers. -/
def readUInts (junk : ℕ → Buf 4) : (n i : ℕ) → Stream → List UInt32 × Stream
  | 0, _, s => ([], s)
  | n + 1, i, s =>
    let r := readUInt s (junk i)
    let rest := readUInts junk n (i + 1) r.2
    (r.1 :: rest.1, rest.2)

/-- A string of a packet. -/
def readName (s : Stream) : Name × Stream := (⟨s.readStr.1, fun _ => Stream.readStr_ne_zero⟩, s.readStr.2)

/-- The packets of the account handlers. -/
def packetOf : Logon.Reply → Packet
  | .authLogon status salt pubkey => .authLogon (UInt32.ofNat status) salt pubkey
  | .authLogonProof status proof => .authLogonProof (UInt32.ofNat status) proof []
  | .accountChange status salt pubkey => .accountChange (UInt32.ofNat status) salt pubkey
  | .accountChangeProof status proof => .accountChangeProof (UInt32.ofNat status) proof
  | .accountCreate result => .accountCreate (UInt32.ofNat result)
  | .oldAccountCreate2 result => .oldAccountCreate2 (UInt32.ofNat result)
  | .oldAccountChange result => .oldAccountChange (UInt32.ofNat result)
  | .oldAuthLogon2 result reason => .oldAuthLogon2 (UInt32.ofNat result) reason
  | .reqEmail => .reqEmail

section Handlers

variable (st : Settings) (am : Ambient) (c : ConnId) (payload : List Byte) (w : World)

/-! ### Before login -/

/-- The eight account handlers. -/
def account (op : Logon.Op) : Option World :=
  (Logon.handle st.env c ⟨op, payload, am.scratch⟩ w.server).map fun r =>
    (r.2.map packetOf).foldl (fun w p => w.reply c p) (w.setServer r.1)

/-- `SetAuthInfo`. -/
def setAuthInfo (product ver : UInt32) (country : Name) : World :=
  let w := w.setServer (w.server.modifyClient c fun cl => { cl with gameid := product })
  w.modifyPersona c fun p => { p with
    version := ver
    countryab := country
    protocolVer := if product = 0x57335850 ∨ product = 0x57415233 then 2 else 0 }

/-- `SendPing`, with `CheckStart`. -/
def sendPing : World :=
  let w := w.modifyPersona c fun p => { p with checkSid := am.random, checkTick := am.ticks }
  w.reply c (.ping am.random)

/-- `fileCache[name]`. -/
def openFile (name : Text) : Option FileCache.FileCacheItem × World :=
  let r := FileCache.get st.filesDir am.disk w.files name
  (r.1, { w with files := r.2 })

def authInfo : World :=
  let r := readUInts am.uints 9 0 (Stream.ofBytes payload)
  let country := readName r.2
  let w := sendPing am c (setAuthInfo c w (r.1.getD 2 0) (r.1.getD 3 0) country.1)
  let f := openFile st am w (Packet.versionFile (w.client c).token)
  f.2.reply c (.authInfo (UInt32.ofNat (w.persona c).protocolVer.toNat) (w.client c).token (w.client c).session
    (fun _ => f.1.map FileCache.FileCacheItem.fileTime) st.formula)

def authCheck : World :=
  w.reply c (AuthCheck.process st.revlist (w.client c).gameid (w.client c).token am.authCheck payload)

def changeEmail : Option World :=
  let username := (Stream.ofBytes payload).readStr
  let oldemail := username.2.readStr
  let newemail := oldemail.2.readStr
  (lookup st.env st.env.depth w.server.store (.name username.1)).map fun r =>
    let w := w.setServer { w.server with store := r.2 }
    match r.1 with
    | none => w
    | some p =>
      if (w.server.item p).mail = oldemail.1 ∧ newemail.1 ≠ [] then
        w.setServer (w.server.modifyItem p fun u => u.setMail newemail.1)
      else w

/-! ### In both suites -/

/-- `CheckEnd`. -/
def ping : World :=
  let sid := (readUInt (Stream.ofBytes payload) (am.uints 0)).1
  let p := w.persona c
  if p.checkSid ≠ sid ∨ p.checkTick = 0 then w
  else w.modifyPersona c fun p =>
    { p with latency := if am.ticks < p.checkTick then 0 else am.ticks - p.checkTick }

/-- `FileReq`, `RawReq` and `QueryFileInfo`. -/
def fileRequest (kind : FileReq.Kind) : Option World :=
  let r := FileReq.process st.filesDir w.files ⟨kind, payload, am.fileReq, am.disk⟩
  if r.fault then none
  else
    let w := { w with files := r.cache }
    match r.sent with
    | none => some w
    | some (.file b) => some (w.deliver c [.file b])
    | some (.info p) => some (w.reply c p)

def queryIcon : World :=
  let filename := if (w.persona c).protocolVer = 2 then str "icons-WAR3.bni" else str "icons_STAR.bni"
  let f := openFile st am w filename
  match f.1 with
  | none => f.2
  | some ptr => f.2.reply c (.replyIcon ptr.fileTime filename)

def readUserData : Option World :=
  (ReadUserData.readUserData st.env c am.readUserData payload w.server).map fun r =>
    let w := w.setServer r.2
    match r.1 with
    | none => w
    | some data => w.reply c (.readUserData data)

def setEmail : World :=
  match w.user c with
  | none => w
  | some p =>
    let email := (Stream.ofBytes payload).readStr.1
    w.setServer (w.server.modifyItem p fun u => u.setMail (if email = [] then str " " else email))

def stopAdv : World := w.move (w.lobby.stopAdv c)

def udpResponse : World := w.modifyPersona c fun p => { p with flag := p.flag &&& ~~~ UF_NOUDP }

/-! ### Behind login -/

def enterChat : World :=
  match w.user c with
  | none => w
  | some p =>
    let dispname := (Stream.ofBytes payload).readStr.1
    let name := (w.server.item p).username
    w.reply c (.enterChat (if dispname = [] then name else dispname) (cstr (w.client c).stats) name)

def friendsList : World := w.reply c (Command.friendsList w.clientView c w.server)

def getAdvListEx : World :=
  w.reply c (.advListEx (GetAdvListEx.readQuery am.getAdvListEx payload) (GetAdvListEx.gameViews w.endpoint w.lobby))

def joinChannel : World :=
  let flag := readUInt (Stream.ofBytes payload) (am.uints 0)
  w.joinChannel c (readName flag.2).1

def leaveChat : World := w.move (w.lobby.leaveChat c)

def leaveGame : World := w.move (w.lobby.leaveGame c)

def listChannel : World :=
  let r := (ListChannel.Directory.mk w.lobby.channels w.lists).listChannel
    ⟨(w.client c).gameid, (w.lobby.member c).channel⟩
  { w with lists := r.2.lists }.reply c r.1

def netGamePort : World :=
  let r := (Stream.ofBytes payload).readBuf am.ushort
  w.modifyPersona c fun p => { p with gamePort := UInt16.ofNat (ofLE r.1.bytes) }

def notifyJoin : World :=
  let r := readUInts am.uints 2 0 (Stream.ofBytes payload)
  w.move (w.lobby.notifyJoin c (readName r.2).1)

/-- `ptr->GetData(k)`, which makes an entry for a key that is not there. -/
def getData (p : Ptr) (k : Text) : Text × World :=
  let d := (w.server.item p).getData k
  (d.1, w.setServer (w.server.modifyItem p fun _ => d.2))

def profile : Option World :=
  let token := readUInt (Stream.ofBytes payload) (am.uints 0)
  let username := token.2.readStr
  (lookup st.env st.env.depth w.server.store (.name username.1)).map fun r =>
    let w := w.setServer { w.server with store := r.2 }
    match r.1 with
    | none => w
    | some p =>
      let description := getData w p (str "Profile\\Description")
      let location := getData description.2 p (str "Profile\\Location")
      location.2.reply c (.profile token.1 0 description.1 location.1 0)

def queryNews : World :=
  w.reply c (.replyNews st.news (readUInt (Stream.ofBytes payload) (am.uints 0)).1 am.now)

def queryRealms2 : World := w.reply c (.realmList2 (w.realms.map fun e => ⟨e.2.name, e.2.desc⟩))

/-- The loop of `QueryWar3Info` from the tag `i` on; `count` are left. -/
def war3Tags (cookie : UInt32) : (count i : ℕ) → Stream → World → World
  | 0, _, _, w => w
  | count + 1, i, s, w =>
    let tag := readUInt s (am.uints i)
    let unk := readUInt tag.2 (am.uints (i + 1))
    war3Tags cookie count (i + 2) unk.2 (w.reply c (.war3Info 2 cookie tag.1 (count = 0) st.ladder))

def queryWar3Info : World :=
  let subcmd := (Stream.ofBytes payload).readBuf (am.bytes 0)
  if ofLE subcmd.1.bytes = 2 then
    let cookie := readUInt subcmd.2 (am.uints 0)
    let count := cookie.2.readBuf (am.bytes 1)
    war3Tags st am c cookie.1 (ofLE count.1.bytes) 1 count.2 w
  else w

def realmLogonEx : World :=
  let cookie := readUInt (Stream.ofBytes payload) (am.uints 0)
  let realmName := (cookie.2.skip 20).readStr.1
  w.reply c (.realmLogonEx
    { cookie := cookie.1
      realm := (find KeyEq.ofEq w.realms realmName).map fun r => ⟨r.port, r.ip⟩
      user := (w.user c).map fun p => ((w.server.item p).passwd, (w.server.item p).username)
      session := (w.client c).session
      token := (w.client c).token
      gameid := (w.client c).gameid
      version := (w.persona c).version })

def startAdvEx3 : World :=
  let r := readUInts am.uints 5 0 (Stream.ofBytes payload)
  let gname := readName r.2
  let gpass := gname.2.readStr
  let gstat := gpass.2.readStr
  let word (i : ℕ) : UInt32 := r.1.getD i 0
  w.move (w.lobby.startAdvEx3 c gname.1 ⟨word 0, word 1, word 2, word 3, word 4, gpass.1, gstat.1⟩)

def switchGameID : World :=
  let gameid := (readUInt (Stream.ofBytes payload) (am.uints 0)).1
  w.setServer (w.server.modifyClient c fun cl => { cl with gameid := gameid })

def writeUserData : Option World :=
  (WriteUserData.writeUserData st.env c am.acount am.kcount payload w.server).bind fun r =>
    if r.1.any (·.outside) then none else some (w.setServer r.2)

/-! ### The other suites -/

/-- `InitBnet`, `InitFile` and `InitBaal`. -/
def init (op : ℕ) : World :=
  if op = 0x01 then w.setServer (w.server.setStage c .bnet)
  else if op = 0x02 then w.setServer (w.server.setStage c .fileTrans)
  else if op = 0x65 then
    let w := w.setServer (w.server.setStage c .baal)
    w.deliver c [.baal (Baal.build 0x01 0 [.u32 (w.client c).session])]
  else w

def tokenReq : World :=
  (w.setServer (w.server.setStage c .fileRaw)).deliver c [.file (toLE 4 (w.client c).token.toNat)]

/-- `RealmCache::Add`, of a name that is not there. -/
def addRealm (r : RealmCacheItem) : World := { w with realms := insertLt bytesLt w.realms r.name r }

def realmAuth : World :=
  let token := readUInt (Stream.ofBytes payload) (am.uints 0)
  let session := readUInt token.2 (am.uints 1)
  let port := session.2.readBuf am.ushort
  let name := port.2.readStr
  let desc := name.2.readStr
  let answer (result : UInt32) : Wire := .baal (Baal.build 0x02 token.1 [.u32 result])
  let refused := { w.deliver c [answer 1] with closing := insert c w.closing }
  if session.1 = (w.client c).session ∧ find KeyEq.ofEq w.realms name.1 = none then
    match am.peer with
    | some ip => (addRealm w ⟨name.1, desc.1, UInt16.ofNat (ofLE port.1.bytes), ip⟩).deliver c [answer 0]
    | none => refused
  else refused

def userCheck : World := w.deliver c [.baal (UserCheck.process w.server am.userCheck payload)]

/-- `ConnTest2`, of the UDP suite; it follows the pointer it finds, also to a client that is gone. -/
def connTest2 (ip : UInt32) (port : UInt16) : Option World :=
  if payload.length < 8 then some w
  else match w.server.pool.findToken (readUInt (Stream.ofBytes payload) (am.uints 0)).1 with
    | none => none
    | some d =>
      if d ∈ w.net.live then some (w.modifyPersona d fun p => { p with gameIp := ip, gamePort := port }) else none

/-! ### The suites -/

/-- `PluginBNet`. -/
def bnet (op : ℕ) : Option World :=
  match Dispatch.bnetOps.lookup op with
  | some k => account st am c payload w k
  | none => match op with
    | 0x50FF => some (authInfo st am c payload w)
    | 0x51FF => some (authCheck st am c payload w)
    | 0x5BFF => changeEmail st payload w
    | 0x25FF => some (ping am c payload w)
    | 0x33FF => fileRequest st am c payload w .queryFileInfo
    | 0x2DFF => some (queryIcon st am c w)
    | 0x26FF => readUserData st am c payload w
    | 0x59FF => some (setEmail c payload w)
    | 0x02FF => some (stopAdv c w)
    | 0x14FF => some (udpResponse c w)
    -- `ResetPassword` does nothing
    | _ => some w

/-- `PluginBNetLoggedIn`. -/
def bnetLoggedIn (op : ℕ) : Option World :=
  match op with
  | 0x0AFF => some (enterChat c payload w)
  | 0x65FF => some (friendsList c w)
  | 0x09FF => some (getAdvListEx am c payload w)
  | 0x0CFF => some (joinChannel am c payload w)
  | 0x10FF => some (leaveChat c w)
  | 0x1FFF => some (leaveGame c w)
  | 0x0BFF => some (listChannel c w)
  | 0x45FF => some (netGamePort am c payload w)
  | 0x22FF => some (notifyJoin am c payload w)
  | 0x00FF => some (w.reply c .null)
  | 0x25FF => some (ping am c payload w)
  | 0x35FF => profile st am c payload w
  | 0x33FF => fileRequest st am c payload w .queryFileInfo
  | 0x2DFF => some (queryIcon st am c w)
  | 0x46FF => some (queryNews st am c payload w)
  | 0x40FF => some (queryRealms2 c w)
  | 0x44FF => some (queryWar3Info st am c payload w)
  | 0x26FF => readUserData st am c payload w
  | 0x3EFF => some (realmLogonEx am c payload w)
  | 0x0EFF => w.sendChat st.env c payload
  | 0x59FF => some (setEmail c payload w)
  | 0x1CFF => some (startAdvEx3 am c payload w)
  | 0x02FF => some (stopAdv c w)
  | 0x5CFF => some (switchGameID am c payload w)
  | 0x14FF => some (udpResponse c w)
  | 0x27FF => writeUserData st am c payload w
  -- `CheckAd`, `ClickAd`, `QueryAdUrl`, `FriendUpdate` and `GameResult` change and send nothing
  | _ => some w

/-- `PluginFile`. -/
def file (op : ℕ) : Option World :=
  match op with
  | 0x0100 => fileRequest st am c payload w .fileReq
  | 0x0200 => some (tokenReq c w)
  | 0 => fileRequest st am c payload w .rawReq
  | _ => some w

/-- `PluginBaal`. -/
def baal (op : ℕ) : World :=
  match op with
  | 0x02 => realmAuth am c payload w
  | 0x10 => userCheck am c payload w
  | _ => w

end Handlers

/-- `PluginManager::Process`. -/
def process (st : Settings) (am : Ambient) (c : ConnId) (call : PluginCall) (w : World) : Option World :=
  match call.suite with
  | .init => some (init c w call.op)
  | .bnet => bnet st am c call.payload w call.op
  | .bnetLoggedIn => bnetLoggedIn st am c call.payload w call.op
  | .file => file st am c call.payload w call.op
  | .baal => some (baal am c call.payload w call.op)

end Blitzd.Plugins.Suites
