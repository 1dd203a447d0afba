import Blitzd.Cache.UserCache
import Blitzd.Crypto.Sha
import Blitzd.Packets.PacketBNet
import Blitzd.Utils.StreamOps

/-! # The packets of the server (`packets/bnet`)

One constructor for each packet class, with the members its `Pack` reads and, where `Pack` looks into a
cache or at other clients, with what it finds there. `pack` lists what is appended to the stream, in the
order of the source.

`Build` stores the size of the stream in 16 bits. `Packet.size` is that size, in terms of the members
alone (`length_build`), and `delimited_iff` says which packets carry it. -/

namespace Blitzd.Packets

open Blitzd.Lib.Bytes Blitzd.Utils Blitzd.Utils.CString Blitzd.Core Blitzd.Cache Blitzd.Crypto

/-! ### What `operator<<` appends -/

inductive Field
  | u8 (x : UInt8)
  | u16 (x : UInt16)
  | u32 (x : UInt32)
  | u64 (x : UInt64)
  /-- An array, a vector of bytes, `append` or `append_zero`. -/
  | raw (l : List Byte)
  /-- A `std::string`. -/
  | str (s : Text)
  /-- A `const char *`. -/
  | cstr (s : Text)

namespace Field

def bytes : Field → List Byte
  | u8 x => toLE 1 x.toNat
  | u16 x => toLE 2 x.toNat
  | u32 x => toLE 4 x.toNat
  | u64 x => toLE 8 x.toNat
  | raw l => l
  | str s => s ++ [0]
  | cstr s => CString.cstr s ++ [0]

def size : Field → ℕ
  | u8 _ => 1
  | u16 _ => 2
  | u32 _ => 4
  | u64 _ => 8
  | raw l => l.length
  | str s => s.length + 1
  | cstr s => (CString.cstr s).length + 1

theorem length_bytes : ∀ f : Field, f.bytes.length = f.size
  | u8 _ | u16 _ | u32 _ | u64 _ => length_toLE _ _
  | raw _ => rfl
  | str _ | cstr _ => List.length_append

end Field

/-- The bytes of the fields. -/
def fieldBytes (fs : List Field) : List Byte := fs.flatMap Field.bytes

def fieldsSize (fs : List Field) : ℕ := (fs.map Field.size).sum

section Sizes

variable (f : Field) (fs gs : List Field)

@[simp] theorem fieldsSize_nil : fieldsSize [] = 0 := rfl

@[simp] theorem fieldsSize_cons : fieldsSize (f :: fs) = f.size + fieldsSize fs := List.sum_cons

@[simp] theorem fieldsSize_append : fieldsSize (fs ++ gs) = fieldsSize fs + fieldsSize gs := by
  unfold fieldsSize
  rw [List.map_append, List.sum_append]

/-- Fields that are appended under a condition. -/
theorem fieldsSize_ite (P : Prop) [Decidable P] :
    fieldsSize (if P then fs else []) = if P then fieldsSize fs else 0 := by
  split_ifs <;> rfl

theorem fieldsSize_flatMap {α : Type*} {g : α → List Field} {n : α → ℕ} (h : ∀ a, fieldsSize (g a) = n a)
    (l : List α) : fieldsSize (l.flatMap g) = (l.map n).sum := by
  induction l with
  | nil => rfl
  | cons a l ih => rw [List.flatMap_cons, fieldsSize_append, h, ih, List.map_cons, List.sum_cons]

theorem fieldsSize_map {α : Type*} {f : α → Field} {n : α → ℕ} (h : ∀ a, (f a).size = n a) (l : List α) :
    fieldsSize (l.map f) = (l.map n).sum := by
  rw [fieldsSize, List.map_map]
  exact congrArg List.sum (List.map_congr_left fun a _ => h a)

theorem length_fieldBytes : (fieldBytes fs).length = fieldsSize fs := by
  induction fs with
  | nil => rfl
  | cons f fs ih => rw [fieldBytes, List.flatMap_cons, List.length_append, f.length_bytes,
      fieldsSize_cons, ← ih, fieldBytes]

end Sizes

section Put

open StreamOps StreamOps.Outcome

/-- The operator that appends a field. -/
def Field.put (s : Stream) : Field → Outcome
  | u8 x => putValue s (toLE 1 x.toNat)
  | u16 x => putValue s (toLE 2 x.toNat)
  | u32 x => putValue s (toLE 4 x.toNat)
  | u64 x => putValue s (toLE 8 x.toNat)
  | raw l => append s l
  | str t => putString s t
  | cstr t => putCString s ⟨CString.cstr t, nulFree_cstr t⟩

theorem Field.put_eq {s : Stream} {f : Field} (hf : ∀ t, f = .cstr t → (CString.cstr t).length < 2 ^ 31)
    (hs : s.buf.length + f.bytes.length ≤ maxSize) : f.put s = done ⟨s.buf ++ f.bytes, s.pos⟩ := by
  cases f with
  | str t => exact putString_done.mpr ⟨hs, rfl⟩
  | cstr t =>
    rw [Field.put, putCString, cstringBytes_eq (hf t rfl)]
    exact append_done.mpr ⟨hs, rfl⟩
  | _ => exact append_done.mpr ⟨hs, rfl⟩

/-- **The operators append the bytes of the fields**, if no `const char *` is longer than an `int` can say. -/
theorem put_fieldBytes {fs : List Field} {s : Stream} (hfs : ∀ t, .cstr t ∈ fs → (CString.cstr t).length < 2 ^ 31)
    (hs : s.buf.length + (fieldBytes fs).length ≤ maxSize) :
    fs.foldl (fun o f => o.andThen f.put) (done s) = done ⟨s.buf ++ fieldBytes fs, s.pos⟩ := by
  induction fs generalizing s with
  | nil =>
    rw [List.foldl_nil, fieldBytes, List.flatMap_nil, List.append_nil]
  | cons f fs ih =>
    have hbytes : fieldBytes (f :: fs) = f.bytes ++ fieldBytes fs := List.flatMap_cons
    rw [hbytes, List.length_append] at hs
    have hput := Field.put_eq (s := s) (f := f) (fun t ht => hfs t (ht ▸ List.mem_cons_self)) (by omega)
    show fs.foldl (fun o f => o.andThen f.put) (Field.put s f) = _
    rw [hput, ih (fun t ht => hfs t (List.mem_cons_of_mem _ ht)) (by rw [List.length_append]; omega), hbytes,
      List.append_assoc]

end Put

def htons (x : UInt16) : UInt16 := (x <<< 8) ||| (x >>> 8)

def htonl (x : UInt32) : UInt32 :=
  (x <<< 24) ||| ((x <<< 8) &&& (0xFF0000 : UInt32)) ||| ((x >>> 8) &&& (0xFF00 : UInt32)) ||| (x >>> 24)

/-! ### Game lists -/

structure Endpoint where
  port : UInt16
  ip : UInt32

/-- What `BNetAdvListEx` reads of a game. -/
structure GameView where
  name : Text
  flag : UInt32
  elapsed : UInt32
  type : UInt32
  option : UInt32
  passwd : Text
  stat : Text
  broadcast : Bool
  host : Option Endpoint

/-- The members of `BNetAdvListEx`. -/
structure AdvQuery where
  gamename : Text
  gamepass : Text
  gamestat : Text
  startidx : UInt32
  maxcount : UInt32
  cond : UInt32
  mask : UInt32

def gameEntry (e : GameView × Endpoint) : List Field :=
  [.u32 e.1.type, .u32 e.1.option, .u16 2, .u16 (htons e.2.port), .u32 (htonl e.2.ip),
    .u64 0, .u32 ((e.1.flag &&& 0x02) ||| 0x04), .u32 e.1.elapsed, .cstr e.1.name, .cstr e.1.passwd,
    .cstr e.1.stat]

def gameEntrySize (e : GameView × Endpoint) : ℕ :=
  35 + (cstr e.1.name).length + (cstr e.1.passwd).length + (cstr e.1.stat).length

/-- The host of a game that the query asks for. -/
def AdvQuery.wanted (q : AdvQuery) (g : GameView) : Option Endpoint :=
  if (q.mask = 0 ∨ g.type &&& q.mask = q.cond &&& q.mask) ∧ g.broadcast then g.host else none

/-- The loop over the games: those that are written, and the counter `c`. -/
def AdvQuery.listed (q : AdvQuery) : UInt32 → List GameView → List (GameView × Endpoint) × UInt32
  | c, [] => ([], c)
  | c, g :: gs =>
    match q.wanted g with
    | none => if c = q.maxcount then ([], c) else q.listed c gs
    | some h =>
      let here := if c + 1 > q.startidx ∧ c + 1 ≤ q.maxcount then [(g, h)] else []
      if c + 1 = q.maxcount then (here, c + 1)
      else
        let r := q.listed (c + 1) gs
        (here ++ r.1, r.2)

/-- The game asked for by name, or why it is not shown. The passwords are compared as pointers, which
differ. -/
def AdvQuery.named (q : AdvQuery) (games : List GameView) : Except UInt32 (GameView × Endpoint) :=
  match games.find? fun g => strcmpiEq g.name q.gamename with
  | none => .error 1
  | some g => match g.host with
    | none => .error 1
    | some h =>
      if g.flag &&& 0x02 > 0 then .error 3
      else if g.flag &&& 0x08 > 0 then .error 4
      else if g.passwd ≠ [] then .error 2
      else .ok (g, h)

def packAdvListEx (q : AdvQuery) (games : List GameView) : List Field :=
  if q.gamename = [] then
    let r := q.listed 0 games
    .u32 r.2 :: (r.1.flatMap gameEntry ++ if r.2 = 0 then [.u32 0] else [])
  else match q.named games with
    | .error code => [.u32 0, .u32 code]
    | .ok e => gameEntry e

def advListExSize (q : AdvQuery) (games : List GameView) : ℕ :=
  if q.gamename = [] then
    8 + ((q.listed 0 games).1.map gameEntrySize).sum + if (q.listed 0 games).2 = 0 then 4 else 0
  else match q.named games with
    | .error _ => 12
    | .ok e => 4 + gameEntrySize e

/-! ### Friends -/

/-- What the friend packets read of the friend's client. -/
structure ClientView where
  gameid : UInt32
  game : Option (UInt32 × Text)
  channel : Option Text
  dnd : Text
  away : Text

structure FriendView where
  username : Text
  isMutual : Bool
  client : Option ClientView

structure Whereabouts where
  status : UInt8
  location : UInt8
  gameid : UInt32
  locname : Text

/-- Where the client of a friend is: in a game with its flag and name, in a channel, or in neither. -/
def locate (isMutual : Bool) (cl : ClientView) : UInt8 × Text :=
  match cl.game with
  | some (flag, name) =>
    if flag &&& 1 ≠ 0 then if isMutual then (5, name) else (4, []) else (3, name)
  | none => match cl.channel with
    | some name => (2, name)
    | none => (1, [])

/-- The common part of `BNetFriendAdd`, `BNetFriendUpdate` and `BNetFriendsList`. -/
def FriendView.whereabouts (fr : FriendView) : Whereabouts :=
  match fr.client with
  | none => ⟨0, 0, 0, []⟩
  | some cl =>
    { status := (if fr.isMutual then 1 else 0) ||| (if cl.dnd ≠ [] then 2 else 0) |||
        (if cl.away ≠ [] then 4 else 0)
      location := (locate fr.isMutual cl).1
      gameid := cl.gameid
      locname := (locate fr.isMutual cl).2 }

def Whereabouts.fields (x : Whereabouts) : List Field :=
  [.u8 x.status, .u8 x.location, .u32 x.gameid, .str x.locname]

theorem locate_ne_five (cl : ClientView) : (locate false cl).1 ≠ 5 := by
  unfold locate
  rcases cl.game with _ | ⟨flag, name⟩
  · rcases cl.channel with _ | name <;> simp
  · by_cases hf : flag &&& 1 ≠ 0 <;> simp [hf]

/-- A private game is named to mutual friends only. -/
theorem FriendView.isMutual_of_location {fr : FriendView} (h : fr.whereabouts.location = 5) :
    fr.isMutual = true := by
  unfold whereabouts at h
  rcases hc : fr.client with _ | cl
  · rw [hc] at h
    exact absurd h (by simp)
  · rw [hc] at h
    by_contra hm
    rw [Bool.not_eq_true] at hm
    rw [hm] at h
    exact locate_ne_five cl h

/-- An entry of `BNetFriendsList`; one without user is left out. -/
def friendEntry : Option FriendView → List Field
  | none => []
  | some fr => .cstr fr.username :: fr.whereabouts.fields

def friendEntrySize : Option FriendView → ℕ
  | none => 0
  | some fr => 8 + (cstr fr.username).length + fr.whereabouts.locname.length

/-! ### User data, channels, realms, news -/

/-- The members of `BNetReadUserData`: a row for each account, with a value for each key. -/
structure UserDataReply where
  acount : UInt32
  kcount : UInt32
  token : UInt32
  result : List (List Text)
  rows : result.length = acount.toNat
  cols : ∀ row ∈ result, row.length = kcount.toNat

def UserDataReply.size (r : UserDataReply) : ℕ := (r.result.map fun row => (row.map fun v => v.length + 1).sum).sum

structure ChannelView where
  name : Text
  spawned : Bool
  /-- It is the client's channel. -/
  current : Bool

/-- The channels a client is shown. -/
def shown (l : List ChannelView) : List ChannelView := l.filter fun ch => !ch.spawned && !ch.current

structure RealmView where
  name : Text
  desc : Text

/-- What `BNetRealmLogonEx` reads: the endpoint of the realm, and of the client. -/
structure RealmLogon where
  cookie : UInt32
  realm : Option Endpoint
  user : Option (Buf 20 × Text)
  session : UInt32
  token : UInt32
  gameid : UInt32
  version : UInt32

def packRealmLogonEx (r : RealmLogon) : List Field :=
  match r.realm with
  | none => [.u32 r.cookie, .u32 0x80000001]
  | some e => match r.user with
    | none => [.u32 r.cookie, .u32 0x80000002]
    | some (passwd, username) =>
      [.u32 r.cookie, .u32 0, .u32 0, .u32 r.session, .u32 (htonl e.ip),
        .u32 (UInt32.ofNat (htons e.port).toNat), .raw (List.replicate 12 0), .u32 r.gameid, .u32 r.version,
        .raw (List.replicate 8 0),
        .raw (Sha.sha1 [toLE 4 r.cookie.toNat, toLE 4 r.session.toNat, toLE 4 r.token.toNat, passwd.bytes]).bytes,
        .str username]

/-- The news, oldest first, and the message of the day. -/
structure NewsView where
  news : List (UInt32 × Text)
  motd : Text

/-- `GetAfter`: the first item after `t` is skipped, and at most 250 follow. -/
def NewsView.getAfter (n : NewsView) (t : UInt32) : List (UInt32 × Text) :=
  ((n.news.dropWhile fun e => e.1 ≤ t).drop 1).take 250

def packReplyNews (n : NewsView) (lastTime now : UInt32) : List Field :=
  let news := n.getAfter lastTime
  [.u8 (UInt8.ofNat news.length + 1), .u32 now, .u32 ((n.news.head?.map Prod.fst).getD 0),
    .u32 ((n.news.getLast?.map Prod.fst).getD 0), .u32 0, .cstr n.motd] ++
  news.flatMap fun e => [.u32 e.1, .cstr e.2]

/-- `LadderInfo`. -/
structure LadderInfo where
  urlData : List Byte
  mapName : List Byte
  mapInfo : List Byte
  mapDesc : List Byte
  ladderData : List Byte

/-- The magic and the data of a tag. -/
def LadderInfo.data (l : LadderInfo) (tag : UInt32) : Option (UInt32 × List Byte) :=
  if tag = 0x55524c then some (0xBF1F1047, l.urlData)
  else if tag = 0x4d4150 then some (0x70E2E0D5, l.mapName)
  else if tag = 0x54595045 then some (0x7C87DEEE, l.mapInfo)
  else if tag = 0x44455343 then some (0xA4F0A22F, l.mapDesc)
  else if tag = 0x4c414452 then some (0x3BADE25A, l.ladderData)
  else none

/-! ### The packets -/

inductive Packet
  | accountChange (status : UInt32) (salt pubkey : Buf 32)
  | accountChangeProof (status : UInt32) (proof : Buf 20)
  | accountCreate (result : UInt32)
  | advListEx (q : AdvQuery) (games : List GameView)
  | authCheck (code : UInt32) (errorMsg : Text)
  | authInfo (protocolVer token session : UInt32) (filetime : Text → Option UInt64) (formula : Text)
  | authLogon (status : UInt32) (salt pubkey : Buf 32)
  | authLogonProof (status : UInt32) (proof : Buf 20) (msg : Text)
  | chatEvent (eventid uflag ping : UInt32) (username text : Text)
  | enterChat (uname stats aname : Text)
  | friendAdd (fr : Option FriendView)
  | friendPosition (oindex nindex : UInt8)
  | friendRemove (index : UInt8)
  | friendUpdate (index : UInt8) (fr : Option FriendView)
  | friendsList (user : Option (List (Option FriendView)))
  | listChannel (own common : List ChannelView)
  | null
  | oldAccountChange (result : UInt32)
  | oldAccountCreate2 (result : UInt32)
  | oldAuthLogon2 (result : UInt32) (reason : Text)
  | ping (sid : UInt32)
  | profile (token : UInt32) (result : UInt8) (description location : Text) (clan : UInt32)
  | readUserData (r : UserDataReply)
  | realmList2 (realms : List RealmView)
  | realmLogonEx (r : RealmLogon)
  | replyFileInfo (fileid filetime : UInt64) (filename : Text)
  | replyIcon (filetime : UInt64) (filename : Text)
  | replyNews (n : NewsView) (lastTime now : UInt32)
  | reqEmail
  | startAdvEx3 (status : UInt32)
  | war3Info (subcmd : UInt8) (cookie tag : UInt32) (isLast : Bool) (ladder : LadderInfo)

namespace Packet

/-- `GetCmd`. -/
def cmd : Packet → UInt16
  | accountChange .. => 0x55FF
  | accountChangeProof .. => 0x56FF
  | accountCreate .. => 0x52FF
  | advListEx .. => 0x09FF
  | authCheck .. => 0x51FF
  | authInfo .. => 0x50FF
  | authLogon .. => 0x53FF
  | authLogonProof .. => 0x54FF
  | chatEvent .. => 0x0FFF
  | enterChat .. => 0x0AFF
  | friendAdd .. => 0x67FF
  | friendPosition .. => 0x69FF
  | friendRemove .. => 0x68FF
  | friendUpdate .. => 0x66FF
  | friendsList .. => 0x65FF
  | listChannel .. => 0x0BFF
  | null => 0x00FF
  | oldAccountChange .. => 0x31FF
  | oldAccountCreate2 .. => 0x3DFF
  | oldAuthLogon2 .. => 0x3AFF
  | ping .. => 0x25FF
  | profile .. => 0x35FF
  | readUserData .. => 0x26FF
  | realmList2 .. => 0x40FF
  | realmLogonEx .. => 0x3EFF
  | replyFileInfo .. => 0x33FF
  | replyIcon .. => 0x2DFF
  | replyNews .. => 0x46FF
  | reqEmail => 0x59FF
  | startAdvEx3 .. => 0x1CFF
  | war3Info .. => 0x44FF

/-- The name of the version checker; the token picks one of eight. -/
def versionFile (token : UInt32) : Text := str "ver-ix86-" ++ (UInt8.ofNat (48 + token.toNat % 8) :: str ".mpq")

/-- `Pack`, `none` for `false`. -/
def pack : Packet → Option (List Field)
  | accountChange status salt pubkey => some [.u32 status, .raw salt.bytes, .raw pubkey.bytes]
  | accountChangeProof status proof => some [.u32 status, .raw proof.bytes]
  | accountCreate result => some [.u32 result]
  | advListEx q games => some (packAdvListEx q games)
  | authCheck code errorMsg => some [.u32 code, .cstr errorMsg]
  | authInfo protocolVer token session filetime formula =>
    (filetime (versionFile token)).map fun t =>
      [.u32 protocolVer, .u32 token, .u32 session, .u64 t, .cstr (versionFile token), .cstr formula] ++
        if protocolVer = 2 then [.raw (List.replicate 128 0)] else []
  | authLogon status salt pubkey => some [.u32 status, .raw salt.bytes, .raw pubkey.bytes]
  | authLogonProof status proof msg =>
    some ([.u32 status, .raw proof.bytes] ++ if msg ≠ [] then [.cstr msg] else [])
  | chatEvent eventid uflag latency username text =>
    some [.u32 eventid, .u32 uflag, .u32 latency, .u32 0, .u32 0xBAADF00D, .u32 0xBAADF00D, .str username,
      .str text]
  | enterChat uname stats aname => some [.cstr uname, .cstr stats, .cstr aname]
  | friendAdd fr => fr.map fun fr => .cstr fr.username :: fr.whereabouts.fields
  | friendPosition oindex nindex => some [.u8 oindex, .u8 nindex]
  | friendRemove index => some [.u8 index]
  | friendUpdate index fr => fr.map fun fr => .u8 index :: fr.whereabouts.fields
  | friendsList user => user.map fun friends =>
    .u8 (UInt8.ofNat friends.length) :: (friends.take (friends.length % 256)).flatMap friendEntry
  | listChannel own common => some ((shown own ++ shown common).map (fun ch => .str ch.name) ++ [.u8 0])
  | null => some []
  | oldAccountChange result => some [.u32 result]
  | oldAccountCreate2 result => some [.u32 result]
  | oldAuthLogon2 result reason => some (.u32 result :: if reason ≠ [] then [.cstr reason] else [])
  | ping sid => some [.u32 sid]
  | profile token result description location clan =>
    some ([.u32 token, .u8 result] ++
      if result = 0 then [.str description, .str location, .u32 clan] else [])
  | readUserData r =>
    some ([.u32 r.acount, .u32 r.kcount, .u32 r.token] ++ r.result.flatMap fun row => row.map .str)
  | realmList2 realms =>
    some (.u32 0 :: .u32 (UInt32.ofNat realms.length) :: realms.flatMap fun x => [.u32 1, .str x.name, .str x.desc])
  | realmLogonEx r => some (packRealmLogonEx r)
  | replyFileInfo fileid filetime filename => some [.u64 fileid, .u64 filetime, .str filename]
  | replyIcon filetime filename => some [.u64 filetime, .str filename]
  | replyNews n lastTime now => some (packReplyNews n lastTime now)
  | reqEmail => some []
  | startAdvEx3 status => some [.u32 status]
  | war3Info subcmd cookie tag isLast ladder =>
    if subcmd = 2 then
      (ladder.data tag).map fun d =>
        [.u8 subcmd, .u32 cookie, .u8 1, .u32 tag, .u32 d.1, .raw d.2, .u8 (if isLast then 0 else 1)]
    else none

/-- `Build`. -/
def build (p : Packet) : Option (List Byte) := Packets.build p.cmd (p.pack.map fieldBytes)

/-- The size of the packet, with its header. -/
def size : Packet → ℕ
  | accountChange .. | authLogon .. => 72
  | accountChangeProof .. => 28
  | accountCreate .. | oldAccountChange .. | oldAccountCreate2 .. | ping .. | startAdvEx3 .. => 8
  | friendPosition .. => 6
  | friendRemove .. => 5
  | null | reqEmail => 4
  | advListEx q games => advListExSize q games
  | authCheck _ errorMsg => 9 + (cstr errorMsg).length
  | authInfo protocolVer _ _ _ formula => 40 + (cstr formula).length + if protocolVer = 2 then 128 else 0
  | authLogonProof _ _ msg => 28 + if msg ≠ [] then (cstr msg).length + 1 else 0
  | chatEvent _ _ _ username text => 30 + username.length + text.length
  | enterChat uname stats aname => 7 + (cstr uname).length + (cstr stats).length + (cstr aname).length
  | friendAdd fr => 4 + friendEntrySize fr
  | friendUpdate _ fr => 12 + ((fr.map fun fr => fr.whereabouts.locname.length).getD 0)
  | friendsList user =>
    5 + ((user.map fun fs => ((fs.take (fs.length % 256)).map friendEntrySize).sum).getD 0)
  | listChannel own common => 5 + ((shown own ++ shown common).map fun ch => ch.name.length + 1).sum
  | oldAuthLogon2 _ reason => 8 + if reason ≠ [] then (cstr reason).length + 1 else 0
  | profile _ result description location _ =>
    9 + if result = 0 then 6 + description.length + location.length else 0
  | readUserData r => 16 + r.size
  | realmList2 realms => 12 + (realms.map fun x => 6 + x.name.length + x.desc.length).sum
  | realmLogonEx r => if r.realm.isSome then 8 + ((r.user.map fun u => 69 + u.2.length).getD 4) else 12
  | replyFileInfo _ _ filename => 21 + filename.length
  | replyIcon _ filename => 13 + filename.length
  | replyNews n lastTime _ =>
    22 + (cstr n.motd).length + ((n.getAfter lastTime).map fun e => 5 + (cstr e.2).length).sum
  | war3Info _ _ tag _ ladder => 19 + (((ladder.data tag).map fun d => d.2.length).getD 0)

end Packet

/-! ### Sizes -/

@[simp] theorem fieldsSize_gameEntry (e : GameView × Endpoint) : fieldsSize (gameEntry e) = gameEntrySize e := by
  simp only [gameEntry, gameEntrySize, fieldsSize_cons, fieldsSize_nil, Field.size]
  omega

@[simp] theorem fieldsSize_whereabouts (x : Whereabouts) : fieldsSize x.fields = 7 + x.locname.length := by
  simp only [Whereabouts.fields, fieldsSize_cons, fieldsSize_nil, Field.size]
  omega

@[simp] theorem fieldsSize_friendEntry (fr : Option FriendView) :
    fieldsSize (friendEntry fr) = friendEntrySize fr := by
  rcases fr with _ | fr
  · rfl
  · simp only [friendEntry, friendEntrySize, fieldsSize_cons, fieldsSize_whereabouts, Field.size]
    omega

theorem fieldsSize_packAdvListEx (q : AdvQuery) (games : List GameView) :
    4 + fieldsSize (packAdvListEx q games) = advListExSize q games := by
  rw [packAdvListEx, advListExSize]
  by_cases hname : q.gamename = []
  · rw [if_pos hname, if_pos hname]
    dsimp only
    rw [fieldsSize_cons, fieldsSize_append, fieldsSize_flatMap fieldsSize_gameEntry, Field.size]
    split_ifs <;> simp only [fieldsSize_cons, fieldsSize_nil, Field.size] <;> omega
  · rw [if_neg hname, if_neg hname]
    rcases q.named games with code | e
    · rfl
    · exact congrArg (4 + ·) (fieldsSize_gameEntry e)

theorem fieldsSize_packRealmLogonEx (r : RealmLogon) :
    4 + fieldsSize (packRealmLogonEx r) = (Packet.realmLogonEx r).size := by
  simp only [packRealmLogonEx, Packet.size]
  rcases r.realm with _ | e
  · rfl
  rcases r.user with _ | ⟨passwd, username⟩
  · rfl
  · simp only [fieldsSize_cons, fieldsSize_nil, Field.size, List.length_replicate, Buf.length_bytes, Option.isSome_some,
      if_true, Option.map_some, Option.getD_some]
    omega

namespace Packet

theorem versionFile_length (token : UInt32) : (cstr (versionFile token)).length = 14 := by
  have hdigit : UInt8.ofNat (48 + token.toNat % 8) ≠ 0 := by
    intro h
    have := congrArg UInt8.toNat h
    rw [UInt8.toNat_ofNat', UInt8.toNat_zero] at this
    omega
  have hfree : NulFree (versionFile token) := by
    intro x hx
    rcases List.mem_append.mp hx with hx | hx
    · exact (by decide : NulFree (str "ver-ix86-")) x hx
    · rcases List.mem_cons.mp hx with rfl | hx
      · exact hdigit
      · exact (by decide : NulFree (str ".mpq")) x hx
  rw [cstr_of_nulFree hfree, versionFile, List.length_append, List.length_cons]
  rfl

/-- `Pack` appends as many bytes as the members say. -/
theorem fieldsSize_pack {p : Packet} {fs : List Field} (h : p.pack = some fs) : 4 + fieldsSize fs = p.size := by
  cases p with
  | advListEx q games =>
    cases h
    exact fieldsSize_packAdvListEx q games
  | realmLogonEx r =>
    cases h
    exact fieldsSize_packRealmLogonEx r
  | readUserData r =>
    cases h
    rw [fieldsSize_append, fieldsSize_flatMap (fieldsSize_map fun _ => rfl)]
    simp only [fieldsSize_cons, fieldsSize_nil, Field.size, size, UserDataReply.size]
    omega
  | authInfo protocolVer token session filetime formula =>
    obtain ⟨t, -, rfl⟩ := Option.map_eq_some_iff.mp h
    have hname := versionFile_length token
    simp only [fieldsSize_append, fieldsSize_ite, fieldsSize_cons, fieldsSize_nil, Field.size, size, hname,
      List.length_replicate]
    split_ifs <;> omega
  | authLogonProof status proof msg =>
    cases h
    simp only [size, fieldsSize_append, fieldsSize_ite, fieldsSize_cons, fieldsSize_nil, Field.size,
      Buf.length_bytes]
    split_ifs <;> omega
  | oldAuthLogon2 result reason =>
    cases h
    simp only [size, fieldsSize_ite, fieldsSize_cons, fieldsSize_nil, Field.size]
    split_ifs <;> omega
  | profile token result description location clan =>
    cases h
    simp only [size, fieldsSize_append, fieldsSize_ite, fieldsSize_cons, fieldsSize_nil, Field.size]
    split_ifs <;> omega
  | friendAdd fr =>
    obtain ⟨fr, rfl, rfl⟩ := Option.map_eq_some_iff.mp h
    exact congrArg (4 + ·) (fieldsSize_friendEntry (some fr))
  | friendUpdate index fr =>
    obtain ⟨fr, rfl, rfl⟩ := Option.map_eq_some_iff.mp h
    simp [size, Field.size]
    omega
  | friendsList user =>
    obtain ⟨friends, rfl, rfl⟩ := Option.map_eq_some_iff.mp h
    rw [fieldsSize_cons, fieldsSize_flatMap fieldsSize_friendEntry]
    simp only [Field.size, size, Option.map_some, Option.getD_some]
    omega
  | listChannel own common =>
    cases h
    rw [fieldsSize_append, fieldsSize_map fun _ => rfl]
    simp only [fieldsSize_cons, fieldsSize_nil, Field.size, size]
    omega
  | realmList2 realms =>
    cases h
    have hentry : ∀ x : RealmView,
        fieldsSize [.u32 1, .str x.name, .str x.desc] = 6 + x.name.length + x.desc.length := by
      intro x
      simp only [fieldsSize_cons, fieldsSize_nil, Field.size]
      omega
    rw [fieldsSize_cons, fieldsSize_cons, fieldsSize_flatMap hentry]
    simp only [Field.size, size]
    omega
  | replyNews n lastTime now =>
    cases h
    have hentry : ∀ e : UInt32 × Text, fieldsSize [.u32 e.1, .cstr e.2] = 5 + (cstr e.2).length := by
      intro e
      simp only [fieldsSize_cons, fieldsSize_nil, Field.size]
      omega
    rw [packReplyNews, fieldsSize_append, fieldsSize_flatMap hentry]
    simp only [fieldsSize_cons, fieldsSize_nil, Field.size, size]
    omega
  | war3Info subcmd cookie tag isLast ladder =>
    by_cases hsub : subcmd = 2
    · rw [pack, if_pos hsub] at h
      obtain ⟨d, hd, rfl⟩ := Option.map_eq_some_iff.mp h
      simp only [fieldsSize_cons, fieldsSize_nil, Field.size, size, hd, Option.map_some, Option.getD_some]
      omega
    · rw [pack, if_neg hsub] at h
      cases h
  | _ =>
    -- the packets without a branch
    cases h
    simp only [fieldsSize_cons, fieldsSize_nil, Field.size, size, Buf.length_bytes] <;> omega

/-- What `Build` returns has the size its members say, and carries it as far as 16 bits go. -/
theorem build_eq_some {p : Packet} {bs : List Byte} (h : p.build = some bs) :
    p.pack.isSome ∧ bs.length = p.size ∧
      (Suite.header .bnetLoggedIn bs).psize = p.size % 65536 := by
  rw [build, Packets.build, Option.map_map, Option.map_eq_some_iff] at h
  obtain ⟨fs, hfs, rfl⟩ := h
  have hsize := fieldsSize_pack hfs
  rw [Function.comp_apply, length_putSize, header_putSize, length_fieldBytes, hsize, hfs]
  exact ⟨rfl, rfl, rfl⟩

/-- The length field is the number of bytes that are sent. -/
def Delimited (p : Packet) : Prop :=
  ∀ bs, p.build = some bs → (Suite.header .bnetLoggedIn bs).psize = bs.length

theorem Delimited.size_lt {p : Packet} (h : p.Delimited) {fs : List Field} (hp : p.pack = some fs) :
    p.size < 65536 := by
  have hbuild : p.build = some (putSize (toLE 4 p.cmd.toNat ++ fieldBytes fs)) := by
    rw [build, hp]
    rfl
  obtain ⟨-, hlen, hpsize⟩ := build_eq_some hbuild
  have hfield := h _ hbuild
  rw [hlen, hpsize] at hfield
  omega

/-- **Which packets the receiver can find the end of.** -/
theorem delimited_iff (p : Packet) : p.Delimited ↔ p.pack = none ∨ p.size < 65536 := by
  constructor
  · intro h
    rcases hp : p.pack with _ | fs
    · exact .inl rfl
    · exact .inr (h.size_lt hp)
  · intro h bs hbs
    obtain ⟨hsome, hlen, hpsize⟩ := build_eq_some hbs
    rcases h with hnone | hlt
    · rw [hnone] at hsome
      cases hsome
    · rw [hlen, hpsize, Nat.mod_eq_of_lt hlt]

end Packet

end Blitzd.Packets
