import Blitzd.Cache.FileCache
import Blitzd.Lib.Run
import Blitzd.Plugins.ReadUserData

/-! # Requests for files (`FileReq`, `RawReq`, `QueryFileInfo`)

Three handlers take a name out of a packet and look it up in the cache of files, all of them before any
login. The name may be any text without a zero byte (`exists_payload`) and nothing looks at its dots, so
`../BlitzD.xml` is answered with the server's own configuration (`config_is_sent`).

`safe_iff` says which requests of a run are answered as they should be: those whose name stays inside `FilesDir`
and for which no file was opened that is longer than a `uint` can say (and, in theory, whose length is one of an
`int`). -/

namespace Blitzd.Plugins.FileReq

open Blitzd.Lib Blitzd.Lib.Bytes Blitzd.Lib.KeyMap Blitzd.Utils Blitzd.Utils.CString
open Blitzd.Cache.FileCache Blitzd.Plugins.ReadUserData

/-! ### The handlers -/

/-- What the locals and the members of the packets held before they are read. -/
structure Junk where
  plat : Buf 4
  prod : Buf 4
  adid : Buf 4
  extag : Buf 4
  offset : Buf 4
  ft : Buf 8
  fileid : Buf 8

/-- `in >> x` for a `uint64` that held `junk`. -/
def readUInt64 (s : Stream) (junk : Buf 8) : UInt64 × Stream :=
  let r := s.readBuf junk
  (UInt64.ofNat (ofLE r.1.bytes), r.2)

/-- The packet as `FileReq` reads it. -/
def fileReq (junk : Junk) (payload : List Byte) : FileHeader :=
  let plat := readUInt (Stream.ofBytes payload) junk.plat
  let prod := readUInt plat.2 junk.prod
  let adid := readUInt prod.2 junk.adid
  let extag := readUInt adid.2 junk.extag
  let offset := readUInt extag.2 junk.offset
  let ft := readUInt64 offset.2 junk.ft
  ⟨ft.2.readStr.1, adid.1, extag.1, offset.1⟩

/-- The packet as `RawReq` reads it. -/
def rawReq (junk : Junk) (payload : List Byte) : FileHeader :=
  let offset := readUInt (Stream.ofBytes payload) junk.offset
  let ft := readUInt64 offset.2 junk.ft
  ⟨(ft.2.skip 40).readStr.1, 0, 0, offset.1⟩

/-- The number and the name as `QueryFileInfo` reads them. -/
def queryFileInfo (junk : Junk) (payload : List Byte) : UInt64 × Text :=
  let fileid := readUInt64 (Stream.ofBytes payload) junk.fileid
  (fileid.1, fileid.2.readStr.1)

inductive Kind
  | fileReq
  | rawReq
  | queryFileInfo
deriving DecidableEq

/-- A packet for one of the handlers, and the disk when it is handled. -/
structure Request where
  kind : Kind
  payload : List Byte
  junk : Junk
  disk : Disk

/-- What a packet asks for: a file from an offset on, or the time of a file. -/
inductive Asked
  | file (p : FileHeader)
  | info (fileid : UInt64) (filename : Text)

def Asked.name : Asked → Text
  | file p => p.fileName
  | info _ filename => filename

def Request.asked (r : Request) : Asked :=
  match r.kind with
  | .fileReq => .file (fileReq r.junk r.payload)
  | .rawReq => .file (rawReq r.junk r.payload)
  | .queryFileInfo =>
    let q := queryFileInfo r.junk r.payload
    .info q.1 q.2

def Request.name (r : Request) : Text := r.asked.name

inductive Reply
  | file (b : List Byte)
  | info (p : Packets.Packet)

/-- What a handler returns, sends and leaves in the cache; `fault` if it did what the language does not define. -/
structure Outcome where
  ret : Bool
  sent : Option Reply
  fault : Bool
  cache : CacheMap

/-- `Process` of the three handlers. -/
def process (dir : Name) (m : CacheMap) (r : Request) : Outcome :=
  match r.asked with
  | .file p =>
    let b := p.build dir r.disk m
    match b.1 with
    | .refused => ⟨true, none, false, b.2⟩
    | .packet packet => ⟨true, some (.file packet), false, b.2⟩
    | .fault => ⟨true, none, true, b.2⟩
  | .info fileid filename =>
    let ptr := get dir r.disk m filename
    match ptr.1 with
    | none => ⟨false, none, false, ptr.2⟩
    | some p => ⟨true, some (.info (.replyFileInfo fileid p.fileTime filename)), false, ptr.2⟩

/-! ### Any name can be sent -/

theorem readUInt64_after (l r : List Byte) (x : UInt64) (junk : Buf 8) :
    readUInt64 (.after l (toLE 8 x.toNat ++ r)) junk = (x, .after (l ++ toLE 8 x.toNat) r) := by
  have hval : ofLE (leBuf 8 x.toNat).bytes = x.toNat := ofLE_toLE_of_lt x.toNat_lt
  rw [readUInt64, show toLE 8 x.toNat = (leBuf 8 x.toNat).bytes from rfl, Stream.readBuf_after, hval, UInt64.ofNat_toNat]

variable (junk : Junk) {name : Text}

/-- **A packet of `FileReq` is read back.** -/
theorem fileReq_eq (plat prod adid extag offset : UInt32) (ft : UInt64) (hname : NulFree name) :
    fileReq junk (toLE 4 plat.toNat ++ (toLE 4 prod.toNat ++ (toLE 4 adid.toNat ++ (toLE 4 extag.toNat ++
      (toLE 4 offset.toNat ++ (toLE 8 ft.toNat ++ (name ++ [0] ++ []))))))) = ⟨name, adid, extag, offset⟩ := by
  unfold fileReq
  simp only [Stream.ofBytes_eq, readUInt_after, readUInt64_after, Stream.readStr_after _ _ hname]

/-- **A packet of `RawReq` is read back.** -/
theorem rawReq_eq (offset : UInt32) (ft : UInt64) {skipped : List Byte} (hskipped : skipped.length = 40)
    (hname : NulFree name) :
    rawReq junk (toLE 4 offset.toNat ++ (toLE 8 ft.toNat ++ (skipped ++ (name ++ [0] ++ [])))) =
      ⟨name, 0, 0, offset⟩ := by
  unfold rawReq
  simp only [Stream.ofBytes_eq, readUInt_after, readUInt64_after, Stream.skip_after _ _ hskipped,
    Stream.readStr_after _ _ hname]

/-- **A packet of `QueryFileInfo` is read back.** -/
theorem queryFileInfo_eq (fileid : UInt64) (hname : NulFree name) :
    queryFileInfo junk (toLE 8 fileid.toNat ++ (name ++ [0] ++ [])) = (fileid, name) := by
  unfold queryFileInfo
  simp only [Stream.ofBytes_eq, readUInt64_after, Stream.readStr_after _ _ hname]

/-- **Any name can be sent** to each of the handlers. -/
theorem exists_payload (kind : Kind) (name : Name) :
    ∃ payload, ∀ junk disk, (Request.mk kind payload junk disk).name = name.1 := by
  cases kind with
  | fileReq => exact ⟨_, fun junk _ => congrArg FileHeader.fileName (fileReq_eq junk 0 0 0 0 0 0 name.2)⟩
  | rawReq =>
    have hzeros : (List.replicate 40 (0 : Byte)).length = 40 := List.length_replicate
    exact ⟨_, fun junk _ => congrArg FileHeader.fileName (rawReq_eq junk 0 0 hzeros name.2)⟩
  | queryFileInfo => exact ⟨_, fun junk _ => congrArg Prod.snd (queryFileInfo_eq junk 0 name.2)⟩

/-- And no other. -/
theorem nulFree_name (r : Request) : NulFree r.name := by
  have hread : ∀ s : Stream, NulFree s.readStr.1 := fun _ _ => Stream.readStr_ne_zero
  obtain ⟨kind, payload, junk, disk⟩ := r
  cases kind with
  | fileReq =>
    show NulFree (fileReq junk payload).fileName
    unfold fileReq
    dsimp only
    exact hread _
  | rawReq =>
    show NulFree (rawReq junk payload).fileName
    unfold rawReq
    dsimp only
    exact hread _
  | queryFileInfo =>
    show NulFree (queryFileInfo junk payload).2
    unfold queryFileInfo
    dsimp only
    exact hread _

/-! ### Runs -/

def step (dir : Name) (m : CacheMap) (r : Request) (m' : CacheMap) : Prop := m' = (process dir m r).cache

/-- The names looked up in a run, and the disk at each of these times. -/
def lookups (h : List (Entry CacheMap Request)) : List (Text × Disk) := h.map fun x => (x.event.name, x.event.disk)

variable {dir : Name} {m : CacheMap} {h : List (Text × Disk)}

/-- The cache after a request is the cache after its lookup. -/
theorem cache_process (dir : Name) (m : CacheMap) (r : Request) :
    (process dir m r).cache = (get dir r.disk m r.name).2 := by
  unfold process Request.name
  cases r.asked with
  | file p =>
    show (match p.built (get dir r.disk m p.fileName).1 with | .refused => _ | .packet _ => _ | .fault => _ :
      Outcome).cache = (get dir r.disk m p.fileName).2
    split <;> rfl
  | info fileid filename =>
    show (match (get dir r.disk m filename).1 with | none => _ | some p => _ : Outcome).cache =
      (get dir r.disk m filename).2
    split <;> rfl

/-- **What a request for a file is answered with**: the data of the file that its name first opened, from an
offset inside it, unless the packet cannot be made. -/
theorem process_file (hm : Mirrors dir m h) {r : Request} {p : FileHeader} (hp : r.asked = .file p) :
    (∀ b, (process dir m r).sent = some (.file b) ↔
      ∃ f, firstOpened dir ((r.name, r.disk) :: h) r.name = some f ∧ p.offset.toNat < f.size.toUInt32.toNat ∧
        p.pack (.ofFile f) = some b) ∧
    ((process dir m r).fault = true ↔
      ∃ f, firstOpened dir ((r.name, r.disk) :: h) r.name = some f ∧ p.offset.toNat < f.size.toUInt32.toNat ∧
        p.pack (.ofFile f) = none) := by
  have hname : r.name = p.fileName := congrArg Asked.name hp
  have hget := (get_mirrors hm r.disk p.fileName).1
  have hbuild : (p.build dir r.disk m).1 = p.built ((firstOpened dir ((r.name, r.disk) :: h) r.name).map .ofFile) := by
    rw [hname, ← hget]
    rfl
  unfold process
  rw [hp]
  dsimp only
  rw [hbuild]
  rcases firstOpened dir ((r.name, r.disk) :: h) r.name with _ | f
  · simp [FileHeader.built]
  · rw [Option.map_some, FileHeader.built_ofFile]
    simp only [Option.some_inj, exists_eq_left']
    by_cases hoffset : p.offset.toNat < f.size.toUInt32.toNat
    · rw [if_pos hoffset]
      simp only [hoffset, true_and]
      rcases p.pack (.ofFile f) with _ | b <;> simp
    · rw [if_neg hoffset]
      simp only [hoffset, false_and]
      simp

theorem run_mirrors {h : List (Entry CacheMap Request)} (hrun : Run (step dir) [] h m) :
    Mirrors dir m (lookups h) := by
  induction hrun with
  | nil => exact mirrors_nil dir
  | snoc hrun hstep ih =>
    rename_i h m m' r
    have hcache : m' = (get dir r.disk m r.name).2 := hstep.trans (cache_process dir m r)
    rw [hcache]
    exact (get_mirrors ih r.disk r.name).2

/-! ### Which requests are safe -/

/-- What is expected of the last request of a run: its path leads to `FilesDir` or below it, and what is sent
of a file is the rest of the one that was opened, behind a header with both lengths. -/
structure Safe (cwd : List Text) (dir : Name) (h : List (Entry CacheMap Request)) (x : Entry CacheMap Request) :
    Prop where
  inside : Inside cwd dir (cstr (path dir x.event.name))
  defined : (process dir x.before x.event).fault = false
  framed : ∀ p b, x.event.asked = .file p → (process dir x.before x.event).sent = some (.file b) →
    ∃ f, firstOpened dir (lookups (x :: h)) x.event.name = some f ∧ Frames (f.bytes.drop p.offset.toNat) b

/-- The requests for which it holds. -/
structure Harmless (cwd : List Text) (dir : Name) (h : List (Entry CacheMap Request)) (x : Entry CacheMap Request) :
    Prop where
  stays : Stays cwd dir x.event.name
  whole : ∀ p f, x.event.asked = .file p → firstOpened dir (lookups (x :: h)) x.event.name = some f →
    p.offset.toNat < f.size.toUInt32.toNat → f.Whole ∧ -1 ≤ StreamOps.strlen x.event.name

/-- **The requests that are safe**: in every run, whatever the disk holds at each request, those with a name
that stays inside `FilesDir` and a file, if a part of it is sent, that was read whole. -/
theorem safe_iff (cwd : List Text) (dir : Name) {h : List (Entry CacheMap Request)} {x : Entry CacheMap Request}
    {m : CacheMap} (hrun : Run (step dir) [] (x :: h) m) : Safe cwd dir h x ↔ Harmless cwd dir h x := by
  obtain ⟨before, r, after⟩ := x
  have hname := nulFree_name r
  have hm : Mirrors dir before (lookups h) := by
    cases hrun with
    | snoc hrun _ => exact run_mirrors hrun
  constructor
  · rintro ⟨hinside, hdefined, hframed⟩
    refine ⟨(inside_iff cwd dir hname).mp hinside, fun p f hp hf hoffset => ?_⟩
    have hpname : r.name = p.fileName := congrArg Asked.name hp
    obtain ⟨hsent, hfault⟩ := process_file hm hp
    rcases hpack : p.pack (.ofFile f) with _ | b
    · have : (process dir before r).fault = true := hfault.mpr ⟨f, hf, hoffset, hpack⟩
      rw [show (process dir before r).fault = false from hdefined] at this
      cases this
    · obtain ⟨f', hf', hframes⟩ := hframed p b hp ((hsent b).mpr ⟨f, hf, hoffset, hpack⟩)
      obtain rfl : f = f' := Option.some.inj (hf.symm.trans hf')
      have hiff := frames_pack_iff (hpname ▸ hname) hoffset
      rw [← hpname] at hiff
      exact hiff.mp ⟨b, hpack, hframes⟩
  · rintro ⟨hstays, hwhole⟩
    -- a file that something is to be sent of gives a packet
    have hpacket : ∀ p f, r.asked = .file p → firstOpened dir ((r.name, r.disk) :: lookups h) r.name = some f →
        p.offset.toNat < f.size.toUInt32.toNat →
          ∃ b, p.pack (.ofFile f) = some b ∧ Frames (f.bytes.drop p.offset.toNat) b := by
      intro p f hp hf hoffset
      have hpname : r.name = p.fileName := congrArg Asked.name hp
      rw [frames_pack_iff (hpname ▸ hname) hoffset, ← hpname]
      exact hwhole p f hp hf hoffset
    refine ⟨(inside_iff cwd dir hname).mpr hstays, ?_, fun p b hp hsent => ?_⟩
    · show (process dir before r).fault = false
      rcases hasked : r.asked with p | ⟨fileid, filename⟩
      · refine eq_false_of_ne_true fun hfault => ?_
        obtain ⟨f, hf, hoffset, hnone⟩ := (process_file hm hasked).2.mp hfault
        obtain ⟨b, hb, -⟩ := hpacket p f hasked hf hoffset
        rw [hnone] at hb
        cases hb
      · unfold process
        rw [hasked]
        dsimp only
        split <;> rfl
    · obtain ⟨f, hf, hoffset, hpack⟩ := ((process_file hm hp).1 b).mp hsent
      obtain ⟨b', hb', hframes⟩ := hpacket p f hp hf hoffset
      obtain rfl : b = b' := Option.some.inj (hpack.symm.trans hb')
      exact ⟨f, hf, hframes⟩

/-! ### The configuration of the server -/

/-- The default `FilesDir`. -/
def filesDir : Name := ⟨str "files", by decide⟩

def noJunk : Junk := ⟨.zero 4, .zero 4, .zero 4, .zero 4, .zero 4, .zero 8, .zero 8⟩

/-- The packet of `FileReq` for a name and an offset. -/
def fileReqPacket (offset : UInt32) (name : Text) : List Byte :=
  List.replicate 16 0 ++ toLE 4 offset.toNat ++ List.replicate 8 0 ++ (name ++ [0])

/-- A server in `srv` with an icon file, and its configuration beside the directory of the files. -/
def srvDisk : Disk := fun p =>
  if p = str "files/icons.bni" then some ⟨3, [7, 8, 9], 0⟩
  else if p = str "files/../BlitzD.xml" then some ⟨9, str "<blitzd/>", 0⟩
  else none

def srvRequest (name : Text) (offset : UInt32) : Request := ⟨.fileReq, fileReqPacket offset name, noJunk, srvDisk⟩

/-- A request to a server that has just been started. -/
def firstEntry (dir : Name) (r : Request) : Entry CacheMap Request := ⟨[], r, (process dir [] r).cache⟩

theorem run_firstEntry (dir : Name) (r : Request) : Run (step dir) [] [firstEntry dir r] (firstEntry dir r).after :=
  .snoc .nil rfl

theorem safe_icons : Safe [str "srv"] filesDir [] (firstEntry filesDir (srvRequest (str "icons.bni") 1)) := by
  have hstays := stays_of_no_up [str "srv"] (by decide : filesDir.1 ≠ [])
    (by decide +kernel : [dot, dot] ∉ (srvRequest (str "icons.bni") 1).name.splitOn slash)
  refine (safe_iff _ filesDir (run_firstEntry filesDir _)).mpr ⟨hstays, fun p f hp hf _ => ?_⟩
  have hopened : firstOpened filesDir (lookups [firstEntry filesDir (srvRequest (str "icons.bni") 1)])
      (srvRequest (str "icons.bni") 1).name = some ⟨3, [7, 8, 9], 0⟩ := by decide +kernel
  cases hopened.symm.trans hf
  exact ⟨by decide, by decide +kernel⟩

/-- **The server sends its configuration**: the path of `../BlitzD.xml` leads out of `FilesDir`. -/
theorem config_is_sent :
    Run (step filesDir) [] [firstEntry filesDir (srvRequest (str "../BlitzD.xml") 0)]
        (firstEntry filesDir (srvRequest (str "../BlitzD.xml") 0)).after ∧
      ¬ Safe [str "srv"] filesDir [] (firstEntry filesDir (srvRequest (str "../BlitzD.xml") 0)) ∧
      (process filesDir [] (srvRequest (str "../BlitzD.xml") 0)).sent =
        some (.file (toLE 4 38 ++ toLE 4 9 ++ List.replicate 16 0 ++ (str "../BlitzD.xml" ++ [0]) ++
          str "<blitzd/>")) := by
  refine ⟨run_firstEntry _ _, fun hsafe => absurd hsafe.inside (by decide +kernel), ?_⟩
  exact ((process_file (mirrors_nil filesDir) rfl).1 _).mpr
    ⟨⟨9, str "<blitzd/>", 0⟩, by decide +kernel, by decide +kernel, by decide +kernel⟩

end Blitzd.Plugins.FileReq
