import Blitzd.Lib.KeyMap
import Blitzd.Lib.Path
import Blitzd.Utils.StreamOps

/-! # The cache of files (`FileCache`) and the packet that sends one (`FileHeader`)

A file is asked for by a name that is put behind `FilesDir` and a slash, and kept under the name as it was
sent. What the cache holds is told by the names asked for so far and the disk at each of these times:
under a name it has the file that the first successful open of its path found (`Mirrors`, `get_mirrors`).

`inside_iff` says which names lead to `FilesDir` or below it, and `frames_pack_iff` when a packet is the rest of
the file behind a header that gives both lengths. -/

namespace Blitzd.Cache.FileCache

open Blitzd.Lib.Bytes Blitzd.Lib.KeyMap Blitzd.Lib.Path Blitzd.Utils Blitzd.Utils.CString

/-! ### The cache -/

/-- A file that was opened: `Size()`, what can be read from it, and its time as a `FILETIME`. -/
structure OpenFile where
  size : UInt64
  bytes : List Byte
  fileTime : UInt64
deriving DecidableEq

/-- The files that can be opened, by the path given to `fopen`. -/
abbrev Disk := Text → Option OpenFile

structure FileCacheItem where
  data : List Byte
  fileTime : UInt64

/-- `FileCacheItem(fs)`: zeros, and `Read` over them. -/
def FileCacheItem.ofFile (f : OpenFile) : FileCacheItem :=
  ⟨((Buf.zero f.size.toUInt32.toNat).fill f.bytes).bytes, f.fileTime⟩

/-- `GetSize`. -/
def FileCacheItem.getSize (p : FileCacheItem) : UInt32 := UInt32.ofNat p.data.length

abbrev CacheMap := List (Text × FileCacheItem)

def slash : Byte := 47

def dot : Byte := 46

/-- `GetFilesDir() + '/' + filename`. -/
def path (dir : Name) (filename : Text) : Text := dir.1 ++ slash :: filename

/-- `FileCacheItem::Load`. -/
def load (disk : Disk) (n : Text) : Option FileCacheItem := (disk (cstr n)).map .ofFile

/-- `FetchFile`. -/
def fetchFile (dir : Name) (disk : Disk) (m : CacheMap) (filename : Text) : Option FileCacheItem × CacheMap :=
  match load disk (path dir filename) with
  | none => (none, m)
  | some p => (some p, insert .ofEq m filename p)

/-- `operator[]`. -/
def get (dir : Name) (disk : Disk) (m : CacheMap) (fn : Text) : Option FileCacheItem × CacheMap :=
  match find .ofEq m fn with
  | none => fetchFile dir disk m fn
  | some p => (some p, m)

/-! ### What the cache holds -/

/-- The file that the first successful open for `name` found, of the names asked for so far, the last one first. -/
def firstOpened (dir : Name) : List (Text × Disk) → Text → Option OpenFile
  | [], _ => none
  | (fn, disk) :: h, name =>
    (firstOpened dir h name).or (if fn = name then disk (cstr (path dir name)) else none)

/-- The cache has these files. -/
def Mirrors (dir : Name) (m : CacheMap) (h : List (Text × Disk)) : Prop :=
  ∀ name, find .ofEq m name = (firstOpened dir h name).map .ofFile

variable {dir : Name} {disk : Disk} {m : CacheMap} {h : List (Text × Disk)}

theorem mirrors_nil (dir : Name) : Mirrors dir [] [] := fun _ => rfl

theorem firstOpened_cons_ne {fn name : Text} (hne : fn ≠ name) :
    firstOpened dir ((fn, disk) :: h) name = firstOpened dir h name := by
  rw [firstOpened, if_neg hne, Option.or_none]

/-- A lookup changes nothing under other names. -/
theorem Mirrors.cons {m' : CacheMap} {fn : Text} (hm : Mirrors dir m h)
    (hself : find .ofEq m' fn = (firstOpened dir ((fn, disk) :: h) fn).map .ofFile)
    (hother : ∀ name, fn ≠ name → find .ofEq m' name = find .ofEq m name) : Mirrors dir m' ((fn, disk) :: h) := by
  intro name
  by_cases hname : fn = name
  · rw [← hname, hself]
  · rw [hother name hname, firstOpened_cons_ne hname, hm name]

/-- **A lookup gives what the first open found**, and the cache keeps it. -/
theorem get_mirrors (hm : Mirrors dir m h) (disk : Disk) (fn : Text) :
    (get dir disk m fn).1 = (firstOpened dir ((fn, disk) :: h) fn).map .ofFile ∧
      Mirrors dir (get dir disk m fn).2 ((fn, disk) :: h) := by
  have hfirst : firstOpened dir ((fn, disk) :: h) fn = (firstOpened dir h fn).or (disk (cstr (path dir fn))) := by
    rw [firstOpened, if_pos rfl]
  have hfn := hm fn
  unfold get
  rcases hold : firstOpened dir h fn with _ | f
  · rw [hold, Option.map_none] at hfn
    rw [hold, Option.none_or] at hfirst
    rw [hfn]
    dsimp only
    unfold fetchFile load
    rcases hdisk : disk (cstr (path dir fn)) with _ | f
    · have hnone : firstOpened dir ((fn, disk) :: h) fn = none := hfirst.trans hdisk
      refine ⟨by rw [hnone]; rfl, hm.cons ?_ fun _ _ => rfl⟩
      rw [hnone]
      exact hfn
    · have hsome : firstOpened dir ((fn, disk) :: h) fn = some f := hfirst.trans hdisk
      refine ⟨by rw [hsome]; rfl, hm.cons ?_ fun name hname => ?_⟩
      · rw [hsome]
        exact find_insert_of_eqv (decide_eq_true rfl) _ m
      · exact find_insert_of_ne (decide_eq_false hname) _ m
  · rw [hold, Option.map_some] at hfn
    rw [hold, Option.some_or] at hfirst
    rw [hfn]
    refine ⟨by rw [hfirst]; rfl, hm.cons ?_ fun _ _ => rfl⟩
    rw [hfirst]
    exact hfn

/-! ### Where the names lead -/

/-- The path leads to `FilesDir` or below it, for a server that works in `cwd`. -/
def Inside (cwd : List Text) (dir : Name) (p : Text) : Prop :=
  resolve slash dot cwd dir.1 <+: resolve slash dot cwd p

instance (cwd : List Text) (dir : Name) (p : Text) : Decidable (Inside cwd dir p) :=
  inferInstanceAs (Decidable (_ <+: _))

/-- The name goes down by the directories it has climbed over. Behind an empty `FilesDir` the slash makes it
a path from the root. -/
def Stays (cwd : List Text) (dir : Name) (name : Text) : Prop :=
  let t := trail (steps slash dot name)
  let d := resolve slash dot cwd dir.1
  if dir.1 = [] then d <+: t.names else d.drop (d.length - t.ups) <+: t.names

instance (cwd : List Text) (dir : Name) (name : Text) : Decidable (Stays cwd dir name) := by
  unfold Stays
  infer_instance

/-- **The names that stay inside.** -/
theorem inside_iff (cwd : List Text) (dir : Name) {name : Text} (hname : NulFree name) :
    Inside cwd dir (cstr (path dir name)) ↔ Stays cwd dir name := by
  have hslash : NulFree (slash :: name) := by
    rintro x (_ | ⟨_, hx⟩)
    · decide
    · exact hname x hx
  have hpath : cstr (path dir name) = dir.1 ++ slash :: name := cstr_of_nulFree (dir.2.append hslash)
  unfold Inside Stays
  rw [hpath]
  dsimp only
  split_ifs with hdir
  · rw [hdir, List.nil_append, resolve_cons, walk_eq, Trail.follow_nil]
  · rw [resolve_append slash dot cwd hdir, prefix_walk_iff]

/-- A name without `..` stays inside. -/
theorem stays_of_no_up (cwd : List Text) {dir : Name} (hdir : dir.1 ≠ []) {name : Text}
    (h : [dot, dot] ∉ name.splitOn slash) : Stays cwd dir name := by
  have hup : ∀ x ∈ steps slash dot name, x ≠ .up := by
    intro x hx hxup
    obtain ⟨c, hc, rfl⟩ := List.mem_map.mp hx
    unfold step at hxup
    split_ifs at hxup with _ hc2
    exact h (hc2 ▸ hc)
  unfold Stays
  dsimp only
  rw [if_neg hdir, trail_ups_eq_zero hup, Nat.sub_zero, List.drop_length]
  exact List.nil_prefix

/-! ### The packet -/

structure FileHeader where
  fileName : Text
  adid : UInt32
  extag : UInt32
  offset : UInt32

namespace FileHeader

/-- The packet with the file: the header, its size over the first word, and the data. The name is inserted as a
`const char *`, which goes wrong for some lengths. -/
def pack (p : FileHeader) (ptr : FileCacheItem) : Option (List Byte) := do
  let name ← StreamOps.cstringBytes (cstr p.fileName)
  let packet := toLE 4 0 ++ toLE 4 (ptr.getSize - p.offset).toNat ++ toLE 4 p.adid.toNat ++ toLE 4 p.extag.toNat ++
    toLE 8 ptr.fileTime.toNat ++ name
  return toLE 4 packet.length ++ packet.drop 4 ++ ptr.data.drop p.offset.toNat

/-- What `Build` ends with. -/
inductive Built
  | refused
  | packet (b : List Byte)
  | fault

/-- `Build` with what is in the cache; `refused` is `false`. -/
def built (p : FileHeader) : Option FileCacheItem → Built
  | none => .refused
  | some ptr =>
    if ptr.data.length = 0 ∨ p.offset.toNat ≥ ptr.data.length then .refused
    else
      match p.pack ptr with
      | none => .fault
      | some b => .packet b

/-- `Build`. -/
def build (dir : Name) (disk : Disk) (m : CacheMap) (p : FileHeader) : Built × CacheMap :=
  let r := get dir disk m p.fileName
  (p.built r.1, r.2)

end FileHeader

/-- The bytes are a header and `suffix`, and the first words of the header are the two lengths. -/
def Frames (suffix b : List Byte) : Prop :=
  ∃ header, 8 ≤ header.length ∧ b = header ++ suffix ∧
    ofLE (header.take 4) = header.length ∧ ofLE ((header.drop 4).take 4) = suffix.length

theorem frames_iff {rest data : List Byte} (hdata : data.length < 2 ^ 32) (suffix : List Byte) :
    Frames suffix (toLE 4 (8 + rest.length) ++ toLE 4 data.length ++ rest ++ data) ↔
      8 + rest.length < 2 ^ 32 ∧ suffix = data := by
  have hfour : ∀ n, (toLE 4 n).length = 4 := length_toLE 4
  set n := 8 + rest.length with hn
  have hword : ofLE (toLE 4 data.length) = data.length := ofLE_toLE_of_lt hdata
  constructor
  · rintro ⟨header, hlen, heq, hfirst, hsecond⟩
    -- both words can be read off the bytes, so the header has its length and ends where it should
    have htake : header.take 4 = toLE 4 n := by
      have happend : (header ++ suffix).take 4 = header.take 4 := List.take_append_of_le_length (by omega)
      rw [← happend, ← heq]
      rfl
    have hdrop : (header.drop 4).take 4 = toLE 4 data.length := by
      have hle : 4 ≤ (header.drop 4).length := by
        rw [List.length_drop]
        omega
      have happend : ((header ++ suffix).drop 4).take 4 = (header.drop 4).take 4 := by
        rw [List.drop_append_of_le_length (by omega), List.take_append_of_le_length hle]
      rw [← happend, ← heq]
      rfl
    rw [htake, ofLE_toLE] at hfirst
    rw [hdrop, hword] at hsecond
    obtain ⟨hheader, hsuffix⟩ := List.append_inj' heq hsecond
    have hheaderLen := congrArg List.length hheader
    rw [List.length_append, List.length_append, hfour, hfour] at hheaderLen
    refine ⟨?_, hsuffix.symm⟩
    have hmod := Nat.mod_lt n (by decide : 0 < 256 ^ 4)
    omega
  · rintro ⟨hlt, rfl⟩
    refine ⟨toLE 4 n ++ toLE 4 suffix.length ++ rest, ?_, rfl, ?_, hword⟩
    · rw [List.length_append, List.length_append, hfour, hfour]
      omega
    · rw [List.length_append, List.length_append, hfour, hfour]
      exact ofLE_toLE_of_lt (w := 4) hlt

/-- The whole file was read: its size is that of a `uint`, and there were as many bytes. -/
def OpenFile.Whole (f : OpenFile) : Prop := f.size.toUInt32.toNat = f.bytes.length

instance (f : OpenFile) : Decidable f.Whole := inferInstanceAs (Decidable (_ = _))

theorem length_ofFile (f : OpenFile) : (FileCacheItem.ofFile f).data.length = f.size.toUInt32.toNat := Buf.length_bytes _

theorem OpenFile.Whole.data_eq {f : OpenFile} (hf : f.Whole) : (FileCacheItem.ofFile f).data = f.bytes := by
  have hle : f.size.toUInt32.toNat ≤ f.bytes.length := le_of_eq hf
  rw [FileCacheItem.ofFile, Buf.fill_bytes_of_ge _ hle, hf, List.take_length]

/-- The rest of the data behind a place in it is that of the file exactly when the whole file was read. -/
theorem drop_ofFile_iff {f : OpenFile} {k : ℕ} (hk : k < f.size.toUInt32.toNat) :
    f.bytes.drop k = (FileCacheItem.ofFile f).data.drop k ↔ f.Whole := by
  refine ⟨fun heq => ?_, fun hf => by rw [hf.data_eq]⟩
  have hlen := congrArg List.length heq
  rw [List.length_drop, List.length_drop, length_ofFile] at hlen
  unfold OpenFile.Whole
  omega

/-- What follows the two lengths in the header. -/
def FileHeader.rest (p : FileHeader) (ptr : FileCacheItem) (name : List Byte) : List Byte :=
  toLE 4 p.adid.toNat ++ toLE 4 p.extag.toNat ++ toLE 8 ptr.fileTime.toNat ++ name

theorem FileHeader.pack_eq {p : FileHeader} (hname : NulFree p.fileName) {name : List Byte}
    (h : StreamOps.cstringBytes p.fileName = some name) (ptr : FileCacheItem) :
    p.pack ptr = some (toLE 4 (8 + (p.rest ptr name).length) ++ toLE 4 (ptr.getSize - p.offset).toNat ++
      p.rest ptr name ++ ptr.data.drop p.offset.toNat) := by
  have hfour : ∀ n, (toLE 4 n).length = 4 := length_toLE 4
  have hpacket : toLE 4 0 ++ toLE 4 (ptr.getSize - p.offset).toNat ++ toLE 4 p.adid.toNat ++ toLE 4 p.extag.toNat ++
      toLE 8 ptr.fileTime.toNat ++ name = toLE 4 0 ++ (toLE 4 (ptr.getSize - p.offset).toNat ++ p.rest ptr name) := by
    simp only [FileHeader.rest, List.append_assoc]
  rw [FileHeader.pack, cstr_of_nulFree hname, h]
  show some _ = some _
  rw [hpacket, List.drop_left' (hfour 0), List.length_append, List.length_append, hfour, hfour, ← Nat.add_assoc,
    List.append_assoc (toLE 4 _) (toLE 4 _) (p.rest ptr name)]

/-- What `Build` does with a file: there is something to send of it if the offset is inside. -/
theorem FileHeader.built_ofFile (p : FileHeader) (f : OpenFile) : p.built (some (.ofFile f)) =
    if p.offset.toNat < f.size.toUInt32.toNat then (p.pack (.ofFile f)).elim .fault .packet else .refused := by
  have hguard : ((FileCacheItem.ofFile f).data.length = 0 ∨ p.offset.toNat ≥ (FileCacheItem.ofFile f).data.length) ↔
      ¬ p.offset.toNat < f.size.toUInt32.toNat := by
    rw [length_ofFile]
    omega
  rw [FileHeader.built]
  by_cases hoffset : p.offset.toNat < f.size.toUInt32.toNat
  · rw [if_neg (fun hg => hguard.mp hg hoffset), if_pos hoffset]
    rcases p.pack (.ofFile f) with _ | b <;> rfl
  · rw [if_pos (hguard.mpr hoffset), if_neg hoffset]

/-- **A packet is the rest of the file behind a header with both lengths** exactly when the whole file was read; and there
is a packet exactly when the length of the name as an `int` is not below `-1`. -/
theorem frames_pack_iff {f : OpenFile} {p : FileHeader} (hname : NulFree p.fileName)
    (hoffset : p.offset.toNat < f.size.toUInt32.toNat) :
    (∃ b, p.pack (.ofFile f) = some b ∧ Frames (f.bytes.drop p.offset.toNat) b) ↔
      f.Whole ∧ -1 ≤ StreamOps.strlen p.fileName := by
  set ptr := FileCacheItem.ofFile f with hptr
  have hsize := f.size.toUInt32.toNat_lt
  have hlen : ptr.data.length = f.size.toUInt32.toNat := length_ofFile f
  have hdataLen : (ptr.data.drop p.offset.toNat).length = ptr.data.length - p.offset.toNat := List.length_drop
  have hsub : (ptr.getSize - p.offset).toNat = (ptr.data.drop p.offset.toNat).length := by
    have hget : ptr.getSize.toNat = ptr.data.length := by
      rw [FileCacheItem.getSize, UInt32.toNat_ofNat', hlen]
      exact Nat.mod_eq_of_lt hsize
    rw [UInt32.toNat_sub_of_le, hget, hdataLen]
    rw [UInt32.le_iff_toNat_le, hget, hlen]
    exact hoffset.le
  rw [← StreamOps.cstringBytes_isSome]
  rcases hbytes : StreamOps.cstringBytes p.fileName with _ | name
  · rw [FileHeader.pack, cstr_of_nulFree hname, hbytes]
    simp
  · have hrest : 8 + (p.rest ptr name).length < 2 ^ 32 := by
      have hle := (StreamOps.length_of_cstringBytes hbytes).2
      simp only [FileHeader.rest, List.length_append, length_toLE]
      omega
    have hdata : (ptr.data.drop p.offset.toNat).length < 2 ^ 32 := by omega
    rw [FileHeader.pack_eq hname hbytes, hsub]
    constructor
    · rintro ⟨b, hb, hframes⟩
      cases hb
      exact ⟨(drop_ofFile_iff hoffset).mp ((frames_iff hdata _).mp hframes).2, name, rfl⟩
    · rintro ⟨hwhole, -⟩
      exact ⟨_, rfl, (frames_iff hdata _).mpr ⟨hrest, (drop_ofFile_iff hoffset).mpr hwhole⟩⟩

end Blitzd.Cache.FileCache
