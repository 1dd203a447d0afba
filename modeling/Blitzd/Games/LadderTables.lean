import Blitzd.Lib.Reader
import Blitzd.Games.LadderData

/-! # The ladder tables

What clients are sent of the ladder configuration: the names of the maps, the maps of each type by group, and the
descriptions. A group is left out when none of its types has a map, and a type when it has none; both counts are
written as bytes, the number of groups over a zero that was put in front.

`tables_decode`: of every state that `Load` leads to, the tables are read back as what was loaded, each index is that of
a name, and the descriptions are those of the same types in the same order. -/

namespace Blitzd.Games.LadderData

open Blitzd.Lib Blitzd.Lib.Bytes Blitzd.Utils.CString

/-! ### Writing -/

/-- `st << v` for a string. -/
def putStr (v : Text) : List Byte := v ++ [0]

/-- `GetUrlData`. -/
def getUrlData (s : LadderData) : List Byte := (List.finRange 4).flatMap fun i => putStr (s.pageUrl i).1

/-- `GetMapName`. -/
def getMapName (s : LadderData) : List Byte := UInt8.ofNat s.maplist.length :: s.maplist.flatMap putStr

/-- The types that the loops over group `z` do not skip. -/
def visited (s : LadderData) (z : Fin 3) : List (Fin 18) :=
  (List.finRange 18).filter fun i => decide (miMin.getD z 0 ≤ i ∧ i < s.mapindex.length ∧ i < miMin.getD (z + 1 : ℕ) 0 ∧
    (row s.mapindex i).length ≠ 0)

/-- `p.append(mapinfo_prefix[i], 5)`, the number of maps and their places. -/
def mapinfo (s : LadderData) (i : Fin 18) : List Byte :=
  (s.mapinfoPrefix i).bytes ++ UInt8.ofNat (row s.mapindex i).length :: row s.mapindex i

/-- A pass of `GetMapInfo` over a group: the stream and the number of groups. -/
def putGroup (s : LadderData) (st : List Byte × UInt8) (z : Fin 3) : List Byte × UInt8 :=
  let entries := (visited s z).map (mapinfo s)
  if entries.length = 0 then st
  else (st.1 ++ UInt8.ofNat z :: UInt8.ofNat entries.length :: entries.flatten, st.2 + 1)

/-- `GetMapInfo`. -/
def getMapInfo (s : LadderData) : List Byte :=
  let st := (List.finRange 3).foldl (putGroup s) ([0], 0)
  st.1.set 0 st.2

def defaultDesc : List String :=
  ["One vs. One", "Two vs. Two", "Three vs. Three", "Four vs. Four", "Five vs. Five", "Six Vs. Six",
    "Two vs. Two vs. Two", "Three vs. Three vs. Three", "Four vs. Four vs. Four", "Two vs. Two vs. Two vs. Two",
    "Three vs. Three vs. Three vs. Three", "Small Free for All", "Two vs. Two", "Three vs. Three", "Four vs. Four",
    "Two vs. Two vs. Two", "Team Free for All", "Tournament Game"]

def defaultDescLong : List String :=
  ["Two players fight to the death", "Two teams of two vie for dominance",
    "Two teams of three face off on the battlefield", "Two teams of four head to battle",
    "Two teams of five - who will prevail?", "Two teams of six - get ready to rumble!",
    "Three teams of two, can you handle it?", "Three teams of three battle each other",
    "Three teams of four - things getting crowded?", "Four teams of two, is this a challenge?",
    "Four teams of three, the ultimate challenge!", "Can you defeat 3-5 opponents alone?",
    "Two teams of two vie for dominance", "Two teams of three face off on the battlefield",
    "Two teams of four head to battle", "Three teams of two, can you handle it?",
    "Can your team defeat 1-2 others?", "Tournament Game"]

/-- The text itself, or the default at `i` if it is empty. -/
def orDefault (table : List String) (i : ℕ) (v : Text) : Text := if v.length = 0 then entry table i else v

/-- `mapinfo_prefix[i][0]`. -/
def ident (s : LadderData) (i : Fin 18) : Byte := (s.mapinfoPrefix i).bytes.headD 0

/-- A pass of `GetMapDesc` over a type of group `z`. -/
def putDesc (s : LadderData) (z : Fin 3) (st : List Byte × UInt8) (i : Fin 18) : List Byte × UInt8 :=
  (st.1 ++ UInt8.ofNat z :: s.ident i :: (putStr (orDefault defaultDesc i (s.mapDesc i).1) ++
    putStr (orDefault defaultDescLong i (s.mapLongDesc i).1)), st.2 + 1)

/-- `GetMapDesc`. -/
def getMapDesc (s : LadderData) : List Byte :=
  let st := (List.finRange 3).foldl (fun st z => (visited s z).foldl (putDesc s z) st) ([0], 0)
  st.1.set 0 st.2

/-- The descriptions of ladders without one, in `GetLadderData`. -/
def defaultLadder : List String :=
  ["Solo Games", "Team Games", "Free For all Games", "2 Player Team", "3 Player Team", "4 Player Team", "Solo Games",
    "2 Player Team", "3 Player Team", "4 Player Team"]

/-- `GetLadderData`. -/
def getLadderData (s : LadderData) : List Byte :=
  10 :: (List.finRange 10).flatMap fun i : Fin 10 => (entry ladderShortname i).reverse ++
    (putStr (orDefault defaultLadder i (s.ladderDesc i).1) ++ putStr (s.ladderUrl i).1)

/-! ### Reading -/

/-- The names of the maps. -/
def readMapName : Reader (List Text) := do
  let count ← Reader.uint 1
  Reader.times Reader.terminated count

/-- An entry of a group: five bytes and the places of the maps. -/
def readEntry : Reader (List Byte × List Byte) := do
  let bytes ← Reader.take 5
  let count ← Reader.uint 1
  let places ← Reader.take count
  return (bytes, places)

/-- A group: its number and its entries. -/
def readGroup : Reader (ℕ × List (List Byte × List Byte)) := do
  let number ← Reader.uint 1
  let count ← Reader.uint 1
  let entries ← Reader.times readEntry count
  return (number, entries)

def readMapInfo : Reader (List (ℕ × List (List Byte × List Byte))) := do
  let count ← Reader.uint 1
  Reader.times readGroup count

/-- A description: the group, the id, and two texts. -/
structure Description where
  group : ℕ
  id : ℕ
  short : Text
  long : Text

def readDescription : Reader Description := do
  let group ← Reader.uint 1
  let id ← Reader.uint 1
  let short ← Reader.terminated
  let long ← Reader.terminated
  return ⟨group, id, short, long⟩

def readMapDesc : Reader (List Description) := do
  let count ← Reader.uint 1
  Reader.times readDescription count

/-! ### What is loaded -/

/-- The types of a group. -/
def inGroup (z : Fin 3) (i : Fin 18) : Bool := miMin.getD z 0 ≤ i ∧ i < miMin.getD (z + 1 : ℕ) 0

/-- The types of a group that have maps. -/
def used (s : LadderData) (z : Fin 3) : List (Fin 18) :=
  (List.finRange 18).filter fun i => inGroup z i && decide (row s.mapindex i ≠ [])

/-- The groups that have maps. -/
def usedGroups (s : LadderData) : List (Fin 3) := (List.finRange 3).filter fun z => decide (used s z ≠ [])

/-- The states that `Load` leads to. -/
inductive Loaded : LadderData → Prop
  | new : Loaded new
  | load {s : LadderData} (c : Config) : Loaded s → Loaded (s.load c)

/-- What holds in them. -/
structure Ok (s : LadderData) : Prop where
  names : s.maplist.length ≤ 100
  nulFree : ∀ n ∈ s.maplist, NulFree n
  rows : s.mapindex.length ≤ 18
  places : ∀ t : ℕ, ∀ b ∈ row s.mapindex t, b.toNat < s.maplist.length
  ident : ∀ i, s.ident i = new.ident i

variable {s : LadderData}

theorem ok_new : Ok new := by
  refine ⟨Nat.zero_le _, fun n hn => absurd hn List.not_mem_nil, Nat.zero_le _, fun t b hb => ?_, fun i => rfl⟩
  exact absurd hb List.not_mem_nil

theorem Ok.addMap (h : Ok s) {n : Text} (hn : NulFree n) {t : UInt8} (ht : t.toNat < 18) : Ok (s.addMap n t) := by
  rcases Nat.lt_or_ge s.maplist.length 100 with hlt | hge
  · obtain ⟨hmap, hrows, hrow⟩ := addMap_of_lt hlt h.rows n ht
    have hid : (s.addMap n t).ident = s.ident := by
      rw [LadderData.addMap, if_neg (by omega)]
      rfl
    have hpos : position s.maplist n ≤ s.maplist.length := List.findIdx_le_length
    have hgrow : s.maplist.length ≤ (s.addMap n t).maplist.length ∧ (s.addMap n t).maplist.length ≤ 100 ∧
        position s.maplist n < (s.addMap n t).maplist.length := by
      rw [hmap]
      split_ifs with hnew
      · rw [List.length_append, List.length_singleton]
        omega
      · omega
    refine ⟨hgrow.2.1, ?_, hrows, fun t' b hb => ?_, fun i => by rw [hid, h.ident]⟩
    · rw [hmap]
      split_ifs
      · intro m hm
        rcases List.mem_append.mp hm with hm | hm
        · exact h.nulFree m hm
        · rw [List.mem_singleton.mp hm]
          exact hn
      · exact h.nulFree
    · rw [hrow] at hb
      split_ifs at hb
      · rcases List.mem_append.mp hb with hb | hb
        · exact (h.places t' b hb).trans_le hgrow.1
        · rw [List.mem_singleton.mp hb, UInt8.toNat_ofNat_of_lt' (by rw [UInt8.size]; omega)]
          exact hgrow.2.2
      · exact (h.places t' b hb).trans_le hgrow.1
  · rw [addMap_of_le hge]
    exact h

theorem Ok.addMaps (h : Ok s) {calls : List (Text × UInt8)}
    (hc : ∀ c ∈ calls, NulFree c.1 ∧ c.2.toNat < 18) : Ok (s.addMaps calls) := by
  induction calls generalizing s with
  | nil => exact h
  | cons c calls ih =>
    obtain ⟨hn, ht⟩ := hc c List.mem_cons_self
    exact ih (h.addMap hn ht) fun x hx => hc x (List.mem_cons_of_mem _ hx)

theorem headD_setThumbsDown (p : Buf 5) (v : Byte) : (setThumbsDown p v).bytes.headD 0 = p.bytes.headD 0 := by
  rcases p with ⟨_ | ⟨b, l⟩, hlen⟩
  · rfl
  · rfl

theorem Ok.loadMaps (h : Ok s) (z : Fin 3) (c : MapsNode) : Ok (loadMaps z s c) := by
  rw [LadderData.loadMaps]
  rcases typeOf z c.type.1 with _ | mtype
  · exact h
  · have hid : ∀ i, LadderData.ident { s with
        mapinfoPrefix := Function.update s.mapinfoPrefix mtype
          (setThumbsDown (s.mapinfoPrefix mtype) (UInt8.ofInt c.thumbsDown)) } i = new.ident i := by
      intro i
      rw [← h.ident i, LadderData.ident, LadderData.ident]
      dsimp only
      by_cases hi : i = mtype
      · subst hi
        rw [Function.update_self, headD_setThumbsDown]
      · rw [Function.update_of_ne hi]
    have hok : Ok { s with
        mapDesc := Function.update s.mapDesc mtype c.desc
        mapLongDesc := Function.update s.mapLongDesc mtype c.longDesc
        mapinfoPrefix := Function.update s.mapinfoPrefix mtype
          (setThumbsDown (s.mapinfoPrefix mtype) (UInt8.ofInt c.thumbsDown)) } :=
      ⟨h.names, h.nulFree, h.rows, h.places, hid⟩
    refine hok.addMaps fun x hx => ?_
    obtain ⟨m, -, rfl⟩ := List.mem_map.mp hx
    refine ⟨m.2, ?_⟩
    rw [UInt8.toNat_ofNat_of_lt' (by rw [UInt8.size]; omega)]
    exact mtype.2

theorem Ok.load (h : Ok s) (c : Config) : Ok (s.load c) := by
  refine List.foldlRecOn (motive := Ok) _ _ (List.foldlRecOn (motive := Ok) _ _
    (List.foldlRecOn (motive := Ok) _ _ h fun s hs m _ => ?_) fun s hs r _ => ?_) fun s hs r _ => ?_
  · rw [loadMapset]
    split
    · exact hs
    · exact List.foldlRecOn (motive := Ok) _ _ hs fun s hs c _ => hs.loadMaps _ c
  · rw [loadLadder]
    split
    · exact hs
    · exact ⟨hs.names, hs.nulFree, hs.rows, hs.places, hs.ident⟩
  · rw [loadPage]
    split
    · exact hs
    · exact ⟨hs.names, hs.nulFree, hs.rows, hs.places, hs.ident⟩

theorem Loaded.ok (h : Loaded s) : Ok s := by
  induction h with
  | new => exact ok_new
  | load c _ ih => exact ih.load c

/-! ### The bytes of a table -/

/-- A loop that appends to the stream and counts. -/
theorem foldl_put {ε : Type} (g : ε → List Byte) (k : ε → ℕ) (es : List ε) (l : List Byte) (c : UInt8) :
    es.foldl (fun st e => (st.1 ++ g e, st.2 + UInt8.ofNat (k e))) (l, c) =
      (l ++ es.flatMap g, c + UInt8.ofNat (es.map k).sum) := by
  induction es generalizing l c with
  | nil => simp
  | cons e es ih =>
    rw [List.foldl_cons, ih, List.flatMap_cons, List.map_cons, List.sum_cons, UInt8.ofNat_add, List.append_assoc,
      UInt8.add_assoc]

/-- A type without maps has no row, or an empty one. -/
theorem visited_eq_used (s : LadderData) (z : Fin 3) : visited s z = used s z := by
  refine List.filter_congr fun i _ => ?_
  rw [inGroup, ← Bool.decide_and, decide_eq_decide]
  constructor
  · rintro ⟨hlo, -, hhi, hne⟩
    exact ⟨⟨hlo, hhi⟩, fun h => hne (by rw [h]; rfl)⟩
  · rintro ⟨⟨hlo, hhi⟩, hne⟩
    refine ⟨hlo, ?_, hhi, fun h => hne (List.length_eq_zero_iff.mp h)⟩
    by_contra hge
    rw [row, List.getD_eq_getElem?_getD, List.getElem?_eq_none (not_lt.mp hge)] at hne
    exact hne rfl

/-- What is written for a group. -/
def groupBytes (s : LadderData) (z : Fin 3) : List Byte :=
  UInt8.ofNat z :: UInt8.ofNat (used s z).length :: (used s z).flatMap (mapinfo s)

theorem sum_map_one {ε : Type} (es : List ε) : (es.map fun _ => 1).sum = es.length := by
  rw [List.map_const', List.sum_replicate_nat, Nat.mul_one]

theorem getMapInfo_eq (s : LadderData) :
    getMapInfo s = UInt8.ofNat (usedGroups s).length :: (usedGroups s).flatMap (groupBytes s) := by
  have hstep : putGroup s = fun st z =>
      if decide (used s z ≠ []) then (st.1 ++ groupBytes s z, st.2 + UInt8.ofNat 1) else st := by
    funext st z
    rw [putGroup, visited_eq_used, List.length_map, List.flatten_eq_flatMap, List.flatMap_map]
    by_cases h : used s z = []
    · rw [if_pos (by rw [h]; rfl), if_neg (by simp [h])]
    · rw [if_neg (mt List.length_eq_zero_iff.mp h), if_pos (by simp [h])]
      rfl
  rw [getMapInfo, hstep, ← List.foldl_filter, ← usedGroups, foldl_put, sum_map_one, UInt8.zero_add]
  rfl

/-- The types that have maps, with their groups. -/
def tags (s : LadderData) : List (Fin 3 × Fin 18) :=
  (usedGroups s).flatMap fun z => (used s z).map fun i => (z, i)

/-- What is written for a type. -/
def descBytes (s : LadderData) (t : Fin 3 × Fin 18) : List Byte :=
  UInt8.ofNat t.1 :: s.ident t.2 :: (putStr (orDefault defaultDesc t.2 (s.mapDesc t.2).1) ++
    putStr (orDefault defaultDescLong t.2 (s.mapLongDesc t.2).1))

/-- Groups without maps have no tags. -/
theorem tags_eq (s : LadderData) : tags s = (List.finRange 3).flatMap fun z => (used s z).map fun i => (z, i) := by
  rw [tags, usedGroups]
  induction List.finRange 3 with
  | nil => rfl
  | cons z zs ih =>
    by_cases h : used s z = []
    · rw [List.filter_cons_of_neg (by simp [h]), ih, List.flatMap_cons, h]
      rfl
    · rw [List.filter_cons_of_pos (by simp [h]), List.flatMap_cons, ih, List.flatMap_cons]

theorem getMapDesc_eq (s : LadderData) :
    getMapDesc s = UInt8.ofNat (tags s).length :: (tags s).flatMap (descBytes s) := by
  have hstep : ∀ z, putDesc s z = fun st i => (st.1 ++ descBytes s (z, i), st.2 + UInt8.ofNat 1) := fun z => rfl
  have hloop : (fun (st : List Byte × UInt8) (z : Fin 3) => (visited s z).foldl (putDesc s z) st) =
      fun st z => (st.1 ++ (used s z).flatMap (fun i => descBytes s (z, i)), st.2 + UInt8.ofNat (used s z).length) := by
    funext st z
    rw [hstep, visited_eq_used, foldl_put, sum_map_one]
  have hlen : (tags s).length = ((List.finRange 3).map fun z => (used s z).length).sum := by
    rw [tags_eq, List.length_flatMap]
    simp only [List.length_map]
  rw [getMapDesc, hloop, foldl_put, UInt8.zero_add, ← hlen, tags_eq, List.flatMap_assoc]
  simp only [List.flatMap_map]
  rfl

/-! ### Reading the tables back -/

theorem length_used (s : LadderData) (z : Fin 3) : (used s z).length ≤ 18 := by
  have := List.length_filter_le (fun i => inGroup z i && decide (row s.mapindex i ≠ [])) (List.finRange 18)
  rwa [List.length_finRange] at this

theorem length_usedGroups (s : LadderData) : (usedGroups s).length ≤ 3 := by
  have := List.length_filter_le (fun z => decide (used s z ≠ [])) (List.finRange 3)
  rwa [List.length_finRange] at this

theorem length_tags (s : LadderData) : (tags s).length ≤ 54 := by
  have h0 := length_used s 0
  have h1 := length_used s 1
  have h2 := length_used s 2
  have hall : List.finRange 3 = [0, 1, 2] := rfl
  rw [tags_eq, hall]
  simp only [List.flatMap_cons, List.flatMap_nil, List.length_append, List.length_map, List.length_nil]
  omega

/-- What a client is to learn of a group. -/
def groupEntries (s : LadderData) (z : Fin 3) : ℕ × List (List Byte × List Byte) :=
  (z, (used s z).map fun i => ((s.mapinfoPrefix i).bytes, row s.mapindex i))

theorem reads_entry {i : Fin 18} (h : (row s.mapindex i).length ≤ 255) :
    Reader.Reads readEntry ((s.mapinfoPrefix i).bytes, row s.mapindex i) (mapinfo s i) := by
  have hrow := (Reader.Reads.take (l := row s.mapindex i) rfl).bind
    (f := fun places => (return ((s.mapinfoPrefix i).bytes, places) : Reader _)) (.pure _)
  rw [List.append_nil] at hrow
  exact (Reader.Reads.take (s.mapinfoPrefix i).len).bind ((Reader.Reads.byte (by omega)).bind hrow)

theorem reads_group (hmaps : ∀ i : Fin 18, (row s.mapindex i).length ≤ 255) (z : Fin 3) :
    Reader.Reads readGroup (groupEntries s z) (groupBytes s z) := by
  have hall : ∀ i ∈ used s z, Reader.Reads readEntry ((s.mapinfoPrefix i).bytes, row s.mapindex i) (mapinfo s i) :=
    fun i _ => reads_entry (hmaps i)
  have hentries := (Reader.Reads.times hall).bind
    (f := fun entries => (return ((z : ℕ), entries) : Reader _)) (.pure _)
  rw [List.append_nil] at hentries
  have hlen := length_used s z
  exact (Reader.Reads.byte (by omega)).bind ((Reader.Reads.byte (by omega)).bind hentries)

theorem whole_mapInfo (hmaps : ∀ i : Fin 18, (row s.mapindex i).length ≤ 255) :
    readMapInfo.whole (getMapInfo s) = some ((usedGroups s).map (groupEntries s)) := by
  have hlen := length_usedGroups s
  rw [getMapInfo_eq]
  exact ((Reader.Reads.byte (by omega)).bind (Reader.Reads.times fun z _ => reads_group hmaps z)).whole_eq

theorem whole_mapName (h : Ok s) : readMapName.whole (getMapName s) = some s.maplist := by
  have hlen := h.names
  have hreads := (Reader.Reads.byte (x := s.maplist.length) (by omega)).bind
    (f := fun count => Reader.times Reader.terminated count)
    (Reader.Reads.times (f := id) fun n hn => Reader.Reads.terminated (h.nulFree n hn))
  rw [List.map_id] at hreads
  exact hreads.whole_eq

theorem nulFree_entry {table : List String} (h : ∀ t ∈ table, NulFree (str t)) (i : ℕ) : NulFree (entry table i) := by
  rw [entry, List.getD_eq_getElem?_getD]
  rcases hi : table[i]? with _ | t
  · exact nulFree_str (l := []) rfl
  · exact h t (List.mem_of_getElem? hi)

theorem nulFree_defaultDesc (i : Fin 18) : NulFree (entry defaultDesc i) ∧ NulFree (entry defaultDescLong i) := by
  refine ⟨nulFree_entry ?_ i, nulFree_entry ?_ i⟩
  · simp only [defaultDesc, List.forall_mem_cons, List.not_mem_nil, IsEmpty.forall_iff, implies_true, and_true]
    and_intros <;> exact nulFree_str (by decide)
  · simp only [defaultDescLong, List.forall_mem_cons, List.not_mem_nil, IsEmpty.forall_iff, implies_true, and_true]
    and_intros <;> exact nulFree_str (by decide)

theorem nulFree_orDefault {table : List String} {i : ℕ} (h : NulFree (entry table i)) (v : Name) :
    NulFree (orDefault table i v.1) := by
  rw [orDefault]
  split_ifs
  · exact h
  · exact v.2

/-- What a client is to learn of a type. -/
def description (s : LadderData) (t : Fin 3 × Fin 18) : Description :=
  ⟨t.1, (s.ident t.2).toNat, orDefault defaultDesc t.2 (s.mapDesc t.2).1,
    orDefault defaultDescLong t.2 (s.mapLongDesc t.2).1⟩

theorem reads_description (s : LadderData) (t : Fin 3 × Fin 18) :
    Reader.Reads readDescription (description s t) (descBytes s t) := by
  obtain ⟨hshort, hlong⟩ := nulFree_defaultDesc t.2
  have hid := Reader.Reads.byte (s.ident t.2).toNat_lt
  rw [UInt8.ofNat_toNat] at hid
  have htexts := (Reader.Reads.terminated (nulFree_orDefault hlong (s.mapLongDesc t.2))).bind
    (f := fun long => (return ⟨t.1, (s.ident t.2).toNat, orDefault defaultDesc t.2 (s.mapDesc t.2).1, long⟩ :
      Reader Description)) (.pure _)
  rw [List.append_nil] at htexts
  exact (Reader.Reads.byte (by omega)).bind (hid.bind
    ((Reader.Reads.terminated (nulFree_orDefault hshort (s.mapDesc t.2))).bind htexts))

theorem whole_mapDesc (s : LadderData) :
    readMapDesc.whole (getMapDesc s) = some ((tags s).map (description s)) := by
  have hlen := length_tags s
  rw [getMapDesc_eq]
  exact ((Reader.Reads.byte (by omega)).bind (Reader.Reads.times fun t _ => reads_description s t)).whole_eq

/-- The addresses are read back. -/
theorem whole_urlData (s : LadderData) : (Reader.times Reader.terminated 4).whole (getUrlData s) =
    some ((List.finRange 4).map fun i => (s.pageUrl i).1) := by
  have hall : ∀ i ∈ List.finRange 4, Reader.Reads Reader.terminated (s.pageUrl i).1 (putStr (s.pageUrl i).1) :=
    fun i _ => Reader.Reads.terminated (s.pageUrl i).2
  have hreads := Reader.Reads.times hall
  rw [List.length_finRange] at hreads
  exact hreads.whole_eq

/-- A ladder: its short name, backwards, its description and its address. -/
def readLadder : Reader (List Byte × Text × Text) := do
  let tag ← Reader.take 4
  let desc ← Reader.terminated
  let url ← Reader.terminated
  return (tag, desc, url)

/-- The ladders are read back, in their order. -/
theorem whole_ladderData (s : LadderData) :
    (do let count ← Reader.uint 1
        Reader.times readLadder count : Reader _).whole (getLadderData s) =
      some ((List.finRange 10).map fun i : Fin 10 => ((entry ladderShortname i).reverse,
        orDefault defaultLadder i (s.ladderDesc i).1, (s.ladderUrl i).1)) := by
  have htags : ∀ i : Fin 10, (entry ladderShortname i).reverse.length = 4 ∧ NulFree (entry defaultLadder i) := by
    decide +kernel
  have hall : ∀ i ∈ List.finRange 10, Reader.Reads readLadder ((entry ladderShortname i).reverse,
      orDefault defaultLadder i (s.ladderDesc i).1, (s.ladderUrl i).1) ((entry ladderShortname i).reverse ++
        (putStr (orDefault defaultLadder i (s.ladderDesc i).1) ++ putStr (s.ladderUrl i).1)) := by
    intro i _
    obtain ⟨htag, hdefault⟩ := htags i
    have hurl := (Reader.Reads.terminated (s.ladderUrl i).2).bind
      (f := fun url => (return ((entry ladderShortname i).reverse,
        orDefault defaultLadder i (s.ladderDesc i).1, url) : Reader _)) (.pure _)
    rw [List.append_nil] at hurl
    exact (Reader.Reads.take htag).bind
      ((Reader.Reads.terminated (nulFree_orDefault hdefault (s.ladderDesc i))).bind hurl)
  have htimes := Reader.Reads.times hall
  rw [List.length_finRange] at htimes
  exact ((Reader.Reads.byte (x := 10) (by decide)).bind
    (f := fun count => Reader.times readLadder count) htimes).whole_eq

/-- The types of a group have different ids. -/
theorem ident_injective (h : Ok s) {z : Fin 3} {i j : Fin 18} (hi : inGroup z i = true) (hj : inGroup z j = true)
    (he : s.ident i = s.ident j) : i = j := by
  have hnew : ∀ z i j, inGroup z i = true → inGroup z j = true → new.ident i = new.ident j → i = j := by
    decide +kernel
  rw [h.ident, h.ident] at he
  exact hnew z i j hi hj he

/-- **The ladder tables are read back as what was loaded.** -/
theorem tables_decode (s : LadderData) (h : Loaded s) (hmaps : ∀ i : Fin 18, (row s.mapindex i).length ≤ 255) :
    readMapInfo.whole (getMapInfo s) = some ((usedGroups s).map (groupEntries s)) ∧
    readMapName.whole (getMapName s) = some s.maplist ∧
    (∀ i : Fin 18, ∀ b ∈ row s.mapindex i, b < (getMapName s).headD 0) ∧
    ∃ ds, readMapDesc.whole (getMapDesc s) = some ds ∧
      (getMapDesc s).headD 0 = UInt8.ofNat ((usedGroups s).map fun z => (used s z).length).sum ∧
      (ds.map fun d => (d.group, d.id)) =
        (usedGroups s).flatMap (fun z => (used s z).map fun i => ((z : ℕ), (s.ident i).toNat)) ∧
      ∀ z i j, inGroup z i = true → inGroup z j = true → s.ident i = s.ident j → i = j := by
  have hok := h.ok
  refine ⟨whole_mapInfo hmaps, whole_mapName hok, fun i b hb => ?_, _, whole_mapDesc s, ?_, ?_,
    fun z i j => ident_injective hok⟩
  · have hlen := hok.names
    rw [UInt8.lt_iff_toNat_lt, getMapName, List.headD_cons, UInt8.toNat_ofNat_of_lt' (by rw [UInt8.size]; omega)]
    exact hok.places i b hb
  · rw [getMapDesc_eq, List.headD_cons, tags, List.length_flatMap]
    simp only [List.length_map]
  · rw [List.map_map, tags, List.map_flatMap]
    simp only [List.map_map]
    rfl

/-- A map for 1vs1 and one that is also played by arranged teams. -/
def sampleConfig : Config where
  mapsets :=
    [⟨⟨str "PG", by decide⟩, [⟨⟨str "1vs1", by decide⟩, default, default, 3,
        [⟨str "Lost Temple", by decide⟩, ⟨str "Plunder Isle", by decide⟩]⟩]⟩,
      ⟨⟨str "at", by decide⟩, [⟨⟨str "2vs2", by decide⟩, default, default, 2, [⟨str "lost temple", by decide⟩]⟩]⟩]
  ladders := []
  pages := []

/-- Its tables, as they are read back. -/
theorem tables_decode_sample : readMapInfo.whole (getMapInfo (new.load sampleConfig)) =
      some [(0, [([0x00, 0x00, 0x03, 0x3F, 0x00], [0, 1])]), (1, [([0x00, 0x00, 0x02, 0x3F, 0x02], [0])])] ∧
    readMapName.whole (getMapName (new.load sampleConfig)) = some [str "Lost Temple", str "Plunder Isle"] := by
  obtain ⟨hinfo, hname, -⟩ := tables_decode (new.load sampleConfig) (.load _ .new) (by decide +kernel)
  refine ⟨hinfo.trans ?_, hname.trans ?_⟩
  · decide +kernel
  · decide +kernel

end Blitzd.Games.LadderData
