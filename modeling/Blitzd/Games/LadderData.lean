import Mathlib.Data.List.Induction
import Mathlib.Logic.Function.Basic
import Blitzd.Lib.KeyMap
import Blitzd.Utils.CString

/-! # The ladder configuration (`LadderData`)

`Load` reads the ladder maps, ladders and pages of the configuration. A map is played in several of the 18 game types:
its name is kept once in `_maplist`, and `_mapindex` has, for each type, the places of its maps there. `__AddMap` adds
one map to one type, and gives up as soon as there are 100 names, before it has looked whether the name is one of them.

`registered_iff`: the maps of a configuration with at most 100 names are all registered exactly if no map follows the
one that brings the hundredth name. -/

namespace Blitzd.Games

open Blitzd.Lib.Bytes Blitzd.Lib.KeyMap Blitzd.Utils.CString

/-! ### The tables -/

/-- `mi_min`: where the types of a group begin and end. -/
def miMin : List ℕ := [0, 12, 17, 18]

/-- `mapinfo_prefix_template`. -/
def mapinfoTemplate : List (List Byte) :=
  [[0x00, 0x00, 0x03, 0x3F, 0x00], -- PG 1v1
    [0x01, 0x00, 0x02, 0x3F, 0x00], -- PG 2v2
    [0x02, 0x00, 0x01, 0x3F, 0x00], -- PG 3v3
    [0x03, 0x00, 0x01, 0x3F, 0x00], -- PG 4v4
    [0x05, 0x00, 0x01, 0x3F, 0x00], -- PG 5v5
    [0x06, 0x00, 0x01, 0x3F, 0x00], -- PG 6v6
    [0x07, 0x00, 0x01, 0x3F, 0x00], -- PG 2v2v2
    [0x08, 0x00, 0x01, 0x3F, 0x00], -- PG 3v3v3
    [0x09, 0x00, 0x01, 0x3F, 0x00], -- PG 4v4v4
    [0x0A, 0x00, 0x01, 0x3F, 0x00], -- PG 2v2v2v2
    [0x0B, 0x00, 0x01, 0x3F, 0x00], -- PG 3v3v3v3
    [0x04, 0x00, 0x02, 0x3F, 0x00], -- PG sffa
    [0x00, 0x00, 0x02, 0x3F, 0x02], -- AT 2v2
    [0x02, 0x00, 0x02, 0x3F, 0x03], -- AT 3v3
    [0x03, 0x00, 0x02, 0x3F, 0x04], -- AT 4v4
    [0x04, 0x00, 0x02, 0x3F, 0x02], -- AT 2v2v2
    [0x01, 0x00, 0x02, 0x3F, 0x02], -- AT tffa
    [0x00, 0x01, 0x00, 0x3F, 0x00]] -- TY

theorem length_mapinfoTemplate (i : Fin 18) : (mapinfoTemplate.getD i []).length = 5 := by
  revert i
  decide

/-- `mapinfo_tag`. -/
def mapinfoTag : List String :=
  ["1vs1", "2vs2", "3vs3", "4vs4", "5vs5", "6vs6", "2vs2vs2", "3vs3vs3", "4vs4vs4", "2vs2vs2vs2", "3vs3vs3vs3", "ffa",
    "2vs2", "3vs3", "4vs4", "2vs2vs2", "ffa", "tourney"]

/-- `ladder_shortname`. -/
def ladderShortname : List String :=
  ["SOLO", "TEAM", "FFA ", "2VS2", "3VS3", "4VS4", "CLNS", "CLN2", "CLN3", "CLN4"]

/-- `page_name`. -/
def pageName : List String := ["server", "player", "tourney", "clan"]

/-- The entry of a table of C strings. -/
def entry (table : List String) (i : ℕ) : Text := str (table.getD i "")

structure LadderData where
  maplist : List Text
  mapindex : List (List Byte)
  mapDesc : Fin 18 → Name
  mapLongDesc : Fin 18 → Name
  ladderDesc : Fin 10 → Name
  ladderUrl : Fin 10 → Name
  pageUrl : Fin 4 → Name
  mapinfoPrefix : Fin 18 → Buf 5

namespace LadderData

/-- `LadderData::LadderData`. -/
def new : LadderData where
  maplist := []
  mapindex := []
  mapDesc _ := default
  mapLongDesc _ := default
  ladderDesc _ := default
  ladderUrl _ := default
  pageUrl _ := default
  mapinfoPrefix i := ⟨mapinfoTemplate.getD i [], length_mapinfoTemplate i⟩

/-! ### Adding maps -/

/-- Names of maps are compared by `strcmpi`. -/
def pathEq : KeyEq Text := ⟨strcmpiEq, strcmpiEq_refl, strcmpiEq_symm, strcmpiEq_trans⟩

/-- `_mapindex.resize(n)`. -/
def resize (n : ℕ) (m : List (List Byte)) : List (List Byte) := m.take n ++ List.replicate (n - m.length) []

/-- Where a name stands in the list; its length, if it does not. -/
def position (maplist : List Text) (mapname : Text) : ℕ := maplist.findIdx (strcmpiEq · mapname)

/-- `__AddMap`. -/
def addMap (s : LadderData) (mapname : Text) (type : UInt8) : LadderData :=
  if s.maplist.length ≥ 100 then s
  else
    let i := position s.maplist mapname
    let maplist := if i = s.maplist.length then s.maplist ++ [mapname] else s.maplist
    let mapindex :=
      if type ≥ UInt8.ofNat s.mapindex.length then resize (type.toNat + 1) s.mapindex else s.mapindex
    { s with maplist, mapindex := mapindex.modify type.toNat (· ++ [UInt8.ofNat i]) }

/-- A sequence of calls of `__AddMap`. -/
def addMaps (s : LadderData) (calls : List (Text × UInt8)) : LadderData :=
  calls.foldl (fun s c => s.addMap c.1 c.2) s

/-! ### Reading the configuration -/

/-- The attributes of a `Maps` element and the paths of its `Map` elements. -/
structure MapsNode where
  type : Name
  desc : Name
  longDesc : Name
  thumbsDown : ℤ
  maps : List Name

structure MapsetNode where
  type : Name
  maps : List MapsNode

/-- The type, description and URL of a `Ladder` element. -/
structure LadderRow where
  type : Name
  desc : Name
  url : Name

/-- The type and URL of a `Page` element. -/
structure PageRow where
  type : Name
  url : Name

/-- The file, as far as it is read; an element that is missing has no children. -/
structure Config where
  mapsets : List MapsetNode
  ladders : List LadderRow
  pages : List PageRow

/-- The group of a `Mapset`. -/
def groupOf (type : Text) : Option (Fin 3) :=
  if strcmpiEq type (str "PG") then some 0
  else if strcmpiEq type (str "AT") then some 1
  else if strcmpiEq type (str "TOURNEY") then some 2
  else none

/-- The first type of the group that is called so. -/
def typeOf (group : Fin 3) (type : Text) : Option (Fin 18) :=
  (List.finRange 18).find? fun i =>
    decide (miMin.getD group 0 ≤ i ∧ i < miMin.getD (group + 1 : ℕ) 0) && strcmpiEq (entry mapinfoTag i) type

/-- `mapinfo_prefix[i][2] = v`. -/
def setThumbsDown (p : Buf 5) (v : Byte) : Buf 5 := ⟨p.bytes.set 2 v, by simp⟩

def loadMaps (group : Fin 3) (s : LadderData) (c : MapsNode) : LadderData :=
  match typeOf group c.type.1 with
  | none => s
  | some mtype =>
    let s := { s with
      mapDesc := Function.update s.mapDesc mtype c.desc
      mapLongDesc := Function.update s.mapLongDesc mtype c.longDesc
      mapinfoPrefix := Function.update s.mapinfoPrefix mtype
        (setThumbsDown (s.mapinfoPrefix mtype) (UInt8.ofInt c.thumbsDown)) }
    s.addMaps (c.maps.map fun m => (m.1, UInt8.ofNat mtype))

def loadMapset (s : LadderData) (c : MapsetNode) : LadderData :=
  match groupOf c.type.1 with
  | none => s
  | some group => c.maps.foldl (loadMaps group) s

def loadLadder (s : LadderData) (r : LadderRow) : LadderData :=
  match (List.finRange 10).find? fun i : Fin 10 => strcmpiEq r.type.1 (entry ladderShortname i) with
  | none => s
  | some idx => { s with
      ladderDesc := Function.update s.ladderDesc idx r.desc
      ladderUrl := Function.update s.ladderUrl idx r.url }

def loadPage (s : LadderData) (r : PageRow) : LadderData :=
  match (List.finRange 4).find? fun i : Fin 4 => strcmpiEq r.type.1 (entry pageName i) with
  | none => s
  | some idx => { s with pageUrl := Function.update s.pageUrl idx r.url }

/-- `Load`. -/
def load (s : LadderData) (c : Config) : LadderData :=
  c.pages.foldl loadPage (c.ladders.foldl loadLadder (c.mapsets.foldl loadMapset s))

/-! ### One more map -/

/-- The maps of a type. -/
def row (m : List (List Byte)) (t : ℕ) : List Byte := m.getD t []

theorem row_resize {m : List (List Byte)} {n : ℕ} (h : m.length ≤ n) (t : ℕ) : row (resize n m) t = row m t := by
  rw [row, row, resize, List.take_of_length_le h, List.getD_eq_getElem?_getD, List.getD_eq_getElem?_getD]
  rcases Nat.lt_or_ge t m.length with ht | ht
  · rw [List.getElem?_append_left ht]
  · rw [List.getElem?_append_right ht, List.getElem?_eq_none ht, List.getElem?_replicate]
    split_ifs <;> rfl

/-- What a call does when the list is not full. -/
theorem addMap_of_lt {s : LadderData} (hlen : s.maplist.length < 100) (hrows : s.mapindex.length ≤ 18)
    (n : Text) {t : UInt8} (ht : t.toNat < 18) :
    (s.addMap n t).maplist = (if position s.maplist n = s.maplist.length then s.maplist ++ [n] else s.maplist) ∧
    (s.addMap n t).mapindex.length ≤ 18 ∧
    ∀ t', row (s.addMap n t).mapindex t' =
      if t' = t.toNat then row s.mapindex t' ++ [UInt8.ofNat (position s.maplist n)] else row s.mapindex t' := by
  have hsize : (UInt8.ofNat s.mapindex.length).toNat = s.mapindex.length :=
    UInt8.toNat_ofNat_of_lt' (by rw [UInt8.size]; omega)
  -- after growing, the type has a row, and all rows are what they were
  obtain ⟨m, hm, hlt, hle, hrow⟩ : ∃ m, (s.addMap n t).mapindex =
      m.modify t.toNat (· ++ [UInt8.ofNat (position s.maplist n)]) ∧ t.toNat < m.length ∧ m.length ≤ 18 ∧
      ∀ t', row m t' = row s.mapindex t' := by
    refine ⟨if t ≥ UInt8.ofNat s.mapindex.length then resize (t.toNat + 1) s.mapindex else s.mapindex, ?_, ?_⟩
    · rw [addMap, if_neg (by omega)]
    · split_ifs with hge
      · have hge : s.mapindex.length ≤ t.toNat := by rwa [ge_iff_le, UInt8.le_iff_toNat_le, hsize] at hge
        have hlen' : (resize (t.toNat + 1) s.mapindex).length = t.toNat + 1 := by
          rw [resize, List.take_of_length_le (by omega), List.length_append, List.length_replicate]
          omega
        exact ⟨by omega, by omega, row_resize (by omega)⟩
      · have hlt : t.toNat < s.mapindex.length := by
          rw [ge_iff_le, UInt8.le_iff_toNat_le, hsize] at hge
          omega
        exact ⟨hlt, hrows, fun _ => rfl⟩
  refine ⟨by rw [addMap, if_neg (by omega)], by rw [hm, List.length_modify]; exact hle, fun t' => ?_⟩
  rw [← hrow t', hm, row, row, List.getD_eq_getElem?_getD, List.getD_eq_getElem?_getD, List.getElem?_modify]
  by_cases heq : t' = t.toNat
  · subst heq
    rw [if_pos rfl, List.getElem?_eq_getElem hlt]
    simp
  · rw [if_neg heq]
    simp only [if_neg (Ne.symm heq), Option.map_eq_map, Option.map_id']

theorem addMap_of_le {s : LadderData} (hlen : 100 ≤ s.maplist.length) (n : Text) (t : UInt8) : s.addMap n t = s :=
  if_pos hlen

theorem addMaps_concat (s : LadderData) (calls : List (Text × UInt8)) (c : Text × UInt8) :
    s.addMaps (calls ++ [c]) = (s.addMaps calls).addMap c.1 c.2 := by
  rw [addMaps, List.foldl_append]
  rfl

theorem position_eq_length {l : List Text} {n : Text} :
    position l n = l.length ↔ l.any (pathEq.eqv · n) = false := by
  rw [position, List.findIdx_eq_length, List.any_eq_false]
  exact forall₂_congr fun x _ => Bool.not_eq_true (strcmpiEq x n) ▸ Iff.rfl

/-- A name that is there keeps its place when others are appended. -/
theorem position_append {l : List Text} (r : List Text) {n : Text} (h : ∃ m ∈ l, strcmpiEq m n = true) :
    position (l ++ r) n = position l n := by
  rw [position, List.findIdx_append, if_pos (List.findIdx_lt_length.mpr h)]
  rfl

/-! ### A sequence of calls -/

/-- The names of the calls, each once. -/
def names (calls : List (Text × UInt8)) : List Text := firsts pathEq (calls.map Prod.fst)

theorem names_concat (calls : List (Text × UInt8)) (c : Text × UInt8) :
    names (calls ++ [c]) =
      if (names calls).any (pathEq.eqv · c.1) then names calls else names calls ++ [c.1] := by
  rw [names, List.map_append, List.map_singleton, firsts_concat]
  rfl

theorem length_names_concat (calls : List (Text × UInt8)) (c : Text × UInt8) :
    (names calls).length ≤ (names (calls ++ [c])).length := by
  rw [names_concat]
  split_ifs
  · exact le_rfl
  · rw [List.length_append]
    omega

/-- The places, in the list of names, of the maps added to a type. -/
def places (maplist : List Text) (calls : List (Text × UInt8)) (t : UInt8) : List Byte :=
  (calls.filter fun c => c.2 = t).map fun c => UInt8.ofNat (position maplist c.1)

/-- Every map is registered: the names once each, in the order in which they first occur, and for every type the
places of its maps. -/
structure Registered (calls : List (Text × UInt8)) (s : LadderData) : Prop where
  maplist : s.maplist = names calls
  mapindex : ∀ t : UInt8, t < 18 → row s.mapindex t.toNat = places s.maplist calls t

/-- What holds of the lists after any calls. -/
structure Bounded (calls : List (Text × UInt8)) (s : LadderData) : Prop where
  maplist : s.maplist = (names calls).take 100
  rows : s.mapindex.length ≤ 18
  short : ∀ t : UInt8, (row s.mapindex t.toNat).length ≤ (calls.filter fun c => c.2 = t).length

theorem Bounded.full {calls : List (Text × UInt8)} {s : LadderData} (h : Bounded calls s) :
    100 ≤ s.maplist.length ↔ 100 ≤ (names calls).length := by
  rw [h.maplist, List.length_take]
  omega

theorem filter_concat (calls : List (Text × UInt8)) (c : Text × UInt8) (t : UInt8) :
    (calls ++ [c]).filter (fun c => decide (c.2 = t)) =
      calls.filter (fun c => decide (c.2 = t)) ++ if c.2 = t then [c] else [] := by
  rw [List.filter_append]
  congr 1
  by_cases hc : c.2 = t
  · simp [hc]
  · simp [hc]

theorem bounded_concat {calls : List (Text × UInt8)} {s : LadderData} (h : Bounded calls s) {c : Text × UInt8}
    (hc : c.2.toNat < 18) : Bounded (calls ++ [c]) (s.addMap c.1 c.2) := by
  rcases Nat.lt_or_ge s.maplist.length 100 with hlt | hge
  · have hnames : s.maplist = names calls := by
      rw [h.maplist, List.take_of_length_le]
      have := h.full
      omega
    obtain ⟨hmap, hrows, hrow⟩ := addMap_of_lt hlt h.rows c.1 hc
    refine ⟨?_, hrows, fun t => ?_⟩
    · rw [hmap, names_concat, hnames]
      have hle : (names calls).length < 100 := hnames ▸ hlt
      rcases hany : (names calls).any (pathEq.eqv · c.1) with _ | _
      · rw [if_pos (position_eq_length.mpr hany), if_neg Bool.false_ne_true,
          List.take_of_length_le (by rw [List.length_append, List.length_singleton]; omega)]
      · rw [if_neg (by rw [position_eq_length, hany]; simp), if_pos rfl, List.take_of_length_le hle.le]
    · rw [hrow, filter_concat, List.length_append]
      have := h.short t
      split_ifs with h1 h2 h2
      · rw [List.length_append]
        exact Nat.add_le_add_right this 1
      · exact absurd (UInt8.toNat_inj.mp h1).symm h2
      · exact this.trans (Nat.le_add_right _ _)
      · exact this
  · have hfull := h.full.mp hge
    rw [addMap_of_le hge]
    refine ⟨?_, h.rows, fun t => (h.short t).trans ?_⟩
    · rw [h.maplist, names_concat]
      split_ifs
      · rfl
      · rw [List.take_append_of_le_length hfull]
    · rw [filter_concat, List.length_append]
      exact Nat.le_add_right _ _

theorem bounded_addMaps {calls : List (Text × UInt8)} (ht : ∀ c ∈ calls, c.2.toNat < 18) :
    Bounded calls (new.addMaps calls) := by
  induction calls using List.reverseRecOn with
  | nil => exact ⟨rfl, Nat.zero_le _, fun t => Nat.zero_le _⟩
  | append_singleton calls c ih =>
    rw [addMaps_concat]
    exact bounded_concat (ih fun x hx => ht x (List.mem_append_left _ hx)) (ht c (by simp))

/-- A call that finds room registers its map. -/
theorem registered_concat {calls : List (Text × UInt8)} {s : LadderData} (h : Registered calls s)
    (hlt : s.maplist.length < 100) (hrows : s.mapindex.length ≤ 18) {c : Text × UInt8} (hc : c.2.toNat < 18) :
    Registered (calls ++ [c]) (s.addMap c.1 c.2) := by
  obtain ⟨hmap, -, hrow⟩ := addMap_of_lt hlt hrows c.1 hc
  -- names that are there keep their places, and the new one is where it was looked for
  obtain ⟨r, hr⟩ : ∃ r, (s.addMap c.1 c.2).maplist = s.maplist ++ r := by
    rw [hmap]
    split_ifs
    · exact ⟨[c.1], rfl⟩
    · exact ⟨[], (List.append_nil _).symm⟩
  have hold : ∀ x ∈ calls, position (s.addMap c.1 c.2).maplist x.1 = position s.maplist x.1 := by
    intro x hx
    rw [hr]
    refine position_append r ?_
    rw [h.maplist]
    exact exists_mem_firsts (e := pathEq) (List.mem_map_of_mem hx)
  have hnew : position (s.addMap c.1 c.2).maplist c.1 = position s.maplist c.1 := by
    rw [hmap]
    split_ifs with hpos
    · rw [position, List.findIdx_append, ← position, if_neg (by omega), hpos]
      simp [strcmpiEq_refl]
    · rfl
  refine ⟨?_, fun t ht => ?_⟩
  · rw [hmap, names_concat, ← h.maplist]
    rcases hany : s.maplist.any (pathEq.eqv · c.1) with _ | _
    · rw [if_pos (position_eq_length.mpr hany), if_neg Bool.false_ne_true]
    · rw [if_neg (by rw [position_eq_length, hany]; simp), if_pos rfl]
  · have hplaces : places (s.addMap c.1 c.2).maplist calls t = places s.maplist calls t :=
      List.map_congr_left fun x hx => by rw [hold x (List.mem_filter.mp hx).1]
    rw [hrow, places, filter_concat, List.map_append, ← places, hplaces, ← h.mapindex t ht]
    by_cases hct : c.2 = t
    · subst hct
      rw [if_pos rfl, if_pos rfl, List.map_singleton, hnew]
    · rw [if_neg fun he => hct (UInt8.toNat_inj.mp he).symm, if_neg hct, List.map_nil, List.append_nil]

/-- **Every map is registered** exactly if the last call finds fewer than 100 names. -/
theorem registered_iff (calls : List (Text × UInt8)) (ht : ∀ c ∈ calls, c.2 < 18)
    (hnames : (names calls).length ≤ 100) :
    Registered calls (new.addMaps calls) ↔ (names calls.dropLast).length < 100 := by
  have ht' : ∀ c ∈ calls, c.2.toNat < 18 := fun c hc => UInt8.lt_iff_toNat_lt.mp (ht c hc)
  clear ht
  induction calls using List.reverseRecOn with
  | nil =>
    exact iff_of_true ⟨rfl, fun t _ => rfl⟩ (by decide)
  | append_singleton calls c ih =>
    have hcalls : ∀ x ∈ calls, x.2.toNat < 18 := fun x hx => ht' x (List.mem_append_left _ hx)
    have hc : c.2.toNat < 18 := ht' c (by simp)
    have hb := bounded_addMaps hcalls
    rw [List.dropLast_concat, addMaps_concat]
    rcases Nat.lt_or_ge (names calls).length 100 with hlt | hge
    · refine iff_of_true ?_ hlt
      have hdrop : (names calls.dropLast).length < 100 := by
        rcases List.eq_nil_or_concat calls with rfl | ⟨l, x, rfl⟩
        · exact hlt
        · rw [List.concat_eq_append] at hlt ⊢
          rw [List.dropLast_concat]
          exact (length_names_concat l x).trans_lt hlt
      exact registered_concat ((ih (by omega) hcalls).mpr hdrop)
        (by have := hb.full; omega) hb.rows hc
    · -- the call is dropped, and its type has an entry too few
      refine iff_of_false (fun h => ?_) (by omega)
      rw [addMap_of_le (hb.full.mpr hge)] at h
      have hshort := hb.short c.2
      rw [h.mapindex c.2 (UInt8.lt_iff_toNat_lt.mpr hc), places, List.length_map, filter_concat, if_pos rfl,
        List.length_append, List.length_singleton] at hshort
      omega

/-- One map for two types, in two spellings. -/
theorem registered_two : Registered [(str "Lost Temple", 0), (str "lost temple", 12)]
    (new.addMaps [(str "Lost Temple", 0), (str "lost temple", 12)]) :=
  (registered_iff _ (by decide) (by decide +kernel)).mpr (by decide +kernel)

/-- A hundred maps for 1vs1, and then the first of them for 2vs2. -/
def fullCalls : List (Text × UInt8) := (List.range 100).map (fun i => ([UInt8.ofNat (128 + i)], 0)) ++ [([128], 1)]

/-- **The map of the last call is not registered** for its type, though there are only 100 names. -/
theorem full_list_drops_reuse : (∀ c ∈ fullCalls, c.2 < 18) ∧ (names fullCalls).length = 100 ∧
    row (new.addMaps fullCalls).mapindex 1 = [] ∧ places (new.addMaps fullCalls).maplist fullCalls 1 = [0] := by
  decide +kernel

end LadderData

end Blitzd.Games
