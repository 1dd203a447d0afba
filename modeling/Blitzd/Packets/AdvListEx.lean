import Mathlib.Data.List.Perm.Subperm
import Blitzd.Lib.Reader
import Blitzd.Packets.BNet

/-! # Lists of games (`BNetAdvListEx`)

A list is a count and that many games, or the count 0 and a status. The counter that is written is that of the games
which match, but only those behind `startidx` and up to `maxcount` are written, and `maxcount` 0 ends the loop only at a
first game that does not match. A game asked for by name is written without a count.

`wellFormed_iff`: the bodies that can be read, for every cache and request. -/

namespace Blitzd.Packets

open Blitzd.Lib Blitzd.Lib.Bytes Blitzd.Utils.CString

/-! ### How a list is read -/

structure GameRecord where
  type : ℕ
  option : ℕ
  family : ℕ
  port : ℕ
  ip : ℕ
  status : ℕ
  elapsed : ℕ
  name : Text
  passwd : Text
  stat : Text
deriving DecidableEq

open Reader in
def readGame : Reader GameRecord := do
  let type ← uint 4
  let option ← uint 4
  let family ← uint 2
  let port ← uint 2
  let ip ← uint 4
  zeros 8
  let status ← uint 4
  let elapsed ← uint 4
  let name ← terminated
  let passwd ← terminated
  let stat ← terminated
  return ⟨type, option, family, port, ip, status, elapsed, name, passwd, stat⟩

/-- A status, or games. -/
inductive GameList
  | status (code : ℕ)
  | games (l : List GameRecord)
deriving DecidableEq

open Reader in
def readGameList : Reader GameList := do
  let count ← uint 4
  if count = 0 then return .status (← uint 4) else return .games (← times readGame count)

/-! ### What a list should be -/

/-- What is shown of a game and its host. -/
def gameRecord (e : GameView × Endpoint) : GameRecord where
  type := e.1.type.toNat
  option := e.1.option.toNat
  family := 2
  port := (htons e.2.port).toNat
  ip := (htonl e.2.ip).toNat
  status := ((e.1.flag &&& 0x02) ||| 0x04).toNat
  elapsed := e.1.elapsed.toNat
  name := cstr e.1.name
  passwd := cstr e.1.passwd
  stat := cstr e.1.stat

/-- The game, with that host, is one the request asks for. -/
def AdvQuery.Matches (q : AdvQuery) (e : GameView × Endpoint) : Prop :=
  e.1.host = some e.2 ∧
    if q.gamename = [] then (q.mask = 0 ∨ e.1.type &&& q.mask = q.cond &&& q.mask) ∧ e.1.broadcast = true
    else strcmpiEq e.1.name q.gamename = true

/-- The body can be read to its end; if it is a list of games, they are distinct games of the cache that match. -/
def WellFormed (q : AdvQuery) (games : List GameView) (body : List Byte) : Prop :=
  ∃ list, readGameList.whole body = some list ∧
    ∀ l, list = .games l → ∃ es : List (GameView × Endpoint), l = es.map gameRecord ∧
      (es.map Prod.fst).Subperm games ∧ ∀ e ∈ es, q.Matches e

/-! ### The bytes of a game -/

def gameBytes (e : GameView × Endpoint) : List Byte := fieldBytes (gameEntry e)

theorem reads_game (e : GameView × Endpoint) : Reader.Reads readGame (gameRecord e) (gameBytes e) := by
  have hu32 : ∀ x : UInt32, Reader.Reads (Reader.uint 4) x.toNat (toLE 4 x.toNat) := fun x => .uint x.toNat_lt
  have hu16 : ∀ x : UInt16, Reader.Reads (Reader.uint 2) x.toNat (toLE 2 x.toNat) := fun x => .uint x.toNat_lt
  have hstr : ∀ t : Text, Reader.Reads Reader.terminated (cstr t) (cstr t ++ [0]) :=
    fun t => .terminated (nulFree_cstr t)
  exact (hu32 _).bind ((hu32 _).bind ((hu16 2).bind ((hu16 _).bind ((hu32 _).bind ((Reader.Reads.zeros 8).bind
    ((hu32 _).bind ((hu32 _).bind ((hstr _).bind ((hstr _).bind ((hstr _).bind (.pure _)))))))))))

/-- The eight zero bytes of a record. -/
theorem zeros_of_readGame {l : List Byte} {p : GameRecord × List Byte} (h : readGame l = some p) :
    (l.drop 16).take 8 = List.replicate 8 0 := by
  obtain ⟨q₁, h₁, h⟩ := Reader.bind_eq_some h
  obtain ⟨q₂, h₂, h⟩ := Reader.bind_eq_some h
  obtain ⟨q₃, h₃, h⟩ := Reader.bind_eq_some h
  obtain ⟨q₄, h₄, h⟩ := Reader.bind_eq_some h
  obtain ⟨q₅, h₅, h⟩ := Reader.bind_eq_some h
  obtain ⟨q₆, h₆, -⟩ := Reader.bind_eq_some h
  have hdrop : q₅.2 = l.drop 16 := by
    rw [Reader.rest_of_uint h₅, Reader.rest_of_uint h₄, Reader.rest_of_uint h₃, Reader.rest_of_uint h₂,
      Reader.rest_of_uint h₁, List.drop_drop, List.drop_drop, List.drop_drop, List.drop_drop]
  rw [← hdrop]
  exact Reader.take_of_zeros h₆

theorem whole_status {code : ℕ} (h : code < 2 ^ 32) :
    readGameList.whole (toLE 4 0 ++ toLE 4 code) = some (.status code) := by
  have hreads : Reader.Reads readGameList (.status code) (toLE 4 0 ++ (toLE 4 code ++ [])) :=
    (Reader.Reads.uint (by decide)).bind ((Reader.Reads.uint h).bind (.pure _))
  rw [List.append_nil] at hreads
  exact hreads.whole_eq

theorem readGameList_games {c : ℕ} (hc : c < 2 ^ 32) (h0 : c ≠ 0) (l : List Byte) :
    readGameList (toLE 4 c ++ l) = (readGame.times c l).map fun p => (.games p.1, p.2) := by
  rw [readGameList, Reader.bind_apply, Reader.Reads.uint hc, Option.bind_some, if_neg h0, Reader.bind_apply,
    Option.map_eq_bind]
  rfl

theorem whole_games {c : ℕ} (hc : c < 2 ^ 32) (h0 : c ≠ 0) (es : List (GameView × Endpoint)) :
    readGameList.whole (toLE 4 c ++ es.flatMap gameBytes) =
      if c = es.length then some (.games (es.map gameRecord)) else none := by
  have htimes := Reader.whole_times reads_game rfl es c
  rw [Reader.whole_map .games (readGameList_games hc h0 _), htimes]
  split_ifs
  · rfl
  · rfl

/-- Behind the eight zero bytes of a game stands its status, which is not zero. -/
theorem gameBytes_status (e : GameView × Endpoint) : ((gameBytes e).drop 20).take 8 ≠ List.replicate 8 0 := by
  intro h
  have hbytes : ((gameBytes e).drop 20).take 8 = toLE 4 0 ++ toLE 4 ((e.1.flag &&& 0x02) ||| 0x04).toNat := rfl
  rw [hbytes] at h
  have hstatus : ofLE (toLE 4 ((e.1.flag &&& 0x02) ||| 0x04).toNat) = 0 := congrArg (fun l => ofLE (l.drop 4)) h
  rw [ofLE_toLE_of_lt (UInt32.toNat_lt _), UInt32.toNat_or] at hstatus
  exact absurd hstatus (Nat.ne_of_gt (lt_of_lt_of_le (by decide : 0 < (0x04 : UInt32).toNat) Nat.right_le_or))

theorem length_gameBytes (e : GameView × Endpoint) : 35 ≤ (gameBytes e).length := by
  rw [gameBytes, length_fieldBytes, fieldsSize_gameEntry, gameEntrySize]
  omega

/-- A count and games are not the bytes of a game. -/
theorem listing_ne_gameBytes (es : List (GameView × Endpoint)) (c : UInt32) (e : GameView × Endpoint) :
    toLE 4 c.toNat ++ (es.flatMap gameBytes ++ if c = 0 then toLE 4 0 else []) ≠ gameBytes e := by
  intro h
  rcases es with _ | ⟨e', es⟩
  · have hrest : (if c = 0 then toLE 4 0 else []).length ≤ 4 := by
      split_ifs
      · exact le_of_eq (length_toLE 4 0)
      · exact Nat.zero_le 4
    have hlen := congrArg List.length h
    have := length_gameBytes e
    rw [List.flatMap_nil, List.nil_append, List.length_append, length_toLE] at hlen
    omega
  · rw [List.flatMap_cons, List.append_assoc] at h
    refine gameBytes_status e ?_
    rw [← h]
    rfl

/-- Nor are they a refusal. -/
theorem listing_ne_refusal (es : List (GameView × Endpoint)) (c : UInt32) (code : ℕ) (hcode : toLE 4 code ≠ toLE 4 0) :
    toLE 4 c.toNat ++ (es.flatMap gameBytes ++ if c = 0 then toLE 4 0 else []) ≠ toLE 4 0 ++ toLE 4 code := by
  intro h
  have hlen := congrArg List.length h
  rcases es with _ | ⟨e, es⟩
  · by_cases hc : c = 0
    · rw [hc, if_pos rfl, List.flatMap_nil, List.nil_append] at h
      exact hcode (List.append_cancel_left h).symm
    · rw [if_neg hc] at hlen
      simp at hlen
  · have := length_gameBytes e
    simp only [List.flatMap_cons, List.length_append, length_toLE] at hlen
    omega

theorem refusal_ne_gameBytes (code : ℕ) (e : GameView × Endpoint) : toLE 4 0 ++ toLE 4 code ≠ gameBytes e := by
  intro h
  have hlen := congrArg List.length h
  have := length_gameBytes e
  rw [List.length_append, length_toLE, length_toLE] at hlen
  omega

/-- A game alone is no list: its status stands where the first game of a list has zero bytes. -/
theorem whole_gameBytes (e : GameView × Endpoint) : readGameList.whole (gameBytes e) = none := by
  have hbytes : gameBytes e = toLE 4 e.1.type.toNat ++ (gameBytes e).drop 4 := rfl
  have hgame : readGame ((gameBytes e).drop 4) = none := by
    refine Option.eq_none_iff_forall_ne_some.mpr fun p hp => gameBytes_status e ?_
    rw [← zeros_of_readGame hp, List.drop_drop]
  rw [hbytes]
  by_cases h0 : e.1.type.toNat = 0
  · -- a status would end the list
    have hread : readGameList (toLE 4 0 ++ (gameBytes e).drop 4) =
        some (.status e.1.option.toNat, (gameBytes e).drop 8) := by
      have hreads : Reader.Reads readGameList (.status e.1.option.toNat) (toLE 4 0 ++ (toLE 4 e.1.option.toNat ++ [])) :=
        (Reader.Reads.uint (by decide)).bind ((Reader.Reads.uint e.1.option.toNat_lt).bind (.pure _))
      exact hreads _
    rw [h0, Reader.whole, hread]
    rfl
  · obtain ⟨n, hn⟩ := Nat.exists_eq_succ_of_ne_zero h0
    rw [Reader.whole, readGameList_games e.1.type.toNat_lt h0, hn, Reader.times, Reader.bind_apply, hgame]
    rfl

/-! ### The loop -/

section Listing

variable (q : AdvQuery)

/-- The games that match, with their hosts. -/
def AdvQuery.matching (games : List GameView) : List (GameView × Endpoint) :=
  games.filterMap fun g => (q.wanted g).map fun h => (g, h)

variable {q}

theorem matching_cons_none {g : GameView} (h : q.wanted g = none) (games : List GameView) :
    q.matching (g :: games) = q.matching games := by
  simp [AdvQuery.matching, h]

theorem matching_cons_some {g : GameView} {ep : Endpoint} (h : q.wanted g = some ep) (games : List GameView) :
    q.matching (g :: games) = (g, ep) :: q.matching games := by
  simp [AdvQuery.matching, h]

theorem toNat_succ {c m : UInt32} (h : c < m) : (c + 1).toNat = c.toNat + 1 := by
  have hlt := m.toNat_lt
  rw [UInt32.lt_iff_toNat_lt] at h
  rw [UInt32.toNat_add, UInt32.toNat_one, Nat.mod_eq_of_lt (by omega)]

/-- As long as the counter is below `maxcount`: the games behind `startidx` are written, and the counter stops there. -/
theorem listed_of_lt (games : List GameView) {c : UInt32} (hc : c < q.maxcount) :
    q.listed c games = (((q.matching games).take (q.maxcount.toNat - c.toNat)).drop (q.startidx.toNat - c.toNat),
      UInt32.ofNat (min (c.toNat + (q.matching games).length) q.maxcount.toNat)) := by
  have hlt := UInt32.lt_iff_toNat_lt.mp hc
  induction games generalizing c with
  | nil =>
    have hmin : min (c.toNat + 0) q.maxcount.toNat = c.toNat := by omega
    simp only [AdvQuery.listed, AdvQuery.matching, List.filterMap_nil, List.take_nil, List.drop_nil, List.length_nil, hmin,
      UInt32.ofNat_toNat]
  | cons g games ih =>
    have hne : c ≠ q.maxcount := fun e => by rw [e] at hlt; exact lt_irrefl _ hlt
    rw [AdvQuery.listed]
    cases hw : q.wanted g with
    | none => rw [if_neg hne, ih hc hlt, matching_cons_none hw]
    | some ep =>
      have hsucc := toNat_succ hc
      have hhere : (if c + 1 > q.startidx ∧ c + 1 ≤ q.maxcount then [(g, ep)] else []) =
          [(g, ep)].drop (q.startidx.toNat - c.toNat) := by
        have hiff : (c + 1 > q.startidx ∧ c + 1 ≤ q.maxcount) ↔ q.startidx.toNat ≤ c.toNat := by
          rw [gt_iff_lt, UInt32.lt_iff_toNat_lt, UInt32.le_iff_toNat_le, hsucc]
          omega
        by_cases hs : q.startidx.toNat ≤ c.toNat
        · rw [if_pos (hiff.mpr hs), Nat.sub_eq_zero_of_le hs, List.drop_zero]
        · rw [if_neg (mt hiff.mp hs), List.drop_eq_nil_of_le (by rw [List.length_singleton]; omega)]
      rw [matching_cons_some hw, List.length_cons]
      dsimp only
      rw [hhere]
      by_cases hend : c + 1 = q.maxcount
      · have hmax : q.maxcount.toNat = c.toNat + 1 := by rw [← hend, hsucc]
        have htake : ((g, ep) :: q.matching games).take 1 = [(g, ep)] := rfl
        rw [if_pos hend, hmax, Nat.add_sub_cancel_left, htake, Nat.min_eq_right (by omega), ← hsucc, UInt32.ofNat_toNat]
      · have hlt' : (c + 1).toNat < q.maxcount.toNat := by
          have : (c + 1).toNat ≠ q.maxcount.toNat := fun e => hend (UInt32.toNat_inj.mp e)
          omega
        have hmax : q.maxcount.toNat - c.toNat = q.maxcount.toNat - (c.toNat + 1) + 1 := by omega
        have hcount : c.toNat + 1 + (q.matching games).length = c.toNat + ((q.matching games).length + 1) := by omega
        rw [if_neg hend, ih (UInt32.lt_iff_toNat_lt.mpr hlt') hlt', hsucc, hmax, hcount, List.take_succ_cons,
          ← List.singleton_append (l := List.take _ _), List.drop_append, List.length_singleton, Nat.sub_sub]

/-- Without a `maxcount` nothing is written; the counter counts on, and would stop at 2^32. -/
theorem listed_of_zero (hmax : q.maxcount = 0) (games : List GameView) {c : UInt32} (hc : c ≠ 0) :
    q.listed c games = ([], if c.toNat + (q.matching games).length < 2 ^ 32 then
      UInt32.ofNat (c.toNat + (q.matching games).length) else 0) := by
  have hlt := c.toNat_lt
  induction games generalizing c with
  | nil =>
    rw [AdvQuery.listed, AdvQuery.matching, List.filterMap_nil, List.length_nil, Nat.add_zero, if_pos hlt,
      UInt32.ofNat_toNat]
  | cons g games ih =>
    rw [AdvQuery.listed]
    cases hw : q.wanted g with
    | none => rw [if_neg (hmax ▸ hc), ih hc hlt, matching_cons_none hw]
    | some ep =>
      have hhere : ¬(c + 1 > q.startidx ∧ c + 1 ≤ q.maxcount) := by
        rw [hmax, gt_iff_lt, UInt32.lt_iff_toNat_lt, UInt32.le_iff_toNat_le, UInt32.toNat_zero]
        omega
      rw [matching_cons_some hw, List.length_cons]
      dsimp only
      rw [if_neg hhere, List.nil_append, hmax]
      by_cases hend : c.toNat + 1 = 2 ^ 32
      · have hzero : c + 1 = 0 := by
          rw [← UInt32.toNat_inj, UInt32.toNat_add, UInt32.toNat_one, hend]
          rfl
        rw [if_pos hzero, if_neg (by omega), hzero]
      · have hsucc : (c + 1).toNat = c.toNat + 1 := by
          rw [UInt32.toNat_add, UInt32.toNat_one, Nat.mod_eq_of_lt (by omega)]
        have hne : c + 1 ≠ 0 := fun e => by
          rw [e, UInt32.toNat_zero] at hsucc
          omega
        have hcount : c.toNat + 1 + (q.matching games).length = c.toNat + ((q.matching games).length + 1) := by omega
        rw [if_neg hne, ih hne (UInt32.toNat_lt _), hsucc, hcount]

theorem wanted_eq_some {g : GameView} {ep : Endpoint} : q.wanted g = some ep ↔
    ((q.mask = 0 ∨ g.type &&& q.mask = q.cond &&& q.mask) ∧ g.broadcast = true) ∧ g.host = some ep := by
  unfold AdvQuery.wanted
  split_ifs with h
  · exact (and_iff_right h).symm
  · simp [h]

theorem matches_of_matching (hname : q.gamename = []) {games : List GameView} {e : GameView × Endpoint}
    (h : e ∈ q.matching games) : q.Matches e := by
  obtain ⟨g, -, hg⟩ := List.mem_filterMap.mp h
  obtain ⟨ep, hep, rfl⟩ := Option.map_eq_some_iff.mp hg
  obtain ⟨hsel, hhost⟩ := wanted_eq_some.mp hep
  exact ⟨hhost, by rw [if_pos hname]; exact hsel⟩

theorem matching_sublist (games : List GameView) : ((q.matching games).map Prod.fst).Sublist games := by
  induction games with
  | nil => exact .slnil
  | cons g games ih =>
    cases hw : q.wanted g with
    | none =>
      rw [matching_cons_none hw]
      exact ih.cons g
    | some ep =>
      rw [matching_cons_some hw]
      exact ih.cons_cons g

theorem matching_eq_nil {games : List GameView} : q.matching games = [] ↔ ∀ g ∈ games, q.wanted g = none := by
  simp [AdvQuery.matching, List.filterMap_eq_nil_iff]

end Listing

/-! ### Which lists can be read -/

section

variable {q : AdvQuery} {games : List GameView}

theorem fieldBytes_listing (es : List (GameView × Endpoint)) (c : UInt32) :
    fieldBytes (.u32 c :: (es.flatMap gameEntry ++ if c = 0 then [.u32 0] else [])) =
      toLE 4 c.toNat ++ (es.flatMap gameBytes ++ if c = 0 then toLE 4 0 else []) := by
  have hif : (if c = 0 then [Field.u32 0] else []).flatMap Field.bytes = if c = 0 then toLE 4 0 else [] := by
    split_ifs
    · rfl
    · rfl
  rw [fieldBytes, List.flatMap_cons, List.flatMap_append, hif, List.flatMap_assoc]
  rfl

/-- Without a name, the answer is a list, and none of those to a name. -/
theorem unnamed_ne (games : List GameView) (hname : q.gamename = []) (e : GameView × Endpoint) {code : ℕ}
    (hcode : toLE 4 code ≠ toLE 4 0) :
    fieldBytes (packAdvListEx q games) ≠ gameBytes e ∧
      fieldBytes (packAdvListEx q games) ≠ toLE 4 0 ++ toLE 4 code := by
  rw [packAdvListEx, if_pos hname]
  dsimp only
  rw [fieldBytes_listing]
  exact ⟨listing_ne_gameBytes _ _ e, listing_ne_refusal _ _ code hcode⟩

/-- A list of some of the games that match, behind a count. -/
theorem wellFormed_listing_iff {es : List (GameView × Endpoint)} {c : UInt32} (hname : q.gamename = [])
    (hes : es.Sublist (q.matching games)) (hzero : c = 0 → es = []) :
    WellFormed q games (toLE 4 c.toNat ++ (es.flatMap gameBytes ++ if c = 0 then toLE 4 0 else [])) ↔
      c = 0 ∨ es.length = c.toNat := by
  by_cases hc : c = 0
  · subst hc
    rw [hzero rfl, if_pos rfl]
    refine iff_of_true ⟨.status 0, whole_status (by decide), fun l hl => ?_⟩ (.inl rfl)
    cases hl
  · have hc0 : c.toNat ≠ 0 := fun e => hc (UInt32.toNat_inj.mp e)
    rw [if_neg hc, List.append_nil, or_iff_right hc, WellFormed, whole_games c.toNat_lt hc0]
    constructor
    · rintro ⟨list, hlist, -⟩
      split_ifs at hlist with hlen
      exact hlen.symm
    · intro hlen
      rw [if_pos hlen.symm]
      refine ⟨_, rfl, fun l hl => ⟨es, (GameList.games.inj hl).symm, ?_, fun e he => ?_⟩⟩
      · exact ((hes.map Prod.fst).trans (matching_sublist games)).subperm
      · exact matches_of_matching hname (hes.subset he)

/-- The requests whose answer can be read. By name, those that are refused; else, those for all games from the first
one on, and those that nothing is counted for. -/
def AdvQuery.Readable (q : AdvQuery) (games : List GameView) : Prop :=
  if q.gamename ≠ [] then ∀ e, q.named games ≠ .ok e
  else if q.maxcount ≠ 0 then q.startidx = 0 ∨ ∀ g ∈ games, q.wanted g = none
  else (∀ g, games.head? = some g → q.wanted g = none) ∨ 2 ^ 32 ≤ (q.matching games).length

theorem wellFormed_named_iff (hname : q.gamename ≠ []) :
    WellFormed q games (fieldBytes (packAdvListEx q games)) ↔ ∀ e, q.named games ≠ .ok e := by
  rw [packAdvListEx, if_neg hname]
  cases hq : q.named games with
  | error code =>
    refine iff_of_true ⟨.status code.toNat, ?_, fun l hl => ?_⟩ fun e he => ?_
    · exact whole_status code.toNat_lt
    · cases hl
    · cases he
  | ok e =>
    refine iff_of_false (fun h => ?_) fun h => h e rfl
    obtain ⟨list, hlist, -⟩ := h
    have hbytes := whole_gameBytes e
    rw [gameBytes] at hbytes
    rw [hbytes] at hlist
    cases hlist

theorem wellFormed_counted_iff (hname : q.gamename = []) (hmax : q.maxcount ≠ 0) :
    WellFormed q games (fieldBytes (packAdvListEx q games)) ↔ q.startidx = 0 ∨ ∀ g ∈ games, q.wanted g = none := by
  have hpos : 0 < q.maxcount.toNat := Nat.pos_of_ne_zero fun e => hmax (UInt32.toNat_inj.mp e)
  have hlisted := listed_of_lt (q := q) games (c := 0) (UInt32.lt_iff_toNat_lt.mpr hpos)
  rw [UInt32.toNat_zero, Nat.zero_add, Nat.sub_zero, Nat.sub_zero] at hlisted
  set c := UInt32.ofNat (min (q.matching games).length q.maxcount.toNat) with hc
  have hcount : c.toNat = min (q.matching games).length q.maxcount.toNat := by
    have hlt := q.maxcount.toNat_lt
    rw [hc, UInt32.toNat_ofNat', Nat.mod_eq_of_lt (by omega)]
  have hzero : c = 0 ↔ q.matching games = [] := by
    rw [← UInt32.toNat_inj, UInt32.toNat_zero, hcount, ← List.length_eq_zero_iff]
    omega
  have hsub := (List.drop_sublist q.startidx.toNat _).trans (List.take_sublist q.maxcount.toNat (q.matching games))
  rw [packAdvListEx, if_pos hname, hlisted]
  dsimp only
  rw [fieldBytes_listing, wellFormed_listing_iff hname hsub fun h => by rw [hzero.mp h, List.take_nil, List.drop_nil],
    ← matching_eq_nil, hzero, List.length_drop, List.length_take, hcount, ← UInt32.toNat_inj, UInt32.toNat_zero,
    ← List.length_eq_zero_iff]
  omega

theorem wellFormed_uncounted_iff (hname : q.gamename = []) (hmax : q.maxcount = 0) :
    WellFormed q games (fieldBytes (packAdvListEx q games)) ↔
      (∀ g, games.head? = some g → q.wanted g = none) ∨ 2 ^ 32 ≤ (q.matching games).length := by
  -- nothing is written, so the count must be zero
  have hempty : ∀ c, q.listed 0 games = ([], c) →
      (WellFormed q games (fieldBytes (packAdvListEx q games)) ↔ c = 0) := by
    intro c hc
    rw [packAdvListEx, if_pos hname, hc]
    dsimp only
    rw [fieldBytes_listing, wellFormed_listing_iff hname (List.nil_sublist _) fun _ => rfl, List.length_nil,
      ← UInt32.toNat_inj, UInt32.toNat_zero]
    omega
  rcases games with _ | ⟨g, games⟩
  · exact (hempty 0 rfl).trans (iff_of_true rfl (.inl fun g hg => by cases hg))
  · have hhead : (∀ g', (g :: games).head? = some g' → q.wanted g' = none) ↔ q.wanted g = none := by simp
    rw [hhead]
    cases hw : q.wanted g with
    | none =>
      have hlisted : q.listed 0 (g :: games) = ([], 0) := by
        simp only [AdvQuery.listed, hw, hmax, if_true]
      exact (hempty 0 hlisted).trans (iff_of_true rfl (.inl rfl))
    | some ep =>
      have hlisted : q.listed 0 (g :: games) = q.listed 1 games := by
        have hone : ¬((1 : UInt32) > q.startidx ∧ (1 : UInt32) ≤ 0) := fun h => absurd h.2 (by decide)
        simp only [AdvQuery.listed, hw, hmax, UInt32.zero_add, if_neg hone, if_neg (by decide : (1 : UInt32) ≠ 0),
          List.nil_append]
      rw [listed_of_zero hmax games (by decide), UInt32.toNat_one] at hlisted
      rw [hempty _ hlisted, matching_cons_some hw, List.length_cons]
      refine Iff.trans ?_ (or_iff_right (by simp)).symm
      split_ifs with hlt
      · refine iff_of_false (fun h => ?_) (by omega)
        rw [← UInt32.toNat_inj, UInt32.toNat_ofNat', Nat.mod_eq_of_lt hlt, UInt32.toNat_zero] at h
        omega
      · exact iff_of_true rfl (by omega)

/-- **Which answers can be read.** -/
theorem wellFormed_iff : WellFormed q games (fieldBytes (packAdvListEx q games)) ↔ q.Readable games := by
  unfold AdvQuery.Readable
  split_ifs with hname hmax
  · exact wellFormed_named_iff hname
  · exact wellFormed_counted_iff (not_not.mp hname) hmax
  · exact wellFormed_uncounted_iff (not_not.mp hname) (not_not.mp hmax)

/-- One open game, asked for by its name, by a list behind the first game, and by a list without a greatest count. -/
theorem open_game_unreadable :
    let game : GameView := ⟨str "melee", 0, 0, 2, 0, [], [], true, some ⟨6112, 0x0A000001⟩⟩
    readGameList.whole (fieldBytes (packAdvListEx ⟨str "melee", [], [], 0, 20, 0, 0⟩ [game])) = none ∧
      readGameList.whole (fieldBytes (packAdvListEx ⟨[], [], [], 1, 20, 0, 0⟩ [game])) = none ∧
      readGameList.whole (fieldBytes (packAdvListEx ⟨[], [], [], 0, 0, 0, 0⟩ [game])) = none := by
  decide +kernel

end

end Blitzd.Packets
