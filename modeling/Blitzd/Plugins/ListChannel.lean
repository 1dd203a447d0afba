import Blitzd.Cache.ChannelConfig
import Blitzd.Packets.BNet

/-! # Listing channels (`ListChannel`)

The channel cache also lists the channels by game. A client is shown the channels of its game and those of game 0; for
the second loop the reference to the list of the client's game is assigned to, so that the list itself becomes that of
game 0. The next client of the game is shown the channels of game 0 twice, and those of its game no more; a client
without game is shown them twice anyway.

`pure_query_iff`: a sequence of requests leaves the cache alone and is answered right exactly when there is nothing to
list for any of them, and nothing to overwrite. -/

namespace Blitzd.Plugins.ListChannel

open Blitzd.Lib Blitzd.Lib.Bytes Blitzd.Utils.CString Blitzd.Cache Blitzd.Packets
open Blitzd.Cache.ChannelCache (channelFile)

/-! ### The channels by game -/

/-- A channel cache with its lists by game; a game without an entry has the empty list. -/
structure Directory where
  cache : ChannelCache
  lists : UInt32 → List ChanId

namespace Directory

/-- `Add`. -/
def add (d : Directory) (ch : Channel) : Directory where
  cache := (d.cache.add ch).2
  lists := Function.update d.lists ch.gameid (d.lists ch.gameid ++ [(d.cache.add ch).1])

/-- `Load`. -/
def load (rows : List ChannelRow) : Directory := (configured rows).foldl add ⟨ChannelCache.empty, fun _ => []⟩

/-- What the packet reads of a channel. -/
def view (d : Directory) (current : Option ChanId) (ch : ChanId) : ChannelView :=
  ⟨(d.cache.get ch).name, (d.cache.get ch).spawned, current = some ch⟩

end Directory

/-- A request, by the game and the channel of its client. -/
structure Request where
  gameId : UInt32
  channel : Option ChanId

namespace Directory

/-- `ListChannel::Process`: the packet that is sent, and what has become of the cache. -/
def listChannel (d : Directory) (q : Request) : Packet × Directory :=
  let own := (d.lists q.gameId).map (d.view q.channel)
  -- `itemlist` is the list of the game, not a copy
  let d' : Directory := { d with lists := Function.update d.lists q.gameId (d.lists 0) }
  let common := (d'.lists q.gameId).map (d'.view q.channel)
  (.listChannel own common, d')

/-! ### Lists as they should be -/

variable {d d' d₀ : Directory} {q : Request}

/-- A channel the client of a request is to be shown. -/
def Shown (d : Directory) (q : Request) (ch : ChanId) : Prop :=
  (ch ∈ d.lists q.gameId ∨ ch ∈ d.lists 0) ∧ (d.cache.get ch).spawned = false ∧ q.channel ≠ some ch

/-- The names of the channels, as they are packed. -/
def nameBytes (d : Directory) (chs : List ChanId) : List Byte :=
  fieldBytes (chs.map (fun ch => .str (d.cache.get ch).name) ++ [.u8 0])

/-- The packet has the names of all these channels, each of them once. -/
def Lists (d : Directory) (q : Request) (p : Packet) : Prop :=
  ∃ chs : List ChanId, chs.Nodup ∧ (∀ ch, ch ∈ chs ↔ d.Shown q ch) ∧ p.pack.map fieldBytes = some (d.nameBytes chs)

/-- There is nothing to show, and nothing is overwritten. -/
def Silent (d : Directory) (q : Request) : Prop :=
  d.lists q.gameId = d.lists 0 ∧ ∀ ch ∈ d.lists 0, (d.cache.get ch).spawned = true ∨ q.channel = some ch

/-- The channels of a list that are shown. -/
def kept (d : Directory) (current : Option ChanId) (l : List ChanId) : List ChanId :=
  l.filter fun ch => !(d.cache.get ch).spawned && !decide (current = some ch)

theorem mem_kept {current : Option ChanId} {l : List ChanId} {ch : ChanId} :
    ch ∈ d.kept current l ↔ ch ∈ l ∧ (d.cache.get ch).spawned = false ∧ current ≠ some ch := by
  simp [kept]

theorem pack_listChannel (d : Directory) (q : Request) : (d.listChannel q).1.pack.map fieldBytes =
    some (d.nameBytes (d.kept q.channel (d.lists q.gameId) ++ d.kept q.channel (d.lists 0))) := by
  have hshown : ∀ l : List ChanId, shown (l.map (d.view q.channel)) = (d.kept q.channel l).map (d.view q.channel) := by
    intro l
    rw [shown, List.filter_map]
    rfl
  have hpack : (d.listChannel q).1.pack =
      some ((shown ((d.lists q.gameId).map (d.view q.channel)) ++
        shown ((Function.update d.lists q.gameId (d.lists 0) q.gameId).map (d.view q.channel))).map
          (fun ch => .str ch.name) ++ [.u8 0]) := rfl
  rw [hpack, Option.map_some, Function.update_self, hshown, hshown, ← List.map_append, List.map_map]
  rfl

/-- A name has no zero byte but the one behind it. -/
theorem count_nameBytes (d : Directory) (chs : List ChanId) : (d.nameBytes chs).count 0 = chs.length + 1 := by
  induction chs with
  | nil => rfl
  | cons ch chs ih =>
    have hname : (d.cache.get ch).name.1.count 0 = 0 :=
      List.count_eq_zero.mpr fun h => (d.cache.get ch).name.2 0 h rfl
    have hcons : d.nameBytes (ch :: chs) = (d.cache.get ch).name.1 ++ [0] ++ d.nameBytes chs := rfl
    rw [hcons, List.count_append, List.count_append, hname, ih, List.length_cons]
    simp
    omega

/-- **One request.** -/
theorem listChannel_iff (d : Directory) (q : Request) :
    (d.listChannel q).2 = d ∧ d.Lists q (d.listChannel q).1 ↔ d.Silent q := by
  have hafter : (d.listChannel q).2 = d ↔ d.lists q.gameId = d.lists 0 := by
    constructor
    · intro h
      have hlist : Function.update d.lists q.gameId (d.lists 0) q.gameId = d.lists q.gameId :=
        congrArg (fun d : Directory => d.lists q.gameId) h
      rw [← hlist, Function.update_self]
    · intro h
      have hlists : Function.update d.lists q.gameId (d.lists 0) = d.lists := Function.update_eq_self_iff.mpr h.symm
      rw [listChannel, hlists]
  rw [hafter, Silent]
  refine and_congr_right fun hsame => ?_
  have hkept : d.kept q.channel (d.lists 0) = [] ↔
      ∀ ch ∈ d.lists 0, (d.cache.get ch).spawned = true ∨ q.channel = some ch := by
    rw [List.eq_nil_iff_forall_not_mem]
    refine forall_congr' fun ch => ?_
    rw [mem_kept]
    by_cases hspawn : (d.cache.get ch).spawned = true <;> simp [hspawn]
  rw [← hkept, Lists, pack_listChannel, hsame]
  constructor
  · rintro ⟨chs, hnodup, hmem, hbytes⟩
    -- every channel is named twice, but at most once in `chs`
    have hcount := congrArg (fun l => List.count 0 l) (Option.some.inj hbytes)
    rw [count_nameBytes, count_nameBytes, List.length_append] at hcount
    have hsub : chs ⊆ d.kept q.channel (d.lists 0) := fun ch hch => by
      obtain ⟨hreg, hshow⟩ := (hmem ch).mp hch
      rw [hsame, or_self] at hreg
      exact mem_kept.mpr ⟨hreg, hshow⟩
    have hle := (hnodup.subperm hsub).length_le
    exact List.length_eq_zero_iff.mp (by omega)
  · intro hnone
    refine ⟨[], List.nodup_nil, fun ch => ?_, by rw [hnone]; rfl⟩
    refine iff_of_false List.not_mem_nil fun ⟨hreg, hshow⟩ => ?_
    rw [hsame, or_self] at hreg
    have hmem := mem_kept.mpr ⟨hreg, hshow⟩
    rw [hnone] at hmem
    exact absurd hmem List.not_mem_nil

/-! ### Sequences of requests -/

variable {hist : List (Entry Directory Request)}

def Step (d : Directory) (q : Request) (d' : Directory) : Prop := d' = (d.listChannel q).2

/-- What was sent. -/
def reply (x : Entry Directory Request) : Packet := (x.before.listChannel x.event).1

/-- The request left the cache alone and was answered right. -/
def Answered (x : Entry Directory Request) : Prop := x.after = x.before ∧ x.before.Lists x.event (reply x)

theorem before_of_unchanged (hr : Run Step d₀ hist d) (h : ∀ x ∈ hist, x.after = x.before) :
    d = d₀ ∧ ∀ x ∈ hist, x.before = d₀ := by
  induction hr with
  | nil => exact ⟨rfl, fun x hx => absurd hx List.not_mem_nil⟩
  | snoc _ _ ih =>
    obtain ⟨hlast, hrest⟩ := List.forall_mem_cons.mp h
    obtain ⟨hd, hbefore⟩ := ih hrest
    exact ⟨hlast.trans hd, List.forall_mem_cons.mpr ⟨hd, hbefore⟩⟩

theorem answered_iff (hr : Run Step d₀ hist d) : (∀ x ∈ hist, Answered x) ↔ ∀ x ∈ hist, d₀.Silent x.event := by
  induction hr with
  | nil => exact iff_of_true (fun x hx => absurd hx List.not_mem_nil) fun x hx => absurd hx List.not_mem_nil
  | @snoc hist d d' q hr hs ih =>
    rw [List.forall_mem_cons, List.forall_mem_cons, ← ih]
    refine and_congr_left fun hrest => ?_
    obtain ⟨rfl, -⟩ := before_of_unchanged hr fun x hx => (hrest x hx).1
    obtain rfl : d' = (d.listChannel q).2 := hs
    exact listChannel_iff d q

/-- **Which requests are a pure query.** A sequence of requests leaves the cache alone, is answered right, and equal
requests get equal answers, exactly when there is nothing to list or to overwrite for any of them. -/
theorem pure_query_iff (hr : Run Step d₀ hist d) :
    (∀ x ∈ hist, x.after = x.before ∧ x.before.Lists x.event (reply x)) ∧
        (∀ x ∈ hist, ∀ y ∈ hist, x.event = y.event → reply x = reply y) ↔
      ∀ x ∈ hist, d₀.Silent x.event := by
  refine ⟨fun h => (answered_iff hr).mp h.1, fun h => ?_⟩
  have hall := (answered_iff hr).mpr h
  obtain ⟨-, hbefore⟩ := before_of_unchanged hr fun x hx => (hall x hx).1
  refine ⟨hall, fun x hx y hy he => ?_⟩
  rw [reply, reply, hbefore x hx, hbefore y hy, he]

/-! ### Loaded channels -/

/-- The lists have each channel under its game. -/
def Filed (d : Directory) : Prop := ∀ t ch, ch ∈ d.lists t ↔ ch < d.cache.heap.brk ∧ (d.cache.get ch).gameid = t

theorem Filed.add (h : d.Filed) (ch : Channel) : (d.add ch).Filed := by
  intro t id
  have hlists : (d.add ch).lists t = if t = ch.gameid then d.lists ch.gameid ++ [d.cache.heap.brk] else d.lists t :=
    Function.update_apply _ _ _ _
  have hbrk : (d.add ch).cache.heap.brk = d.cache.heap.brk + 1 := rfl
  have hmem : id ∈ (d.add ch).lists t ↔ id ∈ d.lists t ∨ (t = ch.gameid ∧ id = d.cache.heap.brk) := by
    rw [hlists]
    split_ifs with ht
    · rw [List.mem_append, List.mem_singleton, ht, and_iff_right rfl]
    · simp [ht]
  rw [hmem, h t id, hbrk]
  by_cases hid : id = d.cache.heap.brk
  · have hget : (d.add ch).cache.get id = ch := by
      rw [hid]
      exact ChannelCache.get_add_self d.cache ch
    rw [hget]
    constructor
    · rintro (⟨hlt, -⟩ | ⟨ht, -⟩)
      · exact absurd hid (Nat.ne_of_lt hlt)
      · exact ⟨hid ▸ Nat.lt_succ_self _, ht.symm⟩
    · exact fun ⟨_, ht⟩ => .inr ⟨ht.symm, hid⟩
  · have hget : (d.add ch).cache.get id = d.cache.get id := ChannelCache.get_add_ne d.cache ch hid
    rw [hget]
    constructor
    · rintro (⟨hlt, ht⟩ | ⟨-, he⟩)
      · exact ⟨Nat.lt_succ_of_lt hlt, ht⟩
      · exact absurd he hid
    · exact fun ⟨hlt, ht⟩ => .inl ⟨lt_of_le_of_ne (Nat.le_of_lt_succ hlt) hid, ht⟩

theorem filed_load (rows : List ChannelRow) : (load rows).Filed := by
  have hfold : ∀ (ts : List Channel) (d : Directory), d.Filed → (ts.foldl add d).Filed := by
    intro ts
    induction ts with
    | nil => exact fun _ h => h
    | cons x ts ih => exact fun d h => ih (d.add x) (h.add x)
  refine hfold _ _ fun t ch => iff_of_false List.not_mem_nil fun h => ?_
  exact absurd h.1 (Nat.not_lt_zero ch)

/-- With the lists as `Load` makes them: a client of a game must find no channel at all, neither of its game nor of
game 0; one without a game, none that it is to be shown. -/
theorem Filed.silent_iff (h : d.Filed) (q : Request) : d.Silent q ↔
    if q.gameId = 0 then ∀ ch < d.cache.heap.brk, (d.cache.get ch).gameid = 0 →
      (d.cache.get ch).spawned = true ∨ q.channel = some ch
    else ∀ ch < d.cache.heap.brk, (d.cache.get ch).gameid ≠ q.gameId ∧ (d.cache.get ch).gameid ≠ 0 := by
  split_ifs with hg
  · rw [Silent, hg, and_iff_right rfl]
    exact ⟨fun hs ch hlt hgame => hs ch ((h 0 ch).mpr ⟨hlt, hgame⟩), fun hs ch hmem =>
      have ⟨hlt, hgame⟩ := (h 0 ch).mp hmem
      hs ch hlt hgame⟩
  · constructor
    · rintro ⟨hsame, -⟩ ch hlt
      -- no channel is on both lists
      have hboth : ∀ t, (d.cache.get ch).gameid = t → d.lists t = d.lists q.gameId → False := by
        intro t ht hlist
        have hmem : ch ∈ d.lists q.gameId := hlist ▸ (h t ch).mpr ⟨hlt, ht⟩
        have hown := ((h _ ch).mp hmem).2
        exact hg (hown.symm.trans ((h 0 ch).mp (hsame ▸ hmem)).2)
      exact ⟨fun ht => hboth _ ht rfl, fun ht => hboth 0 ht hsame.symm⟩
    · intro hnone
      have hempty : ∀ t, t = q.gameId ∨ t = 0 → d.lists t = [] := by
        intro t ht
        rw [List.eq_nil_iff_forall_not_mem]
        intro ch hmem
        obtain ⟨hlt, hgame⟩ := (h t ch).mp hmem
        obtain ⟨hown, hzero⟩ := hnone ch hlt
        rcases ht with rfl | rfl
        · exact hown hgame
        · exact hzero hgame
      refine ⟨(hempty _ (.inl rfl)).trans (hempty 0 (.inr rfl)).symm, fun ch hmem => ?_⟩
      rw [hempty 0 (.inr rfl)] at hmem
      exact absurd hmem List.not_mem_nil

/-- A client of "W3XP" that is in no channel. -/
def fromW3xp : Request := ⟨0x57335850, none⟩

/-- One channel, of another game. -/
def diabloFile : List ChannelRow :=
  let none : Name := ⟨[], nulFree_nil⟩
  [⟨⟨str "Diablo", by decide⟩, none, ⟨str "D2DV", by decide⟩, none, none, none, none⟩]

/-- With nothing to list, the client may ask twice. -/
theorem nothing_to_list : ∃ hist, Run Step (load diabloFile) hist (load diabloFile) ∧ hist.length = 2 ∧
    (∀ x ∈ hist, x.after = x.before ∧ x.before.Lists x.event (reply x)) ∧
      ∀ x ∈ hist, ∀ y ∈ hist, x.event = y.event → reply x = reply y := by
  have hsilent : (load diabloFile).Silent fromW3xp := by
    have hlists : (load diabloFile).lists 0x57335850 = [] ∧ (load diabloFile).lists 0 = [] := by decide +kernel
    refine ⟨hlists.1.trans hlists.2.symm, fun ch hch => ?_⟩
    rw [hlists.2] at hch
    exact absurd hch List.not_mem_nil
  have hstep : Step (load diabloFile) fromW3xp (load diabloFile) := ((listChannel_iff _ _).mpr hsilent).1.symm
  have hr : Run Step (load diabloFile) [⟨_, fromW3xp, _⟩, ⟨_, fromW3xp, _⟩] (load diabloFile) :=
    .snoc (.snoc .nil hstep) hstep
  refine ⟨_, hr, rfl, (pure_query_iff hr).mpr fun x hx => ?_⟩
  simp only [List.mem_cons, List.not_mem_nil, or_false, or_self] at hx
  rw [hx]
  exact hsilent

/-- The channels of `channel.xml`, asked for twice: the second answer has lost the channel of the game, and has the
other one twice. -/
theorem second_answer_differs :
    ((load channelFile).listChannel fromW3xp).1.pack.map fieldBytes =
        some ((str "Warcraft III" ++ [0]) ++ (str "Chat" ++ [0]) ++ [0]) ∧
      (load channelFile).lists 0x57335850 = [0] ∧
      ((load channelFile).listChannel fromW3xp).2.lists 0x57335850 = [1] ∧
      (((load channelFile).listChannel fromW3xp).2.listChannel fromW3xp).1.pack.map fieldBytes =
        some ((str "Chat" ++ [0]) ++ (str "Chat" ++ [0]) ++ [0]) := by
  decide +kernel

end Directory

end Blitzd.Plugins.ListChannel
