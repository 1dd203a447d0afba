import Blitzd.Cache.ChannelCache
import Blitzd.Lib.Run

/-! # Configured channels

`Load` adds the channels of the configuration file. Those that are by country or by index are templates: `Ensure` answers
with a copy whose name has the country and an index, and makes the copy when it is not there (`Ensured` lists what a call
can do).

A copy keeps the short name of its template, and `Add` enters it under both names, so the first copy that is made takes
the short name away from the template. `lasting_iff`: the configured channels stay where they were, and the indexed ones
always lead to an indexed channel, exactly as long as no copy is made. -/

namespace Blitzd.Cache

open Blitzd.Lib Blitzd.Lib.Bytes Blitzd.Lib.KeyMap Blitzd.Lib.Numerals Blitzd.Utils.CString

/-! ### Reading the configuration -/

def isSpace (c : Byte) : Bool := c = 32 ∨ 9 ≤ c ∧ c ≤ 13

/-- `strtoul(s, NULL, 10)`, where `unsigned long` has 64 bits: blanks, a sign and digits; a number that is too large
counts as the largest one. -/
def strtoul (s : Text) : ℕ :=
  let t := s.dropWhile isSpace
  let negative := t.head? = some 45
  let digits := if negative ∨ t.head? = some 43 then t.tail else t
  let n := (readDigits 0 digits).1
  if 2 ^ 64 ≤ n then 2 ^ 64 - 1
  else if negative then (2 ^ 64 - n) % 2 ^ 64
  else n

/-- The attributes of a `Channel` element; one that is missing is empty. -/
structure ChannelRow where
  name : Name
  short : Name
  gameId : Name
  maxUser : Name
  byCountry : Name
  byIndex : Name
  flag : Name

/-- A channel of the configuration; one without a name is skipped. -/
def ChannelRow.read (r : ChannelRow) : Option Channel :=
  if r.name.1 = [] then none
  else
    -- the first four bytes of the game, the first one the highest
    let gameid := if r.gameId.1.length ≥ 4 then UInt32.ofNat (ofLE (r.gameId.1.take 4).reverse) else 0
    let maxUser := UInt32.ofNat (strtoul r.maxUser.1)
    let maxUser := if maxUser = 0 then 0xFFFFFFFF else maxUser
    let flag := UInt32.ofNat (strtoul r.flag.1)
    let flag := if flag = 0 then 1 else flag
    let short := if r.short.1 = [] then r.name else r.short
    some (.new short r.name gameid flag maxUser (strtoul r.byCountry.1 > 0) (strtoul r.byIndex.1 > 0))

/-- The channels configured, in the order of the file. -/
def configured (rows : List ChannelRow) : List Channel := rows.filterMap ChannelRow.read

namespace ChannelCache

def empty : ChannelCache := ⟨Heap.empty, []⟩

/-- Channels added one after the other. -/
def addAll (cc : ChannelCache) (ts : List Channel) : ChannelCache := ts.foldl (fun cc ch => (cc.add ch).2) cc

/-- `Load`. -/
def load (rows : List ChannelRow) : ChannelCache := empty.addAll (configured rows)

variable {cc cc' : ChannelCache}

/-! ### `Add` -/

theorem findName_add (cc : ChannelCache) (x : Channel) (k : Name) :
    (cc.add x).2.findName k =
      if keyEq.eqv x.name k = true ∨ keyEq.eqv x.short k = true then some cc.heap.brk else cc.findName k := by
  have hfind : (cc.add x).2.findName k = find keyEq (if strcmpiEq x.short x.name
      then KeyMap.insert keyEq cc.channelMap x.short cc.heap.brk
      else KeyMap.insert keyEq (KeyMap.insert keyEq cc.channelMap x.short cc.heap.brk) x.name cc.heap.brk) k := rfl
  rw [hfind]
  by_cases hsame : strcmpiEq x.short x.name = true
  · -- one key for both names
    have hkey : keyEq.eqv x.name k = keyEq.eqv x.short k := by
      rw [Bool.eq_iff_iff]
      have hs : keyEq.eqv x.short x.name = true := hsame
      exact ⟨fun h => keyEq.trans hs h, fun h => keyEq.trans (keyEq.symm hs) h⟩
    rw [if_pos hsame, find_insert]
    simp only [hkey, or_self]
    rfl
  · rw [if_neg hsame, find_insert, find_insert]
    by_cases hname : keyEq.eqv x.name k = true
    · rw [if_pos hname, if_pos (.inl hname)]
    · rw [if_neg hname]
      by_cases hshort : keyEq.eqv x.short k = true
      · rw [if_pos hshort, if_pos (.inr hshort)]
      · rw [if_neg hshort, if_neg (not_or.mpr ⟨hname, hshort⟩)]
        rfl

@[simp] theorem get_add_self (cc : ChannelCache) (x : Channel) : (cc.add x).2.get cc.heap.brk = x := Heap.alloc_new _ _

theorem get_add_ne (cc : ChannelCache) (x : Channel) {ch : ChanId} (h : ch ≠ cc.heap.brk) :
    (cc.add x).2.get ch = cc.get ch := Function.update_of_ne h _ _

@[simp] theorem brk_add (cc : ChannelCache) (x : Channel) : (cc.add x).2.heap.brk = cc.heap.brk + 1 := rfl

/-! ### What `Ensure` does -/

/-- `newname`: the name of a template for a country. -/
def base (t : Channel) (country : Name) : Name := if t.byCountry then inCountry t.name country else t.name

/-- The indices up to `k` are taken and full. -/
def FullBelow (cc : ChannelCache) (b : Name) (k : ℕ) : Prop :=
  ∀ j, 1 ≤ j → j < k → ∃ ch, cc.findName (withIndex b j) = some ch ∧ (cc.get ch).hasRoom = false

/-- The outcomes of `Ensure`: a channel of a name nobody used, a copy of a template for an index or for a country, a
channel with room that is there, or none. -/
inductive Ensured (cc : ChannelCache) (name : Name) (tag : UInt32) (country : Name) :
    Option ChanId × ChannelCache → Prop
  | made (hname : cc.findName name = none) :
      Ensured cc name tag country (some cc.heap.brk, (cc.add (.new name name tag 0 100 false false)).2)
  | indexed {ch : ChanId} {k : ℕ} (hname : cc.findName name = some ch) (hidx : (cc.get ch).byIndex = true)
      (hk : 1 ≤ k) (hfull : cc.FullBelow (base (cc.get ch) country) k)
      (hnew : cc.findName (withIndex (base (cc.get ch) country) k) = none) :
      Ensured cc name tag country
        (some cc.heap.brk, (cc.add ((cc.get ch).spawn (withIndex (base (cc.get ch) country) k))).2)
  | reused {ch ch' : ChanId} {k : ℕ} (hname : cc.findName name = some ch) (hidx : (cc.get ch).byIndex = true)
      (hk : 1 ≤ k) (hfull : cc.FullBelow (base (cc.get ch) country) k)
      (hfound : cc.findName (withIndex (base (cc.get ch) country) k) = some ch')
      (hroom : (cc.get ch').hasRoom = true) : Ensured cc name tag country (some ch', cc)
  | country {ch : ChanId} (hname : cc.findName name = some ch) (hidx : (cc.get ch).byIndex = false)
      (hcountry : (cc.get ch).byCountry = true) (hnew : cc.findName (base (cc.get ch) country) = none) :
      Ensured cc name tag country (some cc.heap.brk, (cc.add ((cc.get ch).spawn (base (cc.get ch) country))).2)
  | plain {ch ch' : ChanId} {k : Name} (hname : cc.findName name = some ch) (hidx : (cc.get ch).byIndex = false)
      (hfound : (cc.get ch).byCountry = true → cc.findName (base (cc.get ch) country) ≠ none)
      (hthere : cc.findName k = some ch') (hroom : (cc.get ch').hasRoom = true) : Ensured cc name tag country (some ch', cc)
  | full {ch : ChanId} (hname : cc.findName name = some ch) (hidx : (cc.get ch).byIndex = false)
      (hfound : (cc.get ch).byCountry = true → cc.findName (base (cc.get ch) country) ≠ none) :
      Ensured cc name tag country (none, cc)

/-- Where the loop over the indices stops. -/
theorem indexLoop_stop {t : Channel} {b : Name} : ∀ {fuel idx : ℕ} {r : ChanId × ChannelCache},
    indexLoop cc t b fuel idx = some r →
      ∃ k, idx ≤ k ∧
        (∀ j, idx ≤ j → j < k → ∃ ch, cc.findName (withIndex b j) = some ch ∧ (cc.get ch).hasRoom = false) ∧
        ((cc.findName (withIndex b k) = none ∧ r = cc.add (t.spawn (withIndex b k))) ∨
          ∃ ch, cc.findName (withIndex b k) = some ch ∧ (cc.get ch).hasRoom = true ∧ r = (ch, cc)) := by
  intro fuel
  induction fuel with
  | zero =>
    intro idx r h
    cases h
  | succ fuel ih =>
    intro idx r h
    rw [indexLoop] at h
    rcases hf : cc.findName (withIndex b idx) with _ | ch
    · rw [hf, Option.some.injEq] at h
      exact ⟨idx, le_rfl, fun j h1 h2 => absurd h2 (by omega), .inl ⟨hf, h.symm⟩⟩
    · rw [hf] at h
      dsimp only at h
      by_cases hroom : (cc.get ch).hasRoom = true
      · rw [if_pos hroom, Option.some.injEq] at h
        exact ⟨idx, le_rfl, fun j h1 h2 => absurd h2 (by omega), .inr ⟨ch, hf, hroom, h.symm⟩⟩
      · rw [if_neg hroom] at h
        obtain ⟨k, hk, hfull, hstop⟩ := ih h
        refine ⟨k, by omega, fun j h1 h2 => ?_, hstop⟩
        by_cases hj : j = idx
        · exact ⟨ch, hj ▸ hf, Bool.eq_false_of_not_eq_true hroom⟩
        · exact hfull j (by omega) h2

/-- **A call of `Ensure` has one of the outcomes listed.** -/
theorem ensured (cc : ChannelCache) (name : Name) (tag : UInt32) (country : Name) :
    Ensured cc name tag country (cc.ensure name tag country) := by
  unfold ensure
  rcases hf : cc.findName name with _ | ch
  · exact .made hf
  · dsimp only
    by_cases hidx : (cc.get ch).byIndex = true
    · obtain ⟨r, hr⟩ := Option.isSome_iff_exists.mp (indexLoop_isSome cc (cc.get ch) (base (cc.get ch) country) 1)
      obtain ⟨k, hk, hfull, hstop⟩ := indexLoop_stop hr
      rw [if_pos hidx]
      have hr' : indexLoop cc (cc.get ch) (if (cc.get ch).byCountry = true then inCountry (cc.get ch).name country
          else (cc.get ch).name) (cc.channelMap.length + 1) 1 = some r := hr
      rw [hr']
      rcases hstop with ⟨hnew, rfl⟩ | ⟨ch', hfound, hroom, rfl⟩
      · exact .indexed hf hidx hk hfull hnew
      · exact .reused hf hidx hk hfull hfound hroom
    · have hidx' : (cc.get ch).byIndex = false := Bool.eq_false_of_not_eq_true hidx
      rw [if_neg hidx]
      by_cases hcountry : (cc.get ch).byCountry = true
      · have hbase : base (cc.get ch) country = inCountry (cc.get ch).name country := if_pos hcountry
        rw [if_pos hcountry, if_pos hcountry, ← hbase]
        rcases hn : cc.findName (base (cc.get ch) country) with _ | ch'
        · exact .country hf hidx' hcountry hn
        · have hfound : (cc.get ch).byCountry = true → cc.findName (base (cc.get ch) country) ≠ none :=
            fun _ => by rw [hn]; exact Option.some_ne_none _
          dsimp only
          split_ifs with hroom
          · exact .plain hf hidx' hfound hn hroom
          · exact .full hf hidx' hfound
      · rw [if_neg hcountry]
        split_ifs with hroom
        · exact .plain hf hidx' (fun h => absurd h hcountry) hf hroom
        · exact .full hf hidx' fun h => absurd h hcountry

/-! ### The configured channels -/

/-- The names a channel is entered under. -/
def keys (x : Channel) : List Name := [x.name, x.short]

/-- No two channels have a name or short name in common. -/
def Distinct (ts : List Channel) : Prop :=
  ts.Pairwise fun x y => ∀ k ∈ keys x, ∀ k' ∈ keys y, keyEq.eqv k k' = false

instance (ts : List Channel) : Decidable (Distinct ts) :=
  inferInstanceAs (Decidable (ts.Pairwise fun x y => ∀ k ∈ keys x, ∀ k' ∈ keys y, keyEq.eqv k k' = false))

/-- A short name is the name of an index of an indexed channel only together with the name. -/
def IndexFree (ts : List Channel) : Prop :=
  ∀ t ∈ ts, t.byIndex = true → ∀ x ∈ ts, ∀ country k, keyEq.eqv x.short (withIndex (base t country) k) = true →
    keyEq.eqv x.name (withIndex (base t country) k) = true

/-- The configured channels, which have the lowest numbers, are found by both names; asking for an indexed one gives
another channel, with the name for the country and an index. -/
def Lasting (ts : List Channel) (cc : ChannelCache) : Prop :=
  ∀ i t, ts[i]? = some t → cc.findName t.name = some i ∧ cc.findName t.short = some i ∧
    (t.byIndex = true → ∀ n ∈ keys t, ∀ tag country, ∃ ch k, (cc.ensure n tag country).1 = some ch ∧ ch ≠ i ∧ 1 ≤ k ∧
      keyEq.eqv ((cc.ensure n tag country).2.get ch).name (withIndex (base t country) k) = true)

/-- Those in a channel change. -/
def changeMembers (cc : ChannelCache) (ch : ChanId) (f : Finset ℕ → Finset ℕ) : ChannelCache :=
  { cc with heap := cc.heap.modify ch fun x => { x with connset := f x.connset } }

/-- The two channels differ at most in who is in them. -/
structure Alike (x y : Channel) : Prop where
  name : x.name = y.name
  short : x.short = y.short
  byCountry : x.byCountry = y.byCountry
  byIndex : x.byIndex = y.byIndex

theorem Alike.refl (x : Channel) : Alike x x := ⟨rfl, rfl, rfl, rfl⟩

theorem Alike.base {x y : Channel} (h : Alike x y) (country : Name) : base x country = base y country := by
  unfold ChannelCache.base
  rw [h.name, h.byCountry]

/-- The configured channels are at the start of the heap, under both their names; the other ones are no templates, and
are entered under their name only. -/
structure Kept (ts : List Channel) (cc : ChannelCache) : Prop where
  bounded : ∀ {k ch}, cc.findName k = some ch → ch < cc.heap.brk
  length : ts.length ≤ cc.heap.brk
  alike : ∀ {i t}, ts[i]? = some t → Alike (cc.get i) t
  found : ∀ {i t}, ts[i]? = some t → ∀ k ∈ keys t, cc.findName k = some i
  named : ∀ {k ch}, cc.findName k = some ch →
    keyEq.eqv (cc.get ch).name k = true ∨ ch < ts.length ∧ keyEq.eqv (cc.get ch).short k = true
  plain : ∀ {ch}, ts.length ≤ ch → ch < cc.heap.brk → (cc.get ch).byIndex = false ∧ (cc.get ch).byCountry = false

theorem kept_empty : Kept [] empty where
  bounded h := by cases h
  length := le_rfl
  alike h := by simp at h
  found h := by simp at h
  named h := by cases h
  plain _ h := absurd h (Nat.not_lt_zero _)

section Kept

variable {ts : List Channel}

theorem lt_of_getElem? {i : ℕ} {t : Channel} (h : ts[i]? = some t) : i < ts.length :=
  (List.getElem?_eq_some_iff.mp h).1

/-- A name that is found is not a name of a channel added under names that are not. -/
theorem findName_add_old {x : Channel} {k : Name} (h : ∀ k' ∈ keys x, keyEq.eqv k' k = false) :
    (cc.add x).2.findName k = cc.findName k := by
  rw [findName_add, if_neg]
  have h1 := h x.name (by simp [keys])
  have h2 := h x.short (by simp [keys])
  simp [h1, h2]

theorem eqv_of_findName_add {x : Channel} {k : Name} {ch : ChanId} (h : (cc.add x).2.findName k = some ch) :
    (ch = cc.heap.brk ∧ (keyEq.eqv x.name k = true ∨ keyEq.eqv x.short k = true)) ∨ cc.findName k = some ch := by
  rw [findName_add] at h
  split_ifs at h with hk
  · exact .inl ⟨(Option.some.inj h).symm, hk⟩
  · exact .inr h

/-- The entries stay bounded when a channel is added. -/
theorem bounded_add (hb : ∀ {k ch}, cc.findName k = some ch → ch < cc.heap.brk) {x : Channel} {k : Name} {ch : ChanId}
    (h : (cc.add x).2.findName k = some ch) : ch < (cc.add x).2.heap.brk := by
  rw [brk_add]
  rcases eqv_of_findName_add h with ⟨rfl, -⟩ | hold
  · exact Nat.lt_succ_self _
  · exact Nat.lt_succ_of_lt (hb hold)

/-- `Load` adds one more. -/
theorem Kept.configure (h : Kept ts cc) (hbrk : cc.heap.brk = ts.length) {x : Channel}
    (hx : ∀ t ∈ ts, ∀ k ∈ keys t, ∀ k' ∈ keys x, keyEq.eqv k k' = false) : Kept (ts ++ [x]) (cc.add x).2 := by
  have hlast : ∀ {i t}, (ts ++ [x])[i]? = some t → ts[i]? = some t ∨ i = ts.length ∧ t = x := by
    intro i t hi
    rcases Nat.lt_or_ge i ts.length with hlt | hge
    · rw [List.getElem?_append_left hlt] at hi
      exact .inl hi
    · have hlen := lt_of_getElem? hi
      rw [List.length_append, List.length_singleton] at hlen
      have hi' : i = ts.length := by omega
      subst hi'
      rw [List.getElem?_concat_length, Option.some.injEq] at hi
      exact .inr ⟨rfl, hi.symm⟩
  refine ⟨bounded_add h.bounded, ?_, ?_, ?_, ?_, ?_⟩
  · rw [brk_add, List.length_append, List.length_singleton, hbrk]
  · intro i t hi
    rcases hlast hi with hold | ⟨rfl, rfl⟩
    · rw [get_add_ne _ _ (by rw [hbrk]; exact Nat.ne_of_lt (lt_of_getElem? hold))]
      exact h.alike hold
    · rw [← hbrk, get_add_self]
      exact Alike.refl _
  · intro i t hi k hk
    rcases hlast hi with hold | ⟨rfl, rfl⟩
    · have hne : ∀ k' ∈ keys x, keyEq.eqv k' k = false := by
        intro k' hk'
        rw [Bool.eq_false_iff]
        intro he
        exact absurd (keyEq.symm he) (by rw [hx t (List.mem_of_getElem? hold) k hk k' hk']; decide)
      rw [findName_add_old hne]
      exact h.found hold k hk
    · rw [findName_add, if_pos, hbrk]
      rcases List.mem_pair.mp hk with rfl | rfl
      · exact .inl (keyEq.refl _)
      · exact .inr (keyEq.refl _)
  · intro k ch hf
    rw [List.length_append, List.length_singleton]
    rcases eqv_of_findName_add hf with ⟨rfl, hk⟩ | hold
    · rw [get_add_self]
      exact hk.imp_right fun hs => ⟨by rw [hbrk]; exact Nat.lt_succ_self _, hs⟩
    · rw [get_add_ne _ _ (Nat.ne_of_lt (h.bounded hold))]
      exact (h.named hold).imp_right fun hs => ⟨Nat.lt_succ_of_lt hs.1, hs.2⟩
  · intro ch h1 h2
    rw [brk_add] at h2
    rw [List.length_append, List.length_singleton] at h1
    omega

theorem Kept.configureAll {ts' : List Channel} : ∀ {ts : List Channel} {cc : ChannelCache}, Kept ts cc →
    cc.heap.brk = ts.length → Distinct (ts ++ ts') → Kept (ts ++ ts') (cc.addAll ts') := by
  induction ts' with
  | nil =>
    intro ts cc h _ _
    rw [List.append_nil]
    exact h
  | cons x ts' ih =>
    intro ts cc h hbrk hd
    have hx : ∀ t ∈ ts, ∀ k ∈ keys t, ∀ k' ∈ keys x, keyEq.eqv k k' = false := fun t ht =>
      (List.pairwise_append.mp hd).2.2 t ht x (List.mem_cons_self)
    rw [List.append_cons] at hd ⊢
    refine ih (h.configure hbrk hx) ?_ hd
    rw [brk_add, hbrk, List.length_append, List.length_singleton]

theorem kept_load {rows : List ChannelRow} (hd : Distinct (configured rows)) : Kept (configured rows) (load rows) :=
  kept_empty.configureAll rfl hd

/-- A channel under a name nobody used. -/
theorem Kept.made (h : Kept ts cc) {name : Name} (hname : cc.findName name = none) (tag : UInt32) :
    Kept ts (cc.add (.new name name tag 0 100 false false)).2 := by
  have hold : ∀ {k ch}, cc.findName k = some ch →
      (cc.add (.new name name tag 0 100 false false)).2.findName k = some ch := by
    intro k ch hk
    have hne : keyEq.eqv name k = false := by
      rw [Bool.eq_false_iff]
      intro he
      have hsame : cc.findName name = cc.findName k := find_congr he _
      rw [hname, hk] at hsame
      cases hsame
    rw [findName_add_old, hk]
    intro k' hk'
    rcases List.mem_pair.mp hk' with rfl | rfl <;> exact hne
  refine ⟨bounded_add h.bounded, ?_, ?_, fun hi k hk => hold (h.found hi k hk), ?_, ?_⟩
  · exact Nat.le_succ_of_le h.length
  · intro i t hi
    rw [get_add_ne _ _ (Nat.ne_of_lt (lt_of_lt_of_le (lt_of_getElem? hi) h.length))]
    exact h.alike hi
  · intro k ch hf
    rcases eqv_of_findName_add hf with ⟨rfl, hk⟩ | hk
    · rw [get_add_self]
      exact .inl (hk.elim (fun h => h) fun h => h)
    · rw [get_add_ne _ _ (Nat.ne_of_lt (h.bounded hk))]
      exact h.named hk
  · intro ch h1 h2
    by_cases hch : ch = cc.heap.brk
    · rw [hch, get_add_self]
      exact ⟨rfl, rfl⟩
    · rw [get_add_ne _ _ hch]
      have h2' : ch < cc.heap.brk + 1 := h2
      exact h.plain h1 (lt_of_le_of_ne (Nat.le_of_lt_succ h2') hch)

theorem alike_changeMembers (cc : ChannelCache) (ch : ChanId) (f : Finset ℕ → Finset ℕ) (i : ChanId) :
    Alike ((cc.changeMembers ch f).get i) (cc.get i) := by
  have hget : (cc.changeMembers ch f).get i =
      (cc.heap.modify ch fun x => { x with connset := f x.connset }).cell i := rfl
  rw [hget]
  exact ⟨Heap.modify_keeps Channel.name _ rfl i, Heap.modify_keeps Channel.short _ rfl i,
    Heap.modify_keeps Channel.byCountry _ rfl i, Heap.modify_keeps Channel.byIndex _ rfl i⟩

/-- Who is in the channels does not matter. -/
theorem Kept.members (h : Kept ts cc) (ch : ChanId) (f : Finset ℕ → Finset ℕ) : Kept ts (cc.changeMembers ch f) := by
  have hget := alike_changeMembers cc ch f
  refine ⟨h.bounded, h.length, ?_, h.found, ?_, ?_⟩
  · intro i t hi
    have h1 := hget i
    have h2 := h.alike hi
    exact ⟨h1.name.trans h2.name, h1.short.trans h2.short, h1.byCountry.trans h2.byCountry, h1.byIndex.trans h2.byIndex⟩
  · intro k i hf
    rw [(hget i).name, (hget i).short]
    exact h.named hf
  · intro i h1 h2
    rw [(hget i).byIndex, (hget i).byCountry]
    exact h.plain h1 h2

theorem length_of_eqv {a b : Name} (h : keyEq.eqv a b = true) : a.1.length = b.1.length := by
  have h' : strcmpiEq a.1 b.1 = true := h
  rw [strcmpiEq_iff, cstr_of_nulFree a.2, cstr_of_nulFree b.2] at h'
  have hlen := congrArg List.length h'
  rw [lower, lower, List.length_map, List.length_map] at hlen
  exact hlen

theorem length_lt_withIndex (t : Channel) (country : Name) (k : ℕ) :
    t.name.1.length < (withIndex (base t country) k).1.length := by
  have hbase : t.name.1.length ≤ (base t country).1.length := by
    unfold base inCountry
    split_ifs
    · simp
    · exact le_rfl
  have hdash : (str "-").length = 1 := by decide
  rw [withIndex, List.length_append, List.length_append, hdash]
  omega

/-- A name is no index of itself. -/
theorem name_ne_withIndex (t : Channel) (country : Name) (k : ℕ) :
    keyEq.eqv t.name (withIndex (base t country) k) = false := by
  rw [Bool.eq_false_iff]
  intro he
  exact Nat.ne_of_lt (length_lt_withIndex t country k) (length_of_eqv he)

/-- **While the configured channels are kept they are found, and the indexed ones lead to an index.** -/
theorem Kept.lasting (h : Kept ts cc) (hi : IndexFree ts) : Lasting ts cc := by
  intro i t ht
  have hmem : t ∈ ts := List.mem_of_getElem? ht
  have hlt : i < cc.heap.brk := lt_of_lt_of_le (lt_of_getElem? ht) h.length
  have halike := h.alike ht
  refine ⟨h.found ht _ (by simp [keys]), h.found ht _ (by simp [keys]), ?_⟩
  intro hidx n hn tag country
  have hfound := h.found ht n hn
  have hidx' : (cc.get i).byIndex = true := halike.byIndex.trans hidx
  have he := ensured cc n tag country
  generalize cc.ensure n tag country = r at he ⊢
  cases he with
  | made hname =>
    rw [hfound] at hname
    cases hname
  | @indexed ch k hname _ hk _ hnew =>
    obtain rfl : i = ch := Option.some.inj (hfound.symm.trans hname)
    refine ⟨cc.heap.brk, k, rfl, Nat.ne_of_gt hlt, hk, ?_⟩
    rw [get_add_self, halike.base]
    exact keyEq.refl _
  | @reused ch ch' k hname _ hk _ hf _ =>
    obtain rfl : i = ch := Option.some.inj (hfound.symm.trans hname)
    rw [halike.base] at hf
    have hname' : keyEq.eqv (cc.get ch').name (withIndex (base t country) k) = true := by
      rcases h.named hf with hnm | ⟨hch, hsh⟩
      · exact hnm
      · -- a configured channel, entered under its short name
        obtain ⟨x, hx⟩ : ∃ x, ts[ch']? = some x := ⟨_, List.getElem?_eq_getElem hch⟩
        have hxa := h.alike hx
        rw [hxa.short] at hsh
        rw [hxa.name]
        exact hi t hmem hidx x (List.mem_of_getElem? hx) country k hsh
    refine ⟨ch', k, rfl, ?_, hk, hname'⟩
    rintro rfl
    rw [halike.name, name_ne_withIndex] at hname'
    cases hname'
  | country hname hno =>
    obtain rfl := Option.some.inj (hfound.symm.trans hname)
    rw [hidx'] at hno
    cases hno
  | plain hname hno =>
    obtain rfl := Option.some.inj (hfound.symm.trans hname)
    rw [hidx'] at hno
    cases hno
  | full hname hno =>
    obtain rfl := Option.some.inj (hfound.symm.trans hname)
    rw [hidx'] at hno
    cases hno

/-- A copy of a template takes its short name. -/
theorem Kept.spawned (h : Kept ts cc) {name : Name} {ch : ChanId} (hname : cc.findName name = some ch)
    (htemplate : (cc.get ch).byIndex = true ∨ (cc.get ch).byCountry = true) (n : Name) :
    ¬ Lasting ts (cc.add ((cc.get ch).spawn n)).2 := by
  intro hl
  have hch : ch < ts.length := by
    by_contra hge
    obtain ⟨h1, h2⟩ := h.plain (not_lt.mp hge) (h.bounded hname)
    rw [h1, h2] at htemplate
    simp at htemplate
  obtain ⟨t, ht⟩ : ∃ t, ts[ch]? = some t := ⟨_, List.getElem?_eq_getElem hch⟩
  have hshort := (hl ch t ht).2.1
  have hkey : keyEq.eqv ((cc.get ch).spawn n).short t.short = true := by
    show keyEq.eqv (cc.get ch).short t.short = true
    rw [(h.alike ht).short]
    exact keyEq.refl _
  rw [findName_add, if_pos (.inr hkey)] at hshort
  exact absurd (Option.some.inj hshort) (Nat.ne_of_gt (h.bounded hname))

end Kept

/-! ### Runs -/

/-- What the handlers do to the channels. -/
inductive Move where
  | ensure (name : Name) (tag : UInt32) (country : Name)
  | join (ch : ChanId) (c : ℕ)
  | leave (ch : ChanId) (c : ℕ)

def Move.apply (cc : ChannelCache) : Move → ChannelCache
  | .ensure name tag country => (cc.ensure name tag country).2
  | .join ch c => cc.changeMembers ch (Insert.insert c)
  | .leave ch c => cc.changeMembers ch fun s => s.erase c

def Move.Step (cc : ChannelCache) (e : Move) (cc' : ChannelCache) : Prop := cc' = e.apply cc

/-- No copy of a template is made: a channel by index has an index with room, and the lower ones are there; a channel by
country only is there for the country. -/
def NoCopy (cc : ChannelCache) : Move → Prop
  | .ensure name _ country => ∀ ch, cc.findName name = some ch →
      if (cc.get ch).byIndex then
        ∃ k ch', 1 ≤ k ∧ cc.findName (withIndex (base (cc.get ch) country) k) = some ch' ∧
          (cc.get ch').hasRoom = true ∧
          ∀ j, 1 ≤ j → j < k → cc.findName (withIndex (base (cc.get ch) country) j) ≠ none
      else (cc.get ch).byCountry = true → cc.findName (base (cc.get ch) country) ≠ none
  | .join _ _ => True
  | .leave _ _ => True

theorem FullBelow.found {b : Name} {k : ℕ} (h : cc.FullBelow b k) : ∀ j, 1 ≤ j → j < k →
    cc.findName (withIndex b j) ≠ none := by
  intro j h1 h2 hnone
  obtain ⟨ch, hf, -⟩ := h j h1 h2
  rw [hnone] at hf
  cases hf

/-- One call of `Ensure`. -/
theorem Kept.ensure {ts : List Channel} (h : Kept ts cc) (name : Name) (tag : UInt32)
    (country : Name) :
    (NoCopy cc (.ensure name tag country) → Kept ts (cc.ensure name tag country).2) ∧
      (Lasting ts (cc.ensure name tag country).2 → NoCopy cc (.ensure name tag country)) := by
  have he := ensured cc name tag country
  generalize cc.ensure name tag country = r at he ⊢
  cases he with
  | made hname =>
    refine ⟨fun _ => h.made hname tag, fun _ ch hch => ?_⟩
    rw [hname] at hch
    cases hch
  | @indexed ch k hname hidx hk hfull hnew =>
    refine ⟨fun hq => ?_, fun hl => absurd hl (h.spawned hname (.inl hidx) _)⟩
    have hq' := hq ch hname
    rw [if_pos hidx] at hq'
    obtain ⟨k', ch', hk', hf, hroom, hbelow⟩ := hq'
    -- the index with room is neither the first free one, nor below it, nor above it
    rcases Nat.lt_trichotomy k' k with hlt | rfl | hgt
    · obtain ⟨x, hx, hno⟩ := hfull k' hk' hlt
      rw [hf] at hx
      cases hx
      rw [hroom] at hno
      cases hno
    · rw [hnew] at hf
      cases hf
    · exact absurd hnew (hbelow k hk hgt)
  | @reused ch ch' k hname hidx hk hfull hf hroom =>
    refine ⟨fun _ => h, fun _ x hx => ?_⟩
    obtain rfl := Option.some.inj (hname.symm.trans hx)
    rw [if_pos hidx]
    exact ⟨k, ch', hk, hf, hroom, hfull.found⟩
  | @country ch hname hidx hcountry hnew =>
    refine ⟨fun hq => ?_, fun hl => absurd hl (h.spawned hname (.inr hcountry) _)⟩
    have hq' := hq ch hname
    rw [hidx] at hq'
    exact absurd hnew (hq' hcountry)
  | plain hname hidx hf _ _ =>
    refine ⟨fun _ => h, fun _ x hx => ?_⟩
    obtain rfl := Option.some.inj (hname.symm.trans hx)
    rw [hidx]
    exact hf
  | full hname hidx hf =>
    refine ⟨fun _ => h, fun _ x hx => ?_⟩
    obtain rfl := Option.some.inj (hname.symm.trans hx)
    rw [hidx]
    exact hf

/-- **The configured channels last exactly as long as no copy of one is made.** -/
theorem lasting_iff (rows : List ChannelRow) (hd : Distinct (configured rows)) (hi : IndexFree (configured rows))
    {hist : List (Entry ChannelCache Move)} {cc : ChannelCache} (hr : Run Move.Step (load rows) hist cc) :
    Lasting (configured rows) (load rows) ∧
      ((∀ x ∈ hist, Lasting (configured rows) x.after) ↔ Allowed (fun _ => NoCopy) hist) := by
  have hstart := kept_load hd
  refine ⟨hstart.lasting hi, ?_⟩
  refine Run.good_iff (I := fun cc => Lasting (configured rows) cc → Kept (configured rows) cc) (fun _ => hstart)
    (hstart.lasting hi) ?_ hr
  rintro s e s' hI hP rfl
  have hs := hI hP
  cases e with
  | ensure name tag country =>
    obtain ⟨hkeep, hquiet⟩ := hs.ensure name tag country
    exact ⟨fun hl => hkeep (hquiet hl), hquiet, fun hq => (hkeep hq).lasting hi⟩
  | join ch c =>
    have h' := hs.members ch (Insert.insert c)
    exact ⟨fun _ => h', iff_of_true (h'.lasting hi) trivial⟩
  | leave ch c =>
    have h' := hs.members ch (fun s => s.erase c)
    exact ⟨fun _ => h', iff_of_true (h'.lasting hi) trivial⟩

def warcraft : Name := ⟨str "Warcraft III", by decide⟩

def w3 : Name := ⟨str "W3", by decide⟩

def chat : Name := ⟨str "Chat", by decide⟩

def us : Name := ⟨str "US", by decide⟩

/-- `channel.xml`. -/
def channelFile : List ChannelRow :=
  let one : Name := ⟨str "1", by decide⟩
  let zero : Name := ⟨str "0", by decide⟩
  let hundred : Name := ⟨str "100", by decide⟩
  [⟨warcraft, w3, ⟨str "W3XP", by decide⟩, hundred, one, one, one⟩,
    ⟨chat, ⟨str "CHAT", by decide⟩, ⟨[], nulFree_nil⟩, hundred, zero, zero, one⟩]

theorem indexFree_channelFile : IndexFree (configured channelFile) := by
  have hshort : ∀ t ∈ configured channelFile, t.byIndex = true → ∀ x ∈ configured channelFile,
      x.short.1.length ≤ t.name.1.length := by decide +kernel
  intro t ht hidx x hx country k he
  have h1 := hshort t ht hidx x hx
  have h2 := length_lt_withIndex t country k
  have h3 := length_of_eqv he
  omega

/-- Someone asks for `Chat`. -/
theorem lasting_chat : ∃ cc, Lasting (configured channelFile) cc ∧
    ∃ hist, Run Move.Step (load channelFile) hist cc ∧ hist.length = 1 := by
  have hr : Run Move.Step (load channelFile) [⟨load channelFile, .ensure chat 0 us, _⟩] _ := .snoc .nil rfl
  refine ⟨_, ((lasting_iff channelFile (by decide +kernel) indexFree_channelFile hr).2.mpr ⟨?_, trivial⟩) _
    (List.mem_singleton_self _), _, hr, rfl⟩
  intro ch hch
  have h1 : (load channelFile).findName chat = some 1 := by decide +kernel
  obtain rfl : 1 = ch := Option.some.inj (h1.symm.trans hch)
  have h2 : ((load channelFile).get 1).byIndex = false := by decide +kernel
  have h3 : ((load channelFile).get 1).byCountry = false := by decide +kernel
  rw [h2, h3, if_neg Bool.false_ne_true]
  exact fun h => absurd h Bool.false_ne_true

/-- The first to ask for `Warcraft III` takes the short name away from it: those who ask for `W3` are then sent to the same
channel whatever their country. -/
theorem short_name_taken : ∃ cc hist, Run Move.Step (load channelFile) hist cc ∧ hist.length = 1 ∧
    (load channelFile).findName w3 = some 0 ∧ cc.findName w3 = some 2 ∧
    (cc.ensure w3 0 ⟨str "DE", by decide⟩).1 = some 2 ∧ (cc.get 2).name.1 = str "Warcraft III US-1" ∧
    ¬ Lasting (configured channelFile) cc := by
  have hr : Run Move.Step (load channelFile) [⟨load channelFile, .ensure warcraft 0 us, _⟩] _ := .snoc .nil rfl
  have hfound : (Move.apply (load channelFile) (.ensure warcraft 0 us)).findName w3 = some 2 := by decide +kernel
  refine ⟨_, _, hr, rfl, by decide +kernel, hfound, by decide +kernel, by decide +kernel, fun hl => ?_⟩
  have hshort := (hl 0 (.new w3 warcraft 0x57335850 1 100 true true) rfl).2.1
  cases hfound.symm.trans hshort

end ChannelCache

end Blitzd.Cache
