import Mathlib.Data.Finset.Sort
import Blitzd.Cache.UserCache
import Blitzd.Lib.Numerals

/-! # Channels (`ChannelCacheItem`, `ChannelCache`)

Channels are found by their short name and by their name, ignoring case; one that is asked for and not
there is made. A channel by country or by index is a template: those who ask for it are put into a copy of
it (`spawn`) with the country or the first index that has room in its name.

`ensure` only adds channels, and nobody is in a channel it adds (`ensure_grows`). Its loop over the indices
has no bound in the source; it ends because every index it passes is the name of an entry
(`indexLoop_isSome`). -/

namespace Blitzd.Cache

open Blitzd.Lib Blitzd.Lib.Bytes Blitzd.Lib.KeyMap Blitzd.Lib.Numerals Blitzd.Utils.CString

abbrev ChanId := ℕ

/-- Names in the maps are compared by `CompareInCaseEqual`. -/
def keyEq : KeyEq Name := nameEq.comap Subtype.val

/-- `connset` is in the order of the addresses of the clients. -/
structure Channel where
  connset : Finset ℕ
  name : Name
  short : Name
  gameid : UInt32
  flag : UInt32
  maxUser : UInt32
  byCountry : Bool
  byIndex : Bool
  spawned : Bool

namespace Channel

def new (short name : Name) (gameid flag maxUser : UInt32) (byCountry byIndex : Bool) : Channel :=
  ⟨∅, name, short, gameid, flag, maxUser, byCountry, byIndex, false⟩

instance : Inhabited Channel := ⟨new default default 0 0 0 false false⟩

/-- `Spawn`; the copy keeps the short name. -/
def spawn (ch : Channel) (name : Name) : Channel :=
  { new ch.short name ch.gameid ch.flag ch.maxUser false false with spawned := true }

/-- `GetUserCount() < GetMaxUser()`. -/
def hasRoom (ch : Channel) : Bool := ch.connset.card < ch.maxUser.toNat

end Channel

structure ChannelCache where
  heap : Heap Channel
  channelMap : List (Name × ChanId)

namespace ChannelCache

def get (cc : ChannelCache) (ch : ChanId) : Channel := cc.heap.cell ch

/-- `operator[]`. -/
def findName (cc : ChannelCache) (name : Name) : Option ChanId := find keyEq cc.channelMap name

/-- `Add`. -/
def add (cc : ChannelCache) (ch : Channel) : ChanId × ChannelCache :=
  let id := cc.heap.brk
  let m := insert keyEq cc.channelMap ch.short id
  (id, {
    heap := cc.heap.alloc ch
    channelMap := if strcmpiEq ch.short ch.name then m else insert keyEq m ch.name id })

/-- `newname + ' ' + country`. -/
def inCountry (name country : Name) : Name :=
  ⟨name.1 ++ (str " " ++ country.1), name.2.append (NulFree.append (by decide) country.2)⟩

theorem nulFree_decimal (n : ℕ) : NulFree (decimal n) := by
  intro x hx h0
  have hd := isDigit_of_mem_decimal hx
  rw [h0] at hd
  exact absurd hd (by decide)

/-- `newname + '-'`, and the index. -/
def withIndex (name : Name) (idx : ℕ) : Name :=
  ⟨name.1 ++ (str "-" ++ decimal idx), name.2.append (NulFree.append (by decide) (nulFree_decimal idx))⟩

/-- The loop over the indices. -/
def indexLoop (cc : ChannelCache) (template : Channel) (base : Name) : ℕ → ℕ → Option (ChanId × ChannelCache)
  | 0, _ => none
  | fuel + 1, idx =>
    match cc.findName (withIndex base idx) with
    | none => some (cc.add (template.spawn (withIndex base idx)))
    | some ch => if (cc.get ch).hasRoom then some (ch, cc) else indexLoop cc template base fuel (idx + 1)

/-- `Ensure`, `none` for `NULL`. -/
def ensure (cc : ChannelCache) (name : Name) (tag : UInt32) (country : Name) : Option ChanId × ChannelCache :=
  match cc.findName name with
  | none =>
    let r := cc.add (.new name name tag 0 100 false false)
    (some r.1, r.2)
  | some ch =>
    let result := cc.get ch
    let newname := if result.byCountry then inCountry result.name country else result.name
    if result.byIndex then
      match indexLoop cc result newname (cc.channelMap.length + 1) 1 with
      | some r => (some r.1, r.2)
      | none => (none, cc)
    else if result.byCountry then
      match cc.findName newname with
      | none =>
        let r := cc.add (result.spawn newname)
        (some r.1, r.2)
      | some ch2 => (if (cc.get ch2).hasRoom then some ch2 else none, cc)
    else (if result.hasRoom then some ch else none, cc)

/-! ### The loop ends -/

theorem lower_decimal (n : ℕ) : lower (decimal n) = decimal n := by
  have hd : ∀ x ∈ decimal n, tolower x = x := by
    intro x hx
    have h := isDigit_of_mem_decimal hx
    simp only [isDigit, decide_eq_true_eq] at h
    have h' : ¬ (65 ≤ x ∧ x ≤ 90) := fun hc => by
      have h1 : x.toNat ≤ 57 := UInt8.le_iff_toNat_le.mp h.2
      have h2 : 65 ≤ x.toNat := UInt8.le_iff_toNat_le.mp hc.1
      omega
    rw [tolower, if_neg h']
  unfold lower
  conv_rhs => rw [← List.map_id (decimal n)]
  exact List.map_congr_left fun x hx => hd x hx

theorem decimal_inj {i j : ℕ} (h : decimal i = decimal j) : i = j := by
  have hi := readDigits_decimal i (t := []) (by simp)
  have hj := readDigits_decimal j (t := []) (by simp)
  rw [h] at hi
  exact congrArg Prod.fst (hi.symm.trans hj)

/-- Different indices are different names. -/
theorem withIndex_ne (base : Name) {i j : ℕ} (h : i ≠ j) :
    keyEq.eqv (withIndex base i) (withIndex base j) = false := by
  rw [Bool.eq_false_iff]
  intro he
  have hdash : NulFree (str "-") := by decide
  have hi := nulFree_decimal i
  have hj := nulFree_decimal j
  have he' : strcmpiEq (base.1 ++ (str "-" ++ decimal i)) (base.1 ++ (str "-" ++ decimal j)) = true := he
  rw [strcmpiEq_append_left base.2 (hdash.append hi) (hdash.append hj), strcmpiEq_append_left hdash hi hj,
    strcmpiEq_iff, cstr_of_nulFree hi, cstr_of_nulFree hj, lower_decimal, lower_decimal] at he'
  exact h (decimal_inj he')

theorem found_of_indexLoop {cc : ChannelCache} {template : Channel} {base : Name} : ∀ {fuel idx : ℕ},
    indexLoop cc template base fuel idx = none →
      ∀ i, idx ≤ i → i < idx + fuel → (cc.findName (withIndex base i)).isSome := by
  intro fuel
  induction fuel with
  | zero =>
    intro idx _ i hi hlt
    omega
  | succ fuel ih =>
    intro idx h i hi hlt
    rw [indexLoop] at h
    rcases hf : cc.findName (withIndex base idx) with _ | ch
    · rw [hf] at h
      cases h
    · rw [hf] at h
      dsimp only at h
      split_ifs at h
      by_cases hidx : i = idx
      · rw [hidx, hf]
        rfl
      · exact ih h i (by omega) (by omega)

/-- **The loop over the indices ends** within the number of entries. -/
theorem indexLoop_isSome (cc : ChannelCache) (template : Channel) (base : Name) (idx : ℕ) :
    (indexLoop cc template base (cc.channelMap.length + 1) idx).isSome := by
  rw [← Option.ne_none_iff_isSome]
  intro h
  have hfound := found_of_indexLoop h
  have hlen : ((List.range' idx (cc.channelMap.length + 1)).map (withIndex base)).length ≤
      cc.channelMap.length := by
    refine length_le_of_found (e := keyEq) ?_ ?_
    · rw [List.pairwise_map]
      exact (List.nodup_range' (s := idx)).imp fun hij => withIndex_ne base hij
    · intro k hk
      obtain ⟨i, hi, rfl⟩ := List.mem_map.mp hk
      rw [List.mem_range'_1] at hi
      exact hfound i hi.1 hi.2
  rw [List.length_map, List.length_range'] at hlen
  omega

/-! ### What `Ensure` leaves alone -/

/-- The entries of the map are channels, and nobody is in a channel that is not there. -/
structure Sound (cc : ChannelCache) : Prop where
  bounded : ∀ {k ch}, cc.findName k = some ch → ch < cc.heap.brk
  fresh : ∀ {ch}, cc.heap.brk ≤ ch → (cc.get ch).connset = ∅

/-- Channels were added, with nobody in them. -/
structure Grows (cc cc' : ChannelCache) : Prop where
  sound : cc'.Sound
  connset : ∀ ch, (cc'.get ch).connset = (cc.get ch).connset

variable {cc : ChannelCache}

theorem Sound.insert {m : List (Name × ChanId)} {n : ℕ} (h : ∀ {k ch}, find keyEq m k = some ch → ch < n)
    {key : Name} {id : ChanId} (hid : id < n) :
    ∀ {k ch}, find keyEq (KeyMap.insert keyEq m key id) k = some ch → ch < n := by
  intro k ch hf
  rcases he : keyEq.eqv key k with _ | _
  · rw [find_insert_of_ne he] at hf
    exact h hf
  · rw [find_insert_of_eqv he] at hf
    cases hf
    exact hid

theorem add_grows (h : cc.Sound) {ch : Channel} (hempty : ch.connset = ∅) :
    Grows cc (cc.add ch).2 ∧ (cc.add ch).1 < (cc.add ch).2.heap.brk := by
  have hbrk : (cc.add ch).2.heap.brk = cc.heap.brk + 1 := rfl
  have hget : ∀ id, ((cc.add ch).2.get id).connset = (cc.get id).connset := by
    intro id
    by_cases hid : id = cc.heap.brk
    · subst hid
      rw [h.fresh le_rfl]
      show (((cc.heap.alloc ch).cell cc.heap.brk)).connset = ∅
      rw [Heap.alloc_new, hempty]
    · show (Function.update cc.heap.cell cc.heap.brk ch id).connset = _
      rw [Function.update_of_ne hid]
      rfl
  have hold : ∀ {k id}, find keyEq cc.channelMap k = some id → id < cc.heap.brk + 1 :=
    fun hf => Nat.lt_succ_of_lt (h.bounded hf)
  refine ⟨⟨⟨?_, ?_⟩, hget⟩, Nat.lt_succ_self _⟩
  · intro k id hf
    rw [hbrk]
    have hf' : find keyEq (if strcmpiEq ch.short ch.name then KeyMap.insert keyEq cc.channelMap ch.short cc.heap.brk
        else KeyMap.insert keyEq (KeyMap.insert keyEq cc.channelMap ch.short cc.heap.brk) ch.name cc.heap.brk) k =
        some id := hf
    split_ifs at hf'
    · exact Sound.insert hold (Nat.lt_succ_self _) hf'
    · exact Sound.insert (Sound.insert hold (Nat.lt_succ_self _)) (Nat.lt_succ_self _) hf'
  · intro id hid
    rw [hget, h.fresh (by rw [hbrk] at hid; omega)]

theorem indexLoop_grows (h : cc.Sound) {template : Channel} {base : Name} :
    ∀ {fuel idx : ℕ} {r : ChanId × ChannelCache},
    indexLoop cc template base fuel idx = some r → Grows cc r.2 ∧ r.1 < r.2.heap.brk := by
  intro fuel
  induction fuel with
  | zero =>
    intro idx r hr
    cases hr
  | succ fuel ih =>
    intro idx r hr
    rw [indexLoop] at hr
    rcases hf : cc.findName (withIndex base idx) with _ | ch
    · rw [hf] at hr
      cases hr
      exact add_grows h rfl
    · rw [hf] at hr
      dsimp only at hr
      split_ifs at hr
      · cases hr
        exact ⟨⟨h, fun _ => rfl⟩, h.bounded hf⟩
      · exact ih hr

/-- **`Ensure` adds channels at most**, and gives one that is there. -/
theorem ensure_grows (h : cc.Sound) (name : Name) (tag : UInt32) (country : Name) :
    Grows cc (cc.ensure name tag country).2 ∧
      ∀ ch, (cc.ensure name tag country).1 = some ch → ch < (cc.ensure name tag country).2.heap.brk := by
  have hself : Grows cc cc := ⟨h, fun _ => rfl⟩
  have hadd : ∀ {x : Channel}, x.connset = ∅ → Grows cc (cc.add x).2 ∧
      ∀ ch, some (cc.add x).1 = some ch → ch < (cc.add x).2.heap.brk := by
    intro x hx
    obtain ⟨hg, hlt⟩ := add_grows h hx
    refine ⟨hg, ?_⟩
    rintro ch ⟨⟩
    exact hlt
  have hfull : ∀ {k : Name} {ch : ChanId}, cc.findName k = some ch → ∀ c,
      (if (cc.get ch).hasRoom then some ch else none) = some c → c < cc.heap.brk := by
    intro k ch hf c hc
    split_ifs at hc
    cases hc
    exact h.bounded hf
  unfold ensure
  rcases hf : cc.findName name with _ | ch
  · exact hadd rfl
  · dsimp only
    by_cases hidx : (cc.get ch).byIndex = true
    · rw [if_pos hidx]
      generalize (if (cc.get ch).byCountry = true then inCountry (cc.get ch).name country
        else (cc.get ch).name) = base
      obtain ⟨r, hr⟩ := Option.isSome_iff_exists.mp (indexLoop_isSome cc (cc.get ch) base 1)
      obtain ⟨hg, hlt⟩ := indexLoop_grows h hr
      rw [hr]
      refine ⟨hg, ?_⟩
      rintro c ⟨⟩
      exact hlt
    · rw [if_neg hidx]
      by_cases hcountry : (cc.get ch).byCountry = true
      · rw [if_pos hcountry, if_pos hcountry]
        rcases hn : cc.findName (inCountry (cc.get ch).name country) with _ | ch2
        · exact hadd rfl
        · exact ⟨hself, hfull hn⟩
      · rw [if_neg hcountry]
        exact ⟨hself, hfull hf⟩

end ChannelCache

end Blitzd.Cache
