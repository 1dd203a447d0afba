import Mathlib.Data.List.Nodup
import Blitzd.Lib.KeyMap
import Blitzd.Packets.BNet

/-! # Asking for news (`NewsCache::GetAfter`)

The news are a map ordered by time. `GetAfter` starts at the first item later than the time it is given, and then
steps over it: the earliest item a client does not have is the one it is not sent, now or ever, whatever it asks with
afterwards (`getAfter_iff`). What it does send is what the packet is packed from (`getAfter_eq`). -/

namespace Blitzd.Cache.NewsCache

open Blitzd.Lib.Bytes Blitzd.Lib.KeyMap Blitzd.Packets

/-- A time and a text. -/
abbrev Item := UInt32 × Text

/-- The order of the keys of `_newsmap`. -/
def before (t t' : UInt32) : Bool := t < t'

/-- `Add(uint, std::string)`. -/
def add (m : List Item) (t : UInt32) (n : Text) : List Item := insertLt before m t n

/-- The news with these items added. -/
def addAll (items : List Item) : List Item := items.foldl (fun m x => add m x.1 x.2) []

/-- `_newsmap.upper_bound(t)`: the entries from the iterator on. -/
def upperBound (m : List Item) (t : UInt32) : List Item := m.dropWhile fun e => !before t e.1

/-- The loop of `GetAfter`. -/
def collect : List Item → UInt8 → List Item → UInt8 × List Item
  | [], c, result => (c, result)
  | e :: it, c, result =>
    let result := insertLt before result e.1 e.2
    let c := c + 1
    if c = 250 then (c, result) else collect it c result

/-- `GetAfter`. -/
def getAfter (m : List Item) (t : UInt32) (result : List Item) : UInt8 × List Item :=
  match upperBound m t with
  | [] => (0, result)
  | _ :: it => collect it 0 result

/-! ### What is to be sent -/

/-- The items later than `t`, earliest first. -/
def newer (items : List Item) (t : UInt32) : List Item :=
  (items.mergeSort fun a b => decide (a.1 ≤ b.1)).filter fun e => before t e.1

/-- The earliest of them, at most 250. -/
def earliest (items : List Item) (t : UInt32) : List Item := (newer items t).take 250

/-- A client: the latest time it has received, and all it has received. -/
structure Reader where
  last : UInt32
  got : List Item

def later (t t' : UInt32) : UInt32 := if t < t' then t' else t

/-- The client asks for what is later than the latest it has. -/
def Reader.ask (m : List Item) (r : Reader) : Reader :=
  let news := (getAfter m r.last []).2
  ⟨news.foldl (fun t e => later t e.1) r.last, r.got ++ news⟩

/-! ### The order of times -/

theorem before_iff {t t' : UInt32} : before t t' = true ↔ t.toNat < t'.toNat := by
  rw [before, decide_eq_true_iff, UInt32.lt_iff_toNat_lt]

theorem before_order : KeyOrder (KeyEq.ofEq : KeyEq UInt32) before where
  eqv_iff {k k'} := by
    rw [KeyEq.ofEq_eqv, decide_eq_true_iff, ← Bool.not_eq_true, ← Bool.not_eq_true, before_iff, before_iff,
      ← UInt32.toNat_inj]
    omega
  trans h h' := by
    rw [before_iff] at h h' ⊢
    omega

theorem le_later (t t' : UInt32) : t.toNat ≤ (later t t').toNat ∧ t'.toNat ≤ (later t t').toNat := by
  unfold later
  split_ifs with h
  · rw [UInt32.lt_iff_toNat_lt] at h
    omega
  · rw [UInt32.lt_iff_toNat_lt] at h
    omega

/-- The latest time of some items is not before any of them. -/
theorem le_foldl_later (l : List Item) (t : UInt32) :
    t.toNat ≤ (l.foldl (fun t e => later t e.1) t).toNat ∧
      ∀ e ∈ l, e.1.toNat ≤ (l.foldl (fun t e => later t e.1) t).toNat := by
  induction l generalizing t with
  | nil => exact ⟨le_rfl, fun e he => absurd he List.not_mem_nil⟩
  | cons x l ih =>
    obtain ⟨hle, hall⟩ := ih (later t x.1)
    obtain ⟨ht, hx⟩ := le_later t x.1
    refine ⟨ht.trans hle, fun e he => ?_⟩
    rcases List.mem_cons.mp he with rfl | he
    · exact hx.trans hle
    · exact hall e he

/-! ### The map -/

variable {items m l : List Item} {t : UInt32} {x : Item}

theorem ordered_addAll (items : List Item) : Ordered before (addAll items) :=
  Ordered.foldl_insertLt before_order List.Pairwise.nil items

/-- Items with different times are all kept. -/
theorem addAll_perm (hd : (items.map Prod.fst).Nodup) : (addAll items).Perm items := by
  refine foldl_insertLt_perm (m := []) ?_
  refine (List.pairwise_map.mp hd).imp fun {a b} hne => ?_
  rw [before_iff, before_iff]
  have : a.1.toNat ≠ b.1.toNat := fun h => hne (UInt32.toNat_inj.mp h)
  omega

theorem addAll_eq_mergeSort (hd : (items.map Prod.fst).Nodup) :
    addAll items = items.mergeSort fun a b => decide (a.1 ≤ b.1) := by
  have hperm := addAll_perm hd
  refine @List.Perm.eq_of_pairwise _ (fun a b : Item => a.1.toNat ≤ b.1.toNat) _ _ ?_ ?_ ?_
    (hperm.trans (List.mergeSort_perm _ _).symm)
  · intro a b ha hb hab hba
    exact List.inj_on_of_nodup_map hd (hperm.mem_iff.mp ha) ((List.mergeSort_perm _ _).mem_iff.mp hb)
      (UInt32.toNat_inj.mp (Nat.le_antisymm hab hba))
  · exact (ordered_addAll items).imp fun h => (before_iff.mp h).le
  · refine (List.pairwise_mergeSort (fun a b c => ?_) (fun a b => ?_) items).imp fun h => ?_
    · simp only [decide_eq_true_eq, UInt32.le_iff_toNat_le]
      omega
    · simp only [Bool.or_eq_true, decide_eq_true_eq, UInt32.le_iff_toNat_le]
      omega
    · rwa [decide_eq_true_eq, UInt32.le_iff_toNat_le] at h

/-- In an ordered map the later entries are those from the bound on. -/
theorem upperBound_eq (h : Ordered before m) (t : UInt32) : upperBound m t = m.filter fun e => before t e.1 := by
  induction m with
  | nil => rfl
  | cons x m ih =>
    obtain ⟨hx, hm⟩ := List.pairwise_cons.mp h
    by_cases hb : before t x.1 = true
    · have hall : ∀ e ∈ x :: m, before t e.1 = true := by
        intro e he
        rcases List.mem_cons.mp he with rfl | he
        · exact hb
        · exact before_order.trans hb (hx e he)
      rw [List.filter_eq_self.mpr hall, upperBound, List.dropWhile_cons_of_neg (by simp [hb])]
    · have hout : (x :: m).filter (fun e => before t e.1) = m.filter fun e => before t e.1 :=
        List.filter_cons_of_neg (p := fun e : Item => before t e.1) hb
      rw [hout, ← ih hm]
      exact List.dropWhile_cons_of_pos (by simpa using hb)

theorem upperBound_addAll (hd : (items.map Prod.fst).Nodup) (t : UInt32) :
    upperBound (addAll items) t = newer items t := by
  rw [upperBound_eq (ordered_addAll items), addAll_eq_mergeSort hd]
  rfl

theorem mem_newer : x ∈ newer items t ↔ x ∈ items ∧ before t x.1 = true := by
  rw [newer, List.mem_filter, (List.mergeSort_perm _ _).mem_iff]

theorem ordered_newer (hd : (items.map Prod.fst).Nodup) (t : UInt32) : Ordered before (newer items t) := by
  rw [← upperBound_addAll hd]
  exact (ordered_addAll items).sublist (List.dropWhile_sublist _)

/-! ### The loop -/

/-- The loop appends what is left, up to 250 entries in all. -/
theorem collect_eq (n : ℕ) (hn : n < 250) (result : List Item) (h : Ordered before (result ++ l)) :
    collect l (UInt8.ofNat n) result =
      (UInt8.ofNat (n + (l.take (250 - n)).length), result ++ l.take (250 - n)) := by
  induction l generalizing n result with
  | nil => simp [collect]
  | cons x l ih =>
    have hlast : insertLt before result x.1 x.2 = result ++ [x] :=
      insertLt_of_forall_lt x.2 fun y hy => (List.pairwise_append.mp h).2.2 y hy x List.mem_cons_self
    have hsucc : UInt8.ofNat n + 1 = UInt8.ofNat (n + 1) := by
      rw [UInt8.ofNat_add]
      rfl
    obtain ⟨k, hk⟩ : ∃ k, 250 - n = k + 1 := ⟨249 - n, by omega⟩
    rw [collect, hlast, hsucc, hk, List.take_succ_cons, List.length_cons]
    by_cases hfull : n = 249
    · subst hfull
      obtain rfl : k = 0 := by omega
      rw [if_pos (by decide), List.take_zero, List.length_nil]
    · have hne : ¬ UInt8.ofNat (n + 1) = 250 := by
        intro he
        have hsize : n + 1 < UInt8.size := by
          rw [UInt8.size]
          omega
        have h250 : (250 : UInt8).toNat = 250 := rfl
        have := congrArg UInt8.toNat he
        rw [UInt8.toNat_ofNat_of_lt' hsize, h250] at this
        omega
      rw [if_neg hne, ih (n + 1) (by omega) _ (by rwa [List.append_assoc]),
        show 250 - (n + 1) = k by omega, List.append_assoc, Nat.add_right_comm, Nat.add_assoc]
      rfl

/-- The entry at the bound is stepped over, and at most 250 follow. -/
theorem getAfter_of_ordered (h : Ordered before m) (t : UInt32) : getAfter m t [] =
    (UInt8.ofNat (((upperBound m t).drop 1).take 250).length, ((upperBound m t).drop 1).take 250) := by
  have hu : Ordered before (upperBound m t) := h.sublist (List.dropWhile_sublist _)
  rw [getAfter]
  generalize upperBound m t = later at hu ⊢
  rcases later with _ | ⟨x, it⟩
  · rfl
  · have hloop := collect_eq 0 (by decide) [] (List.pairwise_cons.mp hu).2
    rw [Nat.zero_add, Nat.sub_zero, List.nil_append] at hloop
    exact hloop

/-- **What is sent** is what the packet takes out of the map. -/
theorem getAfter_eq (h : Ordered before m) (t : UInt32) (motd : Text) :
    getAfter m t [] = (UInt8.ofNat ((NewsView.mk m motd).getAfter t).length, (NewsView.mk m motd).getAfter t) := by
  have hview : (NewsView.mk m motd).getAfter t = ((upperBound m t).drop 1).take 250 := by
    rw [NewsView.getAfter, upperBound]
    congr 3
    funext e
    rw [before, ← decide_not]
    exact decide_eq_decide.mpr (by rw [UInt32.not_lt])
  rw [hview, getAfter_of_ordered h]

/-! ### The first newer item -/

theorem getAfter_addAll (hd : (items.map Prod.fst).Nodup) (t : UInt32) :
    getAfter (addAll items) t [] =
      (UInt8.ofNat (((newer items t).drop 1).take 250).length, ((newer items t).drop 1).take 250) := by
  rw [getAfter_of_ordered (ordered_addAll items), upperBound_addAll hd]

/-- Everything that is sent is later than the time asked with. -/
theorem before_of_sent (hd : (items.map Prod.fst).Nodup) (h : x ∈ (getAfter (addAll items) t []).2) :
    before t x.1 = true := by
  rw [getAfter_addAll hd] at h
  exact (mem_newer.mp (List.mem_of_mem_drop (List.mem_of_mem_take h))).2

/-- The first newer item is earlier than all that are sent. -/
theorem first_before_sent (hd : (items.map Prod.fst).Nodup) (hn : newer items t = x :: l) {e : Item}
    (he : e ∈ (getAfter (addAll items) t []).2) : before x.1 e.1 = true := by
  have ho := ordered_newer hd t
  rw [getAfter_addAll hd, hn] at he
  rw [hn] at ho
  exact (List.pairwise_cons.mp ho).1 e (List.mem_of_mem_take he)

theorem not_before_self (t : UInt32) : ¬ before t t = true := by
  rw [before_iff]
  omega

/-- The client never gets it: it asks with the time it began with, or with a later one than the item's. -/
theorem first_never_got (hd : (items.map Prod.fst).Nodup) (hn : newer items t = x :: l) (n : ℕ) :
    x ∉ ((Reader.ask (addAll items))^[n] ⟨t, []⟩).got ∧
      (((Reader.ask (addAll items))^[n] ⟨t, []⟩).last = t ∨
        x.1.toNat ≤ ((Reader.ask (addAll items))^[n] ⟨t, []⟩).last.toNat) := by
  induction n with
  | zero => exact ⟨List.not_mem_nil, .inl rfl⟩
  | succ n ih =>
    rw [Function.iterate_succ_apply']
    generalize (Reader.ask (addAll items))^[n] ⟨t, []⟩ = r at ih
    obtain ⟨hgot, hlast⟩ := ih
    obtain ⟨hle, hall⟩ := le_foldl_later (getAfter (addAll items) r.last []).2 r.last
    rw [Reader.ask, List.mem_append, not_or]
    rcases hlast with hlast | hlast
    · rw [hlast] at hle hall ⊢
      refine ⟨⟨hgot, fun hx => not_before_self _ (first_before_sent hd hn hx)⟩, ?_⟩
      rcases hsent : (getAfter (addAll items) t []).2 with _ | ⟨e, sent⟩
      · exact .inl rfl
      · have he : e ∈ (getAfter (addAll items) t []).2 := hsent ▸ List.mem_cons_self
        have hxe := before_iff.mp (first_before_sent hd hn he)
        rw [hsent] at hall
        exact .inr (hxe.le.trans (hall e List.mem_cons_self))
    · refine ⟨⟨hgot, fun hx => ?_⟩, .inr (hlast.trans hle)⟩
      have := before_iff.mp (before_of_sent hd hx)
      omega

/-- **News are skipped whenever there are any**: what `GetAfter` gives is right, and a client that goes on asking
ends up with everything, exactly if no item is newer than the time it has. -/
theorem getAfter_iff (items : List Item) (hd : (items.map Prod.fst).Nodup) (t : UInt32) :
    (getAfter (addAll items) t [] = (UInt8.ofNat (earliest items t).length, earliest items t) ↔
      ∀ e ∈ items, e.1 ≤ t) ∧
    ((∃ n, ∀ e ∈ items, t < e.1 → e ∈ ((Reader.ask (addAll items))^[n] ⟨t, []⟩).got) ↔
      ∀ e ∈ items, e.1 ≤ t) := by
  rcases hn : newer items t with _ | ⟨x, l⟩
  · have hall : ∀ e ∈ items, e.1 ≤ t := by
      intro e he
      by_contra hlt
      have : e ∈ newer items t := mem_newer.mpr ⟨he, decide_eq_true (UInt32.not_le.mp hlt)⟩
      rw [hn] at this
      cases this
    refine ⟨iff_of_true ?_ hall, iff_of_true ⟨0, fun e he hlt => ?_⟩ hall⟩
    · rw [getAfter_addAll hd, earliest, hn]
      rfl
    · exact absurd hlt (UInt32.not_lt.mpr (hall e he))
  · obtain ⟨hx, hlt⟩ := mem_newer.mp (hn ▸ List.mem_cons_self : x ∈ newer items t)
    have hsome : ¬ ∀ e ∈ items, e.1 ≤ t := fun hall =>
      UInt32.not_le.mpr (of_decide_eq_true hlt) (hall x hx)
    refine ⟨iff_of_false (fun h => ?_) hsome, iff_of_false ?_ hsome⟩
    · -- the item would be later than itself
      have hmem : x ∈ (getAfter (addAll items) t []).2 := by
        rw [h, earliest, hn]
        exact List.mem_cons_self
      exact not_before_self _ (first_before_sent hd hn hmem)
    · rintro ⟨n, hgot⟩
      exact (first_never_got hd hn n).1 (hgot x hx (of_decide_eq_true hlt))

/-- Two items, the later one added first. -/
def twoItems : List Item := [(7, str "b"), (5, str "a")]

/-- Nothing is missed by a client that has the later one. -/
theorem getAfter_latest : (twoItems.map Prod.fst).Nodup ∧
    getAfter (addAll twoItems) 7 [] = (UInt8.ofNat (earliest twoItems 7).length, earliest twoItems 7) ∧
    ∃ n, ∀ e ∈ twoItems, 7 < e.1 → e ∈ ((Reader.ask (addAll twoItems))^[n] ⟨7, []⟩).got := by
  obtain ⟨hsent, hgot⟩ := getAfter_iff twoItems (by decide) 7
  exact ⟨by decide, hsent.mpr (by decide), hgot.mpr (by decide)⟩

/-- **The only item is never sent.** -/
theorem only_item_skipped : earliest [(5, str "a")] 0 = [(5, str "a")] ∧
    getAfter (addAll [(5, str "a")]) 0 [] = (0, []) := by
  refine ⟨?_, by decide⟩
  rw [earliest, newer, List.mergeSort_singleton]
  decide

end Blitzd.Cache.NewsCache
