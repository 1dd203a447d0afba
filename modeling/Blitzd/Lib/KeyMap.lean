import Mathlib.Data.List.Basic

/-! # Maps with keys up to an equivalence

A map is the list of its entries. Keys are compared by a decidable equivalence (`KeyEq`), so two
spellings of one key name the same entry; assigning to a key that is there keeps the spelling it was
inserted with. The order of the entries is that of their insertion and means nothing, but in a map that is kept in
an order of its keys (`insertLt`, `Ordered`). -/

namespace Blitzd.Lib.KeyMap

variable {κ ν : Type*}

/-- A decidable equivalence of keys. -/
structure KeyEq (κ : Type*) where
  eqv : κ → κ → Bool
  refl : ∀ k, eqv k k = true
  symm : ∀ {k k'}, eqv k k' = true → eqv k' k = true
  trans : ∀ {k k' k''}, eqv k k' = true → eqv k' k'' = true → eqv k k'' = true

/-- Keys compared by equality. -/
def KeyEq.ofEq [DecidableEq κ] : KeyEq κ where
  eqv k k' := k = k'
  refl _ := decide_eq_true rfl
  symm h := decide_eq_true (of_decide_eq_true h).symm
  trans h h' := decide_eq_true ((of_decide_eq_true h).trans (of_decide_eq_true h'))

@[simp] theorem KeyEq.ofEq_eqv [DecidableEq κ] (k k' : κ) :
    (KeyEq.ofEq : KeyEq κ).eqv k k' = decide (k = k') := rfl

/-- Keys compared by a part of them. -/
def KeyEq.comap {κ' : Type*} (f : κ' → κ) (e : KeyEq κ) : KeyEq κ' where
  eqv k k' := e.eqv (f k) (f k')
  refl k := e.refl (f k)
  symm h := e.symm h
  trans h h' := e.trans h h'

@[simp] theorem KeyEq.comap_eqv {κ' : Type*} (f : κ' → κ) (e : KeyEq κ) (k k' : κ') :
    (e.comap f).eqv k k' = e.eqv (f k) (f k') := rfl

variable (e : KeyEq κ)

/-- The value of a key. -/
def find : List (κ × ν) → κ → Option ν
  | [], _ => none
  | (k', v) :: m, k => if e.eqv k' k then some v else find m k

/-- Assignment to a key. -/
def insert : List (κ × ν) → κ → ν → List (κ × ν)
  | [], k, v => [(k, v)]
  | (k', v') :: m, k, v => if e.eqv k' k then (k', v) :: m else (k', v') :: insert m k v

/-- Assignment to a key of a map kept in the order `lt`. -/
def insertLt (lt : κ → κ → Bool) : List (κ × ν) → κ → ν → List (κ × ν)
  | [], k, v => [(k, v)]
  | (k', v') :: m, k, v =>
    if lt k' k then (k', v') :: insertLt lt m k v
    else if lt k k' then (k, v) :: (k', v') :: m
    else (k', v) :: m

/-- The map without a key. -/
def erase (m : List (κ × ν)) (k : κ) : List (κ × ν) := m.filter fun p => !e.eqv p.1 k

variable {e}

theorem eqv_congr {k k' : κ} (h : e.eqv k k' = true) (j : κ) : e.eqv j k = e.eqv j k' := by
  rcases hj : e.eqv j k with _ | _
  · rcases hj' : e.eqv j k' with _ | _
    · rfl
    · exact absurd (e.trans hj' (e.symm h)) (by simp [hj])
  · exact (e.trans hj h).symm

/-- A key may be looked up under any of its spellings. -/
theorem find_congr {k k' : κ} (h : e.eqv k k' = true) : ∀ m : List (κ × ν), find e m k = find e m k'
  | [] => rfl
  | (j, v) :: m => by rw [find, find, eqv_congr h j, find_congr h m]

theorem find_insert_of_eqv {k k' : κ} (h : e.eqv k k' = true) (v : ν) :
    ∀ m : List (κ × ν), find e (insert e m k v) k' = some v
  | [] => by rw [insert, find, if_pos h]
  | (j, w) :: m => by
    rw [insert]
    split_ifs with hj
    · rw [find, if_pos (e.trans hj h)]
    · have hj' : ¬ e.eqv j k' = true := by rwa [← eqv_congr h j]
      rw [find, if_neg hj', find_insert_of_eqv h v m]

theorem find_insert_of_ne {k k' : κ} (h : e.eqv k k' = false) (v : ν) :
    ∀ m : List (κ × ν), find e (insert e m k v) k' = find e m k'
  | [] => by simp [insert, find, h]
  | (j, w) :: m => by
    rw [insert]
    split_ifs with hj
    · have hj' : ¬ e.eqv j k' = true := fun h' => by
        have := e.trans (e.symm hj) h'
        simp [h] at this
      rw [find, find, if_neg hj', if_neg hj']
    · rw [find, find, find_insert_of_ne h v m]

theorem find_some {k : κ} {v : ν} : ∀ {m : List (κ × ν)}, find e m k = some v →
    ∃ k', (k', v) ∈ m ∧ e.eqv k' k = true
  | (j, w) :: m, h => by
    rw [find] at h
    split_ifs at h with hj
    · cases h; exact ⟨j, by simp, hj⟩
    · obtain ⟨k', hm, hk⟩ := find_some h
      exact ⟨k', by simp [hm], hk⟩

theorem exists_find_of_mem {x : κ × ν} : ∀ {m : List (κ × ν)}, x ∈ m → ∃ v, find e m x.1 = some v
  | y :: m, h => by
    rw [find]
    split_ifs with hy
    · exact ⟨y.2, rfl⟩
    · rcases List.mem_cons.mp h with rfl | h
      · exact absurd (e.refl x.1) hy
      · exact exists_find_of_mem h

/-- What is found is one of the values. -/
theorem find_of_forall {P : ν → Prop} {m : List (κ × ν)} (hm : ∀ x ∈ m, P x.2) {k : κ} {v : ν}
    (h : find e m k = some v) : P v := by
  obtain ⟨k', hk, -⟩ := find_some h
  exact hm _ hk

theorem find_erase_of_eqv {k k' : κ} (h : e.eqv k k' = true) : ∀ m : List (κ × ν),
    find e (erase e m k) k' = none
  | [] => rfl
  | (j, v) :: m => by
    have ih := find_erase_of_eqv h m
    unfold erase at ih ⊢
    rw [List.filter_cons]
    split_ifs with hj
    · have hj' : ¬ e.eqv j k' = true := by
        rw [← eqv_congr h j]
        simpa using hj
      rw [find, if_neg hj', ih]
    · exact ih

theorem find_erase_of_ne {k k' : κ} (h : e.eqv k k' = false) : ∀ m : List (κ × ν),
    find e (erase e m k) k' = find e m k'
  | [] => rfl
  | (j, v) :: m => by
    have ih := find_erase_of_ne h m
    unfold erase at ih ⊢
    rw [List.filter_cons]
    split_ifs with hj
    · rw [find, find, ih]
    · have hj' : ¬ e.eqv j k' = true := fun h' => by
        have := e.trans (e.symm (by simpa using hj)) h'
        simp [h] at this
      rw [find, if_neg hj', ih]

theorem find_insert (m : List (κ × ν)) (k k' : κ) (v : ν) :
    find e (insert e m k v) k' = if e.eqv k k' then some v else find e m k' := by
  rcases h : e.eqv k k' with _ | _
  · exact find_insert_of_ne h v m
  · exact find_insert_of_eqv h v m

theorem find_erase (m : List (κ × ν)) (k k' : κ) :
    find e (erase e m k) k' = if e.eqv k k' then none else find e m k' := by
  rcases h : e.eqv k k' with _ | _
  · exact find_erase_of_ne h m
  · exact find_erase_of_eqv h m

/-- As many keys as are found, no two of them the same, need as many entries. -/
theorem length_le_of_found : ∀ {m : List (κ × ν)} {ks : List κ},
    ks.Pairwise (fun k k' => e.eqv k k' = false) → (∀ k ∈ ks, (find e m k).isSome) →
      ks.length ≤ m.length := by
  intro m
  induction m with
  | nil =>
    intro ks _ hf
    rcases ks with _ | ⟨k, ks⟩
    · simp
    · exact absurd (hf k List.mem_cons_self) (by simp [find])
  | cons x m ih =>
    intro ks hp hf
    -- one of the keys at most is that of the first entry
    have hone : (ks.filter fun k => e.eqv x.1 k).length ≤ 1 := by
      have hpw := hp.filter fun k => e.eqv x.1 k
      have hall : ∀ k ∈ ks.filter fun k => e.eqv x.1 k, e.eqv x.1 k = true := fun k hk =>
        (List.mem_filter.mp hk).2
      rcases hl : ks.filter fun k => e.eqv x.1 k with _ | ⟨a, _ | ⟨b, l⟩⟩
      · simp
      · simp
      · rw [hl] at hpw hall
        have hab := (List.pairwise_cons.mp hpw).1 b (by simp)
        have := e.trans (e.symm (hall a (by simp))) (hall b (by simp))
        rw [hab] at this
        cases this
    have hrest : (ks.filter fun k => !e.eqv x.1 k).length ≤ m.length := by
      refine ih (hp.filter _) fun k hk => ?_
      obtain ⟨hk, hne⟩ := List.mem_filter.mp hk
      have := hf k hk
      rwa [find, if_neg (by simpa using hne)] at this
    have hlen := List.length_eq_length_filter_add (l := ks) fun k => e.eqv x.1 k
    rw [List.length_cons]
    omega

/-! ### One entry for each key -/

/-- No two entries have the same key. -/
def KeyUnique (e : KeyEq κ) (m : List (κ × ν)) : Prop := m.Pairwise fun x y => e.eqv x.1 y.1 = false

/-- An assignment adds no key but its own. -/
theorem key_of_mem_insert {k : κ} {v : ν} {x : κ × ν} : ∀ {m : List (κ × ν)}, x ∈ insert e m k v →
    (∃ y ∈ m, y.1 = x.1) ∨ x.1 = k
  | [], hx => by
    rw [insert, List.mem_singleton] at hx
    exact .inr (by rw [hx])
  | (k', v') :: m, hx => by
    rw [insert] at hx
    split_ifs at hx
    · rcases List.mem_cons.mp hx with rfl | hx
      · exact .inl ⟨_, List.mem_cons_self, rfl⟩
      · exact .inl ⟨x, List.mem_cons_of_mem _ hx, rfl⟩
    · rcases List.mem_cons.mp hx with rfl | hx
      · exact .inl ⟨_, List.mem_cons_self, rfl⟩
      · exact (key_of_mem_insert hx).imp_left fun ⟨y, hy, he⟩ => ⟨y, List.mem_cons_of_mem _ hy, he⟩

theorem KeyUnique.insert (k : κ) (v : ν) : ∀ {m : List (κ × ν)}, KeyUnique e m → KeyUnique e (insert e m k v)
  | [], _ => List.pairwise_singleton _ _
  | (k', v') :: m, h => by
    obtain ⟨hk, hm⟩ := List.pairwise_cons.mp h
    rw [KeyMap.insert]
    split_ifs with hkk
    · exact List.pairwise_cons.mpr ⟨hk, hm⟩
    · refine List.pairwise_cons.mpr ⟨fun x hx => ?_, KeyUnique.insert k v hm⟩
      rcases key_of_mem_insert hx with ⟨y, hy, he⟩ | he
      · rw [← he]
        exact hk y hy
      · rw [he]
        exact eq_false_of_ne_true hkk

theorem KeyUnique.find_of_mem {x : κ × ν} : ∀ {m : List (κ × ν)}, KeyUnique e m → x ∈ m → find e m x.1 = some x.2
  | y :: m, h, hx => by
    obtain ⟨hy, hm⟩ := List.pairwise_cons.mp h
    rw [find]
    rcases List.mem_cons.mp hx with rfl | hx
    · rw [if_pos (e.refl x.1)]
    · rw [if_neg (by simp [hy x hx]), KeyUnique.find_of_mem hm hx]

/-! ### Keys in the order of their first occurrence -/

/-- Each key once, where it first occurs. -/
def firsts (e : KeyEq κ) : List κ → List κ
  | [] => []
  | k :: l => k :: (firsts e l).filter fun k' => !e.eqv k k'

/-- Every key of the list is among them in some spelling. -/
theorem exists_mem_firsts {k : κ} : ∀ {l : List κ}, k ∈ l → ∃ k' ∈ firsts e l, e.eqv k' k = true
  | j :: l, h => by
    by_cases hj : e.eqv j k = true
    · exact ⟨j, List.mem_cons_self, hj⟩
    · have hk : k ∈ l := (List.mem_cons.mp h).resolve_left fun hk => hj (hk ▸ e.refl k)
      obtain ⟨k', hk', he⟩ := exists_mem_firsts hk
      refine ⟨k', List.mem_cons_of_mem _ (List.mem_filter.mpr ⟨hk', ?_⟩), he⟩
      rcases hjk : e.eqv j k' with _ | _
      · rfl
      · exact absurd (e.trans hjk he) hj

/-- One more key is added unless it is there. -/
theorem firsts_concat (k : κ) : ∀ l : List κ,
    firsts e (l ++ [k]) = if (firsts e l).any (e.eqv · k) then firsts e l else firsts e l ++ [k]
  | [] => rfl
  | j :: l => by
    rw [List.cons_append, firsts, firsts_concat k l, firsts]
    by_cases hany : (firsts e l).any (e.eqv · k) = true
    · -- a spelling of `k` is kept, or `j` is one
      have hmem : (j :: (firsts e l).filter fun k' => !e.eqv j k').any (e.eqv · k) = true := by
        obtain ⟨k', hk', he⟩ := List.any_eq_true.mp hany
        rw [List.any_eq_true]
        rcases hjk : e.eqv j k' with _ | _
        · exact ⟨k', List.mem_cons_of_mem _ (List.mem_filter.mpr ⟨hk', by simp [hjk]⟩), he⟩
        · exact ⟨j, List.mem_cons_self, e.trans hjk he⟩
      rw [if_pos hany, if_pos hmem]
    · have hnone : ((firsts e l).filter fun k' => !e.eqv j k').any (e.eqv · k) = false := by
        rw [List.any_eq_false]
        intro k' hk' he
        exact hany (List.any_eq_true.mpr ⟨k', (List.mem_filter.mp hk').1, he⟩)
      rw [if_neg hany, List.any_cons, hnone, Bool.or_false, List.filter_append]
      rcases hjk : e.eqv j k with _ | _
      · rw [if_neg Bool.false_ne_true, List.filter_cons_of_pos (by simp [hjk])]
        rfl
      · rw [if_pos rfl, List.filter_cons_of_neg (by simp [hjk]), List.filter_nil, List.append_nil]

/-! ### Ordered maps -/

section Ordered

variable {lt : κ → κ → Bool}

/-- `lt` orders the keys up to their equivalence. -/
structure KeyOrder (e : KeyEq κ) (lt : κ → κ → Bool) : Prop where
  eqv_iff : ∀ {k k'}, e.eqv k k' = true ↔ lt k k' = false ∧ lt k' k = false
  trans : ∀ {k k' k''}, lt k k' = true → lt k' k'' = true → lt k k'' = true

theorem KeyOrder.ne (o : KeyOrder e lt) {k k' : κ} (h : lt k k' = true) : e.eqv k k' = false := by
  rcases he : e.eqv k k' with _ | _
  · rfl
  · rw [(o.eqv_iff.mp he).1] at h
    cases h

/-- The entries stand in the order of their keys. -/
def Ordered (lt : κ → κ → Bool) (m : List (κ × ν)) : Prop := m.Pairwise fun x y => lt x.1 y.1 = true

theorem find_append (m m' : List (κ × ν)) (k : κ) : find e (m ++ m') k = (find e m k).or (find e m' k) := by
  induction m with
  | nil => rfl
  | cons x m ih =>
    rw [List.cons_append, find, find, ih]
    split_ifs <;> rfl

theorem find_eq_none_of_forall {m : List (κ × ν)} {k : κ} (h : ∀ x ∈ m, e.eqv x.1 k = false) : find e m k = none := by
  induction m with
  | nil => rfl
  | cons x m ih =>
    rw [find, h x List.mem_cons_self, if_neg Bool.false_ne_true]
    exact ih fun y hy => h y (List.mem_cons_of_mem _ hy)

theorem find_insertLt (o : KeyOrder e lt) (m : List (κ × ν)) (k k' : κ) (v : ν) :
    find e (insertLt lt m k v) k' = if e.eqv k k' then some v else find e m k' := by
  induction m with
  | nil => rfl
  | cons x m ih =>
    rw [insertLt]
    rcases hxk : lt x.1 k with _ | _
    · rcases hkx : lt k x.1 with _ | _
      · -- the entry is that of `k`
        have hx : e.eqv x.1 k = true := o.eqv_iff.mpr ⟨hxk, hkx⟩
        have hiff : e.eqv x.1 k' = e.eqv k k' := by
          rcases hk : e.eqv k k' with _ | _
          · rcases hx' : e.eqv x.1 k' with _ | _
            · rfl
            · rw [e.trans (e.symm hx) hx'] at hk
              cases hk
          · exact e.trans hx hk
        simp only [find, hiff, Bool.false_eq_true, if_false]
        split_ifs <;> rfl
      · simp [find]
    · have hne : e.eqv x.1 k = false := o.ne hxk
      rw [if_pos rfl, find, ih, find]
      by_cases hk : e.eqv k k' = true
      · rw [if_neg (by rw [← eqv_congr hk x.1, hne]; exact Bool.false_ne_true), if_pos hk, if_pos hk]
      · rw [if_neg hk, if_neg hk]

/-- A key is spelled as it was, or as it is put in now. -/
theorem forall_mem_insertLt {P : κ → Prop} {Q : ν → Prop} {m : List (κ × ν)} {k : κ} {v : ν}
    (hm : ∀ x ∈ m, P x.1 ∧ Q x.2) (hk : P k) (hv : Q v) : ∀ x ∈ insertLt lt m k v, P x.1 ∧ Q x.2 := by
  induction m with
  | nil => simpa [insertLt] using ⟨hk, hv⟩
  | cons y m ih =>
    have hy := hm y List.mem_cons_self
    have hrest : ∀ x ∈ m, P x.1 ∧ Q x.2 := fun x hx => hm x (List.mem_cons_of_mem _ hx)
    intro x hx
    rw [insertLt] at hx
    split_ifs at hx with h₁ h₂
    · rcases List.mem_cons.mp hx with rfl | hx
      · exact hy
      · exact ih hrest x hx
    · rcases List.mem_cons.mp hx with rfl | hx
      · exact ⟨hk, hv⟩
      · exact hm x hx
    · rcases List.mem_cons.mp hx with rfl | hx
      · exact ⟨hy.1, hv⟩
      · exact hrest x hx

theorem forall_mem_foldl_insertLt {P : κ → Prop} {Q : ν → Prop} {l m : List (κ × ν)} (hm : ∀ x ∈ m, P x.1 ∧ Q x.2)
    (hl : ∀ x ∈ l, P x.1 ∧ Q x.2) : ∀ x ∈ l.foldl (fun m x => insertLt lt m x.1 x.2) m, P x.1 ∧ Q x.2 := by
  induction l generalizing m with
  | nil => exact hm
  | cons y l ih =>
    obtain ⟨hk, hv⟩ := hl y List.mem_cons_self
    exact ih (forall_mem_insertLt hm hk hv) fun x hx => hl x (List.mem_cons_of_mem _ hx)

theorem Ordered.insertLt (o : KeyOrder e lt) {m : List (κ × ν)} (h : Ordered lt m) (k : κ) (v : ν) :
    Ordered lt (insertLt lt m k v) := by
  induction m with
  | nil => exact List.pairwise_singleton _ _
  | cons x m ih =>
    obtain ⟨hx, hm⟩ := List.pairwise_cons.mp h
    rw [KeyMap.insertLt]
    split_ifs with h₁ h₂
    · have hall : ∀ y ∈ KeyMap.insertLt lt m k v, lt x.1 y.1 = true ∧ True :=
        forall_mem_insertLt (P := fun j => lt x.1 j = true) (Q := fun _ => True) (fun y hy => ⟨hx y hy, trivial⟩) h₁
          trivial
      exact List.pairwise_cons.mpr ⟨fun y hy => (hall y hy).1, ih hm⟩
    · refine List.pairwise_cons.mpr ⟨fun y hy => ?_, h⟩
      rcases List.mem_cons.mp hy with rfl | hy
      · exact h₂
      · exact o.trans h₂ (hx y hy)
    · exact List.pairwise_cons.mpr ⟨hx, hm⟩

/-- Entries put in one after the other: the last one of a key is found. -/
theorem find_foldl_insertLt (o : KeyOrder e lt) (l m : List (κ × ν)) (k : κ) :
    find e (l.foldl (fun m x => insertLt lt m x.1 x.2) m) k = (find e l.reverse k).or (find e m k) := by
  induction l generalizing m with
  | nil => rfl
  | cons x l ih =>
    rw [List.foldl_cons, ih, find_insertLt o, List.reverse_cons, find_append, Option.or_assoc]
    congr 1
    rw [find, find]
    split_ifs <;> rfl

theorem Ordered.foldl_insertLt (o : KeyOrder e lt) {m : List (κ × ν)} (h : Ordered lt m) (l : List (κ × ν)) :
    Ordered lt (l.foldl (fun m x => KeyMap.insertLt lt m x.1 x.2) m) := by
  induction l generalizing m with
  | nil => exact h
  | cons x l ih => exact ih (h.insertLt o x.1 x.2)

/-- An ordered map has one entry for a key. -/
theorem Ordered.find_reverse (o : KeyOrder e lt) {m : List (κ × ν)} (h : Ordered lt m) (k : κ) :
    find e m.reverse k = find e m k := by
  induction m with
  | nil => rfl
  | cons x m ih =>
    obtain ⟨hx, hm⟩ := List.pairwise_cons.mp h
    rw [List.reverse_cons, find_append, ih hm, find, find, find]
    by_cases hk : e.eqv x.1 k = true
    · have hnone : find e m k = none := find_eq_none_of_forall fun y hy => by
        rcases hy' : e.eqv y.1 k with _ | _
        · rfl
        · have := e.trans hk (e.symm hy')
          rw [o.ne (hx y hy)] at this
          cases this
      rw [if_pos hk, if_pos hk, hnone]
      rfl
    · rw [if_neg hk, if_neg hk, Option.or_none]

theorem Ordered.find_of_mem (o : KeyOrder e lt) {m : List (κ × ν)} (h : Ordered lt m) {x : κ × ν} (hx : x ∈ m) :
    find e m x.1 = some x.2 := by
  induction m with
  | nil => cases hx
  | cons y m ih =>
    obtain ⟨hy, hm⟩ := List.pairwise_cons.mp h
    rw [find]
    rcases List.mem_cons.mp hx with rfl | hx
    · rw [if_pos (e.refl _)]
    · rw [o.ne (hy x hx), if_neg Bool.false_ne_true]
      exact ih hm hx

/-- A new key adds its entry. -/
theorem insertLt_perm {m : List (κ × ν)} {k : κ} (v : ν) (hnew : ∀ x ∈ m, lt x.1 k = true ∨ lt k x.1 = true) :
    (insertLt lt m k v).Perm ((k, v) :: m) := by
  induction m with
  | nil => exact .refl _
  | cons x m ih =>
    rw [insertLt]
    split_ifs with h₁ h₂
    · have hrest := ih fun y hy => hnew y (List.mem_cons_of_mem _ hy)
      exact (hrest.cons x).trans (.swap _ _ _)
    · exact .refl _
    · rcases hnew x List.mem_cons_self with h | h
      · exact absurd h h₁
      · exact absurd h h₂

/-- A key behind all others is appended. -/
theorem insertLt_of_forall_lt {m : List (κ × ν)} {k : κ} (v : ν) (h : ∀ x ∈ m, lt x.1 k = true) :
    insertLt lt m k v = m ++ [(k, v)] := by
  induction m with
  | nil => rfl
  | cons x m ih =>
    rw [insertLt, if_pos (h x List.mem_cons_self), ih fun y hy => h y (List.mem_cons_of_mem _ hy)]
    rfl

/-- Entries with different keys, put in one after the other. -/
theorem foldl_insertLt_perm {l m : List (κ × ν)}
    (h : (m ++ l).Pairwise fun x y => lt x.1 y.1 = true ∨ lt y.1 x.1 = true) :
    (l.foldl (fun m x => insertLt lt m x.1 x.2) m).Perm (m ++ l) := by
  induction l generalizing m with
  | nil => rw [List.append_nil, List.foldl_nil]
  | cons x l ih =>
    have hnew : ∀ y ∈ m, lt y.1 x.1 = true ∨ lt x.1 y.1 = true := fun y hy =>
      (List.pairwise_append.mp h).2.2 y hy x List.mem_cons_self
    have hperm := insertLt_perm x.2 hnew
    have hall : (insertLt lt m x.1 x.2 ++ l).Perm (m ++ x :: l) :=
      (hperm.append_right l).trans List.perm_middle.symm
    exact (ih (hall.symm.pairwise h fun hxy => hxy.symm)).trans hall

/-- `lt` is a strict weak order. -/
theorem KeyOrder.isStrictWeakOrder (o : KeyOrder e lt) : IsStrictWeakOrder κ fun k k' => lt k k' = true where
  irrefl k h := by
    rw [(o.eqv_iff.mp (e.refl k)).1] at h
    cases h
  trans _ _ _ h h' := o.trans h h'
  incomp_trans a b c h h' := by
    simp only [Bool.not_eq_true] at h h' ⊢
    exact o.eqv_iff.mp (e.trans (o.eqv_iff.mpr h) (o.eqv_iff.mpr h'))

/-! ### Lookups -/

/-- Lookup in a tree: the first entry that is not before the key. -/
def treeFind (lt : κ → κ → Bool) (m : List (κ × ν)) (k : κ) : Option ν :=
  match m.dropWhile fun x => lt x.1 k with
  | [] => none
  | x :: _ => if lt k x.1 then none else some x.2

/-- A key that is before the first entry is before all of them. -/
theorem Ordered.find_eq_none (o : KeyOrder e lt) {x : κ × ν} {m : List (κ × ν)} (h : Ordered lt (x :: m)) {k : κ}
    (hk : lt k x.1 = true) : find e (x :: m) k = none := by
  refine find_eq_none_of_forall fun y hy => eq_false_of_ne_true fun he => ?_
  have hky : lt k y.1 = true := by
    rcases List.mem_cons.mp hy with rfl | hy
    · exact hk
    · exact o.trans hk ((List.pairwise_cons.mp h).1 y hy)
  rw [(o.eqv_iff.mp he).2] at hky
  cases hky

theorem Ordered.treeFind_eq (o : KeyOrder e lt) {m : List (κ × ν)} (h : Ordered lt m) (k : κ) :
    treeFind lt m k = find e m k := by
  induction m with
  | nil => rfl
  | cons x m ih =>
    have hm := (List.pairwise_cons.mp h).2
    rcases hxk : lt x.1 k with _ | _
    · rw [treeFind, List.dropWhile_cons_of_neg (by simp [hxk])]
      rcases hkx : lt k x.1 with _ | _
      · rw [find, if_pos (o.eqv_iff.mpr ⟨hxk, hkx⟩)]
        simp [hkx]
      · rw [h.find_eq_none o hkx]
        simp [hkx]
    · rw [find, if_neg (by rw [o.ne hxk]; exact Bool.false_ne_true), ← ih hm, treeFind, treeFind,
        List.dropWhile_cons_of_pos (by simp [hxk])]

end Ordered

/-- Lookup in a hash table: the entries of the key's bucket that have its hash are compared with it. -/
def hashFind (hash : κ → ℕ) (eq : κ → κ → Bool) (buckets : ℕ) (m : List (κ × ν)) (k : κ) : Option ν :=
  let bucket := m.filter fun x => hash x.1 % buckets = hash k % buckets
  (bucket.find? fun x => hash x.1 = hash k && eq k x.1).map Prod.snd

theorem hashFind_eq {hash : κ → ℕ} (hhash : ∀ k k', e.eqv k k' = true → hash k = hash k') (buckets : ℕ)
    (m : List (κ × ν)) (k : κ) : hashFind hash e.eqv buckets m k = find e m k := by
  induction m with
  | nil => rfl
  | cons x m ih =>
    unfold hashFind at ih ⊢
    dsimp only at ih ⊢
    rw [find]
    by_cases hx : e.eqv x.1 k = true
    · have heq := hhash _ _ hx
      rw [if_pos hx, List.filter_cons_of_pos (by simp [heq]), List.find?_cons_of_pos (by simp [heq, e.symm hx])]
      rfl
    · have hne : e.eqv k x.1 = false := eq_false_of_ne_true fun h => hx (e.symm h)
      rw [if_neg hx, ← ih]
      by_cases hb : hash x.1 % buckets = hash k % buckets
      · rw [List.filter_cons_of_pos (by simpa using hb), List.find?_cons_of_neg (by simp [hne])]
      · rw [List.filter_cons_of_neg (by simpa using hb)]

end Blitzd.Lib.KeyMap
