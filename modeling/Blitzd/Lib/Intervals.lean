import Mathlib.Order.CompletePartialOrder
import Mathlib.Order.Interval.Set.Disjoint

/-! # Lists of intervals

A list of half-open intervals `[lo, hi)` of a linear order, as pairs `(lo, hi)`. `Gapped` lists are in order, none of
their intervals is empty and no two of them touch. Such a list is the only one for the set it covers
(`Gapped.eq_of_cover`), so what is done to it is known as soon as the set is.

The edits: cutting the front off an interval (`trim`), and putting one in front of the rest, which merges it with the next
one if they touch (`join`). -/

namespace Blitzd.Lib.Intervals

variable {α : Type*} [LinearOrder α]

/-- The points of the intervals. -/
def cover (l : List (α × α)) : Set α := {x | ∃ i ∈ l, x ∈ Set.Ico i.1 i.2}

theorem mem_cover {l : List (α × α)} {x : α} : x ∈ cover l ↔ ∃ i ∈ l, i.1 ≤ x ∧ x < i.2 := Iff.rfl

@[simp] theorem cover_nil : cover ([] : List (α × α)) = ∅ := by
  ext x
  simp [mem_cover]

@[simp] theorem cover_cons (i : α × α) (l : List (α × α)) : cover (i :: l) = Set.Ico i.1 i.2 ∪ cover l := by
  ext x
  simp [mem_cover]

@[simp] theorem cover_append (l m : List (α × α)) : cover (l ++ m) = cover l ∪ cover m := by
  ext x
  simp only [mem_cover, List.mem_append, Set.mem_union]
  constructor
  · rintro ⟨i, hi | hi, hx⟩
    · exact .inl ⟨i, hi, hx⟩
    · exact .inr ⟨i, hi, hx⟩
  · rintro (⟨i, hi, hx⟩ | ⟨i, hi, hx⟩)
    · exact ⟨i, .inl hi, hx⟩
    · exact ⟨i, .inr hi, hx⟩

/-- The intervals are in order, with a gap between any two. -/
structure Gapped (l : List (α × α)) : Prop where
  nonempty : ∀ i ∈ l, i.1 < i.2
  apart : l.Pairwise fun i j => i.2 < j.1

namespace Gapped

variable {l m : List (α × α)} {i : α × α}

theorem nil : Gapped ([] : List (α × α)) := ⟨fun _ h => absurd h List.not_mem_nil, List.Pairwise.nil⟩

theorem append_iff : Gapped (l ++ m) ↔ Gapped l ∧ Gapped m ∧ ∀ i ∈ l, ∀ j ∈ m, i.2 < j.1 := by
  constructor
  · rintro ⟨hne, hap⟩
    obtain ⟨hl, hm, hlm⟩ := List.pairwise_append.mp hap
    exact ⟨⟨fun i hi => hne i (List.mem_append_left _ hi), hl⟩, ⟨fun i hi => hne i (List.mem_append_right _ hi), hm⟩, hlm⟩
  · rintro ⟨hl, hm, hlm⟩
    refine ⟨fun i hi => ?_, List.pairwise_append.mpr ⟨hl.apart, hm.apart, hlm⟩⟩
    rcases List.mem_append.mp hi with hi | hi
    · exact hl.nonempty i hi
    · exact hm.nonempty i hi

theorem cons_iff : Gapped (i :: l) ↔ i.1 < i.2 ∧ Gapped l ∧ ∀ j ∈ l, i.2 < j.1 := by
  constructor
  · rintro ⟨hne, hap⟩
    obtain ⟨hi, hl⟩ := List.pairwise_cons.mp hap
    exact ⟨hne i List.mem_cons_self, ⟨fun j hj => hne j (List.mem_cons_of_mem _ hj), hl⟩, hi⟩
  · rintro ⟨hi, hl, hil⟩
    refine ⟨fun j hj => ?_, List.pairwise_cons.mpr ⟨hil, hl.apart⟩⟩
    rcases List.mem_cons.mp hj with rfl | hj
    · exact hi
    · exact hl.nonempty j hj

theorem increasing (h : Gapped l) : l.Pairwise fun i j => i.1 < j.1 :=
  h.apart.imp_of_mem fun hi _ hij => (h.nonempty _ hi).trans hij

/-- All of a gapped list is at or above its first point. -/
theorem le_of_mem_cover (h : Gapped (i :: l)) {x : α} (hx : x ∈ cover (i :: l)) : i.1 ≤ x := by
  obtain ⟨hi, -, hil⟩ := cons_iff.mp h
  obtain ⟨j, hj, hjx, -⟩ := hx
  rcases List.mem_cons.mp hj with rfl | hj
  · exact hjx
  · exact ((hi.trans (hil j hj)).trans_le hjx).le

/-- The end of the first interval is not covered. -/
theorem end_notMem_cover (h : Gapped (i :: l)) : i.2 ∉ cover (i :: l) := by
  obtain ⟨-, -, hil⟩ := cons_iff.mp h
  rintro ⟨j, hj, hjx, hxj⟩
  rcases List.mem_cons.mp hj with rfl | hj
  · exact lt_irrefl _ hxj
  · exact absurd hjx (not_le.mpr (hil j hj))

theorem fst_mem_cover (h : Gapped (i :: l)) : i.1 ∈ cover (i :: l) :=
  ⟨i, List.mem_cons_self, le_rfl, (cons_iff.mp h).1⟩

/-- The first interval is told by the points covered. -/
theorem head_eq {j : α × α} (h : Gapped (i :: l)) (h' : Gapped (j :: m)) (heq : cover (i :: l) = cover (j :: m)) :
    i = j := by
  have hfst : i.1 = j.1 :=
    le_antisymm (h.le_of_mem_cover (heq ▸ h'.fst_mem_cover)) (h'.le_of_mem_cover (heq ▸ h.fst_mem_cover))
  have hle : ∀ {i j : α × α} {l m : List (α × α)}, Gapped (i :: l) → Gapped (j :: m) → cover (i :: l) = cover (j :: m) →
      i.1 = j.1 → j.2 ≤ i.2 := by
    intro i j l m h h' heq hfst
    -- otherwise the end of `i` would be inside of `j`
    by_contra hlt
    refine h.end_notMem_cover ?_
    rw [heq]
    exact ⟨j, List.mem_cons_self, hfst ▸ (cons_iff.mp h).1.le, not_le.mp hlt⟩
  exact Prod.ext hfst (le_antisymm (hle h' h heq.symm hfst.symm) (hle h h' heq hfst))

theorem cover_tail (h : Gapped (i :: l)) : cover l = cover (i :: l) \ Set.Ico i.1 i.2 := by
  obtain ⟨-, -, hil⟩ := cons_iff.mp h
  ext x
  rw [cover_cons, Set.union_sdiff_left, Set.mem_sdiff]
  refine ⟨fun hx => ⟨hx, fun hxi => ?_⟩, fun hx => hx.1⟩
  obtain ⟨j, hj, hjx, -⟩ := hx
  exact absurd (hil j hj) (not_lt.mpr (hjx.trans hxi.2.le))

/-- **A gapped list is told by the points it covers.** -/
theorem eq_of_cover : ∀ {l m : List (α × α)}, Gapped l → Gapped m → cover l = cover m → l = m := by
  intro l
  induction l with
  | nil =>
    intro m _ hm heq
    cases m with
    | nil => rfl
    | cons j m =>
      have hj := hm.fst_mem_cover
      rw [← heq, cover_nil] at hj
      exact absurd hj (Set.notMem_empty _)
  | cons i l ih =>
    intro m hl hm heq
    cases m with
    | nil =>
      have hi := hl.fst_mem_cover
      rw [heq, cover_nil] at hi
      exact absurd hi (Set.notMem_empty _)
    | cons j m =>
      obtain rfl := hl.head_eq hm heq
      have htail : cover l = cover m := by rw [hl.cover_tail, hm.cover_tail, heq]
      rw [ih (cons_iff.mp hl).2.1 (cons_iff.mp hm).2.1 htail]

end Gapped

/-! ### Edits -/

/-- What is left of an interval from `x` on. -/
def trim (x : α) (i : α × α) : List (α × α) := if x = i.2 then [] else [(x, i.2)]

/-- An interval put in front of a list; it is merged with the first one if they touch. -/
def join (i : α × α) : List (α × α) → List (α × α)
  | [] => [i]
  | j :: l => if i.2 = j.1 then (i.1, j.2) :: l else i :: j :: l

variable {l m : List (α × α)} {i : α × α}

/-- Cutting the front off one of the intervals. -/
theorem gapped_trim (h : Gapped (l ++ i :: m)) {x : α} (hlo : i.1 ≤ x) (hhi : x ≤ i.2) :
    Gapped (l ++ (trim x i ++ m)) ∧ cover (l ++ (trim x i ++ m)) = cover (l ++ i :: m) \ Set.Ico i.1 x := by
  obtain ⟨hl, him, hli⟩ := Gapped.append_iff.mp h
  obtain ⟨hi, hm, him⟩ := Gapped.cons_iff.mp him
  have hbefore : ∀ j ∈ l, j.2 < i.1 := fun j hj => hli j hj i List.mem_cons_self
  have htrim : ∀ j ∈ trim x i, j = (x, i.2) ∧ x < i.2 := by
    intro j hj
    unfold trim at hj
    split_ifs at hj with hx
    · exact absurd hj List.not_mem_nil
    · exact ⟨List.mem_singleton.mp hj, lt_of_le_of_ne hhi hx⟩
  have hgapped : Gapped (trim x i) := by
    unfold trim
    split_ifs with hx
    · exact Gapped.nil
    · exact Gapped.cons_iff.mpr ⟨lt_of_le_of_ne hhi hx, Gapped.nil, fun _ hj => absurd hj List.not_mem_nil⟩
  have hcover : cover (trim x i) = Set.Ico x i.2 := by
    unfold trim
    split_ifs with hx
    · rw [hx, cover_nil, Set.Ico_self]
    · rw [cover_cons, cover_nil, Set.union_empty]
  refine ⟨?_, ?_⟩
  · refine Gapped.append_iff.mpr ⟨hl, Gapped.append_iff.mpr ⟨hgapped, hm, ?_⟩, ?_⟩
    · intro j hj k hk
      rw [(htrim j hj).1]
      exact him k hk
    · intro j hj k hk
      rcases List.mem_append.mp hk with hk | hk
      · rw [(htrim k hk).1]
        exact (hbefore j hj).trans_le hlo
      · exact hli j hj k (List.mem_cons_of_mem _ hk)
  · ext y
    simp only [cover_append, cover_cons, hcover, Set.mem_union, Set.mem_sdiff, Set.mem_Ico, not_and, not_lt]
    constructor
    · rintro (hy | hy | hy)
      · obtain ⟨j, hj, hjy, hyj⟩ := hy
        exact ⟨.inl ⟨j, hj, hjy, hyj⟩, fun hiy => absurd (hyj.trans (hbefore j hj)) (not_lt.mpr hiy)⟩
      · exact ⟨.inr (.inl ⟨hlo.trans hy.1, hy.2⟩), fun _ => hy.1⟩
      · obtain ⟨j, hj, hjy, hyj⟩ := hy
        exact ⟨.inr (.inr ⟨j, hj, hjy, hyj⟩), fun _ => (hhi.trans (him j hj).le).trans hjy⟩
    · rintro ⟨hy | hy | hy, hxy⟩
      · exact .inl hy
      · exact .inr (.inl ⟨hxy hy.1, hy.2⟩)
      · exact .inr (.inr hy)

theorem cover_join (i : α × α) (l : List (α × α)) (hi : i.1 ≤ i.2) (hl : ∀ j ∈ l, j.1 ≤ j.2) :
    cover (join i l) = Set.Ico i.1 i.2 ∪ cover l := by
  cases l with
  | nil => exact cover_cons i []
  | cons j l =>
    rw [join]
    split_ifs with htouch
    · rw [cover_cons, cover_cons, ← Set.union_assoc]
      have hj : i.2 ≤ j.2 := htouch ▸ hl j List.mem_cons_self
      rw [← htouch, Set.Ico_union_Ico_eq_Ico hi hj]
    · rw [cover_cons]

theorem gapped_join (h : Gapped l) (hi : i.1 < i.2) (hil : ∀ j ∈ l, i.2 ≤ j.1) : Gapped (join i l) := by
  cases l with
  | nil => exact Gapped.cons_iff.mpr ⟨hi, Gapped.nil, fun _ hj => absurd hj List.not_mem_nil⟩
  | cons j l =>
    obtain ⟨hj, hl, hjl⟩ := Gapped.cons_iff.mp h
    have hij := hil j List.mem_cons_self
    rw [join]
    split_ifs with htouch
    · exact Gapped.cons_iff.mpr ⟨hi.trans_le (hij.trans hj.le), hl, hjl⟩
    · refine Gapped.cons_iff.mpr ⟨hi, h, fun k hk => ?_⟩
      rcases List.mem_cons.mp hk with rfl | hk
      · exact lt_of_le_of_ne hij htouch
      · exact (hij.trans_lt hj).trans (hjl k hk)

/-- The intervals of the result have the ends they had. -/
theorem mem_join {k : α × α} (hk : k ∈ join i l) :
    (k.1 = i.1 ∧ (k.2 = i.2 ∨ ∃ j ∈ l, k.2 = j.2)) ∨ k ∈ l := by
  cases l with
  | nil =>
    rw [List.mem_singleton.mp hk]
    exact .inl ⟨rfl, .inl rfl⟩
  | cons j l =>
    rw [join] at hk
    split_ifs at hk
    · rcases List.mem_cons.mp hk with rfl | hk
      · exact .inl ⟨rfl, .inr ⟨j, List.mem_cons_self, rfl⟩⟩
      · exact .inr (List.mem_cons_of_mem _ hk)
    · rcases List.mem_cons.mp hk with rfl | hk
      · exact .inl ⟨rfl, .inl rfl⟩
      · exact .inr hk

/-- Intervals that share no point are one before the other. -/
theorem before_of_disjoint {i j : α × α} (hi : i.1 < i.2) (hj : j.1 < j.2)
    (h : Disjoint (Set.Ico i.1 i.2) (Set.Ico j.1 j.2)) : i.2 ≤ j.1 ∨ j.2 ≤ i.1 := by
  by_contra hno
  push Not at hno
  have hi' : max i.1 j.1 ∈ Set.Ico i.1 i.2 := ⟨le_max_left _ _, max_lt hi hno.1⟩
  have hj' : max i.1 j.1 ∈ Set.Ico j.1 j.2 := ⟨le_max_right _ _, max_lt hno.2 hj⟩
  exact Set.disjoint_left.mp h hi' hj'

/-- Intervals of numbers are not more than the numbers they are taken from. -/
theorem Gapped.length_le {l : List (ℕ × ℕ)} : ∀ {a b : ℕ}, Gapped l → (∀ i ∈ l, a ≤ i.1 ∧ i.2 ≤ b) → l.length ≤ b - a := by
  induction l with
  | nil => exact fun _ _ => Nat.zero_le _
  | cons i l ih =>
    intro a b h hin
    obtain ⟨hi, hl, hbehind⟩ := Gapped.cons_iff.mp h
    have h1 := hin i List.mem_cons_self
    have h2 := ih hl fun j hj => ⟨(hbehind j hj).le, (hin j (List.mem_cons_of_mem _ hj)).2⟩
    rw [List.length_cons]
    omega

end Blitzd.Lib.Intervals
