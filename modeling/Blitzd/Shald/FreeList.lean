import Blitzd.Lib.Intervals
import Blitzd.Shald.MemCache

/-! # The free list in memory

`Links s c F`: from what points behind `c` (`_first_free` for 0) the free chunks are those of `F`, each written as the
interval of its addresses. A chunk starts at a multiple of 16, so the two words of one header are apart from those of any
other and every write changes one link or one size (`linkOf_setLink`, `chunkSize_setSize`).

`alloc_links` says what `Alloc` does to the list: it trims the first interval that is large enough. No byte outside of the
free chunks changes. -/

namespace Blitzd.Shald.MemCache

open Blitzd.Lib.Bytes Blitzd.Lib.Memory Blitzd.Lib.Intervals

variable {s s' : MemCache} {c d e v : ℕ}

/-! ### Headers -/

/-- What points to the chunk behind `c`. -/
def linkOf (s : MemCache) (c : ℕ) : ℕ := if c = 0 then s.firstFree else s.chunkNext c

theorem linkOf_of_ne (hc : c ≠ 0) : s.linkOf c = s.chunkNext c := if_neg hc

theorem setNext_eq (hc : c ≠ 0) : s.setNext c v = s.setLink c v := (if_neg hc).symm

theorem setUsed_eq (hc : c ≠ 0) : s.setUsed c v = s.setLink c v := (if_neg hc).symm

theorem linkOf_setLink (hd : 16 ∣ d) (he : 16 ∣ e) (hv : v < 2 ^ 64) :
    (s.setLink d v).linkOf e = if e = d then v else s.linkOf e := by
  unfold setLink
  by_cases hd0 : d = 0
  · rw [if_pos hd0, hd0]
    by_cases he0 : e = 0
    · rw [if_pos he0, linkOf, if_pos he0]
    · rw [if_neg he0, linkOf_of_ne he0, linkOf_of_ne he0]
      rfl
  · rw [if_neg hd0]
    by_cases he0 : e = 0
    · rw [if_neg (by omega), linkOf, linkOf, if_pos he0, if_pos he0]
      rfl
    · rw [linkOf_of_ne he0, linkOf_of_ne he0, setNext, chunkNext]
      split_ifs with hed
      · rw [hed, load_store_self]
        exact Nat.mod_eq_of_lt hv
      · exact load_store_of_disjoint (by omega)

theorem chunkSize_setLink (hd : 16 ∣ d) (he : 16 ∣ e) : (s.setLink d v).chunkSize e = s.chunkSize e := by
  unfold setLink
  split_ifs
  · rfl
  · exact load_store_of_disjoint (by omega)

theorem linkOf_setSize (hd : 16 ∣ d) (he : 16 ∣ e) : (s.setSize d v).linkOf e = s.linkOf e := by
  unfold linkOf
  split_ifs
  · rfl
  · exact load_store_of_disjoint (by omega)

theorem chunkSize_setSize (hd : 16 ∣ d) (he : 16 ∣ e) (hv : v < 2 ^ 64) :
    (s.setSize d v).chunkSize e = if e = d then v else s.chunkSize e := by
  unfold chunkSize setSize
  split_ifs with hed
  · rw [hed, load_store_self]
    exact Nat.mod_eq_of_lt hv
  · exact load_store_of_disjoint (by omega)

/-- The header of a free chunk is written. -/
def setHeader (s : MemCache) (c next size : ℕ) : MemCache := (s.setLink c next).setSize c size

theorem linkOf_setHeader {w : ℕ} (hd : 16 ∣ d) (he : 16 ∣ e) (hv : v < 2 ^ 64) :
    (s.setHeader d v w).linkOf e = if e = d then v else s.linkOf e := by
  rw [setHeader, linkOf_setSize hd he, linkOf_setLink hd he hv]

theorem chunkSize_setHeader {w : ℕ} (hd : 16 ∣ d) (he : 16 ∣ e) (hw : w < 2 ^ 64) :
    (s.setHeader d v w).chunkSize e = if e = d then w else s.chunkSize e := by
  rw [setHeader, chunkSize_setSize hd he hw, chunkSize_setLink hd he]

theorem chunkSize_lt (s : MemCache) (c : ℕ) : s.chunkSize c < 2 ^ 64 := load_lt 8 s.mem (c + 8)

theorem chunkNext_lt (s : MemCache) (c : ℕ) : s.chunkNext c < 2 ^ 64 := load_lt 8 s.mem c

/-- The pool is where it was, and only bytes of `S` changed. -/
structure Writes (S : Set ℕ) (s s' : MemCache) : Prop where
  memBase : s'.memBase = s.memBase
  size : s'.size = s.size
  mem : ∀ x, x ∉ S → s'.mem x = s.mem x

namespace Writes

variable {S T : Set ℕ} {s'' : MemCache}

theorem trans (h : Writes S s s') (h' : Writes S s' s'') : Writes S s s'' :=
  ⟨h'.memBase.trans h.memBase, h'.size.trans h.size, fun x hx => (h'.mem x hx).trans (h.mem x hx)⟩

theorem mono (h : Writes S s s') (hST : S ⊆ T) : Writes T s s' :=
  ⟨h.memBase, h.size, fun x hx => h.mem x fun h => hx (hST h)⟩

theorem setLink (hS : c ≠ 0 → Set.Ico c (c + 8) ⊆ S) : Writes S s (s.setLink c v) := by
  unfold MemCache.setLink
  split_ifs with hc
  · exact ⟨rfl, rfl, fun _ _ => rfl⟩
  · refine ⟨rfl, rfl, fun x hx => store_outside ?_⟩
    have hx' : x ∉ Set.Ico c (c + 8) := fun h => hx (hS hc h)
    rw [Set.mem_Ico] at hx'
    omega

theorem setHeader {w : ℕ} (hS : Set.Ico c (c + 16) ⊆ S) : Writes S s (s.setHeader c v w) := by
  have hlink : Writes S s (s.setLink c v) := .setLink fun _ => (Set.Ico_subset_Ico_right (by omega)).trans hS
  refine hlink.trans ⟨rfl, rfl, fun x hx => store_outside ?_⟩
  have hx' : x ∉ Set.Ico c (c + 16) := fun h => hx (hS h)
  rw [Set.mem_Ico] at hx'
  omega

end Writes

/-! ### Linked chunks -/

/-- The last chunk that was passed. -/
def last : ℕ → List (ℕ × ℕ) → ℕ
  | c, [] => c
  | _, i :: F => last i.1 F

/-- The chunks of `F` are linked from `c` on. -/
def Seg (s : MemCache) : ℕ → List (ℕ × ℕ) → Prop
  | _, [] => True
  | c, i :: F => s.linkOf c = i.1 ∧ i.1 ≠ 0 ∧ i.1 + s.chunkSize i.1 = i.2 ∧ s.Seg i.1 F

/-- The chunks of `F` are linked from `c` on, and nothing behind them. -/
def Links (s : MemCache) : ℕ → List (ℕ × ℕ) → Prop
  | c, [] => s.linkOf c = 0
  | c, i :: F => s.linkOf c = i.1 ∧ i.1 ≠ 0 ∧ i.1 + s.chunkSize i.1 = i.2 ∧ s.Links i.1 F

theorem links_append {G F : List (ℕ × ℕ)} : ∀ {c : ℕ}, s.Links c (G ++ F) ↔ s.Seg c G ∧ s.Links (last c G) F := by
  induction G with
  | nil =>
    intro c
    exact ⟨fun h => ⟨trivial, h⟩, fun h => h.2⟩
  | cons i G ih =>
    intro c
    show (s.linkOf c = i.1 ∧ i.1 ≠ 0 ∧ i.1 + s.chunkSize i.1 = i.2 ∧ s.Links i.1 (G ++ F)) ↔
      (s.linkOf c = i.1 ∧ i.1 ≠ 0 ∧ i.1 + s.chunkSize i.1 = i.2 ∧ s.Seg i.1 G) ∧ s.Links (last i.1 G) F
    rw [ih]
    simp only [and_assoc]

theorem last_append {G F : List (ℕ × ℕ)} : ∀ {c : ℕ}, last c (G ++ F) = last (last c G) F := by
  induction G with
  | nil => exact rfl
  | cons i G ih =>
    intro c
    exact ih

theorem last_mem {F : List (ℕ × ℕ)} : ∀ {c : ℕ}, last c F = c ∨ ∃ i ∈ F, last c F = i.1 := by
  induction F with
  | nil => exact .inl rfl
  | cons i F ih =>
    intro c
    rcases ih (c := i.1) with h | ⟨j, hj, h⟩
    · exact .inr ⟨i, List.mem_cons_self, h⟩
    · exact .inr ⟨j, List.mem_cons_of_mem _ hj, h⟩

/-- A list is moved to another place that points to it. -/
theorem Links.move {F : List (ℕ × ℕ)} : ∀ {c c' : ℕ}, s.Links c F → s'.linkOf c' = s.linkOf c →
    (∀ i ∈ F, s'.linkOf i.1 = s.linkOf i.1 ∧ s'.chunkSize i.1 = s.chunkSize i.1) → s'.Links c' F := by
  induction F with
  | nil =>
    intro c c' h hc _
    exact hc.trans h
  | cons i F ih =>
    rintro c c' ⟨hlink, hne, hsize, hrest⟩ hc hsame
    obtain ⟨h1, h2⟩ := hsame i List.mem_cons_self
    refine ⟨hc.trans hlink, hne, ?_, ih hrest h1 fun j hj => hsame j (List.mem_cons_of_mem _ hj)⟩
    rw [h2]
    exact hsize

/-- The link behind the last chunk of a segment is not part of it. -/
theorem Seg.edit {G : List (ℕ × ℕ)} : ∀ {c : ℕ}, s.Seg c G → (∀ i ∈ G, c < i.1) → (G.Pairwise fun i j => i.1 < j.1) →
    (∀ i ∈ G, s'.chunkSize i.1 = s.chunkSize i.1) →
    (∀ e, e = c ∨ (∃ i ∈ G, e = i.1) → e ≠ last c G → s'.linkOf e = s.linkOf e) → s'.Seg c G := by
  induction G with
  | nil => exact fun _ _ _ _ _ => trivial
  | cons i G ih =>
    rintro c ⟨hlink, hne, hsize, hrest⟩ habove hinc hsizes hlinks
    obtain ⟨hi, hG⟩ := List.pairwise_cons.mp hinc
    have hci := habove i List.mem_cons_self
    refine ⟨?_, hne, ?_, ih hrest hi hG (fun j hj => hsizes j (List.mem_cons_of_mem _ hj)) fun e he hlast => ?_⟩
    · rw [hlinks c (.inl rfl), hlink]
      -- the last one is `i` or behind it
      show c ≠ last i.1 G
      rcases last_mem (c := i.1) (F := G) with h | ⟨j, hj, h⟩
      · omega
      · have := hi j hj
        omega
    · rw [hsizes i List.mem_cons_self]
      exact hsize
    · refine hlinks e ?_ hlast
      rcases he with rfl | ⟨j, hj, rfl⟩
      · exact .inr ⟨i, List.mem_cons_self, rfl⟩
      · exact .inr ⟨j, List.mem_cons_of_mem _ hj, rfl⟩

theorem Links.walk_eq {F : List (ℕ × ℕ)} : ∀ {c fuel : ℕ}, s.Links c F → F.length < fuel →
    s.walk fuel (s.linkOf c) = some (F.map fun i => (i.1, i.2 - i.1)) := by
  induction F with
  | nil =>
    intro c fuel h hfuel
    obtain ⟨n, rfl⟩ : ∃ n, fuel = n + 1 := ⟨fuel - 1, by omega⟩
    have h' : s.linkOf c = 0 := h
    rw [walk, if_pos h']
    rfl
  | cons i F ih =>
    rintro c fuel ⟨hlink, hne, hsize, hrest⟩ hfuel
    obtain ⟨n, rfl⟩ : ∃ n, fuel = n + 1 := ⟨fuel - 1, by omega⟩
    have hlen : F.length < n := by
      rw [List.length_cons] at hfuel
      omega
    rw [walk, hlink, if_neg hne, ← linkOf_of_ne hne, ih hrest hlen]
    show some ((i.1, s.chunkSize i.1) :: F.map fun i => (i.1, i.2 - i.1)) = some ((i.1, i.2 - i.1) :: F.map _)
    rw [← hsize, Nat.add_sub_cancel_left]

/-- `F` is the free list, as the two calls need it. -/
structure Listed (s : MemCache) (F : List (ℕ × ℕ)) : Prop where
  links : s.Links 0 F
  gapped : Gapped F
  aligned : ∀ i ∈ F, 16 ∣ i.1 ∧ 16 ∣ i.2
  small : ∀ i ∈ F, i.2 < 2 ^ 64

theorem Links.ne_zero {F : List (ℕ × ℕ)} : ∀ {c : ℕ}, s.Links c F → ∀ i ∈ F, i.1 ≠ 0 := by
  induction F with
  | nil => exact fun _ i hi => absurd hi List.not_mem_nil
  | cons j F ih =>
    rintro c ⟨-, hne, -, hrest⟩ i hi
    rcases List.mem_cons.mp hi with rfl | hi
    · exact hne
    · exact ih hrest i hi

/-- The list is in the bytes of the free chunks. -/
theorem Listed.frame {F : List (ℕ × ℕ)} (h : s.Listed F) (hfirst : s'.firstFree = s.firstFree)
    (hmem : ∀ x ∈ cover F, s'.mem x = s.mem x) : s'.Listed F := by
  refine ⟨h.links.move ?_ fun i hi => ?_, h.gapped, h.aligned, h.small⟩
  · rw [linkOf, linkOf, if_pos rfl, if_pos rfl, hfirst]
  · have hne := h.links.ne_zero i hi
    have h1 := h.gapped.nonempty i hi
    have h2 := h.aligned i hi
    have hheader : ∀ x, i.1 ≤ x → x < i.1 + 16 → s'.mem x = s.mem x := fun x hx hx' => hmem x ⟨i, hi, hx, by omega⟩
    rw [linkOf_of_ne hne, linkOf_of_ne hne, chunkNext, chunkNext, chunkSize, chunkSize]
    exact ⟨load_congr fun x hx hx' => hheader x hx (by omega), load_congr fun x hx hx' => hheader x (by omega) (by omega)⟩

/-! ### `Alloc` -/

/-- The loop stops at the first chunk that is large enough. -/
theorem allocLoop_eq {m : ℕ} {F : List (ℕ × ℕ)} : ∀ {fuel c : ℕ}, s.Links c F → F.length < fuel →
    (s.allocLoop m fuel c (s.linkOf c) = some (0, s) ∧ ∀ i ∈ F, i.2 < i.1 + m) ∨
      ∃ F₁ i F₂, F = F₁ ++ i :: F₂ ∧ i.1 + m ≤ i.2 ∧ (∀ j ∈ F₁, j.2 < j.1 + m) ∧
        s.allocLoop m fuel c (s.linkOf c) = some (add i.1 8, s.carve m (last c F₁) i.1) := by
  induction F with
  | nil =>
    intro fuel c h hfuel
    obtain ⟨n, rfl⟩ : ∃ n, fuel = n + 1 := ⟨fuel - 1, by omega⟩
    have h' : s.linkOf c = 0 := h
    refine .inl ⟨?_, fun i hi => absurd hi List.not_mem_nil⟩
    rw [allocLoop, if_pos h']
  | cons i F ih =>
    rintro fuel c ⟨hlink, hne, hsize, hrest⟩ hfuel
    obtain ⟨n, rfl⟩ : ∃ n, fuel = n + 1 := ⟨fuel - 1, by omega⟩
    have hlen : F.length < n := by
      rw [List.length_cons] at hfuel
      omega
    rw [allocLoop, hlink, if_neg hne]
    by_cases hm : m ≤ s.chunkSize i.1
    · exact .inr ⟨[], i, F, rfl, by omega, fun j hj => absurd hj List.not_mem_nil, if_pos hm⟩
    · rw [if_neg hm, ← linkOf_of_ne hne]
      rcases ih hrest hlen with ⟨heq, hno⟩ | ⟨F₁, j, F₂, rfl, hj, hno, heq⟩
      · refine .inl ⟨heq, fun j hj => ?_⟩
        rcases List.mem_cons.mp hj with rfl | hj
        · omega
        · exact hno j hj
      · refine .inr ⟨i :: F₁, j, F₂, rfl, hj, fun k hk => ?_, heq⟩
        rcases List.mem_cons.mp hk with rfl | hk
        · omega
        · exact hno k hk

/-- Chunks before and behind one of the list. -/
theorem Listed.around {F₁ F₂ : List (ℕ × ℕ)} {i : ℕ × ℕ} (h : s.Listed (F₁ ++ i :: F₂)) :
    (∀ j ∈ F₁, 0 < j.1 ∧ j.1 + 16 ≤ j.2 ∧ j.2 < i.1 ∧ 16 ∣ j.1) ∧ (∀ j ∈ F₂, i.2 < j.1 ∧ 16 ∣ j.1) ∧
      0 < i.1 ∧ i.1 + 16 ≤ i.2 ∧ 16 ∣ i.1 ∧ 16 ∣ i.2 ∧ i.2 < 2 ^ 64 := by
  obtain ⟨hg₁, hg, hbefore⟩ := Gapped.append_iff.mp h.gapped
  obtain ⟨hi, -, hbehind⟩ := Gapped.cons_iff.mp hg
  have hmem : i ∈ F₁ ++ i :: F₂ := List.mem_append_right _ List.mem_cons_self
  refine ⟨fun j hj => ?_, fun j hj => ?_, ?_⟩
  · have hj' : j ∈ F₁ ++ i :: F₂ := List.mem_append_left _ hj
    have h1 := hg₁.nonempty j hj
    have h2 := h.aligned j hj'
    have h3 := h.links.ne_zero j hj'
    exact ⟨by omega, by omega, hbefore j hj i List.mem_cons_self, h2.1⟩
  · have hj' : j ∈ F₁ ++ i :: F₂ := List.mem_append_right _ (List.mem_cons_of_mem _ hj)
    exact ⟨hbehind j hj, (h.aligned j hj').1⟩
  · have h2 := h.aligned i hmem
    have h3 := h.links.ne_zero i hmem
    exact ⟨by omega, by omega, h2.1, h2.2, h.small i hmem⟩

/-- What follows the first part of the list is replaced. -/
theorem Links.splice {F₁ G G' : List (ℕ × ℕ)} (h : s.Links 0 (F₁ ++ G)) (hg : Gapped F₁)
    (hsizes : ∀ i ∈ F₁, s'.chunkSize i.1 = s.chunkSize i.1)
    (hlinks : ∀ e, e = 0 ∨ (∃ i ∈ F₁, e = i.1) → e ≠ last 0 F₁ → s'.linkOf e = s.linkOf e)
    (hrest : s'.Links (last 0 F₁) G') : s'.Links 0 (F₁ ++ G') := by
  have hpos : ∀ i ∈ F₁, 0 < i.1 := fun i hi => Nat.pos_of_ne_zero (h.ne_zero i (List.mem_append_left _ hi))
  exact links_append.mpr ⟨(links_append.mp h).1.edit hpos hg.increasing hsizes hlinks, hrest⟩

/-- The last chunk passed, or the start of the list. -/
theorem last_cases {F₁ : List (ℕ × ℕ)} (P : ℕ → Prop) (h0 : P 0) (hF : ∀ j ∈ F₁, P j.1) : P (last 0 F₁) := by
  rcases last_mem (c := 0) (F := F₁) with h | ⟨j, hj, h⟩
  · rw [h]
    exact h0
  · rw [h]
    exact hF j hj

section

variable {F₁ F₂ : List (ℕ × ℕ)} {i : ℕ × ℕ} {m : ℕ}

/-- What points to a chunk of the list. -/
theorem Listed.last_before (h : s.Listed (F₁ ++ i :: F₂)) : 16 ∣ last 0 F₁ ∧ last 0 F₁ < i.1 ∧
    (last 0 F₁ ≠ 0 → Set.Ico (last 0 F₁) (last 0 F₁ + 8) ⊆ cover (F₁ ++ i :: F₂)) := by
  obtain ⟨hbefore, -, hi0, -⟩ := h.around
  refine last_cases (fun p => 16 ∣ p ∧ p < i.1 ∧ (p ≠ 0 → Set.Ico p (p + 8) ⊆ cover (F₁ ++ i :: F₂)))
    ⟨dvd_zero 16, hi0, fun h0 => absurd rfl h0⟩ fun j hj => ?_
  obtain ⟨-, hlen, hji, hj16⟩ := hbefore j hj
  refine ⟨hj16, by omega, fun _ x hx => ?_⟩
  rw [Set.mem_Ico] at hx
  exact ⟨j, List.mem_append_left _ hj, by omega, by omega⟩

theorem Ico_subset_cover {a b : ℕ} (ha : i.1 ≤ a) (hb : b ≤ i.2) : Set.Ico a b ⊆ cover (F₁ ++ i :: F₂) :=
  fun _ hx => ⟨i, List.mem_append_right _ List.mem_cons_self, ha.trans hx.1, lt_of_lt_of_le hx.2 hb⟩

/-- Outside of the chunk, at most the link to it is another one. -/
def Around (s s' : MemCache) (F₁ : List (ℕ × ℕ)) (i : ℕ × ℕ) : Prop :=
  ∀ e, 16 ∣ e → e < i.1 ∨ i.2 < e → (e ≠ last 0 F₁ → s'.linkOf e = s.linkOf e) ∧ s'.chunkSize e = s.chunkSize e

/-- Another list is put in the place of the chunk and those behind it. -/
theorem Around.replace {G : List (ℕ × ℕ)} (h : s.Listed (F₁ ++ i :: F₂)) (haround : Around s s' F₁ i)
    (hG : s'.Links (last 0 F₁) G) : s'.Links 0 (F₁ ++ G) := by
  obtain ⟨hbefore, -, hi0, -⟩ := h.around
  obtain ⟨hg₁, -, -⟩ := Gapped.append_iff.mp h.gapped
  refine h.links.splice hg₁ (fun j hj => ?_) ?_ hG
  · have := hbefore j hj
    exact (haround j.1 this.2.2.2 (by omega)).2
  · rintro e (rfl | ⟨j, hj, rfl⟩) hlast
    · exact (haround 0 (dvd_zero 16) (.inl hi0)).1 hlast
    · have := hbefore j hj
      exact (haround j.1 this.2.2.2 (by omega)).1 hlast

/-- The chunks behind it stay linked. -/
theorem Around.behind {y : ℕ} (h : s.Listed (F₁ ++ i :: F₂)) (haround : Around s s' F₁ i)
    (hy : s'.linkOf y = s.chunkNext i.1) : s'.Links y F₂ := by
  obtain ⟨-, hbehind, hi0, hi16, -⟩ := h.around
  obtain ⟨-, hplt, -⟩ := h.last_before
  obtain ⟨-, -, hne, -, hrest⟩ := links_append.mp h.links
  refine hrest.move ?_ fun j hj => ?_
  · rw [hy, linkOf_of_ne hne]
  · obtain ⟨hij, hj⟩ := hbehind j hj
    obtain ⟨hlink, hsize⟩ := haround j.1 hj (.inr hij)
    exact ⟨hlink (by omega), hsize⟩

/-- The chunk is taken as a whole. -/
theorem carve_whole (h : s.Listed (F₁ ++ i :: F₂)) (hm : i.1 + m = i.2) :
    (s.carve m (last 0 F₁) i.1).Links 0 (F₁ ++ F₂) ∧ (s.carve m (last 0 F₁) i.1).chunkUsed i.1 = m ∧
      Writes (cover (F₁ ++ i :: F₂)) s (s.carve m (last 0 F₁) i.1) := by
  obtain ⟨-, -, hi0, hi16, hi, hi', hsmall⟩ := h.around
  obtain ⟨hp16, hplt, hpin⟩ := h.last_before
  obtain ⟨-, -, hne, hsize, -⟩ := links_append.mp h.links
  have hs : s.carve m (last 0 F₁) i.1 = (s.setLink (last 0 F₁) (s.chunkNext i.1)).setLink i.1 m := by
    rw [carve, if_pos (by omega), setUsed_eq hne]
  have hlinks : ∀ {e}, 16 ∣ e → (s.carve m (last 0 F₁) i.1).linkOf e =
      if e = i.1 then m else if e = last 0 F₁ then s.chunkNext i.1 else s.linkOf e := by
    intro e he
    rw [hs, linkOf_setLink hi he (by omega), linkOf_setLink hp16 he (s.chunkNext_lt i.1)]
  have haround : Around s (s.carve m (last 0 F₁) i.1) F₁ i := by
    intro e he hout
    refine ⟨fun hlast => ?_, ?_⟩
    · rw [hlinks he, if_neg (by omega), if_neg hlast]
    · rw [hs, chunkSize_setLink hi he, chunkSize_setLink hp16 he]
  refine ⟨haround.replace h (haround.behind h ?_), ?_, ?_⟩
  · rw [hlinks hp16, if_neg (by omega), if_pos rfl]
  · have := hlinks hi
    rw [if_pos rfl, linkOf_of_ne hne] at this
    exact this
  · rw [hs]
    exact (Writes.setLink hpin).trans (Writes.setLink fun _ => Ico_subset_cover le_rfl (by omega))

/-- The rest of the chunk stays free. -/
theorem carve_front (h : s.Listed (F₁ ++ i :: F₂)) (hm16 : 16 ∣ m) (hpos : 0 < m) (hm : i.1 + m < i.2) :
    (s.carve m (last 0 F₁) i.1).Links 0 (F₁ ++ (i.1 + m, i.2) :: F₂) ∧
      (s.carve m (last 0 F₁) i.1).chunkUsed i.1 = m ∧
      Writes (cover (F₁ ++ i :: F₂)) s (s.carve m (last 0 F₁) i.1) := by
  obtain ⟨-, -, hi0, hi16, hi, hi', hsmall⟩ := h.around
  obtain ⟨hp16, hplt, hpin⟩ := h.last_before
  obtain ⟨-, -, hne, hsize, -⟩ := links_append.mp h.links
  have hb16 : 16 ∣ i.1 + m := (Nat.dvd_add_right hi).mpr hm16
  have hadd : add i.1 m = i.1 + m := add_eq (by omega)
  have hsub : sub (s.chunkSize i.1) m = s.chunkSize i.1 - m := sub_eq (s.chunkSize_lt i.1) (by omega)
  have hs : s.carve m (last 0 F₁) i.1 = ((s.setLink (last 0 F₁) (i.1 + m)).setHeader (i.1 + m) (s.chunkNext i.1)
      (s.chunkSize i.1 - m)).setLink i.1 m := by
    rw [carve, if_neg (by omega), hadd, hsub, setUsed_eq hne, setNext_eq (by omega), setHeader]
  have hlinks : ∀ {e}, 16 ∣ e → (s.carve m (last 0 F₁) i.1).linkOf e = if e = i.1 then m
      else if e = i.1 + m then s.chunkNext i.1 else if e = last 0 F₁ then i.1 + m else s.linkOf e := by
    intro e he
    rw [hs, linkOf_setLink hi he (by omega), linkOf_setHeader hb16 he (s.chunkNext_lt i.1),
      linkOf_setLink hp16 he (by omega)]
  have hsizes : ∀ {e}, 16 ∣ e → (s.carve m (last 0 F₁) i.1).chunkSize e =
      if e = i.1 + m then s.chunkSize i.1 - m else s.chunkSize e := by
    intro e he
    rw [hs, chunkSize_setLink hi he, chunkSize_setHeader hb16 he (by omega), chunkSize_setLink hp16 he]
  have haround : Around s (s.carve m (last 0 F₁) i.1) F₁ i := by
    intro e he hout
    refine ⟨fun hlast => ?_, ?_⟩
    · rw [hlinks he, if_neg (by omega), if_neg (by omega), if_neg hlast]
    · rw [hsizes he, if_neg (by omega)]
  refine ⟨haround.replace h ⟨?_, ?_, ?_, haround.behind h ?_⟩, ?_, ?_⟩
  · rw [hlinks hp16, if_neg (by omega), if_neg (by omega), if_pos rfl]
  · show i.1 + m ≠ 0
    omega
  · show i.1 + m + (s.carve m (last 0 F₁) i.1).chunkSize (i.1 + m) = i.2
    rw [hsizes hb16, if_pos rfl]
    omega
  · show (s.carve m (last 0 F₁) i.1).linkOf (i.1 + m) = _
    rw [hlinks hb16, if_neg (by omega), if_pos rfl]
  · have := hlinks hi
    rw [if_pos rfl, linkOf_of_ne hne] at this
    exact this
  · rw [hs]
    exact ((Writes.setLink hpin).trans (Writes.setHeader (Ico_subset_cover (by omega) (by omega)))).trans
      (Writes.setLink fun _ => Ico_subset_cover le_rfl (by omega))

/-- **The chunk is taken from the list**, and its size is recorded in it. -/
theorem carve_links (h : s.Listed (F₁ ++ i :: F₂)) (hm : 16 ∣ m) (hpos : 0 < m) (hfits : i.1 + m ≤ i.2) :
    (s.carve m (last 0 F₁) i.1).Links 0 (F₁ ++ (trim (i.1 + m) i ++ F₂)) ∧
      (s.carve m (last 0 F₁) i.1).chunkUsed i.1 = m ∧
      Writes (cover (F₁ ++ i :: F₂)) s (s.carve m (last 0 F₁) i.1) := by
  unfold trim
  split_ifs with hwhole
  · exact carve_whole h hwhole
  · exact carve_front h hm hpos (lt_of_le_of_ne hfits hwhole)

end

/-- What `Alloc` asks the list for. -/
def need (n : ℕ) : ℕ := (n + 23) / 16 * 16

/-- **`Alloc`**: no chunk is large enough, or the first that is loses its front. -/
theorem alloc_links {F : List (ℕ × ℕ)} (h : s.Listed F) (hfuel : F.length ≤ s.size) {n : ℕ} (hn : 0 < n)
    (hwrap : n + 23 < 2 ^ 64) :
    (s.alloc n = some (0, s) ∧ ∀ i ∈ F, i.2 < i.1 + need n) ∨
      ∃ F₁ i F₂ s', F = F₁ ++ i :: F₂ ∧ i.1 + need n ≤ i.2 ∧ (∀ j ∈ F₁, j.2 < j.1 + need n) ∧
        s.alloc n = some (i.1 + 8, s') ∧
        s'.Listed (F₁ ++ (trim (i.1 + need n) i ++ F₂)) ∧ s'.chunkUsed i.1 = need n ∧ Writes (cover F) s s' := by
  have hneed : countAligned (add n 8) = need n := by
    rw [add_eq (by omega), countAligned_eq (by omega), need]
  have hcall : s.alloc n = s.allocLoop (need n) (s.size + 1) 0 (s.linkOf 0) := by
    rw [alloc, if_neg (by omega), hneed]
    rfl
  rw [hcall]
  rcases allocLoop_eq h.links (Nat.lt_succ_of_le hfuel) with hnone | ⟨F₁, i, F₂, rfl, hfits, hfirst, heq⟩
  · exact .inl hnone
  · obtain ⟨hbefore, hbehind, hi0, hi16, hi, hi', hsmall⟩ := h.around
    have hneed16 : 16 ∣ need n := Nat.dvd_mul_left _ _
    obtain ⟨hlinks, hused, hwrites⟩ := carve_links h hneed16 (by unfold need; omega) hfits
    have hadd : add i.1 8 = i.1 + 8 := add_eq (by omega)
    rw [hadd] at heq
    have htrim : ∀ j ∈ trim (i.1 + need n) i, j = (i.1 + need n, i.2) := by
      intro j hj
      unfold trim at hj
      split_ifs at hj
      · exact absurd hj List.not_mem_nil
      · exact List.mem_singleton.mp hj
    have hmem : ∀ j ∈ F₁ ++ (trim (i.1 + need n) i ++ F₂), j = (i.1 + need n, i.2) ∨ j ∈ F₁ ++ i :: F₂ := by
      intro j hj
      rcases List.mem_append.mp hj with hj | hj
      · exact .inr (List.mem_append_left _ hj)
      · rcases List.mem_append.mp hj with hj | hj
        · exact .inl (htrim j hj)
        · exact .inr (List.mem_append_right _ (List.mem_cons_of_mem _ hj))
    refine .inr ⟨F₁, i, F₂, _, rfl, hfits, hfirst, heq, ⟨hlinks, ?_, fun j hj => ?_, fun j hj => ?_⟩, hused, hwrites⟩
    · exact (gapped_trim h.gapped (by omega) hfits).1
    · rcases hmem j hj with rfl | hj
      · exact ⟨(Nat.dvd_add_right hi).mpr hneed16, hi'⟩
      · exact h.aligned j hj
    · rcases hmem j hj with rfl | hj
      · exact hsmall
      · exact h.small j hj

end Blitzd.Shald.MemCache
