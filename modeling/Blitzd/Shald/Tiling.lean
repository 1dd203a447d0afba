import Mathlib.Data.List.Pairwise
import Blitzd.Shald.Coalesce

/-! # Chunks tile the pool

`Inv s live F`: the free chunks `F` are what the chunks of the blocks in use leave of the pool, and each of these has its
size in its header. `Init` makes it (`Inv.init`), both calls keep it and leave the bytes of the other blocks alone
(`Inv.alloc`, `Inv.free`), and so does what users write into their blocks (`Inv.write`).

A list with gaps is told by the points it covers, so the free list depends on the blocks in use only (`Inv.unique`). -/

namespace Blitzd.Shald

open Blitzd.Lib.Bytes Blitzd.Lib.Memory Blitzd.Lib.Intervals MemCache

/-! ### The invariant -/

/-- The addresses of the chunk of a block, given as its pointer and the bytes asked for. -/
def chunkOf (b : ℕ × ℕ) : ℕ × ℕ := (b.1 - 8, b.1 - 8 + need b.2)

theorem need_ge (n : ℕ) : 16 ≤ need n ∧ n + 8 ≤ need n ∧ 16 ∣ need n := by
  unfold need
  omega

/-- The chunks of the blocks and the free ones make up the pool. -/
structure Inv (s : MemCache) (live F : List (ℕ × ℕ)) : Prop where
  base : 0 < s.memBase ∧ 16 ∣ s.memBase
  top : 16 ∣ s.size ∧ s.memBase + s.size < 2 ^ 64
  listed : s.Listed F
  tile : cover F = Set.Ico s.memBase (s.memBase + s.size) \ cover (live.map chunkOf)
  inside : ∀ b ∈ live, s.memBase ≤ b.1 - 8 ∧ b.1 - 8 + need b.2 ≤ s.memBase + s.size
  aligned : ∀ b ∈ live, 16 ∣ b.1 - 8
  header : ∀ b ∈ live, s.chunkUsed (b.1 - 8) = need b.2
  apart : live.Pairwise fun a b => (chunkOf a).2 ≤ (chunkOf b).1 ∨ (chunkOf b).2 ≤ (chunkOf a).1

/-- The bytes of the blocks of `live` are the same. -/
def Untouched (live : List (ℕ × ℕ)) (s s' : MemCache) : Prop :=
  ∀ b ∈ live, ∀ x, b.1 - 8 ≤ x → x < b.1 - 8 + need b.2 → s'.mem x = s.mem x

namespace Inv

variable {s s' : MemCache} {live F : List (ℕ × ℕ)}

theorem mem_chunks {x : ℕ} : x ∈ cover (live.map chunkOf) ↔ ∃ b ∈ live, b.1 - 8 ≤ x ∧ x < b.1 - 8 + need b.2 := by
  constructor
  · rintro ⟨i, hi, hx⟩
    obtain ⟨b, hb, rfl⟩ := List.mem_map.mp hi
    exact ⟨b, hb, hx⟩
  · rintro ⟨b, hb, hx⟩
    exact ⟨chunkOf b, List.mem_map_of_mem hb, hx⟩

/-- Free chunks are inside of the pool. -/
theorem free_inside (h : Inv s live F) : ∀ i ∈ F, s.memBase ≤ i.1 ∧ i.2 ≤ s.memBase + s.size := by
  intro i hi
  have hne := h.listed.gapped.nonempty i hi
  have hlo : i.1 ∈ cover F := ⟨i, hi, le_rfl, hne⟩
  have hhi : i.2 - 1 ∈ cover F := ⟨i, hi, by omega, by omega⟩
  rw [h.tile] at hlo hhi
  have h1 := hlo.1
  have h2 := hhi.1
  rw [Set.mem_Ico] at h1 h2
  omega

/-- A free chunk and one in use are one before the other. -/
theorem free_apart (h : Inv s live F) : ∀ i ∈ F, ∀ b ∈ live, i.2 ≤ b.1 - 8 ∨ b.1 - 8 + need b.2 ≤ i.1 := by
  intro i hi b hb
  have hneed := need_ge b.2
  refine before_of_disjoint (h.listed.gapped.nonempty i hi) (j := chunkOf b) (Nat.lt_add_of_pos_right (by omega)) ?_
  rw [Set.disjoint_left]
  intro x hxi hxb
  have hx : x ∈ cover F := ⟨i, hi, hxi⟩
  rw [h.tile] at hx
  exact hx.2 ⟨chunkOf b, List.mem_map_of_mem hb, hxb⟩

/-- The list has no more chunks than the pool has bytes. -/
theorem length_le (h : Inv s live F) : F.length ≤ s.size := by
  have := h.listed.gapped.length_le h.free_inside
  omega

/-- Two blocks in use. -/
theorem apart_of_ne (h : Inv s live F) {a b : ℕ × ℕ} (ha : a ∈ live) (hb : b ∈ live) (hab : a ≠ b) :
    a.1 - 8 + need a.2 ≤ b.1 - 8 ∨ b.1 - 8 + need b.2 ≤ a.1 - 8 := by
  have : Std.Symm fun a b : ℕ × ℕ => (chunkOf a).2 ≤ (chunkOf b).1 ∨ (chunkOf b).2 ≤ (chunkOf a).1 := ⟨fun _ _ => Or.symm⟩
  exact h.apart.forall ha hb hab

/-- Blocks have different pointers. -/
theorem eq_of_ptr (h : Inv s live F) {a b : ℕ × ℕ} (ha : a ∈ live) (hb : b ∈ live) (hab : a.1 = b.1) : a = b := by
  by_contra hne
  have h1 := h.apart_of_ne ha hb hne
  have h2 := need_ge a.2
  have h3 := need_ge b.2
  omega

/-- A pointer is behind the header of its chunk. -/
theorem ptr_eq (h : Inv s live F) {b : ℕ × ℕ} (hb : b ∈ live) : b.1 - 8 + 8 = b.1 ∧ 0 < b.1 - 8 := by
  have h1 := h.inside b hb
  have h2 := h.base
  omega

/-- The free list is told by the blocks in use. -/
theorem unique {live' F' : List (ℕ × ℕ)} (h : Inv s live F) (h' : Inv s' live' F') (hbase : s'.memBase = s.memBase)
    (hsize : s'.size = s.size) (hlive : ∀ b, b ∈ live' ↔ b ∈ live) : F' = F := by
  refine Gapped.eq_of_cover h'.listed.gapped h.listed.gapped ?_
  rw [h'.tile, h.tile, hbase, hsize]
  congr 1
  ext x
  rw [mem_chunks, mem_chunks]
  simp only [hlive]

/-- The invariant after writes, from what there is to say about the new blocks and the new list. -/
theorem next {S : Set ℕ} {live' F' : List (ℕ × ℕ)} (h : Inv s live F) (hwrites : Writes S s s') (hlisted : s'.Listed F')
    (htile : cover F' = Set.Ico s.memBase (s.memBase + s.size) \ cover (live'.map chunkOf))
    (hlive : ∀ b ∈ live', (s.memBase ≤ b.1 - 8 ∧ b.1 - 8 + need b.2 ≤ s.memBase + s.size) ∧ 16 ∣ b.1 - 8 ∧
      s'.chunkUsed (b.1 - 8) = need b.2)
    (hapart : live'.Pairwise fun a b => (chunkOf a).2 ≤ (chunkOf b).1 ∨ (chunkOf b).2 ≤ (chunkOf a).1) :
    Inv s' live' F' := by
  refine ⟨?_, ?_, hlisted, ?_, fun b hb => ?_, fun b hb => (hlive b hb).2.1, fun b hb => (hlive b hb).2.2, hapart⟩
  · rw [hwrites.memBase]
    exact h.base
  · rw [hwrites.memBase, hwrites.size]
    exact h.top
  · rw [hwrites.memBase, hwrites.size]
    exact htile
  · rw [hwrites.memBase, hwrites.size]
    exact (hlive b hb).1

/-- What is true of a block whose bytes are the same. -/
theorem kept (h : Inv s live F) {b : ℕ × ℕ} (hb : b ∈ live)
    (hsame : ∀ x, b.1 - 8 ≤ x → x < b.1 - 8 + need b.2 → s'.mem x = s.mem x) :
    (s.memBase ≤ b.1 - 8 ∧ b.1 - 8 + need b.2 ≤ s.memBase + s.size) ∧ 16 ∣ b.1 - 8 ∧ s'.chunkUsed (b.1 - 8) = need b.2 := by
  refine ⟨h.inside b hb, h.aligned b hb, ?_⟩
  rw [← h.header b hb]
  have := need_ge b.2
  exact load_congr fun x h1 h2 => hsame x h1 (by omega)

/-- No byte of a block is in a free chunk. -/
theorem notMem_cover (h : Inv s live F) {b : ℕ × ℕ} (hb : b ∈ live) {x : ℕ} (h1 : b.1 - 8 ≤ x)
    (h2 : x < b.1 - 8 + need b.2) : x ∉ cover F := by
  intro hx
  rw [h.tile] at hx
  exact hx.2 (mem_chunks.mpr ⟨b, hb, h1, h2⟩)

/-- **`Alloc` returns**: `NULL`, or a new block. -/
theorem alloc (h : Inv s live F) {n : ℕ} (hn : 0 < n) (hwrap : n + 23 < 2 ^ 64) :
    ∃ p s', s.alloc n = some (p, s') ∧ s'.memBase = s.memBase ∧ s'.size = s.size ∧ Untouched live s s' ∧
      ((p = 0 ∧ s' = s) ∨ (p ≠ 0 ∧ ∃ F', Inv s' ((p, n) :: live) F' ∧ ∀ b ∈ live, b.1 ≠ p)) := by
  rcases alloc_links h.listed h.length_le hn hwrap with ⟨heq, -⟩ |
    ⟨F₁, i, F₂, s', rfl, hfits, -, heq, hlisted, hused, hwrites⟩
  · exact ⟨0, s, heq, rfl, rfl, fun _ _ _ _ _ => rfl, .inl ⟨rfl, rfl⟩⟩
  · have hmem : i ∈ F₁ ++ i :: F₂ := List.mem_append_right _ List.mem_cons_self
    have hneed := need_ge n
    have hinside := h.free_inside i hmem
    obtain ⟨-, hcover⟩ := gapped_trim h.listed.gapped (x := i.1 + need n) (by omega) hfits
    have huntouched : Untouched live s s' := fun b hb x h1 h2 => hwrites.mem x (h.notMem_cover hb h1 h2)
    have hchunk : chunkOf (i.1 + 8, n) = (i.1, i.1 + need n) := by rw [chunkOf, Nat.add_sub_cancel]
    refine ⟨i.1 + 8, s', heq, hwrites.memBase, hwrites.size, huntouched, .inr ⟨by omega, _,
      h.next hwrites hlisted ?_ (fun b hb => ?_) ?_, fun b hb hp => ?_⟩⟩
    · rw [hcover, h.tile, List.map_cons, cover_cons, hchunk, sdiff_sdiff, Set.union_comm]
      rfl
    · rcases List.mem_cons.mp hb with rfl | hb
      · refine ⟨?_, (h.listed.aligned i hmem).1, hused⟩
        show s.memBase ≤ i.1 + 8 - 8 ∧ i.1 + 8 - 8 + need n ≤ _
        omega
      · exact h.kept hb (huntouched b hb)
    · refine List.pairwise_cons.mpr ⟨fun b hb => ?_, h.apart⟩
      rw [hchunk]
      have := h.free_apart i hmem b hb
      show i.1 + need n ≤ b.1 - 8 ∨ b.1 - 8 + need b.2 ≤ i.1
      omega
    · have h1 := h.free_apart i hmem b hb
      have h2 := need_ge b.2
      omega

theorem mem_others {b c : ℕ × ℕ} : c ∈ live.filter (fun c => c.1 ≠ b.1) ↔ c ∈ live ∧ c.1 ≠ b.1 := by
  rw [List.mem_filter, decide_eq_true_eq]

/-- Without a block, its chunk is free as well. -/
theorem tile_others (h : Inv s live F) {b : ℕ × ℕ} (hb : b ∈ live) :
    cover F ∪ Set.Ico (b.1 - 8) (b.1 - 8 + need b.2) =
      Set.Ico s.memBase (s.memBase + s.size) \ cover ((live.filter fun c => c.1 ≠ b.1).map chunkOf) := by
  have hinside := h.inside b hb
  rw [h.tile]
  ext x
  simp only [Set.mem_union, Set.mem_sdiff, Set.mem_Ico, mem_chunks, mem_others]
  constructor
  · rintro (⟨hx, hno⟩ | hx)
    · exact ⟨hx, fun ⟨c, hc, hcx⟩ => hno ⟨c, hc.1, hcx⟩⟩
    · refine ⟨by omega, ?_⟩
      rintro ⟨c, ⟨hc, hcb⟩, hcx⟩
      have := h.apart_of_ne hc hb fun he => hcb (congrArg Prod.fst he)
      omega
  · rintro ⟨hx, hno⟩
    by_cases hxb : b.1 - 8 ≤ x ∧ x < b.1 - 8 + need b.2
    · exact .inr hxb
    · refine .inl ⟨hx, ?_⟩
      rintro ⟨c, hc, hcx⟩
      refine hno ⟨c, ⟨hc, fun hcb => ?_⟩, hcx⟩
      rw [h.eq_of_ptr hc hb hcb] at hcx
      exact hxb hcx

/-- **`Free` returns**, and the other blocks stay. -/
theorem free (h : Inv s live F) {b : ℕ × ℕ} (hb : b ∈ live) :
    ∃ s' F', s.free b.1 = some s' ∧ s'.memBase = s.memBase ∧ s'.size = s.size ∧
      Inv s' (live.filter fun c => c.1 ≠ b.1) F' ∧ Untouched (live.filter fun c => c.1 ≠ b.1) s s' := by
  have hneed := need_ge b.2
  have hinside := h.inside b hb
  have htop := h.top
  obtain ⟨hptr, hpos⟩ := h.ptr_eq hb
  obtain ⟨s', hfree, F', hlisted, hcover, hwrites⟩ := free_links h.listed h.length_le (Nat.ne_of_gt hpos) (h.aligned b hb)
    hneed.2.2 (by omega) (by omega) (h.header b hb) fun i hi => h.free_apart i hi b hb
  rw [hptr] at hfree
  have huntouched : Untouched (live.filter fun c => c.1 ≠ b.1) s s' := by
    intro c hc x h1 h2
    obtain ⟨hc, hcb⟩ := mem_others.mp hc
    refine hwrites.mem x ?_
    rintro (hx | hx)
    · exact h.notMem_cover hc h1 h2 hx
    · have := h.apart_of_ne hc hb fun he => hcb (congrArg Prod.fst he)
      rw [Set.mem_Ico] at hx
      omega
  exact ⟨s', F', hfree, hwrites.memBase, hwrites.size, h.next hwrites hlisted (hcover.trans (h.tile_others hb))
    (fun c hc => h.kept (mem_others.mp hc).1 (huntouched c hc)) (h.apart.filter _), huntouched⟩

/-- A byte of a block is behind its header. -/
theorem write (h : Inv s live F) {b : ℕ × ℕ} (hb : b ∈ live) {x : ℕ} (hlo : b.1 ≤ x) (hhi : x < b.1 + b.2) (v : Byte) :
    Inv { s with mem := Function.update s.mem x v } live F := by
  have hneed := need_ge b.2
  have hsame : ∀ y, y ≠ x → Function.update s.mem x v y = s.mem y := fun y hy => Function.update_of_ne hy v s.mem
  have hptr := (h.ptr_eq hb).1
  refine ⟨h.base, h.top, h.listed.frame rfl fun y hy => hsame y ?_, h.tile, h.inside, h.aligned, fun c hc => ?_, h.apart⟩
  · rintro rfl
    exact h.notMem_cover hb (by omega) (by omega) hy
  · rw [← h.header c hc]
    refine load_congr fun y hy hy' => hsame y ?_
    by_cases hcb : c = b
    · rw [hcb] at hy'
      omega
    · have h1 := h.apart_of_ne hc hb hcb
      have h2 := need_ge c.2
      omega

/-- After `Init` all of the pool is free. -/
theorem init {mem : Mem} {base memsize : ℕ} (hinit : MemCache.init mem base memsize = some s) (h16 : 16 ∣ base)
    (htop : base + s.size < 2 ^ 64) : Inv s [] [(base, base + s.size)] ∧ s.memBase = base := by
  have haligned := dvd_countAligned memsize
  simp only [MemCache.init] at hinit
  split_ifs at hinit with hsize hbase
  obtain rfl := Option.some.inj hinit
  have hpos := Nat.pos_of_ne_zero hsize
  have hsize64 : countAligned memsize < 2 ^ 64 := lt_of_le_of_lt (Nat.le_add_left _ base) htop
  refine ⟨⟨⟨Nat.pos_of_ne_zero hbase, h16⟩, ⟨haligned, htop⟩, ⟨⟨rfl, hbase, ?_, ?_⟩, ?_, ?_, ?_⟩, ?_, ?_, ?_, ?_,
    List.Pairwise.nil⟩, rfl⟩
  · rw [chunkSize_setSize h16 h16 hsize64, if_pos rfl]
    rfl
  · show linkOf _ base = 0
    rw [linkOf_setSize h16 h16, setNext_eq hbase, linkOf_setLink h16 h16 (by decide), if_pos rfl]
  · exact Gapped.cons_iff.mpr ⟨Nat.lt_add_of_pos_right hpos, Gapped.nil, fun j hj => absurd hj List.not_mem_nil⟩
  · intro i hi
    rw [List.mem_singleton.mp hi]
    exact ⟨h16, Nat.dvd_add h16 haligned⟩
  · intro i hi
    rw [List.mem_singleton.mp hi]
    exact htop
  · rw [cover_cons, cover_nil, List.map_nil, cover_nil, Set.union_empty, Set.sdiff_empty]
    rfl
  all_goals exact fun b hb => absurd hb List.not_mem_nil

end Inv

end Blitzd.Shald
