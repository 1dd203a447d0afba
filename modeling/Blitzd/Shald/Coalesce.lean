import Blitzd.Shald.FreeList

/-! # Free chunks are merged

`Free` walks to the place of the chunk in the list, `F₁` before it and `F₂` behind it, and writes one header: that of the
chunk itself, or that of the chunk before it if they touch. In both cases the chunk behind is taken in if it touches
(`settle_links`). The list is then that of the free chunks and the one put back, joined on both sides (`free_links`), and no
byte outside of them changes. -/

namespace Blitzd.Shald.MemCache

open Blitzd.Lib.Memory Blitzd.Lib.Intervals

variable {s s' : MemCache}

/-- The loop stops between the chunks before and behind. -/
theorem freeLoop_eq {t : ℕ} {F : List (ℕ × ℕ)} : ∀ {fuel c : ℕ}, s.Links c F → (F.Pairwise fun i j => i.1 < j.1) →
    F.length < fuel → ∃ F₁ F₂, F = F₁ ++ F₂ ∧ (∀ i ∈ F₁, i.1 < t) ∧ (∀ i ∈ F₂, t ≤ i.1) ∧
      s.freeLoop t fuel c (s.linkOf c) = some (last c F₁, s.linkOf (last c F₁)) := by
  induction F with
  | nil =>
    intro fuel c h _ hfuel
    obtain ⟨n, rfl⟩ : ∃ n, fuel = n + 1 := ⟨fuel - 1, by omega⟩
    have h' : s.linkOf c = 0 := h
    refine ⟨[], [], rfl, fun i hi => absurd hi List.not_mem_nil, fun i hi => absurd hi List.not_mem_nil, ?_⟩
    rw [freeLoop, if_neg (by omega)]
    rfl
  | cons i F ih =>
    rintro fuel c ⟨hlink, hne, -, hrest⟩ hinc hfuel
    obtain ⟨n, rfl⟩ : ∃ n, fuel = n + 1 := ⟨fuel - 1, by omega⟩
    obtain ⟨hi, hF⟩ := List.pairwise_cons.mp hinc
    have hlen : F.length < n := by
      rw [List.length_cons] at hfuel
      omega
    rw [freeLoop, hlink]
    by_cases hlt : i.1 < t
    · rw [if_pos ⟨by omega, hlt⟩, ← linkOf_of_ne hne]
      obtain ⟨F₁, F₂, rfl, h1, h2, heq⟩ := ih hrest hF hlen
      refine ⟨i :: F₁, F₂, rfl, fun j hj => ?_, h2, heq⟩
      rcases List.mem_cons.mp hj with rfl | hj
      · exact hlt
      · exact h1 j hj
    · refine ⟨[], i :: F, rfl, fun j hj => absurd hj List.not_mem_nil, fun j hj => ?_, ?_⟩
      · rcases List.mem_cons.mp hj with rfl | hj
        · omega
        · have := hi j hj
          omega
      · rw [if_neg (by omega), ← hlink]
        rfl

/-- The list starts with the chunk at `c`. -/
def Starts (s : MemCache) (c : ℕ) (F : List (ℕ × ℕ)) : Prop :=
  ∃ i G, F = i :: G ∧ i.1 = c ∧ c + s.chunkSize c = i.2 ∧ s.Links c G

section

variable {s₀ : MemCache} {x c k : ℕ} {F : List (ℕ × ℕ)}

/-- A list is linked behind a header that is written before all of its chunks. -/
theorem links_setHeader {G : List (ℕ × ℕ)} {y v w : ℕ} (hG : s₀.Links y G) (hc16 : 16 ∣ c)
    (habove : ∀ i ∈ G, 16 ∣ i.1 ∧ c < i.1)
    (hsame : ∀ i ∈ G, s.linkOf i.1 = s₀.linkOf i.1 ∧ s.chunkSize i.1 = s₀.chunkSize i.1) (hv : v = s₀.linkOf y)
    (hv' : v < 2 ^ 64) (hw : w < 2 ^ 64) : (s.setHeader c v w).Links c G := by
  refine hG.move ?_ fun i hi => ?_
  · rw [linkOf_setHeader hc16 hc16 hv', if_pos rfl, hv]
  · obtain ⟨hi16, hci⟩ := habove i hi
    rw [linkOf_setHeader hc16 hi16 hv', chunkSize_setHeader hc16 hi16 hw, if_neg (by omega), if_neg (by omega)]
    exact hsame i hi

/-- The header that is written to join a chunk to the list behind it. The list was that of `s₀`, and what is done before
leaves it alone. -/
theorem settle_eq (h : s₀.Links x F) (hc : c ≠ 0) (hc16 : 16 ∣ c) (hF : ∀ i ∈ F, 16 ∣ i.1 ∧ c < i.1 ∧ i.2 < 2 ^ 64)
    (hsize : k < 2 ^ 64)
    (hsame : ∀ i ∈ F, s.linkOf i.1 = s₀.linkOf i.1 ∧ s.chunkSize i.1 = s₀.chunkSize i.1) :
    ∃ v w, v < 2 ^ 64 ∧ w < 2 ^ 64 ∧
      s.settle c k (s₀.linkOf x) (decide (c + k = s₀.linkOf x)) = s.setHeader c v w ∧
      (s.setHeader c v w).Starts c (join (c, c + k) F) := by
  have hstarts : ∀ {v w}, w < 2 ^ 64 → (s.setHeader c v w).chunkSize c = w := fun hw => by
    rw [chunkSize_setHeader hc16 hc16 hw, if_pos rfl]
  have habove : ∀ i ∈ F, 16 ∣ i.1 ∧ c < i.1 := fun i hi => ⟨(hF i hi).1, (hF i hi).2.1⟩
  rcases F with _ | ⟨j, F⟩
  · -- nothing is behind it
    have hlink : s₀.linkOf x = 0 := h
    refine ⟨0, k, by decide, hsize, ?_, (c, c + k), [], rfl, rfl, ?_, ?_⟩
    · rw [hlink, settle, if_neg (by rw [decide_eq_true_eq]; omega), setNext_eq hc, setHeader]
    · rw [hstarts hsize]
    · exact links_setHeader h hc16 habove hsame hlink.symm (by decide) hsize
  · obtain ⟨hlink, hj0, hjsize, hrest⟩ := id h
    obtain ⟨hj16, hcj, hj64⟩ := hF j List.mem_cons_self
    obtain ⟨hjl, hjs⟩ := hsame j List.mem_cons_self
    rw [hlink]
    by_cases ht : c + k = j.1
    · -- the first chunk behind it is taken in
      have hw : k + s.chunkSize j.1 < 2 ^ 64 := by omega
      have hv : s.chunkNext j.1 = s₀.linkOf j.1 := by rw [← hjl, linkOf_of_ne hj0]
      refine ⟨s.chunkNext j.1, k + s.chunkSize j.1, s.chunkNext_lt j.1, hw, ?_, (c, j.2), F, ?_, rfl, ?_, ?_⟩
      · rw [settle, if_pos (decide_eq_true ht), setNext_eq hc]
        dsimp only
        rw [chunkSize_setLink hc16 hj16, add_eq hw, setHeader]
      · rw [join, if_pos ht]
      · rw [hstarts hw]
        show c + (k + s.chunkSize j.1) = j.2
        omega
      · exact links_setHeader hrest hc16 (fun i hi => habove i (List.mem_cons_of_mem _ hi))
          (fun i hi => hsame i (List.mem_cons_of_mem _ hi)) hv (s.chunkNext_lt j.1) hw
    · refine ⟨j.1, k, by omega, hsize, ?_, (c, c + k), j :: F, ?_, rfl, ?_, ?_⟩
      · rw [settle, if_neg (by rw [decide_eq_true_eq]; exact ht), setNext_eq hc, setHeader]
      · rw [join, if_neg ht]
      · rw [hstarts hsize]
      · exact links_setHeader h hc16 habove hsame hlink.symm (by omega) hsize

/-- **The chunk is joined to the list behind it**, and no other header changes. -/
theorem settle_links (h : s₀.Links x F) (hc : c ≠ 0) (hc16 : 16 ∣ c) (hF : ∀ i ∈ F, 16 ∣ i.1 ∧ c < i.1 ∧ i.2 < 2 ^ 64)
    (hsize : k < 2 ^ 64)
    (hsame : ∀ i ∈ F, s.linkOf i.1 = s₀.linkOf i.1 ∧ s.chunkSize i.1 = s₀.chunkSize i.1) :
    ∃ s', s.settle c k (s₀.linkOf x) (decide (c + k = s₀.linkOf x)) = s' ∧ s'.Starts c (join (c, c + k) F) ∧
      (∀ e, 16 ∣ e → e ≠ c → s'.linkOf e = s.linkOf e ∧ s'.chunkSize e = s.chunkSize e) ∧
      Writes (Set.Ico c (c + 16)) s s' := by
  obtain ⟨v, w, hv, hw, heq, hstarts⟩ := settle_eq h hc hc16 hF hsize hsame
  refine ⟨_, heq, hstarts, fun e he hne => ?_, .setHeader le_rfl⟩
  rw [linkOf_setHeader hc16 he hv, chunkSize_setHeader hc16 he hw, if_neg hne, if_neg hne]
  exact ⟨rfl, rfl⟩

end

/-- The new list, when the chunk from `c` to `hi` is joined to `F₂` behind `F₁`. -/
theorem Listed.joined {F₁ F₂ G : List (ℕ × ℕ)} {c hi : ℕ} (h : s.Listed (F₁ ++ G)) (hF₂ : Gapped F₂)
    (hbehind : ∀ i ∈ F₂, hi ≤ i.1 ∧ 16 ∣ i.1 ∧ 16 ∣ i.2 ∧ i.2 < 2 ^ 64) (hbefore : ∀ i ∈ F₁, i.2 < c) (hc : c ≠ 0)
    (hc16 : 16 ∣ c) (hhi16 : 16 ∣ hi) (hchi : c < hi) (hhi : hi < 2 ^ 64) (hlink : s'.linkOf (last 0 F₁) = c)
    (hstarts : s'.Starts c (join (c, hi) F₂))
    (hother : ∀ e, e = 0 ∨ (∃ i ∈ F₁, e = i.1) →
      (e ≠ last 0 F₁ → s'.linkOf e = s.linkOf e) ∧ s'.chunkSize e = s.chunkSize e) :
    s'.Listed (F₁ ++ join (c, hi) F₂) ∧ cover (F₁ ++ join (c, hi) F₂) = cover F₁ ∪ (Set.Ico c hi ∪ cover F₂) := by
  obtain ⟨hg₁, -, -⟩ := Gapped.append_iff.mp h.gapped
  have hends : ∀ i ∈ F₁ ++ join (c, hi) F₂, 16 ∣ i.1 ∧ 16 ∣ i.2 ∧ i.2 < 2 ^ 64 := by
    intro i hi
    rcases List.mem_append.mp hi with hi | hi
    · have hi' := List.mem_append_left G hi
      exact ⟨(h.aligned i hi').1, (h.aligned i hi').2, h.small i hi'⟩
    · rcases mem_join hi with ⟨h1, h2 | ⟨j, hj, h2⟩⟩ | hi
      · rw [h1, h2]
        exact ⟨hc16, hhi16, hhi⟩
      · rw [h1, h2]
        exact ⟨hc16, (hbehind j hj).2.2⟩
      · exact (hbehind i hi).2
  refine ⟨⟨?_, ?_, fun i hi => ⟨(hends i hi).1, (hends i hi).2.1⟩, fun i hi => (hends i hi).2.2⟩, ?_⟩
  · obtain ⟨i, G', hjoin, rfl, hsize, hrest⟩ := hstarts
    rw [hjoin]
    exact h.links.splice hg₁ (fun j hj => (hother j.1 (.inr ⟨j, hj, rfl⟩)).2) (fun e he => (hother e he).1)
      ⟨hlink, hc, hsize, hrest⟩
  · refine Gapped.append_iff.mpr ⟨hg₁, gapped_join hF₂ hchi fun i hi => (hbehind i hi).1, fun i hi j hj => ?_⟩
    have hic := hbefore i hi
    rcases mem_join hj with ⟨h1, -⟩ | hj
    · rw [h1]
      exact hic
    · have := (hbehind j hj).1
      omega
  · rw [cover_append, cover_join _ _ hchi.le fun j hj => (hF₂.nonempty j hj).le]

/-- The chunk before the place a loop has come to. -/
theorem Links.last_chunk {F₁ F₂ : List (ℕ × ℕ)} (h : s.Links 0 (F₁ ++ F₂)) (hp : last 0 F₁ ≠ 0) :
    ∃ G d, F₁ = G ++ [d] ∧ last 0 F₁ = d.1 ∧ s.linkOf (last 0 G) = d.1 ∧ d.1 + s.chunkSize d.1 = d.2 := by
  rcases List.eq_nil_or_concat F₁ with rfl | ⟨G, d, hF₁⟩
  · exact absurd rfl hp
  rw [List.concat_eq_append] at hF₁
  subst hF₁
  rw [List.append_assoc, List.singleton_append] at h
  obtain ⟨-, hlink, -, hsize, -⟩ := links_append.mp h
  exact ⟨G, d, rfl, last_append, hlink, hsize⟩

/-- The chunk from `t` to `t + k` is between the free ones of `F₁` and `F₂`. -/
structure Between (s : MemCache) (F₁ F₂ : List (ℕ × ℕ)) (t k : ℕ) : Prop where
  listed : s.Listed (F₁ ++ F₂)
  before : ∀ i ∈ F₁, 0 < i.1 ∧ i.1 + 16 ≤ i.2 ∧ i.2 ≤ t ∧ 16 ∣ i.1
  behind : ∀ i ∈ F₂, t + k ≤ i.1 ∧ 16 ∣ i.1 ∧ 16 ∣ i.2 ∧ i.2 < 2 ^ 64
  start : t ≠ 0 ∧ 16 ∣ t
  stop : 16 ≤ k ∧ 16 ∣ t + k ∧ t + k < 2 ^ 64

/-- The chunk is in the free list of `s'`, and nothing else happened to it. -/
def Returned (s s' : MemCache) (F : List (ℕ × ℕ)) (t k : ℕ) : Prop :=
  ∃ F', s'.Listed F' ∧ cover F' = cover F ∪ Set.Ico t (t + k) ∧ Writes (cover F ∪ Set.Ico t (t + k)) s s'

namespace Between

variable {F₁ F₂ : List (ℕ × ℕ)} {t k : ℕ}

theorem last_lt (h : s.Between F₁ F₂ t k) : last 0 F₁ < t ∧ 16 ∣ last 0 F₁ := by
  refine last_cases (fun c => c < t ∧ 16 ∣ c) ⟨Nat.pos_of_ne_zero h.start.1, dvd_zero 16⟩ fun j hj => ?_
  have := h.before j hj
  exact ⟨by omega, this.2.2.2⟩

theorem behind_lt (h : s.Between F₁ F₂ t k) {c : ℕ} (hc : c ≤ t) : ∀ i ∈ F₂, 16 ∣ i.1 ∧ c < i.1 ∧ i.2 < 2 ^ 64 := by
  intro i hi
  have h1 := h.behind i hi
  have h2 := h.stop
  exact ⟨h1.2.1, by omega, h1.2.2.2⟩

/-- The chunk before it, if there is one. -/
theorem last_chunk (h : s.Between F₁ F₂ t k) (hp : last 0 F₁ ≠ 0) : ∃ G d, F₁ = G ++ [d] ∧ last 0 F₁ = d.1 ∧
    s.linkOf (last 0 G) = d.1 ∧ d.1 + s.chunkSize d.1 = d.2 ∧ d ∈ F₁ ∧ d.1 + 16 ≤ d.2 ∧ d.2 ≤ t ∧ ∀ i ∈ G, i.2 < d.1 := by
  obtain ⟨G, d, rfl, hlast, hlink, hsize⟩ := h.listed.links.last_chunk hp
  have hmem : d ∈ G ++ [d] := List.mem_append_right _ (List.mem_singleton_self _)
  have hd := h.before d hmem
  obtain ⟨hg₁, -, -⟩ := Gapped.append_iff.mp h.listed.gapped
  obtain ⟨-, -, hGd⟩ := Gapped.append_iff.mp hg₁
  exact ⟨G, d, rfl, hlast, hlink, hsize, hmem, hd.2.1, hd.2.2.1, fun i hi => hGd i hi d (List.mem_singleton_self _)⟩

/-- If the last chunk before it does not touch, none does. -/
theorem gap (h : s.Between F₁ F₂ t k) (hno : last 0 F₁ ≠ 0 → last 0 F₁ + s.chunkSize (last 0 F₁) ≠ t) :
    ∀ i ∈ F₁, i.2 < t := by
  intro i hi
  have hi' := h.before i hi
  have hp : last 0 F₁ ≠ 0 := by
    rcases List.eq_nil_or_concat F₁ with rfl | ⟨G, d, rfl⟩
    · exact absurd hi List.not_mem_nil
    · rw [List.concat_eq_append] at h ⊢
      rw [last_append]
      exact Nat.ne_of_gt (h.before d (List.mem_append_right _ (List.mem_singleton_self _))).1
  obtain ⟨G, d, rfl, hlast, -, hsize, -, hlen, hdt, hGd⟩ := h.last_chunk hp
  rw [hlast, hsize] at hno
  rcases List.mem_append.mp hi with hi | hi
  · have := hGd i hi
    omega
  · rw [List.mem_singleton.mp hi]
    exact lt_of_le_of_ne hdt (hno (hlast ▸ hp))

/-- The chunk before it touches, and takes it in. -/
theorem merge (h : s.Between F₁ F₂ t k) (hp : last 0 F₁ ≠ 0) (hpt : last 0 F₁ + s.chunkSize (last 0 F₁) = t) :
    s.Returned (s.settle (last 0 F₁) (s.chunkSize (last 0 F₁) + k) (s.linkOf (last 0 F₁))
      (decide (t + k = s.linkOf (last 0 F₁)))) (F₁ ++ F₂) t k := by
  obtain ⟨G, d, rfl, hlast, hlink, hdsize, hdmem, hlen, hdt, hGd⟩ := h.last_chunk hp
  obtain ⟨hplt, hp16⟩ := h.last_lt
  obtain ⟨hk, htk16, hend⟩ := h.stop
  obtain ⟨-, hg₂, -⟩ := Gapped.append_iff.mp h.listed.gapped
  obtain ⟨-, hrest⟩ := links_append.mp h.listed.links
  rw [hlast] at hp hpt hplt hp16 hrest ⊢
  have hd2 : d.2 = t := hdsize.symm.trans hpt
  have hsum : d.1 + (s.chunkSize d.1 + k) = t + k := by omega
  obtain ⟨s', heq, hstarts, hother, hwrites⟩ := settle_links (s := s) hrest hp hp16 (h.behind_lt hplt.le)
    (k := s.chunkSize d.1 + k) (by omega) fun i hi => ⟨rfl, rfl⟩
  rw [hsum] at heq hstarts
  rw [heq]
  have hG : ∀ e, e = 0 ∨ (∃ i ∈ G, e = i.1) → 16 ∣ e ∧ e ≠ d.1 := by
    rintro e (rfl | ⟨i, hi, rfl⟩)
    · exact ⟨dvd_zero 16, hp.symm⟩
    · have h1 := h.before i (List.mem_append_left _ hi)
      have h2 := hGd i hi
      exact ⟨h1.2.2.2, by omega⟩
  have hlisted := h.listed
  rw [List.append_assoc, List.singleton_append] at hlisted
  have hprev := hG _ (last_mem (c := 0) (F := G))
  obtain ⟨hnew, hcover⟩ := hlisted.joined hg₂ h.behind hGd hp hp16 htk16 (by omega) hend
    ((hother _ hprev.1 hprev.2).1.trans hlink) hstarts
    fun e he => ⟨fun _ => (hother e (hG e he).1 (hG e he).2).1, (hother e (hG e he).1 (hG e he).2).2⟩
  refine ⟨_, hnew, ?_, hwrites.mono fun x hx => ?_⟩
  · rw [hcover, cover_append, cover_append, cover_cons, cover_nil, Set.union_empty, hd2,
      ← Set.Ico_union_Ico_eq_Ico hplt.le (Nat.le_add_right t k)]
    ac_rfl
  · exact .inl ⟨d, List.mem_append_left _ hdmem, hx.1, lt_of_lt_of_le hx.2 hlen⟩

/-- It is linked in behind the chunk before it. -/
theorem insert (h : s.Between F₁ F₂ t k) (hno : last 0 F₁ ≠ 0 → last 0 F₁ + s.chunkSize (last 0 F₁) ≠ t) :
    s.Returned ((s.setLink (last 0 F₁) t).settle t k (s.linkOf (last 0 F₁)) (decide (t + k = s.linkOf (last 0 F₁))))
      (F₁ ++ F₂) t k := by
  obtain ⟨hplt, hp16⟩ := h.last_lt
  obtain ⟨hk, htk16, hend⟩ := h.stop
  obtain ⟨ht, ht16⟩ := h.start
  obtain ⟨-, hg₂, -⟩ := Gapped.append_iff.mp h.listed.gapped
  obtain ⟨-, hrest⟩ := links_append.mp h.listed.links
  have hlinked : ∀ {e}, 16 ∣ e → (s.setLink (last 0 F₁) t).linkOf e = if e = last 0 F₁ then t else s.linkOf e :=
    fun he => linkOf_setLink hp16 he (by omega)
  have hsized : ∀ {e}, 16 ∣ e → (s.setLink (last 0 F₁) t).chunkSize e = s.chunkSize e := chunkSize_setLink hp16
  obtain ⟨s', heq, hstarts, hother, hwrites⟩ := settle_links (s := s.setLink (last 0 F₁) t) hrest ht ht16
    (h.behind_lt le_rfl) (k := k) (by omega) fun i hi => by
      have hi' := h.behind_lt le_rfl i hi
      rw [hlinked hi'.1, if_neg (by omega), hsized hi'.1]
      exact ⟨rfl, rfl⟩
  rw [heq]
  have hF₁ : ∀ e, e = 0 ∨ (∃ i ∈ F₁, e = i.1) → 16 ∣ e ∧ e ≠ t := by
    rintro e (rfl | ⟨i, hi, rfl⟩)
    · exact ⟨dvd_zero 16, ht.symm⟩
    · have h1 := h.before i hi
      exact ⟨h1.2.2.2, by omega⟩
  have hkept : ∀ e, e = 0 ∨ (∃ i ∈ F₁, e = i.1) →
      (e ≠ last 0 F₁ → s'.linkOf e = s.linkOf e) ∧ s'.chunkSize e = s.chunkSize e := by
    intro e he
    obtain ⟨he16, het⟩ := hF₁ e he
    obtain ⟨h1, h2⟩ := hother e he16 het
    refine ⟨fun hlast => ?_, h2.trans (hsized he16)⟩
    rw [h1, hlinked he16, if_neg hlast]
  have hlink : s'.linkOf (last 0 F₁) = t := by rw [(hother _ hp16 (Nat.ne_of_lt hplt)).1, hlinked hp16, if_pos rfl]
  obtain ⟨hnew, hcover⟩ := h.listed.joined hg₂ h.behind (h.gap hno) ht ht16 htk16 (by omega) hend hlink hstarts hkept
  refine ⟨_, hnew, ?_, (Writes.setLink fun hp x hx => ?_).trans (hwrites.mono fun x hx => ?_)⟩
  · rw [hcover, cover_append]
    ac_rfl
  · obtain ⟨G, d, -, hlast, -, -, hdmem, hlen, -⟩ := h.last_chunk hp
    rw [Set.mem_Ico, hlast] at hx
    exact .inl ⟨d, List.mem_append_left _ hdmem, hx.1, by omega⟩
  · exact .inr ⟨hx.1, lt_of_lt_of_le hx.2 (by omega)⟩

end Between

/-- **`Free`**: the chunk is put back, and no byte outside of it and the free ones changes. -/
theorem free_links {F : List (ℕ × ℕ)} (h : s.Listed F) (hfuel : F.length ≤ s.size) {t k : ℕ} (ht : t ≠ 0) (ht16 : 16 ∣ t)
    (hk16 : 16 ∣ k) (hk : 0 < k) (hend : t + k < 2 ^ 64) (hused : s.chunkUsed t = k)
    (hapart : ∀ i ∈ F, i.2 ≤ t ∨ t + k ≤ i.1) : ∃ s', s.free (t + 8) = some s' ∧ s.Returned s' F t k := by
  have hthis : sub (t + 8) 8 = t := by rw [sub_eq (by omega) (by omega), Nat.add_sub_cancel]
  obtain ⟨F₁, F₂, rfl, hlt, hge, hloop⟩ := freeLoop_eq (t := t) h.links h.gapped.increasing (Nat.lt_succ_of_le hfuel)
  have hbetween : s.Between F₁ F₂ t k := by
    obtain ⟨hg₁, hg₂, -⟩ := Gapped.append_iff.mp h.gapped
    refine ⟨h, fun i hi => ?_, fun i hi => ?_, ⟨ht, ht16⟩, by omega, (Nat.dvd_add_right ht16).mpr hk16, hend⟩
    · have hi' := List.mem_append_left F₂ hi
      have h1 := hg₁.nonempty i hi
      have h2 := h.aligned i hi'
      have h3 := h.links.ne_zero i hi'
      have h4 := hapart i hi'
      have h5 := hlt i hi
      exact ⟨by omega, by omega, by omega, h2.1⟩
    · have hi' := List.mem_append_right F₁ hi
      have h1 := hg₂.nonempty i hi
      have h4 := hapart i hi'
      have h5 := hge i hi
      exact ⟨by omega, (h.aligned i hi').1, (h.aligned i hi').2, h.small i hi'⟩
  set p := last 0 F₁ with hp
  have hfree : s.free (t + 8) = if p = 0 then
        some (settle { s with firstFree := t } t k (s.linkOf p) (decide (t + k = s.linkOf p)))
      else if add p (s.chunkSize p) = t then
        some (s.settle p (add (s.chunkSize p) k) (s.linkOf p) (decide (t + k = s.linkOf p)))
      else some (settle (s.setNext p t) t k (s.linkOf p) (decide (t + k = s.linkOf p))) := by
    have hloop' : s.freeLoop t (s.size + 1) 0 s.firstFree = some (p, s.linkOf p) := hloop
    rw [free, hthis, hloop']
    dsimp only
    rw [hused, add_eq hend]
  by_cases hp0 : p = 0
  · rw [if_pos hp0] at hfree
    have hlink : s.setLink p t = { s with firstFree := t } := if_pos hp0
    rw [← hlink] at hfree
    exact ⟨_, hfree, hbetween.insert fun h0 => absurd hp0 h0⟩
  · obtain ⟨G, d, rfl, hlast, -, hdsize⟩ := h.links.last_chunk hp0
    have hd := hbetween.before d (List.mem_append_right _ (List.mem_singleton_self _))
    have hpd : p = d.1 := hlast
    have hsum : add p (s.chunkSize p) = p + s.chunkSize p := add_eq (by rw [hpd]; omega)
    rw [if_neg hp0, hsum] at hfree
    by_cases hpt : p + s.chunkSize p = t
    · rw [if_pos hpt, add_eq (by omega)] at hfree
      exact ⟨_, hfree, hbetween.merge hp0 hpt⟩
    · rw [if_neg hpt, setNext_eq hp0] at hfree
      exact ⟨_, hfree, hbetween.insert fun _ => hpt⟩

end Blitzd.Shald.MemCache
