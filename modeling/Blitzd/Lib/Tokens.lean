import Mathlib.Data.List.Basic
import Mathlib.Order.Nat

/-! # The tokens of a list

A list is cut at a delimiter `d`. A token is an interval of positions, not empty and without a delimiter, that no larger
such interval contains (`IsToken`). `Cut l d p spans` is how a scan from `p` on meets them, with one rule for what may
stand at a position; whatever a scan finds by these rules are the tokens, in their order (`Cut.mem_iff`,
`Cut.ordered`, `Cut.existsUnique`). -/

namespace Blitzd.Lib.Tokens

variable {α : Type*} {l : List α} {d : α} {p q i j k : ℕ} {spans : List (ℕ × ℕ)}

/-- There is no delimiter at the positions from `i` up to `j`. -/
def Free (l : List α) (d : α) (i j : ℕ) : Prop := ∀ k, i ≤ k → k < j → l[k]? ≠ some d

/-- A token of the part from `p` on: an interval without a delimiter, not empty, that cannot be enlarged. -/
structure IsToken (l : List α) (d : α) (p i j : ℕ) : Prop where
  start_le : p ≤ i
  lt : i < j
  le_length : j ≤ l.length
  free : Free l d i j
  maximal : ∀ i' j', p ≤ i' → i' ≤ i → j ≤ j' → j' ≤ l.length → Free l d i' j' → i' = i ∧ j' = j

/-- The entries of an interval. -/
def slice (l : List α) (s : ℕ × ℕ) : List α := (l.drop s.1).take (s.2 - s.1)

/-- A scan from `p` on that finds the tokens `spans`. -/
inductive Cut (l : List α) (d : α) : ℕ → List (ℕ × ℕ) → Prop
  | done {p : ℕ} : l.length ≤ p → Cut l d p []
  | delimiter {p : ℕ} {spans : List (ℕ × ℕ)} : l[p]? = some d → Cut l d (p + 1) spans → Cut l d p spans
  | token {p q : ℕ} {spans : List (ℕ × ℕ)} : p < q → q ≤ l.length → Free l d p q →
      q = l.length ∨ l[q]? = some d → Cut l d q spans → Cut l d p ((p, q) :: spans)

/-! ### Intervals without a delimiter -/

/-- Two such intervals with a common position. -/
theorem Free.union (h : Free l d i j) (h' : Free l d p q) (hk : i ≤ k ∧ k < j) (hk' : p ≤ k ∧ k < q) :
    Free l d (min i p) (max j q) := by
  intro x hx hx'
  by_cases hin : i ≤ x ∧ x < j
  · exact h x hin.1 hin.2
  · exact h' x (by omega) (by omega)

/-- **Tokens with a common position are the same.** -/
theorem IsToken.eq_of_common {i' j' : ℕ} (h : IsToken l d p i j) (h' : IsToken l d p i' j') (hk : i ≤ k ∧ k < j)
    (hk' : i' ≤ k ∧ k < j') : i = i' ∧ j = j' := by
  have hunion := h.free.union h'.free hk hk'
  have hp := h.start_le
  have hp' := h'.start_le
  have hl := h.le_length
  have hl' := h'.le_length
  have := h.maximal _ _ (by omega) (by omega) (by omega) (by omega) hunion
  have := h'.maximal _ _ (by omega) (by omega) (by omega) (by omega) hunion
  omega

/-- A token behind a delimiter is one of every part that the delimiter belongs to. -/
theorem IsToken.of_delimiter {p' : ℕ} (h : IsToken l d p i j) (hq : l[q]? = some d) (hqp : q ≤ p) (hpq : p ≤ q + 1)
    (hle : p' ≤ q) : IsToken l d p' i j := by
  have hstart := h.start_le
  have hlt := h.lt
  refine ⟨by omega, hlt, h.le_length, h.free, fun i' j' _ hi hj hl hfree => ?_⟩
  by_cases hi' : p ≤ i'
  · exact h.maximal i' j' hi' hi hj hl hfree
  · exact absurd hq (hfree q (by omega) (by omega))

/-! ### What a scan finds -/

/-- Every interval that is found is a token. -/
theorem Cut.isToken (h : Cut l d p spans) : ∀ s ∈ spans, IsToken l d p s.1 s.2 := by
  induction h with
  | done _ => simp
  | delimiter hp _ ih =>
    intro s hs
    exact (ih s hs).of_delimiter hp (Nat.le_succ _) le_rfl le_rfl
  | @token p q spans hlt hle hfree hend hrest ih =>
    intro s hs
    rcases List.mem_cons.mp hs with rfl | hs
    · refine ⟨le_rfl, hlt, hle, hfree, fun i' j' hp hi hj hl hfree' => ⟨by omega, ?_⟩⟩
      rcases hend with rfl | hd
      · omega
      · by_contra hne
        exact hfree' q (by omega) (by omega) hd
    · have htoken := ih s hs
      rcases hend with rfl | hd
      · have := htoken.start_le
        have := htoken.lt
        have := htoken.le_length
        omega
      · exact htoken.of_delimiter hd le_rfl (Nat.le_succ _) hlt.le

/-- Every other position is found in one of them. -/
theorem Cut.cover (h : Cut l d p spans) :
    ∀ k, p ≤ k → k < l.length → l[k]? ≠ some d → ∃ s ∈ spans, s.1 ≤ k ∧ k < s.2 := by
  induction h with
  | done hp =>
    intro k hk hk' _
    omega
  | delimiter hp _ ih =>
    intro k hk hk' hne
    rcases Nat.eq_or_lt_of_le hk with rfl | hk
    · exact absurd hp hne
    · exact ih k hk hk' hne
  | @token p q spans _ _ _ _ _ ih =>
    intro k hk hk' hne
    by_cases hkq : k < q
    · exact ⟨(p, q), List.mem_cons_self, hk, hkq⟩
    · obtain ⟨s, hs, hin⟩ := ih k (by omega) hk' hne
      exact ⟨s, List.mem_cons_of_mem _ hs, hin⟩

/-- Between two of them there is a delimiter. -/
theorem Cut.ordered (h : Cut l d p spans) : spans.Pairwise fun s t => s.2 < t.1 := by
  induction h with
  | done _ => exact List.Pairwise.nil
  | delimiter _ _ ih => exact ih
  | @token p q spans _ _ _ hend hrest ih =>
    refine List.pairwise_cons.mpr ⟨fun s hs => ?_, ih⟩
    have htoken := hrest.isToken s hs
    have hstart := htoken.start_le
    have hlt := htoken.lt
    have hle := htoken.le_length
    show q < s.1
    rcases hend with rfl | hd
    · omega
    · rcases Nat.eq_or_lt_of_le hstart with heq | h
      · exact absurd hd (htoken.free q (by omega) (by omega))
      · exact h

/-- **The tokens are found, and nothing else.** -/
theorem Cut.mem_iff (h : Cut l d p spans) : (i, j) ∈ spans ↔ IsToken l d p i j := by
  constructor
  · exact h.isToken (i, j)
  · intro htoken
    have hlt := htoken.lt
    have hle := htoken.le_length
    obtain ⟨s, hs, hin⟩ := h.cover i htoken.start_le (by omega) (htoken.free i le_rfl hlt)
    obtain ⟨rfl, rfl⟩ := htoken.eq_of_common (h.isToken s hs) ⟨le_rfl, hlt⟩ hin
    exact hs

/-- **Every other position is in exactly one token.** -/
theorem Cut.existsUnique (h : Cut l d p spans) (hp : p ≤ k) (hk : k < l.length) (hne : l[k]? ≠ some d) :
    ∃! s, s ∈ spans ∧ s.1 ≤ k ∧ k < s.2 := by
  obtain ⟨s, hs, hin⟩ := h.cover k hp hk hne
  refine ⟨s, ⟨hs, hin⟩, fun t ht => ?_⟩
  obtain ⟨h1, h2⟩ := (h.isToken t ht.1).eq_of_common (h.isToken s hs) ht.2 hin
  exact Prod.ext h1 h2

/-- The entries of a token. -/
theorem IsToken.slice (h : IsToken l d p i j) : slice l (i, j) ≠ [] ∧ d ∉ slice l (i, j) := by
  have hlt := h.lt
  have hle := h.le_length
  constructor
  · apply List.ne_nil_of_length_pos
    rw [Tokens.slice, List.length_take, List.length_drop]
    omega
  · intro hd
    obtain ⟨k, hk⟩ := List.mem_iff_getElem?.mp hd
    have hkj : k < j - i := by
      by_contra hc
      rw [Tokens.slice, List.getElem?_take_eq_none (Nat.le_of_not_lt hc)] at hk
      simp at hk
    rw [Tokens.slice, List.getElem?_take_of_lt hkj, List.getElem?_drop] at hk
    exact h.free (i + k) (by omega) (by omega) hk

end Blitzd.Lib.Tokens
