import Blitzd.Cache.CheckRevision
import Blitzd.Lib.Tokens

/-! # Texts cut at a delimiter

`SeperateString` of `Parser.cpp`, with its moving offset: it skips delimiters, and takes the characters up to the next
delimiter as long as `find` gives one. Both loops move the offset forward within the text, which is why they end.

`seperateString_tokens`: what is appended to the result are the tokens of the part behind the offset.
`calculate_tokens`: they are the texts that `Calculate` works with. -/

namespace Blitzd.Text.Parser

open Blitzd.Lib.Bytes Blitzd.Lib.Tokens

variable {str : Text} {delimiter : Byte}

/-! ### The code -/

/-- `while(off < str.length() && str[off] == delimiter) ++ off`. -/
def skipDelimiters (str : Text) (delimiter : Byte) (off : ℕ) : ℕ :=
  if off < str.length ∧ str[off]? = some delimiter then skipDelimiters str delimiter (off + 1) else off
termination_by str.length - off

/-- `str.find(delimiter, off)`. -/
def find (str : Text) (delimiter : Byte) (off : ℕ) : Option ℕ := ((str.drop off).idxOf? delimiter).map (off + ·)

theorem find_eq_none {off : ℕ} (h : find str delimiter off = none) : Free str delimiter off str.length := by
  intro k hk _ hd
  rw [find, Option.map_eq_none_iff, List.idxOf?_eq_none_iff] at h
  apply h
  rw [List.mem_iff_getElem?]
  exact ⟨k - off, by rw [List.getElem?_drop, Nat.add_sub_cancel' hk]; exact hd⟩

theorem find_eq_some {off pos : ℕ} (h : find str delimiter off = some pos) :
    off ≤ pos ∧ Free str delimiter off pos ∧ str[pos]? = some delimiter := by
  obtain ⟨n, hn, rfl⟩ := Option.map_eq_some_iff.mp h
  obtain ⟨hlt, hget, hbefore⟩ := List.idxOf?_eq_some_iff.mp hn
  have hdrop : ∀ j, (str.drop off)[j]? = str[off + j]? := fun j => List.getElem?_drop
  refine ⟨Nat.le_add_right _ _, fun k hk hk' hd => ?_, ?_⟩
  · have hj := hdrop (k - off)
    rw [Nat.add_sub_cancel' hk, hd, List.getElem?_eq_some_iff] at hj
    exact hbefore (k - off) (by omega) hj.2
  · rw [← hdrop, List.getElem?_eq_some_iff]
    exact ⟨hlt, hget⟩

theorem le_skipDelimiters (str : Text) (delimiter : Byte) (off : ℕ) : off ≤ skipDelimiters str delimiter off := by
  fun_induction skipDelimiters str delimiter off with
  | case1 off _ ih => omega
  | case2 off _ => exact le_rfl

/-- The second loop: the result and the offset at its end. -/
def tokenLoop (str : Text) (delimiter : Byte) (result : List Text) (off : ℕ) : List Text × ℕ :=
  match h : find str delimiter off with
  | some pos =>
    tokenLoop str delimiter (result ++ [slice str (off, pos)]) (skipDelimiters str delimiter (pos + 1))
  | none => (result, off)
termination_by str.length - off
decreasing_by
  obtain ⟨hle, -, hpos⟩ := find_eq_some h
  have hlt := (List.getElem?_eq_some_iff.mp hpos).1
  have := le_skipDelimiters str delimiter (pos + 1)
  omega

/-- The text behind the last delimiter. -/
def withLast (str : Text) : List Text × ℕ → List Text
  | (result, off) => if off < str.length then result ++ [slice str (off, str.length)] else result

/-- `SeperateString`. -/
def seperateString (result : List Text) (str : Text) (delimiter : Byte) (off : ℕ) : List Text :=
  withLast str (tokenLoop str delimiter result (skipDelimiters str delimiter off))

/-! ### The loops follow the rules of a scan -/

/-- The first loop passes delimiters only, and all of them. -/
theorem cut_skipDelimiters {off : ℕ} {spans : List (ℕ × ℕ)}
    (h : Cut str delimiter (skipDelimiters str delimiter off) spans) : Cut str delimiter off spans := by
  fun_induction skipDelimiters str delimiter off with
  | case1 off hd ih => exact Cut.delimiter hd.2 (ih h)
  | case2 off _ => exact h

theorem skipDelimiters_stops (str : Text) (delimiter : Byte) (off : ℕ) :
    str[skipDelimiters str delimiter off]? ≠ some delimiter := by
  fun_induction skipDelimiters str delimiter off with
  | case1 off _ ih => exact ih
  | case2 off hstop =>
    intro hd
    exact hstop ⟨(List.getElem?_eq_some_iff.mp hd).1, hd⟩

/-- The second loop and what follows it, from an offset that is not at a delimiter. -/
theorem cut_tokenLoop {off : ℕ} (result : List Text) (hoff : str[off]? ≠ some delimiter) :
    ∃ spans, Cut str delimiter off spans ∧
      withLast str (tokenLoop str delimiter result off) = result ++ spans.map (slice str) := by
  fun_induction tokenLoop str delimiter result off with
  | case1 result off pos h ih =>
    obtain ⟨hle, hfree, hpos⟩ := find_eq_some h
    have hlt : off < pos := by
      rcases Nat.eq_or_lt_of_le hle with rfl | hlt
      · exact absurd hpos hoff
      · exact hlt
    have hlen := (List.getElem?_eq_some_iff.mp hpos).1
    obtain ⟨spans, hcut, heq⟩ := ih (skipDelimiters_stops str delimiter (pos + 1))
    refine ⟨(off, pos) :: spans, ?_, ?_⟩
    · exact Cut.token hlt hlen.le hfree (Or.inr hpos) (Cut.delimiter hpos (cut_skipDelimiters hcut))
    · rw [heq, List.map_cons, List.append_assoc, List.singleton_append]
  | case2 result off h =>
    have hfree := find_eq_none h
    rw [withLast]
    split_ifs with hlt
    · refine ⟨[(off, str.length)], ?_, rfl⟩
      exact Cut.token hlt le_rfl hfree (Or.inl rfl) (Cut.done le_rfl)
    · exact ⟨[], Cut.done (Nat.le_of_not_lt hlt), (List.append_nil result).symm⟩

theorem cut_seperateString (result : List Text) (str : Text) (delimiter : Byte) (off : ℕ) :
    ∃ spans, Cut str delimiter off spans ∧
      seperateString result str delimiter off = result ++ spans.map (slice str) := by
  obtain ⟨spans, hcut, heq⟩ := cut_tokenLoop result (skipDelimiters_stops str delimiter off)
  exact ⟨spans, cut_skipDelimiters hcut, heq⟩

/-- **What `SeperateString` appends are the tokens** of the part behind the offset, in their order: none is empty or has
the delimiter in it, and every other character is in exactly one of them. -/
theorem seperateString_tokens (result : List Text) (str : Text) (delimiter : Byte) (off : ℕ) :
    ∃ spans : List (ℕ × ℕ), seperateString result str delimiter off = result ++ spans.map (slice str) ∧
      (spans.Pairwise fun s t => s.2 < t.1) ∧
      (∀ i j, (i, j) ∈ spans ↔ IsToken str delimiter off i j) ∧
      (∀ t ∈ spans.map (slice str), t ≠ [] ∧ delimiter ∉ t) ∧
      ∀ k, off ≤ k → k < str.length → str[k]? ≠ some delimiter → ∃! s, s ∈ spans ∧ s.1 ≤ k ∧ k < s.2 := by
  obtain ⟨spans, hcut, heq⟩ := cut_seperateString result str delimiter off
  refine ⟨spans, heq, hcut.ordered, fun i j => hcut.mem_iff, ?_, fun k => hcut.existsUnique⟩
  intro t ht
  obtain ⟨s, hs, rfl⟩ := List.mem_map.mp ht
  exact (hcut.isToken s hs).slice

/-! ### The tokens of a formula -/

open Blitzd.Cache.CheckRevision (seperateLoop seperateLoop_nil seperateLoop_delimiter seperateLoop_word)

theorem drop_slice {i j : ℕ} (hij : i ≤ j) : str.drop i = slice str (i, j) ++ str.drop j := by
  have hdrop : (str.drop i).drop (j - i) = str.drop j := by
    rw [List.drop_drop, Nat.add_sub_cancel' hij]
  rw [← hdrop, slice, List.take_append_drop]

/-- The loop over the rest of a text finds the tokens that a scan finds. -/
theorem seperateLoop_of_cut {off : ℕ} {spans : List (ℕ × ℕ)} (h : Cut str delimiter off spans) :
    ∀ n, str.length - off < n → seperateLoop delimiter n (str.drop off) = spans.map (slice str) := by
  induction h with
  | done hoff =>
    intro n _
    rw [List.drop_eq_nil_of_le hoff]
    exact seperateLoop_nil delimiter n
  | delimiter hd _ ih =>
    intro n hn
    obtain ⟨hlt, rfl⟩ := List.getElem?_eq_some_iff.mp hd
    rw [List.drop_eq_getElem_cons hlt, seperateLoop_delimiter]
    exact ih n (by omega)
  | @token p q spans hlt hle hfree hend hrest ih =>
    intro n hn
    obtain ⟨n, rfl⟩ : ∃ j, n = j + 1 := ⟨n - 1, by omega⟩
    obtain ⟨hne, hd⟩ := ((Cut.token hlt hle hfree hend hrest).isToken (p, q) List.mem_cons_self).slice
    have hhead : ∀ x ∈ (str.drop q).head?, x = delimiter := by
      intro x hx
      rw [List.head?_drop] at hx
      rcases hend with rfl | hq
      · rw [List.getElem?_eq_none le_rfl] at hx
        cases hx
      · rw [hq] at hx
        exact (Option.some_inj.mp hx).symm
    rw [drop_slice hlt.le, seperateLoop_word n hne hd hhead, ih n (by omega), List.map_cons]

/-- **The formula parser works with these tokens.** -/
theorem calculate_tokens (t : Text) (delimiter : Byte) :
    Cache.CheckRevision.seperateString t delimiter = seperateString [] t delimiter 0 := by
  obtain ⟨spans, hcut, heq⟩ := cut_seperateString [] t delimiter 0
  rw [heq, List.nil_append]
  exact seperateLoop_of_cut hcut _ (by omega)

end Blitzd.Text.Parser
