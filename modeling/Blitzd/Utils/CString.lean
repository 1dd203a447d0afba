import Blitzd.Lib.Bytes

/-! # C strings

What the code does with `const char *`: a string ends at its first zero byte (`cstr`), `toupper` and
`tolower` change ASCII letters only (C locale), and `_STR.strcmpi` compares two strings letter by
letter without case. -/

namespace Blitzd.Utils.CString

open Blitzd.Lib.Bytes

/-- The string a `const char *` to these bytes denotes. -/
def cstr (t : Text) : Text := t.takeWhile (· ≠ 0)

def toupper (b : Byte) : Byte := if 97 ≤ b ∧ b ≤ 122 then b - 32 else b

def tolower (b : Byte) : Byte := if 65 ≤ b ∧ b ≤ 90 then b + 32 else b

/-- The string with its letters in lower case. -/
def lower (t : Text) : Text := t.map tolower

/-- `_STR.strcmpi(s, t) == 0`. -/
def strcmpiEq (s t : Text) : Bool := lower (cstr s) = lower (cstr t)

def bytesLt : Text → Text → Bool
  | _, [] => false
  | [], _ :: _ => true
  | x :: s, y :: t => if x < y then true else if y < x then false else bytesLt s t

/-- `_STR.strcmpi(s, t) < 0`. -/
def strcmpiLt (s t : Text) : Bool := bytesLt (lower (cstr s)) (lower (cstr t))

/-- `t` has no zero byte. -/
def NulFree (t : Text) : Prop := ∀ x ∈ t, x ≠ 0

instance (t : Text) : Decidable (NulFree t) := List.decidableBAll (fun x => x ≠ 0) t

theorem nulFree_nil : NulFree [] := by decide

/-- A literal is checked by its characters. -/
theorem nulFree_str {l : List Char} (h : l.all (fun c => UInt8.ofNat c.toNat != 0) = true) :
    NulFree (str (String.ofList l)) := by
  rw [str, String.toList_ofList]
  intro x hx
  obtain ⟨c, hc, rfl⟩ := List.mem_map.mp hx
  exact bne_iff_ne.mp (List.all_eq_true.mp h c hc)

theorem nulFree_cstr (t : Text) : NulFree (cstr t) := by
  intro x hx
  have h := List.all_takeWhile (p := fun b : Byte => decide (b ≠ 0)) (l := t)
  simpa using List.all_eq_true.mp h x hx

theorem cstr_of_nulFree : ∀ {t : Text}, NulFree t → cstr t = t
  | [], _ => rfl
  | x :: t, h => by
    have hx : x ≠ 0 := h x (by simp)
    have ih : cstr t = t := cstr_of_nulFree fun y hy => h y (by simp [hy])
    unfold cstr at ih ⊢
    rw [List.takeWhile_cons_of_pos (by simpa using hx), ih]

theorem cstr_append_zero {s : Text} (h : NulFree s) (t : Text) : cstr (s ++ 0 :: t) = s := by
  have hall : ∀ x ∈ s, decide (x ≠ 0) = true := fun x hx => decide_eq_true (h x hx)
  rw [cstr, List.takeWhile_append_of_pos hall, List.takeWhile_cons_of_neg (by simp), List.append_nil]

@[simp] theorem cstr_cstr (t : Text) : cstr (cstr t) = cstr t := cstr_of_nulFree (nulFree_cstr t)

theorem strcmpiEq_iff {s t : Text} : strcmpiEq s t = true ↔ lower (cstr s) = lower (cstr t) := by
  unfold strcmpiEq; exact decide_eq_true_iff

theorem strcmpiEq_refl (s : Text) : strcmpiEq s s = true := strcmpiEq_iff.mpr rfl

theorem strcmpiEq_symm {s t : Text} (h : strcmpiEq s t = true) : strcmpiEq t s = true :=
  strcmpiEq_iff.mpr (strcmpiEq_iff.mp h).symm

theorem strcmpiEq_trans {s t u : Text} (h : strcmpiEq s t = true) (h' : strcmpiEq t u = true) :
    strcmpiEq s u = true :=
  strcmpiEq_iff.mpr ((strcmpiEq_iff.mp h).trans (strcmpiEq_iff.mp h'))

/-! ### Names -/

/-- A string without a zero byte, as a stream or a `const char *` gives it. -/
abbrev Name := {t : Text // NulFree t}

instance : Inhabited Name := ⟨[], nulFree_nil⟩

theorem NulFree.append {s t : Text} (hs : NulFree s) (ht : NulFree t) : NulFree (s ++ t) := by
  intro x hx
  rcases List.mem_append.mp hx with h | h
  · exact hs x h
  · exact ht x h

theorem lower_append (s t : Text) : lower (s ++ t) = lower s ++ lower t := List.map_append

/-- What follows equal beginnings decides. -/
theorem strcmpiEq_append_left {s t u : Text} (hs : NulFree s) (ht : NulFree t) (hu : NulFree u) :
    strcmpiEq (s ++ t) (s ++ u) = strcmpiEq t u := by
  have h : strcmpiEq (s ++ t) (s ++ u) = true ↔ strcmpiEq t u = true := by
    rw [strcmpiEq_iff, strcmpiEq_iff, cstr_of_nulFree (hs.append ht), cstr_of_nulFree (hs.append hu),
      cstr_of_nulFree ht, cstr_of_nulFree hu, lower_append, lower_append, List.append_cancel_left_eq]
  exact Bool.eq_iff_iff.mpr h

/-! ### The order of strings -/

theorem eq_iff_bytesLt : ∀ s t : Text, s = t ↔ bytesLt s t = false ∧ bytesLt t s = false
  | [], [] => by simp [bytesLt]
  | [], _ :: _ => by simp [bytesLt]
  | _ :: _, [] => by simp [bytesLt]
  | x :: s, y :: t => by
    rw [bytesLt, bytesLt, List.cons.injEq]
    rcases Nat.lt_trichotomy x.toNat y.toNat with h | h | h
    · have hne : x ≠ y := fun e => absurd (congrArg UInt8.toNat e) (by omega)
      simp [UInt8.lt_iff_toNat_lt.mpr h, hne]
    · obtain rfl := UInt8.toNat_inj.mp h
      simp [eq_iff_bytesLt s t]
    · have hne : x ≠ y := fun e => absurd (congrArg UInt8.toNat e) (by omega)
      have hlt : y < x := UInt8.lt_iff_toNat_lt.mpr h
      have hnot : ¬ x < y := fun h' => by rw [UInt8.lt_iff_toNat_lt] at h'; omega
      simp [hlt, hnot, hne]

theorem bytesLt_trans : ∀ {s t u : Text}, bytesLt s t = true → bytesLt t u = true → bytesLt s u = true
  | _, [], _, h, _ => by simp [bytesLt] at h
  | _, _ :: _, [], _, h => by simp [bytesLt] at h
  | [], _ :: _, _ :: _, _, _ => rfl
  | x :: s, y :: t, z :: u, h, h' => by
    have ih := bytesLt_trans (s := s) (t := t) (u := u)
    simp only [bytesLt, UInt8.lt_iff_toNat_lt] at h h' ⊢
    split_ifs at h h' ⊢ <;> first | rfl | omega | exact ih h h'

end Blitzd.Utils.CString
