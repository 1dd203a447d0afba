import Blitzd.Cache.DataMap

/-! # Keys without case

The functions of `CacheFunc.h` that the maps of the caches are built with. The hash goes over all the characters of a
`std::string` and sees those above 127 as negative numbers, while the comparisons are `strcasecmp`, which goes over bytes
and stops at a zero byte.

`keys_coherent`: on strings without a zero byte they fit together, and a key is found in a hash table exactly if it
is found in an ordered map with the same entries. -/

namespace Blitzd.Cache.CacheFunc

open Blitzd.Lib.Bytes Blitzd.Lib.KeyMap Blitzd.Utils.CString

/-! ### The functions -/

/-- `std::tolower` of a `char`. A character above 127 is negative, for which the library promises nothing: it gives
`neg`. -/
def tolowerChar (neg : Byte → ℤ) (c : Byte) : ℤ := if c < 128 then (tolower c).toNat else neg c

/-- The loop of `LowerCaseHash`; the `int` of `tolower` is extended to a `size_t`. -/
def hashLoop (neg : Byte → ℤ) : UInt64 → Text → UInt64
  | r, [] => r
  | r, c :: s => hashLoop neg ((r <<< 5) ^^^ UInt64.ofInt (tolowerChar neg c)) s

/-- `LowerCaseHash`. -/
def lowerCaseHash (neg : Byte → ℤ) (s : Text) : UInt64 := hashLoop neg 5181 s

/-- `strcasecmp`, which is `_STR.strcmpi`; behind a text there is a zero byte. -/
def strcasecmp : Text → Text → ℤ
  | [], [] => 0
  | [], d :: _ => - (tolower d).toNat
  | c :: _, [] => (tolower c).toNat
  | c :: s, d :: t =>
    if tolower c = tolower d then if c = 0 then 0 else strcasecmp s t
    else (tolower c).toNat - (tolower d).toNat

/-- `CompareInCaseLess`. -/
def compareInCaseLess (s t : Text) : Bool := strcasecmp s t < 0

/-- `CompareInCaseEqual`. -/
def compareInCaseEqual (s t : Text) : Bool := strcasecmp s t = 0

/-! ### The comparisons -/

theorem toNat_tolower_pos {c : Byte} (h : c ≠ 0) : 0 < (tolower c).toNat := by
  have hc : c.toNat ≠ 0 := fun h' => h (UInt8.toNat_inj.mp h')
  unfold tolower
  split_ifs with hupper
  · have h65 := UInt8.le_iff_toNat_le.mp hupper.1
    have h90 := UInt8.le_iff_toNat_le.mp hupper.2
    rw [show (65 : UInt8).toNat = 65 from rfl] at h65
    rw [show (90 : UInt8).toNat = 90 from rfl] at h90
    rw [UInt8.toNat_add, show (32 : UInt8).toNat = 32 from rfl]
    omega
  · omega

theorem tolower_eq_zero {c : Byte} : tolower c = 0 ↔ c = 0 := by
  constructor
  · intro h
    by_contra hc
    have := toNat_tolower_pos hc
    rw [h] at this
    exact absurd this (by decide)
  · rintro rfl
    rfl

theorem lower_nil : lower [] = [] := rfl

theorem lower_cons (c : Byte) (s : Text) : lower (c :: s) = tolower c :: lower s := rfl

theorem cstr_cons {c : Byte} (h : c ≠ 0) (s : Text) : cstr (c :: s) = c :: cstr s :=
  List.takeWhile_cons_of_pos (by simpa using h)

/-- Nothing is compared behind a zero byte. -/
theorem strcasecmp_cstr : ∀ s t : Text, strcasecmp s t = strcasecmp (cstr s) (cstr t)
  | [], [] => rfl
  | [], d :: t => by
    by_cases hd : d = 0
    · subst hd
      rfl
    · rw [cstr_cons hd]
      rfl
  | c :: s, [] => by
    by_cases hc : c = 0
    · subst hc
      rfl
    · rw [cstr_cons hc]
      rfl
  | c :: s, d :: t => by
    have htail := strcasecmp_cstr s t
    by_cases hc : c = 0 <;> by_cases hd : d = 0
    · subst hc hd
      rfl
    · subst hc
      have hne : tolower 0 ≠ tolower d := fun h => hd (tolower_eq_zero.mp h.symm)
      rw [cstr_cons hd, strcasecmp, if_neg hne]
      exact Int.zero_sub _
    · subst hd
      have hne : tolower c ≠ tolower 0 := fun h => hc (tolower_eq_zero.mp h)
      rw [cstr_cons hc, strcasecmp, if_neg hne]
      exact Int.sub_zero _
    · rw [cstr_cons hc, cstr_cons hd, strcasecmp, strcasecmp, htail]

theorem strcasecmp_nulFree : ∀ {s t : Text}, NulFree s → NulFree t → (strcasecmp s t = 0 ↔ lower s = lower t) ∧
    (strcasecmp s t < 0 ↔ bytesLt (lower s) (lower t) = true)
  | [], [], _, _ => by simp [strcasecmp, lower_nil, bytesLt]
  | [], d :: t, _, ht => by
    have := toNat_tolower_pos (ht d List.mem_cons_self)
    simp only [strcasecmp, lower_cons, lower_nil, bytesLt, reduceCtorEq, iff_false, iff_true]
    omega
  | c :: s, [], hs, _ => by
    have := toNat_tolower_pos (hs c List.mem_cons_self)
    simp only [strcasecmp, lower_cons, lower_nil, bytesLt, reduceCtorEq, iff_false, Bool.false_eq_true]
    omega
  | c :: s, d :: t, hs, ht => by
    obtain ⟨heq, hlt⟩ := strcasecmp_nulFree (fun x hx => hs x (List.mem_cons_of_mem c hx))
      fun x hx => ht x (List.mem_cons_of_mem d hx)
    rw [strcasecmp, lower_cons, lower_cons, bytesLt, List.cons.injEq]
    by_cases hcd : tolower c = tolower d
    · rw [if_pos hcd, if_neg (hs c List.mem_cons_self), hcd]
      simp [heq, hlt]
    · have hne : (tolower c).toNat ≠ (tolower d).toNat := fun h => hcd (UInt8.toNat_inj.mp h)
      rw [if_neg hcd]
      simp only [UInt8.lt_iff_toNat_lt, hcd, false_and, iff_false]
      split_ifs
      · simp only [iff_true]
        omega
      · simp only [iff_false]
        omega
      · omega

/-- **What the sign of `strcasecmp` says.** -/
theorem strcasecmp_sign (s t : Text) : (strcasecmp s t = 0 ↔ lower (cstr s) = lower (cstr t)) ∧
    (strcasecmp s t < 0 ↔ bytesLt (lower (cstr s)) (lower (cstr t)) = true) := by
  rw [strcasecmp_cstr]
  exact strcasecmp_nulFree (nulFree_cstr s) (nulFree_cstr t)

/-! ### The hash -/

/-- `tolower` of a `char` is a function of the lower-case character. -/
theorem tolowerChar_eq (neg : Byte → ℤ) (c : Byte) :
    tolowerChar neg c = if tolower c < 128 then ((tolower c).toNat : ℤ) else neg (tolower c) := by
  unfold tolowerChar
  by_cases hupper : 65 ≤ c ∧ c ≤ 90
  · have h65 := UInt8.le_iff_toNat_le.mp hupper.1
    have h90 := UInt8.le_iff_toNat_le.mp hupper.2
    have hc : c < 128 := UInt8.lt_iff_toNat_lt.mpr (Nat.lt_of_le_of_lt h90 (by decide))
    have hlow : tolower c < 128 := by
      rw [tolower, if_pos hupper, UInt8.lt_iff_toNat_lt, UInt8.toNat_add]
      change 65 ≤ c.toNat at h65
      change c.toNat ≤ 90 at h90
      show (c.toNat + 32) % 2 ^ 8 < 128
      omega
    rw [if_pos hc, if_pos hlow]
  · rw [tolower, if_neg hupper]

theorem hashLoop_congr (neg : Byte → ℤ) : ∀ {s t : Text}, lower s = lower t → ∀ r, hashLoop neg r s = hashLoop neg r t
  | [], [], _, _ => rfl
  | c :: s, d :: t, h, r => by
    obtain ⟨hcd, hst⟩ := List.cons.inj h
    rw [hashLoop, hashLoop, tolowerChar_eq neg c, tolowerChar_eq neg d, hcd, hashLoop_congr neg hst]

/-! ### The maps -/

theorem compareInCaseEqual_eq (s t : Text) : compareInCaseEqual s t = strcmpiEq s t :=
  Bool.eq_iff_iff.mpr (by rw [compareInCaseEqual, decide_eq_true_iff, strcmpiEq_iff, (strcasecmp_sign s t).1])

theorem compareInCaseLess_eq (s t : Text) : compareInCaseLess s t = strcmpiLt s t :=
  Bool.eq_iff_iff.mpr (by rw [compareInCaseLess, decide_eq_true_iff, (strcasecmp_sign s t).2, strcmpiLt])

/-- The keys as `CompareInCaseEqual` compares them. -/
def keys : KeyEq Name where
  eqv s t := compareInCaseEqual s t
  refl s := by rw [compareInCaseEqual_eq, strcmpiEq_refl]
  symm h := by
    rw [compareInCaseEqual_eq] at h ⊢
    exact strcmpiEq_symm h
  trans h h' := by
    rw [compareInCaseEqual_eq] at h h' ⊢
    exact strcmpiEq_trans h h'

theorem keys_order : KeyOrder keys fun s t => compareInCaseLess s t where
  eqv_iff {s t} := by
    show compareInCaseEqual s t = true ↔ _
    rw [compareInCaseEqual_eq, compareInCaseLess_eq, compareInCaseLess_eq]
    exact nameEq_order.eqv_iff
  trans h h' := by
    rw [compareInCaseLess_eq] at h h' ⊢
    exact nameEq_order.trans h h'

theorem lowerCaseHash_congr (neg : Byte → ℤ) {s t : Name} (h : compareInCaseEqual s t = true) :
    lowerCaseHash neg s = lowerCaseHash neg t := by
  rw [compareInCaseEqual_eq, strcmpiEq_iff, cstr_of_nulFree s.2, cstr_of_nulFree t.2] at h
  exact hashLoop_congr neg h 5181

/-- **Keys without case are coherent**: equal keys have the same hash, the comparison for equality is an equivalence, the
other one a strict weak order whose incomparable keys are the equal ones; and a lookup finds the same in a hash table
of any size and in an ordered map. -/
theorem keys_coherent {ν : Type*} (neg : Byte → ℤ) :
    (∀ s t : Name, compareInCaseEqual s t = true → lowerCaseHash neg s = lowerCaseHash neg t) ∧
      Equivalence (fun s t : Name => compareInCaseEqual s t = true) ∧
      IsStrictWeakOrder Name (fun s t => compareInCaseLess s t = true) ∧
      (∀ s t : Name, compareInCaseEqual s t = true ↔ compareInCaseLess s t = false ∧ compareInCaseLess t s = false) ∧
      ∀ m : List (Name × ν), Ordered (fun s t : Name => compareInCaseLess s t) m → ∀ buckets k,
        hashFind (fun s : Name => (lowerCaseHash neg s).toNat) (fun s t : Name => compareInCaseEqual s t) buckets m k =
          treeFind (fun s t : Name => compareInCaseLess s t) m k := by
  refine ⟨fun s t => lowerCaseHash_congr neg, ⟨keys.refl, keys.symm, keys.trans⟩, keys_order.isStrictWeakOrder,
    fun s t => keys_order.eqv_iff, fun m hm buckets k => ?_⟩
  rw [hm.treeFind_eq keys_order]
  exact hashFind_eq (e := keys) (fun s t h => congrArg UInt64.toNat (lowerCaseHash_congr neg h)) buckets m k

/-- Two spellings of a name. -/
theorem keys_coherent_diablo :
    let s : Name := ⟨str "Diablo", nulFree_str (by decide)⟩
    let t : Name := ⟨str "DIABLO", nulFree_str (by decide)⟩
    compareInCaseEqual s t = true ∧ lowerCaseHash (·.toInt8.toInt) s = lowerCaseHash (·.toInt8.toInt) t :=
  ⟨by decide, (keys_coherent (ν := Unit) (·.toInt8.toInt)).1 _ _ (by decide)⟩

end Blitzd.Cache.CacheFunc
