import Mathlib.Data.Nat.Basic
import Mathlib.Logic.Function.Basic

/-! # A heap of objects

Objects are allocated one after the other and never freed; a pointer is the number of its object.
Cells from `brk` on are not allocated. `Extends f h h'`: `h'` came from `h` by allocations and by
changes that keep what `f` reads of the objects that were there. -/

namespace Blitzd.Lib

variable {α β : Type*}

structure Heap (α : Type*) where
  cell : ℕ → α
  brk : ℕ

namespace Heap

/-- No object allocated. -/
def empty [Inhabited α] : Heap α := ⟨fun _ => default, 0⟩

/-- A new object; its pointer is the old `brk`. -/
def alloc (h : Heap α) (a : α) : Heap α := ⟨Function.update h.cell h.brk a, h.brk + 1⟩

/-- The object of a pointer changed in place. -/
def modify (h : Heap α) (p : ℕ) (f : α → α) : Heap α :=
  { h with cell := Function.update h.cell p (f (h.cell p)) }

@[simp] theorem alloc_brk (h : Heap α) (a : α) : (h.alloc a).brk = h.brk + 1 := rfl

@[simp] theorem alloc_new (h : Heap α) (a : α) : (h.alloc a).cell h.brk = a :=
  Function.update_self _ _ _

theorem alloc_old (h : Heap α) (a : α) {p : ℕ} (hp : p < h.brk) :
    (h.alloc a).cell p = h.cell p := Function.update_of_ne (by omega) _ _

@[simp] theorem modify_brk (h : Heap α) (p : ℕ) (f : α → α) : (h.modify p f).brk = h.brk := rfl

@[simp] theorem modify_self (h : Heap α) (p : ℕ) (f : α → α) :
    (h.modify p f).cell p = f (h.cell p) := Function.update_self _ _ _

theorem modify_ne (h : Heap α) {p q : ℕ} (f : α → α) (hq : q ≠ p) :
    (h.modify p f).cell q = h.cell q := Function.update_of_ne hq _ _

theorem cell_modify (h : Heap α) (p q : ℕ) (f : α → α) :
    (h.modify p f).cell q = if q = p then f (h.cell p) else h.cell q := Function.update_apply _ _ _ _

/-- What a change keeps of its object stays the same of every object. -/
theorem modify_keeps (g : α → β) (h : Heap α) {p : ℕ} {f : α → α} (hf : g (f (h.cell p)) = g (h.cell p)) (q : ℕ) :
    g ((h.modify p f).cell q) = g (h.cell q) := by
  rw [cell_modify]
  split_ifs with hq
  · rw [hf, hq]
  · rfl

end Heap

/-- The allocated objects of `h` are still there in `h'`, and `f` reads the same of them. -/
structure Heap.Extends (f : α → β) (h h' : Heap α) : Prop where
  brk : h.brk ≤ h'.brk
  cell : ∀ p < h.brk, f (h'.cell p) = f (h.cell p)

namespace Heap.Extends

variable {f : α → β} {h h' h'' : Heap α}

theorem refl (f : α → β) (h : Heap α) : Extends f h h := ⟨le_rfl, fun _ _ => rfl⟩

theorem trans (h1 : Extends f h h') (h2 : Extends f h' h'') : Extends f h h'' :=
  ⟨Nat.le_trans h1.brk h2.brk, fun p hp => by
    rw [h2.cell p (Nat.lt_of_lt_of_le hp h1.brk), h1.cell p hp]⟩

/-- What reads less sees no more. -/
theorem mono {γ : Type*} {g : α → γ} (h1 : Extends f h h') (hg : ∀ a b, f a = f b → g a = g b) :
    Extends g h h' := ⟨h1.brk, fun p hp => hg _ _ (h1.cell p hp)⟩

theorem alloc (f : α → β) (h : Heap α) (a : α) : Extends f h (h.alloc a) :=
  ⟨Nat.le_succ _, fun _ hp => by rw [alloc_old h a hp]⟩

/-- A change that `f` does not see. -/
theorem modify (h : Heap α) (p : ℕ) {u : α → α} (hu : ∀ a, f (u a) = f a) :
    Extends f h (h.modify p u) := by
  refine ⟨le_rfl, fun q _ => ?_⟩
  by_cases hq : q = p
  · subst hq; rw [modify_self, hu]
  · rw [modify_ne h u hq]

/-- A change of an object that was not there. -/
theorem modify_new (h1 : Extends f h h') {p : ℕ} (hp : h.brk ≤ p) (u : α → α) :
    Extends f h (h'.modify p u) :=
  ⟨h1.brk, fun q hq => by rw [modify_ne h' u (by omega), h1.cell q hq]⟩

end Heap.Extends

end Blitzd.Lib
