import Mathlib.Data.List.Induction

/-! # Paths and the places they lead to

A place in a tree of directories is the list of the names from its root. A path is a walk: each component
stays, goes up to the parent (the root is its own parent) or goes down to a name. `trail` is the normal form
of a walk, how far it climbs above its start and the names it then goes down by, and it alone decides where
the walk leads (`walk_eq`) and whether that is below the start (`prefix_walk_iff`).

A text is cut into components at a separator. An empty component and a single dot stay, two dots go up. -/

namespace Blitzd.Lib.Path

variable {α : Type*}

/-! ### Walks -/

inductive Step (α : Type*)
  | here
  | up
  | down (a : α)
deriving DecidableEq

def Step.move (l : List α) : Step α → List α
  | here => l
  | up => l.dropLast
  | down a => l ++ [a]

/-- The place a walk from `l` leads to. -/
def walk (l : List α) (s : List (Step α)) : List α := s.foldl Step.move l

theorem walk_append (l : List α) (s t : List (Step α)) : walk l (s ++ t) = walk (walk l s) t := List.foldl_append

/-- A walk that climbs first and then goes down. -/
structure Trail (α : Type*) where
  ups : ℕ
  names : List α

namespace Trail

def next (t : Trail α) : Step α → Trail α
  | .here => t
  | .up => match t.names with
    | [] => ⟨t.ups + 1, []⟩
    | _ :: _ => ⟨t.ups, t.names.dropLast⟩
  | .down a => ⟨t.ups, t.names ++ [a]⟩

/-- Where the trail leads from `l`. -/
def follow (t : Trail α) (l : List α) : List α := l.take (l.length - t.ups) ++ t.names

theorem follow_nil (t : Trail α) : t.follow [] = t.names := by
  rw [follow, List.take_nil, List.nil_append]

theorem follow_next (t : Trail α) (l : List α) (s : Step α) : (t.next s).follow l = s.move (t.follow l) := by
  obtain ⟨ups, names⟩ := t
  cases s with
  | here => rfl
  | up =>
    cases names with
    | nil =>
      -- at the top of the trail the climb goes on in `l`
      show l.take (l.length - (ups + 1)) ++ [] = (l.take (l.length - ups) ++ []).dropLast
      rw [List.append_nil, List.append_nil, List.dropLast_eq_take, List.take_take, List.length_take]
      congr 1
      omega
    | cons a names =>
      show l.take (l.length - ups) ++ (a :: names).dropLast = (l.take (l.length - ups) ++ a :: names).dropLast
      rw [List.dropLast_append_cons]
  | down a => exact (List.append_assoc _ _ _).symm

end Trail

/-- The normal form of a walk. -/
def trail (s : List (Step α)) : Trail α := s.foldl Trail.next ⟨0, []⟩

/-- **Where a walk leads** is decided by its normal form. -/
theorem walk_eq (l : List α) (s : List (Step α)) : walk l s = (trail s).follow l := by
  induction s using List.reverseRecOn with
  | nil => exact (List.take_length (l := l)).symm.trans (List.append_nil _).symm
  | append_singleton s x ih =>
    have htrail : trail (s ++ [x]) = (trail s).next x := List.foldl_append
    rw [walk_append, ih, htrail, Trail.follow_next]
    rfl

/-- **A walk leads to its start or below it** exactly when it goes down by the names it has climbed over. -/
theorem prefix_walk_iff (l : List α) (s : List (Step α)) :
    l <+: walk l s ↔ l.drop (l.length - (trail s).ups) <+: (trail s).names := by
  set k := l.length - (trail s).ups
  have hsplit : l <+: l.take k ++ (trail s).names ↔ l.take k ++ l.drop k <+: l.take k ++ (trail s).names := by
    rw [List.take_append_drop]
  rw [walk_eq, Trail.follow, hsplit, List.prefix_append_right_inj]

/-- A walk that never goes up does not climb. -/
theorem trail_ups_eq_zero {s : List (Step α)} (h : ∀ x ∈ s, x ≠ .up) : (trail s).ups = 0 := by
  refine List.foldlRecOn (motive := fun t : Trail α => t.ups = 0) s Trail.next rfl fun t ht x hx => ?_
  cases x with
  | here => exact ht
  | up => exact absurd rfl (h _ hx)
  | down a => exact ht

/-! ### Texts -/

section Text

variable [DecidableEq α] (sep dot : α)

/-- One component. -/
def step (c : List α) : Step (List α) :=
  if c = [] ∨ c = [dot] then .here else if c = [dot, dot] then .up else .down c

def steps (t : List α) : List (Step (List α)) := (t.splitOn sep).map (step dot)

/-- The place a text names for a process that works in `cwd`. A text that starts with a separator is walked
from the root. -/
def resolve (cwd : List (List α)) (t : List α) : List (List α) :=
  walk (if t.head? = some sep then [] else cwd) (steps sep dot t)

theorem steps_append (d n : List α) : steps sep dot (d ++ sep :: n) = steps sep dot d ++ steps sep dot n := by
  have hsplit : (d ++ sep :: n).splitOn sep = d.splitOn sep ++ n.splitOn sep :=
    List.splitOnP_append_cons d n (beq_self_eq_true sep)
  rw [steps, hsplit, List.map_append]
  rfl

/-- A text behind another one and a separator is walked from where that leads. -/
theorem resolve_append (cwd : List (List α)) {d : List α} (hd : d ≠ []) (n : List α) :
    resolve sep dot cwd (d ++ sep :: n) = walk (resolve sep dot cwd d) (steps sep dot n) := by
  obtain ⟨a, d, rfl⟩ := List.exists_cons_of_ne_nil hd
  rw [resolve, steps_append, walk_append]
  rfl

theorem resolve_cons (cwd : List (List α)) (n : List α) :
    resolve sep dot cwd (sep :: n) = walk [] (steps sep dot n) := by
  have hhere : steps sep dot [] = [.here] := rfl
  have happend := steps_append sep dot [] n
  rw [List.nil_append, hhere] at happend
  rw [resolve, happend, List.head?_cons, if_pos rfl]
  rfl

end Text

end Blitzd.Lib.Path
