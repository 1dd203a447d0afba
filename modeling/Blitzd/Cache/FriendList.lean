import Mathlib.Data.List.InsertIdx
import Mathlib.Data.List.Nodup
import Blitzd.Lib.Shift
import Blitzd.Cache.UserLoad

/-! # Friend lists

The friend lists of all accounts form a graph, in which every entry keeps a flag that is meant to say whether
the friend lists the account in turn. `Amity h`: the flags are right and no list names anybody twice.
`AddFriend` keeps that (`Amity.addFriend`), and so does whatever a lookup loads (`Amity.lookup`); taking an entry
out keeps it when the friend does not list the account (`Amity.erase`). The loops of `RemoveFriend` and
`MoveFriend` take out and move entries only where entries are equal (`removes_iff`, `moves_iff`).

What a lookup keeps of the friend lists is proved from what its three kinds of changes keep (`LoadRule`). -/

namespace Blitzd.Cache

open Blitzd.Lib Blitzd.Lib.Bytes Blitzd.Lib.Shift

namespace UserCacheItem

/-- `GetFriend`, `none` for `NULL`. -/
def getFriend (u : UserCacheItem) (idx : ℕ) : Option Friend := u.friendList[idx]?

/-- `RemoveFriend(idx)`. -/
def removeFriend (u : UserCacheItem) (idx : ℕ) : Bool × UserCacheItem :=
  if idx ≥ u.friendList.length then (false, u)
  else
    let l := if u.friendList.length > idx + 1 then smear u.friendList idx else u.friendList
    (true, { u with friendList := l.take (l.length - 1), friendDirty := true })

/-- `MoveFriend`; what it puts at `idx2` in the end is what then stands at `idx1`, for `fr` is a reference. -/
def moveFriend (u : UserCacheItem) (idx1 idx2 : ℕ) : Bool × UserCacheItem :=
  if idx1 ≥ u.friendList.length then (false, u)
  else if idx2 ≥ u.friendList.length then (false, u)
  else if idx1 = idx2 then (true, u)
  else
    let l := if idx1 < idx2 then copyUp u.friendList idx1 idx2 else copyDown u.friendList idx1 idx2
    (true, { u with friendList := copy l idx2 idx1, friendDirty := true })

theorem core_removeFriend (u : UserCacheItem) (idx : ℕ) : (u.removeFriend idx).2.core = u.core := by
  unfold removeFriend
  split_ifs <;> rfl

theorem core_moveFriend (u : UserCacheItem) (idx1 idx2 : ℕ) : (u.moveFriend idx1 idx2).2.core = u.core := by
  unfold moveFriend
  split_ifs <;> rfl

theorem findFriend_eq (u : UserCacheItem) (p : Ptr) :
    u.findFriend p = (u.friendList.map Friend.user).findIdx? fun q => q = p := by
  rw [findFriend, List.findIdx?_map]
  rfl

theorem friendList_removeFriend {u : UserCacheItem} {idx : ℕ} (h : idx < u.friendList.length) :
    (u.removeFriend idx).2.friendList = (smear u.friendList idx).take (u.friendList.length - 1) := by
  have hlen : (smear u.friendList idx).length = u.friendList.length := by
    rw [smear_eq h, List.length_append, List.length_take, List.length_replicate]
    omega
  rw [removeFriend, if_neg (by omega)]
  by_cases hlast : u.friendList.length > idx + 1
  · rw [if_pos hlast]
    dsimp only
    rw [hlen]
  · -- the loop does not run
    have hsmear : smear u.friendList idx = u.friendList := by
      rw [smear, show u.friendList.length - 1 - idx = 0 by omega]
      rfl
    rw [if_neg hlast, hsmear]

/-- An entry that is one of the last two is taken out. -/
theorem friendList_removeFriend_last {u : UserCacheItem} {idx : ℕ} (h : idx < u.friendList.length)
    (hlast : u.friendList.length ≤ idx + 2) : (u.removeFriend idx).2.friendList = u.friendList.eraseIdx idx := by
  rw [friendList_removeFriend h, smear_last h hlast]

/-- `RemoveFriend(idx)` does what it is for: it takes the entry at `idx` out, and refuses an index behind the
list. -/
def Removes (u : UserCacheItem) (idx : ℕ) : Prop :=
  if idx < u.friendList.length then
    (u.removeFriend idx).1 = true ∧ (u.removeFriend idx).2.friendList = u.friendList.eraseIdx idx
  else (u.removeFriend idx).1 = false ∧ (u.removeFriend idx).2.friendList = u.friendList ∧
    (u.removeFriend idx).2.friendDirty = u.friendDirty

/-- **The loop walks the wrong way**: an entry is taken out exactly when all entries behind it are equal. -/
theorem removes_iff (u : UserCacheItem) (idx : ℕ) :
    u.Removes idx ↔ ∀ f ∈ u.friendList.drop (idx + 1), ∀ g ∈ u.friendList.drop (idx + 1), f = g := by
  unfold Removes
  by_cases h : idx < u.friendList.length
  · have htrue : (u.removeFriend idx).1 = true := by rw [removeFriend, if_neg (by omega)]
    have hiff := map_smear_iff (fun f : Friend => f) h
    simp only [List.map_id'] at hiff
    rw [if_pos h, friendList_removeFriend h, and_iff_right htrue, hiff]
  · have hfalse : u.removeFriend idx = (false, u) := if_pos (by omega)
    have hnil : u.friendList.drop (idx + 1) = [] := List.drop_eq_nil_of_le (by omega)
    rw [if_neg h, hfalse, hnil]
    exact iff_of_true ⟨rfl, rfl, rfl⟩ fun f hf => absurd hf List.not_mem_nil

/-- Of three friends the first is removed: the second goes too, and the third stands twice. -/
theorem first_of_three_not_removed :
    let u := { UserCacheItem.new [] (Buf.zero 20) with friendList := [⟨false, 1⟩, ⟨false, 2⟩, ⟨false, 3⟩] }
    (u.removeFriend 0).2.friendList = [⟨false, 3⟩, ⟨false, 3⟩] ∧ ¬ u.Removes 0 := by
  refine ⟨by decide, fun h => ?_⟩
  exact absurd h.2 (by decide)

/-- The friend moved down over the friends `c` is lost, and the first of them stands twice. -/
theorem friendList_moveFriend_up (u : UserCacheItem) {a b : List Friend} (c : List Friend) {x : Friend}
    (h : u.friendList = a ++ x :: (c ++ b)) :
    (u.moveFriend a.length (a.length + c.length)).2.friendList = a ++ (c ++ c.headD x :: b) := by
  have hlen : u.friendList.length = a.length + (c.length + b.length + 1) := by rw [h]; simp
  rw [moveFriend, if_neg (by omega), if_neg (by omega)]
  by_cases hc : c.length = 0
  · obtain rfl := List.eq_nil_of_length_eq_zero hc
    rw [if_pos (by simp)]
    exact h
  · rw [if_neg (by omega), if_pos (by omega)]
    dsimp only
    rw [h, copy_copyUp]

/-- The friend moved up over the friends `c` is lost, and the last of them stands twice. -/
theorem friendList_moveFriend_down (u : UserCacheItem) {a b : List Friend} (c : List Friend) {x : Friend}
    (h : u.friendList = a ++ (c ++ x :: b)) :
    (u.moveFriend (a.length + c.length) a.length).2.friendList = a ++ c.getLastD x :: (c ++ b) := by
  have hlen : u.friendList.length = a.length + (c.length + (b.length + 1)) := by rw [h]; simp
  rw [moveFriend, if_neg (by omega), if_neg (by omega)]
  by_cases hc : c.length = 0
  · obtain rfl := List.eq_nil_of_length_eq_zero hc
    rw [if_pos (by simp)]
    exact h
  · rw [if_neg (by omega), if_neg (by omega)]
    dsimp only
    rw [h, copy_copyDown]

theorem moveFriend_fst {u : UserCacheItem} {i j : ℕ} (hi : i < u.friendList.length) (hj : j < u.friendList.length) :
    (u.moveFriend i j).1 = true := by
  rw [moveFriend, if_neg (by omega), if_neg (by omega)]
  split_ifs <;> rfl

/-- `MoveFriend(i, j)` does what it is for: it puts the entry at `i` in at `j` with the others in their order, and
`MoveFriend(j, i)` puts it back; with an index behind the list it refuses. -/
def Moves (u : UserCacheItem) (i j : ℕ) : Prop :=
  if i < u.friendList.length ∧ j < u.friendList.length then
    (u.moveFriend i j).1 = true ∧ (u.moveFriend i j).2.friendList = moveTo u.friendList i j ∧
      ((u.moveFriend i j).2.moveFriend j i).2.friendList = u.friendList
  else u.moveFriend i j = (false, u)

theorem moves_up {u : UserCacheItem} {a b c : List Friend} {x : Friend} (h : u.friendList = a ++ x :: (c ++ b)) :
    u.Moves a.length (a.length + c.length) ↔ c.headD x = x ∧ c.getLastD x = x := by
  have hlen : u.friendList.length = a.length + (c.length + b.length + 1) := by rw [h]; simp
  have hi : a.length < u.friendList.length := by omega
  have hj : a.length + c.length < u.friendList.length := by omega
  have hmove := friendList_moveFriend_up u c h
  have hback := friendList_moveFriend_down _ c hmove
  rw [Moves, if_pos ⟨hi, hj⟩, and_iff_right (moveFriend_fst hi hj), hback, hmove, h, moveTo_up]
  cases c using List.reverseRecOn <;> simp

theorem moves_down {u : UserCacheItem} {a b c : List Friend} {x : Friend} (h : u.friendList = a ++ (c ++ x :: b)) :
    u.Moves (a.length + c.length) a.length ↔ c.getLastD x = x ∧ c.headD x = x := by
  have hlen : u.friendList.length = a.length + (c.length + (b.length + 1)) := by rw [h]; simp
  have hi : a.length + c.length < u.friendList.length := by omega
  have hj : a.length < u.friendList.length := by omega
  have hmove := friendList_moveFriend_down u c h
  have hback := friendList_moveFriend_up _ c hmove
  rw [Moves, if_pos ⟨hi, hj⟩, and_iff_right (moveFriend_fst hi hj), hback, hmove, h, moveTo_down]
  cases c <;> simp

/-- The place next to `i` on the way to `j`. -/
def toward (i j : ℕ) : ℕ := if i < j then i + 1 else i - 1

/-- **The moved entry is overwritten before it is put in its place**: `MoveFriend` does what it is for exactly
when the entry equals the neighbour it is first moved past and, to be moved back, the one whose place it takes. -/
theorem moves_iff (u : UserCacheItem) (i j : ℕ) :
    u.Moves i j ↔ (i < u.friendList.length → j < u.friendList.length → i ≠ j →
      u.friendList[i]? = u.friendList[toward i j]? ∧ u.friendList[i]? = u.friendList[j]?) := by
  by_cases hin : i < u.friendList.length ∧ j < u.friendList.length
  swap
  · have hfalse : u.moveFriend i j = (false, u) := by
      rw [moveFriend]
      split_ifs with h₁ h₂ <;> first | rfl | exact absurd ⟨by omega, by omega⟩ hin
    rw [Moves, if_neg hin, hfalse]
    exact iff_of_true rfl fun h₁ h₂ => absurd ⟨h₁, h₂⟩ hin
  obtain ⟨hi, hj⟩ := hin
  rcases Nat.lt_trichotomy i j with hij | rfl | hij
  · obtain ⟨n, rfl⟩ := Nat.exists_eq_add_of_le hij.le
    obtain ⟨a, x, c, b, hl, rfl, rfl⟩ := exists_cut_up hj
    obtain ⟨y, c, rfl⟩ := List.exists_cons_of_length_pos (by omega : 0 < c.length)
    have hfirst : u.friendList[a.length]? = some x := by rw [hl]; simp
    have hnext : u.friendList[a.length + 1]? = some y := by rw [hl]; simp
    have hlast : u.friendList[a.length + (y :: c).length]? = some ((y :: c).getLastD x) := by
      rw [hl, getElem?_getLastD]
    rw [moves_up hl, toward, if_pos hij, hfirst, hnext, hlast, Option.some.injEq, Option.some.injEq, eq_comm,
      @eq_comm _ _ x]
    exact ⟨fun h _ _ _ => h, fun h => h hi hj (Nat.ne_of_lt hij)⟩
  · have hself : u.moveFriend i i = (true, u) := by
      rw [moveFriend, if_neg (by omega), if_neg (by omega), if_pos rfl]
    rw [Moves, if_pos ⟨hi, hj⟩, hself, moveTo_self hi, hself]
    exact iff_of_true ⟨rfl, rfl, rfl⟩ fun _ _ h => absurd rfl h
  · obtain ⟨n, rfl⟩ := Nat.exists_eq_add_of_le hij.le
    obtain ⟨a, c, x, b, hl, rfl, rfl⟩ := exists_cut_down hi
    obtain ⟨c, y, rfl⟩ := (List.eq_nil_or_concat' c).resolve_left (by rintro rfl; exact absurd hij (by simp))
    have hlast : u.friendList[a.length + (c ++ [y]).length]? = some x := by rw [hl]; simp
    have hnext : u.friendList[a.length + (c ++ [y]).length - 1]? = some y := by rw [hl]; simp
    have hfirst : u.friendList[a.length]? = some ((c ++ [y]).headD x) := by rw [hl, getElem?_headD]
    rw [moves_down hl, toward, if_neg (by omega), hfirst, hnext, hlast, Option.some.injEq, Option.some.injEq, eq_comm,
      @eq_comm _ _ x, List.getLastD_concat]
    exact ⟨fun h _ _ _ => h, fun h => h hi hj (Nat.ne_of_gt hij)⟩

/-- Of two friends the first is moved behind the second: it is lost, the second stands twice, and the move back does
not bring it back. -/
theorem first_of_two_not_moved :
    let u := { UserCacheItem.new [] (Buf.zero 20) with friendList := [⟨false, 1⟩, ⟨false, 2⟩] }
    (u.moveFriend 0 1).2.friendList = [⟨false, 2⟩, ⟨false, 2⟩] ∧
      ((u.moveFriend 0 1).2.moveFriend 1 0).2.friendList = [⟨false, 2⟩, ⟨false, 2⟩] ∧ ¬ u.Moves 0 1 := by
  refine ⟨by decide, by decide, fun h => ?_⟩
  exact absurd h.2.1 (by decide)

end UserCacheItem

/-- What `AddFriend` leaves in `*mutIdx`, which was `-1`. -/
def mutIdx (h : Heap UserCacheItem) (self u : Ptr) : Option ℕ :=
  if u = self then none
  else if (h.cell self).findFriend u ≠ none then none
  else if (h.cell self).friendList.length > 20 then none
  else (h.cell u).findFriend self

/-! ### The graph -/

def friends (h : Heap UserCacheItem) (p : Ptr) : List Friend := (h.cell p).friendList

def users (h : Heap UserCacheItem) (p : Ptr) : List Ptr := (friends h p).map Friend.user

/-- `p` has an entry for `q`. -/
def Lists (h : Heap UserCacheItem) (p q : Ptr) : Prop := q ∈ users h p

instance (h : Heap UserCacheItem) (p q : Ptr) : Decidable (Lists h p q) :=
  inferInstanceAs (Decidable (q ∈ users h p))

variable {h h' : Heap UserCacheItem} {p q self u : Ptr} {b : ℕ}

theorem isSome_findFriend : ((h.cell p).findFriend q).isSome = decide (Lists h p q) := by
  rw [UserCacheItem.findFriend_eq, List.findIdx?_isSome, Bool.eq_iff_iff]
  simp [Lists, users, friends]

theorem findFriend_eq_none : (h.cell p).findFriend q = none ↔ ¬ Lists h p q := by
  rw [← Option.not_isSome_iff_eq_none, isSome_findFriend, decide_eq_true_iff]

/-- The index found is that of an entry. -/
theorem users_of_findFriend {i : ℕ} (hf : (h.cell p).findFriend q = some i) :
    ∃ f, (friends h p)[i]? = some f ∧ f.user = q := by
  obtain ⟨hi, hq, -⟩ := List.findIdx?_eq_some_iff_getElem.mp hf
  exact ⟨_, List.getElem?_eq_getElem hi, by simpa using hq⟩

/-- The mark for `self` in a list. -/
def mark (self : Ptr) (f : Friend) : Friend := if f.user = self then { f with isMutual := true } else f

theorem user_mark (self : Ptr) (f : Friend) : (mark self f).user = f.user := by
  unfold mark
  split_ifs <;> rfl

theorem map_mark_of_not_mem {l : List Friend} (hl : self ∉ l.map Friend.user) : l.map (mark self) = l := by
  have hid : ∀ f ∈ l, mark self f = id f := by
    intro f hf
    have hne : f.user ≠ self := fun e => hl (e ▸ List.mem_map_of_mem hf)
    exact if_neg hne
  rw [List.map_congr_left hid, List.map_id]

/-- The first entry for `self` marked: there is no other. -/
theorem modify_eq_map_mark {l : List Friend} (hn : (l.map Friend.user).Nodup) {j : ℕ}
    (hj : l.findIdx? (fun f => f.user = self) = some j) :
    l.modify j (fun f => { f with isMutual := true }) = l.map (mark self) := by
  induction l generalizing j with
  | nil => cases hj
  | cons f l ih =>
    rw [List.map_cons, List.nodup_cons] at hn
    rw [List.findIdx?_cons] at hj
    by_cases hf : f.user = self
    · rw [decide_eq_true hf, if_pos rfl, Option.some.injEq] at hj
      subst hj
      rw [List.map_cons, map_mark_of_not_mem (hf ▸ hn.1), mark, if_pos hf]
      rfl
    · rw [decide_eq_false hf, if_neg Bool.false_ne_true] at hj
      obtain ⟨i, hi, rfl⟩ := Option.map_eq_some_iff.mp hj
      rw [List.map_cons, List.modify_succ_cons, ih hn.2 hi, mark, if_neg hf]

theorem friends_modify (h : Heap UserCacheItem) (p q : Ptr) (f : UserCacheItem → UserCacheItem) :
    friends (h.modify p f) q = if q = p then (f (h.cell p)).friendList else friends h q := by
  rw [friends, Heap.cell_modify, apply_ite UserCacheItem.friendList, friends]

/-- `user->GetFriend(idx2)->mutual = true`, if `user` has an entry for `self`. -/
def markBack (h : Heap UserCacheItem) (self u : Ptr) : Heap UserCacheItem :=
  match (h.cell u).findFriend self with
  | some j => h.modify u fun x => x.setMutual j
  | none => h

theorem friends_markBack (hn : (users h u).Nodup) (p : Ptr) :
    friends (markBack h self u) p = if p = u then (friends h u).map (mark self) else friends h p := by
  unfold markBack
  rcases hj : (h.cell u).findFriend self with _ | j
  · dsimp only
    split_ifs with hp
    · rw [map_mark_of_not_mem (findFriend_eq_none.mp hj), hp]
    · rfl
  · dsimp only
    rw [friends_modify]
    split_ifs with hp
    · exact modify_eq_map_mark hn hj
    · rfl

theorem users_markBack (h : Heap UserCacheItem) (self u p : Ptr) : users (markBack h self u) p = users h p := by
  unfold markBack
  rcases (h.cell u).findFriend self with _ | j
  · rfl
  · dsimp only
    unfold users
    rw [friends_modify]
    split_ifs with hp
    · subst hp
      refine List.ext_getElem? fun i => ?_
      simp only [UserCacheItem.setMutual, List.getElem?_map, List.getElem?_modify, friends]
      rcases (h.cell p).friendList[i]? with _ | f
      · rfl
      · by_cases hi : j = i
        · simp [hi]
        · simp [hi]
    · rfl

/-- The outcomes of `AddFriend`: refused, an entry that was there, a new entry at the end. -/
theorem addFriend_outcome (h : Heap UserCacheItem) (self u : Ptr) :
    ((u = self ∨ ¬ Lists h self u ∧ 20 < (friends h self).length) ∧ addFriend h self (some u) = (h, none)) ∨
    (∃ i, u ≠ self ∧ (h.cell self).findFriend u = some i ∧ addFriend h self (some u) = (h, some i)) ∨
    (u ≠ self ∧ ¬ Lists h self u ∧ (friends h self).length ≤ 20 ∧ addFriend h self (some u) =
      ((markBack h self u).modify self fun x => x.pushFriend ⟨decide (Lists h u self), u⟩,
        some (friends h self).length)) := by
  unfold addFriend
  dsimp only
  by_cases hs : u = self
  · rw [if_pos hs]
    exact .inl ⟨.inl hs, rfl⟩
  rw [if_neg hs]
  rcases hf : (h.cell self).findFriend u with _ | i
  · dsimp only
    by_cases hl : (h.cell self).friendList.length > 20
    · rw [if_pos hl]
      exact .inl ⟨.inr ⟨findFriend_eq_none.mp hf, hl⟩, rfl⟩
    · rw [if_neg hl, isSome_findFriend]
      exact .inr (.inr ⟨hs, findFriend_eq_none.mp hf, Nat.le_of_not_gt hl, rfl⟩)
  · exact .inr (.inl ⟨i, hs, rfl, rfl⟩)

theorem users_push (h : Heap UserCacheItem) (self u : Ptr) (m : Bool) (p : Ptr) :
    users ((markBack h self u).modify self fun x => x.pushFriend ⟨m, u⟩) p =
      if p = self then users h self ++ [u] else users h p := by
  have hback := users_markBack h self u
  unfold users at hback ⊢
  rw [friends_modify]
  split_ifs with hp
  · rw [UserCacheItem.pushFriend, List.map_append, ← hback self]
    rfl
  · exact hback p

/-- A friend who is new to a list with room is put at its end. -/
theorem users_addFriend_new (hne : u ≠ self) (hno : u ∉ users h self) (hlen : (users h self).length ≤ 20) (p : Ptr) :
    users (addFriend h self (some u)).1 p = if p = self then users h self ++ [u] else users h p := by
  have hroom : ¬ 20 < (friends h self).length := by
    rw [users, List.length_map] at hlen
    omega
  rcases addFriend_outcome h self u with ⟨hrefused, -⟩ | ⟨i, -, hf, -⟩ | ⟨-, -, -, he⟩
  · rcases hrefused with rfl | ⟨-, hfull⟩
    · exact absurd rfl hne
    · exact absurd hfull hroom
  · rw [findFriend_eq_none.mpr hno] at hf
    cases hf
  · rw [he]
    exact users_push h self u _ p

theorem friends_push (hs : u ≠ self) (m : Bool) (hn : (users h u).Nodup) (p : Ptr) :
    friends ((markBack h self u).modify self fun x => x.pushFriend ⟨m, u⟩) p =
      if p = self then friends h self ++ [⟨m, u⟩]
      else if p = u then (friends h u).map (mark self) else friends h p := by
  have hback : ((markBack h self u).cell self).friendList = friends h self :=
    (friends_markBack hn self).trans (if_neg hs.symm)
  rw [friends_modify, friends_markBack hn p, UserCacheItem.pushFriend, hback]

/-! ### Right flags -/

/-- Nobody is listed twice, and the flag of an entry says whether the friend has an entry in turn. -/
structure Amity (h : Heap UserCacheItem) : Prop where
  fresh : ∀ {p}, h.brk ≤ p → friends h p = []
  allocated : ∀ {p q}, Lists h p q → q < h.brk
  nodup : ∀ p, (users h p).Nodup
  flag : ∀ {p f}, f ∈ friends h p → (f.isMutual = true ↔ Lists h f.user p)

theorem lists_of_mem {f : Friend} (hf : f ∈ friends h p) : Lists h p f.user := List.mem_map_of_mem hf

theorem Amity.congr (ha : Amity h) (hf : ∀ p, friends h' p = friends h p) (hb : h.brk ≤ h'.brk) : Amity h' := by
  have hu : ∀ p, users h' p = users h p := fun p => congrArg (List.map Friend.user) (hf p)
  have hl : ∀ {p q}, Lists h' p q ↔ Lists h p q := fun {p q} => by rw [Lists, hu, Lists]
  constructor
  · intro p hp
    rw [hf]
    exact ha.fresh (hb.trans hp)
  · exact fun hpq => (ha.allocated (hl.mp hpq)).trans_le hb
  · intro p
    rw [hu]
    exact ha.nodup p
  · intro p f hpf
    rw [hf] at hpf
    rw [hl]
    exact ha.flag hpf

/-- The entries once `self` has added `u`. -/
theorem Amity.flag_push (ha : Amity h) (hne : u ≠ self) {f : Friend}
    (hf : f ∈ if p = self then friends h self ++ [⟨decide (Lists h u self), u⟩]
      else if p = u then (friends h u).map (mark self) else friends h p) :
    f.isMutual = true ↔ Lists h f.user p ∨ (f.user = self ∧ p = u) := by
  split_ifs at hf with hp hp'
  · -- the list of `self`: an entry that was there, or the new one
    subst hp
    rcases List.mem_append.mp hf with hf | hf
    · rw [ha.flag hf, or_iff_left]
      rintro ⟨-, rfl⟩
      exact hne rfl
    · rw [List.mem_singleton.mp hf, decide_eq_true_iff, or_iff_left]
      rintro ⟨-, rfl⟩
      exact hne rfl
  · -- the list of the friend: the mark is set for `self` only
    subst hp'
    obtain ⟨f, hmem, rfl⟩ := List.mem_map.mp hf
    rw [user_mark]
    by_cases hfs : f.user = self
    · rw [mark, if_pos hfs]
      exact iff_of_true rfl (.inr ⟨hfs, rfl⟩)
    · rw [mark, if_neg hfs, ha.flag hmem, or_iff_left]
      exact fun hx => hfs hx.1
  · rw [ha.flag hf, or_iff_left]
    exact fun hx => hp' hx.2

theorem Amity.addFriend (ha : Amity h) (hs : self < h.brk) (hu : u < h.brk) :
    Amity (addFriend h self (some u)).1 := by
  rcases addFriend_outcome h self u with ⟨-, he⟩ | ⟨i, -, -, he⟩ | ⟨hne, hno, -, he⟩
  · rw [he]; exact ha
  · rw [he]; exact ha
  have hb : (Cache.addFriend h self (some u)).1.brk = h.brk := addFriend_brk h self (some u)
  have hfr := friends_push hne (decide (Lists h u self)) (ha.nodup u)
  have hus := users_push h self u (decide (Lists h u self))
  rw [he] at hb ⊢
  dsimp only at hb ⊢
  generalize ((markBack h self u).modify self fun x => x.pushFriend ⟨decide (Lists h u self), u⟩) = h' at *
  have hl : ∀ p q, Lists h' p q ↔ Lists h p q ∨ (p = self ∧ q = u) := by
    intro p q
    unfold Lists
    rw [hus]
    split_ifs with hp
    · subst hp
      simp
    · simp [hp]
  constructor
  · intro p hp
    rw [hb] at hp
    rw [hfr, if_neg (Nat.ne_of_gt (hs.trans_le hp)), if_neg (Nat.ne_of_gt (hu.trans_le hp))]
    exact ha.fresh hp
  · intro p q hpq
    rw [hb]
    rcases (hl p q).mp hpq with hpq | ⟨-, rfl⟩
    · exact ha.allocated hpq
    · exact hu
  · intro p
    rw [hus]
    split_ifs
    · exact List.nodup_append.mpr ⟨ha.nodup self, List.nodup_singleton u, by
        rintro a ha' b hb' rfl
        exact hno (List.mem_singleton.mp hb' ▸ ha')⟩
    · exact ha.nodup p
  · intro p f hf
    rw [hl]
    rw [hfr] at hf
    exact ha.flag_push hne hf

/-- Taking out the entry is taking out the friend, who is listed once. -/
theorem Amity.users_eraseIdx (ha : Amity h) {i : ℕ} {f : Friend} (hi : (friends h p)[i]? = some f) :
    ((friends h p).eraseIdx i).map Friend.user = (users h p).erase f.user := by
  obtain ⟨hlt, hget⟩ := List.getElem?_eq_some_iff.mp hi
  have hlt' : i < (users h p).length := by
    rw [users, List.length_map]
    exact hlt
  have hget' : (users h p)[i] = f.user := (List.getElem_map _).trans (congrArg Friend.user hget)
  rw [← List.eraseIdx_map, ← hget']
  exact ((ha.nodup p).erase_getElem i hlt').symm

/-- An entry is taken out whose friend does not list the account. -/
theorem Amity.erase (ha : Amity h) {i : ℕ} {f : Friend} (hi : (friends h p)[i]? = some f)
    (hno : ¬ Lists h f.user p) (hb : h'.brk = h.brk)
    (hfr : ∀ q, friends h' q = if q = p then (friends h p).eraseIdx i else friends h q) : Amity h' := by
  have hmem : f ∈ friends h p := List.mem_of_getElem? hi
  have hus : ∀ q, users h' q = if q = p then (users h p).erase f.user else users h q := by
    intro q
    unfold users
    rw [hfr]
    split_ifs
    · exact ha.users_eraseIdx hi
    · rfl
  have hl : ∀ q r, Lists h' q r ↔ Lists h q r ∧ ¬ (q = p ∧ r = f.user) := by
    intro q r
    unfold Lists
    rw [hus]
    split_ifs with hq
    · subst hq
      rw [(ha.nodup q).mem_erase_iff]
      tauto
    · tauto
  constructor
  · intro q hq
    rw [hb] at hq
    rw [hfr, ha.fresh hq]
    split_ifs with hqp
    · subst hqp
      rw [ha.fresh hq]
      rfl
    · rfl
  · intro q r hqr
    rw [hb]
    exact ha.allocated ((hl q r).mp hqr).1
  · intro q
    rw [hus]
    split_ifs
    · exact (ha.nodup p).erase _
    · exact ha.nodup q
  · intro q g hg
    have hg' : g ∈ friends h q := by
      rw [hfr] at hg
      split_ifs at hg with hq
      · exact hq ▸ List.mem_of_mem_eraseIdx hg
      · exact hg
    rw [hl, ha.flag hg', and_iff_left]
    rintro ⟨hgp, rfl⟩
    -- an entry for the account in the list of the friend
    exact hno (hgp ▸ lists_of_mem hg')

/-! ### Lookups -/

/-- Kept by what a load does: accounts are allocated and filled from their rows, and those from `b` on are given
friends. -/
structure LoadRule (b : ℕ) (I : Heap UserCacheItem → Prop) : Prop where
  alloc : ∀ {h x}, b ≤ h.brk → I h → x.friendList = [] → I (h.alloc x)
  fill : ∀ {h p f}, b ≤ p → I h → (∀ x : UserCacheItem, (f x).friendList = x.friendList) → I (h.modify p f)
  befriend : ∀ {h self u}, b ≤ self → self < h.brk → u < h.brk → I h → I (addFriend h self (some u)).1

namespace LoadRule

variable {I : Heap UserCacheItem → Prop} {env : Env} {s s' : Store} {key : Key} {a : Option Ptr}

theorem lookupWith (hI : I s.cache.heap) {load : Store → Key → Option (Option Ptr × Store)}
    (hload : ∀ a s', load s key = some (a, s') → I s'.cache.heap)
    (hl : lookupWith load s key = some (a, s')) : I s'.cache.heap := by
  unfold Cache.lookupWith at hl
  rcases hk : s.cache.findKey key with _ | q
  · rw [hk] at hl
    exact hload a s' hl
  · rw [hk] at hl
    obtain ⟨-, rfl⟩ := Prod.mk.inj (Option.some.inj hl)
    exact hI

theorem loadFriends (r : LoadRule b I) {k : ℕ}
    (hload : ∀ s key a s', b ≤ s.cache.heap.brk → Bounded s.cache → I s.cache.heap →
      loadUser env k s key = some (a, s') → I s'.cache.heap) (hself : b ≤ self) :
    ∀ (l : List UInt32) (s s' : Store), self < s.cache.heap.brk → Bounded s.cache → I s.cache.heap →
      loadFriends (loadUser env k) self l s = some s' → I s'.cache.heap
  | [], s, s', _, _, hI, hl => by
    rw [Cache.loadFriends, Option.some.injEq] at hl
    exact hl ▸ hI
  | i :: l, s, s', hlt, hb, hI, hl => by
    rw [Cache.loadFriends] at hl
    rcases hw : Cache.lookupWith (loadUser env k) s (.id i) with _ | ⟨f, s1⟩
    · rw [hw] at hl; cases hl
    rw [hw] at hl
    dsimp only at hl
    obtain ⟨hk, hf⟩ := lookupWith_keeps hb (fun a s' => loadUser_keeps k s (.id i) a s' hb) hw
    have hI1 : I s1.cache.heap := LoadRule.lookupWith hI
      (fun a s' hx => hload s (.id i) a s' (hself.trans hlt.le) hb hI hx) hw
    have hlt1 : self < s1.cache.heap.brk := hlt.trans_le hk.heap.brk
    have hk2 := keeps_setHeap hk.bounded (addFriend_extends s1.cache.heap self f)
    refine loadFriends r hload hself l _ s' (hlt1.trans_le hk2.heap.brk) hk2.bounded ?_ hl
    rcases f with _ | u
    · exact hI1
    · exact r.befriend hself hlt1 (hf u rfl) hI1

theorem loadUser (r : LoadRule b I) : ∀ (k : ℕ) (s : Store) (key : Key) (a : Option Ptr) (s' : Store),
    b ≤ s.cache.heap.brk → Bounded s.cache → I s.cache.heap → loadUser env k s key = some (a, s') →
      I s'.cache.heap
  | 0, _, _, _, _, _, _, _, hl => by cases hl
  | k + 1, s, key, a, s', hle, hb, hI, hl => by
    rcases loadUser_cases hl with ⟨j, row, hj, -, -, hl⟩ | ⟨n, -, -, -, rfl⟩
    · obtain rfl : k = j := by omega
      have hfill : ∀ x, (fillRow row x).friendList = x.friendList := fun x => by rw [fillRow_eq]
      have hI1 : I (addRow env s row).2.cache.heap := r.fill hle (r.alloc hle hI rfl) hfill
      exact r.loadFriends (loadUser r k) hle _ _ s' (Nat.lt_succ_self _) (keeps_addRow env hb row).bounded hI1 hl
    · exact r.alloc hle hI rfl

/-- **The rule for lookups.** -/
theorem lookup (r : LoadRule b I) {k : ℕ} (hle : b ≤ s.cache.heap.brk) (hb : Bounded s.cache)
    (hI : I s.cache.heap) (hl : lookup env k s key = some (a, s')) : I s'.cache.heap :=
  LoadRule.lookupWith hI (fun a s' => r.loadUser k s key a s' hle hb hI) hl

end LoadRule

theorem amity_loadRule : LoadRule 0 Amity where
  alloc := by
    intro h x _ ha hx
    refine ha.congr (fun p => ?_) (Nat.le_succ _)
    by_cases hp : p = h.brk
    · rw [ha.fresh hp.ge, hp]
      exact (congrArg _ (Heap.alloc_new h x)).trans hx
    · exact congrArg _ (Function.update_of_ne hp _ _)
  fill := by
    intro h p f _ ha hf
    refine ha.congr (fun q => ?_) le_rfl
    rw [friends_modify]
    split_ifs with hq
    · rw [hf, hq]
      rfl
    · rfl
  befriend := fun _ hs hu ha => ha.addFriend hs hu

/-- Whom the accounts below `b` list. -/
theorem users_loadRule (b : ℕ) (us : Ptr → List Ptr) : LoadRule b fun h => ∀ p < b, users h p = us p where
  alloc := by
    intro h x hle hI _ p hp
    rw [← hI p hp, users, friends, Heap.alloc_old h x (hp.trans_le hle)]
    rfl
  fill := by
    intro h q f hq hI _ p hp
    rw [← hI p hp, users, friends_modify, if_neg (Nat.ne_of_lt (hp.trans_le hq))]
    rfl
  befriend := by
    intro h self u hself _ _ hI p hp
    rcases addFriend_outcome h self u with ⟨-, he⟩ | ⟨i, -, -, he⟩ | ⟨hne, -, -, he⟩
    · rw [he]; exact hI p hp
    · rw [he]; exact hI p hp
    · rw [he, users_push, if_neg (Nat.ne_of_lt (hp.trans_le hself))]
      exact hI p hp

end Blitzd.Cache
