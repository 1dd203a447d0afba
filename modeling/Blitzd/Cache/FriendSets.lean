import Blitzd.Cache.FriendLoad

/-! # Who is on a friend list

The loops of `RemoveFriend` and `MoveFriend` leave friends on a list twice, and a list that was saved like that has them
once when it is loaded. What survives is who is on the list: a load gives every account it adds exactly the friends that
are stored for it, each once, and leaves the accounts that were there alone but for the flags of their friends
(`lookup_gathers`). -/

namespace Blitzd.Cache

open Blitzd.Lib Blitzd.Lib.Bytes Blitzd.Storage.Sqlite

/-- All of an account but the flags of its friends. -/
def UserCacheItem.unflagged (u : UserCacheItem) : UserCacheItem :=
  { u with friendList := u.friendList.map fun f => ⟨false, f.user⟩ }

namespace UserCacheItem

variable {u v : UserCacheItem}

theorem core_of_unflagged (h : u.unflagged = v.unflagged) : u.core = v.core := by
  have hcore : u.unflagged.core = v.unflagged.core := by rw [h]
  exact hcore

theorem friendDirty_of_unflagged (h : u.unflagged = v.unflagged) : u.friendDirty = v.friendDirty := by
  have hdirty : u.unflagged.friendDirty = v.unflagged.friendDirty := by rw [h]
  exact hdirty

theorem users_unflagged (u : UserCacheItem) : u.unflagged.friendList.map Friend.user = u.friendList.map Friend.user := by
  rw [unflagged, List.map_map]
  rfl

theorem unflagged_setMutual (u : UserCacheItem) (j : ℕ) : (u.setMutual j).unflagged = u.unflagged := by
  unfold unflagged setMutual
  congr 1
  refine List.ext_getElem? fun i => ?_
  simp only [List.getElem?_map, List.getElem?_modify]
  rcases u.friendList[i]? with _ | f
  · rfl
  · by_cases hi : j = i
    · simp [hi]
    · simp [hi]

end UserCacheItem

theorem users_of_unflagged {h h' : Heap UserCacheItem} {p : Ptr}
    (hu : (h'.cell p).unflagged = (h.cell p).unflagged) : users h' p = users h p := by
  rw [users, friends, ← UserCacheItem.users_unflagged, hu, UserCacheItem.users_unflagged]
  rfl

theorem unflagged_markBack (h : Heap UserCacheItem) (self u p : Ptr) :
    ((markBack h self u).cell p).unflagged = (h.cell p).unflagged := by
  unfold markBack
  split
  · exact h.modify_keeps UserCacheItem.unflagged (UserCacheItem.unflagged_setMutual _ _) p
  · rfl

/-- Befriending changes one account, but for flags. -/
theorem unflagged_addFriend {h : Heap UserCacheItem} {self p : Ptr} (hp : p ≠ self) (f : Option Ptr) :
    ((addFriend h self f).1.cell p).unflagged = (h.cell p).unflagged := by
  rcases f with _ | u
  · rfl
  · rcases addFriend_outcome h self u with ⟨-, he⟩ | ⟨i, -, -, he⟩ | ⟨-, -, -, he⟩
    · rw [he]
    · rw [he]
    · rw [he]
      dsimp only
      rw [Heap.modify_ne _ _ hp, unflagged_markBack]

theorem unflagged_loadRule (b : ℕ) (us : Ptr → UserCacheItem) :
    LoadRule b fun h => ∀ p < b, (h.cell p).unflagged = us p where
  alloc := by
    intro h x hle hI _ p hp
    rw [← hI p hp, Heap.alloc_old h x (hp.trans_le hle)]
  fill := by
    intro h q f hq hI _ p hp
    rw [← hI p hp, Heap.modify_ne h f (Nat.ne_of_lt (hp.trans_le hq))]
  befriend := by
    intro h self u hself _ _ hI p hp
    rw [← hI p hp, unflagged_addFriend (Nat.ne_of_lt (hp.trans_le hself))]

variable {env : Env} {s s' s₁ s₂ : Store} {p q self u : Ptr} {i me : UInt32} {e : Ptr → Prop}

/-! ### What a load puts on the lists -/

/-- Those on the list of `p` are the accounts of `is`, and if there are any then the list is to be saved. -/
structure Gathered (s : Store) (p : Ptr) (is : List UInt32) : Prop where
  cached : ∀ q ∈ users s.cache.heap p, ∃ j ∈ is, s.cache.findId j = some q
  listed : ∀ j ∈ is, ∃ q ∈ users s.cache.heap p, s.cache.findId j = some q
  length : (users s.cache.heap p).length ≤ is.length
  marked : (s.cache.get p).friendDirty = false → is = []

theorem Gathered.mono {is : List UInt32} (h : Gathered s p is)
    (hk : ∀ {i p}, s.cache.findId i = some p → s'.cache.findId i = some p)
    (hu : (s'.cache.get p).unflagged = (s.cache.get p).unflagged) : Gathered s' p is := by
  have husers : users s'.cache.heap p = users s.cache.heap p := users_of_unflagged hu
  refine ⟨fun q hq => ?_, fun j hj => ?_, ?_, fun hd => ?_⟩
  · rw [husers] at hq
    obtain ⟨j, hj, hf⟩ := h.cached q hq
    exact ⟨j, hj, hk hf⟩
  · obtain ⟨q, hq, hf⟩ := h.listed j hj
    exact ⟨q, husers ▸ hq, hk hf⟩
  · rw [husers]
    exact h.length
  · exact h.marked ((UserCacheItem.friendDirty_of_unflagged hu).symm.trans hd)

/-- The accounts that were there keep their lists, but for those of `e`, and the ones added have the stored ones. -/
structure Gathers (env : Env) (e : Ptr → Prop) (s s' : Store) : Prop where
  loaded : Loaded env s s'
  coherent : Coherent s'
  old : ∀ p < s.cache.heap.brk, ¬ e p → (s'.cache.get p).unflagged = (s.cache.get p).unflagged
  new : ∀ {i p}, s.cache.findId i = none → s'.cache.findId i = some p → Gathered s' p (storedFriends s.db i)

namespace Gathers

theorem refl (hc : Coherent s) : Gathers env e s s :=
  ⟨.refl s, hc, fun _ _ _ => rfl, fun h h' => by rw [h] at h'; cases h'⟩

theorem weaken {e' : Ptr → Prop} (h : Gathers env e s s') (he : ∀ p, e p → e' p) : Gathers env e' s s' :=
  ⟨h.loaded, h.coherent, fun p hp hep => h.old p hp fun x => hep (he p x), h.new⟩

/-- Two loads, when the exceptions are accounts that were there before both. -/
theorem trans (h : Gathers env e s s₁) (h' : Gathers env e s₁ s')
    (he : ∀ {i p}, e p → s₁.cache.findId i = some p → s.cache.findId i ≠ none) : Gathers env e s s' := by
  refine ⟨h.loaded.trans h'.loaded h.coherent, h'.coherent, fun p hp hep => ?_, fun {i p} hi hi' => ?_⟩
  · rw [h'.old p (hp.trans_le h.loaded.heap.brk) hep, h.old p hp hep]
  · rcases hi₁ : s₁.cache.findId i with _ | q
    · exact h.loaded.db ▸ h'.new hi₁ hi'
    · have hq : q = p := Option.some.inj ((h'.loaded.keepId hi₁).symm.trans hi')
      subst hq
      refine (h.new hi hi₁).mono h'.loaded.keepId (h'.old q (h.coherent.id hi₁).1 fun hep => ?_)
      exact he hep hi₁ hi

/-- The account of an id that was cached before is no new one. -/
theorem cached (h : Gathers env e s s₁) (hself : s.cache.findId me = some self) (hp : p = self)
    (hi : s₁.cache.findId i = some p) : s.cache.findId i ≠ none := by
  subst hp
  rw [h.coherent.id_inj hi (h.loaded.keepId hself), hself]
  exact Option.some_ne_none _

end Gathers

theorem lookupWith_gathers {load : Store → Key → Option (Option Ptr × Store)} {a : Option Ptr} (hc : Coherent s)
    (hload : ∀ a s', s.cache.findId i = none → load s (.id i) = some (a, s') →
      Answers env s (.id i) a s' ∧ Gathers env (fun _ => False) s s')
    (hw : lookupWith load s (.id i) = some (a, s')) :
    Answers env s (.id i) a s' ∧ Gathers env (fun _ => False) s s' := by
  refine ⟨lookupWith_answers hc ?_ hw, ?_⟩
  · exact fun r s'' hk hl => (hload r s'' hk hl).1
  unfold lookupWith at hw
  rcases hk : s.cache.findKey (.id i) with _ | p
  · rw [hk] at hw
    exact (hload a s' hk hw).2
  · rw [hk] at hw
    obtain ⟨-, rfl⟩ := Prod.mk.inj (Option.some.inj hw)
    exact .refl hc

/-- One more friend at the end of the list. -/
theorem Gathered.push {h : Heap UserCacheItem} {done : List UInt32} (hdone : Gathered s self done)
    (hu : s.cache.findId i = some u) (husers : users h self = users s.cache.heap self ++ [u])
    (hd : (h.cell self).friendDirty = true) : Gathered (s.setHeap h) self (done ++ [i]) := by
  refine ⟨fun q hq => ?_, fun j hj => ?_, ?_, fun hclean => ?_⟩
  · have hq : q ∈ users s.cache.heap self ++ [u] := husers ▸ hq
    rcases List.mem_append.mp hq with hq | hq
    · obtain ⟨j, hj, hfind⟩ := hdone.cached q hq
      exact ⟨j, List.mem_append_left _ hj, hfind⟩
    · rw [List.mem_singleton.mp hq]
      exact ⟨i, List.mem_append_right _ (List.mem_singleton.mpr rfl), hu⟩
  · show ∃ q ∈ users h self, _
    rw [husers]
    rcases List.mem_append.mp hj with hj | hj
    · obtain ⟨q, hq, hfind⟩ := hdone.listed j hj
      exact ⟨q, List.mem_append_left _ hq, hfind⟩
    · rw [List.mem_singleton.mp hj]
      exact ⟨u, List.mem_append_right _ (List.mem_singleton.mpr rfl), hu⟩
  · show (users h self).length ≤ _
    rw [husers, List.length_append, List.length_append]
    exact Nat.add_le_add_right hdone.length 1
  · have hclean : (h.cell self).friendDirty = false := hclean
    rw [hd] at hclean
    cases hclean

/-- A friend who is on the list already. -/
theorem Gathered.again {done : List UInt32} (hdone : Gathered s self done) (hmem : u ∈ users s.cache.heap self)
    (hu : s.cache.findId i = some u) : Gathered s self (done ++ [i]) := by
  obtain ⟨j', hj', -⟩ := hdone.cached u hmem
  refine ⟨fun q hq => ?_, fun j hj => ?_, ?_, fun hclean => ?_⟩
  · obtain ⟨j, hj, hfind⟩ := hdone.cached q hq
    exact ⟨j, List.mem_append_left _ hj, hfind⟩
  · rcases List.mem_append.mp hj with hj | hj
    · exact hdone.listed j hj
    · rw [List.mem_singleton.mp hj]
      exact ⟨u, hmem, hu⟩
  · rw [List.length_append]
    exact Nat.le_add_right_of_le hdone.length
  · rw [hdone.marked hclean] at hj'
    cases hj'

/-- `self` has the next friend on its list, and the others keep theirs. -/
theorem addFriend_gathers (hc : Coherent s) {done : List UInt32} (hself : s.cache.findId me = some self)
    (hdone : Gathered s self done) (hlen : done.length ≤ 20) (hme : i ≠ me) (hu : s.cache.findId i = some u) :
    Gathers env (· = self) s (s.setHeap (addFriend s.cache.heap self (some u)).1) ∧
      Gathered (s.setHeap (addFriend s.cache.heap self (some u)).1) self (done ++ [i]) := by
  obtain ⟨hl₂, hc₂⟩ := loaded_setHeap env hc (addFriend_extends s.cache.heap self (some u))
    (addFriend_brk s.cache.heap self (some u))
  refine ⟨⟨hl₂, hc₂, fun p _ hp => unflagged_addFriend hp _, fun {j p} hj hj' => ?_⟩, ?_⟩
  · exact absurd (hj.symm.trans hj') (by simp)
  have hne : u ≠ self := fun he => hme (hc.id_inj hu (he ▸ hself))
  have hroom : ¬ 20 < (friends s.cache.heap self).length := by
    have := hdone.length
    rw [users, List.length_map] at this
    omega
  rcases addFriend_outcome s.cache.heap self u with ⟨hrefused, -⟩ | ⟨j, -, hf, he⟩ | ⟨-, -, -, he⟩
  · rcases hrefused with rfl | ⟨-, hfull⟩
    · exact absurd rfl hne
    · exact absurd hfull hroom
  · obtain ⟨f, hget, rfl⟩ := users_of_findFriend hf
    rw [he]
    exact hdone.again (lists_of_mem (List.mem_of_getElem? hget)) hu
  · have husers := users_push s.cache.heap self u (decide (Lists s.cache.heap u self)) self
    rw [if_pos rfl] at husers
    rw [he]
    refine hdone.push hu husers ?_
    dsimp only
    rw [Heap.modify_self]
    rfl

/-- The loop over the stored friends: `done` are those behind it. -/
theorem loadFriends_gathers {load : Store → Key → Option (Option Ptr × Store)} {db : Database}
    (hload : ∀ s i a s', s.db = db → Coherent s → s.cache.findId i = none → load s (.id i) = some (a, s') →
      Answers env s (.id i) a s' ∧ Gathers env (fun _ => False) s s') :
    ∀ (l done : List UInt32) (s s' : Store), s.db = db → Coherent s → s.cache.findId me = some self →
      me ∉ done ++ l → (done ++ l).length ≤ 21 → Gathered s self done → loadFriends load self l s = some s' →
      Gathers env (· = self) s s' ∧ Gathered s' self (done ++ l)
  | [], done, s, s', _, hc, _, _, _, hdone, h => by
    rw [loadFriends, Option.some.injEq] at h
    subst h
    rw [List.append_nil]
    exact ⟨.refl hc, hdone⟩
  | i :: l, done, s, s', hdb, hc, hself, hme, hlen, hdone, h => by
    rw [loadFriends] at h
    rcases hw : lookupWith load s (.id i) with _ | ⟨f, s₁⟩
    · rw [hw] at h; cases h
    rw [hw] at h
    dsimp only at h
    obtain ⟨ha, hf⟩ := lookupWith_gathers hc (fun a s' hk hl => hload s i a s' hdb hc hk hl) hw
    obtain ⟨u, rfl, hu⟩ := ha.of_id
    have hself₁ : s₁.cache.findId me = some self := hf.loaded.keepId hself
    have hdone₁ : Gathered s₁ self done := hdone.mono hf.loaded.keepId (hf.old self (hc.id hself).1 id)
    have hime : i ≠ me := fun hx => hme (by simp [hx])
    have hdl : done.length ≤ 20 := by
      rw [List.length_append, List.length_cons] at hlen
      omega
    obtain ⟨hf₁, hdone₂⟩ : Gathers env (· = self) s₁ _ ∧ _ := addFriend_gathers hf.coherent hself₁ hdone₁ hdl hime hu
    have hf₂ := (hf.weaken fun p hp => hp.elim).trans hf₁ fun hp => hf.cached hself hp
    have hassoc : done ++ [i] ++ l = done ++ i :: l := by simp
    obtain ⟨hf', hn'⟩ := loadFriends_gathers hload l (done ++ [i]) _ s' (hf₂.loaded.db.trans hdb) hf₁.coherent
      (hf₂.loaded.keepId hself) (by rw [hassoc]; exact hme) (by rw [hassoc]; exact hlen) hdone₂ h
    rw [hassoc] at hn'
    exact ⟨hf₂.trans hf' fun hp => hf₂.cached hself hp, hn'⟩

/-- Lists that fit into `AddFriend`, and do not name their owners. -/
structure Listable (db : Database) : Prop where
  length : ∀ i, (storedFriends db i).length ≤ 21
  other : ∀ i, i ∉ storedFriends db i

/-- **A load gathers the friends of the accounts it adds.** -/
theorem loadUser_gathers {db : Database} (hok : DbOk db) (hlists : Listable db) :
    ∀ (k : ℕ) (s : Store) (key : Key) (a : Option Ptr) (s' : Store), s.db = db → Coherent s →
      Exact env.eng s.db key → s.cache.findKey key = none → loadUser env k s key = some (a, s') →
      Gathers env (fun _ => False) s s'
  | 0, _, _, _, _, _, _, _, _, h => by cases h
  | k + 1, s, key, a, s', hdb, hc, hx, hk, h => by
    have hok' : DbOk s.db := hdb ▸ hok
    have hans := loadUser_answers (k + 1) s key a s' hok' hc hx hk h
    have hold : ∀ p < s.cache.heap.brk, (s'.cache.get p).unflagged = (s.cache.get p).unflagged :=
      (unflagged_loadRule s.cache.heap.brk fun p => (s.cache.get p).unflagged).loadUser (k + 1) s key a s' le_rfl
        hc.bounded (fun _ _ => rfl) h
    refine ⟨hans.loaded, hans.coherent, fun p hp _ => hold p hp, fun {i p} hi hi' => ?_⟩
    rcases loadUser_cases h with ⟨j, r, hj, hrow, rfl, hl⟩ | ⟨n, rfl, -, rfl, rfl⟩
    · obtain rfl : k = j := by omega
      have hr : r ∈ s.db.users.filter key.names := by rw [← hx, hrow]; simp
      obtain ⟨hr, e⟩ := List.mem_filter.mp hr
      obtain ⟨hld, hc₁, hself, -, hother⟩ := addRow_spec env hok' hc hr hk e
      have hnil : users (addRow env s r).2.cache.heap (addRow env s r).1 = [] := by
        show List.map _ ((addRow env s r).2.cache.get (addRow env s r).1).friendList = []
        rw [get_addRow, fillRow_eq]
        rfl
      have hempty : Gathered (addRow env s r).2 (addRow env s r).1 [] := by
        refine ⟨fun q hq => ?_, fun j hj => (by cases hj), (by rw [hnil]; exact le_rfl), fun _ => rfl⟩
        rw [hnil] at hq
        cases hq
      obtain ⟨hgather, hlist⟩ := loadFriends_gathers
        (fun s i a s' hdb hc hi hl => ⟨loadUser_answers k s (.id i) a s' (hdb ▸ hok) hc (exact_id _ _ _) hi hl,
          loadUser_gathers hok hlists k s (.id i) a s' hdb hc (exact_id _ _ _) hi hl⟩)
        (storedFriends s.db (uid r)) [] (addRow env s r).2 s' (hld.db.trans hdb) hc₁ hself
        (by rw [hdb]; exact hlists.other _) (by rw [hdb]; exact hlists.length _) hempty hl
      by_cases hu : i = uid r
      · subst hu
        have hp : p = (addRow env s r).1 := Option.some.inj (hi'.symm.trans (hgather.loaded.keepId hself))
        rw [hp]
        exact hlist
      · have hnew := hgather.new ((hother i hu).trans hi) hi'
        rwa [hld.db] at hnew
    · exact absurd (hi.symm.trans hi') (by simp)

theorem lookup_gathers {k : ℕ} {key : Key} {a : Option Ptr} (hok : DbOk s.db) (hlists : Listable s.db)
    (hc : Coherent s) (hx : s.cache.findKey key ≠ none ∨ Exact env.eng s.db key)
    (h : lookup env k s key = some (a, s')) : Gathers env (fun _ => False) s s' := by
  rcases hk : s.cache.findKey key with _ | p
  · rw [lookup_uncached k key hk] at h
    exact loadUser_gathers hok hlists k s key a s' rfl hc (hx.resolve_left (not_not.mpr hk)) hk h
  · rw [lookup_cached env k key hk] at h
    obtain ⟨-, rfl⟩ := Prod.mk.inj (Option.some.inj h)
    exact .refl hc

end Blitzd.Cache
