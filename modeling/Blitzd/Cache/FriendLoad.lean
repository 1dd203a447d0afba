import Mathlib.Data.List.Forall2
import Blitzd.Lib.Run
import Blitzd.Cache.UserLookup
import Blitzd.Cache.FriendList

/-! # Stored friend lists

`LoadUser` gives an account its stored friends by looking each of them up by id, which loads those that are not
cached, and theirs, while the accounts on the way are only partly filled. What a load does to the lists is said by
`Fills`: the accounts that were there list whom they listed, and those it added list exactly the stored ids, in
their order. The account whose loop is running is the exception, and its list is carried through the loop as the
part of the stored list that is done (`loadFriends_fills`). The flags follow from `Amity`, whichever of two friends
was added last.

`faithful_iff`: over any lookups from an empty cache, each returns and every cached account has its stored friends
with the right flags, exactly as long as every name that is not cached fits the array its condition is printed
into. -/

namespace Blitzd.Cache

open Blitzd.Lib Blitzd.Lib.Bytes Blitzd.Utils.CString Blitzd.Storage.Sqlite

/-- The stored friend lists: at most 21 friends, nobody twice, never the owner, and everybody has a row. -/
structure ListsOk (db : Database) : Prop where
  length : ∀ r ∈ db.users, (storedFriends db (uid r)).length ≤ 21
  nodup : ∀ r ∈ db.users, (storedFriends db (uid r)).Nodup
  other : ∀ r ∈ db.users, uid r ∉ storedFriends db (uid r)
  row : ∀ r ∈ db.users, ∀ i ∈ storedFriends db (uid r), ∃ r' ∈ db.users, uid r' = i

/-- Stored lists that `AddFriend` takes over as they are, whether or not everybody on them has a row. -/
structure Addable (db : Database) : Prop where
  length : ∀ r ∈ db.users, (storedFriends db (uid r)).length ≤ 21
  nodup : ∀ r ∈ db.users, (storedFriends db (uid r)).Nodup
  other : ∀ r ∈ db.users, uid r ∉ storedFriends db (uid r)

theorem ListsOk.addable {db : Database} (h : ListsOk db) : Addable db := ⟨h.length, h.nodup, h.other⟩

/-- `qs` are the cached accounts with the ids `is`. -/
def Named (s : Store) (qs : List Ptr) (is : List UInt32) : Prop :=
  List.Forall₂ (fun q i => s.cache.findId i = some q) qs is

/-- The account lists the friends stored for `i`. -/
def Complete (s : Store) (p : Ptr) (i : UInt32) : Prop :=
  Named s (users s.cache.heap p) (storedFriends s.db i)

variable {env : Env} {s s' s₁ s₂ : Store} {p q self u : Ptr} {i me : UInt32} {e : Ptr → Prop}

theorem Named.mono {qs : List Ptr} {is : List UInt32} (h : Named s qs is)
    (hk : ∀ {i p}, s.cache.findId i = some p → s'.cache.findId i = some p) : Named s' qs is :=
  List.Forall₂.imp (fun _ _ hq => hk hq) h

theorem Complete.mono (h : Complete s p i) (hl : Loaded env s s')
    (hu : users s'.cache.heap p = users s.cache.heap p) : Complete s' p i := by
  unfold Complete
  rw [hu, hl.db]
  exact Named.mono h hl.keepId

/-! ### What a load does to the lists -/

/-- The accounts that were there keep their lists, but for those of `e`, and the ones added have theirs. -/
structure Fills (env : Env) (e : Ptr → Prop) (s s' : Store) : Prop where
  loaded : Loaded env s s'
  coherent : Coherent s'
  old : ∀ p < s.cache.heap.brk, ¬ e p → users s'.cache.heap p = users s.cache.heap p
  new : ∀ {i p}, s.cache.findId i = none → s'.cache.findId i = some p → Complete s' p i

theorem Fills.refl (hc : Coherent s) : Fills env e s s :=
  ⟨.refl s, hc, fun _ _ _ => rfl, fun h h' => by rw [h] at h'; cases h'⟩

theorem Fills.weaken {e' : Ptr → Prop} (h : Fills env e s s') (he : ∀ p, e p → e' p) : Fills env e' s s' :=
  ⟨h.loaded, h.coherent, fun p hp hep => h.old p hp fun x => hep (he p x), h.new⟩

/-- Two loads, when the exceptions are accounts that were there before both. -/
theorem Fills.trans (h : Fills env e s s₁) (h' : Fills env e s₁ s')
    (he : ∀ {i p}, e p → s₁.cache.findId i = some p → s.cache.findId i ≠ none) : Fills env e s s' := by
  refine ⟨h.loaded.trans h'.loaded h.coherent, h'.coherent, fun p hp hep => ?_, fun {i p} hi hi' => ?_⟩
  · rw [h'.old p (hp.trans_le h.loaded.heap.brk) hep, h.old p hp hep]
  · rcases hi₁ : s₁.cache.findId i with _ | q
    · exact h'.new hi₁ hi'
    · have hq : q = p := Option.some.inj ((h'.loaded.keepId hi₁).symm.trans hi')
      subst hq
      refine (h.new hi hi₁).mono h'.loaded (h'.old q (h.coherent.id hi₁).1 fun hep => ?_)
      exact he hep hi₁ hi

/-- The account of an id is that of no other. -/
theorem Coherent.id_inj (hc : Coherent s) {j : UInt32} (hi : s.cache.findId i = some p)
    (hj : s.cache.findId j = some p) : i = j := (hc.id hi).2.1.symm.trans (hc.id hj).2.1

/-- The account an id is answered with. -/
theorem Answers.of_id {a : Option Ptr} (h : Answers env s (.id i) a s') :
    ∃ p, a = some p ∧ s'.cache.findId i = some p := by
  obtain ⟨p, hp, ha⟩ := h.found
  have hp : s'.cache.findId i = some p := hp
  rw [h.coherent.isExist hp, if_pos rfl] at ha
  exact ⟨p, ha, hp⟩

theorem length_eq_of_named {qs : List Ptr} {is : List UInt32} (h : Named s qs is) : qs.length = is.length :=
  List.Forall₂.length_eq h

/-- An account of the list has one of the ids. -/
theorem exists_id_of_named {qs : List Ptr} {is : List UInt32} (h : Named s qs is) (hq : q ∈ qs) :
    ∃ i ∈ is, s.cache.findId i = some q := by
  induction h with
  | nil => cases hq
  | cons hab _ ih =>
    rcases List.mem_cons.mp hq with rfl | hq
    · exact ⟨_, List.mem_cons_self, hab⟩
    · obtain ⟨i, hi, hf⟩ := ih hq
      exact ⟨i, List.mem_cons_of_mem _ hi, hf⟩

/-- The next friend is put at the end of the list of `self`. -/
theorem users_addFriend_next (hc : Coherent s) {done : List UInt32} (hself : s.cache.findId me = some self)
    (hdone : Named s (users s.cache.heap self) done) (hlen : done.length ≤ 20) (hi : i ∉ done) (hme : i ≠ me)
    (hu : s.cache.findId i = some u) (p : Ptr) :
    users (addFriend s.cache.heap self (some u)).1 p =
      if p = self then users s.cache.heap self ++ [u] else users s.cache.heap p := by
  refine users_addFriend_new (fun he => ?_) (fun hmem => ?_) ?_ p
  · exact hme (hc.id_inj hu (he ▸ hself))
  · obtain ⟨j, hj, hf⟩ := exists_id_of_named hdone hmem
    exact hi (hc.id_inj hu hf ▸ hj)
  · rw [length_eq_of_named hdone]
    exact hlen

/-- A friend is cached after it was looked up, and whoever came with it is complete. -/
theorem lookupWith_fills {load : Store → Key → Option (Option Ptr × Store)} {a : Option Ptr} (hc : Coherent s)
    (hload : ∀ a s', s.cache.findId i = none → load s (.id i) = some (a, s') →
      Answers env s (.id i) a s' ∧ Fills env (fun _ => False) s s')
    (hw : lookupWith load s (.id i) = some (a, s')) :
    Answers env s (.id i) a s' ∧ Fills env (fun _ => False) s s' := by
  refine ⟨lookupWith_answers hc ?_ hw, ?_⟩
  · exact fun r s'' hk hl => (hload r s'' hk hl).1
  unfold lookupWith at hw
  rcases hk : s.cache.findKey (.id i) with _ | p
  · rw [hk] at hw
    exact (hload a s' hk hw).2
  · rw [hk] at hw
    obtain ⟨-, rfl⟩ := Prod.mk.inj (Option.some.inj hw)
    exact .refl hc

/-- `self` gets the next friend, the others keep their lists. -/
theorem addFriend_fills (hc : Coherent s) {done : List UInt32} (hself : s.cache.findId me = some self)
    (hdone : Named s (users s.cache.heap self) done) (hlen : done.length ≤ 20) (hi : i ∉ done) (hme : i ≠ me)
    (hu : s.cache.findId i = some u) :
    Fills env (· = self) s (s.setHeap (addFriend s.cache.heap self (some u)).1) ∧
      Named (s.setHeap (addFriend s.cache.heap self (some u)).1)
        (users (s.setHeap (addFriend s.cache.heap self (some u)).1).cache.heap self) (done ++ [i]) := by
  have husers : ∀ p, users (s.setHeap (addFriend s.cache.heap self (some u)).1).cache.heap p =
      if p = self then users s.cache.heap self ++ [u] else users s.cache.heap p :=
    users_addFriend_next hc hself hdone hlen hi hme hu
  obtain ⟨hl₂, hc₂⟩ := loaded_setHeap env hc (addFriend_extends s.cache.heap self (some u))
    (addFriend_brk s.cache.heap self (some u))
  refine ⟨⟨hl₂, hc₂, fun p _ hp => ?_, fun {j p} hj hj' => ?_⟩, ?_⟩
  · rw [husers, if_neg hp]
  · exact absurd (hj.symm.trans hj') (by simp)
  · rw [husers, if_pos rfl]
    exact List.rel_append (hdone.mono fun hx => hx) (.cons hu .nil)

/-- The account of an id that was cached before is no new one. -/
theorem Fills.cached (h : Fills env e s s₁) (hself : s.cache.findId me = some self) (hp : p = self)
    (hi : s₁.cache.findId i = some p) : s.cache.findId i ≠ none := by
  subst hp
  rw [h.coherent.id_inj hi (h.loaded.keepId hself), hself]
  exact Option.some_ne_none _

/-- The loop over the stored friends: `done` are those behind it. -/
theorem loadFriends_fills {load : Store → Key → Option (Option Ptr × Store)} {db : Database}
    (hload : ∀ s i a s', s.db = db → Coherent s → s.cache.findId i = none → load s (.id i) = some (a, s') →
      Answers env s (.id i) a s' ∧ Fills env (fun _ => False) s s') :
    ∀ (l done : List UInt32) (s s' : Store), s.db = db → Coherent s → s.cache.findId me = some self →
      (done ++ l).Nodup → me ∉ done ++ l → (done ++ l).length ≤ 21 → Named s (users s.cache.heap self) done →
      loadFriends load self l s = some s' →
      Fills env (· = self) s s' ∧ Named s' (users s'.cache.heap self) (done ++ l)
  | [], done, s, s', _, hc, _, _, _, _, hdone, h => by
    rw [loadFriends, Option.some.injEq] at h
    subst h
    rw [List.append_nil]
    exact ⟨.refl hc, hdone⟩
  | i :: l, done, s, s', hdb, hc, hself, hnd, hme, hlen, hdone, h => by
    rw [loadFriends] at h
    rcases hw : lookupWith load s (.id i) with _ | ⟨f, s₁⟩
    · rw [hw] at h; cases h
    rw [hw] at h
    dsimp only at h
    obtain ⟨ha, hf⟩ := lookupWith_fills hc (fun a s' hk hl => hload s i a s' hdb hc hk hl) hw
    obtain ⟨u, rfl, hu⟩ := ha.of_id
    have hself₁ : s₁.cache.findId me = some self := hf.loaded.keepId hself
    have hdone₁ : Named s₁ (users s₁.cache.heap self) done := by
      rw [hf.old self (hc.id hself).1 id]
      exact hdone.mono hf.loaded.keepId
    have hi : i ∉ done := fun hx => (List.nodup_append.mp hnd).2.2 i hx i List.mem_cons_self rfl
    have hime : i ≠ me := fun hx => hme (by simp [hx])
    have hdl : done.length ≤ 20 := by
      rw [List.length_append, List.length_cons] at hlen
      omega
    obtain ⟨hf₁, hdone₂⟩ : Fills env (· = self) s₁ _ ∧ _ := addFriend_fills hf.coherent hself₁ hdone₁ hdl hi hime hu
    have hf₂ := (hf.weaken fun p hp => hp.elim).trans hf₁ fun hp => hf.cached hself hp
    have hassoc : done ++ [i] ++ l = done ++ i :: l := by simp
    obtain ⟨hf', hn'⟩ := loadFriends_fills hload l (done ++ [i]) _ s' (hf₂.loaded.db.trans hdb) hf₁.coherent
      (hf₂.loaded.keepId hself) (by rw [hassoc]; exact hnd) (by rw [hassoc]; exact hme)
      (by rw [hassoc]; exact hlen) hdone₂ h
    rw [hassoc] at hn'
    exact ⟨hf₂.trans hf' fun hp => hf₂.cached hself hp, hn'⟩

/-- **A load fills the accounts it adds.** -/
theorem loadUser_fills {db : Database} (hok : DbOk db) (hlists : Addable db) :
    ∀ (k : ℕ) (s : Store) (key : Key) (a : Option Ptr) (s' : Store), s.db = db → Coherent s →
      Exact env.eng s.db key → s.cache.findKey key = none → loadUser env k s key = some (a, s') →
      Fills env (fun _ => False) s s'
  | 0, _, _, _, _, _, _, _, _, h => by cases h
  | k + 1, s, key, a, s', hdb, hc, hx, hk, h => by
    have hok' : DbOk s.db := hdb ▸ hok
    have hans := loadUser_answers (k + 1) s key a s' hok' hc hx hk h
    have hb : Bounded s.cache := hc.bounded
    have hold : ∀ p < s.cache.heap.brk, users s'.cache.heap p = users s.cache.heap p :=
      (users_loadRule s.cache.heap.brk (users s.cache.heap)).loadUser (k + 1) s key a s' le_rfl hb
        (fun _ _ => rfl) h
    refine ⟨hans.loaded, hans.coherent, fun p hp _ => hold p hp, fun {i p} hi hi' => ?_⟩
    rcases loadUser_cases h with ⟨j, r, hj, hrow, rfl, hl⟩ | ⟨n, rfl, -, rfl, rfl⟩
    · obtain rfl : k = j := by omega
      have hr : r ∈ s.db.users.filter key.names := by rw [← hx, hrow]; simp
      obtain ⟨hr, e⟩ := List.mem_filter.mp hr
      obtain ⟨hld, hc₁, hself, -, hother⟩ := addRow_spec env hok' hc hr hk e
      have hnil : users (addRow env s r).2.cache.heap (addRow env s r).1 = [] := by
        show List.map _ ((addRow env s r).2.cache.get (addRow env s r).1).friendList = []
        rw [get_addRow, fillRow_eq]
        rfl
      have hr' : r ∈ db.users := hdb ▸ hr
      obtain ⟨hfill, hnamed⟩ := loadFriends_fills
        (fun s i a s' hdb hc hi hl => ⟨loadUser_answers k s (.id i) a s' (hdb ▸ hok) hc (exact_id _ _ _) hi hl,
          loadUser_fills hok hlists k s (.id i) a s' hdb hc (exact_id _ _ _) hi hl⟩)
        (storedFriends s.db (uid r)) [] (addRow env s r).2 s' (hld.db.trans hdb) hc₁ hself
        (by rw [hdb]; exact hlists.nodup r hr') (by rw [hdb]; exact hlists.other r hr')
        (by rw [hdb]; exact hlists.length r hr') (by rw [hnil]; exact .nil) hl
      by_cases hu : i = uid r
      · subst hu
        have hp : p = (addRow env s r).1 := Option.some.inj (hi'.symm.trans (hfill.loaded.keepId hself))
        rw [hp, Complete, hfill.loaded.db, hld.db]
        exact hnamed
      · exact hfill.new ((hother i hu).trans hi) hi'
    · exact absurd (hi.symm.trans hi') (by simp)

theorem lookup_fills {k : ℕ} {key : Key} {a : Option Ptr} (hok : DbOk s.db) (hlists : Addable s.db)
    (hc : Coherent s) (hx : Exact env.eng s.db key) (h : lookup env k s key = some (a, s')) :
    Fills env (fun _ => False) s s' := by
  rcases hk : s.cache.findKey key with _ | p
  · rw [lookup_uncached k key hk] at h
    exact loadUser_fills hok hlists k s key a s' rfl hc hx hk h
  · rw [lookup_cached env k key hk] at h
    obtain ⟨-, rfl⟩ := Prod.mk.inj (Option.some.inj h)
    exact .refl hc

/-! ### Lookups one after the other -/

/-- The storage answers for the key: a stored id, or a name whose condition selects the rows of that name. -/
def Meant (env : Env) (s : Store) : Key → Prop
  | .name n => Exact env.eng s.db (.name n)
  | .id i => ∃ r ∈ s.db.users, uid r = i

/-- `userCache[key]`, with calls nested at most `k` deep; `none` once a lookup has not returned. -/
def LookupStep (env : Env) (k : ℕ) (s : Option Store) (key : Key) (s' : Option Store) : Prop :=
  (∀ t ∈ s, Meant env t key) ∧ s' = s.bind fun t => (lookup env k t key).map Prod.snd

/-- Every cached account has the friends stored for it, in the stored order, and the flag of an entry says whether
the friend's stored list has the account. -/
structure Faithful (s : Store) : Prop where
  stored : ∀ {i p}, s.cache.findId i = some p →
    (friends s.cache.heap p).map (fun f => (s.cache.get f.user).id) = storedFriends s.db i
  flag : ∀ {i p}, s.cache.findId i = some p → ∀ f ∈ friends s.cache.heap p,
    (f.isMutual = true ↔ i ∈ storedFriends s.db (s.cache.get f.user).id)

/-- The key is cached, or its condition fits `whereexpr`. -/
def FitsArray (s : Store) (key : Key) : Prop := s.cache.findKey key ≠ none ∨ (whereExpr key).length < 128

/-- What lookups keep. -/
structure Filled (db : Database) (s : Store) : Prop where
  db : s.db = db
  coherent : Coherent s
  amity : Amity s.cache.heap
  complete : ∀ {i p}, s.cache.findId i = some p → Complete s p i

theorem Meant.exact {key : Key} (h : Meant env s key) : Exact env.eng s.db key := by
  rcases key with n | i
  · exact h
  · exact exact_id _ _ _

theorem filled_new (n m : UInt32) (db : Database) :
    Filled db ⟨{ UserCache.new with nextUid := n, count := m }, db⟩ := by
  refine ⟨rfl, coherent_new rfl rfl db, ⟨fun _ => rfl, fun h => ?_, fun _ => .nil, fun h => ?_⟩, fun h => ?_⟩
  · cases h
  · cases h
  · cases h

theorem Filled.lookup {db : Database} (hok : DbOk db) (hlists : ListsOk db) {k : ℕ} {key : Key} {a : Option Ptr}
    (h : Filled db s) (hm : Meant env s key) (hl : lookup env k s key = some (a, s')) : Filled db s' := by
  obtain ⟨rfl, hc, ha, hcomplete⟩ := h
  have hf := lookup_fills hok hlists.addable hc hm.exact hl
  refine ⟨hf.loaded.db, hf.coherent, amity_loadRule.lookup (Nat.zero_le _) hc.bounded ha hl, fun {i p} hi => ?_⟩
  rcases hi₀ : s.cache.findId i with _ | q
  · exact hf.new hi₀ hi
  · obtain rfl : q = p := Option.some.inj ((hf.loaded.keepId hi₀).symm.trans hi)
    exact (hcomplete hi₀).mono hf.loaded (hf.old q (hc.id hi₀).1 not_false)

/-- The ids of the accounts named. -/
theorem map_id_of_named (hc : Coherent s) {qs : List Ptr} {is : List UInt32} (h : Named s qs is) :
    qs.map (fun q => (s.cache.get q).id) = is := by
  induction h with
  | nil => rfl
  | cons hab _ ih => rw [List.map_cons, ih, (hc.id hab).2.1]

theorem mem_iff_of_named (hc : Coherent s) {qs : List Ptr} {is : List UInt32} (h : Named s qs is)
    (hp : s.cache.findId i = some p) : p ∈ qs ↔ i ∈ is := by
  constructor
  · intro hmem
    obtain ⟨j, hj, hf⟩ := exists_id_of_named h hmem
    rw [hc.id_inj hp hf]
    exact hj
  · intro hmem
    rw [← map_id_of_named hc h] at hmem
    obtain ⟨q, hq, rfl⟩ := List.mem_map.mp hmem
    obtain ⟨j, -, hf⟩ := exists_id_of_named h hq
    rw [(hc.id hf).2.1, hf] at hp
    cases hp
    exact hq

/-- Both ends of an entry are complete, so its flag compares their stored lists. -/
theorem Filled.faithful {db : Database} (h : Filled db s) : Faithful s := by
  refine ⟨fun {i p} hi => ?_, fun {i p} hi f hf => ?_⟩
  · rw [← map_id_of_named h.coherent (h.complete hi), users, List.map_map]
    rfl
  · obtain ⟨j, -, hj⟩ := exists_id_of_named (h.complete hi) (lists_of_mem hf)
    rw [h.amity.flag hf, (h.coherent.id hj).2.1]
    exact mem_iff_of_named h.coherent (h.complete hj) hi

/-- **Cyclic lists do not keep a lookup from returning**: calls nest no deeper than there are rows. -/
theorem lookup_returns {k : ℕ} {key : Key} (hok : DbOk s.db) (hlists : ListsOk s.db) (hc : Coherent s)
    (hk : s.db.users.length < k) (hm : Meant env s key) (hfit : FitsArray s key) :
    ∃ a s', lookup env k s key = some (a, s') := by
  rcases hnone : s.cache.findKey key with _ | p
  · have hp : Provides s fun i => ∃ r ∈ s.db.users, uid r = i := by
      refine ⟨fun i hi => .inr hi, ?_⟩
      rintro _ ⟨r, hr, rfl⟩ _ j hj
      exact hlists.row r hr j hj
    rw [lookup_uncached k key hnone]
    refine loadUser_total env k s key hok hc hm.exact hnone hp (hfit.resolve_left (not_not_intro hnone))
      (fun r hr _ j hj => hlists.row r hr j hj) ?_ ?_
    · rcases key with n | i
      · exact .inl ⟨n, rfl⟩
      · obtain ⟨r, hr, rfl⟩ := hm
        exact .inr ⟨r, hr, decide_eq_true (hok.toNat_uid hr).symm⟩
    · exact (List.length_filter_le _ _).trans_lt hk
  · exact ⟨_, _, lookup_cached env k key hnone⟩

/-- A lookup that returned did not overflow the array. -/
theorem fitsArray_of_returns {k : ℕ} {key : Key} {a : Option Ptr} (h : lookup env k s key = some (a, s')) :
    FitsArray s key := by
  by_contra hfit
  rw [FitsArray, not_or, not_not, not_lt] at hfit
  rw [lookup_uncached k key hfit.1] at h
  rcases k with _ | k
  · cases h
  · rw [loadUser, if_pos hfit.2] at h
    cases h

/-- **Stored friend lists are loaded faithfully**, cyclic or not, as long as the names asked for fit the array
that their condition is printed into. -/
theorem faithful_iff (env : Env) {db : Database} (hok : DbOk db) (hlists : ListsOk db) {k : ℕ}
    (hk : db.users.length < k) (n m : UInt32) {hist : List (Entry (Option Store) Key)} {t : Option Store}
    (hr : Run (LookupStep env k) (some ⟨{ UserCache.new with nextUid := n, count := m }, db⟩) hist t) :
    (∀ x ∈ hist, ∃ s, x.after = some s ∧ s.db = db ∧ Faithful s) ↔
      Allowed (fun _ t key => ∀ s ∈ t, FitsArray s key) hist := by
  refine Run.good_iff (I := fun t => ∀ s ∈ t, Filled db s)
    (P := fun t => ∃ s, t = some s ∧ s.db = db ∧ Faithful s) ?_ ?_ ?_ hr
  · rintro _ ⟨rfl⟩
    exact filled_new n m db
  · exact ⟨_, rfl, rfl, (filled_new n m db).faithful⟩
  · rintro _ key t' hI ⟨s, rfl, hdb, -⟩ ⟨hm, rfl⟩
    have hs := hI s rfl
    have hm := hm s rfl
    rw [Option.bind_some]
    rcases hl : lookup env k s key with _ | ⟨a, s'⟩
    · -- it did not return, so the array was too short
      refine ⟨fun s' hs' => (by cases hs'), iff_of_false (fun ⟨s', hs', _⟩ => by cases hs') fun hfit => ?_⟩
      obtain ⟨a, s', hl'⟩ := lookup_returns (hdb ▸ hok) (hdb ▸ hlists) hs.coherent (hdb ▸ hk) hm (hfit s rfl)
      rw [hl] at hl'
      cases hl'
    · have hs' := hs.lookup hok hlists hm hl
      refine ⟨?_, iff_of_true ⟨s', rfl, hs'.db, hs'.faithful⟩ ?_⟩
      · rintro _ ⟨rfl⟩
        exact hs'
      · rintro _ ⟨rfl⟩
        exact fitsArray_of_returns hl

open UserLookup (idleEnv twoUsers dbOk_twoUsers exact_of_plain)

/-- `alice` and `bob` list each other. -/
def ringDb : Database := { twoUsers with friends := [⟨1, [2, 0, 0, 0]⟩, ⟨2, [1, 0, 0, 0]⟩] }

theorem dbOk_ringDb : DbOk ringDb :=
  ⟨⟨dbOk_twoUsers.unique.userid, dbOk_twoUsers.unique.username⟩, dbOk_twoUsers.range, dbOk_twoUsers.nulFree⟩

theorem uid_ringDb {r : UserRow} (hr : r ∈ ringDb.users) : uid r = 1 ∨ uid r = 2 := by
  rcases List.mem_cons.mp hr with rfl | hr
  · exact .inl rfl
  · rw [List.mem_singleton.mp hr]
    exact .inr rfl

theorem storedFriends_ringDb {r : UserRow} (hr : r ∈ ringDb.users) :
    storedFriends ringDb (uid r) = [3 - uid r] := by
  rcases uid_ringDb hr with h | h
  · rw [h]; decide
  · rw [h]; decide

theorem listsOk_ringDb : ListsOk ringDb := by
  refine ⟨fun r hr => ?_, fun r hr => ?_, fun r hr => ?_, fun r hr i hi => ?_⟩
  · rw [storedFriends_ringDb hr]
    exact Nat.le_of_ble_eq_true rfl
  · rw [storedFriends_ringDb hr]
    exact List.nodup_singleton _
  · rw [storedFriends_ringDb hr, List.mem_singleton]
    rcases uid_ringDb hr with h | h
    · rw [h]; decide
    · rw [h]; decide
  · rw [storedFriends_ringDb hr, List.mem_singleton] at hi
    rcases uid_ringDb hr with h | h
    · rw [hi, h]
      exact ⟨_, List.mem_cons_of_mem _ List.mem_cons_self, rfl⟩
    · rw [hi, h]
      exact ⟨_, List.mem_cons_self, rfl⟩

/-- `alice` is looked up, and `bob` is loaded along. -/
theorem faithful_ring : DbOk ringDb ∧ ListsOk ringDb ∧ ∃ hist t,
    Run (LookupStep idleEnv 3) (some ⟨UserCache.new, ringDb⟩) hist t ∧ hist.length = 1 ∧
      ∀ x ∈ hist, ∃ s, x.after = some s ∧ s.db = ringDb ∧ Faithful s := by
  obtain ⟨t, hstep⟩ : ∃ t, LookupStep idleEnv 3 (some ⟨UserCache.new, ringDb⟩) (.name (str "alice")) t := by
    refine ⟨_, ?_, rfl⟩
    rintro _ ⟨rfl⟩
    exact exact_of_plain _ _ (by decide) (by decide)
  have hr := Run.nil.snoc hstep
  have hfit : (whereExpr (.name (str "alice"))).length < 128 := by decide
  refine ⟨dbOk_ringDb, listsOk_ringDb, _, _, hr, rfl, ?_⟩
  refine (faithful_iff idleEnv dbOk_ringDb listsOk_ringDb (by decide) 1 0 hr).mpr ⟨?_, trivial⟩
  rintro _ ⟨rfl⟩
  exact .inr hfit

/-- A name of 117 bytes. -/
def longName : Text := List.replicate 117 97

theorem nulFree_longName : NulFree longName := fun x hx => by
  rw [List.eq_of_mem_replicate hx]
  decide

/-- The name of 117 bytes is written past the array, however deep calls may nest. -/
theorem long_name_overflows : DbOk ringDb ∧ ListsOk ringDb ∧ ∀ k, ∃ hist,
    Run (LookupStep idleEnv k) (some ⟨UserCache.new, ringDb⟩) hist none ∧
      hist.map Entry.event = [.name longName] := by
  refine ⟨dbOk_ringDb, listsOk_ringDb, fun k => ?_⟩
  have hlen : 128 ≤ (whereExpr (.name longName)).length := by
    rw [whereExpr, cstr_of_nulFree nulFree_longName]
    decide +kernel
  have hnone : lookup idleEnv k ⟨UserCache.new, ringDb⟩ (.name longName) = none := by
    rw [lookup_uncached k _ rfl]
    rcases k with _ | k
    · rfl
    · rw [loadUser, if_pos hlen]
  have hstep : LookupStep idleEnv k (some ⟨UserCache.new, ringDb⟩) (.name longName) none := by
    refine ⟨?_, by rw [Option.bind_some, hnone]; rfl⟩
    rintro _ ⟨rfl⟩
    exact exact_of_plain _ _ nulFree_longName (by decide +kernel)
  exact ⟨_, Run.nil.snoc hstep, rfl⟩

end Blitzd.Cache
