import Blitzd.Cache.DataMap
import Blitzd.Cache.FriendSets
import Blitzd.Plugins.Accounts

/-! # The accounts behind cache and table

What the users of the server have are accounts under their ids (`account`): names, passwords, mails, flags, data and
friends. Where an account is kept is another matter. It is in the cache from the first time it is looked up, and until the
cache is saved its row may be older, or not there at all.

`InOrder`: the maps and the rows agree on who is who, and every cached account is marked for all that its rows do not
have. A lookup keeps that and changes no account (`InOrder.look`), changes of an account in place keep it if they set the
marks (`InOrder.edit`), and so do new accounts (`InOrder.added`). -/

namespace Blitzd.Plugins.Ledger

open Blitzd.Lib Blitzd.Lib.Bytes Blitzd.Lib.KeyMap Blitzd.Lib.Shift Blitzd.Utils.CString Blitzd.Storage.Sqlite
open Blitzd.Cache Blitzd.Cache.UserCacheItem
open Blitzd.Plugins.Accounts (Answered)

/-! ### Accounts -/

/-- What is stored of an account, but for its friends. -/
structure Fields where
  username : Text
  salt : Buf 32
  verifier : Buf 32
  passwd : Buf 20
  mail : Text
  flag : UInt32
  /-- The value of each key. -/
  data : Text → Text

def fields (u : UserCacheItem) : Fields where
  username := u.username
  salt := u.salt
  verifier := u.verifier
  passwd := u.passwd
  mail := u.mail
  flag := u.flag
  data k := (find nameEq u.dataMap k).getD []

/-- What a load makes of a row. -/
def rowFields (r : UserRow) : Fields := fields (fillRow r (.new (cstr r.username) (Buf.zero 20)))

structure Account where
  fields : Fields
  friends : Set UInt32

/-- Those on the list of `p`. -/
def circle (s : Store) (p : Ptr) : Set UInt32 := {j | ∃ q ∈ users s.cache.heap p, s.cache.findId j = some q}

/-- The account with id `i`. -/
def account (s : Store) (i : UInt32) : Option Account :=
  match s.cache.findId i with
  | some p => some ⟨fields (s.cache.get p), circle s p⟩
  | none => (s.db.users.find? fun r => uid r = i).map fun r => ⟨rowFields r, {j | j ∈ storedFriends s.db i}⟩

variable {env : Env} {s s' s'' : Store} {i j : UInt32} {p q : Ptr} {u v : UserCacheItem}

theorem data_fields (u : UserCacheItem) (k : Text) : (fields u).data k = (u.getData k).1 := (getData_fst u k).symm

theorem fields_of_core (h : u.core = v.core) : fields u = fields v := by
  have hcore : fields u.core = fields v.core := by rw [h]
  exact hcore

theorem fields_rowItem {r : UserRow} (hr : rowCreds r ≠ none) (p : Ptr) : fields (rowItem env p r) = rowFields r := by
  obtain ⟨cr, hcr⟩ := Option.ne_none_iff_exists'.mp hr
  simp only [rowCreds, Option.bind_eq_bind, Option.bind_eq_some_iff, Option.some.injEq] at hcr
  obtain ⟨a, ha, b, hb, c, hc, -⟩ := hcr
  unfold rowItem rowFields
  rw [fillRow_eq, fillRow_eq]
  simp only [ha, hb, hc, Option.getD_some]
  rfl

theorem account_cached (h : s.cache.findId i = some p) :
    account s i = some ⟨fields (s.cache.get p), circle s p⟩ := by
  simp only [account, h]

theorem account_row (hok : DbOk s.db) (h : s.cache.findId i = none) {r : UserRow} (hr : r ∈ s.db.users)
    (hi : uid r = i) : account s i = some ⟨rowFields r, {j | j ∈ storedFriends s.db i}⟩ := by
  have hfind : s.db.users.find? (fun r => uid r = i) = some r := by
    rcases hf : s.db.users.find? (fun r => uid r = i) with _ | r'
    · have := List.find?_eq_none.mp hf r hr
      simp [hi] at this
    · have hi' : uid r' = i := by simpa using List.find?_some hf
      rw [hok.eq_of_uid (List.mem_of_find?_eq_some hf) hr (hi'.trans hi.symm)]
  simp only [account, h, hfind, Option.map_some]

/-- An account is cached or has a row. -/
theorem account_ne_none : account s i ≠ none ↔ Covered s i := by
  unfold Covered
  rcases h : s.cache.findId i with _ | p
  · simp only [account, h, ne_eq, Option.map_eq_none_iff, List.find?_eq_none, decide_eq_true_eq, not_true_eq_false,
      false_or, not_forall, not_not, exists_prop]
  · simp [account, h]

theorem row_of_account {a : Account} (ha : account s i = some a) (h : s.cache.findId i = none) :
    ∃ r ∈ s.db.users, uid r = i := by
  have hne : account s i ≠ none := by simp [ha]
  exact (account_ne_none.mp hne).resolve_left (not_not.mpr h)

/-! ### Order -/

/-- A cached account: texts without zero bytes, at most 21 friends who are cached, and marks for what is not stored. -/
structure Tended (s : Store) (i : UInt32) (p : Ptr) : Prop where
  username : NulFree (s.cache.get p).username
  mail : NulFree (s.cache.get p).mail
  data : Tidy (s.cache.get p).dataMap
  known : ∀ q ∈ users s.cache.heap p, ∃ j, s.cache.findId j = some q
  other : p ∉ users s.cache.heap p
  length : (users s.cache.heap p).length ≤ 21
  clean : (s.cache.get p).dirty = false → ∃ r ∈ s.db.users, uid r = i ∧ rowFields r = fields (s.cache.get p)
  friendClean : (s.cache.get p).friendDirty = false → circle s p = {j | j ∈ storedFriends s.db i}

/-- The stored friend lists: those who are on them and those who have them are there. -/
structure ListsHeld (s : Store) : Prop where
  listable : Listable s.db
  covered : ∀ i, ∀ j ∈ storedFriends s.db i, Covered s j
  owner : ∀ i, storedFriends s.db i ≠ [] → Covered s i

structure InOrder (s : Store) : Prop where
  sound : Sound s
  lists : ListsHeld s
  keys : KeyUnique KeyEq.ofEq s.cache.idMap
  tended : ∀ {i p}, s.cache.findId i = some p → Tended s i p

/-- Somebody whose friends are cached has the same ones when more is cached. -/
theorem circle_mono (hknown : ∀ q ∈ users s.cache.heap p, ∃ j, s.cache.findId j = some q)
    (hk : ∀ {i p}, s.cache.findId i = some p → s'.cache.findId i = some p) (hc : Coherent s')
    (hu : users s'.cache.heap p = users s.cache.heap p) : circle s' p = circle s p := by
  ext j
  constructor
  · rintro ⟨q, hq, hf⟩
    rw [hu] at hq
    obtain ⟨j₀, hj₀⟩ := hknown q hq
    rw [hc.id_inj hf (hk hj₀)]
    exact ⟨q, hq, hj₀⟩
  · rintro ⟨q, hq, hf⟩
    exact ⟨q, hu ▸ hq, hk hf⟩

theorem Tended.mono (h : Tended s i p) (hrow : ∀ r ∈ s.db.users, uid r = i → r ∈ s'.db.users)
    (hlist : storedFriends s'.db i = storedFriends s.db i)
    (hk : ∀ {i p}, s.cache.findId i = some p → s'.cache.findId i = some p) (hc : Coherent s')
    (hu : (s'.cache.get p).unflagged = (s.cache.get p).unflagged) : Tended s' i p := by
  have husers : users s'.cache.heap p = users s.cache.heap p := users_of_unflagged hu
  have hname : (s'.cache.get p).username = (s.cache.get p).username :=
    (congrArg UserCacheItem.username hu :)
  have hmail : (s'.cache.get p).mail = (s.cache.get p).mail :=
    (congrArg UserCacheItem.mail hu :)
  have hdata : (s'.cache.get p).dataMap = (s.cache.get p).dataMap :=
    (congrArg UserCacheItem.dataMap hu :)
  have hdirty : (s'.cache.get p).dirty = (s.cache.get p).dirty :=
    (congrArg UserCacheItem.dirty hu :)
  refine ⟨hname ▸ h.username, hmail ▸ h.mail, hdata ▸ h.data, fun q hq => ?_, husers ▸ h.other, husers ▸ h.length,
    fun hd => ?_, fun hd => ?_⟩
  · rw [husers] at hq
    obtain ⟨j, hj⟩ := h.known q hq
    exact ⟨j, hk hj⟩
  · obtain ⟨r, hr, hri, hf⟩ := h.clean (hdirty ▸ hd)
    exact ⟨r, hrow r hr hri, hri, hf.trans (fields_of_core (core_of_unflagged hu)).symm⟩
  · rw [circle_mono h.known hk hc husers, hlist]
    exact h.friendClean (friendDirty_of_unflagged hu ▸ hd)

theorem account_mono (h : Tended s i p) (hp : s.cache.findId i = some p)
    (hk : ∀ {i p}, s.cache.findId i = some p → s'.cache.findId i = some p) (hc : Coherent s')
    (hu : (s'.cache.get p).unflagged = (s.cache.get p).unflagged) : account s' i = account s i := by
  rw [account_cached hp, account_cached (hk hp), fields_of_core (core_of_unflagged hu),
    circle_mono h.known hk hc (users_of_unflagged hu)]

theorem Covered.mono (h : Covered s i) (hrows : ∀ r ∈ s.db.users, ∃ r' ∈ s'.db.users, uid r' = uid r)
    (hk : ∀ {i p}, s.cache.findId i = some p → s'.cache.findId i = some p) : Covered s' i := by
  rcases h with h | ⟨r, hr, rfl⟩
  · obtain ⟨p, hp⟩ := Option.ne_none_iff_exists'.mp h
    exact .inl (by simp [hk hp])
  · exact .inr (hrows r hr)

theorem ListsHeld.mono (h : ListsHeld s) (hrows : ∀ r ∈ s.db.users, ∃ r' ∈ s'.db.users, uid r' = uid r)
    (hfriends : s'.db.friends = s.db.friends)
    (hk : ∀ {i p}, s.cache.findId i = some p → s'.cache.findId i = some p) : ListsHeld s' := by
  have hlist : ∀ i, storedFriends s'.db i = storedFriends s.db i := fun i => by
    unfold storedFriends getMatchFriends
    rw [hfriends]
  refine ⟨⟨fun i => ?_, fun i => ?_⟩, fun i j hj => ?_, fun i hi => ?_⟩
  · rw [hlist]
    exact h.listable.length i
  · rw [hlist]
    exact h.listable.other i
  · rw [hlist] at hj
    exact Covered.mono (h.covered i j hj) hrows hk
  · rw [hlist] at hi
    exact Covered.mono (h.owner i hi) hrows hk

/-! ### Lookups -/

theorem loadFriends_keys {load : Store → Key → Option (Option Ptr × Store)}
    (hload : ∀ s key a s', KeyUnique KeyEq.ofEq s.cache.idMap → load s key = some (a, s') →
      KeyUnique KeyEq.ofEq s'.cache.idMap) (self : Ptr) :
    ∀ (l : List UInt32) (s s' : Store), KeyUnique KeyEq.ofEq s.cache.idMap → loadFriends load self l s = some s' →
      KeyUnique KeyEq.ofEq s'.cache.idMap
  | [], s, s', hs, h => by
    rw [loadFriends, Option.some.injEq] at h
    exact h ▸ hs
  | i :: l, s, s', hs, h => by
    rw [loadFriends] at h
    rcases hw : lookupWith load s (.id i) with _ | ⟨f, s₁⟩
    · rw [hw] at h; cases h
    rw [hw] at h
    refine loadFriends_keys hload self l _ s' ?_ h
    show KeyUnique KeyEq.ofEq s₁.cache.idMap
    unfold lookupWith at hw
    split at hw
    · cases hw
      exact hs
    · exact hload s _ f s₁ hs hw

theorem keys_add (env : Env) {c : UserCache} (h : KeyUnique KeyEq.ofEq c.idMap) (n : Text) (i : UInt32) :
    KeyUnique KeyEq.ofEq (c.add env n i).2.idMap := by
  show KeyUnique KeyEq.ofEq (if c.addId i > 0 then _ else _)
  split_ifs
  · exact h.insert _ _
  · exact h

theorem loadUser_keys : ∀ (k : ℕ) (s : Store) (key : Key) (a : Option Ptr) (s' : Store),
    KeyUnique KeyEq.ofEq s.cache.idMap → loadUser env k s key = some (a, s') → KeyUnique KeyEq.ofEq s'.cache.idMap
  | 0, _, _, _, _, _, h => by cases h
  | k + 1, s, key, a, s', hs, h => by
    rcases loadUser_cases h with ⟨j, r, hj, -, -, hl⟩ | ⟨n, -, -, -, rfl⟩
    · obtain rfl : k = j := by omega
      have hadd : KeyUnique KeyEq.ofEq (addRow env s r).2.cache.idMap := keys_add env hs (cstr r.username) _
      exact loadFriends_keys (loadUser_keys k) _ _ _ _ hadd hl
    · exact hs

theorem lookup_keys {k : ℕ} {key : Key} {a : Option Ptr} (hs : KeyUnique KeyEq.ofEq s.cache.idMap)
    (h : lookup env k s key = some (a, s')) : KeyUnique KeyEq.ofEq s'.cache.idMap := by
  rcases hk : s.cache.findKey key with _ | p
  · rw [lookup_uncached k key hk] at h
    exact loadUser_keys k s key a s' hs h
  · rw [lookup_cached env k key hk] at h
    cases h
    exact hs

theorem answers_of_answered {k : ℕ} {key : Key} {a : Option Ptr} (hok : DbOk s.db) (hc : Coherent s)
    (hx : Answered env s key) (h : lookup env k s key = some (a, s')) : Answers env s key a s' := by
  rcases hx with hcached | hx
  · obtain ⟨p, hp⟩ := Option.ne_none_iff_exists'.mp hcached
    rw [lookup_cached env k key hp] at h
    cases h
    exact ⟨.refl s, hc, .refl s, p, hp, rfl⟩
  · exact lookup_answers hok hc hx h

theorem tidy_setDataMap (d : List Byte) : Tidy (setDataLoop d.length d []) := by
  have hdata : setDataLoop d.length d [] = _ := dataMap_setDataMap (.new [] (Buf.zero 20)) d
  have hall : ∀ x ∈ (records d).foldl (fun m x => insertLt strcmpiLt m x.1 x.2) [], NulFree x.1 ∧ NulFree x.2 :=
    forall_mem_foldl_insertLt (P := NulFree) (Q := NulFree) (fun x hx => absurd hx List.not_mem_nil)
      fun x hx => ⟨(nulFree_of_mem_records hx).1.1, (nulFree_of_mem_records hx).2⟩
  rw [hdata]
  exact ⟨Ordered.foldl_insertLt nameEq_order List.Pairwise.nil _, hall⟩

/-- An account that was loaded, with the friends that were. -/
theorem tended_new (hlists : Listable s.db) (hc : Coherent s) (hp : s.cache.findId i = some p)
    {r : UserRow} (hr : r ∈ s.db.users) (hblobs : rowCreds r ≠ none) (hi : uid r = i)
    (hcore : (s.cache.get p).core = (rowItem env p r).core) (hg : Gathered s p (storedFriends s.db i)) :
    Tended s i p ∧ account s i = some ⟨rowFields r, {j | j ∈ storedFriends s.db i}⟩ := by
  have hfields : fields (s.cache.get p) = rowFields r := (fields_of_core hcore).trans (fields_rowItem hblobs p)
  have hcircle : circle s p = {j | j ∈ storedFriends s.db i} := by
    ext j
    constructor
    · rintro ⟨q, hq, hf⟩
      obtain ⟨j', hj', hf'⟩ := hg.cached q hq
      rw [hc.id_inj hf hf']
      exact hj'
    · exact fun hj => hg.listed j hj
  refine ⟨⟨?_, ?_, ?_, fun q hq => ?_, fun hself => ?_, hg.length.trans (hlists.length i), fun _ => ?_,
    fun _ => hcircle⟩,
    ?_⟩
  · have hname : (s.cache.get p).username = (rowItem env p r).username :=
      (congrArg UserCacheItem.username hcore :)
    rw [hname, rowItem, fillRow_eq]
    exact nulFree_cstr _
  · have hmail : (s.cache.get p).mail = (rowItem env p r).mail :=
      (congrArg UserCacheItem.mail hcore :)
    rw [hmail, rowItem, fillRow_eq]
    exact nulFree_cstr _
  · have hdata : (s.cache.get p).dataMap = (rowItem env p r).dataMap :=
      (congrArg UserCacheItem.dataMap hcore :)
    rw [hdata, rowItem, fillRow_eq]
    exact tidy_setDataMap r.data
  · obtain ⟨j, -, hj⟩ := hg.cached q hq
    exact ⟨j, hj⟩
  · -- nobody is stored as a friend of their own
    obtain ⟨j, hj, hf⟩ := hg.cached p hself
    rw [hc.id_inj hf hp] at hj
    exact hlists.other i hj
  · exact ⟨r, hr, hi, hfields.symm⟩
  · rw [account_cached hp, hfields, hcircle]

/-- **A lookup changes no account.** -/
theorem InOrder.look {k : ℕ} {key : Key} {a : Option Ptr} (h : InOrder s) (hx : Answered env s key)
    (hl : lookup env k s key = some (a, s')) : InOrder s' ∧ ∀ i, account s' i = account s i := by
  have ha := answers_of_answered h.sound.db h.sound.coherent hx hl
  have hg := lookup_gathers h.sound.db h.lists.listable h.sound.coherent hx hl
  have hnew : ∀ {i p}, s.cache.findId i = none → s'.cache.findId i = some p → ∃ r ∈ s.db.users, uid r = i ∧
      Tended s' i p ∧ account s' i = some ⟨rowFields r, {j | j ∈ storedFriends s.db i}⟩ := by
    intro i p hi hp
    rcases ha.loaded.newId hp with hold | ⟨-, r, hr, hri, hcore⟩
    · rw [hi] at hold
      cases hold
    · have hlist := hg.new hi hp
      rw [← ha.loaded.db] at hlist ⊢
      have hr' : r ∈ s'.db.users := ha.loaded.db ▸ hr
      obtain ⟨ht, hacc⟩ := tended_new (ha.loaded.db ▸ h.lists.listable) ha.coherent hp hr' (h.sound.blobs r hr) hri
        hcore hlist
      exact ⟨r, hr', hri, ht, hacc⟩
  have hold : ∀ {i p}, s.cache.findId i = some p → (s'.cache.get p).unflagged = (s.cache.get p).unflagged :=
    fun hi => hg.old _ (h.sound.coherent.id hi).1 id
  have hrows : ∀ r ∈ s.db.users, ∃ r' ∈ s'.db.users, uid r' = uid r := fun r hr => ⟨r, ha.loaded.db ▸ hr, rfl⟩
  have hfriends : s'.db.friends = s.db.friends := by rw [ha.loaded.db]
  refine ⟨⟨h.sound.loaded ha.loaded ha.coherent, h.lists.mono hrows hfriends ha.loaded.keepId, lookup_keys h.keys hl,
    fun {i p} hi => ?_⟩, fun i => ?_⟩
  · rcases hi₀ : s.cache.findId i with _ | q
    · obtain ⟨r, -, -, ht, -⟩ := hnew hi₀ hi
      exact ht
    · have hq : q = p := Option.some.inj ((ha.loaded.keepId hi₀).symm.trans hi)
      subst hq
      exact (h.tended hi₀).mono (fun r hr _ => ha.loaded.db ▸ hr) (by rw [ha.loaded.db]) ha.loaded.keepId ha.coherent
        (hold hi₀)
  · rcases hi₀ : s.cache.findId i with _ | q
    · rcases hi : s'.cache.findId i with _ | p
      · simp only [account, hi₀, hi, ha.loaded.db]
      · obtain ⟨r, hr, hri, -, hacc⟩ := hnew hi₀ hi
        rw [hacc, account_row h.sound.db hi₀ hr hri]
    · exact account_mono (h.tended hi₀) hi₀ ha.loaded.keepId ha.coherent (hold hi₀)

/-! ### Changes of one account -/

theorem coherent_setHeap {h : Heap UserCacheItem} (hc : Coherent s) (hb : h.brk = s.cache.heap.brk)
    (hget : ∀ q, (h.cell q).id = (s.cache.get q).id ∧ (h.cell q).username = (s.cache.get q).username) :
    Coherent (s.setHeap h) := by
  have hid : ∀ q, ((s.setHeap h).cache.get q).id = (s.cache.get q).id := fun q => (hget q).1
  have hname : ∀ q, ((s.setHeap h).cache.get q).username = (s.cache.get q).username := fun q => (hget q).2
  refine ⟨fun {n q} hn => ?_, fun {i q} hi => ?_, fun r hr {q} hn => ?_, fun r hr {q} hi => ?_⟩
  · obtain ⟨hq, h1, h2⟩ := hc.name hn
    rw [hid, hname]
    exact ⟨hq.trans_eq hb.symm, h1, h2⟩
  · obtain ⟨hq, h1, h2, h3⟩ := hc.id hi
    rw [hid, hname]
    exact ⟨hq.trans_eq hb.symm, h1, h2, h3⟩
  · rw [hid]
    exact hc.row r hr hn
  · rw [hname]
    exact hc.idRow r hr hi

theorem sound_setHeap {h : Heap UserCacheItem} (hs : Sound s) (hb : h.brk = s.cache.heap.brk)
    (hget : ∀ q, (h.cell q).id = (s.cache.get q).id ∧ (h.cell q).username = (s.cache.get q).username) :
    Sound (s.setHeap h) :=
  ⟨hs.db, hs.blobs, coherent_setHeap hs.coherent hb hget, hs.next, hs.below, hs.rowBelow⟩

/-- `v` is what may become of the account `p`: what differs is marked. -/
structure Marked (s : Store) (p : Ptr) (v : UserCacheItem) : Prop where
  id : v.id = (s.cache.get p).id
  username : v.username = (s.cache.get p).username
  mail : NulFree v.mail
  data : Tidy v.dataMap
  known : ∀ f ∈ v.friendList, f.user ≠ p ∧ ∃ j, s.cache.findId j = some f.user
  length : v.friendList.length ≤ 21
  clean : v.dirty = false → (s.cache.get p).dirty = false ∧ fields v = fields (s.cache.get p)
  friendClean : v.friendDirty = false →
    (s.cache.get p).friendDirty = false ∧ v.friendList.map Friend.user = users s.cache.heap p

/-- **An account is changed in place**, and of the others at most flags. -/
theorem InOrder.edit (heap : Heap UserCacheItem) (h : InOrder s) (hi : s.cache.findId i = some p)
    (hb : heap.brk = s.cache.heap.brk)
    (ho : ∀ q ≠ p, (heap.cell q).unflagged = (s.cache.get q).unflagged) (hm : Marked s p (heap.cell p)) :
    InOrder (s.setHeap heap) ∧ ∀ j ≠ i, account (s.setHeap heap) j = account s j := by
  have hget : ∀ q, (heap.cell q).id = (s.cache.get q).id ∧ (heap.cell q).username = (s.cache.get q).username := by
    intro q
    by_cases hq : q = p
    · rw [hq]
      exact ⟨hm.id, hm.username⟩
    · exact ⟨(congrArg UserCacheItem.id (ho q hq) :), (congrArg UserCacheItem.username (ho q hq) :)⟩
  have hsound := sound_setHeap h.sound hb hget
  have hne : ∀ {j q}, s.cache.findId j = some q → j ≠ i → q ≠ p := fun hj hji hq =>
    hji (h.sound.coherent.id_inj (hq ▸ hj) hi)
  refine ⟨⟨hsound, h.lists.mono (fun r hr => ⟨r, hr, rfl⟩) rfl id, h.keys, fun {j q} hj => ?_⟩, fun j hji => ?_⟩
  · have hj : s.cache.findId j = some q := hj
    by_cases hq : q = p
    · subst hq
      obtain rfl : j = i := h.sound.coherent.id_inj hj hi
      have ht := h.tended hj
      refine ⟨hm.username.symm ▸ ht.username, hm.mail, hm.data, fun r hr => ?_, fun hself => ?_, ?_, fun hd => ?_,
        fun hd => ?_⟩
      · obtain ⟨f, hf, rfl⟩ := List.mem_map.mp hr
        exact (hm.known f hf).2
      · obtain ⟨f, hf, hfq⟩ := List.mem_map.mp hself
        exact (hm.known f hf).1 hfq
      · exact (List.length_map _).trans_le hm.length
      · obtain ⟨hd, hf⟩ := hm.clean hd
        obtain ⟨r, hr, hri, hrow⟩ := ht.clean hd
        exact ⟨r, hr, hri, hrow.trans hf.symm⟩
      · obtain ⟨hd, hf⟩ := hm.friendClean hd
        have hcircle : circle (s.setHeap heap) q = circle s q := circle_mono ht.known id hsound.coherent hf
        rw [hcircle]
        exact ht.friendClean hd
    · exact (h.tended hj).mono (fun r hr _ => hr) rfl id hsound.coherent (ho q hq)
  · rcases hj : s.cache.findId j with _ | q
    · have hj' : (s.setHeap heap).cache.findId j = none := hj
      simp only [account, hj, hj']
      rfl
    · exact account_mono (h.tended hj) hj id hsound.coherent (ho q (hne hj hji))

/-- `GetData` may make an entry, but without a value. -/
theorem fields_getData (u : UserCacheItem) (k : Text) : fields (u.getData k).2 = fields u := by
  have hdata : (fields (u.getData k).2).data = (fields u).data := by
    funext k'
    rw [data_fields, data_fields, getData_getData]
  unfold UserCacheItem.getData at hdata ⊢
  split at hdata
  · rfl
  · unfold fields at hdata ⊢
    dsimp only at hdata ⊢
    rw [hdata]

/-- What setters do: the friends stay, and what differs is marked. -/
structure Sets (u v : UserCacheItem) : Prop where
  id : v.id = u.id
  username : v.username = u.username
  friendList : v.friendList = u.friendList
  friendDirty : v.friendDirty = u.friendDirty
  clean : v.dirty = false → u.dirty = false ∧ fields v = fields u

namespace Sets

theorem refl (u : UserCacheItem) : Sets u u := ⟨rfl, rfl, rfl, rfl, fun h => ⟨h, rfl⟩⟩

theorem setSalt (u : UserCacheItem) (b : Buf 32) : Sets u (u.setSalt b) := by
  unfold UserCacheItem.setSalt
  split_ifs
  · exact .refl u
  · exact ⟨rfl, rfl, rfl, rfl, fun h => by cases h⟩

theorem setVerifier (u : UserCacheItem) (b : Buf 32) : Sets u (u.setVerifier b) := by
  unfold UserCacheItem.setVerifier
  split_ifs
  · exact .refl u
  · exact ⟨rfl, rfl, rfl, rfl, fun h => by cases h⟩

theorem setPasswd (u : UserCacheItem) (b : Buf 20) : Sets u (u.setPasswd b) := by
  unfold UserCacheItem.setPasswd
  split_ifs
  · exact .refl u
  · exact ⟨rfl, rfl, rfl, rfl, fun h => by cases h⟩

theorem setMail (u : UserCacheItem) (m : Text) : Sets u (u.setMail m) := by
  unfold UserCacheItem.setMail
  split_ifs
  · exact .refl u
  · exact ⟨rfl, rfl, rfl, rfl, fun h => by cases h⟩

theorem getData (u : UserCacheItem) (k : Text) : Sets u (u.getData k).2 := by
  have hfields := fields_getData u k
  unfold UserCacheItem.getData at hfields ⊢
  split at hfields
  · exact .refl u
  · exact ⟨rfl, rfl, rfl, rfl, fun h => ⟨h, hfields⟩⟩

theorem setData (u : UserCacheItem) (k v : Text) : Sets u (u.setData k v) := by
  have hget := Sets.getData u k
  unfold UserCacheItem.setData
  dsimp only
  split_ifs
  · exact hget
  · exact ⟨hget.id, hget.username, hget.friendList, hget.friendDirty, fun h => by cases h⟩

end Sets

theorem Marked.of_sets (ht : Tended s i p) {v : UserCacheItem} (hs : Sets (s.cache.get p) v) (hm : NulFree v.mail)
    (hd : Tidy v.dataMap) : Marked s p v := by
  refine ⟨hs.id, hs.username, hm, hd, fun f hf => ?_, ?_, hs.clean, fun hfd => ⟨hs.friendDirty.symm.trans hfd, ?_⟩⟩
  · rw [hs.friendList] at hf
    have hmem : f.user ∈ users s.cache.heap p := lists_of_mem hf
    exact ⟨fun he => ht.other (he ▸ hmem), ht.known _ hmem⟩
  · rw [hs.friendList]
    exact (List.length_map _).symm.trans_le ht.length
  · rw [hs.friendList]
    rfl

/-- Changes that mark what they change. -/
theorem InOrder.mark (h : InOrder s) (hi : s.cache.findId i = some p) {f : UserCacheItem → UserCacheItem}
    (hm : Marked s p (f (s.cache.get p))) :
    InOrder ⟨s.cache.modify p f, s.db⟩ ∧ ∀ j ≠ i, account ⟨s.cache.modify p f, s.db⟩ j = account s j := by
  refine h.edit (s.cache.heap.modify p f) hi rfl (fun q hq => ?_) ?_
  · rw [Heap.modify_ne _ f hq]
    rfl
  · rw [Heap.modify_self]
    exact hm

/-! ### Changes of a friend list -/

/-- What `RemoveFriend` and `MoveFriend` do: nothing, or a list of some of the entries, and a mark. -/
inductive Regroups (u : UserCacheItem) : UserCacheItem → Prop
  | same : Regroups u u
  | some {l : List Friend} (hl : ∀ f ∈ l, f ∈ u.friendList) (hlen : l.length ≤ u.friendList.length) :
      Regroups u { u with friendList := l, friendDirty := true }

theorem regroups_removeFriend (u : UserCacheItem) (idx : ℕ) : Regroups u (u.removeFriend idx).2 := by
  unfold UserCacheItem.removeFriend
  split_ifs
  · exact .same
  · obtain ⟨hlen, hmem⟩ := foldl_copy (fun k => k - 1) (fun k => k)
      (List.range' (idx + 1) (u.friendList.length - 1 - idx)).reverse u.friendList
    refine .some (fun f hf => hmem f (List.mem_of_mem_take hf)) ?_
    exact (List.length_take_le _ _).trans ((Nat.sub_le _ _).trans hlen.le)
  · refine .some (fun f hf => List.mem_of_mem_take hf) ?_
    exact (List.length_take_le _ _).trans (Nat.sub_le _ _)

theorem regroups_moveFriend (u : UserCacheItem) (idx1 idx2 : ℕ) : Regroups u (u.moveFriend idx1 idx2).2 := by
  unfold UserCacheItem.moveFriend
  split_ifs
  · exact .same
  · exact .same
  · exact .same
  · obtain ⟨hlen, hmem⟩ := foldl_copy (fun k => k) (fun k => k + 1) (List.range' idx1 (idx2 - idx1)) u.friendList
    exact .some (fun f hf => hmem f (mem_of_mem_copy hf)) ((length_copy ..).trans hlen).le
  · obtain ⟨hlen, hmem⟩ := foldl_copy (fun k => k) (fun k => k - 1) (List.range' (idx2 + 1) (idx1 - idx2)).reverse
      u.friendList
    exact .some (fun f hf => hmem f (mem_of_mem_copy hf)) ((length_copy ..).trans hlen).le

theorem Regroups.fields (h : Regroups u v) : fields v = fields u := by
  cases h with
  | same => rfl
  | some => rfl

theorem Regroups.dataMap (h : Regroups u v) : v.dataMap = u.dataMap := by
  cases h with
  | same => rfl
  | some => rfl

theorem Regroups.subset (h : Regroups u v) : ∀ f ∈ v.friendList, f ∈ u.friendList := by
  cases h with
  | same => exact fun _ => id
  | some hl => exact hl

theorem marked_self (ht : Tended s i p) : Marked s p (s.cache.get p) := .of_sets ht (.refl _) ht.mail ht.data

theorem Marked.of_regroups (ht : Tended s i p) (h : Regroups (s.cache.get p) v) : Marked s p v := by
  cases h with
  | same => exact marked_self ht
  | some hl hlen =>
    refine ⟨rfl, rfl, ht.mail, ht.data, fun f hf => ?_, hlen.trans ((List.length_map _).symm.trans_le ht.length),
      fun hd => ⟨hd, rfl⟩, fun hd => by cases hd⟩
    have hmem : f.user ∈ users s.cache.heap p := lists_of_mem (hl f hf)
    exact ⟨fun he => ht.other (he ▸ hmem), ht.known _ hmem⟩

/-- `AddFriend`. -/
theorem InOrder.befriend (h : InOrder s) (hi : s.cache.findId i = some p) (hj : s.cache.findId j = some q) :
    InOrder (s.setHeap (addFriend s.cache.heap p (some q)).1) ∧
      ∀ j ≠ i, account (s.setHeap (addFriend s.cache.heap p (some q)).1) j = account s j := by
  have ht := h.tended hi
  refine h.edit _ hi (addFriend_brk s.cache.heap p (some q)) (fun r hr => unflagged_addFriend hr _) ?_
  rcases addFriend_outcome s.cache.heap p q with ⟨-, he⟩ | ⟨_, -, -, he⟩ | ⟨hne, -, hlen, he⟩
  · rw [he]
    exact marked_self ht
  · rw [he]
    exact marked_self ht
  · rw [he]
    dsimp only
    rw [Heap.modify_self]
    -- flags apart, the account is as it was before the friend is put on its list
    have hback := unflagged_markBack s.cache.heap p q p
    have husers : ((markBack s.cache.heap p q).cell p).friendList.map Friend.user = users s.cache.heap p :=
      users_of_unflagged hback
    have hcore := core_of_unflagged hback
    refine ⟨(congrArg UserCacheItem.id hback :), (congrArg UserCacheItem.username hback :), ?_, ?_, fun f hf => ?_, ?_,
      fun hd => ⟨?_, ?_⟩, fun hd => by cases hd⟩
    · rw [show (pushFriend _ _).mail = (s.cache.get p).mail from (congrArg UserCacheItem.mail hback :)]
      exact ht.mail
    · rw [show (pushFriend _ _).dataMap = (s.cache.get p).dataMap from (congrArg UserCacheItem.dataMap hback :)]
      exact ht.data
    · rcases List.mem_append.mp hf with hf | hf
      · have hmem : f.user ∈ users s.cache.heap p := husers ▸ List.mem_map_of_mem hf
        exact ⟨fun he => ht.other (he ▸ hmem), ht.known _ hmem⟩
      · rw [List.mem_singleton.mp hf]
        exact ⟨hne, j, hj⟩
    · have hlist : ((markBack s.cache.heap p q).cell p).friendList.length = (friends s.cache.heap p).length := by
        have := congrArg List.length husers
        rwa [List.length_map, users, List.length_map] at this
      rw [pushFriend, List.length_append, List.length_singleton, hlist]
      omega
    · exact (show (s.cache.get p).dirty = _ from (congrArg UserCacheItem.dirty hback :).symm).trans hd
    · exact fields_of_core hcore

/-! ### New accounts -/

/-- The next id is nobody's. -/
theorem nextUid_free (h : Sound s) : ¬ Covered s s.cache.nextUid := by
  rintro (hc | ⟨r, hr, hri⟩)
  · obtain ⟨q, hq⟩ := Option.ne_none_iff_exists'.mp hc
    exact absurd (h.below hq) (UInt32.lt_irrefl _)
  · have hlt := h.rowBelow r hr
    rw [hri] at hlt
    exact absurd hlt (UInt32.lt_irrefl _)

theorem storedFriends_nextUid (h : InOrder s) : storedFriends s.db s.cache.nextUid = [] := by
  by_contra hne
  exact nextUid_free h.sound (h.lists.owner _ hne)

theorem circle_of_nil (hu : users s.cache.heap p = []) : circle s p = ∅ := by
  ext j
  simp [circle, hu]

/-- A marked account that has a name and nothing else. -/
theorem tended_bare (hn : NulFree (s.cache.get p).username) (hm : (s.cache.get p).mail = [])
    (hd : (s.cache.get p).dataMap = []) (hu : users s.cache.heap p = []) (hmark : (s.cache.get p).dirty = true)
    (hstored : storedFriends s.db i = []) : Tended s i p := by
  refine ⟨hn, ?_, ?_, ?_, ?_, ?_, fun hclean => ?_, fun _ => ?_⟩
  · rw [hm]
    exact fun x hx => by cases hx
  · rw [hd]
    exact tidy_nil
  · rw [hu]
    exact fun q hq => by cases hq
  · rw [hu]
    exact List.not_mem_nil
  · rw [hu]
    exact Nat.zero_le _
  · rw [hmark] at hclean
    cases hclean
  · rw [circle_of_nil hu, hstored]
    simp

/-- **A new account is in order when it is marked**, and leaves the others alone. -/
theorem InOrder.added (h : InOrder s) {n : Text} {f : UserCacheItem → UserCacheItem}
    (hf : ∀ u, (f u).id = u.id ∧ (f u).username = u.username)
    (hname : ∀ q, s.cache.findName n = some q → (s.cache.get q).id = 0)
    (hrow : ∀ r ∈ s.db.users, strcmpiEq n r.username = false) (hnext : s.cache.nextUid.toNat + 1 < 2 ^ 32)
    (hn : NulFree n) (hmarks : ∀ u : UserCacheItem, u.flag = 0 → (f u).dirty = true)
    (hmail : ∀ u : UserCacheItem, (f u).mail = u.mail) (hdata : ∀ u : UserCacheItem, (f u).dataMap = u.dataMap)
    (hlist : ∀ u : UserCacheItem, (f u).friendList = u.friendList) :
    InOrder (added env s n f) ∧ (∀ i ≠ s.cache.nextUid, account (added env s n f) i = account s i) ∧
      account (added env s n f) s.cache.nextUid =
        some ⟨fields (f ((UserCacheItem.new n (env.junk s.cache.heap.brk)).setUserId s.cache.nextUid)), ∅⟩ := by
  have hfr := fresh_added env h.sound.indexed hf hname hrow
  have hindexed : Indexed (Cache.added env s n f) := h.sound.indexed.added hf hname hrow hnext
  set s' := Cache.added env s n f with hs'
  set p := s.cache.heap.brk with hp
  have hget : s'.cache.get p = f ((UserCacheItem.new n (env.junk p)).setUserId s.cache.nextUid) := get_added n f
  have hid : (s'.cache.get p).id = s.cache.nextUid := by rw [hget, (hf _).1]; rfl
  have husers : users s'.cache.heap p = [] := by
    show (s'.cache.get p).friendList.map Friend.user = []
    rw [hget, hlist]
    rfl
  have hfind : s'.cache.findId s.cache.nextUid = some p := by
    rw [hfr.id, hid, if_pos ⟨h.sound.next, rfl⟩]
  have hold : ∀ {i q}, s.cache.findId i = some q → (s'.cache.get q).unflagged = (s.cache.get q).unflagged := fun hi =>
    congrArg UserCacheItem.unflagged (hfr.old _ (h.sound.coherent.id hi).1)
  refine ⟨⟨hindexed.sound h.sound.blobs, h.lists.mono (fun r hr => ⟨r, hr, rfl⟩) rfl hfr.keepId,
    keys_add env h.keys n 0, fun {i q} hi => ?_⟩, fun i hi => ?_,
    by rw [account_cached hfind, hget, circle_of_nil husers]⟩
  · rcases hi₀ : s.cache.findId i with _ | q'
    · -- what is cached now and was not before is the new account
      obtain ⟨hne, rfl⟩ : (s'.cache.get p).id ≠ 0 ∧ i = (s'.cache.get p).id := by
        by_contra hno
        rw [hfr.id, if_neg hno, hi₀] at hi
        cases hi
      rw [hid] at hi
      obtain rfl : p = q := Option.some.inj (hfind.symm.trans hi)
      rw [hid]
      refine tended_bare ?_ ?_ ?_ husers ?_ (storedFriends_nextUid h)
      · rw [hget, (hf _).2]
        exact hn
      · rw [hget, hmail]
        rfl
      · rw [hget, hdata]
        rfl
      · rw [hget]
        exact hmarks _ rfl
    · have hq : q' = q := Option.some.inj ((hfr.keepId hi₀).symm.trans hi)
      subst hq
      exact (h.tended hi₀).mono (fun r hr _ => hr) rfl hfr.keepId hindexed.coherent (hold hi₀)
  · rcases hi₀ : s.cache.findId i with _ | q
    · have hi' : s'.cache.findId i = none := by
        have hne : ¬ ((s'.cache.get p).id ≠ 0 ∧ i = (s'.cache.get p).id) := fun e => hi (e.2.trans hid)
        rw [hfr.id, if_neg hne, hi₀]
      simp only [account, hi₀, hi']
      rfl
    · exact account_mono (h.tended hi₀) hi₀ hfr.keepId hindexed.coherent (hold hi₀)

end Blitzd.Plugins.Ledger
