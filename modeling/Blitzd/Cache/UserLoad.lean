import Mathlib.Data.List.Pairwise
import Blitzd.Cache.UserCache

/-! # What a lookup does to the cache

`Coherent s`: the two maps of the cache and the rows of the database agree on who is who. A lookup
whose condition selects the rows it is meant to (`Exact`; always so for ids, `exact_id`) keeps that,
leaves the database and every cached account as they are apart from friend lists, and adds accounts
only from their rows (`Loaded`, `lookup_answers`). Accounts it added have all their stored friends in
the cache afterwards (`Closed`).

It returns when every id it needs is cached or has a row (`Needs`, `lookup_total`): each load caches
one more row, so loads nest no deeper than there are rows. -/

namespace Blitzd.Cache

open Blitzd.Lib Blitzd.Lib.Bytes Blitzd.Lib.KeyMap Blitzd.Lib.Numerals Blitzd.Utils.CString
open Blitzd.Storage.Sqlite

/-- The user id of a row, as the code reads it. -/
def uid (r : UserRow) : UInt32 := UInt32.ofInt r.userid

/-- The users as the server stores them: no two with one id or name, ids positive `uint`s, names C
strings. -/
structure DbOk (db : Database) : Prop where
  unique : db.Unique
  range : ∀ r ∈ db.users, 0 < r.userid ∧ r.userid < 2 ^ 32
  nulFree : ∀ r ∈ db.users, NulFree r.username

theorem toNat_ofInt {n : ℤ} (h0 : 0 ≤ n) (h : n < 2 ^ 32) : ((UInt32.ofInt n).toNat : ℤ) = n := by
  rw [UInt32.ofInt, UInt32.toNat_ofNat']
  omega

namespace DbOk

variable {db : Database} (h : DbOk db) {r r' : UserRow}

include h

theorem toNat_uid (hr : r ∈ db.users) : ((uid r).toNat : ℤ) = r.userid := by
  obtain ⟨h0, h1⟩ := h.range r hr
  exact toNat_ofInt (by omega) h1

theorem uid_ne_zero (hr : r ∈ db.users) : uid r ≠ 0 := fun e => by
  have h1 := h.toNat_uid hr
  have h2 := (h.range r hr).1
  rw [e] at h1
  simp at h1
  omega

theorem eq_of_uid (hr : r ∈ db.users) (hr' : r' ∈ db.users) (e : uid r = uid r') : r = r' := by
  by_contra hne
  have hs : Std.Symm fun r r' : UserRow => r.userid ≠ r'.userid := ⟨fun _ _ => Ne.symm⟩
  have := h.unique.userid.forall hr hr' hne
  rw [← h.toNat_uid hr, ← h.toNat_uid hr', e] at this
  exact this rfl

theorem strcmpiEq_row (hr : r ∈ db.users) {n : Text} (hn : NulFree n) :
    strcmpiEq r.username n = nocase r.username n := by
  unfold strcmpiEq nocase
  rw [cstr_of_nulFree (h.nulFree r hr), cstr_of_nulFree hn]

theorem eq_of_name (hr : r ∈ db.users) (hr' : r' ∈ db.users)
    (e : strcmpiEq r.username r'.username = true) : r = r' := by
  by_contra hne
  have hs : Std.Symm fun r r' : UserRow => nocase r.username r'.username = false :=
    ⟨fun a b hab => by
      simp only [nocase, decide_eq_false_iff_not] at hab ⊢
      exact fun e => hab e.symm⟩
  have := h.unique.username.forall hr hr' hne
  rw [h.strcmpiEq_row hr (h.nulFree r' hr'), this] at e
  cases e

end DbOk

/-! ### Coherent caches -/

/-- The maps, the accounts and the rows agree: an account is found under its own name and id, and a
row whose name or id is in a map belongs to the account found there. -/
structure Coherent (s : Store) : Prop where
  name : ∀ {n p}, s.cache.findName n = some p → p < s.cache.heap.brk ∧
    strcmpiEq (s.cache.get p).username n = true ∧
    ((s.cache.get p).id ≠ 0 → s.cache.findId (s.cache.get p).id = some p)
  id : ∀ {i p}, s.cache.findId i = some p → p < s.cache.heap.brk ∧ (s.cache.get p).id = i ∧ i ≠ 0 ∧
    s.cache.findName (s.cache.get p).username = some p
  row : ∀ r ∈ s.db.users, ∀ {p}, s.cache.findName r.username = some p → (s.cache.get p).id = uid r
  idRow : ∀ r ∈ s.db.users, ∀ {p}, s.cache.findId (uid r) = some p →
    strcmpiEq (s.cache.get p).username r.username = true

/-- The empty cache, over any database. -/
theorem coherent_new {c : UserCache} (hn : c.nameMap = []) (hi : c.idMap = []) (db : Database) :
    Coherent ⟨c, db⟩ := by
  have h1 : ∀ n, c.findName n = none := fun n => by unfold UserCache.findName; rw [hn]; rfl
  have h2 : ∀ i, c.findId i = none := fun i => by unfold UserCache.findId; rw [hi]; rfl
  refine ⟨fun h => ?_, fun h => ?_, fun r _ _ h => ?_, fun r _ _ h => ?_⟩
  · exact absurd ((h1 _).symm.trans h) (by simp)
  · exact absurd ((h2 _).symm.trans h) (by simp)
  · exact absurd ((h1 _).symm.trans h) (by simp)
  · exact absurd ((h2 _).symm.trans h) (by simp)

theorem UserCache.findName_congr (c : UserCache) {n n' : Text} (h : strcmpiEq n n' = true) :
    c.findName n = c.findName n' := find_congr (e := nameEq) h _

namespace Coherent

variable {s : Store} (h : Coherent s) {r : UserRow}

include h

theorem findName_of_findId (hr : r ∈ s.db.users) {p : Ptr} (hi : s.cache.findId (uid r) = some p) :
    s.cache.findName r.username = some p := by
  obtain ⟨-, -, -, hn⟩ := h.id hi
  rw [← s.cache.findName_congr (h.idRow r hr hi), hn]

theorem findId_of_findName (hok : DbOk s.db) (hr : r ∈ s.db.users) {p : Ptr}
    (hn : s.cache.findName r.username = some p) : s.cache.findId (uid r) = some p := by
  obtain ⟨-, -, hi⟩ := h.name hn
  have e := h.row r hr hn
  rw [e] at hi
  exact hi (hok.uid_ne_zero hr)

end Coherent

/-! ### Loading keeps what was there -/

section Loaded

variable (env : Env)

/-- The account of a row, without friends. -/
def rowItem (p : Ptr) (r : UserRow) : UserCacheItem :=
  fillRow r ((UserCacheItem.new (cstr r.username) (env.junk p)).setUserId (uid r))

/-- `s'` came from `s` by loading rows. -/
structure Loaded (s s' : Store) : Prop where
  db : s'.db = s.db
  heap : Heap.Extends UserCacheItem.core s.cache.heap s'.cache.heap
  keepId : ∀ {i p}, s.cache.findId i = some p → s'.cache.findId i = some p
  keepName : ∀ {n p}, s.cache.findName n = some p → s'.cache.findName n = some p
  newId : ∀ {i p}, s'.cache.findId i = some p → s.cache.findId i = some p ∨
    (s.cache.heap.brk ≤ p ∧ ∃ r ∈ s.db.users, uid r = i ∧
      (s'.cache.get p).core = (rowItem env p r).core)
  next : (∀ r ∈ s.db.users, uid r < s.cache.nextUid) → s'.cache.nextUid = s.cache.nextUid

variable {env}

theorem Loaded.refl (s : Store) : Loaded env s s :=
  ⟨rfl, .refl _ _, id, id, Or.inl, fun _ => rfl⟩

theorem Loaded.trans {s s' s'' : Store} (h : Loaded env s s') (h' : Loaded env s' s'')
    (hc : Coherent s') : Loaded env s s'' where
  db := h'.db.trans h.db
  heap := h.heap.trans h'.heap
  keepId hi := h'.keepId (h.keepId hi)
  keepName hn := h'.keepName (h.keepName hn)
  newId := by
    intro i p hi
    rcases h'.newId hi with hi | ⟨hp, r, hr, e, hcore⟩
    · rcases h.newId hi with hi' | ⟨hp, r, hr, e, hcore⟩
      · exact Or.inl hi'
      · refine Or.inr ⟨hp, r, hr, e, ?_⟩
        rw [← hcore]
        exact h'.heap.cell p (hc.id hi).1
    · rw [h.db] at hr
      exact Or.inr ⟨h.heap.brk.trans hp, r, hr, e, hcore⟩
  next hb := by
    have h1 := h.next hb
    rw [← h1]
    refine h'.next fun r hr => ?_
    rw [h1]
    exact hb r (h.db ▸ hr)

/-- What the maps rely on is part of `core`. -/
theorem id_username_of_core {u v : UserCacheItem} (h : u.core = v.core) :
    u.id = v.id ∧ u.username = v.username :=
  ⟨(congrArg UserCacheItem.id h : u.core.id = v.core.id),
    (congrArg UserCacheItem.username h : u.core.username = v.core.username)⟩

variable (env) in
/-- Changes of friend lists. -/
theorem loaded_setHeap {s : Store} {h : Heap UserCacheItem} (hc : Coherent s)
    (hx : Heap.Extends UserCacheItem.core s.cache.heap h) (hb : h.brk = s.cache.heap.brk) :
    Loaded env s (s.setHeap h) ∧ Coherent (s.setHeap h) := by
  have hget : ∀ {p}, p < s.cache.heap.brk →
      ((s.setHeap h).cache.get p).id = (s.cache.get p).id ∧
      ((s.setHeap h).cache.get p).username = (s.cache.get p).username :=
    fun hp => id_username_of_core (hx.cell _ hp)
  refine ⟨⟨rfl, hx, id, id, Or.inl, fun _ => rfl⟩, ?_, ?_, ?_, ?_⟩
  · intro n p hn
    obtain ⟨hp, h1, h2⟩ := hc.name hn
    obtain ⟨e1, e2⟩ := hget hp
    rw [e1, e2]
    exact ⟨hp.trans_eq hb.symm, h1, h2⟩
  · intro i p hi
    obtain ⟨hp, h1, h2, h3⟩ := hc.id hi
    obtain ⟨e1, e2⟩ := hget hp
    rw [e1, e2]
    exact ⟨hp.trans_eq hb.symm, h1, h2, h3⟩
  · intro r hr p hn
    rw [(hget (hc.name hn).1).1]
    exact hc.row r hr hn
  · intro r hr p hi
    rw [(hget (hc.id hi).1).2]
    exact hc.idRow r hr hi

/-- An account with a new name and id, or a placeholder with a new name. -/
structure Fresh (s : Store) (p : Ptr) (s' : Store) : Prop where
  db : s'.db = s.db
  ptr : p = s.cache.heap.brk
  brk : s'.cache.heap.brk = p + 1
  old : ∀ q < p, s'.cache.get q = s.cache.get q
  name : ∀ n, s'.cache.findName n =
    if strcmpiEq (s'.cache.get p).username n then some p else s.cache.findName n
  id : ∀ i, s'.cache.findId i =
    if (s'.cache.get p).id ≠ 0 ∧ i = (s'.cache.get p).id then some p else s.cache.findId i
  /-- a name that is not there, or that of a placeholder -/
  noName : ∀ q, s.cache.findName (s'.cache.get p).username = some q → (s.cache.get q).id = 0
  noId : s.cache.findId (s'.cache.get p).id = none
  rowId : ∀ r ∈ s.db.users, (s'.cache.get p).id = uid r ↔
    strcmpiEq (s'.cache.get p).username r.username = true

namespace Fresh

variable {s s' : Store} {p : Ptr}

theorem heap (h : Fresh s p s') : Heap.Extends UserCacheItem.core s.cache.heap s'.cache.heap := by
  refine ⟨?_, fun q hq => ?_⟩
  · rw [h.brk, h.ptr]; omega
  · exact congrArg _ (h.old q (by rw [h.ptr]; exact hq))

/-- The maps still agree with the accounts and the rows. -/
theorem coherent (h : Fresh s p s') (hc : Coherent s) : Coherent s' := by
  have hold : ∀ {q}, q < s.cache.heap.brk → s'.cache.get q = s.cache.get q := fun hq =>
    h.old _ (by rw [h.ptr]; exact hq)
  have hbrk : ∀ {q}, q < s.cache.heap.brk → q < s'.cache.heap.brk := fun hq => by
    rw [h.brk, h.ptr]; omega
  refine ⟨?_, ?_, ?_, ?_⟩
  · intro n q hn
    rw [h.name] at hn
    split_ifs at hn with e
    · cases hn
      exact ⟨by rw [h.brk]; exact Nat.lt_succ_self p, e, fun hid => by rw [h.id, if_pos ⟨hid, rfl⟩]⟩
    · obtain ⟨hq, h1, h2⟩ := hc.name hn
      rw [hold hq]
      refine ⟨hbrk hq, h1, fun hid => ?_⟩
      have hne : (s.cache.get q).id ≠ (s'.cache.get p).id := fun e' => by
        have := h2 hid
        rw [e', h.noId] at this
        cases this
      rw [h.id, if_neg fun hx => hne hx.2, h2 hid]
  · intro i q hi
    rw [h.id] at hi
    split_ifs at hi with e
    · cases hi
      refine ⟨by rw [h.brk]; exact Nat.lt_succ_self p, e.2.symm, by rw [e.2]; exact e.1, ?_⟩
      rw [h.name, if_pos (strcmpiEq_refl _)]
    · obtain ⟨hq, h1, h2, h3⟩ := hc.id hi
      rw [hold hq]
      refine ⟨hbrk hq, h1, h2, ?_⟩
      -- the new name is not that of an account with an id
      have hne : ¬ strcmpiEq (s'.cache.get p).username (s.cache.get q).username = true := fun e' => by
        have := h.noName q (by rw [s.cache.findName_congr e', h3])
        exact h2 (h1.symm.trans this)
      rw [h.name, if_neg hne, h3]
  · intro r hr q hn
    rw [h.db] at hr
    rw [h.name] at hn
    split_ifs at hn with e
    · cases hn
      exact (h.rowId r hr).mpr e
    · rw [hold (hc.name hn).1]
      exact hc.row r hr hn
  · intro r hr q hi
    rw [h.db] at hr
    rw [h.id] at hi
    split_ifs at hi with e
    · cases hi
      exact (h.rowId r hr).mp e.2.symm
    · rw [hold (hc.id hi).1]
      exact hc.idRow r hr hi

theorem keepId (h : Fresh s p s') {i : UInt32} {q : Ptr} (hi : s.cache.findId i = some q) :
    s'.cache.findId i = some q := by
  have hne : ¬ ((s'.cache.get p).id ≠ 0 ∧ i = (s'.cache.get p).id) := fun e => by
    rw [e.2, h.noId] at hi
    cases hi
  rw [h.id, if_neg hne, hi]

/-- A fresh name and an account that comes from its row: nothing that was there is lost. -/
theorem loaded (h : Fresh s p s') (hn : s.cache.findName (s'.cache.get p).username = none)
    (hnext : (∀ r ∈ s.db.users, uid r < s.cache.nextUid) → s'.cache.nextUid = s.cache.nextUid)
    (hrow : (s'.cache.get p).id ≠ 0 → ∃ r ∈ s.db.users, uid r = (s'.cache.get p).id ∧
      (s'.cache.get p).core = (rowItem env p r).core) : Loaded env s s' where
  db := h.db
  heap := h.heap
  keepId := h.keepId
  keepName := by
    intro n q hq
    have hne : ¬ strcmpiEq (s'.cache.get p).username n = true := fun e => by
      rw [s.cache.findName_congr e, hq] at hn
      cases hn
    rw [h.name, if_neg hne, hq]
  newId := by
    intro i q hi
    rw [h.id] at hi
    split_ifs at hi with e
    · cases hi
      obtain ⟨r, hr, hid, hcore⟩ := hrow e.1
      exact Or.inr ⟨h.ptr.ge, r, hr, hid.trans e.2.symm, hcore⟩
    · exact Or.inl hi
  next := hnext

end Fresh

end Loaded

/-! ### The steps of a load -/

theorem setBlob_salt (b : List Byte) (u : UserCacheItem) : ∃ d, setBlob .setSalt b u =
    { u with salt := (blob? 32 b).getD u.salt, dirty := d } := by
  unfold setBlob
  rcases blob? 32 b with _ | s
  · exact ⟨u.dirty, rfl⟩
  · exact u.setSalt_eq s

theorem setBlob_verifier (b : List Byte) (u : UserCacheItem) : ∃ d, setBlob .setVerifier b u =
    { u with verifier := (blob? 32 b).getD u.verifier, dirty := d } := by
  unfold setBlob
  rcases blob? 32 b with _ | s
  · exact ⟨u.dirty, rfl⟩
  · exact u.setVerifier_eq s

theorem setBlob_passwd (b : List Byte) (u : UserCacheItem) : ∃ d, setBlob .setPasswd b u =
    { u with passwd := (blob? 20 b).getD u.passwd, dirty := d } := by
  unfold setBlob
  rcases blob? 20 b with _ | s
  · exact ⟨u.dirty, rfl⟩
  · exact u.setPasswd_eq s

/-- What a row puts into an account. -/
theorem fillRow_eq (r : UserRow) (u : UserCacheItem) : fillRow r u = { u with
    salt := (blob? 32 r.salt).getD u.salt
    verifier := (blob? 32 r.verifier).getD u.verifier
    passwd := (blob? 20 r.passwd).getD u.passwd
    mail := cstr r.mail
    flag := UInt32.ofInt r.flag
    dataMap := UserCacheItem.setDataLoop r.data.length r.data u.dataMap
    dirty := false } := by
  unfold fillRow
  dsimp only
  obtain ⟨d1, e1⟩ := setBlob_salt r.salt u
  rw [e1]
  generalize hu : (UserCacheItem.mk _ _ _ _ _ _ _ _ _ _ _) = u1
  obtain ⟨d2, e2⟩ := setBlob_verifier r.verifier u1
  rw [e2]
  generalize hu2 : (UserCacheItem.mk _ _ _ _ _ _ _ _ _ _ _) = u2
  obtain ⟨d3, e3⟩ := setBlob_passwd r.passwd u2
  rw [e3]
  generalize hu3 : (UserCacheItem.mk _ _ _ _ _ _ _ _ _ _ _) = u3
  obtain ⟨d4, e4⟩ := u3.setMail_eq (cstr r.mail)
  rw [e4]
  generalize hu4 : (UserCacheItem.mk _ _ _ _ _ _ _ _ _ _ _) = u4
  obtain ⟨d5, e5⟩ := u4.setFlag_eq (UInt32.ofInt r.flag)
  rw [e5]
  subst hu hu2 hu3 hu4
  rfl

section Steps

variable {env : Env} {s : Store}

theorem get_add_modify (c : UserCache) (n : Text) (u : UInt32) (f : UserCacheItem → UserCacheItem) :
    ((c.add env n u).2.modify (c.add env n u).1 f).get c.heap.brk =
      f ((UserCacheItem.new n (env.junk c.heap.brk)).setUserId (c.addId u)) := by
  show ((c.heap.alloc _).modify c.heap.brk f).cell c.heap.brk = _
  rw [Heap.modify_self, Heap.alloc_new]

theorem get_addRow (r : UserRow) : (addRow env s r).2.cache.get (addRow env s r).1 =
    fillRow r ((UserCacheItem.new (cstr r.username) (env.junk (addRow env s r).1)).setUserId
      (s.cache.addId (uid r))) := get_add_modify _ _ _ _

variable (env) in
/-- An account is new when its id is, no account has its name and the rows with its id are those with its name. -/
theorem fresh_add {n : Text} {u : UInt32} {f : UserCacheItem → UserCacheItem}
    (hf : ∀ u, (f u).id = u.id ∧ (f u).username = u.username) (hu : s.cache.addId u ≠ 0)
    (hname : ∀ q, s.cache.findName n = some q → (s.cache.get q).id = 0)
    (hnew : s.cache.findId (s.cache.addId u) = none)
    (hrow : ∀ r ∈ s.db.users, s.cache.addId u = uid r ↔ strcmpiEq n r.username = true) :
    Fresh s s.cache.heap.brk ⟨(s.cache.add env n u).2.modify (s.cache.add env n u).1 f, s.db⟩ := by
  set c := (s.cache.add env n u).2.modify (s.cache.add env n u).1 f
  have hid : (c.get s.cache.heap.brk).id = s.cache.addId u := by
    rw [get_add_modify, (hf _).1]
    rfl
  have hun : (c.get s.cache.heap.brk).username = n := by
    rw [get_add_modify, (hf _).2]
    rfl
  refine ⟨rfl, rfl, rfl, fun q hq => ?_, fun m => ?_, fun i => ?_, ?_, ?_, ?_⟩
  · show ((s.cache.heap.alloc _).modify s.cache.heap.brk f).cell q = _
    rw [Heap.modify_ne _ _ (Nat.ne_of_lt hq), Heap.alloc_old _ _ hq]
    rfl
  · rw [hun]
    show (s.cache.add env n u).2.findName m = _
    split_ifs with e
    · exact UserCache.findName_add_self _ _ _ _ e
    · exact UserCache.findName_add_ne _ _ _ _ (by simpa using e)
  · rw [hid]
    show (s.cache.add env n u).2.findId i = _
    split_ifs with e
    · rw [e.2]
      exact UserCache.findId_add_self env s.cache n u hu
    · exact UserCache.findId_add_ne _ _ _ _ fun e' => e ⟨hu, e'⟩
  · rw [hun]
    exact hname
  · rw [hid]
    exact hnew
  · rw [hid, hun]
    exact hrow

variable (env) in
/-- The account of a row is new when neither its id nor its name is cached. -/
theorem fresh_addRow (hok : DbOk s.db) {r : UserRow} (hr : r ∈ s.db.users)
    (hi : s.cache.findId (uid r) = none) (hn : s.cache.findName r.username = none) :
    Fresh s (addRow env s r).1 (addRow env s r).2 ∧
      (addRow env s r).2.cache.get (addRow env s r).1 = rowItem env (addRow env s r).1 r := by
  have hu : uid r ≠ 0 := hok.uid_ne_zero hr
  have haddId : s.cache.addId (uid r) = uid r := if_neg hu
  have hname : cstr r.username = r.username := cstr_of_nulFree (hok.nulFree r hr)
  have hf : ∀ u, (fillRow r u).id = u.id ∧ (fillRow r u).username = u.username := fun u => by
    rw [fillRow_eq]
    exact ⟨rfl, rfl⟩
  refine ⟨fresh_add env hf (haddId ▸ hu) (fun q hq => ?_) (haddId ▸ hi) fun r' hr' => ?_, ?_⟩
  · rw [hname, hn] at hq
    cases hq
  · rw [hname]
    show s.cache.addId (uid r) = _ ↔ _
    rw [haddId]
    constructor
    · intro e
      rw [hok.eq_of_uid hr hr' e]
      exact strcmpiEq_refl _
    · intro e
      rw [hok.eq_of_name hr hr' e]
  · rw [get_addRow, haddId]
    rfl

variable (env) in
/-- A placeholder is new when its name is not cached and no row has it. -/
theorem fresh_placeholder {n : Text} (hn : s.cache.findName n = none)
    (hr : ∀ r ∈ s.db.users, strcmpiEq n r.username = false) (hok : DbOk s.db) (hc : Coherent s) :
    Fresh s s.cache.heap.brk ⟨s.cache.placeholder env n, s.db⟩ := by
  have hget : (s.cache.placeholder env n).get s.cache.heap.brk =
      UserCacheItem.new n (env.junk s.cache.heap.brk) := Heap.alloc_new _ _
  refine ⟨rfl, rfl, rfl, fun q hq => ?_, fun m => ?_, fun i => ?_, fun q hq => ?_, ?_, fun r hr' => ?_⟩
  · exact Heap.alloc_old _ _ hq
  · dsimp only
    rw [hget]
    show find nameEq (insert nameEq _ n _) m = _
    split_ifs with e
    · exact find_insert_of_eqv (e := nameEq) e _ _
    · exact find_insert_of_ne (e := nameEq) (Bool.eq_false_of_not_eq_true e) _ _
  · dsimp only
    rw [hget, if_neg fun e => e.1 rfl]
    rfl
  · dsimp only at hq
    rw [hget] at hq
    exact absurd (hn.symm.trans hq) (by simp)
  · dsimp only
    rw [hget]
    rcases h0 : s.cache.findId 0 with _ | q
    · exact h0
    · exact absurd rfl (hc.id h0).2.2.1
  · dsimp only
    rw [hget]
    constructor
    · intro e
      exact absurd e.symm (hok.uid_ne_zero hr')
    · intro e
      rw [show (UserCacheItem.new n (env.junk s.cache.heap.brk)).username = n from rfl, hr r hr'] at e
      cases e

end Steps

/-! ### What any lookup keeps -/

/-- The maps point to allocated accounts. -/
structure Bounded (c : UserCache) : Prop where
  name : ∀ {n p}, c.findName n = some p → p < c.heap.brk
  id : ∀ {i p}, c.findId i = some p → p < c.heap.brk

theorem Coherent.bounded {s : Store} (h : Coherent s) : Bounded s.cache :=
  ⟨fun hn => (h.name hn).1, fun hi => (h.id hi).1⟩

theorem bounded_of_maps {c : UserCache} (hn : ∀ x ∈ c.nameMap, x.2 < c.heap.brk)
    (hi : ∀ x ∈ c.idMap, x.2 < c.heap.brk) : Bounded c :=
  ⟨find_of_forall (e := nameEq) (P := fun p => p < c.heap.brk) hn,
    find_of_forall (e := KeyEq.ofEq) (P := fun p => p < c.heap.brk) hi⟩

/-- `s'` came from `s` by changes that keep every account but for its friends. -/
structure Keeps (s s' : Store) : Prop where
  heap : Heap.Extends UserCacheItem.core s.cache.heap s'.cache.heap
  bounded : Bounded s'.cache

theorem Keeps.trans {s s' s'' : Store} (h : Keeps s s') (h' : Keeps s' s'') : Keeps s s'' :=
  ⟨h.heap.trans h'.heap, h'.bounded⟩

theorem keeps_setHeap {s : Store} {h : Heap UserCacheItem} (hb : Bounded s.cache)
    (hx : Heap.Extends UserCacheItem.core s.cache.heap h) : Keeps s (s.setHeap h) :=
  ⟨hx, fun hn => (hb.name hn).trans_le hx.brk, fun hi => (hb.id hi).trans_le hx.brk⟩

theorem keeps_placeholder (env : Env) {s : Store} (hb : Bounded s.cache) (n : Text) (db : Database) :
    Keeps s ⟨s.cache.placeholder env n, db⟩ := by
  refine ⟨.alloc _ _ _, fun {m p} hm => ?_, fun hi => Nat.lt_succ_of_lt (hb.id hi)⟩
  rcases hcmp : strcmpiEq n m with _ | _
  · have h : s.cache.findName m = some p :=
      (find_insert_of_ne (e := nameEq) hcmp _ _).symm.trans hm
    exact Nat.lt_succ_of_lt (hb.name h)
  · have h : some s.cache.heap.brk = some p :=
      (find_insert_of_eqv (e := nameEq) hcmp _ _).symm.trans hm
    cases h
    exact Nat.lt_succ_self _

theorem bounded_add (env : Env) {c : UserCache} (hb : Bounded c) (n : Text) (i : UInt32) :
    Bounded (c.add env n i).2 := by
  refine ⟨fun {m p} hm => ?_, fun {j p} hj => ?_⟩
  · rcases hcmp : strcmpiEq n m with _ | _
    · rw [UserCache.findName_add_ne _ _ _ _ hcmp] at hm
      exact Nat.lt_succ_of_lt (hb.name hm)
    · rw [UserCache.findName_add_self _ _ _ _ hcmp] at hm
      cases hm
      exact Nat.lt_succ_self _
  · by_cases hij : j = c.addId i
    · by_cases h0 : c.addId i = 0
      · have : (c.add env n i).2.idMap = c.idMap := if_neg (by rw [h0]; decide)
        have hj' : c.findId j = some p := by
          rw [← hj]; unfold UserCache.findId; rw [this]
        exact Nat.lt_succ_of_lt (hb.id hj')
      · rw [hij, UserCache.findId_add_self _ _ _ _ h0] at hj
        cases hj
        exact Nat.lt_succ_self _
    · rw [UserCache.findId_add_ne _ _ _ _ hij] at hj
      exact Nat.lt_succ_of_lt (hb.id hj)

theorem keeps_addRow (env : Env) {s : Store} (hb : Bounded s.cache) (r : UserRow) :
    Keeps s (addRow env s r).2 := by
  have hadd := bounded_add env hb (cstr r.username) (UInt32.ofInt r.userid)
  exact ⟨(Heap.Extends.alloc _ _ _).modify_new le_rfl _, fun hn => hadd.name hn, fun hi => hadd.id hi⟩

theorem lookupWith_keeps {load : Store → Key → Option (Option Ptr × Store)} {s s' : Store} {key : Key}
    {a : Option Ptr} (hb : Bounded s.cache)
    (hload : ∀ a s', load s key = some (a, s') → Keeps s s' ∧ ∀ p ∈ a, p < s'.cache.heap.brk)
    (h : lookupWith load s key = some (a, s')) : Keeps s s' ∧ ∀ p ∈ a, p < s'.cache.heap.brk := by
  unfold lookupWith at h
  rcases hk : s.cache.findKey key with _ | q
  · rw [hk] at h
    exact hload a s' h
  · rw [hk] at h
    simp only [Option.some.injEq, Prod.mk.injEq] at h
    obtain ⟨rfl, rfl⟩ := h
    refine ⟨⟨.refl _ _, hb⟩, fun p hp => ?_⟩
    split_ifs at hp
    · cases hp
      rcases key with n | i
      · exact hb.name hk
      · exact hb.id hk
    · cases hp

theorem loadFriends_keeps {load : Store → Key → Option (Option Ptr × Store)}
    (hload : ∀ s key a s', Bounded s.cache → load s key = some (a, s') →
      Keeps s s' ∧ ∀ p ∈ a, p < s'.cache.heap.brk) (self : Ptr) :
    ∀ (l : List UInt32) (s s' : Store), Bounded s.cache → loadFriends load self l s = some s' →
      Keeps s s'
  | [], s, s', hb, h => by
    simp only [loadFriends, Option.some.injEq] at h
    subst h
    exact ⟨.refl _ _, hb⟩
  | i :: l, s, s', hb, h => by
    rw [loadFriends] at h
    rcases hl : lookupWith load s (.id i) with _ | ⟨f, s1⟩
    · rw [hl] at h; cases h
    · rw [hl] at h
      obtain ⟨hk, -⟩ := lookupWith_keeps hb (fun a s' => hload s (.id i) a s' hb) hl
      have hk2 := keeps_setHeap hk.bounded (addFriend_extends s1.cache.heap self f)
      exact (hk.trans hk2).trans (loadFriends_keeps hload self l _ s' hk2.bounded h)

/-- **No load changes an account**, whatever key and database. -/
theorem loadUser_keeps {env : Env} : ∀ (k : ℕ) (s : Store) (key : Key) (a : Option Ptr) (s' : Store),
    Bounded s.cache → loadUser env k s key = some (a, s') →
      Keeps s s' ∧ ∀ p ∈ a, p < s'.cache.heap.brk
  | 0, _, _, _, _, _, h => by cases h
  | k + 1, s, key, a, s', hb, h => by
    rcases loadUser_cases h with ⟨j, r, hj, -, rfl, hl⟩ | ⟨n, -, -, rfl, rfl⟩
    · obtain rfl : k = j := by omega
      have hk := keeps_addRow env hb r
      have hk2 := loadFriends_keeps (loadUser_keeps k) _ _ _ _ hk.bounded hl
      refine ⟨hk.trans hk2, fun p hp => ?_⟩
      cases hp
      exact (show s.cache.heap.brk < (addRow env s r).2.cache.heap.brk from
        Nat.lt_succ_self _).trans_le hk2.heap.brk
    · exact ⟨keeps_placeholder env hb (cstr n) _, by simp⟩

/-- The account of a single row found, once its friends are loaded. -/
theorem core_addRow {env : Env} {k : ℕ} {s s' : Store} {r : UserRow} {l : List UInt32}
    (hb : Bounded s.cache)
    (hl : loadFriends (loadUser env k) (addRow env s r).1 l (addRow env s r).2 = some s') :
    (s'.cache.get (addRow env s r).1).core =
      ((addRow env s r).2.cache.get (addRow env s r).1).core := by
  have hk := keeps_addRow env hb r
  have hk2 := loadFriends_keeps (loadUser_keeps k) _ _ _ _ hk.bounded hl
  exact hk2.heap.cell _ (Nat.lt_succ_self _)

theorem lookup_keeps {env : Env} {k : ℕ} {s s' : Store} {key : Key} {a : Option Ptr}
    (hb : Bounded s.cache) (h : lookup env k s key = some (a, s')) :
    Keeps s s' ∧ ∀ p ∈ a, p < s'.cache.heap.brk :=
  lookupWith_keeps hb (fun a s' => loadUser_keeps k s key a s' hb) h

/-! ### The rows a key is meant to select -/

/-- The row is the one the key asks for. -/
def Key.names : Key → UserRow → Bool
  | .name n, r => nocase r.username (cstr n)
  | .id i, r => r.userid = i.toNat

/-- The condition printed for the key selects those rows. -/
def Exact (eng : Engine) (db : Database) (key : Key) : Prop :=
  getMatchUsers eng db (whereExpr key) = db.users.filter key.names

theorem exact_id (eng : Engine) (db : Database) (i : UInt32) : Exact eng db (.id i) := by
  unfold Exact getMatchUsers
  have h1 : whereExpr (.id i) ≠ [] := fun e => by
    have := congrArg List.length e
    simp [whereExpr, str] at this
  have h2 : after (str "username=\"") (whereExpr (.id i)) = none := rfl
  have h3 : readDigits 0 (decimal i.toNat) = (i.toNat, []) := by
    have := readDigits_decimal i.toNat (t := []) (by simp)
    rwa [List.append_nil] at this
  rw [if_neg h1]
  unfold whereUsers
  rw [h2]
  dsimp only
  rw [whereExpr, after_append]
  dsimp only
  rw [h3]
  rfl

/-- At most one row is asked for. -/
theorem rows_cases {db : Database} (hok : DbOk db) (key : Key) :
    (db.users.filter key.names = [] ∧ ∀ r ∈ db.users, key.names r = false) ∨
    ∃ r ∈ db.users, key.names r = true ∧ db.users.filter key.names = [r] := by
  have huniq : ∀ r ∈ db.users, ∀ r' ∈ db.users, key.names r = true → key.names r' = true → r = r' := by
    intro r hr r' hr' e e'
    rcases key with n | i
    · refine hok.eq_of_name hr hr' ?_
      rw [hok.strcmpiEq_row hr (hok.nulFree r' hr')]
      simp only [Key.names, nocase, decide_eq_true_eq] at e e' ⊢
      rw [e, e']
    · refine hok.eq_of_uid hr hr' ?_
      simp only [Key.names, decide_eq_true_eq] at e e'
      unfold uid
      rw [e, e']
  rcases hf : db.users.filter key.names with _ | ⟨r, l⟩
  · refine Or.inl ⟨rfl, fun r hr => ?_⟩
    by_contra h
    have : r ∈ db.users.filter key.names := List.mem_filter.mpr ⟨hr, by simpa using h⟩
    rw [hf] at this
    cases this
  · have hmem : ∀ x ∈ r :: l, x ∈ db.users ∧ key.names x = true := fun x hx =>
      List.mem_filter.mp (by rw [hf]; exact hx)
    obtain ⟨hr, e⟩ := hmem r (by simp)
    refine Or.inr ⟨r, hr, e, ?_⟩
    rcases l with _ | ⟨r', l⟩
    · rfl
    · -- a second row would be the same one, and rows are distinct
      obtain ⟨hr', e'⟩ := hmem r' (by simp)
      have hd : (r :: r' :: l).Pairwise fun r r' => r.userid ≠ r'.userid := by
        rw [← hf]; exact hok.unique.userid.filter _
      have hne := (List.pairwise_cons.mp hd).1 r' (by simp)
      rw [huniq r hr r' hr' e e'] at hne
      exact absurd rfl hne

/-! ### Lookups -/

section Lookup

variable (env : Env)

/-- Accounts loaded on the way from `s` to `s'` have their stored friends cached. -/
def Closed (s s' : Store) : Prop := ∀ i, s.cache.findId i = none → s'.cache.findId i ≠ none →
  ∀ j ∈ storedFriends s.db i, s'.cache.findId j ≠ none

/-- What a lookup of `key` may do and answer. -/
structure Answers (s : Store) (key : Key) (r : Option Ptr) (s' : Store) : Prop where
  loaded : Loaded env s s'
  coherent : Coherent s'
  closed : Closed s s'
  found : ∃ p, s'.cache.findKey key = some p ∧
    r = if (s'.cache.get p).isExist then some p else none

variable {env}

theorem Closed.refl (s : Store) : Closed s s := fun _ h h' => absurd h h'

theorem Closed.trans {s s' s'' : Store} (h : Closed s s') (h' : Closed s' s'')
    (hl : Loaded env s s') (hl' : Loaded env s' s'') : Closed s s'' := by
  intro i hi hi'' j hj
  rcases hi' : s'.cache.findId i with _ | p
  · exact h' i hi' hi'' j (by rw [hl.db]; exact hj)
  · obtain ⟨q, hq⟩ := Option.ne_none_iff_exists'.mp (h i hi (by simp [hi']) j hj)
    simp [hl'.keepId hq]

/-- A loader that behaves on missing keys gives lookups that do. -/
theorem lookupWith_answers {load : Store → Key → Option (Option Ptr × Store)} {s : Store} {key : Key}
    (hc : Coherent s)
    (hload : ∀ r s', s.cache.findKey key = none → load s key = some (r, s') → Answers env s key r s')
    {r : Option Ptr} {s' : Store} (h : lookupWith load s key = some (r, s')) :
    Answers env s key r s' := by
  unfold lookupWith at h
  rcases hk : s.cache.findKey key with _ | p
  · rw [hk] at h
    exact hload r s' hk h
  · rw [hk] at h
    simp only [Option.some.injEq, Prod.mk.injEq] at h
    obtain ⟨rfl, rfl⟩ := h
    exact ⟨.refl s, hc, .refl s, p, hk, rfl⟩

variable (env) in
/-- The friends of `self` are loaded one after the other. -/
theorem loadFriends_spec {load : Store → Key → Option (Option Ptr × Store)}
    (hload : ∀ s i r s', DbOk s.db → Coherent s → s.cache.findId i = none →
      load s (.id i) = some (r, s') → Answers env s (.id i) r s') (self : Ptr) :
    ∀ (l : List UInt32) (s s' : Store), DbOk s.db → Coherent s → loadFriends load self l s = some s' →
      Loaded env s s' ∧ Coherent s' ∧ Closed s s' ∧ ∀ j ∈ l, s'.cache.findId j ≠ none
  | [], s, s', hok, hc, h => by
    simp only [loadFriends, Option.some.injEq] at h
    subst h
    exact ⟨.refl s, hc, .refl s, by simp⟩
  | i :: l, s, s', hok, hc, h => by
    rw [loadFriends] at h
    rcases hl : lookupWith load s (.id i) with _ | ⟨f, s1⟩
    · rw [hl] at h; cases h
    · rw [hl] at h
      dsimp only at h
      have ha := lookupWith_answers hc (fun r s'' hk => hload s i r s'' hok hc hk) hl
      obtain ⟨hl2, hc2⟩ := loaded_setHeap env ha.coherent
        (addFriend_extends s1.cache.heap self f) (addFriend_brk s1.cache.heap self f)
      have hcl2 : Closed s1 (s1.setHeap (addFriend s1.cache.heap self f).1) := Closed.refl s1
      have hok1 : DbOk s1.db := ha.loaded.db ▸ hok
      generalize s1.setHeap (addFriend s1.cache.heap self f).1 = s2 at h hl2 hc2 hcl2
      have hok2 : DbOk s2.db := hl2.db ▸ hok1
      obtain ⟨hl3, hc3, hcl3, hall⟩ := loadFriends_spec hload self l s2 s' hok2 hc2 h
      have hl12 := ha.loaded.trans hl2 ha.coherent
      have hcl12 : Closed s s2 := ha.closed.trans hcl2 ha.loaded hl2
      refine ⟨hl12.trans hl3 hc2, hc3, hcl12.trans hcl3 hl12 hl3, ?_⟩
      intro j hj
      rcases List.mem_cons.mp hj with rfl | hj
      · obtain ⟨p, hp, -⟩ := ha.found
        simp [hl3.keepId (hl2.keepId hp)]
      · exact hall j hj

theorem strcmpiEq_of_names {db : Database} (hok : DbOk db) {r : UserRow} (hr : r ∈ db.users) {n : Text}
    (e : (Key.name n).names r = true) : strcmpiEq r.username n = true := by
  simp only [Key.names, nocase, decide_eq_true_eq] at e
  rw [strcmpiEq_iff, cstr_of_nulFree (hok.nulFree r hr), e]

theorem uid_of_names {db : Database} (hok : DbOk db) {r : UserRow} (hr : r ∈ db.users) {i : UInt32}
    (e : (Key.id i).names r = true) : uid r = i := by
  simp only [Key.names, decide_eq_true_eq] at e
  apply UInt32.toNat.inj
  have := hok.toNat_uid hr
  omega

/-- The entry of a key is the entry of the id in its row. -/
theorem Coherent.findId_of_findKey {s : Store} (hok : DbOk s.db) (hc : Coherent s) {key : Key} {r : UserRow}
    (hr : r ∈ s.db.users) (e : key.names r = true) {p : Ptr} (h : s.cache.findKey key = some p) :
    s.cache.findId (uid r) = some p := by
  rcases key with n | i
  · refine hc.findId_of_findName hok hr ?_
    rw [s.cache.findName_congr (strcmpiEq_of_names hok hr e)]
    exact h
  · rw [uid_of_names hok hr e]
    exact h

/-- A row asked for by a key that is not cached is new to the cache. -/
theorem not_cached {s : Store} (hok : DbOk s.db) (hc : Coherent s) {key : Key} {r : UserRow}
    (hr : r ∈ s.db.users) (hk : s.cache.findKey key = none) (e : key.names r = true) :
    s.cache.findId (uid r) = none ∧ s.cache.findName r.username = none := by
  rcases key with n | i
  · have hn : s.cache.findName r.username = none := by
      rw [s.cache.findName_congr (strcmpiEq_of_names hok hr e)]
      exact hk
    refine ⟨?_, hn⟩
    by_contra hi
    obtain ⟨p, hp⟩ := Option.ne_none_iff_exists'.mp hi
    rw [hc.findName_of_findId hr hp] at hn
    cases hn
  · have hi : s.cache.findId (uid r) = none := by
      rw [uid_of_names hok hr e]
      exact hk
    refine ⟨hi, ?_⟩
    by_contra hn
    obtain ⟨p, hp⟩ := Option.ne_none_iff_exists'.mp hn
    rw [hc.findId_of_findName hok hr hp] at hi
    cases hi

variable (env) in
/-- The row of a key that is not cached, added: everything but its friends. -/
theorem addRow_spec {s : Store} (hok : DbOk s.db) (hc : Coherent s) {key : Key} {r : UserRow}
    (hr : r ∈ s.db.users) (hk : s.cache.findKey key = none) (e : key.names r = true) :
    Loaded env s (addRow env s r).2 ∧ Coherent (addRow env s r).2 ∧
      (addRow env s r).2.cache.findId (uid r) = some (addRow env s r).1 ∧
      (addRow env s r).2.cache.findKey key = some (addRow env s r).1 ∧
      (∀ i, i ≠ uid r → (addRow env s r).2.cache.findId i = s.cache.findId i) := by
  obtain ⟨hi, hn⟩ := not_cached hok hc hr hk e
  obtain ⟨hf, hget⟩ := fresh_addRow env hok hr hi hn
  have hid : ((addRow env s r).2.cache.get (addRow env s r).1).id = uid r := by
    rw [hget, rowItem, fillRow_eq]; rfl
  have hun : ((addRow env s r).2.cache.get (addRow env s r).1).username = r.username := by
    rw [hget, rowItem, fillRow_eq]; exact cstr_of_nulFree (hok.nulFree r hr)
  have hself : (addRow env s r).2.cache.findId (uid r) = some (addRow env s r).1 := by
    rw [hf.id, if_pos ⟨by rw [hid]; exact hok.uid_ne_zero hr, hid.symm⟩]
  have hnext : (∀ r ∈ s.db.users, uid r < s.cache.nextUid) →
      (addRow env s r).2.cache.nextUid = s.cache.nextUid := fun hb => by
    show (if uid r = 0 then _ else if uid r ≥ s.cache.nextUid then _ else s.cache.nextUid) = _
    have hlt : ¬ uid r ≥ s.cache.nextUid := UInt32.not_le.mpr (hb r hr)
    rw [if_neg (hok.uid_ne_zero hr), if_neg hlt]
  refine ⟨hf.loaded (by rw [hun]; exact hn) hnext fun _ => ⟨r, hr, hid.symm, by rw [hget]⟩,
    hf.coherent hc, hself, ?_, fun i hne => ?_⟩
  · rcases key with n | i
    · show (addRow env s r).2.cache.findName n = _
      rw [hf.name, hun, if_pos (strcmpiEq_of_names hok hr e)]
    · show (addRow env s r).2.cache.findId i = _
      rw [← uid_of_names hok hr e, hself]
  · rw [hf.id, if_neg fun h => hne (h.2.trans hid)]

/-- An account found under its id exists. -/
theorem Coherent.isExist {s : Store} (hc : Coherent s) {i : UInt32} {p : Ptr}
    (h : s.cache.findId i = some p) : (s.cache.get p).isExist = true := by
  obtain ⟨-, hid, h0, -⟩ := hc.id h
  rw [UserCacheItem.isExist, hid]
  exact decide_eq_true (UInt32.pos_iff_ne_zero.mpr h0)

theorem isExist_of_loaded {s s' : Store} (h : Loaded env s s') {p : Ptr} (hp : p < s.cache.heap.brk) :
    (s'.cache.get p).isExist = (s.cache.get p).isExist := by
  unfold UserCacheItem.isExist
  exact congrArg (fun i : UInt32 => decide (i > 0)) (id_username_of_core (h.heap.cell p hp)).1

theorem strcmpiEq_cstr (n : Text) : strcmpiEq (cstr n) n = true := by simp [strcmpiEq_iff]

/-- A name without a row becomes a placeholder, which is no answer. -/
theorem placeholder_answers {s : Store} (hok : DbOk s.db) (hc : Coherent s) {n : Text}
    (hk : s.cache.findKey (.name n) = none) (hno : ∀ r ∈ s.db.users, (Key.name n).names r = false) :
    Answers env s (.name n) none ⟨s.cache.placeholder env (cstr n), s.db⟩ := by
  have hn : s.cache.findName (cstr n) = none := by
    rw [s.cache.findName_congr (strcmpiEq_cstr n)]
    exact hk
  have hrow : ∀ r ∈ s.db.users, strcmpiEq (cstr n) r.username = false := fun r hr => by
    rw [Bool.eq_false_iff]
    intro e
    have := hok.strcmpiEq_row hr (nulFree_cstr n)
    rw [strcmpiEq_symm e] at this
    exact absurd (hno r hr) (by rw [show Key.names (.name n) r = true from this.symm]; simp)
  have hf := fresh_placeholder env hn hrow hok hc
  have hget : (s.cache.placeholder env (cstr n)).get s.cache.heap.brk =
      UserCacheItem.new (cstr n) (env.junk s.cache.heap.brk) := Heap.alloc_new _ _
  refine ⟨hf.loaded (by rw [hget]; exact hn) (fun _ => rfl) fun h0 => ?_, hf.coherent hc, ?_,
    s.cache.heap.brk, ?_, ?_⟩
  · rw [hget] at h0
    exact absurd rfl h0
  · intro i hi hi'
    exact absurd hi hi'
  · exact find_insert_of_eqv (e := nameEq) (strcmpiEq_cstr n) _ _
  · dsimp only
    rw [hget]
    rfl

/-- **A load keeps the cache coherent** and answers with the account of the key's row, or with a
placeholder. -/
theorem loadUser_answers : ∀ (k : ℕ) (s : Store) (key : Key) (a : Option Ptr) (s' : Store),
    DbOk s.db → Coherent s → Exact env.eng s.db key → s.cache.findKey key = none →
    loadUser env k s key = some (a, s') → Answers env s key a s'
  | 0, s, key, a, s', _, _, _, _, h => by cases h
  | k + 1, s, key, a, s', hok, hc, hx, hk, h => by
    rcases loadUser_cases h with ⟨j, r, hj, hrow, rfl, hl⟩ | ⟨n, rfl, hlen, rfl, rfl⟩
    · obtain rfl : k = j := by omega
      have hr : r ∈ s.db.users.filter key.names := by rw [← hx, hrow]; simp
      obtain ⟨hr, e⟩ := List.mem_filter.mp hr
      obtain ⟨hld, hc1, hself, hkey, hother⟩ := addRow_spec env hok hc hr hk e
      have hok1 : DbOk (addRow env s r).2.db := hld.db ▸ hok
      obtain ⟨hl2, hc2, hcl2, hall⟩ := loadFriends_spec env
        (fun s i r s' hok hc hi => loadUser_answers k s (.id i) r s' hok hc (exact_id _ _ _) hi)
        (addRow env s r).1 _ _ s' hok1 hc1 hl
      refine ⟨hld.trans hl2 hc1, hc2, ?_, (addRow env s r).1, ?_, ?_⟩
      · -- the row's own friends are those just loaded; any other new account came with them
        intro i hi hi2 j hj
        by_cases hu : i = uid r
        · subst hu
          exact hall j hj
        · exact hcl2 i ((hother i hu).trans hi) hi2 j (by rw [hld.db]; exact hj)
      · rcases key with n | i
        · exact hl2.keepName hkey
        · exact hl2.keepId hkey
      · rw [isExist_of_loaded hl2 (hc1.id hself).1, if_pos (hc1.isExist hself)]
    · obtain ⟨hnil, hno⟩ : s.db.users.filter (Key.name n).names = [] ∧
          ∀ r ∈ s.db.users, (Key.name n).names r = false := by
        rcases rows_cases hok (.name n) with h | ⟨r, -, -, hone⟩
        · exact h
        · rw [hx, hone] at hlen
          exact absurd rfl hlen
      have hdb : (if (getMatchUsers env.eng s.db (whereExpr (.name n))).length > 1
          then removeMatchUsers env.eng s.db (whereExpr (.name n)) else s.db) = s.db :=
        if_neg (by rw [hx, hnil]; simp)
      rw [hdb]
      exact placeholder_answers hok hc hk hno

/-- **A lookup keeps the cache coherent.** -/
theorem lookup_answers {k : ℕ} {s : Store} {key : Key} {a : Option Ptr} {s' : Store} (hok : DbOk s.db)
    (hc : Coherent s) (hx : Exact env.eng s.db key) (h : lookup env k s key = some (a, s')) :
    Answers env s key a s' :=
  lookupWith_answers hc (fun r s' hk => loadUser_answers k s key r s' hok hc hx hk) h

/-! ### Lookups return -/

/-- The rows whose account is not cached. -/
def uncached (s : Store) : List UserRow :=
  s.db.users.filter fun r => (s.cache.findId (uid r)).isNone

theorem uncached_sublist {s s' : Store} (h : Loaded env s s') :
    List.Sublist (uncached s') (uncached s) := by
  unfold uncached
  rw [h.db]
  refine List.monotone_filter_right _ fun r hr => ?_
  rcases hi : s.cache.findId (uid r) with _ | p
  · rfl
  · rw [h.keepId hi] at hr
    cases hr

theorem uncached_lt {s s' : Store} (h : Loaded env s s') {r : UserRow} (hr : r ∈ s.db.users)
    (hi : s.cache.findId (uid r) = none) (hi' : s'.cache.findId (uid r) ≠ none) :
    (uncached s').length < (uncached s).length := by
  have hsub := uncached_sublist h
  refine Nat.lt_of_le_of_ne hsub.length_le fun hlen => ?_
  have hmem : r ∈ uncached s := List.mem_filter.mpr ⟨hr, by simp [hi]⟩
  rw [← hsub.eq_of_length hlen] at hmem
  have := (List.mem_filter.mp hmem).2
  exact hi' (by simpa using this)

/-- The ids a load of the friends `l` goes through. -/
inductive Needs (s : Store) (l : List UInt32) : UInt32 → Prop
  | start {i} : i ∈ l → Needs s l i
  | next {i j} : Needs s l i → s.cache.findId i = none → j ∈ storedFriends s.db i → Needs s l j

/-- The id is cached or has a row. -/
def Covered (s : Store) (i : UInt32) : Prop :=
  s.cache.findId i ≠ none ∨ ∃ r ∈ s.db.users, uid r = i

/-- The ids of `W` can all be loaded, and their friends are in `W`. -/
structure Provides (s : Store) (W : UInt32 → Prop) : Prop where
  covered : ∀ i, W i → Covered s i
  next : ∀ i, W i → s.cache.findId i = none → ∀ j ∈ storedFriends s.db i, W j

theorem provides_needs {s : Store} {l : List UInt32} (h : ∀ i, Needs s l i → Covered s i) :
    Provides s (Needs s l) := ⟨h, fun _ hi hn _ hj => .next hi hn hj⟩

theorem Provides.mono {s s' : Store} {W : UInt32 → Prop} (h : Provides s W) (hl : Loaded env s s') :
    Provides s' W := by
  refine ⟨fun i hi => ?_, fun i hi hn j hj => ?_⟩
  · rcases h.covered i hi with hc | hc
    · obtain ⟨p, hp⟩ := Option.ne_none_iff_exists'.mp hc
      exact Or.inl (by simp [hl.keepId hp])
    · exact Or.inr (hl.db ▸ hc)
  · refine h.next i hi ?_ j (hl.db ▸ hj)
    by_contra hc
    obtain ⟨p, hp⟩ := Option.ne_none_iff_exists'.mp hc
    rw [hl.keepId hp] at hn
    cases hn

variable (env) in
theorem loadFriends_total (load : Store → Key → Option (Option Ptr × Store)) {W : UInt32 → Prop} {m : ℕ}
    (hload : ∀ s i r s', DbOk s.db → Coherent s → s.cache.findId i = none →
      load s (.id i) = some (r, s') → Answers env s (.id i) r s')
    (htotal : ∀ s i, DbOk s.db → Coherent s → Provides s W → W i → s.cache.findId i = none →
      (uncached s).length ≤ m → ∃ r s', load s (.id i) = some (r, s')) (self : Ptr) :
    ∀ (l : List UInt32) (s : Store), DbOk s.db → Coherent s → Provides s W → (∀ i ∈ l, W i) →
      (uncached s).length ≤ m → ∃ s', loadFriends load self l s = some s'
  | [], s, _, _, _, _, _ => ⟨s, rfl⟩
  | i :: l, s, hok, hc, hp, hl, hm => by
    obtain ⟨f, s1, h1⟩ : ∃ f s1, lookupWith load s (.id i) = some (f, s1) := by
      unfold lookupWith
      rcases hk : s.cache.findKey (.id i) with _ | p
      · exact htotal s i hok hc hp (hl i (by simp)) hk hm
      · exact ⟨_, _, rfl⟩
    have ha := lookupWith_answers hc (fun r s'' hk => hload s i r s'' hok hc hk) h1
    obtain ⟨hl2, hc2⟩ := loaded_setHeap env ha.coherent
      (addFriend_extends s1.cache.heap self f) (addFriend_brk s1.cache.heap self f)
    have hl12 := ha.loaded.trans hl2 ha.coherent
    obtain ⟨s', h'⟩ := loadFriends_total load hload htotal self l _ (hl12.db ▸ hok) hc2 (hp.mono hl12)
      (fun j hj => hl j (by simp [hj])) ((uncached_sublist hl12).length_le.trans hm)
    exact ⟨s', by rw [loadFriends, h1]; exact h'⟩

theorem length_whereExpr_id (i : UInt32) : (whereExpr (.id i)).length < 128 := by
  have hi : i.toNat < 10 ^ 10 := i.toNat_lt.trans (by norm_num)
  have := length_decimal hi (by norm_num)
  have h7 : (str "userid=").length = 7 := rfl
  rw [whereExpr, List.length_append, h7]
  omega

variable (env) in
/-- **A load returns** when every id it needs is cached or has a row, and calls may nest deeper than
there are rows to cache. -/
theorem loadUser_total {W : UInt32 → Prop} : ∀ (k : ℕ) (s : Store) (key : Key), DbOk s.db → Coherent s →
    Exact env.eng s.db key → s.cache.findKey key = none → Provides s W →
    (whereExpr key).length < 128 →
    (∀ r ∈ s.db.users, key.names r = true → ∀ j ∈ storedFriends s.db (uid r), W j) →
    ((∃ n, key = .name n) ∨ ∃ r ∈ s.db.users, key.names r = true) →
    (uncached s).length < k → ∃ a s', loadUser env k s key = some (a, s')
  | 0, _, _, _, _, _, _, _, _, _, _, hk => absurd hk (by omega)
  | k + 1, s, key, hok, hc, hx, hnone, hp, hlen, hW, hrow, hk => by
    rw [loadUser, if_neg (by omega), hx]
    rcases rows_cases hok key with ⟨hnil, hno⟩ | ⟨r, hr, e, hone⟩
    · rw [hnil]
      rcases hrow with ⟨n, rfl⟩ | ⟨r, hr, e⟩
      · exact ⟨_, _, rfl⟩
      · rw [hno r hr] at e; cases e
    · rw [hone]
      obtain ⟨hld, hc1, hself, -, -⟩ := addRow_spec env hok hc hr hnone e
      have hi := (not_cached hok hc hr hnone e).1
      have hlt := uncached_lt hld hr hi (by simp [hself])
      obtain ⟨s', h'⟩ := loadFriends_total env (loadUser env k) (W := W)
        (m := (uncached (addRow env s r).2).length)
        (fun s i r s' hok hc hi => loadUser_answers k s (.id i) r s' hok hc (exact_id _ _ _) hi)
        (fun s i hok hc hp hw hi hm => by
          refine loadUser_total k s (.id i) hok hc (exact_id _ _ _) hi hp (length_whereExpr_id i) ?_ ?_
            (by omega)
          · intro r hr e j hj
            have hu : uid r = i := by
              apply UInt32.toNat.inj
              have := hok.toNat_uid hr
              simp only [Key.names, decide_eq_true_eq] at e
              omega
            exact hp.next i hw hi j (hu ▸ hj)
          · rcases hp.covered i hw with hcov | ⟨r, hr, hu⟩
            · exact absurd hi hcov
            · refine Or.inr ⟨r, hr, decide_eq_true ?_⟩
              rw [← hu, hok.toNat_uid hr])
        (addRow env s r).1 (storedFriends s.db (uid r)) (addRow env s r).2 (hld.db ▸ hok) hc1
        (hp.mono hld) (hW r hr e) le_rfl
      exact ⟨some (addRow env s r).1, s', by
        show Option.map _ (loadFriends _ _ (storedFriends s.db (uid r)) _) = _
        rw [h']; rfl⟩

end Lookup

end Blitzd.Cache
