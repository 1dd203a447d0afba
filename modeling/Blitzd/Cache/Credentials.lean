import Blitzd.Cache.UserLookup

/-! # Accounts by their id

`Store.creds s i` is what account `i` logs on with, wherever it is kept: the cached account, or the row
of an account not loaded yet. Loading does not change it (`creds_loaded`), an account changed in place
changes its own entry only (`moves_modify`), and a new account gets an id nobody has (`moves_add`), as
long as ids are below `_next_uid` (`Sound`). -/

namespace Blitzd.Cache

open Blitzd.Lib Blitzd.Lib.Bytes Blitzd.Lib.KeyMap Blitzd.Utils.CString Blitzd.Storage.Sqlite

structure Creds where
  salt : Buf 32
  verifier : Buf 32
  passwd : Buf 20
deriving DecidableEq

def UserCacheItem.creds (u : UserCacheItem) : Creds := ⟨u.salt, u.verifier, u.passwd⟩

/-- What a row holds, if its blobs are complete. -/
def rowCreds (r : UserRow) : Option Creds := do
  some ⟨← blob? 32 r.salt, ← blob? 32 r.verifier, ← blob? 20 r.passwd⟩

/-- The credentials of the account with id `i`. -/
def Store.creds (s : Store) (i : UInt32) : Option Creds :=
  match s.cache.findId i with
  | some p => some (s.cache.get p).creds
  | none => (s.db.users.find? fun r => uid r = i).bind rowCreds

/-- The two maps agree with each other and with the rows, and all ids are below the next one. -/
structure Indexed (s : Store) : Prop where
  db : DbOk s.db
  coherent : Coherent s
  next : s.cache.nextUid ≠ 0
  below : ∀ {i p}, s.cache.findId i = some p → i < s.cache.nextUid
  rowBelow : ∀ r ∈ s.db.users, uid r < s.cache.nextUid

/-- The state a server is in: rows as the server writes them, maps that agree with them, and all ids
below the next one. -/
structure Sound (s : Store) : Prop where
  db : DbOk s.db
  blobs : ∀ r ∈ s.db.users, rowCreds r ≠ none
  coherent : Coherent s
  next : s.cache.nextUid ≠ 0
  below : ∀ {i p}, s.cache.findId i = some p → i < s.cache.nextUid
  rowBelow : ∀ r ∈ s.db.users, uid r < s.cache.nextUid

variable {env : Env} {s s' s₁ : Store} {i : UInt32} {p : Ptr}

theorem Sound.indexed (h : Sound s) : Indexed s := ⟨h.db, h.coherent, h.next, h.below, h.rowBelow⟩

theorem Indexed.sound (h : Indexed s) (hblobs : ∀ r ∈ s.db.users, rowCreds r ≠ none) : Sound s :=
  ⟨h.db, hblobs, h.coherent, h.next, h.below, h.rowBelow⟩

theorem creds_cached (h : s.cache.findId i = some p) : s.creds i = some (s.cache.get p).creds := by
  simp only [Store.creds, h]

theorem creds_row (hok : DbOk s.db) (h : s.cache.findId i = none) {r : UserRow} (hr : r ∈ s.db.users)
    (hi : uid r = i) : s.creds i = rowCreds r := by
  have hfind : s.db.users.find? (fun r => uid r = i) = some r := by
    rcases hf : s.db.users.find? (fun r => uid r = i) with _ | r'
    · have := List.find?_eq_none.mp hf r hr
      simp [hi] at this
    · have hi' : uid r' = i := by simpa using List.find?_some hf
      rw [hok.eq_of_uid (List.mem_of_find?_eq_some hf) hr (hi'.trans hi.symm)]
  simp only [Store.creds, h, hfind, Option.bind_some]

theorem creds_congr (hdb : s'.db = s.db) (h : s.cache.findId i = none) (h' : s'.cache.findId i = none) :
    s'.creds i = s.creds i := by
  simp only [Store.creds, h, h', hdb]

theorem creds_of_core {u v : UserCacheItem} (h : u.core = v.core) : u.creds = v.creds := by
  have hcore : u.core.creds = v.core.creds := by rw [h]
  exact hcore

theorem creds_rowItem {r : UserRow} {cr : Creds} (h : rowCreds r = some cr) :
    (rowItem env p r).creds = cr := by
  simp only [rowCreds, Option.bind_eq_bind, Option.bind_eq_some_iff, Option.some.injEq] at h
  obtain ⟨a, ha, b, hb, c, hc, rfl⟩ := h
  unfold rowItem
  rw [fillRow_eq]
  simp only [UserCacheItem.creds, ha, hb, hc, Option.getD_some]

/-- **Loading accounts changes nobody's credentials.** -/
theorem creds_loaded (hs : Sound s) (hl : Loaded env s s') (i : UInt32) : s'.creds i = s.creds i := by
  rcases h : s.cache.findId i with _ | p
  · rcases h' : s'.cache.findId i with _ | p
    · exact creds_congr hl.db h h'
    · rcases hl.newId h' with hold | ⟨-, r, hr, hi, hcore⟩
      · rw [h] at hold
        cases hold
      · obtain ⟨cr, hcr⟩ := Option.ne_none_iff_exists'.mp (hs.blobs r hr)
        rw [creds_cached h', creds_row hs.db h hr hi, hcr, creds_of_core hcore, creds_rowItem hcr]
  · have hcreds : (s'.cache.get p).creds = (s.cache.get p).creds :=
      creds_of_core (hl.heap.cell p (hs.coherent.id h).1)
    rw [creds_cached h, creds_cached (hl.keepId h), hcreds]

/-! ### Steps of the account store -/

/-- Ids stay, and credentials stay or change as `chg` allows. -/
structure Moves (chg : UInt32 → Creds → Creds → Prop) (s s' : Store) : Prop where
  sound : Sound s'
  keepId : ∀ {i p}, s.cache.findId i = some p → s'.cache.findId i = some p
  creds : ∀ {i cr}, s.creds i = some cr → ∃ cr', s'.creds i = some cr' ∧ (cr' = cr ∨ chg i cr cr')

variable {chg : UInt32 → Creds → Creds → Prop}

theorem Moves.refl (hs : Sound s) : Moves chg s s := ⟨hs, id, fun h => ⟨_, h, .inl rfl⟩⟩

theorem Indexed.loaded (hs : Indexed s) (hl : Loaded env s s') (hc : Coherent s') : Indexed s' := by
  have hnext := hl.next hs.rowBelow
  refine ⟨hl.db ▸ hs.db, hc, by rw [hnext]; exact hs.next, fun {i p} hi => ?_, fun r hr => ?_⟩
  · rw [hnext]
    rcases hl.newId hi with hi | ⟨-, r, hr, rfl, -⟩
    · exact hs.below hi
    · exact hs.rowBelow r hr
  · rw [hnext]
    exact hs.rowBelow r (hl.db ▸ hr)

theorem Sound.loaded (hs : Sound s) (hl : Loaded env s s') (hc : Coherent s') : Sound s' :=
  (hs.indexed.loaded hl hc).sound (hl.db ▸ hs.blobs)

/-- Loading first. -/
theorem Moves.of_loaded (hs : Sound s) (hl : Loaded env s s₁) (hm : Moves chg s₁ s') : Moves chg s s' := by
  refine ⟨hm.sound, fun hi => hm.keepId (hl.keepId hi), fun {i cr} hcr => hm.creds ?_⟩
  rw [creds_loaded hs hl, hcr]

/-- Changes of an account that keep its id and name. -/
theorem Coherent.modify (hc : Coherent s) (p : Ptr) {f : UserCacheItem → UserCacheItem}
    (hf : ∀ u, (f u).id = u.id ∧ (f u).username = u.username) :
    Coherent ⟨s.cache.modify p f, s.db⟩ := by
  have hget : ∀ q, ((s.cache.modify p f).get q).id = (s.cache.get q).id ∧
      ((s.cache.modify p f).get q).username = (s.cache.get q).username := fun q =>
    ⟨s.cache.get_modify_keeps UserCacheItem.id (hf _).1 q, s.cache.get_modify_keeps UserCacheItem.username (hf _).2 q⟩
  refine ⟨fun {n q} hn => ?_, fun {i q} hi => ?_, fun r hr {q} hn => ?_, fun r hr {q} hi => ?_⟩
  · dsimp only
    rw [(hget q).1, (hget q).2]
    exact hc.name hn
  · dsimp only
    rw [(hget q).1, (hget q).2]
    exact hc.id hi
  · dsimp only
    rw [(hget q).1]
    exact hc.row r hr hn
  · dsimp only
    rw [(hget q).2]
    exact hc.idRow r hr hi

theorem creds_modify_self (hp : s.cache.findId i = some p) (f : UserCacheItem → UserCacheItem) :
    Store.creds ⟨s.cache.modify p f, s.db⟩ i = some (f (s.cache.get p)).creds := by
  have hp' : (s.cache.modify p f).findId i = some p := hp
  rw [creds_cached (s := ⟨s.cache.modify p f, s.db⟩) hp']
  exact congrArg (fun u => some (UserCacheItem.creds u)) (Heap.modify_self _ _ _)

/-- **An account changed in place.** -/
theorem moves_modify (hs : Sound s) (hp : s.cache.findId i = some p) {f : UserCacheItem → UserCacheItem}
    (hf : ∀ u, (f u).id = u.id ∧ (f u).username = u.username)
    (hchg : chg i (s.cache.get p).creds (f (s.cache.get p)).creds) :
    Moves chg s ⟨s.cache.modify p f, s.db⟩ := by
  refine ⟨⟨hs.db, hs.blobs, hs.coherent.modify p hf, hs.next, fun hi => hs.below hi, hs.rowBelow⟩,
    fun hi => hi, fun {j cr} hcr => ?_⟩
  rcases hj : s.cache.findId j with _ | q
  · exact ⟨cr, by rw [← hcr]; exact creds_congr rfl hj hj, .inl rfl⟩
  · rw [creds_cached hj, Option.some.injEq] at hcr
    subst hcr
    rcases eq_or_ne q p with rfl | hq
    · have hij : i = j := (hs.coherent.id hp).2.1.symm.trans (hs.coherent.id hj).2.1
      subst hij
      exact ⟨_, creds_modify_self hp f, .inr hchg⟩
    · have hj' : (s.cache.modify p f).findId j = some q := hj
      refine ⟨_, creds_cached hj', .inl ?_⟩
      exact congrArg UserCacheItem.creds (Heap.modify_ne _ _ hq)

/-! ### New accounts -/

/-- The store after `Add(name)` and the settings `f` of the new account. -/
def added (env : Env) (s : Store) (n : Text) (f : UserCacheItem → UserCacheItem) : Store :=
  ⟨(s.cache.add env n 0).2.modify (s.cache.add env n 0).1 f, s.db⟩

theorem get_added (n : Text) (f : UserCacheItem → UserCacheItem) :
    (added env s n f).cache.get s.cache.heap.brk =
      f ((UserCacheItem.new n (env.junk s.cache.heap.brk)).setUserId s.cache.nextUid) := get_add_modify _ _ _ _

variable (env) in
/-- A new account has a new id and a name that no account has. -/
theorem fresh_added (hs : Indexed s) {n : Text} {f : UserCacheItem → UserCacheItem}
    (hf : ∀ u, (f u).id = u.id ∧ (f u).username = u.username)
    (hname : ∀ q, s.cache.findName n = some q → (s.cache.get q).id = 0)
    (hrow : ∀ r ∈ s.db.users, strcmpiEq n r.username = false) :
    Fresh s s.cache.heap.brk (added env s n f) := by
  have haddId : s.cache.addId 0 = s.cache.nextUid := if_pos rfl
  refine fresh_add env hf (haddId ▸ hs.next) hname ?_ fun r hr => ?_
  · rw [haddId]
    by_contra h
    obtain ⟨q, hq⟩ := Option.ne_none_iff_exists'.mp h
    exact absurd (hs.below hq) (UInt32.lt_irrefl _)
  · rw [haddId, hrow r hr]
    refine ⟨fun e => ?_, fun e => by cases e⟩
    have hlt := hs.rowBelow r hr
    rw [← e] at hlt
    exact absurd hlt (UInt32.lt_irrefl _)

theorem lt_succ_of_lt {a b : UInt32} (hb : b.toNat + 1 < 2 ^ 32) (h : a ≤ b) : a < b + 1 := by
  rw [UInt32.lt_iff_toNat_lt, UInt32.toNat_add]
  rw [UInt32.le_iff_toNat_le] at h
  have h1 : (1 : UInt32).toNat = 1 := rfl
  omega

/-- **A new account gets an id and a name that are new to both maps and the table.** -/
theorem Indexed.added (hs : Indexed s) {n : Text} {f : UserCacheItem → UserCacheItem}
    (hf : ∀ u, (f u).id = u.id ∧ (f u).username = u.username)
    (hname : ∀ q, s.cache.findName n = some q → (s.cache.get q).id = 0)
    (hrow : ∀ r ∈ s.db.users, strcmpiEq n r.username = false)
    (hnext : s.cache.nextUid.toNat + 1 < 2 ^ 32) : Indexed (added env s n f) := by
  have hfr := fresh_added env hs hf hname hrow
  have hid : ((Cache.added env s n f).cache.get s.cache.heap.brk).id = s.cache.nextUid := by
    rw [get_added, (hf _).1]; rfl
  have hnew : (Cache.added env s n f).cache.nextUid = s.cache.nextUid + 1 := rfl
  refine ⟨hs.db, hfr.coherent hs.coherent, ?_, fun {j q} hj => ?_, fun r hr => ?_⟩
  · rw [hnew]
    intro e
    have hlt := lt_succ_of_lt hnext (UInt32.le_refl _)
    rw [e] at hlt
    exact absurd hlt (UInt32.not_lt_zero)
  · rw [hnew]
    by_cases hjn : j = s.cache.nextUid
    · exact lt_succ_of_lt hnext (by rw [hjn]; exact UInt32.le_refl _)
    · rw [hfr.id, hid, if_neg fun e => hjn e.2] at hj
      exact lt_succ_of_lt hnext (UInt32.le_of_lt (hs.below hj))
  · rw [hnew]
    exact lt_succ_of_lt hnext (UInt32.le_of_lt (hs.rowBelow r hr))

/-- **A new account leaves the others alone.** -/
theorem moves_add (hs : Sound s) {n : Text} {f : UserCacheItem → UserCacheItem}
    (hf : ∀ u, (f u).id = u.id ∧ (f u).username = u.username)
    (hname : ∀ q, s.cache.findName n = some q → (s.cache.get q).id = 0)
    (hrow : ∀ r ∈ s.db.users, strcmpiEq n r.username = false)
    (hnext : s.cache.nextUid.toNat + 1 < 2 ^ 32) : Moves chg s (added env s n f) := by
  have hfr := fresh_added env hs.indexed hf hname hrow
  have hid : ((added env s n f).cache.get s.cache.heap.brk).id = s.cache.nextUid := by
    rw [get_added, (hf _).1]; rfl
  have hold : ∀ {j}, j ≠ s.cache.nextUid → (added env s n f).cache.findId j = s.cache.findId j := by
    intro j hj
    rw [hfr.id, hid, if_neg fun e => hj e.2]
  refine ⟨(hs.indexed.added hf hname hrow hnext).sound hs.blobs, hfr.keepId, fun {j cr} hcr => ⟨cr, ?_, .inl rfl⟩⟩
  · rcases hj : s.cache.findId j with _ | q
    · -- the id is taken: it is that of a row, so not the new one
      have hjn : j ≠ s.cache.nextUid := by
        rintro rfl
        have hnone : s.db.users.find? (fun r => uid r = s.cache.nextUid) = none := by
          rw [List.find?_eq_none]
          intro r hr hu
          have hlt := hs.rowBelow r hr
          rw [decide_eq_true_eq.mp hu] at hlt
          exact UInt32.lt_irrefl _ hlt
        simp [Store.creds, hj, hnone] at hcr
      rw [← hcr]
      exact creds_congr rfl hj ((hold hjn).trans hj)
    · rw [creds_cached (hfr.keepId hj), ← hcr, creds_cached hj]
      exact congrArg (fun u => some (UserCacheItem.creds u)) (hfr.old q (hs.coherent.id hj).1)

/-! ### Lookups -/

open UserLookup (Plain exact_of_plain)

/-- The name is cached, or read as itself. -/
def Reads (s : Store) (n : Text) : Prop := s.cache.findName n ≠ none ∨ Plain n

theorem lookup_loads (hs : Sound s) {k : ℕ} {n : Text} (hn : NulFree n) (hr : Reads s n) {a : Option Ptr}
    (h : lookup env k s (.name n) = some (a, s')) : Answers env s (.name n) a s' := by
  rcases hr with hcached | hp
  · obtain ⟨p, hp⟩ := Option.ne_none_iff_exists'.mp hcached
    rw [lookup_cached env k (.name n) hp] at h
    cases h
    exact ⟨.refl s, hs.coherent, .refl s, p, hp, rfl⟩
  · exact lookup_answers hs.db hs.coherent (exact_of_plain env.eng s.db hn hp) h

/-- The account answered is found under its id. -/
theorem findId_of_answer {key : Text} (h : Answers env s (.name key) (some p) s') :
    s'.cache.findId (s'.cache.get p).id = some p := by
  obtain ⟨q, hq, he⟩ := h.found
  split_ifs at he with hex
  cases he
  refine (h.coherent.name hq).2.2 fun h0 => ?_
  rw [UserCacheItem.isExist, h0] at hex
  cases hex

/-- A name answered with no account is free. -/
theorem free_of_answer (hok : DbOk s'.db) {n : Text} {a : Option Ptr} (h : Answers env s (.name n) a s')
    (ha : ∀ p, a = some p → (s'.cache.get p).isExist = false) :
    (∀ q, s'.cache.findName n = some q → (s'.cache.get q).id = 0) ∧
      ∀ r ∈ s'.db.users, strcmpiEq n r.username = false := by
  obtain ⟨p, hp, he⟩ := h.found
  have hp : s'.cache.findName n = some p := hp
  have h0 : (s'.cache.get p).id = 0 := by
    by_contra hne
    have hex : (s'.cache.get p).isExist = true := decide_eq_true (UInt32.pos_iff_ne_zero.mpr hne)
    rw [if_pos hex] at he
    rw [ha p he] at hex
    cases hex
  refine ⟨fun q hq => ?_, fun r hr => ?_⟩
  · rw [hp] at hq
    cases hq
    exact h0
  · rw [Bool.eq_false_iff]
    intro e
    have := h.coherent.row r hr (by rw [← s'.cache.findName_congr e]; exact hp)
    exact hok.uid_ne_zero hr (this.symm.trans h0)

end Blitzd.Cache
