import Blitzd.Lib.Run
import Blitzd.Cache.Credentials
import Blitzd.Plugins.LogonStep

/-! # Accounts from the start of the server on

A server that has read its counters from the table (`LoadFromDB`) looks accounts up by name and by id and creates new
ones (`AccountCreate`, `OldAccountCreate2`). `agree_run`: as long as ids do not run out, the name map and the id map
hold the same accounts, each under its own name and id, with all ids below the next one.

The number of accounts shown by `/status` is another matter. `LoadFromDB` reads the largest id once more in place of
the number of rows, and `Add` counts an account when it is created and also when it is loaded, so the number is right
only as long as ids have no gaps and nothing is loaded (`count_run`, `wrong_count`). -/

namespace Blitzd.Plugins.Accounts

open Blitzd.Lib Blitzd.Lib.Bytes Blitzd.Utils.CString Blitzd.Storage.Sqlite Blitzd.Cache Blitzd.Core
open Blitzd.Plugins.Logon

variable {env : Env} {w w' w₀ : Server} {s : Store} {db : Database}

/-- A lookup, or a packet that asks for a new account, with what is sent back. -/
inductive Request
  | lookup (key : Key)
  | create (c : ConnId) (call : Call) (reply : List Reply)

def Request.Step (env : Env) (w : Server) : Request → Server → Prop
  | .lookup key, w' => ∃ a store, Cache.lookup env env.depth w.store key = some (a, store) ∧ w' = withStore w store
  | .create c call reply, w' =>
    (call.op = .accountCreate ∨ call.op = .oldAccountCreate2) ∧ handle env c call w = some (w', reply)

/-- What is looked up. -/
def Request.key : Request → Key
  | .lookup key => key
  | .create _ call _ => .name call.username

/-- The reply says that the account was created. -/
def Request.created : Request → Bool
  | .lookup _ => false
  | .create _ _ reply => reply = [.accountCreate 0] ∨ reply = [.oldAccountCreate2 0]

/-- The number of accounts created. -/
def createdCount : List (Entry Server Request) → ℕ
  | [] => 0
  | x :: hist => createdCount hist + if x.event.created then 1 else 0

/-- What a packet for a new account does. -/
theorem handle_create {c : ConnId} {call : Call} {reply : List Reply}
    (hop : call.op = .accountCreate ∨ call.op = .oldAccountCreate2)
    (h : handle env c call w = some (w', reply)) :
    ∃ ptr store, lookup env env.depth w.store (.name call.username) = some (ptr, store) ∧
      ((w' = withStore w store ∧ (Request.create c call reply).created = false) ∨
        ¬ Taken (withStore w store) ptr ∧ (Request.create c call reply).created = true ∧
          ∃ f, (∀ u : UserCacheItem, (f u).id = u.id ∧ (f u).username = u.username) ∧
            w'.store = added env store call.username f) := by
  obtain ⟨op, payload, sc⟩ := call
  dsimp only at hop
  rcases hop with rfl | rfl
  · have h : accountCreate env sc payload w = some (w', reply) := h
    unfold accountCreate at h
    obtain ⟨ptr, store, hl, he⟩ := withUser_eq_pair h
    refine ⟨ptr, store, hl, ?_⟩
    split_ifs at he with ht
    · obtain ⟨rfl, rfl⟩ := Prod.mk.inj he
      exact .inl ⟨rfl, by simp [Request.created]⟩
    · obtain ⟨rfl, rfl⟩ := Prod.mk.inj he
      exact .inr ⟨ht, by simp [Request.created], _, setup_keeps _ _, rfl⟩
  · have h : oldAccountCreate2 env sc payload w = some (w', reply) := h
    unfold oldAccountCreate2 at h
    obtain ⟨ptr, store, hl, he⟩ := withUser_eq_pair h
    refine ⟨ptr, store, hl, ?_⟩
    split_ifs at he with ht
    · obtain ⟨rfl, rfl⟩ := Prod.mk.inj he
      exact .inl ⟨rfl, by simp [Request.created]⟩
    · obtain ⟨rfl, rfl⟩ := Prod.mk.inj he
      exact .inr ⟨ht, by simp [Request.created], _, old_setup_keeps _, rfl⟩

/-- **A request looks one key up**, and may then add an account of a name that is free. -/
theorem Request.Step.outcome {e : Request} (h : e.Step env w w') :
    ∃ ptr store, Cache.lookup env env.depth w.store e.key = some (ptr, store) ∧
      ((w'.store = store ∧ e.created = false) ∨
        e.created = true ∧ (∀ p, ptr = some p → (store.cache.get p).isExist = false) ∧
          ∃ n f, e.key = .name n ∧ (∀ u : UserCacheItem, (f u).id = u.id ∧ (f u).username = u.username) ∧
            w'.store = added env store n f) := by
  cases e with
  | lookup key =>
    obtain ⟨a, store, hl, rfl⟩ := h
    exact ⟨a, store, hl, .inl ⟨rfl, rfl⟩⟩
  | create c call reply =>
    obtain ⟨hop, hh⟩ := h
    obtain ⟨ptr, store, hl, ⟨rfl, hc⟩ | ⟨hfree, hc, f, hf, hs⟩⟩ := handle_create hop hh
    · exact ⟨ptr, store, hl, .inl ⟨rfl, hc⟩⟩
    · refine ⟨ptr, store, hl, .inr ⟨hc, fun p hp => ?_, _, f, rfl, hf, hs⟩⟩
      exact Bool.eq_false_of_not_eq_true fun hex => hfree ⟨p, hp, hex⟩

/-! ### The two maps -/

/-- The maps hold the same accounts, each under its own id and name, and every id, cached or stored, is below the next
one. -/
structure Agree (s : Store) : Prop where
  id : ∀ {i p}, s.cache.findId i = some p →
    (s.cache.get p).id = i ∧ s.cache.findName (s.cache.get p).username = some p
  name : ∀ {n p}, s.cache.findName n = some p → 0 < (s.cache.get p).id →
    s.cache.findId (s.cache.get p).id = some p
  below : ∀ {i p}, s.cache.findId i = some p → i < s.cache.nextUid
  rowBelow : ∀ r ∈ s.db.users, r.userid < s.cache.nextUid.toNat
  unique : ∀ {n n' p q}, s.cache.findName n = some p → s.cache.findName n' = some q → 0 < (s.cache.get p).id →
    0 < (s.cache.get q).id → strcmpiEq (s.cache.get p).username (s.cache.get q).username = true → p = q

theorem agree_of_indexed (h : Indexed s) : Agree s := by
  have hname : ∀ {n p}, s.cache.findName n = some p → 0 < (s.cache.get p).id →
      s.cache.findId (s.cache.get p).id = some p := fun hn hid =>
    (h.coherent.name hn).2.2 (UInt32.pos_iff_ne_zero.mp hid)
  refine ⟨fun hi => ?_, hname, h.below, fun r hr => ?_, fun {n n' p q} hp hq hidp hidq hcmp => ?_⟩
  · obtain ⟨-, hid, -, hn⟩ := h.coherent.id hi
    exact ⟨hid, hn⟩
  · rw [← h.db.toNat_uid hr]
    exact Int.ofNat_lt.mpr (UInt32.lt_iff_toNat_lt.mp (h.rowBelow r hr))
  · -- both are what the name map holds under one name
    obtain ⟨-, -, -, hp'⟩ := h.coherent.id (hname hp hidp)
    obtain ⟨-, -, -, hq'⟩ := h.coherent.id (hname hq hidq)
    rw [s.cache.findName_congr hcmp, hq'] at hp'
    exact (Option.some.inj hp').symm

/-- `MAX(userid)` is the id of a row. -/
theorem maxUserid_spec {r : UserRow} (hr : r ∈ db.users) :
    r.userid ≤ maxUserid db ∧ ∃ r' ∈ db.users, r'.userid = maxUserid db := by
  unfold maxUserid
  have hmem : r.userid ∈ db.users.map UserRow.userid := List.mem_map_of_mem hr
  rcases hmax : (db.users.map UserRow.userid).max? with _ | m
  · rw [List.max?_eq_none_iff.mp hmax] at hmem
    cases hmem
  · obtain ⟨hm, hle⟩ := List.max?_eq_some_iff.mp hmax
    exact ⟨hle _ hmem, List.mem_map.mp hm⟩

theorem indexed_loadFromDB (hok : DbOk db) (hnext : (loadFromDB ⟨UserCache.new, db⟩).cache.nextUid ≠ 0) :
    Indexed (loadFromDB ⟨UserCache.new, db⟩) := by
  refine ⟨hok, coherent_new rfl rfl db, hnext, fun hi => (by cases hi), fun r hr => ?_⟩
  -- the next id is the largest one plus one, and has not wrapped
  obtain ⟨hle, r', hr', hmax⟩ := maxUserid_spec hr
  have hnew : (loadFromDB ⟨UserCache.new, db⟩).cache.nextUid = uid r' + 1 := by
    rw [uid, hmax]
    rfl
  have huid := hok.toNat_uid hr
  have huid' := hok.toNat_uid hr'
  rw [hnew] at hnext ⊢
  refine lt_succ_of_lt ?_ (UInt32.le_iff_toNat_le.mpr (by omega))
  by_contra hwrap
  refine hnext (UInt32.toNat_inj.mp ?_)
  have hlt := (uid r').toNat_lt
  rw [UInt32.toNat_add, UInt32.toNat_one, UInt32.toNat_zero]
  omega

/-- The storage answers for the key, or is not asked: a name selects the rows of that name (an id always selects its
own). -/
def Answered (env : Env) (s : Store) (key : Key) : Prop :=
  s.cache.findKey key ≠ none ∨ Exact env.eng s.db key

theorem Answered.answers {key : Key} {a : Option Ptr} {store : Store} (h : Answered env s key) (hi : Indexed s)
    (hl : lookup env env.depth s key = some (a, store)) : Answers env s key a store := by
  rcases h with hcached | hx
  · obtain ⟨p, hp⟩ := Option.ne_none_iff_exists'.mp hcached
    rw [lookup_cached env env.depth key hp] at hl
    cases hl
    exact ⟨.refl s, hi.coherent, .refl s, p, hp, rfl⟩
  · exact lookup_answers hi.db hi.coherent hx hl

/-- **What one request does to the maps.** -/
theorem Request.Step.indexed {e : Request} (h : e.Step env w w') (hi : Indexed w.store)
    (hans : Answered env w.store e.key) (hnext : w'.store.cache.nextUid ≠ 0) : Indexed w'.store := by
  obtain ⟨ptr, store, hl, ⟨rfl, -⟩ | ⟨-, hfree, n, f, hkey, hf, hs⟩⟩ := h.outcome
  · have ha := hans.answers hi hl
    exact hi.loaded ha.loaded ha.coherent
  · have ha := hans.answers hi hl
    have hi' := hi.loaded ha.loaded ha.coherent
    rw [hkey] at ha
    obtain ⟨hname, hrow⟩ := free_of_answer hi'.db ha hfree
    rw [hs] at hnext ⊢
    refine hi'.added hf hname hrow ?_
    -- the next id was given out without wrapping
    by_contra hwrap
    refine hnext (UInt32.toNat_inj.mp ?_)
    have hlt := store.cache.nextUid.toNat_lt
    show (store.cache.nextUid + 1).toNat = 0
    rw [UInt32.toNat_add, UInt32.toNat_one]
    omega

/-- **The two maps agree after any requests**, as long as the next id does not wrap. -/
theorem agree_run (env : Env) (hok : DbOk db) (hw₀ : w₀.store = loadFromDB ⟨UserCache.new, db⟩)
    (h0 : w₀.store.cache.nextUid ≠ 0) {hist : List (Entry Server Request)}
    (hr : Run (Request.Step env) w₀ hist w)
    (hans : Allowed (fun _ w e => Answered env w.store e.key) hist)
    (hnext : ∀ x ∈ hist, x.after.store.cache.nextUid ≠ 0) : Agree w.store := by
  refine agree_of_indexed ?_
  induction hr with
  | nil =>
    rw [hw₀] at h0 ⊢
    exact indexed_loadFromDB hok h0
  | snoc _ hs ih =>
    exact hs.indexed (ih hans.2 fun x hx => hnext x (List.mem_cons_of_mem _ hx)) hans.1
      (hnext _ List.mem_cons_self)

open UserLookup (idleEnv twoUsers dbOk_twoUsers exact_of_plain)

/-- A server that has started with the table of `alice` and `bob`. -/
def started : Server where
  clients := ⟨fun _ => Client.new 0 0 (Buf.zero 20) (Buf.zero 20), 1⟩
  pool := ⟨[], []⟩
  store := loadFromDB ⟨UserCache.new, twoUsers⟩

/-- A packet that asks for the account `carol`. -/
def createCarol : Call := ⟨.oldAccountCreate2, (Buf.zero 20).bytes ++ str "carol", .zero⟩

/-- `alice` is loaded, then `carol` is created. -/
theorem agree_alice_carol : ∃ hist w, Run (Request.Step idleEnv) started hist w ∧
    hist.map Entry.event = [.create 0 createCarol [.oldAccountCreate2 0], .lookup (.name (str "alice"))] ∧
    Agree w.store := by
  obtain ⟨w₁, w₂, h₁, h₂, hn₁, hn₂⟩ : ∃ w₁ w₂, (Request.lookup (.name (str "alice"))).Step idleEnv started w₁ ∧
      (Request.create 0 createCarol [.oldAccountCreate2 0]).Step idleEnv w₁ w₂ ∧
      w₁.store.cache.nextUid = 3 ∧ w₂.store.cache.nextUid = 4 :=
    ⟨_, _, ⟨_, _, rfl, rfl⟩, ⟨.inr rfl, rfl⟩, rfl, rfl⟩
  have hr := (Run.nil.snoc h₁).snoc h₂
  have hcarol : createCarol.username = str "carol" := by decide
  refine ⟨_, w₂, hr, rfl, agree_run idleEnv dbOk_twoUsers rfl (by decide) hr ⟨.inr ?_, .inr ?_, trivial⟩ ?_⟩
  · show Exact _ _ (.name createCarol.username)
    rw [hcarol]
    exact exact_of_plain _ _ (by decide) (by decide)
  · exact exact_of_plain _ _ (by decide) (by decide)
  · intro x hx
    rcases List.mem_cons.mp hx with rfl | hx
    · rw [hn₂]; decide
    · rw [List.mem_singleton.mp hx, hn₁]; decide

/-! ### The number of accounts -/

/-- The lookup adds no account: the key is cached, or does not select a single row. -/
def NoLoad (env : Env) (s : Store) (key : Key) : Prop :=
  s.cache.findKey key ≠ none ∨ (getMatchUsers env.eng s.db (whereExpr key)).length ≠ 1

theorem NoLoad.counters {key : Key} {k : ℕ} {a : Option Ptr} {s' : Store} (h : NoLoad env s key)
    (hl : lookup env k s key = some (a, s')) :
    s'.cache.count = s.cache.count ∧ s'.cache.nextUid = s.cache.nextUid := by
  rcases hk : s.cache.findKey key with _ | p
  · rw [lookup_uncached k key hk] at hl
    rcases loadUser_cases hl with ⟨j, r, -, hrow, -⟩ | ⟨n, -, -, -, rfl⟩
    · rcases h with hcached | hlen
      · exact absurd hk hcached
      · rw [hrow] at hlen
        exact absurd rfl hlen
    · exact ⟨rfl, rfl⟩
  · rw [lookup_cached env k key hk] at hl
    cases hl
    exact ⟨rfl, rfl⟩

/-- The counter is `n`, and the next id is one more. -/
structure Counted (s : Store) (n : ℕ) : Prop where
  count : s.cache.count.toNat = n
  next : s.cache.nextUid = s.cache.count + 1

/-- An account is created, with an id that is not zero. -/
theorem Counted.added {n : ℕ} (h : Counted s n) (hne : s.cache.nextUid ≠ 0) (name : Text)
    (f : UserCacheItem → UserCacheItem) : Counted (added env s name f) (n + 1) := by
  have hcount : (Cache.added env s name f).cache.count = s.cache.count + 1 :=
    if_pos (show s.cache.addId 0 > 0 from UInt32.pos_iff_ne_zero.mpr hne)
  have hlt := s.cache.count.toNat_lt
  have hwrap : s.cache.count.toNat + 1 ≠ 2 ^ 32 := by
    intro e
    refine hne (UInt32.toNat_inj.mp ?_)
    rw [h.next, UInt32.toNat_add, UInt32.toNat_one, e]
    rfl
  refine ⟨?_, ?_⟩
  · rw [hcount, UInt32.toNat_add, UInt32.toNat_one, ← h.count]
    omega
  · rw [hcount, ← h.next]
    rfl

/-- A request that loads nothing, and creates nothing with the id `0`. -/
def CountsOnce (env : Env) (w : Server) (e : Request) : Prop :=
  NoLoad env w.store e.key ∧ (e.created = true → w.store.cache.nextUid ≠ 0)

theorem Request.Step.counted {e : Request} {n : ℕ} (h : e.Step env w w') (hn : Counted w.store n)
    (hok : CountsOnce env w e) : Counted w'.store (n + if e.created then 1 else 0) := by
  obtain ⟨ptr, store, hl, hout⟩ := h.outcome
  obtain ⟨hcount, hnext⟩ := hok.1.counters hl
  have hstore : Counted store n := ⟨by rw [hcount, hn.count], by rw [hcount, hnext, hn.next]⟩
  rcases hout with ⟨rfl, hc⟩ | ⟨hc, -, m, f, -, -, hs⟩
  · rw [hc]
    exact hstore
  · rw [hc, hs]
    exact hstore.added (by rw [hnext]; exact hok.2 hc) m f

/-- **The number of accounts is right** when the ids of the rows are `1` to their number, and from then on accounts
are created but none is loaded. -/
theorem count_run (env : Env) (hmax : maxUserid db = db.users.length) (hrows : db.users.length < 2 ^ 32)
    (hw₀ : w₀.store = loadFromDB ⟨UserCache.new, db⟩) {hist : List (Entry Server Request)}
    (hr : Run (Request.Step env) w₀ hist w) (hok : Allowed (fun _ => CountsOnce env) hist) :
    w.store.cache.count.toNat = db.users.length + createdCount hist := by
  suffices h : Counted w.store (db.users.length + createdCount hist) from h.count
  induction hr with
  | nil =>
    rw [hw₀]
    refine ⟨?_, rfl⟩
    have hcount : (loadFromDB ⟨UserCache.new, db⟩).cache.count = UInt32.ofInt (maxUserid db) := rfl
    have hn := toNat_ofInt (n := maxUserid db) (by omega) (by omega)
    rw [hcount, createdCount]
    omega
  | snoc _ hs ih =>
    have hstep := hs.counted (ih hok.2) hok.1
    rw [Nat.add_assoc] at hstep
    exact hstep

/-- `carol` is created: three accounts. -/
theorem count_carol : ∃ hist w, Run (Request.Step idleEnv) started hist w ∧
    createdCount hist = 1 ∧ w.store.cache.count.toNat = twoUsers.users.length + createdCount hist := by
  obtain ⟨w, h⟩ : ∃ w, (Request.create 0 createCarol [.oldAccountCreate2 0]).Step idleEnv started w :=
    ⟨_, .inr rfl, rfl⟩
  have hr := Run.nil.snoc h
  refine ⟨_, w, hr, rfl, count_run idleEnv (by decide) (by decide) rfl hr ⟨⟨.inr ?_, fun _ => ?_⟩, trivial⟩⟩
  · show (getMatchUsers idleEnv.eng twoUsers (whereExpr (.name createCarol.username))).length ≠ 1
    decide
  · show (loadFromDB ⟨UserCache.new, twoUsers⟩).cache.nextUid ≠ 0
    decide

/-- One row with the id `5` counts as five accounts, and of two rows the first counts twice once it is loaded. -/
theorem wrong_count :
    (loadFromDB ⟨UserCache.new, ⟨[⟨5, str "alice", [], [], [], [], 0, []⟩], []⟩⟩).cache.count = 5 ∧
    ∃ w, (Request.lookup (.name (str "alice"))).Step idleEnv started w ∧ twoUsers.users.length = 2 ∧
      w.store.cache.count = 3 :=
  ⟨rfl, _, ⟨_, _, rfl, rfl⟩, rfl, rfl⟩

end Blitzd.Plugins.Accounts
