import Blitzd.Cache.FriendLoad

/-! # Ids without a row

The miss path of `LoadUser` builds a placeholder from the name it was called with, and a lookup by id is called
with none: a string made from the null pointer is the end of it. In a coherent cache every id found belongs to an
account, so an id without a row is never the clean miss it should be (`missing_id_iff`).

Such ids are looked up when a friend list is loaded. The load of a user returns exactly if everybody it comes
across, the friends of friends included, is cached or has a row, and then the list it builds is the stored one
(`keepsExisting_iff`): one friend whose account is gone, and none of those who list them can be loaded. -/

namespace Blitzd.Cache

open Blitzd.Lib Blitzd.Lib.Bytes Blitzd.Utils.CString Blitzd.Storage.Sqlite UserLookup

variable {env : Env} {s s' : Store} {i : UInt32} {key : Key} {r : UserRow}

/-- No row of the table has the id. -/
def NoRow (db : Database) (i : UInt32) : Prop := ∀ r ∈ db.users, r.userid ≠ i.toNat

/-- `userCache[id]` answers with null and changes nothing. -/
def CleanMiss (env : Env) (s : Store) (i : UInt32) : Prop := ∃ k, lookup env k s (.id i) = some (none, s)

instance decidableCovered (s : Store) (i : UInt32) : Decidable (Covered s i) :=
  inferInstanceAs (Decidable (_ ∨ _))

/-- Loading the user of a row succeeds, and the account lists the stored friends that exist, in their order. -/
def KeepsExisting (env : Env) (s : Store) (key : Key) (r : UserRow) : Prop :=
  ∃ k p s', lookup env k s key = some (some p, s') ∧
    (friends s'.cache.heap p).map (fun f => (s'.cache.get f.user).id) =
      (storedFriends s.db (uid r)).filter fun j => decide (Covered s j)

/-! ### The id itself -/

/-- A load by id returns only if it finds the row. -/
theorem loadUser_noRow (hi : NoRow s.db i) (k : ℕ) : loadUser env k s (.id i) = none := by
  rcases h : loadUser env k s (.id i) with _ | ⟨a, s'⟩
  · rfl
  · rcases loadUser_cases h with ⟨j, r, -, hrow, -, -⟩ | ⟨n, hkey, -⟩
    · have hr : r ∈ s.db.users.filter (Key.id i).names := by
        rw [← exact_id env.eng, hrow]
        exact List.mem_singleton_self r
      obtain ⟨hr, e⟩ := List.mem_filter.mp hr
      exact absurd (of_decide_eq_true e) (hi r hr)
    · cases hkey

theorem cleanMiss_iff (hi : NoRow s.db i) :
    CleanMiss env s i ↔ ∃ p, s.cache.findId i = some p ∧ (s.cache.get p).isExist = false := by
  rcases hp : s.cache.findKey (.id i) with _ | p
  · -- not cached, so it is loaded
    refine iff_of_false ?_ ?_
    · rintro ⟨k, h⟩
      rw [lookup_uncached k _ hp, loadUser_noRow hi] at h
      cases h
    · rintro ⟨p, hp', -⟩
      exact absurd (hp.symm.trans hp') (by simp)
  · have hlook := fun k => lookup_cached env k (.id i) hp
    constructor
    · rintro ⟨k, h⟩
      rw [hlook] at h
      refine ⟨p, hp, ?_⟩
      rcases he : (s.cache.get p).isExist with _ | _
      · rfl
      · rw [he] at h
        cases h
    · rintro ⟨q, hq, he⟩
      obtain rfl : p = q := Option.some.inj (hp.symm.trans hq)
      refine ⟨0, ?_⟩
      rw [hlook, he]
      rfl

theorem not_cleanMiss (hc : Coherent s) (hi : NoRow s.db i) : ¬ CleanMiss env s i := by
  rw [cleanMiss_iff hi]
  rintro ⟨p, hp, he⟩
  rw [hc.isExist hp] at he
  cases he

/-! ### Friends without a row -/

theorem covered_iff_of_noRow (hok : DbOk s.db) (hi : NoRow s.db i) :
    Covered s i ↔ s.cache.findId i ≠ none := by
  refine or_iff_left ?_
  rintro ⟨r, hr, rfl⟩
  exact hi r hr (hok.toNat_uid hr).symm

/-- A load returns exactly if everybody it comes across is cached or has a row. -/
theorem returns_iff (hok : DbOk s.db) (hc : Coherent s) (hr : r ∈ s.db.users) (e : key.names r = true)
    (hx : Exact env.eng s.db key) (hnone : s.cache.findKey key = none) :
    (∃ k a s', lookup env k s key = some (a, s')) ↔
      FitsArray s key ∧ ∀ j, Needs s (storedFriends s.db (uid r)) j → Covered s j := by
  constructor
  · rintro ⟨k, a, s', h⟩
    refine ⟨fitsArray_of_returns h, ?_⟩
    rw [lookup_uncached k key hnone] at h
    exact covered_of_returns hok hc hx hnone h hr e
  · rintro ⟨hfit, hneeds⟩
    have hown : ∀ r' ∈ s.db.users, key.names r' = true →
        ∀ j ∈ storedFriends s.db (uid r'), Needs s (storedFriends s.db (uid r)) j := by
      intro r' hr' e' j hj
      obtain ⟨-, hno⟩ | ⟨r₀, -, -, hone⟩ := rows_cases hok key
      · rw [hno r hr] at e
        cases e
      · have hmem : ∀ {x}, x ∈ s.db.users → key.names x = true → x = r₀ := fun hx e => by
          rw [← List.mem_singleton, ← hone]
          exact List.mem_filter.mpr ⟨hx, e⟩
        rw [hmem hr' e', ← hmem hr e] at hj
        exact .start hj
    obtain ⟨a, s', h⟩ := loadUser_total env ((uncached s).length + 1) s key hok hc hx hnone
      (provides_needs hneeds) (hfit.resolve_left (not_not_intro hnone)) hown (.inr ⟨r, hr, e⟩)
      (Nat.lt_succ_self _)
    exact ⟨_, a, s', by rw [lookup_uncached _ key hnone, h]⟩

/-- What the account of the row lists after a load that returned. -/
theorem listed_of_returns (hok : DbOk s.db) (hadd : Addable s.db) (hc : Coherent s) (hr : r ∈ s.db.users)
    (e : key.names r = true) (hx : Exact env.eng s.db key) (hnone : s.cache.findKey key = none) {k : ℕ}
    {a : Option Ptr} (h : lookup env k s key = some (a, s')) : ∃ p, a = some p ∧
      (friends s'.cache.heap p).map (fun f => (s'.cache.get f.user).id) = storedFriends s.db (uid r) := by
  obtain ⟨p, hp, ha⟩ := (lookup_answers hok hc hx h).found
  have hf := lookup_fills hok hadd hc hx h
  have hid : s'.cache.findId (uid r) = some p :=
    hf.coherent.findId_of_findKey (hf.loaded.db ▸ hok) (hf.loaded.db ▸ hr) e hp
  refine ⟨p, by rw [ha, if_pos (hf.coherent.isExist hid)], ?_⟩
  have hcomplete := map_id_of_named hf.coherent (hf.new (not_cached hok hc hr hnone e).1 hid)
  rw [users, List.map_map, hf.loaded.db] at hcomplete
  exact hcomplete

theorem keepsExisting_iff (hok : DbOk s.db) (hadd : Addable s.db) (hc : Coherent s) (hr : r ∈ s.db.users)
    (e : key.names r = true) (hx : Exact env.eng s.db key) (hnone : s.cache.findKey key = none) :
    KeepsExisting env s key r ↔
      FitsArray s key ∧ ∀ j, Needs s (storedFriends s.db (uid r)) j → Covered s j := by
  rw [← returns_iff hok hc hr e hx hnone]
  constructor
  · rintro ⟨k, p, s', h, -⟩
    exact ⟨k, some p, s', h⟩
  · rintro ⟨k, a, s', h⟩
    obtain ⟨p, rfl, hlist⟩ := listed_of_returns hok hadd hc hr e hx hnone h
    have hall := ((returns_iff hok hc hr e hx hnone).mp ⟨k, _, s', h⟩).2
    refine ⟨k, p, s', h, hlist.trans (List.filter_eq_self.mpr fun j hj => ?_).symm⟩
    exact decide_eq_true (hall j (.start hj))

/-- **An id without a row is no clean miss** unless it is cached as no account, which it never is, and a user whose
stored list has it is loaded only if everybody on the way is cached or has a row; for that id, cached. -/
theorem missing_id_iff (env : Env) (s : Store) (i : UInt32) (hi : NoRow s.db i) :
    (CleanMiss env s i ↔ ∃ p, s.cache.findId i = some p ∧ (s.cache.get p).isExist = false) ∧
    (Coherent s → ¬ CleanMiss env s i) ∧
    ∀ (key : Key) (r : UserRow), DbOk s.db → Addable s.db → Coherent s → r ∈ s.db.users →
      key.names r = true → Exact env.eng s.db key → s.cache.findKey key = none →
      i ∈ storedFriends s.db (uid r) →
      (KeepsExisting env s key r ↔ FitsArray s key ∧ s.cache.findId i ≠ none ∧
        ∀ j, Needs s (storedFriends s.db (uid r)) j → Covered s j) := by
  refine ⟨cleanMiss_iff hi, fun hc => not_cleanMiss hc hi, ?_⟩
  intro key r hok hadd hc hr e hx hnone hmem
  rw [keepsExisting_iff hok hadd hc hr e hx hnone]
  constructor
  · rintro ⟨hfit, hall⟩
    exact ⟨hfit, (covered_iff_of_noRow hok hi).mp (hall i (.start hmem)), hall⟩
  · rintro ⟨hfit, -, hall⟩
    exact ⟨hfit, hall⟩

/-- `alice` lists the id 9, which nobody has. -/
def goneDb : Database := { twoUsers with friends := [⟨1, [2, 0, 0, 0, 9, 0, 0, 0]⟩] }

theorem dbOk_goneDb : DbOk goneDb :=
  ⟨⟨dbOk_twoUsers.unique.userid, dbOk_twoUsers.unique.username⟩, dbOk_twoUsers.range, dbOk_twoUsers.nulFree⟩

theorem noRow_goneDb : NoRow goneDb 9 := by
  intro r hr
  rcases List.mem_cons.mp hr with rfl | hr
  · decide
  · rw [List.mem_singleton.mp hr]
    decide

theorem storedFriends_goneDb {r : UserRow} (hr : r ∈ goneDb.users) :
    uid r = 1 ∧ storedFriends goneDb (uid r) = [2, 9] ∨ storedFriends goneDb (uid r) = [] := by
  rcases List.mem_cons.mp hr with rfl | hr
  · exact .inl ⟨rfl, by decide⟩
  · rw [List.mem_singleton.mp hr]
    exact .inr (by decide)

theorem addable_goneDb : Addable goneDb := by
  refine ⟨fun r hr => ?_, fun r hr => ?_, fun r hr => ?_⟩
  · rcases storedFriends_goneDb hr with ⟨-, h⟩ | h
    · rw [h]; decide
    · rw [h]; decide
  · rcases storedFriends_goneDb hr with ⟨-, h⟩ | h
    · rw [h]; decide
    · rw [h]; decide
  · rcases storedFriends_goneDb hr with ⟨hu, h⟩ | h
    · rw [h, hu]; decide
    · rw [h]; exact List.not_mem_nil

/-- From an empty cache the id is no clean miss, and `alice` is not loaded with the friend that is left. -/
theorem missing_id_goneDb : NoRow goneDb 9 ∧ ¬ CleanMiss idleEnv ⟨.new, goneDb⟩ 9 ∧
    ¬ KeepsExisting idleEnv ⟨.new, goneDb⟩ (.id 1) ⟨1, str "alice", [], [], [], [], 0, []⟩ := by
  have hc : Coherent ⟨.new, goneDb⟩ := coherent_new rfl rfl _
  obtain ⟨-, hmiss, hkeeps⟩ := missing_id_iff idleEnv ⟨.new, goneDb⟩ 9 noRow_goneDb
  refine ⟨noRow_goneDb, hmiss hc, ?_⟩
  rw [hkeeps (.id 1) _ dbOk_goneDb addable_goneDb hc List.mem_cons_self rfl (exact_id _ _ 1) rfl (by decide)]
  rintro ⟨-, hcached, -⟩
  exact hcached rfl

/-- **The friend who is gone takes the list's owner along**: neither the id nor `alice` can be looked up, however
deep calls may nest, though `bob`, whom they list first, is there. -/
theorem gone_friend_unloadable : NoRow goneDb 9 ∧ (9 : UInt32) ∈ storedFriends goneDb 1 ∧
    ∀ env k, lookup env k ⟨.new, goneDb⟩ (.id 9) = none ∧ lookup env k ⟨.new, goneDb⟩ (.id 1) = none := by
  refine ⟨noRow_goneDb, by decide, fun env k => ⟨?_, ?_⟩⟩
  · rw [lookup_uncached k _ rfl, loadUser_noRow noRow_goneDb]
  · rcases h : lookup env k ⟨.new, goneDb⟩ (.id 1) with _ | ⟨a, s'⟩
    · rfl
    · rw [lookup_uncached k _ rfl] at h
      have hcov := covered_of_returns dbOk_goneDb (coherent_new rfl rfl _) (exact_id _ _ 1) rfl h
        (r := ⟨1, str "alice", [], [], [], [], 0, []⟩) List.mem_cons_self rfl 9 (.start (by decide))
      exact absurd hcov (by decide)

end Blitzd.Cache
