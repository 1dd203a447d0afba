import Blitzd.Cache.UserLoad

/-! # Looking a user up by name

`LoadUser` prints the name between double quotes into the condition and deletes what that condition
selects when it selects more than one row. Which rows it selects is SQLite's reading of the text: a
quoted name of a column is the column, so the name `username` selects every row.

`lookup_harmless_iff` says when a lookup leaves the users in place and answers null or an account of
that name: exactly when the name is cached, or the condition selects nothing, or selects one row that
has the name and whose friends can be loaded. Names without a double quote that are no column name
select their own row only (`exact_of_plain`). -/

namespace Blitzd.Cache.UserLookup

open Blitzd.Lib Blitzd.Lib.Bytes Blitzd.Utils.CString Blitzd.Storage.Sqlite Blitzd.Cache

variable {env : Env} {s : Store} {n : Text}

/-- The lookup returns, every user is still stored, and the answer is null or has the name. -/
def Harmless (env : Env) (s : Store) (n : Text) : Prop :=
  ∃ k a s', lookup env k s (.name n) = some (a, s') ∧ (∀ r ∈ s.db.users, r ∈ s'.db.users) ∧
    ∀ p ∈ a, strcmpiEq (s'.cache.get p).username n = true

/-- The condition printed for the name selects nothing, or one row with that name all of whose friends
can be loaded. -/
def SelectsOwn (env : Env) (s : Store) (n : Text) : Prop :=
  getMatchUsers env.eng s.db (whereExpr (.name n)) = [] ∨
  ∃ r, getMatchUsers env.eng s.db (whereExpr (.name n)) = [r] ∧ strcmpiEq r.username n = true ∧
    ∀ i, Needs s (storedFriends s.db (uid r)) i → Covered s i

theorem whereExpr_ne_nil (key : Key) : whereExpr key ≠ [] := by
  rcases key with n | i
  · intro e
    have := congrArg List.length e
    simp [whereExpr, str] at this
  · intro e
    have := congrArg List.length e
    simp [whereExpr, str] at this

/-- What is selected is stored. -/
theorem mem_of_getMatch {eng : Engine} {db : Database} {w : Text} {r : UserRow}
    (h : r ∈ getMatchUsers eng db w) : r ∈ db.users := by
  unfold getMatchUsers at h
  split_ifs at h
  · exact h
  · rcases hw : whereUsers eng db.users w with _ | p
    · rw [hw] at h; cases h
    · rw [hw] at h
      exact (List.mem_filter.mp h).1

/-- `RemoveMatch` removes what `GetMatch` selects. -/
theorem not_mem_removeMatch {eng : Engine} {db : Database} {w : Text} (hw : w ≠ []) {r : UserRow}
    (h : r ∈ getMatchUsers eng db w) : r ∉ (removeMatchUsers eng db w).users := by
  unfold getMatchUsers at h
  unfold removeMatchUsers
  rw [if_neg hw] at h ⊢
  rcases hp : whereUsers eng db.users w with _ | p
  · rw [hp] at h; cases h
  · rw [hp] at h
    intro hm
    have h1 := (List.mem_filter.mp h).2
    have h2 := (List.mem_filter.mp hm).2
    simp [h1] at h2

/-- A single selected row with the name is the row that was meant. -/
theorem exact_of_single (hok : DbOk s.db) (hn : NulFree n) {r : UserRow}
    (hrow : getMatchUsers env.eng s.db (whereExpr (.name n)) = [r])
    (hcmp : strcmpiEq r.username n = true) :
    Exact env.eng s.db (.name n) ∧ r ∈ s.db.users ∧ (Key.name n).names r = true := by
  have hr : r ∈ s.db.users := mem_of_getMatch (by rw [hrow]; simp)
  have e : (Key.name n).names r = true := by
    rw [hok.strcmpiEq_row hr hn] at hcmp
    show nocase r.username (cstr n) = true
    rw [cstr_of_nulFree hn, hcmp]
  refine ⟨?_, hr, e⟩
  rcases rows_cases hok (.name n) with ⟨-, hno⟩ | ⟨r', hr', e', hone⟩
  · rw [hno r hr] at e; cases e
  · have hmem : r ∈ s.db.users.filter (Key.name n).names := List.mem_filter.mpr ⟨hr, e⟩
    rw [hone, List.mem_singleton] at hmem
    rw [Exact, hrow, hone, hmem]

/-! ### When it is harmless -/

theorem harmless_of_cached (hc : Coherent s) {p : Ptr} (hp : s.cache.findName n = some p) :
    Harmless env s n := by
  refine ⟨0, _, s, lookup_cached env 0 (.name n) hp, fun r hr => hr, fun q hq => ?_⟩
  split_ifs at hq
  · cases hq
    exact (hc.name hp).2.1
  · cases hq

theorem harmless_of_none (hlen : (whereExpr (.name n)).length < 128) (hnone : s.cache.findName n = none)
    (hnil : getMatchUsers env.eng s.db (whereExpr (.name n)) = []) : Harmless env s n := by
  refine ⟨1, none, ⟨s.cache.placeholder env (cstr n), s.db⟩, ?_, fun r hr => hr, by simp⟩
  rw [lookup_uncached 1 (.name n) hnone, loadUser, if_neg (by omega), hnil]
  rfl

theorem harmless_of_single (hok : DbOk s.db) (hc : Coherent s) (hn : NulFree n)
    (hlen : (whereExpr (.name n)).length < 128) (hnone : s.cache.findName n = none) {r : UserRow}
    (hrow : getMatchUsers env.eng s.db (whereExpr (.name n)) = [r])
    (hcmp : strcmpiEq r.username n = true)
    (hneeds : ∀ i, Needs s (storedFriends s.db (uid r)) i → Covered s i) : Harmless env s n := by
  obtain ⟨hx, hr, e⟩ := exact_of_single hok hn hrow hcmp
  have hW : ∀ r' ∈ s.db.users, (Key.name n).names r' = true →
      ∀ j ∈ storedFriends s.db (uid r'), Needs s (storedFriends s.db (uid r)) j := by
    intro r' hr' e' j hj
    have hmem : r' ∈ s.db.users.filter (Key.name n).names := List.mem_filter.mpr ⟨hr', e'⟩
    rw [← hx, hrow, List.mem_singleton] at hmem
    exact .start (hmem ▸ hj)
  obtain ⟨a, s', h⟩ := loadUser_total env ((uncached s).length + 1) s (.name n) hok hc hx hnone
    (provides_needs hneeds) hlen hW (Or.inl ⟨n, rfl⟩) (Nat.lt_succ_self _)
  have ha := loadUser_answers _ s (.name n) a s' hok hc hx hnone h
  refine ⟨(uncached s).length + 1, a, s', ?_, fun r hr => ha.loaded.db ▸ hr, fun p hp => ?_⟩
  · rw [lookup_uncached _ (.name n) hnone, h]
  · obtain ⟨q, hq, haq⟩ := ha.found
    rw [haq] at hp
    split_ifs at hp
    · cases hp
      exact (ha.coherent.name hq).2.1
    · cases hp

theorem harmless_of_selectsOwn (hok : DbOk s.db) (hc : Coherent s) (hn : NulFree n)
    (hlen : (whereExpr (.name n)).length < 128) (hsel : SelectsOwn env s n) : Harmless env s n := by
  rcases hp : s.cache.findName n with _ | p
  · rcases hsel with hnil | ⟨r, hrow, hcmp, hneeds⟩
    · exact harmless_of_none hlen hp hnil
    · exact harmless_of_single hok hc hn hlen hp hrow hcmp hneeds
  · exact harmless_of_cached hc hp

/-- A load that returned went through every id its row needs. -/
theorem covered_of_returns (hok : DbOk s.db) (hc : Coherent s) {k : ℕ} {key : Key} {a : Option Ptr} {s' : Store}
    (hx : Exact env.eng s.db key) (hnone : s.cache.findKey key = none)
    (h : loadUser env k s key = some (a, s')) {r : UserRow} (hr : r ∈ s.db.users) (e : key.names r = true) :
    ∀ i, Needs s (storedFriends s.db (uid r)) i → Covered s i := by
  have ha := loadUser_answers k s key a s' hok hc hx hnone h
  have hi := (not_cached hok hc hr hnone e).1
  have hself : s'.cache.findId (uid r) ≠ none := by
    obtain ⟨p, hp, -⟩ := ha.found
    have hdb := ha.loaded.db
    rw [ha.coherent.findId_of_findKey (hdb ▸ hok) (hdb ▸ hr) e hp]
    simp
  have hfound : ∀ i, Needs s (storedFriends s.db (uid r)) i → s'.cache.findId i ≠ none := by
    intro i hneed
    induction hneed with
    | start hj => exact ha.closed _ hi hself _ hj
    | next _ hnone hj ih => exact ha.closed _ hnone ih _ hj
  intro i hneed
  obtain ⟨p, hp⟩ := Option.ne_none_iff_exists'.mp (hfound i hneed)
  rcases ha.loaded.newId hp with hold | ⟨-, r', hr', hu, -⟩
  · exact Or.inl (by simp [hold])
  · exact Or.inr ⟨r', hr', hu⟩

/-- The name of the account that a single selected row gives. -/
theorem username_of_single (hok : DbOk s.db) (hc : Coherent s) {k : ℕ} {s' : Store} {r : UserRow}
    (hr : r ∈ s.db.users) (hl : loadFriends (loadUser env k) (addRow env s r).1
      (storedFriends s.db (uid r)) (addRow env s r).2 = some s') :
    (s'.cache.get (addRow env s r).1).username = r.username := by
  have hget : ((addRow env s r).2.cache.get (addRow env s r).1).username = cstr r.username := by
    rw [get_addRow, fillRow_eq]
    rfl
  rw [(id_username_of_core (core_addRow hc.bounded hl)).2, hget, cstr_of_nulFree (hok.nulFree r hr)]

/-- **When looking a name up is harmless**: the name is cached, or its condition selects nothing or only
the row of that name, with every friend it needs cached or stored. -/
theorem lookup_harmless_iff (env : Env) (s : Store) (n : Text) (hok : DbOk s.db) (hc : Coherent s)
    (hn : NulFree n) (hlen : (whereExpr (.name n)).length < 128) :
    Harmless env s n ↔ s.cache.findName n ≠ none ∨ SelectsOwn env s n := by
  constructor
  · rintro ⟨k, a, s', h, hrows, hname⟩
    by_cases hnone : s.cache.findName n = none
    · refine Or.inr ?_
      have hload : loadUser env k s (.name n) = some (a, s') := by
        rwa [lookup_uncached k (.name n) hnone] at h
      rcases loadUser_cases hload with ⟨j, r, rfl, hrow, rfl, hl⟩ | ⟨m, -, hne, -, rfl⟩
      · have hr : r ∈ s.db.users := mem_of_getMatch (by rw [hrow]; simp)
        have hcmp : strcmpiEq r.username n = true := by
          rw [← username_of_single hok hc hr hl]
          exact hname _ rfl
        obtain ⟨hx, -, e⟩ := exact_of_single hok hn hrow hcmp
        exact Or.inr ⟨r, hrow, hcmp, covered_of_returns hok hc hx hnone hload hr e⟩
      · -- several rows would have been removed
        rcases hsel : getMatchUsers env.eng s.db (whereExpr (.name n)) with _ | ⟨r, l⟩
        · exact Or.inl hsel
        · have hr : r ∈ getMatchUsers env.eng s.db (whereExpr (.name n)) := by rw [hsel]; simp
          have hlen1 : (getMatchUsers env.eng s.db (whereExpr (.name n))).length > 1 := by
            rw [hsel] at hne ⊢
            rw [List.length_cons] at hne ⊢
            omega
          have hgone := not_mem_removeMatch (whereExpr_ne_nil _) hr
          have hstill := hrows r (mem_of_getMatch hr)
          rw [if_pos hlen1] at hstill
          exact absurd hstill hgone
    · exact Or.inl hnone
  · rintro (hcached | hsel)
    · obtain ⟨p, hp⟩ := Option.ne_none_iff_exists'.mp hcached
      exact harmless_of_cached hc hp
    · exact harmless_of_selectsOwn hok hc hn hlen hsel

/-- A table of two users. -/
def twoUsers : Database where
  users := [⟨1, str "alice", [], [], [], [], 0, []⟩, ⟨2, str "bob", [], [], [], [], 0, []⟩]
  friends := []

theorem dbOk_twoUsers : DbOk twoUsers := by
  refine ⟨⟨by decide, by decide⟩, ?_, ?_⟩
  · intro r hr
    simp only [twoUsers, List.mem_cons, List.not_mem_nil, or_false] at hr
    rcases hr with rfl | rfl
    · decide
    · decide
  · intro r hr
    simp only [twoUsers, List.mem_cons, List.not_mem_nil, or_false] at hr
    rcases hr with rfl | rfl
    · decide
    · decide

/-- SQL that is not understood selects nothing and does nothing. -/
def idleEnv : Env := ⟨⟨fun _ _ => false, fun _ _ => none, fun _ db => db⟩, fun _ => Buf.zero 20, 4⟩

/-- The name `Alice` is looked up in `twoUsers` without harm. -/
theorem lookup_harmless_alice : Harmless idleEnv ⟨.new, twoUsers⟩ (str "Alice") := by
  refine (lookup_harmless_iff idleEnv ⟨.new, twoUsers⟩ (str "Alice") dbOk_twoUsers
    (coherent_new rfl rfl _) (by decide) (by decide)).mpr (Or.inr (Or.inr ?_))
  refine ⟨⟨1, str "alice", [], [], [], [], 0, []⟩, rfl, rfl, fun i hneed => ?_⟩
  induction hneed with
  | start hj => cases hj
  | next _ _ hj => cases hj

/-- **Looking up the name `username` deletes every user**, with any SQL engine. -/
theorem lookup_username_deletes : DbOk twoUsers ∧ Coherent ⟨.new, twoUsers⟩ ∧
    NulFree (str "username") ∧ (whereExpr (.name (str "username"))).length < 128 ∧
    ∀ env, ¬ Harmless env ⟨.new, twoUsers⟩ (str "username") := by
  refine ⟨dbOk_twoUsers, coherent_new rfl rfl _, by decide, by decide, ?_⟩
  rintro env ⟨k, a, s', h, hrows, -⟩
  have hload : loadUser env k ⟨.new, twoUsers⟩ (.name (str "username")) = some (a, s') := by
    rwa [lookup_uncached k _ rfl] at h
  have hall : getMatchUsers env.eng twoUsers (whereExpr (.name (str "username"))) = twoUsers.users :=
    rfl
  rcases loadUser_cases hload with ⟨j, r, -, hrow, -, -⟩ | ⟨m, -, -, -, rfl⟩
  · have := congrArg List.length (hall.symm.trans hrow)
    simp [twoUsers] at this
  · have hgone : (removeMatchUsers env.eng twoUsers (whereExpr (.name (str "username")))).users = [] :=
      rfl
    have hstill := hrows ⟨1, str "alice", [], [], [], [], 0, []⟩ (List.mem_cons_self ..)
    dsimp only at hstill
    rw [hall, if_pos (by decide), hgone] at hstill
    cases hstill

/-! ### Names that are read as themselves -/

/-- No double quote, and not the name of a column. -/
def Plain (n : Text) : Prop := quote ∉ n ∧ columnOf n = none

instance (n : Text) : Decidable (Plain n) := inferInstanceAs (Decidable (_ ∧ _))

/-- The condition of a plain name selects the rows with that name. -/
theorem exact_of_plain (eng : Engine) (db : Database) {n : Text} (hn : NulFree n) (hp : Plain n) :
    Exact eng db (.name n) := by
  have hcs : cstr n = n := cstr_of_nulFree hn
  have hscan : scanQuoted (n ++ [quote]) = some (n, []) := scanQuoted_plain [] hp.1 (by simp)
  unfold Exact getMatchUsers
  rw [if_neg (whereExpr_ne_nil _), whereExpr, hcs]
  unfold whereUsers
  rw [after_append]
  dsimp only
  rw [hscan]
  dsimp only
  refine List.filter_congr fun r _ => ?_
  unfold usernameEq
  rw [hp.2, Key.names, hcs]

/-- **A plain name is looked up without harm** when stored friends have rows. -/
theorem harmless_of_plain (hok : DbOk s.db) (hc : Coherent s) (hn : NulFree n) (hp : Plain n)
    (hlen : (whereExpr (.name n)).length < 128)
    (hfr : ∀ r ∈ s.db.users, ∀ i ∈ storedFriends s.db (uid r), Covered s i) : Harmless env s n := by
  refine harmless_of_selectsOwn hok hc hn hlen ?_
  have hx := exact_of_plain env.eng s.db hn hp
  rcases rows_cases hok (.name n) with ⟨hnil, -⟩ | ⟨r, hr, e, hone⟩
  · exact Or.inl (hx.trans hnil)
  · refine Or.inr ⟨r, hx.trans hone, ?_, fun i hneed => ?_⟩
    · rw [hok.strcmpiEq_row hr hn]
      simpa [Key.names, cstr_of_nulFree hn] using e
    · induction hneed with
      | start hj => exact hfr r hr _ hj
      | next _ hnone hj ih =>
        rcases ih with hcached | ⟨r', hr', rfl⟩
        · exact absurd hnone hcached
        · exact hfr r' hr' _ hj

end Blitzd.Cache.UserLookup
