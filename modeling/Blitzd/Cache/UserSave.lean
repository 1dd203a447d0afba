import Blitzd.Cache.UserLoad

/-! # Accounts across a restart

`SaveToDB` pastes the name and the mail of an account between double quotes. Without quotes in them
each account becomes the row that is read back as the same account (`doExec_users`,
`fields_of_savedRow`), and loading by id after a restart returns it (`survives_of_plain`). A name or
mail with a quote is never read back (`scanQuoted_self`): the statement is cut short, means something
else, or stores another text. `survives_iff_plain` has both directions, for accounts as clients can
build them and over all the SQL that is not modelled. -/

namespace Blitzd.Cache.UserSave

open Blitzd.Lib Blitzd.Lib.Bytes Blitzd.Lib.KeyMap Blitzd.Lib.Numerals Blitzd.Utils.CString
open Blitzd.Storage.Sqlite Blitzd.Cache

/-! ### The loop writes the accounts one by one -/

/-- An account without its dirty marks. -/
def settled (u : UserCacheItem) : UserCacheItem := { u with dirty := false, friendDirty := false }

/-- The accounts still to be saved are as they were, the others up to the marks. -/
structure Pending (c : UserCache) (todo : List (UInt32 × Ptr)) (s : Store) : Prop where
  same : ∀ p, settled (s.cache.get p) = settled (c.get p)
  todo : ∀ e ∈ todo, s.cache.get e.2 = c.get e.2

/-- What saving one dirty account does to the database. -/
def saveDb (eng : Engine) (c : UserCache) (p : Ptr) (db : Database) : Database :=
  let db1 := doExec eng db (setText (str "users") userCols (userData (c.get p)))
  if (c.get p).friendDirty then
    doExec eng db1 (setText (str "friends") friendCols (friendData c (c.get p)))
  else db1

theorem settled_modify {c : UserCache} {f : UserCacheItem → UserCacheItem}
    (hf : ∀ u, settled (f u) = settled u) (p q : Ptr) :
    settled ((c.modify p f).get q) = settled (c.get q) := c.get_modify_keeps settled (hf _) q

theorem get_modify_ne {c : UserCache} (f : UserCacheItem → UserCacheItem) {p q : Ptr} (h : q ≠ p) :
    (c.modify p f).get q = c.get q := Heap.modify_ne _ f h

/-- The stored friend list depends on the ids of the friends only. -/
theorem friendData_congr {c c' : UserCache} (h : ∀ p, settled (c.get p) = settled (c'.get p))
    (u : UserCacheItem) : friendData c u = friendData c' u := by
  have hid : ∀ p, (c.get p).id = (c'.get p).id := fun p =>
    (congrArg UserCacheItem.id (h p) : (settled (c.get p)).id = (settled (c'.get p)).id)
  unfold friendData
  simp only [hid]

theorem saveItem_spec (eng : Engine) {c : UserCache} {e : UInt32 × Ptr} {l : List (UInt32 × Ptr)}
    {s : Store} (h : Pending c (e :: l) s) (hd : (c.get e.2).dirty = true)
    (hne : ∀ e' ∈ l, e'.2 ≠ e.2) :
    Pending c l (saveItem eng s e.2) ∧ (saveItem eng s e.2).db = saveDb eng c e.2 s.db := by
  have hu : s.cache.get e.2 = c.get e.2 := h.todo e (by simp)
  have h1 : ∀ p, settled ((s.cache.modify e.2 (·.setDirty false)).get p) = settled (c.get p) := fun p =>
    (settled_modify (f := (·.setDirty false)) (fun _ => rfl) e.2 p).trans (h.same p)
  have ht : ∀ e' ∈ l, (s.cache.modify e.2 (·.setDirty false)).get e'.2 = c.get e'.2 := fun e' he =>
    (get_modify_ne _ (hne e' he)).trans (h.todo e' (by simp [he]))
  unfold saveItem saveDb
  dsimp only
  rw [hu, if_pos hd]
  by_cases hf : (c.get e.2).friendDirty
  · rw [if_pos hf, if_pos hf]
    refine ⟨⟨fun p => (settled_modify (f := (·.setFriendDirty false)) (fun _ => rfl) e.2 p).trans
      (h1 p), fun e' he =>
      (get_modify_ne _ (hne e' he)).trans (ht e' he)⟩, ?_⟩
    dsimp only
    rw [friendData_congr h1]
  · rw [if_neg hf, if_neg hf]
    exact ⟨⟨h1, ht⟩, rfl⟩

theorem saveLoop_db (eng : Engine) {c : UserCache} : ∀ (l : List (UInt32 × Ptr)) (s : Store),
    Pending c l s → (∀ e ∈ l, (c.get e.2).dirty = true) → (l.Pairwise fun e e' => e'.2 ≠ e.2) →
    (l.foldl (fun s e => saveItem eng s e.2) s).db = l.foldl (fun db e => saveDb eng c e.2 db) s.db
  | [], s, _, _, _ => rfl
  | e :: l, s, h, hd, hp => by
    obtain ⟨hne, hp⟩ := List.pairwise_cons.mp hp
    obtain ⟨h1, hdb⟩ := saveItem_spec eng h (hd e (by simp)) hne
    rw [List.foldl_cons, List.foldl_cons, ← hdb]
    exact saveLoop_db eng l _ h1 (fun e' he => hd e' (by simp [he])) hp

/-! ### One statement -/

/-- The row an account is meant to be saved as. -/
def savedRow (u : UserCacheItem) : UserRow :=
  ⟨u.id.toNat, u.username, u.salt.bytes, u.verifier.bytes, u.passwd.bytes, u.mail, u.flag.toNat,
    u.buildDataMap⟩

/-- The row its friend list is saved as. -/
def savedFriends (c : UserCache) (u : UserCacheItem) : FriendRow :=
  ⟨u.id.toNat, u.friendList.flatMap fun f => toLE 4 (c.get f.user).id.toNat⟩

theorem doExec_friends (eng : Engine) (db : Database) (c : UserCache) (u : UserCacheItem) :
    doExec eng db (setText (str "friends") friendCols (friendData c u)) =
      replaceFriends db (savedFriends c u) := by
  have hno : ∀ t, after (setHead (str "users") userCols) (setHead (str "friends") friendCols ++ t) =
      none := fun t => rfl
  have hread := readValues_valuesText [.binary (savedFriends c u).friendlist] (.int u.id.toNat) (by
    intro w hw
    simp only [List.mem_cons, List.not_mem_nil, or_false] at hw
    rcases hw with rfl | rfl
    · exact plain_int _
    · exact plain_binary _)
  unfold doExec setText
  rw [hno, after_append]
  dsimp only
  rw [show readValues 2 (valuesText (friendData c u)) = _ from hread]
  rfl

/-- Neither the name nor the mail holds a double quote. -/
def PlainItem (u : UserCacheItem) : Prop := quote ∉ u.username ∧ quote ∉ u.mail

instance (u : UserCacheItem) : Decidable (PlainItem u) := inferInstanceAs (Decidable (_ ∧ _))

/-- A plain account is stored as its row. -/
theorem doExec_users (eng : Engine) (db : Database) {u : UserCacheItem} (hp : PlainItem u)
    (hn : NulFree u.username) (hm : NulFree u.mail) :
    doExec eng db (setText (str "users") userCols (userData u)) = replaceUser db (savedRow u) := by
  have hplain : ∀ w ∈ userData u, w.Plain := by
    intro w hw
    simp only [userData, cstr_of_nulFree hn, cstr_of_nulFree hm, List.mem_cons, List.not_mem_nil,
      or_false] at hw
    rcases hw with rfl | rfl | rfl | rfl | rfl | rfl | rfl | rfl
    · exact plain_int _
    · exact ⟨hp.1, hn⟩
    · exact plain_binary _
    · exact plain_binary _
    · exact plain_binary _
    · exact ⟨hp.2, hm⟩
    · exact plain_int _
    · exact plain_binary _
  have hread : readValues 8 (valuesText (userData u)) = .ok (userData u) :=
    readValues_valuesText _ _ hplain
  unfold doExec setText
  rw [after_append]
  dsimp only
  rw [hread]
  have hrow : userRowOf (userData u) = some (savedRow u) := by
    unfold userData
    rw [cstr_of_nulFree hn, cstr_of_nulFree hm]
    rfl
  dsimp only
  rw [hrow]

/-! ### What clients can build -/

/-- The cached accounts as clients build them: each under its id with marks to be saved, names of at
most 15 bytes that differ ignoring case, names and mails C strings, friends among the accounts. -/
structure Built (c : UserCache) : Prop where
  ids : c.idMap.Pairwise fun e e' => e.1 ≠ e'.1
  item : ∀ e ∈ c.idMap, (c.get e.2).id = e.1 ∧ e.1 ≠ 0 ∧ (c.get e.2).dirty = true
  name : ∀ e ∈ c.idMap, NulFree (c.get e.2).username ∧ (c.get e.2).username.length ≤ 15
  mail : ∀ e ∈ c.idMap, NulFree (c.get e.2).mail
  names : c.idMap.Pairwise fun e e' => nocase (c.get e.2).username (c.get e'.2).username = false
  friends : ∀ e ∈ c.idMap, ∀ f ∈ (c.get e.2).friendList, ∃ e' ∈ c.idMap, e'.2 = f.user

theorem saveToDB_db (eng : Engine) {c : UserCache} (hb : Built c) (db : Database) :
    (saveToDB eng ⟨c, db⟩).db = c.idMap.foldl (fun db e => saveDb eng c e.2 db) db := by
  refine saveLoop_db eng c.idMap ⟨c, db⟩ ⟨fun _ => rfl, fun _ _ => rfl⟩
    (fun e he => (hb.item e he).2.2) ?_
  -- one account has one id
  refine hb.ids.imp_of_mem fun {e e'} he he' hne heq => hne ?_
  rw [← (hb.item e he).1, ← (hb.item e' he').1, heq]

/-- The database that saving left: a row for each account, friend lists of accounts only. -/
structure Saved (c : UserCache) (done : List (UInt32 × Ptr)) (db : Database) : Prop where
  users : db.users = done.map fun e => savedRow (c.get e.2)
  friends : ∀ f ∈ db.friends, ∃ e ∈ done, f = savedFriends c (c.get e.2)

theorem replaceUser_new {db : Database} {row : UserRow}
    (h : ∀ r ∈ db.users, r.userid ≠ row.userid ∧ nocase r.username row.username = false) :
    replaceUser db row = { db with users := db.users ++ [row] } := by
  unfold replaceUser
  rw [List.filter_eq_self.mpr fun r hr => decide_eq_true (h r hr)]

theorem saveDb_saved (eng : Engine) {c : UserCache} {done : List (UInt32 × Ptr)} {e : UInt32 × Ptr}
    {db : Database} (h : Saved c done db) (hp : PlainItem (c.get e.2))
    (hn : NulFree (c.get e.2).username) (hm : NulFree (c.get e.2).mail)
    (hnew : ∀ d ∈ done, (c.get d.2).id ≠ (c.get e.2).id ∧
      nocase (c.get d.2).username (c.get e.2).username = false) :
    Saved c (done ++ [e]) (saveDb eng c e.2 db) := by
  have hrows : ∀ r ∈ db.users, r.userid ≠ (savedRow (c.get e.2)).userid ∧
      nocase r.username (savedRow (c.get e.2)).username = false := by
    intro r hr
    rw [h.users] at hr
    obtain ⟨d, hd, rfl⟩ := List.mem_map.mp hr
    refine ⟨fun heq => (hnew d hd).1 (UInt32.toNat.inj ?_), (hnew d hd).2⟩
    simp only [savedRow] at heq
    omega
  have h1 : Saved c (done ++ [e]) (replaceUser db (savedRow (c.get e.2))) := by
    rw [replaceUser_new hrows]
    refine ⟨?_, fun f hf => ?_⟩
    · dsimp only
      rw [h.users, List.map_append]
      rfl
    · obtain ⟨d, hd, rfl⟩ := h.friends f hf
      exact ⟨d, List.mem_append_left _ hd, rfl⟩
  unfold saveDb
  rw [doExec_users eng db hp hn hm]
  dsimp only
  split_ifs
  · rw [doExec_friends]
    refine ⟨h1.users, fun f hf => ?_⟩
    rcases List.mem_append.mp hf with hf | hf
    · exact h1.friends f (List.mem_filter.mp hf).1
    · rw [List.mem_singleton] at hf
      exact ⟨e, by simp, hf⟩
  · exact h1

theorem saveLoop_saved (eng : Engine) {c : UserCache} (hb : Built c)
    (hp : ∀ e ∈ c.idMap, PlainItem (c.get e.2)) :
    ∀ (l done : List (UInt32 × Ptr)) (db : Database), c.idMap = done ++ l → Saved c done db →
      Saved c c.idMap (l.foldl (fun db e => saveDb eng c e.2 db) db)
  | [], done, db, hl, h => by rw [hl, List.append_nil]; exact h
  | e :: l, done, db, hl, h => by
    have hmem : ∀ d ∈ done, d ∈ c.idMap := fun d hd => by rw [hl]; simp [hd]
    have he : e ∈ c.idMap := by rw [hl]; simp
    have hids := hb.ids
    have hnames := hb.names
    rw [hl] at hids hnames
    refine saveLoop_saved eng hb hp l (done ++ [e]) _ (by rw [hl]; simp)
      (saveDb_saved eng h (hp e he) (hb.name e he).1 (hb.mail e he) fun d hd => ⟨?_, ?_⟩)
    · rw [(hb.item d (hmem d hd)).1, (hb.item e he).1]
      exact (List.pairwise_append.mp hids).2.2 d hd e (by simp)
    · exact (List.pairwise_append.mp hnames).2.2 d hd e (by simp)

theorem dbOk_of_saved {c : UserCache} (hb : Built c) {db : Database} (h : Saved c c.idMap db) :
    DbOk db := by
  refine ⟨⟨?_, ?_⟩, fun r hr => ?_, fun r hr => ?_⟩
  · rw [h.users, List.pairwise_map]
    refine hb.ids.imp_of_mem fun {e e'} he he' hne heq => hne ?_
    rw [← (hb.item e he).1, ← (hb.item e' he').1]
    simp only [savedRow] at heq
    exact UInt32.toNat.inj (by omega)
  · rw [h.users, List.pairwise_map]
    exact hb.names
  · rw [h.users] at hr
    obtain ⟨e, he, rfl⟩ := List.mem_map.mp hr
    obtain ⟨hid, h0, -⟩ := hb.item e he
    have hlt := (c.get e.2).id.toNat_lt
    have hpos : (c.get e.2).id.toNat ≠ 0 := fun h => h0 (by
      rw [← hid]; exact UInt32.toNat.inj h)
    show (0 : ℤ) < ((c.get e.2).id.toNat : ℤ) ∧ ((c.get e.2).id.toNat : ℤ) < 2 ^ 32
    omega
  · rw [h.users] at hr
    obtain ⟨e, he, rfl⟩ := List.mem_map.mp hr
    exact (hb.name e he).1

/-! ### Loading them again -/

theorem friendIds_toLE : ∀ l : List UInt32, friendIds (l.flatMap fun i => toLE 4 i.toNat) = l
  | [] => rfl
  | i :: l => by
    have hlt : i.toNat < 256 ^ 4 := i.toNat_lt
    have hone : ∀ t, friendIds (toLE 4 i.toNat ++ t) = UInt32.ofNat (ofLE (toLE 4 i.toNat)) :: friendIds t :=
      fun t => rfl
    rw [List.flatMap_cons, hone, ofLE_toLE_of_lt hlt, friendIds_toLE l, UInt32.ofNat_toNat]

/-- The stored friends of anyone are ids of accounts. -/
theorem storedFriends_saved {c : UserCache} (hb : Built c) {db : Database} (h : Saved c c.idMap db)
    {i j : UInt32} (hj : j ∈ storedFriends db i) : ∃ e ∈ c.idMap, e.1 = j := by
  unfold storedFriends at hj
  rcases hf : getMatchFriends db i.toNat with _ | ⟨f, l⟩
  · rw [hf] at hj; cases hj
  · rw [hf] at hj
    have hmem : f ∈ db.friends := (List.mem_filter.mp (show f ∈ getMatchFriends db i.toNat by
      rw [hf]; simp)).1
    obtain ⟨e, he, rfl⟩ := h.friends f hmem
    have hlist : friendIds (savedFriends c (c.get e.2)).friendlist =
        (c.get e.2).friendList.map fun f => (c.get f.user).id := by
      rw [← friendIds_toLE ((c.get e.2).friendList.map fun f => (c.get f.user).id), List.flatMap_map]
      rfl
    dsimp only at hj
    rw [hlist] at hj
    obtain ⟨f, hf, rfl⟩ := List.mem_map.mp hj
    obtain ⟨e', he', hu⟩ := hb.friends e he f hf
    exact ⟨e', he', by rw [← hu, (hb.item e' he').1]⟩

/-- The fields a client can tell an account by. -/
structure SameAccount (u v : UserCacheItem) : Prop where
  username : u.username = v.username
  salt : u.salt = v.salt
  verifier : u.verifier = v.verifier
  passwd : u.passwd = v.passwd
  mail : u.mail = v.mail
  flag : u.flag = v.flag

theorem blob?_bytes {n : ℕ} (b : Buf n) : blob? n b.bytes = some b := by
  unfold blob?
  rw [dif_pos (by rw [b.len])]
  congr 1
  ext1
  exact List.take_of_length_le (by rw [b.len])

theorem fields_of_savedRow (env : Env) (p : Ptr) {u v : UserCacheItem} (hn : NulFree v.username)
    (hm : NulFree v.mail) (h : u.core = (rowItem env p (savedRow v)).core) : SameAccount u v := by
  have hrow : rowItem env p (savedRow v) = fillRow (savedRow v)
      ((UserCacheItem.new (cstr v.username) (env.junk p)).setUserId (uid (savedRow v))) := rfl
  rw [hrow, fillRow_eq] at h
  have hflag : UInt32.ofInt (savedRow v).flag = v.flag := by
    apply UInt32.toNat.inj
    have := toNat_ofInt (n := (v.flag.toNat : ℤ)) (by omega) (by have := v.flag.toNat_lt; omega)
    exact Int.ofNat.inj this
  refine ⟨?_, ?_, ?_, ?_, ?_, ?_⟩
  · exact (congrArg UserCacheItem.username h).trans (cstr_of_nulFree hn)
  · refine (congrArg UserCacheItem.salt h).trans ?_
    show (blob? 32 v.salt.bytes).getD _ = _
    rw [blob?_bytes]; rfl
  · refine (congrArg UserCacheItem.verifier h).trans ?_
    show (blob? 32 v.verifier.bytes).getD _ = _
    rw [blob?_bytes]; rfl
  · refine (congrArg UserCacheItem.passwd h).trans ?_
    show (blob? 20 v.passwd.bytes).getD _ = _
    rw [blob?_bytes]; rfl
  · exact (congrArg UserCacheItem.mail h).trans (cstr_of_nulFree hm)
  · exact (congrArg UserCacheItem.flag h).trans hflag

/-- Saved to an empty database, and each id looked up in a fresh cache: the account comes back. -/
def Survives (env : Env) (c : UserCache) : Prop := ∀ e ∈ c.idMap, ∃ k q s',
  lookup env k (loadFromDB ⟨.new, (saveToDB env.eng ⟨c, ⟨[], []⟩⟩).db⟩) (.id e.1) = some (some q, s') ∧
    SameAccount (s'.cache.get q) (c.get e.2)

theorem survives_of_plain (env : Env) {c : UserCache} (hb : Built c)
    (hp : ∀ e ∈ c.idMap, PlainItem (c.get e.2)) : Survives env c := by
  intro e he
  have hsaved : Saved c c.idMap (saveToDB env.eng ⟨c, ⟨[], []⟩⟩).db := by
    rw [saveToDB_db env.eng hb]
    exact saveLoop_saved env.eng hb hp c.idMap [] _ rfl ⟨rfl, by simp⟩
  generalize (saveToDB env.eng ⟨c, ⟨[], []⟩⟩).db = db at hsaved
  have hok : DbOk db := dbOk_of_saved hb hsaved
  have hc : Coherent (loadFromDB ⟨.new, db⟩) := coherent_new rfl rfl db
  have hrow : ∀ e' ∈ c.idMap, savedRow (c.get e'.2) ∈ db.users ∧ uid (savedRow (c.get e'.2)) = e'.1 := by
    intro e' he'
    have hmem : savedRow (c.get e'.2) ∈ db.users := by
      rw [hsaved.users]; exact List.mem_map_of_mem he'
    refine ⟨hmem, UInt32.toNat.inj ?_⟩
    have := hok.toNat_uid hmem
    rw [← (hb.item e' he').1]
    exact Int.ofNat.inj this
  -- every account can be loaded, and has friends among the accounts only
  have hprov : Provides (loadFromDB ⟨.new, db⟩) fun i => ∃ e ∈ c.idMap, e.1 = i := by
    refine ⟨?_, fun i _ _ j hj => storedFriends_saved hb hsaved hj⟩
    rintro i ⟨e', he', rfl⟩
    exact Or.inr ⟨_, hrow e' he'⟩
  obtain ⟨hmem, hu⟩ := hrow e he
  have hnone : (loadFromDB ⟨.new, db⟩).cache.findKey (.id e.1) = none := rfl
  have hnames : (Key.id e.1).names (savedRow (c.get e.2)) = true := by
    refine decide_eq_true ?_
    rw [← hu, hok.toNat_uid hmem]
  obtain ⟨a, s', h⟩ := loadUser_total env ((uncached (loadFromDB ⟨.new, db⟩)).length + 1)
    (loadFromDB ⟨.new, db⟩) (.id e.1) hok hc (exact_id _ _ _) hnone hprov (length_whereExpr_id _)
    (fun r _ _ j hj => storedFriends_saved hb hsaved hj) (Or.inr ⟨_, hmem, hnames⟩)
    (Nat.lt_succ_self _)
  have ha := loadUser_answers _ _ _ a s' hok hc (exact_id _ _ _) hnone h
  obtain ⟨q, hq, haq⟩ := ha.found
  rw [if_pos (ha.coherent.isExist hq)] at haq
  refine ⟨_, q, s', by rw [lookup_uncached _ _ hnone, h, haq], ?_⟩
  rcases ha.loaded.newId hq with hold | ⟨-, r, hr, hur, hcore⟩
  · cases hold
  · obtain rfl := hok.eq_of_uid hr hmem (hur.trans hu.symm)
    exact fields_of_savedRow env q (hb.name e he).1 (hb.mail e he) hcore

/-! ### Quotes -/

theorem userRowOf_name {id : ℕ} {s : Text} {vs : List DataDef} {row : UserRow}
    (h : userRowOf (.int id :: .string s :: vs) = some row) : row.userid = id ∧ row.username = s := by
  unfold userRowOf at h
  split at h
  · rename_i heq
    cases heq
    cases h
    exact ⟨rfl, rfl⟩
  · cases h

theorem userRowOf_mail {id : ℕ} {s m : Text} {b1 b2 b3 : List Byte} {vs : List DataDef} {row : UserRow}
    (h : userRowOf (.int id :: .string s :: .binary b1 :: .binary b2 :: .binary b3 :: .string m :: vs) =
      some row) : row.mail = m := by
  unfold userRowOf at h
  split at h
  · rename_i heq
    cases heq
    cases h
    rfl
  · cases h

/-- A string read from between the quotes of a statement: if it is the one that was put there, it holds
no quote. -/
theorem quote_not_mem_of_read {k : ℕ} {m : Text} {w : DataDef} {ws vs : List DataDef} (hm : NulFree m)
    (ht : quote ∉ (str ", " ++ valuesText (w :: ws)).take m.length)
    (h : readValues (k + 1) (valuesText (.string m :: w :: ws)) = .ok vs) :
    ∃ s vs', vs = .string s :: vs' ∧ (cstr s = m → quote ∉ m) := by
  rw [valuesText_cons] at h
  obtain ⟨s, r, vs', hs, rfl⟩ := readValues_string h
  rw [cstr_of_nulFree hm] at hs
  refine ⟨s, vs', rfl, fun e => ?_⟩
  have hnul : NulFree (m ++ quote :: (str ", " ++ valuesText (w :: ws))) :=
    nulFree_append hm (nulFree_append (s := [quote]) (by decide)
      (nulFree_append (s := str ", ") (by decide) (nulFree_valuesText ws w)))
  rw [cstr_of_nulFree (nulFree_scanQuoted hnul hs)] at e
  subst e
  exact scanQuoted_self hs ht

theorem quote_not_mem_hex (b : List Byte) : quote ∉ hex b := fun h =>
  hexVal_of_mem_hex h (by decide)

theorem quote_not_mem_decimal (n : ℕ) : quote ∉ decimal n := fun h =>
  absurd (isDigit_of_mem_decimal h) (by decide)

/-- What follows a name in the statement has no quote near. -/
theorem quote_not_mem_after_name {a : Buf 32} {w : DataDef} {ws : List DataDef} {k : ℕ} (hk : k ≤ 15) :
    quote ∉ (str ", " ++ valuesText (.binary a.bytes :: w :: ws)).take k := by
  intro h
  have hlen : 4 + 2 * 32 = (str ", " ++ (str "X'" ++ hex a.bytes)).length := by
    rw [List.length_append, List.length_append, length_hex, a.len]
    rfl
  have hsplit : str ", " ++ valuesText (.binary a.bytes :: w :: ws) =
      (str ", " ++ (str "X'" ++ hex a.bytes)) ++ (str "'" ++ (str ", " ++ valuesText (w :: ws))) := by
    rw [valuesText_cons]
    simp [DataDef.sql]
  rw [hsplit, List.take_append_of_le_length (by omega)] at h
  rcases List.mem_append.mp (List.mem_of_mem_take h) with h | h
  · exact absurd h (by decide)
  · rcases List.mem_append.mp h with h | h
    · exact absurd h (by decide)
    · exact quote_not_mem_hex _ h

/-- What follows a mail in the statement has no quote. -/
theorem quote_not_mem_after_mail (n : ℕ) (b : List Byte) :
    quote ∉ str ", " ++ valuesText [.int n, .binary b] := by
  intro h
  rw [valuesText_cons] at h
  simp only [valuesText, List.map_cons, List.map_nil, commaSep, DataDef.sql, List.mem_append] at h
  rcases h with h | h | h | (h | h | h) | h
  · exact absurd h (by decide)
  · exact quote_not_mem_decimal n h
  · exact absurd h (by decide)
  · exact absurd h (by decide)
  · exact quote_not_mem_hex b h
  · exact absurd h (by decide)
  · exact absurd h (by decide)

/-- A row read from the statement of an account has its id, and not both its name and its mail when
one of them holds a quote. -/
theorem readUser_spec {u : UserCacheItem} (hn : NulFree u.username) (h15 : u.username.length ≤ 15)
    (hm : NulFree u.mail) {vs : List DataDef} {row : UserRow}
    (h : readValues 8 (valuesText (userData u)) = .ok vs) (hr : userRowOf vs = some row) :
    row.userid = u.id.toNat ∧ (cstr row.username = u.username → cstr row.mail = u.mail → PlainItem u) := by
  unfold userData at h
  rw [cstr_of_nulFree hn, cstr_of_nulFree hm, readValues_valuesText_cons (plain_int _)] at h
  obtain ⟨vs7, h7, rfl⟩ := Scan.map_eq_ok.mp h
  obtain ⟨s, vs6, rfl, hs⟩ := quote_not_mem_of_read hn (quote_not_mem_after_name h15) h7
  obtain ⟨hid, hname⟩ := userRowOf_name hr
  refine ⟨hid, fun e1 e2 => ?_⟩
  rw [hname] at e1
  have hq := hs e1
  -- with a plain name the values are read one by one up to the mail
  rw [readValues_valuesText_cons (v := .string u.username) ⟨hq, hn⟩] at h7
  obtain ⟨vs6', h6, e6⟩ := Scan.map_eq_ok.mp h7
  rw [readValues_valuesText_cons (plain_binary _)] at h6
  obtain ⟨vs5, h5, rfl⟩ := Scan.map_eq_ok.mp h6
  rw [readValues_valuesText_cons (plain_binary _)] at h5
  obtain ⟨vs4, h4, rfl⟩ := Scan.map_eq_ok.mp h5
  rw [readValues_valuesText_cons (plain_binary _)] at h4
  obtain ⟨vs3, h3, rfl⟩ := Scan.map_eq_ok.mp h4
  obtain ⟨m, vs2, rfl, hm2⟩ := quote_not_mem_of_read hm
    (fun h => quote_not_mem_after_mail _ _ (List.mem_of_mem_take h)) h3
  cases e6
  rw [userRowOf_mail hr] at e2
  exact ⟨hq, hm2 e2⟩

/-- Rows written for accounts that cannot be told from their row only when plain. -/
def Written (c : UserCache) (db : Database) : Prop := ∀ r ∈ db.users, ∃ e ∈ c.idMap,
  r.userid = (c.get e.2).id.toNat ∧
    (cstr r.username = (c.get e.2).username → cstr r.mail = (c.get e.2).mail → PlainItem (c.get e.2))

theorem written_replace {c : UserCache} {db : Database} (h : Written c db) {row : UserRow}
    (hrow : ∃ e ∈ c.idMap, row.userid = (c.get e.2).id.toNat ∧ (cstr row.username = (c.get e.2).username →
      cstr row.mail = (c.get e.2).mail → PlainItem (c.get e.2))) : Written c (replaceUser db row) := by
  intro r hr
  rcases List.mem_append.mp hr with hr | hr
  · exact h r (List.mem_filter.mp hr).1
  · rw [List.mem_singleton.mp hr]
    exact hrow

/-- The rows of friends are others. -/
theorem written_friends {c : UserCache} {db : Database} (h : Written c db) (row : FriendRow) :
    Written c (replaceFriends db row) := h

theorem saveDb_written {eng : Engine} (heng : ∀ t db, eng.otherStmt t db = db) {c : UserCache}
    (hb : Built c) {e : UInt32 × Ptr} (he : e ∈ c.idMap) {db : Database} (h : Written c db) :
    Written c (saveDb eng c e.2 db) := by
  have h1 : Written c (doExec eng db (setText (str "users") userCols (userData (c.get e.2)))) := by
    unfold doExec setText
    rw [after_append]
    dsimp only
    rcases hv : readValues 8 (valuesText (userData (c.get e.2))) with vs | _ | _
    · dsimp only
      rcases hr : userRowOf vs with _ | row
      · dsimp only
        rw [heng]
        exact h
      · exact written_replace h ⟨e, he,
          readUser_spec (hb.name e he).1 (hb.name e he).2 (hb.mail e he) hv hr⟩
    · exact h
    · dsimp only
      rw [heng]
      exact h
  unfold saveDb
  dsimp only
  split_ifs
  · rw [doExec_friends]
    exact written_friends h1 _
  · exact h1

theorem saveLoop_written {eng : Engine} (heng : ∀ t db, eng.otherStmt t db = db) {c : UserCache}
    (hb : Built c) : ∀ (l : List (UInt32 × Ptr)) (db : Database), (∀ e ∈ l, e ∈ c.idMap) →
      Written c db → Written c (l.foldl (fun db e => saveDb eng c e.2 db) db)
  | [], _, _, h => h
  | e :: l, db, hl, h => by
    rw [List.foldl_cons]
    exact saveLoop_written heng hb l _ (fun d hd => hl d (by simp [hd]))
      (saveDb_written heng hb (hl e (by simp)) h)

/-- With an engine that ignores what it does not understand, only plain accounts survive. -/
theorem plain_of_survives (env : Env) (heng : ∀ t db, env.eng.otherStmt t db = db) {c : UserCache}
    (hb : Built c) (h : Survives env c) : ∀ e ∈ c.idMap, PlainItem (c.get e.2) := by
  intro e he
  obtain ⟨k, q, s', hl, hsame⟩ := h e he
  have hw : Written c (saveToDB env.eng ⟨c, ⟨[], []⟩⟩).db := by
    rw [saveToDB_db env.eng hb]
    exact saveLoop_written heng hb c.idMap _ (fun _ h => h) (by intro r hr; cases hr)
  generalize (saveToDB env.eng ⟨c, ⟨[], []⟩⟩).db = db at hw hl
  have hc : Coherent (loadFromDB ⟨.new, db⟩) := coherent_new rfl rfl db
  rw [lookup_uncached k _ rfl] at hl
  rcases loadUser_cases hl with ⟨j, r, -, hrow, hq, hfr⟩ | ⟨n, hkey, -⟩
  · have hr : r ∈ db.users.filter (Key.id e.1).names := by
      rw [← exact_id env.eng db e.1]
      show r ∈ getMatchUsers env.eng (loadFromDB ⟨.new, db⟩).db _
      rw [hrow]
      simp
    obtain ⟨hr, hid⟩ := List.mem_filter.mp hr
    have hid : r.userid = e.1.toNat := of_decide_eq_true hid
    obtain ⟨e', he', hid', hplain⟩ := hw r hr
    -- ids are distinct, so the row was written for this account
    have hp : (c.get e'.2).id = (c.get e.2).id := by
      apply UInt32.toNat.inj
      rw [(hb.item e he).1]
      omega
    have hee : e' = e := by
      by_contra hne
      have hs : Std.Symm fun e e' : UInt32 × Ptr => e.1 ≠ e'.1 := ⟨fun _ _ => Ne.symm⟩
      refine hb.ids.forall he' he hne ?_
      rw [← (hb.item e he).1, ← (hb.item e' he').1, hp]
    subst hee
    cases hq
    have hcore := core_addRow hc.bounded hfr
    rw [get_addRow, fillRow_eq] at hcore
    exact hplain ((congrArg UserCacheItem.username hcore).symm.trans hsame.username)
      ((congrArg UserCacheItem.mail hcore).symm.trans hsame.mail)
  · cases hkey

/-- **Accounts survive a restart exactly when no name or mail holds a double quote**, whatever SQLite
makes of the SQL that quotes let a client write. -/
theorem survives_iff_plain (c : UserCache) (hb : Built c) :
    (∀ env, Survives env c) ↔ ∀ e ∈ c.idMap, PlainItem (c.get e.2) := by
  constructor
  · intro h
    exact plain_of_survives ⟨⟨fun _ _ => false, fun _ _ => none, fun _ db => db⟩,
      fun _ => Buf.zero 20, 0⟩ (fun _ _ => rfl) hb (h _)
  · intro hp env
    exact survives_of_plain env hb hp

/-- One account `bob`, with the given mail. -/
def oneAccount (mail : Text) : UserCache :=
  ((UserCache.new.add ⟨⟨fun _ _ => false, fun _ _ => none, fun _ db => db⟩, fun _ => Buf.zero 20, 0⟩
    (str "bob") 0).2).modify 0 fun u => (u.addFlag UCF_OLSAUTH).setMail mail

theorem built_oneAccount {mail : Text} (h : NulFree mail) : Built (oneAccount mail) := by
  have hget : (oneAccount mail).get 0 =
      (((UserCacheItem.new (str "bob") (Buf.zero 20)).setUserId 1).addFlag UCF_OLSAUTH).setMail mail := rfl
  obtain ⟨d, hd⟩ := UserCacheItem.setMail_eq
    (((UserCacheItem.new (str "bob") (Buf.zero 20)).setUserId 1).addFlag UCF_OLSAUTH) mail
  have hmap : (oneAccount mail).idMap = [(1, 0)] := rfl
  have hitem : ∀ e ∈ (oneAccount mail).idMap, e = (1, 0) := fun e he => by
    rwa [hmap, List.mem_singleton] at he
  refine ⟨List.pairwise_singleton _ _, fun e he => ?_, fun e he => ?_, fun e he => ?_,
    List.pairwise_singleton _ _, fun e he f hf => ?_⟩
  · rw [hitem e he, hget]
    refine ⟨by rw [hd]; rfl, by decide, ?_⟩
    unfold UserCacheItem.setMail
    split_ifs <;> rfl
  · have hname : ((oneAccount mail).get e.2).username = str "bob" := by
      rw [hitem e he, hget, hd]
      rfl
    rw [hname]
    exact ⟨by decide, by decide⟩
  · rw [hitem e he, hget, hd]
    exact h
  · rw [hitem e he, hget, hd] at hf
    cases hf

/-- The account `bob` with the mail `bob@x` survives. -/
theorem survives_bob : Built (oneAccount (str "bob@x")) ∧
    ∀ env, Survives env (oneAccount (str "bob@x")) := by
  have hb : Built (oneAccount (str "bob@x")) := built_oneAccount (by decide)
  exact ⟨hb, (survives_iff_plain (oneAccount (str "bob@x")) hb).mpr (by decide)⟩

/-- **A mail that is a single double quote loses the account**: the quote pairs with the closing one and
the statement does not compile, with any SQL engine. -/
theorem quote_mail_lost : Built (oneAccount (str "\"")) ∧
    ∀ env, ¬ Survives env (oneAccount (str "\"")) := by
  refine ⟨built_oneAccount (by decide), fun env h => ?_⟩
  obtain ⟨k, q, s', hl, -⟩ := h (1, 0) (List.mem_singleton.mpr rfl)
  have hdb : (saveToDB env.eng ⟨oneAccount (str "\""), ⟨[], []⟩⟩).db = ⟨[], []⟩ := by
    rfl
  rw [hdb, lookup_uncached k _ rfl] at hl
  rcases loadUser_cases hl with ⟨j, r, -, hrow, -⟩ | ⟨n, hkey, -⟩
  · cases hrow
  · cases hkey

end Blitzd.Cache.UserSave
