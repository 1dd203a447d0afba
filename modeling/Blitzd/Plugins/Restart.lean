import Blitzd.Cache.UserSave
import Blitzd.Plugins.Ledger

/-! # The accounts across a restart

At its end the server writes what is marked (`SaveToDB`), and the next one starts with an empty cache over the same tables
(`LoadFromDB`): `reopen`. `reopen_spec`: when what is marked can be written (`Writable`), then every account is the same
after that as before. The marks are what this rests on: an account that has none is not written at all, and is loaded from
rows that are as old as the mark that is missing. `found_again`: every account is found by its id, with friends and all. -/

namespace Blitzd.Plugins.Ledger

open Blitzd.Lib Blitzd.Lib.Bytes Blitzd.Lib.KeyMap Blitzd.Utils.CString Blitzd.Storage.Sqlite
open Blitzd.Cache Blitzd.Cache.UserCacheItem Blitzd.Cache.UserSave
open Blitzd.Plugins.Accounts (Answered maxUserid_spec indexed_loadFromDB)

variable {env : Env} {s s' s'' : Store} {i j : UInt32} {p q : Ptr} {u v : UserCacheItem}

/-- An account that comes back from its row: no quotes in its name and mail, no `=` in a key that has a value. -/
def Writable (u : UserCacheItem) : Prop := PlainItem u ∧ ∀ x ∈ u.dataMap, x.2 ≠ [] → 61 ∉ x.1

instance (u : UserCacheItem) : Decidable (Writable u) := inferInstanceAs (Decidable (_ ∧ _))

/-! ### Rows -/

theorem uid_savedRow (u : UserCacheItem) : uid (savedRow u) = u.id := by
  refine UInt32.toNat.inj (Int.ofNat.inj ?_)
  exact toNat_ofInt (n := (u.id.toNat : ℤ)) (by omega) (by have := u.id.toNat_lt; omega)

theorem rowCreds_savedRow (u : UserCacheItem) : rowCreds (savedRow u) ≠ none := by
  simp [rowCreds, savedRow, blob?_bytes]

theorem rowFields_savedRow (hn : NulFree u.username) (hm : NulFree u.mail) (hd : Tidy u.dataMap) (hw : Writable u) :
    rowFields (savedRow u) = fields u := by
  have hflag : UInt32.ofInt (savedRow u).flag = u.flag := by
    refine UInt32.toNat.inj (Int.ofNat.inj ?_)
    exact toNat_ofInt (n := (u.flag.toNat : ℤ)) (by omega) (by have := u.flag.toNat_lt; omega)
  have hdata : (fun k => (find nameEq (setDataLoop u.buildDataMap.length u.buildDataMap []) k).getD []) =
      fun k => (find nameEq u.dataMap k).getD [] := by
    funext k
    have hk : (((UserCacheItem.new [] (Buf.zero 20)).setDataMap u.buildDataMap).getData k).1 = (u.getData k).1 :=
      getData_roundtrip rfl hd.ordered hd.free hw.2 k
    rw [getData_fst, getData_fst] at hk
    exact hk
  unfold rowFields
  rw [fillRow_eq]
  unfold fields
  dsimp only
  rw [hflag]
  simp only [savedRow, blob?_bytes, Option.getD_some, cstr_of_nulFree hn, cstr_of_nulFree hm]
  exact congrArg (Fields.mk u.username u.salt u.verifier u.passwd u.mail u.flag) hdata

theorem dbOk_replaceUser {db : Database} (hok : DbOk db) {row : UserRow} (hrange : 0 < row.userid ∧ row.userid < 2 ^ 32)
    (hname : NulFree row.username) : DbOk (replaceUser db row) := by
  have hmem : ∀ r ∈ (replaceUser db row).users, r ∈ db.users ∨ r = row := by
    intro r hr
    rcases List.mem_append.mp hr with hr | hr
    · exact .inl (List.mem_filter.mp hr).1
    · exact .inr (List.mem_singleton.mp hr)
  have hnew : ∀ r ∈ db.users.filter (fun r => r.userid ≠ row.userid ∧ nocase r.username row.username = false),
      ∀ r' ∈ [row], r.userid ≠ r'.userid ∧ nocase r.username r'.username = false := by
    intro r hr r' hr'
    rw [List.mem_singleton.mp hr']
    simpa using (List.mem_filter.mp hr).2
  refine ⟨⟨?_, ?_⟩, fun r hr => ?_, fun r hr => ?_⟩
  · exact List.pairwise_append.mpr ⟨hok.unique.userid.filter _, List.pairwise_singleton _ _, fun r hr r' hr' =>
      (hnew r hr r' hr').1⟩
  · exact List.pairwise_append.mpr ⟨hok.unique.username.filter _, List.pairwise_singleton _ _, fun r hr r' hr' =>
      (hnew r hr r' hr').2⟩
  · rcases hmem r hr with hr | rfl
    · exact hok.range r hr
    · exact hrange
  · rcases hmem r hr with hr | rfl
    · exact hok.nulFree r hr
    · exact hname

/-- The row of a cached account takes the place of the one with its id, and of no other. -/
theorem mem_replaceUser (hs : Sound s) (hi : s.cache.findId i = some p) (hn : NulFree (s.cache.get p).username)
    {r : UserRow} : r ∈ (replaceUser s.db (savedRow (s.cache.get p))).users ↔
      (r ∈ s.db.users ∧ uid r ≠ i) ∨ r = savedRow (s.cache.get p) := by
  obtain ⟨-, hid, -, hname⟩ := hs.coherent.id hi
  have hrow : (savedRow (s.cache.get p)).userid = (i.toNat : ℤ) := by rw [← hid]; rfl
  unfold replaceUser
  rw [List.mem_append, List.mem_filter, List.mem_singleton, decide_eq_true_eq, hrow]
  refine or_congr (and_congr_right fun hr => ?_) Iff.rfl
  have huid := hs.db.toNat_uid hr
  constructor
  · rintro ⟨hne, -⟩ he
    rw [he] at huid
    exact hne huid.symm
  · intro hne
    refine ⟨fun he => hne (UInt32.toNat.inj (by omega)), Bool.eq_false_of_not_eq_true fun hsame => hne ?_⟩
    -- a row of that name is the row of the account that is cached under it
    have hcmp : strcmpiEq r.username (s.cache.get p).username = true := (hs.db.strcmpiEq_row hr hn).trans hsame
    rw [← hs.coherent.row r hr ((s.cache.findName_congr hcmp).trans hname), hid]

/-! ### One account is saved -/

/-- Cached are the same accounts as before, up to their marks. -/
structure Remarked (s s' : Store) : Prop where
  idMap : s'.cache.idMap = s.cache.idMap
  same : ∀ q, settled (s'.cache.get q) = settled (s.cache.get q)

namespace Remarked

theorem refl (s : Store) : Remarked s s := ⟨rfl, fun _ => rfl⟩

theorem trans (h : Remarked s s') (h' : Remarked s' s'') : Remarked s s'' :=
  ⟨h'.idMap.trans h.idMap, fun q => (h'.same q).trans (h.same q)⟩

theorem modify {f : UserCacheItem → UserCacheItem} (hf : ∀ u, settled (f u) = settled u) (db : Database) :
    Remarked s ⟨s.cache.modify p f, db⟩ := ⟨rfl, settled_modify hf p⟩

theorem findId (h : Remarked s s') (i : UInt32) : s'.cache.findId i = s.cache.findId i := by
  unfold UserCache.findId
  rw [h.idMap]

theorem get (h : Remarked s s') {α : Type*} (g : UserCacheItem → α) (hg : ∀ u, g (settled u) = g u) (q : Ptr) :
    g (s'.cache.get q) = g (s.cache.get q) := by
  rw [← hg, h.same, hg]

theorem fields (h : Remarked s s') (q : Ptr) : fields (s'.cache.get q) = fields (s.cache.get q) :=
  h.get Ledger.fields (fun _ => rfl) q

theorem users (h : Remarked s s') (q : Ptr) : users s'.cache.heap q = users s.cache.heap q :=
  h.get (fun u => u.friendList.map Friend.user) (fun _ => rfl) q

theorem circle (h : Remarked s s') (q : Ptr) : circle s' q = circle s q := by
  unfold Ledger.circle
  simp only [h.users, h.findId]

theorem writable (h : Remarked s s') (hw : Writable (s.cache.get q)) : Writable (s'.cache.get q) := by
  have hw' := h.get Writable (fun _ => rfl) q
  rwa [hw']

/-- What is stored of those who are not cached stays, and so every account does. -/
theorem account (h : Remarked s s') (hok : DbOk s.db) (hok' : DbOk s'.db)
    (hrow : ∀ r, s.cache.findId (uid r) = none → (r ∈ s'.db.users ↔ r ∈ s.db.users))
    (hlist : ∀ i, s.cache.findId i = none → storedFriends s'.db i = storedFriends s.db i) (j : UInt32) :
    account s' j = account s j := by
  rcases hj : s.cache.findId j with _ | q
  · have hj' : s'.cache.findId j = none := (h.findId j).trans hj
    by_cases hcov : ∃ r ∈ s.db.users, uid r = j
    · obtain ⟨r, hr, rfl⟩ := hcov
      rw [account_row hok hj hr rfl, account_row hok' hj' ((hrow r hj).mpr hr) rfl, hlist _ hj]
    · have hnone : ∀ {s : Store}, s.cache.findId j = none → (¬ ∃ r ∈ s.db.users, uid r = j) →
          Ledger.account s j = none := fun hn hr =>
        not_not.mp fun hne => (account_ne_none.mp hne).elim (fun hc => hc hn) hr
      rw [hnone hj hcov, hnone hj']
      rintro ⟨r, hr, rfl⟩
      exact hcov ⟨r, (hrow r hj).mp hr, rfl⟩
  · rw [account_cached hj, account_cached ((h.findId j).trans hj), h.fields, h.circle]

theorem tended (h : Remarked s s') (ht : Tended s i p)
    (hclean : (s'.cache.get p).dirty = false → ∃ r ∈ s'.db.users, uid r = i ∧ rowFields r = Ledger.fields (s.cache.get p))
    (hfriend : (s'.cache.get p).friendDirty = false → Ledger.circle s p = {j | j ∈ storedFriends s'.db i}) :
    Tended s' i p := by
  refine ⟨?_, ?_, ?_, fun q hq => ?_, ?_, ?_, fun hd => ?_, fun hd => ?_⟩
  · rw [h.get UserCacheItem.username (fun _ => rfl)]
    exact ht.username
  · rw [h.get UserCacheItem.mail (fun _ => rfl)]
    exact ht.mail
  · rw [h.get UserCacheItem.dataMap (fun _ => rfl)]
    exact ht.data
  · rw [h.users] at hq
    obtain ⟨j, hj⟩ := ht.known q hq
    exact ⟨j, (h.findId j).trans hj⟩
  · rw [h.users]
    exact ht.other
  · rw [h.users]
    exact ht.length
  · rw [h.fields]
    exact hclean hd
  · rw [h.circle]
    exact hfriend hd

end Remarked

theorem sound_writeRow (h : InOrder s) (hi : s.cache.findId i = some p) :
    Sound ⟨s.cache.modify p (·.setDirty false), replaceUser s.db (savedRow (s.cache.get p))⟩ := by
  have ht := h.tended hi
  obtain ⟨-, hid, hne, hname⟩ := h.sound.coherent.id hi
  have hmem := fun r => mem_replaceUser (r := r) h.sound hi ht.username
  have huid : uid (savedRow (s.cache.get p)) = i := (uid_savedRow _).trans hid
  have hc := h.sound.coherent.modify p (f := (·.setDirty false)) fun u => ⟨rfl, rfl⟩
  refine ⟨dbOk_replaceUser h.sound.db ?_ ht.username, fun r hr => ?_, ⟨hc.name, hc.id, fun r hr {q} hn => ?_,
    fun r hr {q} hq => ?_⟩, h.sound.next, h.sound.below, fun r hr => ?_⟩
  · have hlt := (s.cache.get p).id.toNat_lt
    have hpos : (s.cache.get p).id.toNat ≠ 0 := fun e => hne (hid.symm.trans (UInt32.toNat.inj e))
    show (0 : ℤ) < ((s.cache.get p).id.toNat : ℤ) ∧ ((s.cache.get p).id.toNat : ℤ) < 2 ^ 32
    omega
  · rcases (hmem r).mp hr with ⟨hr, -⟩ | rfl
    · exact h.sound.blobs r hr
    · exact rowCreds_savedRow _
  · rcases (hmem r).mp hr with ⟨hr, -⟩ | rfl
    · exact hc.row r hr hn
    · obtain rfl : p = q := Option.some.inj (hname.symm.trans hn)
      exact (hc.id hi).2.1.trans huid.symm
  · rcases (hmem r).mp hr with ⟨hr, -⟩ | rfl
    · exact hc.idRow r hr hq
    · rw [huid] at hq
      obtain rfl : p = q := Option.some.inj (hi.symm.trans hq)
      have hsame : ((s.cache.modify p (·.setDirty false)).get p).username = (s.cache.get p).username :=
        s.cache.get_modify_keeps UserCacheItem.username (f := (·.setDirty false)) rfl p
      dsimp only
      rw [hsame]
      exact strcmpiEq_refl _
  · rcases (hmem r).mp hr with ⟨hr, -⟩ | rfl
    · exact h.sound.rowBelow r hr
    · rw [huid]
      exact h.sound.below hi

/-- The row of an account is written, and its mark taken away. -/
theorem InOrder.writeRow (h : InOrder s) (hi : s.cache.findId i = some p) (hw : Writable (s.cache.get p)) :
    InOrder ⟨s.cache.modify p (·.setDirty false), replaceUser s.db (savedRow (s.cache.get p))⟩ ∧
      ∀ j, account ⟨s.cache.modify p (·.setDirty false), replaceUser s.db (savedRow (s.cache.get p))⟩ j =
        account s j := by
  have ht := h.tended hi
  have hmem := fun r => mem_replaceUser (r := r) h.sound hi ht.username
  have huid : uid (savedRow (s.cache.get p)) = i := (uid_savedRow _).trans (h.sound.coherent.id hi).2.1
  have hsound := sound_writeRow h hi
  have hre : Remarked s ⟨s.cache.modify p (·.setDirty false), replaceUser s.db (savedRow (s.cache.get p))⟩ :=
    .modify (f := (·.setDirty false)) (fun _ => rfl) _
  have hkeep : ∀ r ∈ s.db.users, uid r ≠ i → r ∈ (replaceUser s.db (savedRow (s.cache.get p))).users :=
    fun r hr hne => (hmem r).mpr (.inl ⟨hr, hne⟩)
  have hself : savedRow (s.cache.get p) ∈ (replaceUser s.db (savedRow (s.cache.get p))).users :=
    (hmem _).mpr (.inr rfl)
  refine ⟨⟨hsound, h.lists.mono (fun r hr => ?_) rfl id, h.keys, fun {j q} hj => ?_⟩,
    hre.account h.sound.db hsound.db (fun r hr => ?_) fun _ _ => rfl⟩
  · by_cases hri : uid r = i
    · exact ⟨_, hself, huid.trans hri.symm⟩
    · exact ⟨r, hkeep r hr hri, rfl⟩
  · have hj : s.cache.findId j = some q := hj
    refine hre.tended (h.tended hj) (fun hd => ?_) fun hd => (h.tended hj).friendClean ?_
    · by_cases hji : j = i
      · subst hji
        obtain rfl : p = q := Option.some.inj (hi.symm.trans hj)
        exact ⟨_, hself, huid, rowFields_savedRow ht.username ht.mail ht.data hw⟩
      · have hqp : q ≠ p := fun e => hji (h.sound.coherent.id_inj (e ▸ hj) hi)
        rw [get_modify_ne _ hqp] at hd
        obtain ⟨r, hr, hrj, hf⟩ := (h.tended hj).clean hd
        exact ⟨r, hkeep r hr (hrj ▸ hji), hrj, hf⟩
    · have hsame := s.cache.get_modify_keeps UserCacheItem.friendDirty (p := p) (f := (·.setDirty false)) rfl q
      exact hsame.symm.trans hd
  · -- a row of somebody who is not cached is not the one that is replaced
    have hne : uid r ≠ i := fun e => by
      rw [e, hi] at hr
      cases hr
    refine ⟨fun hmem' => ((hmem r).mp hmem').elim And.left fun e => ?_, fun hr => hkeep r hr hne⟩
    exact absurd (e ▸ huid) hne

/-- The ids of the friends of an account. -/
def friendsOf (c : UserCache) (u : UserCacheItem) : List UInt32 := u.friendList.map fun f => (c.get f.user).id

theorem storedFriends_replace (db : Database) (c : UserCache) (u : UserCacheItem) (j : UInt32) :
    storedFriends (replaceFriends db (savedFriends c u)) j = if j = u.id then friendsOf c u else storedFriends db j := by
  have hids : friendIds (savedFriends c u).friendlist = friendsOf c u := by
    rw [← friendIds_toLE (friendsOf c u), friendsOf, List.flatMap_map]
    rfl
  have hid : (savedFriends c u).userid = (u.id.toNat : ℤ) := rfl
  have hmatch : getMatchFriends (replaceFriends db (savedFriends c u)) j.toNat =
      if j = u.id then [savedFriends c u] else getMatchFriends db j.toNat := by
    unfold getMatchFriends replaceFriends
    rw [List.filter_append, List.filter_filter, hid]
    by_cases hj : j = u.id
    · subst hj
      rw [if_pos rfl, List.filter_eq_nil_iff.mpr (by simp), List.filter_cons_of_pos (by simp [hid])]
      rfl
    · have hne : ¬ (u.id.toNat : ℤ) = j.toNat := fun e => hj (UInt32.toNat.inj (Int.ofNat.inj e).symm)
      rw [if_neg hj, List.filter_cons_of_neg (by simpa [hid] using hne), List.filter_nil, List.append_nil]
      refine List.filter_congr fun r _ => ?_
      by_cases hr : r.userid = j.toNat
      · simp [hr, Ne.symm hne]
      · simp [hr]
  unfold storedFriends
  rw [hmatch]
  by_cases hj : j = u.id
  · rw [if_pos hj, if_pos hj]
    exact hids
  · rw [if_neg hj, if_neg hj]

theorem mem_circle (h : InOrder s) (hi : s.cache.findId i = some p) :
    j ∈ circle s p ↔ j ∈ friendsOf s.cache (s.cache.get p) := by
  unfold friendsOf
  rw [List.mem_map]
  constructor
  · rintro ⟨q, hq, hj⟩
    obtain ⟨f, hf, rfl⟩ := List.mem_map.mp hq
    exact ⟨f, hf, (h.sound.coherent.id hj).2.1⟩
  · rintro ⟨f, hf, rfl⟩
    have hmem : f.user ∈ users s.cache.heap p := lists_of_mem hf
    obtain ⟨j, hj⟩ := (h.tended hi).known _ hmem
    rw [(h.sound.coherent.id hj).2.1]
    exact ⟨f.user, hmem, hj⟩

/-- Another list is stored for one account, of accounts that are there. -/
theorem ListsHeld.relist (h : ListsHeld s) {l : List UInt32}
    (hstored : ∀ j, storedFriends s'.db j = if j = i then l else storedFriends s.db j) (hlen : l.length ≤ 21)
    (hother : i ∉ l) (hcov : ∀ j, Covered s j → Covered s' j) (hl : ∀ j ∈ l, Covered s j) (hi : Covered s i) :
    ListsHeld s' := by
  refine ⟨⟨fun j => ?_, fun j => ?_⟩, fun j k hk => hcov k ?_, fun j hj => hcov j ?_⟩
  · rw [hstored]
    split_ifs
    · exact hlen
    · exact h.listable.length j
  · rw [hstored]
    split_ifs with hji
    · exact hji ▸ hother
    · exact h.listable.other j
  · rw [hstored] at hk
    split_ifs at hk
    · exact hl k hk
    · exact h.covered j k hk
  · rw [hstored] at hj
    split_ifs at hj with hji
    · exact hji ▸ hi
    · exact h.owner j hj

/-- The friends of an account are written, and their mark taken away. -/
theorem InOrder.writeFriends (h : InOrder s) (hi : s.cache.findId i = some p) :
    InOrder ⟨s.cache.modify p (·.setFriendDirty false), replaceFriends s.db (savedFriends s.cache (s.cache.get p))⟩ ∧
      ∀ j, account ⟨s.cache.modify p (·.setFriendDirty false),
        replaceFriends s.db (savedFriends s.cache (s.cache.get p))⟩ j = account s j := by
  have ht := h.tended hi
  have hid := (h.sound.coherent.id hi).2.1
  have hc := h.sound.coherent.modify p (f := (·.setFriendDirty false)) fun u => ⟨rfl, rfl⟩
  have hre : Remarked s ⟨s.cache.modify p (·.setFriendDirty false),
      replaceFriends s.db (savedFriends s.cache (s.cache.get p))⟩ :=
    .modify (f := (·.setFriendDirty false)) (fun _ => rfl) _
  have hstored := storedFriends_replace s.db s.cache (s.cache.get p)
  rw [hid] at hstored
  have hsound : Sound ⟨s.cache.modify p (·.setFriendDirty false),
      replaceFriends s.db (savedFriends s.cache (s.cache.get p))⟩ :=
    ⟨⟨⟨h.sound.db.unique.userid, h.sound.db.unique.username⟩, h.sound.db.range, h.sound.db.nulFree⟩, h.sound.blobs,
      ⟨hc.name, hc.id, hc.row, hc.idRow⟩, h.sound.next, h.sound.below, h.sound.rowBelow⟩
  have hlists : ListsHeld ⟨s.cache.modify p (·.setFriendDirty false),
      replaceFriends s.db (savedFriends s.cache (s.cache.get p))⟩ := by
    refine h.lists.relist hstored ?_ ?_ (fun j => id) (fun j hj => ?_) (.inl (by simp [hi]))
    · exact (List.length_map _).trans_le ((List.length_map _).symm.trans_le ht.length)
    · rw [← mem_circle h hi]
      rintro ⟨q, hq, hj⟩
      obtain rfl : p = q := Option.some.inj (hi.symm.trans hj)
      exact ht.other hq
    · rw [← mem_circle h hi] at hj
      obtain ⟨q, -, hq⟩ := hj
      exact .inl (by simp [hq])
  refine ⟨⟨hsound, hlists, h.keys, fun {j q} hj => ?_⟩,
    hre.account h.sound.db hsound.db (fun r _ => Iff.rfl) fun j hj => ?_⟩
  · have hj : s.cache.findId j = some q := hj
    refine hre.tended (h.tended hj) (fun hd => (h.tended hj).clean ?_) fun hd => ?_
    · have hsame := s.cache.get_modify_keeps UserCacheItem.dirty (p := p) (f := (·.setFriendDirty false)) rfl q
      exact hsame.symm.trans hd
    · dsimp only
      rw [hstored]
      by_cases hji : j = i
      · -- the account whose mark is taken away has what was just written
        subst hji
        obtain rfl : p = q := Option.some.inj (hi.symm.trans hj)
        rw [if_pos rfl]
        ext k
        exact mem_circle h hi
      · have hqp : q ≠ p := fun e => hji (h.sound.coherent.id_inj (e ▸ hj) hi)
        rw [get_modify_ne _ hqp] at hd
        rw [if_neg hji]
        exact (h.tended hj).friendClean hd
  · dsimp only
    rw [hstored, if_neg]
    rintro rfl
    rw [hi] at hj
    cases hj

/-- Marks are taken away, and nothing else changes. -/
structure Saves (s s' : Store) : Prop where
  inOrder : InOrder s'
  remarked : Remarked s s'
  dirty : ∀ q, (s.cache.get q).dirty = false → (s'.cache.get q).dirty = false
  friendDirty : ∀ q, (s.cache.get q).friendDirty = false → (s'.cache.get q).friendDirty = false
  account : ∀ j, account s' j = account s j

theorem Saves.refl (h : InOrder s) : Saves s s := ⟨h, .refl s, fun _ => id, fun _ => id, fun _ => rfl⟩

theorem Saves.trans (h : Saves s s') (h' : Saves s' s'') : Saves s s'' :=
  ⟨h'.inOrder, h.remarked.trans h'.remarked, fun q hq => h'.dirty q (h.dirty q hq),
    fun q hq => h'.friendDirty q (h.friendDirty q hq), fun j => (h'.account j).trans (h.account j)⟩

/-- The first half of `saveItem`. -/
theorem saves_row (eng : Engine) (h : InOrder s) (hi : s.cache.findId i = some p) (hd : (s.cache.get p).dirty = true)
    (hw : Writable (s.cache.get p)) :
    Saves s ⟨s.cache.modify p (·.setDirty false), doExec eng s.db (setText (str "users") userCols
      (userData (s.cache.get p)))⟩ := by
  have ht := h.tended hi
  rw [doExec_users eng s.db hw.1 ht.username ht.mail]
  obtain ⟨hin, hacc⟩ := h.writeRow hi hw
  refine ⟨hin, .modify (f := (·.setDirty false)) (fun _ => rfl) _, fun q hq => ?_, fun q hq => ?_, hacc⟩
  · have hqp : q ≠ p := fun e => by
      rw [e, hd] at hq
      cases hq
    exact (congrArg UserCacheItem.dirty (get_modify_ne _ hqp)).trans hq
  · exact (s.cache.get_modify_keeps UserCacheItem.friendDirty (p := p) (f := (·.setDirty false)) rfl q).trans hq

/-- The second half of `saveItem`, where `u` is the account before the first. -/
theorem saves_friends (eng : Engine) (h : InOrder s) (hi : s.cache.findId i = some p)
    (hd : (s.cache.get p).friendDirty = true)
    (hu : settled (s.cache.get p) = settled u) :
    Saves s ⟨s.cache.modify p (·.setFriendDirty false), doExec eng s.db (setText (str "friends") friendCols
      (friendData s.cache u))⟩ := by
  have hid : (s.cache.get p).id = u.id := (congrArg UserCacheItem.id hu :)
  have hlist : (s.cache.get p).friendList = u.friendList := (congrArg UserCacheItem.friendList hu :)
  have hdata : friendData s.cache u = friendData s.cache (s.cache.get p) := by
    unfold friendData
    rw [hid, hlist]
  rw [hdata, doExec_friends]
  obtain ⟨hin, hacc⟩ := h.writeFriends hi
  refine ⟨hin, .modify (f := (·.setFriendDirty false)) (fun _ => rfl) _, fun q hq => ?_, fun q hq => ?_, hacc⟩
  · exact (s.cache.get_modify_keeps UserCacheItem.dirty (p := p) (f := (·.setFriendDirty false)) rfl q).trans hq
  · have hqp : q ≠ p := fun e => by
      rw [e, hd] at hq
      cases hq
    exact (congrArg UserCacheItem.friendDirty (get_modify_ne _ hqp)).trans hq

/-- Nothing of the account `p` is left to be saved. -/
def Clean (s : Store) (p : Ptr) : Prop := (s.cache.get p).dirty = false ∧ (s.cache.get p).friendDirty = false

theorem Saves.clean (h : Saves s s') (hp : Clean s p) : Clean s' p := ⟨h.dirty p hp.1, h.friendDirty p hp.2⟩

/-- One account of the loop. -/
theorem saveItem_saves (eng : Engine) (h : InOrder s) (hi : s.cache.findId i = some p)
    (hw : (s.cache.get p).dirty = true → Writable (s.cache.get p)) :
    Saves s (saveItem eng s p) ∧ Clean (saveItem eng s p) p := by
  unfold saveItem
  dsimp only
  set s₁ : Store := if (s.cache.get p).dirty then
      ⟨s.cache.modify p (·.setDirty false), doExec eng s.db (setText (str "users") userCols (userData (s.cache.get p)))⟩
    else s with hs₁
  obtain ⟨h₁, hd₁⟩ : Saves s s₁ ∧ (s₁.cache.get p).dirty = false := by
    rw [hs₁]
    split_ifs with hd
    · exact ⟨saves_row eng h hi hd (hw hd), congrArg UserCacheItem.dirty (s.cache.heap.modify_self p (·.setDirty false))⟩
    · exact ⟨.refl h, Bool.eq_false_of_not_eq_true hd⟩
  split_ifs with hf
  · have hf₁ : (s₁.cache.get p).friendDirty = true := by
      rw [hs₁]
      split_ifs
      · exact (s.cache.get_modify_keeps UserCacheItem.friendDirty (p := p) (f := (·.setDirty false)) rfl p).trans hf
      · exact hf
    have h₂ := saves_friends eng h₁.inOrder ((h₁.remarked.findId i).trans hi) hf₁ (h₁.remarked.same p)
    have hclean := congrArg UserCacheItem.friendDirty (s₁.cache.heap.modify_self p (·.setFriendDirty false))
    exact ⟨h₁.trans h₂, h₂.dirty p hd₁, hclean⟩
  · exact ⟨h₁, hd₁, h₁.friendDirty p (Bool.eq_false_of_not_eq_true hf)⟩

/-! ### The loop -/

/-- The loop over the accounts that are still to be saved. -/
theorem saveLoop_saves (eng : Engine) : ∀ (l : List (UInt32 × Ptr)) (s : Store), InOrder s →
    (∀ e ∈ l, s.cache.findId e.1 = some e.2) →
    (∀ e ∈ l, (s.cache.get e.2).dirty = true → Writable (s.cache.get e.2)) →
    Saves s (l.foldl (fun s e => saveItem eng s e.2) s) ∧
      ∀ e ∈ l, Clean (l.foldl (fun s e => saveItem eng s e.2) s) e.2
  | [], s, h, _, _ => ⟨.refl h, fun e he => by cases he⟩
  | e :: l, s, h, hl, hw => by
    rw [List.foldl_cons]
    obtain ⟨h₁, hclean⟩ := saveItem_saves eng h (hl e List.mem_cons_self) (hw e List.mem_cons_self)
    obtain ⟨h₂, hrest⟩ := saveLoop_saves eng l _ h₁.inOrder
      (fun e' he' => (h₁.remarked.findId e'.1).trans (hl e' (List.mem_cons_of_mem _ he'))) fun e' he' hd => by
        have hold : (s.cache.get e'.2).dirty = true := by
          by_contra hno
          rw [h₁.dirty _ (Bool.eq_false_of_not_eq_true hno)] at hd
          cases hd
        exact h₁.remarked.writable (hw e' (List.mem_cons_of_mem _ he') hold)
    refine ⟨h₁.trans h₂, fun e' he' => ?_⟩
    rcases List.mem_cons.mp he' with rfl | he'
    · exact h₂.clean hclean
    · exact hrest e' he'

/-- What is marked can be written. -/
def Savable (s : Store) : Prop :=
  ∀ {i p}, s.cache.findId i = some p → (s.cache.get p).dirty = true → Writable (s.cache.get p)

/-- **`SaveToDB` changes no account, and afterwards the tables have all of them.** -/
theorem saveToDB_saves (eng : Engine) (h : InOrder s) (hw : Savable s) :
    Saves s (saveToDB eng s) ∧
      ∀ {i p}, (saveToDB eng s).cache.findId i = some p → Clean (saveToDB eng s) p := by
  have hfind : ∀ e ∈ s.cache.idMap, s.cache.findId e.1 = some e.2 := fun e he => h.keys.find_of_mem he
  obtain ⟨hsaves, hclean⟩ := saveLoop_saves eng s.cache.idMap s h hfind fun e he => hw (hfind e he)
  refine ⟨hsaves, fun {i p} hi => ?_⟩
  have hi : s.cache.findId i = some p := (hsaves.remarked.findId i).symm.trans hi
  obtain ⟨k, hmem, -⟩ := find_some hi
  exact hclean (k, p) hmem

/-! ### The next start -/

/-- The end of one server and the start of the next. -/
def reopen (eng : Engine) (s : Store) : Store := loadFromDB ⟨.new, (saveToDB eng s).db⟩

theorem nextUid_reopen_ne_zero (h : Sound s) : (loadFromDB ⟨.new, s.db⟩).cache.nextUid ≠ 0 := by
  show UInt32.ofInt (maxUserid s.db) + 1 ≠ 0
  rcases husers : s.db.users with _ | ⟨r, l⟩
  · rw [maxUserid, husers]
    decide
  · have hr : r ∈ s.db.users := by
      rw [husers]
      exact List.mem_cons_self
    obtain ⟨-, r', hr', hmax⟩ := maxUserid_spec hr
    have hlt : uid r' < s.cache.nextUid := h.rowBelow r' hr'
    rw [← hmax]
    show uid r' + 1 ≠ 0
    intro e
    have := congrArg UInt32.toNat e
    rw [UInt32.toNat_add, UInt32.toNat_one, UInt32.toNat_zero] at this
    have := UInt32.lt_iff_toNat_lt.mp hlt
    have := s.cache.nextUid.toNat_lt
    omega

theorem inOrder_loadFromDB {db : Database} (hdb : DbOk db) (hblobs : ∀ r ∈ db.users, rowCreds r ≠ none)
    (hnext : (loadFromDB ⟨.new, db⟩).cache.nextUid ≠ 0) (hlists : ListsHeld (loadFromDB ⟨.new, db⟩)) :
    InOrder (loadFromDB ⟨.new, db⟩) :=
  ⟨(indexed_loadFromDB hdb hnext).sound hblobs, hlists, List.Pairwise.nil, fun hi => by cases hi⟩

/-- A start over tables that have everything. -/
theorem InOrder.start (h : InOrder s) (hclean : ∀ {i p}, s.cache.findId i = some p → Clean s p) :
    InOrder (loadFromDB ⟨.new, s.db⟩) ∧ ∀ j, account (loadFromDB ⟨.new, s.db⟩) j = account s j := by
  have hrow : ∀ {i}, Covered s i → ∃ r ∈ s.db.users, uid r = i := by
    rintro i (hi | hr)
    · obtain ⟨p, hp⟩ := Option.ne_none_iff_exists'.mp hi
      obtain ⟨r, hr, hri, -⟩ := (h.tended hp).clean (hclean hp).1
      exact ⟨r, hr, hri⟩
    · exact hr
  have hnone : ∀ i, (loadFromDB ⟨.new, s.db⟩).cache.findId i = none := fun _ => rfl
  have hlists : ListsHeld (loadFromDB ⟨.new, s.db⟩) :=
    ⟨h.lists.listable, fun i j hj => .inr (hrow (h.lists.covered i j hj)), fun i hi => .inr (hrow (h.lists.owner i hi))⟩
  refine ⟨inOrder_loadFromDB h.sound.db h.sound.blobs (nextUid_reopen_ne_zero h.sound) hlists, fun j => ?_⟩
  rcases hj : s.cache.findId j with _ | p
  · simp only [account, hj, hnone]
    rfl
  · have ht := h.tended hj
    obtain ⟨r, hr, hri, hf⟩ := ht.clean (hclean hj).1
    rw [account_cached hj, account_row (s := loadFromDB ⟨.new, s.db⟩) h.sound.db (hnone j) hr hri, hf,
      ht.friendClean (hclean hj).2]
    rfl

/-- **A restart changes no account**, if what is marked can be written. -/
theorem reopen_spec (eng : Engine) (h : InOrder s) (hw : Savable s) :
    InOrder (reopen eng s) ∧ ∀ j, account (reopen eng s) j = account s j := by
  obtain ⟨hsaves, hclean⟩ := saveToDB_saves eng h hw
  obtain ⟨hin, hacc⟩ := hsaves.inOrder.start hclean
  exact ⟨hin, fun j => (hacc j).trans (hsaves.account j)⟩

/-- **Every account is found by its id**, and with it come the accounts it needs. -/
theorem found_again (env : Env) (h : InOrder s) {a : Account} (ha : account s i = some a) {k : ℕ}
    (hk : s.db.users.length < k) :
    ∃ q s', lookup env k s (.id i) = some (some q, s') ∧ s'.cache.findId i = some q ∧ account s' i = some a := by
  have hans : Answered env s (.id i) := .inr (exact_id _ _ _)
  obtain ⟨x, s', hl⟩ : ∃ x s', lookup env k s (.id i) = some (x, s') := by
    rcases hnone : s.cache.findKey (.id i) with _ | p
    · have hp : Provides s (Covered s) := ⟨fun _ => id, fun i _ _ j hj => h.lists.covered i j hj⟩
      obtain ⟨r, hr, rfl⟩ := row_of_account ha hnone
      rw [lookup_uncached k _ hnone]
      refine loadUser_total env k s _ h.sound.db h.sound.coherent (exact_id _ _ _) hnone hp (length_whereExpr_id _)
        (fun r _ _ j hj => h.lists.covered _ j hj) (.inr ⟨r, hr, decide_eq_true (h.sound.db.toNat_uid hr).symm⟩) ?_
      exact (List.length_filter_le _ _).trans_lt hk
    · exact ⟨_, _, lookup_cached env k _ hnone⟩
  obtain ⟨-, hacc⟩ := h.look hans hl
  obtain ⟨q, rfl, hq⟩ := (answers_of_answered h.sound.db h.sound.coherent hans hl).of_id
  exact ⟨q, s', hl, hq, (hacc i).trans ha⟩

end Blitzd.Plugins.Ledger
