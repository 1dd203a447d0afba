import Mathlib.Data.List.MinMax
import Blitzd.Storage.Sqlite
import Blitzd.Cache.UserItem

/-! # The account cache (`UserCache`)

Accounts are found by name (ignoring case) and by user id. A lookup that misses asks the storage
(`loadUser`): one row is added to both maps with its stored friends, which are looked up by id in
turn; no row leaves a placeholder without id under the name; several rows are deleted.

`loadUser` calls itself through the friends, so it is given how deep calls may nest. `none` is a run
that does not return a result: the nesting is exhausted, the condition does not fit its array of 128
bytes, or a string is built from a null name (a missing id). -/

namespace Blitzd.Cache

open Blitzd.Lib Blitzd.Lib.Bytes Blitzd.Lib.KeyMap Blitzd.Lib.Numerals Blitzd.Utils.CString
open Blitzd.Storage.Sqlite

/-- What the process runs with: the SQL engine, the bytes `_passwd` of a new account happens to hold,
and how deep calls may nest. -/
structure Env where
  eng : Engine
  junk : Ptr → Buf 20
  depth : ℕ

/-- Names are compared by `CompareInCaseEqual`. -/
def nameEq : KeyEq Text := ⟨strcmpiEq, strcmpiEq_refl, strcmpiEq_symm, strcmpiEq_trans⟩

structure UserCache where
  heap : Heap UserCacheItem
  nextUid : UInt32
  count : UInt32
  nameMap : List (Text × Ptr)
  idMap : List (UInt32 × Ptr)

/-- A cache and the database behind it. -/
structure Store where
  cache : UserCache
  db : Database

def Store.setHeap (s : Store) (h : Heap UserCacheItem) : Store :=
  { s with cache := { s.cache with heap := h } }

/-- What an account is looked up by. -/
inductive Key
  | name (n : Text)
  | id (i : UInt32)
deriving DecidableEq

namespace UserCache

/-- `UserCache()`. -/
def new : UserCache := ⟨Heap.empty, 1, 0, [], []⟩

def get (c : UserCache) (p : Ptr) : UserCacheItem := c.heap.cell p

def modify (c : UserCache) (p : Ptr) (f : UserCacheItem → UserCacheItem) : UserCache :=
  { c with heap := c.heap.modify p f }

theorem get_modify (c : UserCache) (p q : Ptr) (f : UserCacheItem → UserCacheItem) :
    (c.modify p f).get q = if q = p then f (c.get p) else c.get q := Heap.cell_modify _ _ _ _

theorem get_modify_keeps {β : Type*} (g : UserCacheItem → β) (c : UserCache) {p : Ptr}
    {f : UserCacheItem → UserCacheItem} (hf : g (f (c.get p)) = g (c.get p)) (q : Ptr) :
    g ((c.modify p f).get q) = g (c.get q) := c.heap.modify_keeps g hf q

def findName (c : UserCache) (n : Text) : Option Ptr := find nameEq c.nameMap n

def findId (c : UserCache) (i : UInt32) : Option Ptr := find KeyEq.ofEq c.idMap i

/-- The entry of a key in its map. -/
def findKey (c : UserCache) : Key → Option Ptr
  | .name n => c.findName n
  | .id i => c.findId i

/-- The id `Add` gives. -/
def addId (c : UserCache) (uid : UInt32) : UInt32 := if uid = 0 then c.nextUid else uid

/-- `Add`; allocation does not fail. -/
def add (env : Env) (c : UserCache) (name : Text) (uid : UInt32) : Ptr × UserCache :=
  let p := c.heap.brk
  let id := c.addId uid
  (p, {
    heap := c.heap.alloc ((UserCacheItem.new name (env.junk p)).setUserId id)
    nextUid := if uid = 0 then c.nextUid + 1
      else if uid ≥ c.nextUid then uid + 1 else c.nextUid
    count := if id > 0 then c.count + 1 else c.count
    nameMap := insert nameEq c.nameMap name p
    idMap := if id > 0 then insert KeyEq.ofEq c.idMap id p else c.idMap })

/-- The entry for a name that has no account. -/
def placeholder (env : Env) (c : UserCache) (name : Text) : UserCache :=
  { c with
    heap := c.heap.alloc (UserCacheItem.new name (env.junk c.heap.brk))
    nameMap := insert nameEq c.nameMap name c.heap.brk }

end UserCache

/-! ### Loading -/

/-- The condition `LoadUser` prints into `whereexpr`. -/
def whereExpr : Key → Text
  | .name n => str "username=\"" ++ (cstr n ++ [quote])
  | .id i => str "userid=" ++ decimal i.toNat

/-- A blob of at least `n` bytes as an array. -/
def blob? (n : ℕ) (b : List Byte) : Option (Buf n) :=
  if h : n ≤ b.length then some ⟨b.take n, by simp [h]⟩ else none

/-- A blob column set when it is long enough. -/
def setBlob {n : ℕ} (set : UserCacheItem → Buf n → UserCacheItem) (b : List Byte)
    (u : UserCacheItem) : UserCacheItem :=
  match blob? n b with
  | some s => set u s
  | none => u

/-- The columns of a row put into its account. -/
def fillRow (row : UserRow) (u : UserCacheItem) : UserCacheItem :=
  let u := setBlob .setSalt row.salt u
  let u := setBlob .setVerifier row.verifier u
  let u := setBlob .setPasswd row.passwd u
  (((u.setMail (cstr row.mail)).setFlag (UInt32.ofInt row.flag)).setDataMap row.data).setDirty false

/-- The stored friend list as user ids; bytes after the last full word are ignored. -/
def friendIds : List Byte → List UInt32
  | a :: b :: c :: d :: l => UInt32.ofNat (ofLE [a, b, c, d]) :: friendIds l
  | _ => []

/-- The ids stored as the friends of user `id`. -/
def storedFriends (db : Database) (id : UInt32) : List UInt32 :=
  match getMatchFriends db id.toNat with
  | f :: _ => friendIds f.friendlist
  | [] => []

section Load

variable (env : Env) (load : Store → Key → Option (Option Ptr × Store))

/-- `operator[]`, with what loads a missing key. -/
def lookupWith (s : Store) (key : Key) : Option (Option Ptr × Store) :=
  match s.cache.findKey key with
  | some p => some (if (s.cache.get p).isExist then some p else none, s)
  | none => load s key

/-- The loop over the stored friends of `self`. -/
def loadFriends (self : Ptr) : List UInt32 → Store → Option Store
  | [], s => some s
  | i :: l, s =>
    match lookupWith load s (.id i) with
    | none => none
    | some (f, s1) =>
      loadFriends self l (s1.setHeap (addFriend s1.cache.heap self f).1)

/-- The account of the single row found, before its friends are loaded. -/
def addRow (s : Store) (row : UserRow) : Ptr × Store :=
  let r := s.cache.add env (cstr row.username) (UInt32.ofInt row.userid)
  (r.1, { s with cache := r.2.modify r.1 (fillRow row) })

/-- No row found, or more than one: those are removed, and both ways a placeholder is left. -/
def loadMiss (s : Store) (key : Key) (rows : List UserRow) : Option (Option Ptr × Store) :=
  let db := if rows.length > 1 then removeMatchUsers env.eng s.db (whereExpr key) else s.db
  match key with
  | .name n => some (none, ⟨s.cache.placeholder env (cstr n), db⟩)
  | .id _ => none

end Load

/-- `LoadUser`. -/
def loadUser (env : Env) : ℕ → Store → Key → Option (Option Ptr × Store)
  | 0, _, _ => none
  | k + 1, s, key =>
    if 128 ≤ (whereExpr key).length then none
    else match getMatchUsers env.eng s.db (whereExpr key) with
      | [row] =>
        let r := addRow env s row
        (loadFriends (loadUser env k) r.1 (storedFriends s.db (UInt32.ofInt row.userid)) r.2).map
          fun s' => (some r.1, s')
      | rows => loadMiss env s key rows

/-- `operator[]`. -/
def lookup (env : Env) (k : ℕ) (s : Store) (key : Key) : Option (Option Ptr × Store) :=
  lookupWith (loadUser env k) s key

theorem lookup_cached (env : Env) {s : Store} {p : Ptr} (k : ℕ) (key : Key)
    (h : s.cache.findKey key = some p) :
    lookup env k s key = some (if (s.cache.get p).isExist then some p else none, s) := by
  unfold lookup lookupWith; rw [h]

theorem lookup_uncached {env : Env} {s : Store} (k : ℕ) (key : Key)
    (h : s.cache.findKey key = none) : lookup env k s key = loadUser env k s key := by
  unfold lookup lookupWith; rw [h]

/-- The two ways a load returns. -/
theorem loadUser_cases {env : Env} {k : ℕ} {s s' : Store} {key : Key} {a : Option Ptr}
    (h : loadUser env k s key = some (a, s')) :
    (∃ j r, k = j + 1 ∧ getMatchUsers env.eng s.db (whereExpr key) = [r] ∧
      a = some (addRow env s r).1 ∧
      loadFriends (loadUser env j) (addRow env s r).1 (storedFriends s.db (UInt32.ofInt r.userid))
        (addRow env s r).2 = some s') ∨
    (∃ n, key = .name n ∧ (getMatchUsers env.eng s.db (whereExpr key)).length ≠ 1 ∧ a = none ∧
      s' = ⟨s.cache.placeholder env (cstr n),
        if (getMatchUsers env.eng s.db (whereExpr key)).length > 1
        then removeMatchUsers env.eng s.db (whereExpr key) else s.db⟩) := by
  have hmiss : ∀ {rows}, loadMiss env s key rows = some (a, s') → ∃ n, key = .name n ∧ a = none ∧
      s' = ⟨s.cache.placeholder env (cstr n), if rows.length > 1
        then removeMatchUsers env.eng s.db (whereExpr key) else s.db⟩ := by
    intro rows hm
    unfold loadMiss at hm
    rcases key with n | i
    · simp only [Option.some.injEq, Prod.mk.injEq] at hm
      exact ⟨n, rfl, hm.1.symm, hm.2.symm⟩
    · cases hm
  rcases k with _ | j
  · cases h
  rw [loadUser] at h
  split_ifs at h with hlen
  rcases hrows : getMatchUsers env.eng s.db (whereExpr key) with _ | ⟨r, _ | ⟨r', l⟩⟩
  · rw [hrows] at h
    obtain ⟨n, hn, ha, hs⟩ := hmiss h
    exact Or.inr ⟨n, hn, by simp, ha, hs⟩
  · rw [hrows] at h
    simp only [Option.map_eq_some_iff, Prod.mk.injEq] at h
    obtain ⟨s2, hl, ha, rfl⟩ := h
    exact Or.inl ⟨j, r, rfl, rfl, ha.symm, hl⟩
  · rw [hrows] at h
    obtain ⟨n, hn, ha, hs⟩ := hmiss h
    exact Or.inr ⟨n, hn, by simp, ha, hs⟩

/-! ### Start and save -/

/-- `MAX(userid)`; `NULL` is read as `0`. -/
def maxUserid (db : Database) : ℤ := ((db.users.map UserRow.userid).max?).getD 0

/-- `LoadFromDB`. The second query appends to the result of the first, and the first row is read
again. -/
def loadFromDB (s : Store) : Store :=
  let result := [maxUserid s.db]
  let next := UInt32.ofInt (result.headD 0) + 1
  let result := result ++ [(s.db.users.length : ℤ)]
  { s with cache := { s.cache with nextUid := next, count := UInt32.ofInt (result.headD 0) } }

/-- The columns `SaveToDB` writes for an account. -/
def userData (u : UserCacheItem) : List DataDef :=
  [.int u.id.toNat, .string (cstr u.username), .binary u.salt.bytes, .binary u.verifier.bytes,
    .binary u.passwd.bytes, .string (cstr u.mail), .int u.flag.toNat, .binary u.buildDataMap]

/-- The columns `SaveToDB` writes for a friend list. -/
def friendData (c : UserCache) (u : UserCacheItem) : List DataDef :=
  [.int u.id.toNat, .binary (u.friendList.flatMap fun f => toLE 4 (c.get f.user).id.toNat)]

/-- One account of the loop in `SaveToDB`. -/
def saveItem (eng : Engine) (s : Store) (p : Ptr) : Store :=
  let u := s.cache.get p
  let s1 : Store := if u.dirty then
      ⟨s.cache.modify p (·.setDirty false),
        doExec eng s.db (setText (str "users") userCols (userData u))⟩
    else s
  if u.friendDirty then
    ⟨s1.cache.modify p (·.setFriendDirty false),
      doExec eng s1.db (setText (str "friends") friendCols (friendData s1.cache u))⟩
  else s1

/-- `SaveToDB`. -/
def saveToDB (eng : Engine) (s : Store) : Store :=
  s.cache.idMap.foldl (fun s e => saveItem eng s e.2) s

/-! ### The maps after `Add` -/

namespace UserCache

variable (env : Env) (c : UserCache) (name : Text) (uid : UInt32)

@[simp] theorem findId_add_self (h : c.addId uid ≠ 0) :
    (c.add env name uid).2.findId (c.addId uid) = some c.heap.brk := by
  have hpos : c.addId uid > 0 := UInt32.pos_iff_ne_zero.mpr h
  show find _ (if c.addId uid > 0 then _ else _) _ = _
  rw [if_pos hpos]
  exact find_insert_of_eqv (KeyEq.ofEq.refl _) _ _

theorem findId_add_ne {i : UInt32} (h : i ≠ c.addId uid) :
    (c.add env name uid).2.findId i = c.findId i := by
  show find _ (if c.addId uid > 0 then _ else _) _ = _
  split_ifs with hpos
  · exact find_insert_of_ne (by simpa using h.symm) _ _
  · rfl

theorem findName_add_self {n : Text} (h : strcmpiEq name n = true) :
    (c.add env name uid).2.findName n = some c.heap.brk :=
  find_insert_of_eqv (e := nameEq) h _ _

theorem findName_add_ne {n : Text} (h : strcmpiEq name n = false) :
    (c.add env name uid).2.findName n = c.findName n :=
  find_insert_of_ne (e := nameEq) h _ _

end UserCache

end Blitzd.Cache
