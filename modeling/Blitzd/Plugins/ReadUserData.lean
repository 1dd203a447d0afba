import Mathlib.Algebra.Order.BigOperators.Group.List
import Mathlib.Data.List.Forall2
import Blitzd.Cache.DataMap
import Blitzd.Cache.UserLookup
import Blitzd.Core.Client
import Blitzd.Packets.BNet
import Blitzd.Plugins.LogonRun
import Blitzd.Utils.Stream

/-! # Queries for user data (`ReadUserData`)

A client asks for the values of `kcount` keys of `acount` accounts and gets them all in one packet. The
counts are words of the request and nothing bounds their product: a request of two thousand bytes is
answered with more than 65535 (`reply_not_delimited`). -/

namespace Blitzd.Plugins.ReadUserData

open Blitzd.Lib Blitzd.Lib.Bytes Blitzd.Lib.KeyMap Blitzd.Utils Blitzd.Utils.CString Blitzd.Cache Blitzd.Core
open Blitzd.Cache.UserCacheItem (getData)
open Blitzd.Packets Blitzd.Plugins.LogonRun

/-! ### The handler -/

/-- `in >> x` for a `uint` that held `junk`. -/
def readUInt (s : Stream) (junk : Buf 4) : UInt32 × Stream :=
  let r := s.readBuf junk
  (UInt32.ofNat (ofLE r.1.bytes), r.2)

/-- A loop over `n` names; an empty one where `stop` holds ends the handler. -/
def readNames (stop : ℕ → Bool) : (n i : ℕ) → Stream → Option ({l : List Text // l.length = n} × Stream)
  | 0, _, s => some (⟨[], rfl⟩, s)
  | n + 1, i, s =>
    let r := s.readStr
    if r.1 = [] ∧ stop i then none
    else (readNames stop n (i + 1) r.2).map fun x => (⟨r.1 :: x.1, congrArg (· + 1) x.1.2⟩, x.2)

/-- The values of one account. -/
def readRow (p : Ptr) : (keys : List Text) → Store → {l : List Text // l.length = keys.length} × Store
  | [], s => (⟨[], rfl⟩, s)
  | k :: keys, s =>
    if k = [] then
      let r := readRow p keys s
      (⟨[] :: r.1, congrArg (· + 1) r.1.2⟩, r.2)
    else
      let d := getData (s.cache.get p) k
      let r := readRow p keys { s with cache := s.cache.modify p fun _ => d.2 }
      (⟨d.1 :: r.1, congrArg (· + 1) r.1.2⟩, r.2)

/-- A value for each key, of each of `n` accounts. -/
abbrev Rows (keys : List Text) (n : ℕ) :=
  {l : List (List Text) // l.length = n ∧ ∀ row ∈ l, row.length = keys.length}

def Rows.cons {keys : List Text} {n : ℕ} (row : {l : List Text // l.length = keys.length})
    (l : Rows keys n) : Rows keys (n + 1) :=
  ⟨row.1 :: l.1, congrArg (· + 1) l.2.1, by
    rintro x (_ | ⟨_, hx⟩)
    · exact row.2
    · exact l.2.2 x hx⟩

/-- The loop over the accounts. An empty name is the client's own account, an account that is not there has
empty values. -/
def readRows (env : Env) (user : Option Ptr) (keys : List Text) :
    (names : List Text) → Store → Option (Rows keys names.length × Store)
  | [], s => some (⟨[], rfl, by simp⟩, s)
  | a :: names, s =>
    match (if a = [] then some (user, s) else lookup env env.depth s (.name a)) with
    | none => none
    | some (none, s1) =>
      (readRows env user keys names s1).map fun r => (Rows.cons ⟨keys.map fun _ => [], List.length_map _⟩ r.1, r.2)
    | some (some p, s1) =>
      (readRows env user keys names (readRow p keys s1).2).map fun r =>
        (Rows.cons (readRow p keys s1).1 r.1, r.2)

/-- What the members of the packet held before they are read. -/
structure Junk where
  acount : Buf 4
  kcount : Buf 4
  token : Buf 4

/-- A request, with as many names and keys as it says. -/
structure Query where
  acount : UInt32
  kcount : UInt32
  token : UInt32
  anames : {l : List Text // l.length = acount.toNat}
  knames : {l : List Text // l.length = kcount.toNat}

/-- The two loops over the names. -/
def readQueryNames (acount kcount token : UInt32) (s : Stream) : Option Query :=
  (readNames (fun i => i > 0) acount.toNat 0 s).bind fun a =>
    (readNames (fun i => i < kcount.toNat - 1) kcount.toNat 0 a.2).map fun k => ⟨acount, kcount, token, a.1, k.1⟩

def readQuery (junk : Junk) (payload : List Byte) : Option Query :=
  let acount := readUInt (Stream.ofBytes payload) junk.acount
  let kcount := readUInt acount.2 junk.kcount
  let token := readUInt kcount.2 junk.token
  readQueryNames acount.1 kcount.1 token.1 token.2

/-- The packet with the values found. -/
def Query.reply (q : Query) (r : Rows q.knames.1 q.anames.1.length) : UserDataReply where
  acount := q.acount
  kcount := q.kcount
  token := q.token
  result := r.1
  rows := r.2.1.trans q.anames.2
  cols row h := (r.2.2 row h).trans q.knames.2

/-- `ReadUserData::Process`: the packet it builds, if any; `none` when a lookup does not return. -/
def readUserData (env : Env) (c : ConnId) (junk : Junk) (payload : List Byte) (w : Server) :
    Option (Option UserDataReply × Server) :=
  match readQuery junk payload with
  | none => some (none, w)
  | some q => (readRows env (w.client c).user q.knames.1 q.anames.1 w.store).map fun r =>
      (some (q.reply r.1), { w with store := r.2 })

/-! ### Requests are read back -/

theorem readUInt_after (l r : List Byte) (x : UInt32) (junk : Buf 4) :
    readUInt (.after l (toLE 4 x.toNat ++ r)) junk = (x, .after (l ++ toLE 4 x.toNat) r) := by
  have hval : ofLE (leBuf 4 x.toNat).bytes = x.toNat := ofLE_toLE_of_lt x.toNat_lt
  rw [readUInt, show toLE 4 x.toNat = (leBuf 4 x.toNat).bytes from rfl, Stream.readBuf_after, hval, UInt32.ofNat_toNat]

/-- The names, each with its zero byte. -/
def packNames (names : List Text) : List Byte := names.flatMap fun v => v ++ [0]

theorem readNames_after (stop : ℕ → Bool) : ∀ (names : List Text) {n : ℕ} (i : ℕ) (l r : List Byte),
    names.length = n → (∀ v ∈ names, v ≠ [] ∧ NulFree v) →
      ∃ x, x.1 = names ∧ readNames stop n i (.after l (packNames names ++ r)) =
        some (x, .after (l ++ packNames names) r) := by
  intro names
  induction names with
  | nil =>
    rintro n i l r rfl _
    exact ⟨⟨[], rfl⟩, rfl, by simp [readNames, packNames]⟩
  | cons v names ih =>
    intro n i l r hn hok
    obtain ⟨n, rfl⟩ : ∃ k, n = k + 1 := ⟨names.length, hn.symm⟩
    obtain ⟨hne, hfree⟩ := hok v List.mem_cons_self
    have hpack : packNames (v :: names) = v ++ [0] ++ packNames names := List.flatMap_cons
    obtain ⟨x, hx, hnext⟩ := ih (i + 1) (l ++ (v ++ [0])) r (Nat.succ.inj hn)
      fun u hu => hok u (List.mem_cons_of_mem _ hu)
    refine ⟨⟨v :: x.1, congrArg (· + 1) x.2⟩, congrArg (v :: ·) hx, ?_⟩
    rw [hpack, List.append_assoc, readNames, Stream.readStr_after l _ hfree]
    dsimp only
    rw [if_neg (fun h => hne h.1), hnext, Option.map_some, List.append_assoc]

/-- A request for the keys of the accounts. -/
def request (acount kcount token : UInt32) (anames knames : List Text) : List Byte :=
  toLE 4 acount.toNat ++ toLE 4 kcount.toNat ++ toLE 4 token.toNat ++ packNames anames ++ packNames knames

theorem readQuery_request (junk : Junk) {acount kcount token : UInt32} {anames knames : List Text}
    (ha : anames.length = acount.toNat) (hk : knames.length = kcount.toNat)
    (hnames : ∀ v ∈ anames, v ≠ [] ∧ NulFree v) (hkeys : ∀ v ∈ knames, v ≠ [] ∧ NulFree v) :
    readQuery junk (request acount kcount token anames knames) =
      some ⟨acount, kcount, token, ⟨anames, ha⟩, ⟨knames, hk⟩⟩ := by
  have hrequest : Stream.ofBytes (request acount kcount token anames knames) = .after [] (toLE 4 acount.toNat ++
      (toLE 4 kcount.toNat ++ (toLE 4 token.toNat ++ (packNames anames ++ (packNames knames ++ []))))) := by
    simp only [Stream.ofBytes_eq, request, List.append_assoc, List.append_nil]
  obtain ⟨x, rfl, hx⟩ := readNames_after (fun i => i > 0) anames 0
    ([] ++ toLE 4 acount.toNat ++ toLE 4 kcount.toNat ++ toLE 4 token.toNat) (packNames knames ++ []) ha hnames
  obtain ⟨y, rfl, hy⟩ := readNames_after (fun i => i < kcount.toNat - 1) knames 0
    ([] ++ toLE 4 acount.toNat ++ toLE 4 kcount.toNat ++ toLE 4 token.toNat ++ packNames x.1) [] hk hkeys
  unfold readQuery
  simp only [hrequest, readUInt_after]
  rw [readQueryNames, hx, Option.bind_some, hy, Option.map_some]

/-! ### A request is answered when the accounts are in the cache -/

theorem readRow_nameMap (p : Ptr) : ∀ (keys : List Text) (s : Store),
    (readRow p keys s).2.cache.nameMap = s.cache.nameMap := by
  intro keys
  induction keys with
  | nil => exact fun _ => rfl
  | cons k keys ih =>
    intro s
    rw [readRow]
    split_ifs
    · exact ih s
    · exact ih _

theorem readRows_isSome (env : Env) (user : Option Ptr) (keys : List Text) : ∀ (names : List Text) (s : Store),
    (∀ a ∈ names, (s.cache.findName a).isSome) → (readRows env user keys names s).isSome := by
  intro names
  induction names with
  | nil => exact fun _ _ => rfl
  | cons a names ih =>
    intro s hcached
    have hrest : ∀ s' : Store, s'.cache.nameMap = s.cache.nameMap →
        (readRows env user keys names s').isSome := by
      intro s' hs'
      refine ih s' fun b hb => ?_
      rw [UserCache.findName, hs']
      exact hcached b (List.mem_cons_of_mem _ hb)
    obtain ⟨p, hp⟩ := Option.isSome_iff_exists.mp (hcached a List.mem_cons_self)
    have hfound : ∃ q, (if a = [] then some (user, s) else lookup env env.depth s (.name a)) = some (q, s) := by
      split_ifs
      · exact ⟨user, rfl⟩
      · exact ⟨_, lookup_cached env env.depth (.name a) hp⟩
    obtain ⟨q, hq⟩ := hfound
    rw [readRows, hq]
    rcases q with _ | q
    · rw [Option.isSome_map]
      exact hrest s rfl
    · rw [Option.isSome_map]
      exact hrest _ (readRow_nameMap q keys s)

/-- **A request with all its names is answered** when the accounts it names are in the cache. -/
theorem readUserData_request (env : Env) (c : ConnId) (junk : Junk) (w : Server) {acount kcount token : UInt32}
    {anames knames : List Text} (ha : anames.length = acount.toNat) (hk : knames.length = kcount.toNat)
    (hnames : ∀ v ∈ anames, v ≠ [] ∧ NulFree v) (hkeys : ∀ v ∈ knames, v ≠ [] ∧ NulFree v)
    (hcached : ∀ v ∈ anames, (w.store.cache.findName v).isSome) :
    ∃ r w', readUserData env c junk (request acount kcount token anames knames) w = some (some r, w') ∧
      r.acount = acount ∧ r.kcount = kcount := by
  obtain ⟨rows, hrows⟩ := Option.isSome_iff_exists.mp
    (readRows_isSome env (w.client c).user knames anames w.store hcached)
  rw [readUserData, readQuery_request junk ha hk hnames hkeys]
  dsimp only
  rw [hrows]
  exact ⟨_, _, rfl, rfl, rfl⟩

/-! ### What is answered -/

/-- `t` has the names, ids and values of `s`. -/
structure SameValues (s t : Store) : Prop where
  nameMap : t.cache.nameMap = s.cache.nameMap
  id : ∀ q, (t.cache.get q).id = (s.cache.get q).id
  getData : ∀ q k, ((t.cache.get q).getData k).1 = ((s.cache.get q).getData k).1

theorem SameValues.refl (s : Store) : SameValues s s := ⟨rfl, fun _ => rfl, fun _ _ => rfl⟩

theorem SameValues.trans {s t u : Store} (h : SameValues s t) (h' : SameValues t u) : SameValues s u :=
  ⟨h'.nameMap.trans h.nameMap, fun q => (h'.id q).trans (h.id q), fun q k => (h'.getData q k).trans (h.getData q k)⟩

/-- The account `q` that a name stands for, all names being in the cache; the empty one is the client's own. -/
def Resolves (s : Store) (user : Option Ptr) (a : Text) (q : Option Ptr) : Prop :=
  if a = [] then q = user
  else ∃ p, s.cache.findName a = some p ∧ q = if (s.cache.get p).isExist then some p else none

theorem SameValues.resolves {s t : Store} (h : SameValues s t) {user q : Option Ptr} {a : Text}
    (hr : Resolves s user a q) : Resolves t user a q := by
  unfold Resolves UserCache.findName UserCacheItem.isExist at hr ⊢
  split_ifs at hr ⊢
  · exact hr
  · simpa only [h.nameMap, h.id] using hr

theorem Resolves.lookup {s : Store} {user q : Option Ptr} {a : Text} (h : Resolves s user a q) (env : Env) :
    (if a = [] then some (user, s) else lookup env env.depth s (.name a)) = some (q, s) := by
  unfold Resolves at h
  split_ifs at h ⊢
  · rw [h]
  · obtain ⟨p, hp, rfl⟩ := h
    exact lookup_cached env env.depth (.name a) hp

/-- Every value takes a byte. -/
theorem size_ge (r : UserDataReply) : r.acount.toNat * r.kcount.toNat ≤ r.size := by
  have hrow : ∀ row ∈ r.result, r.kcount.toNat ≤ (row.map fun v => v.length + 1).sum := by
    intro row hrow
    rw [← r.cols row hrow]
    calc row.length = (row.map fun _ => 1).sum := by simp
      _ ≤ (row.map fun v => v.length + 1).sum := List.sum_le_sum fun v _ => by omega
  rw [← r.rows, UserDataReply.size]
  calc r.result.length * r.kcount.toNat = (r.result.map fun _ => r.kcount.toNat).sum := by simp
    _ ≤ (r.result.map fun row => (row.map fun v => v.length + 1).sum).sum := List.sum_le_sum hrow

/-- One account, asked for many times over. -/
def manyNames : List Text := List.replicate 256 (str "alice")

def manyKeys : List Text := List.replicate 256 (str "k")

/-- **256 accounts and 256 keys.** A request of 2060 bytes, before login, is answered with at least 65552
bytes. -/
theorem reply_not_delimited : Start duo ∧ (duo.client 0).stage = .bnet ∧
    ∃ junk payload r w', payload.length = 2060 ∧
      readUserData UserLookup.idleEnv 0 junk payload duo = some (some r, w') ∧
      ¬ (Packet.readUserData r).Delimited := by
  have hcached : ∀ v ∈ manyNames, (duo.store.cache.findName v).isSome := by
    intro v hv
    rw [List.eq_of_mem_replicate hv]
    decide
  have hnames : ∀ v ∈ manyNames, v ≠ [] ∧ NulFree v := by
    intro v hv
    rw [List.eq_of_mem_replicate hv]
    exact ⟨by decide, by decide⟩
  have hkeys : ∀ v ∈ manyKeys, v ≠ [] ∧ NulFree v := by
    intro v hv
    rw [List.eq_of_mem_replicate hv]
    exact ⟨by decide, by decide⟩
  have ha : manyNames.length = (256 : UInt32).toNat := List.length_replicate
  have hk : manyKeys.length = (256 : UInt32).toNat := List.length_replicate
  let junk : Junk := ⟨Buf.zero 4, Buf.zero 4, Buf.zero 4⟩
  obtain ⟨r, w', hr, hacount, hkcount⟩ :=
    readUserData_request UserLookup.idleEnv 0 junk duo ha hk hnames hkeys hcached
  refine ⟨start_duo, rfl, junk, request 256 256 0 manyNames manyKeys, r, w', by decide +kernel, hr, ?_⟩
  have hsize := size_ge r
  rw [hacount, hkcount, show (256 : UInt32).toNat = 256 from rfl] at hsize
  intro hd
  have hlt := hd.size_lt rfl
  rw [Packet.size] at hlt
  omega

end Blitzd.Plugins.ReadUserData
