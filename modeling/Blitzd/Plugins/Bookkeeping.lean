import Blitzd.Plugins.Admission
import Blitzd.Plugins.Deeds

/-! # What packets do to accounts

All that the server does with its accounts while it serves packets are deeds: whatever the packet of whatever suite, the
account store goes from one lookup, change, friend or new account to the next (`process_deeds`). The names that are looked
up are those the packet asks for (`Asks`), and the accounts that are changed are at hand: a lookup has found them, or a
connection acts for them (`Proper`).

So for the server as a whole it is enough that the tables answer for the names that packets ask for, and that ids do not
run out: then the accounts go through a run of the book (`served_posted`), and none is lost (`served_kept`). -/

namespace Blitzd.Plugins.Bookkeeping

open Blitzd.Lib Blitzd.Lib.Bytes Blitzd.Utils Blitzd.Utils.CString Blitzd.Cache Blitzd.Core Blitzd.Packets
open Blitzd.Plugins.Logon Blitzd.Plugins.Suites Blitzd.Plugins.Ledger
open Blitzd.Storage.Sqlite (Engine Database)
open Blitzd.Cache.UserLookup (idleEnv exact_of_plain)
open Blitzd.Plugins.Accounts (Answered)

variable {env : Env} {st : Settings} {am : Ambient} {s s' s'' : Store} {w w' w₀ : World} {c : ConnId}
  {payload : List Byte} {p q : Ptr} {K K' : Set Ptr} {N N' : Store → Text → Prop}
  {hist older : List (Entry Store Deed)}

/-! ### Deeds to accounts that are at hand -/

/-- Accounts that were at hand before, and those that lookups have found. -/
def AtHand (env : Env) (K : Set Ptr) (hist : List (Entry Store Deed)) (p : Ptr) : Prop :=
  p ∈ K ∨ ∃ x ∈ hist, ∃ key, x.event = .look key ∧ lookup env env.depth x.before key = some (some p, x.after)

/-- Deeds of a server that runs, with texts as they come out of packets. `N s n`: a packet that came when the store was
`s` asks for the name `n`. -/
def Proper (env : Env) (K : Set Ptr) (N : Store → Text → Prop) (older : List (Entry Store Deed)) (s : Store) :
    Deed → Prop
  | .look key => ∃ s' n, key = .name n ∧ N s' n
  | .change p x => AtHand env K older p ∧ x.Texts
  | .befriend p q => AtHand env K older p ∧ AtHand env K older q
  | .create n _ => N s n ∧ NulFree n
  | .restart => False

/-- The store after such deeds. -/
def Deeds (env : Env) (K : Set Ptr) (N : Store → Text → Prop) (s s' : Store) : Prop :=
  ∃ hist, Run (Deed.Step env) s hist s' ∧ Allowed (Proper env K N) hist

theorem Proper.mono {x : Deed} (h : Proper env K' N' hist s x) (hall : ∀ p, AtHand env K' hist p → AtHand env K older p)
    (hN : ∀ s n, N' s n → N s n) : Proper env K N older s x := by
  cases x with
  | look key =>
    obtain ⟨s', n, hkey, hn⟩ := h
    exact ⟨s', n, hkey, hN s' n hn⟩
  | change p x => exact ⟨hall p h.1, h.2⟩
  | befriend p q => exact ⟨hall p h.1, hall q h.2⟩
  | create n f => exact ⟨hN s n h.1, h.2⟩
  | restart => exact h

theorem atHand_append (hK : ∀ p ∈ K', AtHand env K older p) (h : AtHand env K' hist p) :
    AtHand env K (hist ++ older) p := by
  rcases h with hp | ⟨y, hy, hlook⟩
  · rcases hK p hp with hp | ⟨y, hy, hlook⟩
    · exact .inl hp
    · exact .inr ⟨y, List.mem_append_right hist hy, hlook⟩
  · exact .inr ⟨y, List.mem_append_left older hy, hlook⟩

theorem allowed_append (hK : ∀ p ∈ K', AtHand env K older p) (hN : ∀ s n, N' s n → N s n)
    (ho : Allowed (Proper env K N) older) :
    ∀ {hist : List (Entry Store Deed)}, Allowed (Proper env K' N') hist → Allowed (Proper env K N) (hist ++ older)
  | [], _ => ho
  | _ :: _, h => ⟨h.1.mono (fun _ => atHand_append hK) hN, allowed_append hK hN ho h.2⟩

namespace Deeds

theorem refl (env : Env) (K : Set Ptr) (N : Store → Text → Prop) (s : Store) : Deeds env K N s s := ⟨[], .nil, trivial⟩

theorem of_eq (h : s' = s) : Deeds env K N s s' := by
  rw [h]
  exact refl env K N s

theorem trans (h : Deeds env K N s s') (h' : Deeds env K N s' s'') : Deeds env K N s s'' := by
  obtain ⟨hist, hr, hok⟩ := h
  obtain ⟨hist', hr', hok'⟩ := h'
  exact ⟨hist' ++ hist, hr.trans hr', allowed_append (fun _ => .inl) (fun _ _ => id) hok hok'⟩

theorem one {x : Deed} (h : Deed.Step env s x s') (hx : Proper env K N [] s x) : Deeds env K N s s' :=
  ⟨_, Run.one h, hx, trivial⟩

theorem look {n : Text} {a : Option Ptr} (hn : ∃ s, N s n) (h : lookup env env.depth s (.name n) = some (a, s')) :
    Deeds env K N s s' := by
  obtain ⟨s₁, hn⟩ := hn
  exact one (x := .look (.name n)) ⟨a, h⟩ ⟨s₁, n, rfl, hn⟩

/-- What a lookup finds is at hand afterwards. -/
theorem lookThen {n : Text} {a : Option Ptr} (hn : ∃ s, N s n) (hl : lookup env env.depth s (.name n) = some (a, s'))
    (h : Deeds env (K ∪ {p | a = some p}) N s' s'') : Deeds env K N s s'' := by
  obtain ⟨hist, hr, hok⟩ := h
  obtain ⟨s₁, hn⟩ := hn
  have hfirst : Allowed (Proper env K N) [⟨s, .look (.name n), s'⟩] := ⟨⟨s₁, n, rfl, hn⟩, trivial⟩
  refine ⟨hist ++ [⟨s, .look (.name n), s'⟩], (Run.one (e := .look (.name n)) ⟨a, hl⟩).trans hr,
    allowed_append (fun p hp => ?_) (fun _ _ => id) hfirst hok⟩
  rcases hp with hp | hp
  · exact .inl hp
  · exact .inr ⟨_, List.mem_singleton_self _, .name n, rfl, (show a = some p from hp) ▸ hl⟩

theorem mono (h : Deeds env K' N s s') (hK : ∀ p ∈ K', p ∈ K) : Deeds env K N s s' := by
  obtain ⟨hist, hr, hok⟩ := h
  have hnil : Allowed (Proper env K N) [] := trivial
  have happ := allowed_append (fun p hp => .inl (hK p hp)) (fun _ _ => id) hnil hok
  rw [List.append_nil] at happ
  exact ⟨hist, hr, happ⟩

theorem change (s : Store) {x : Change} (hp : p ∈ K) (hx : x.Texts) :
    Deeds env K N s ⟨s.cache.modify p x.apply, s.db⟩ := one (x := .change p x) rfl ⟨.inl hp, hx⟩

theorem befriend (s : Store) (hp : p ∈ K) (hq : q ∈ K) :
    Deeds env K N s (s.setHeap (addFriend s.cache.heap p (some q)).1) :=
  one (x := .befriend p q) rfl ⟨.inl hp, .inl hq⟩

end Deeds

/-! ### Account packets -/

theorem modify_modify (cache : UserCache) (p : Ptr) (f g : UserCacheItem → UserCacheItem) :
    (cache.modify p f).modify p g = cache.modify p fun u => g (f u) := by
  unfold UserCache.modify Heap.modify
  simp only [Function.update_self, Function.update_idem]

section Account

variable {call : Logon.Call} {v v' : Server} {rs : List Logon.Reply} {sc : Scratch}

theorem deeds_addAccount (f : Setup) {n : Text} {a : Option Ptr} {store : Store} (hN : N v.store n) (hn : NulFree n)
    (hl : lookup env env.depth v.store (.name n) = some (a, store)) (hfree : ¬ Taken (withStore v store) a) :
    Deeds env K N v.store (addAccount env n f.apply (withStore v store)).store := by
  refine .one (x := .create n f) ⟨a, store, hl, fun p hp => ?_, rfl⟩ ⟨hN, hn⟩
  by_contra hex
  exact hfree ⟨p, hp, Bool.eq_true_of_not_eq_false hex⟩

theorem nulFree_readName (r : Stream) : NulFree (Logon.readName r) := fun _ hx =>
  Stream.readStr_ne_zero (List.mem_of_mem_take hx)

theorem deeds_accountCreate (h : accountCreate env sc payload v = some (v', rs))
    (hN : N v.store (readCreate sc payload).username) : Deeds env K N v.store v'.store := by
  unfold accountCreate at h
  obtain ⟨a, store, hl, rfl⟩ := withUser_eq_some h
  split_ifs with hfree
  · exact .look ⟨_, hN⟩ hl
  · exact deeds_addAccount (.nls _ _) hN (nulFree_readName _) hl hfree

theorem deeds_oldAccountCreate2 (h : oldAccountCreate2 env sc payload v = some (v', rs))
    (hN : N v.store (readOldCreate sc payload).username) : Deeds env K N v.store v'.store := by
  unfold oldAccountCreate2 at h
  obtain ⟨a, store, hl, rfl⟩ := withUser_eq_some h
  split_ifs with hfree
  · exact .look ⟨_, hN⟩ hl
  · exact deeds_addAccount (.ols _) hN (nulFree_readName _) hl hfree

theorem deeds_did (h : Did env c call v v') (hop : call.op ≠ .accountCreate) (hop' : call.op ≠ .oldAccountCreate2)
    (hK : ∀ p, (v.client c).user = some p → p ∈ K) (hN : N v.store call.username) : Deeds env K N v.store v'.store := by
  cases h with
  | looked _ _ hl => exact .look ⟨_, hN⟩ hl
  | srp hl =>
    rw [Server.setProof_store, Server.setUser_store]
    exact .look ⟨_, hN⟩ hl
  | oldLogin hl =>
    rw [Server.setStage_store, Server.setUser_store]
    exact .look ⟨_, hN⟩ hl
  | @passwd p q store hl => exact .lookThen ⟨_, hN⟩ hl (.change (x := .passwd q) store (.inr rfl) trivial)
  | create hcreate => exact absurd hcreate (not_or.mpr ⟨hop, hop'⟩)
  | login => exact .refl ..
  | refused => exact .refl ..
  | @change p _ hu =>
    -- the salt, then the verifier
    rw [Server.setUser_store]
    have hsalt : Deeds env K N v.store _ :=
      .change (x := .salt (readChange call.scratch call.payload).s) v.store (hK p hu) trivial
    have hboth := hsalt.trans
      (.change (x := .verifier (readChange call.scratch call.payload).v) _ (hK p hu) trivial)
    dsimp only at hboth
    rw [modify_modify] at hboth
    exact hboth
  | unchanged =>
    rw [Server.setUser_store]
    exact .refl ..

theorem deeds_handle (h : handle env c call v = some (v', rs)) (hK : ∀ p, (v.client c).user = some p → p ∈ K)
    (hN : N v.store call.username) : Deeds env K N v.store v'.store := by
  have hdid := handle_did h
  obtain ⟨op, payload, sc⟩ := call
  cases op with
  | accountCreate => exact deeds_accountCreate h hN
  | oldAccountCreate2 => exact deeds_oldAccountCreate2 h hN
  | _ => exact deeds_did hdid nofun nofun hK hN

end Account

/-! ### What is sent -/

theorem store_reply (w : World) (c : ConnId) (p : Packet) : (w.reply c p).server.store = w.server.store := by
  unfold World.reply
  split_ifs <;> rfl

theorem store_replies (ps : List Packet) (w : World) :
    (ps.foldl (fun w p => w.reply c p) w).server.store = w.server.store := by
  induction ps generalizing w with
  | nil => rfl
  | cons p ps ih => rw [List.foldl_cons, ih, store_reply]

theorem store_replyAll (out : List Command.Sent) (w : World) : (w.replyAll out).server.store = w.server.store := by
  unfold World.replyAll
  induction out generalizing w with
  | nil => rfl
  | cons x out ih => rw [List.foldl_cons, ih, store_reply]

theorem store_infos {α : Type*} (text : World → α → Text) (l : List α) (w : World) :
    (l.foldl (fun w x => w.info c (text w x)) w).server.store = w.server.store := by
  induction l generalizing w with
  | nil => rfl
  | cons x l ih =>
    rw [List.foldl_cons, ih]
    rfl

theorem store_findOnlineUser (w : World) (name : Text) (c : ConnId) :
    (w.findOnlineUser name c true).2.server.store = w.server.store := by
  unfold World.findOnlineUser
  dsimp only
  split
  · rfl
  · split_ifs <;> rfl

theorem store_whisperTo (w : World) (d c : ConnId) (msg : Text) :
    (w.whisperTo d c msg true).server.store = w.server.store := by
  unfold World.whisperTo
  dsimp only
  split_ifs <;> rfl

theorem store_sendWhisper (w : World) (toname : Text) (c : ConnId) (msg : Text) :
    (w.sendWhisper toname c msg true).server.store = w.server.store := by
  have hfound := store_findOnlineUser w toname c
  unfold World.sendWhisper
  rcases h : w.findOnlineUser toname c true with ⟨_ | d, w1⟩
  · rw [h] at hfound
    exact hfound
  · rw [h] at hfound
    exact (store_whisperTo w1 d c msg).trans hfound

/-! ### Packets with names -/

theorem deeds_account {op : Logon.Op} (h : account st am c payload w op = some w')
    (hK : ∀ p, w.user c = some p → p ∈ K) (hN : N w.server.store (Call.username ⟨op, payload, am.scratch⟩)) :
    Deeds st.env K N w.server.store w'.server.store := by
  obtain ⟨⟨v, rs⟩, hh, rfl⟩ := Option.map_eq_some_iff.mp h
  rw [store_replies]
  exact deeds_handle hh hK hN

theorem nulFree_readStr (r : Stream) : NulFree r.readStr.1 := fun _ => Stream.readStr_ne_zero

theorem deeds_changeEmail (h : changeEmail st payload w = some w')
    (hN : N w.server.store (Stream.ofBytes payload).readStr.1) : Deeds st.env K N w.server.store w'.server.store := by
  obtain ⟨⟨a, store⟩, hl, rfl⟩ := Option.map_eq_some_iff.mp h
  rcases a with _ | p
  · exact .look ⟨_, hN⟩ hl
  · dsimp only
    split_ifs
    · exact .lookThen ⟨_, hN⟩ hl (.change (x := .mail _) store (.inr rfl) (nulFree_readStr _))
    · exact .look ⟨_, hN⟩ hl

theorem deeds_setEmail (hK : ∀ p, w.user c = some p → p ∈ K) :
    Deeds env K N w.server.store (setEmail c payload w).server.store := by
  unfold setEmail
  split
  · exact .refl ..
  · next p hp =>
    refine .change (x := .mail _) w.server.store (hK p hp) ?_
    show NulFree (if _ then _ else _)
    split_ifs
    · decide
    · exact nulFree_readStr _

theorem deeds_profile (h : profile st am c payload w = some w')
    (hN : N w.server.store (ReadUserData.readUInt (Stream.ofBytes payload) (am.uints 0)).2.readStr.1) :
    Deeds st.env K N w.server.store w'.server.store := by
  obtain ⟨⟨a, store⟩, hl, rfl⟩ := Option.map_eq_some_iff.mp h
  rcases a with _ | p
  · exact .look ⟨_, hN⟩ hl
  · dsimp only
    rw [store_reply]
    have hone : Deeds st.env (K ∪ {p' | some p = some p'}) N store _ :=
      .change (x := .getData (str "Profile\\Description")) store (.inr rfl) (show NulFree _ by decide)
    exact .lookThen ⟨_, hN⟩ hl
      (hone.trans (.change (x := .getData (str "Profile\\Location")) _ (.inr rfl) (show NulFree _ by decide)))

theorem deeds_readRow (hp : p ∈ K) (keys : List Text) (hkeys : ∀ k ∈ keys, NulFree k) (s : Store) :
    Deeds env K N s (ReadUserData.readRow p keys s).2 := by
  induction keys generalizing s with
  | nil => exact .refl ..
  | cons k keys ih =>
    obtain ⟨hk, hkeys⟩ := List.forall_mem_cons.mp hkeys
    rw [ReadUserData.readRow]
    split_ifs
    · exact ih hkeys s
    · exact (Deeds.change (x := .getData k) s hp hk).trans (ih hkeys _)

/-- The account of a name in a request; an empty one stands for the client's own. -/
theorem deeds_resolve {user : Option Ptr} {a : Text} {found : Option Ptr} (hK : ∀ p, user = some p → p ∈ K)
    (hn : a ≠ [] → ∃ s, N s a)
    (h : (if a = [] then some (user, s) else lookup env env.depth s (.name a)) = some (found, s'))
    (hnext : Deeds env (K ∪ {p | found = some p}) N s' s'') : Deeds env K N s s'' := by
  split_ifs at h with ha
  · cases h
    exact hnext.mono fun p hp => hp.elim id (hK p)
  · exact .lookThen (hn ha) h hnext

theorem deeds_readRows {user : Option Ptr} {keys : List Text} (hkeys : ∀ k ∈ keys, NulFree k) (names : List Text)
    {r : ReadUserData.Rows keys names.length × Store} (hK : ∀ p, user = some p → p ∈ K)
    (hN : ∀ a ∈ names, a ≠ [] → ∃ s, N s a) (h : ReadUserData.readRows env user keys names s = some r) :
    Deeds env K N s r.2 := by
  induction names generalizing s K with
  | nil =>
    cases h
    exact .refl ..
  | cons a names ih =>
    obtain ⟨ha, hN⟩ := List.forall_mem_cons.mp hN
    rw [ReadUserData.readRows] at h
    split at h
    · cases h
    · next heq =>
      obtain ⟨r', hr', rfl⟩ := Option.map_eq_some_iff.mp h
      exact deeds_resolve hK ha heq (ih (fun p hp => .inl (hK p hp)) hN hr')
    · next p s1 heq =>
      obtain ⟨r', hr', rfl⟩ := Option.map_eq_some_iff.mp h
      exact deeds_resolve hK ha heq
        ((deeds_readRow (.inr rfl) keys hkeys s1).trans (ih (fun p hp => .inl (hK p hp)) hN hr'))

theorem nulFree_readNames (stop : ℕ → Bool) (n i : ℕ) (r : Stream) {x : {l : List Text // l.length = n} × Stream}
    (h : ReadUserData.readNames stop n i r = some x) : ∀ t ∈ x.1.1, NulFree t := by
  induction n generalizing i r with
  | zero =>
    cases h
    exact fun t ht => by cases ht
  | succ n ih =>
    rw [ReadUserData.readNames] at h
    split_ifs at h
    obtain ⟨y, hy, rfl⟩ := Option.map_eq_some_iff.mp h
    exact List.forall_mem_cons.mpr ⟨nulFree_readStr r, ih _ _ hy⟩

theorem nulFree_readQuery {junk : ReadUserData.Junk} {query : ReadUserData.Query}
    (h : ReadUserData.readQuery junk payload = some query) : ∀ k ∈ query.knames.1, NulFree k := by
  unfold ReadUserData.readQuery ReadUserData.readQueryNames at h
  obtain ⟨a, -, h⟩ := Option.bind_eq_some_iff.mp h
  obtain ⟨k, hk, rfl⟩ := Option.map_eq_some_iff.mp h
  exact nulFree_readNames _ _ _ _ hk

theorem deeds_readUserData (h : readUserData st am c payload w = some w') (hK : ∀ p, w.user c = some p → p ∈ K)
    (hN : ∀ query, ReadUserData.readQuery am.readUserData payload = some query → ∀ a ∈ query.anames.1, a ≠ [] →
      N w.server.store a) :
    Deeds st.env K N w.server.store w'.server.store := by
  obtain ⟨⟨a, v⟩, hr, rfl⟩ := Option.map_eq_some_iff.mp h
  have hv : Deeds st.env K N w.server.store v.store := by
    unfold ReadUserData.readUserData at hr
    split at hr
    · cases hr
      exact .refl ..
    · next query hq =>
      obtain ⟨r, hrows, he⟩ := Option.map_eq_some_iff.mp hr
      cases he
      exact deeds_readRows (nulFree_readQuery hq) _ hK (fun a ha hne => ⟨_, hN query hq a ha hne⟩) hrows
  rcases a with _ | data
  · exact hv
  · dsimp only
    rw [store_reply]
    exact hv

theorem deeds_writeEntries (hp : p ∈ K) (keys : List Text) (i : ℕ) (entries : List (Text × Text))
    (hentries : ∀ e ∈ entries, NulFree e.1 ∧ NulFree e.2) (g : WriteUserData.Progress) :
    Deeds env K N g.store (entries.foldl (WriteUserData.writeEntry keys i p) g).store := by
  induction entries generalizing g with
  | nil => exact .refl ..
  | cons e entries ih =>
    obtain ⟨he, hentries⟩ := List.forall_mem_cons.mp hentries
    refine .trans ?_ (ih hentries _)
    unfold WriteUserData.writeEntry
    split
    · exact .refl ..
    · split_ifs
      · exact .refl ..
      · exact .change (x := .setData e.1 e.2) g.store hp he

theorem deeds_writeRows {user : Option Ptr} {keys : List Text} {entries : List (Text × Text)}
    (hentries : ∀ e ∈ entries, NulFree e.1 ∧ NulFree e.2) (names : List Text) {i : ℕ} {g g' : WriteUserData.Progress}
    (hK : ∀ p, user = some p → p ∈ K) (hN : ∀ a ∈ names, a ≠ [] → ∃ s, N s a)
    (h : WriteUserData.writeRows env user keys entries i names g = some g') :
    Deeds env K N g.store g'.store := by
  induction names generalizing i g K with
  | nil =>
    cases h
    exact .refl ..
  | cons a names ih =>
    obtain ⟨ha, hN⟩ := List.forall_mem_cons.mp hN
    rw [WriteUserData.writeRows] at h
    split at h
    · cases h
    · next s heq => exact deeds_resolve hK ha heq (ih (fun p hp => .inl (hK p hp)) hN h)
    · next p s heq =>
      have hrow : Deeds env (K ∪ {p' | some p = some p'}) N s _ :=
        deeds_writeEntries (.inr rfl) keys i entries hentries { g with found := g.found ++ [some p], store := s }
      exact deeds_resolve hK ha heq (hrow.trans (ih (fun p hp => .inl (hK p hp)) hN h))

theorem nulFree_readRequest {acount kcount : Buf 4} {request : WriteUserData.Request}
    (h : WriteUserData.readRequest acount kcount payload = some request) :
    ∀ e ∈ request.entries, NulFree e.1 ∧ NulFree e.2 := by
  unfold WriteUserData.readRequest WriteUserData.readStrings at h
  obtain ⟨a, -, h⟩ := Option.bind_eq_some_iff.mp h
  obtain ⟨k, hk, h⟩ := Option.bind_eq_some_iff.mp h
  obtain ⟨v, hv, rfl⟩ := Option.map_eq_some_iff.mp h
  intro e he
  obtain ⟨hek, hev⟩ := List.of_mem_zip he
  exact ⟨nulFree_readNames _ _ _ _ hk _ hek, nulFree_readNames _ _ _ _ hv _ hev⟩

theorem deeds_writeUserData (h : writeUserData st am c payload w = some w') (hK : ∀ p, w.user c = some p → p ∈ K)
    (hN : ∀ request, WriteUserData.readRequest am.acount am.kcount payload = some request → ∀ a ∈ request.anames.1,
      a ≠ [] → N w.server.store a) :
    Deeds st.env K N w.server.store w'.server.store := by
  obtain ⟨⟨a, v⟩, hr, he⟩ := Option.bind_eq_some_iff.mp h
  dsimp only at he
  split_ifs at he
  cases he
  unfold WriteUserData.writeUserData at hr
  split at hr
  · cases hr
    exact .refl ..
  · next request hq =>
    obtain ⟨g, hrows, he⟩ := Option.map_eq_some_iff.mp hr
    cases he
    exact deeds_writeRows (nulFree_readRequest hq) _ hK (fun a ha hne => ⟨_, hN request hq a ha hne⟩) hrows

/-! ### Chat commands -/

section Friends

variable {look : ConnId → ClientView} {v v' : Server} {u : Ptr} {out : List Command.Sent}

theorem deeds_addCommand (look : ConnId → ClientView) (hu : u ∈ K) (hK : ∀ p, (v.client c).user = some p → p ∈ K) :
    Deeds env K N v.store (Command.addCommand look c u v).1.store := by
  unfold Command.addCommand
  split_ifs
  · exact .refl ..
  · split
    · exact .refl ..
    · next p hp =>
      have hadd : Deeds env K N v.store _ := .befriend v.store (hK p hp) hu
      dsimp only
      split
      · exact hadd
      · split_ifs <;> exact hadd

theorem deeds_withFriend {k : Ptr → ℕ → Server × List Command.Sent} (hK : ∀ p, (v.client c).user = some p → p ∈ K)
    (hk : ∀ p i, p ∈ K → Deeds env K N v.store (k p i).1.store) :
    Deeds env K N v.store (Command.withFriend c u v k).1.store := by
  unfold Command.withFriend
  split
  · exact .refl ..
  · next p hp =>
    split
    · exact .refl ..
    · exact hk p _ (hK p hp)

theorem deeds_onUser (look : ConnId → ClientView) (verb : Command.FriendVerb) (hu : u ∈ K)
    (hK : ∀ p, (v.client c).user = some p → p ∈ K) :
    Deeds env K N v.store (Command.onUser look c verb u v).1.store := by
  cases verb with
  | add => exact deeds_addCommand look hu hK
  | remove => exact deeds_withFriend hK fun p i hp => .change (x := .removeFriend i) v.store hp trivial
  | demote =>
    refine deeds_withFriend hK fun p i hp => ?_
    split_ifs
    · exact .change (x := .moveFriend i (i + 1)) v.store hp trivial
    · exact .refl ..
  | promote =>
    refine deeds_withFriend hK fun p i hp => ?_
    split_ifs
    · exact .change (x := .moveFriend i (i - 1)) v.store hp trivial
    · exact .refl ..

theorem deeds_friendVerb {verb : Command.FriendVerb} {argr : Text} (hK : ∀ p, (v.client c).user = some p → p ∈ K)
    (hN : N v.store argr) (h : Command.commandFriend look c env verb argr v = some (v', out)) :
    Deeds env K N v.store v'.store := by
  obtain ⟨a, store, hl, ⟨-, rfl, -⟩ | ⟨u, rfl, he⟩⟩ := Command.commandFriend_cases h
  · exact .look ⟨_, hN⟩ hl
  · have hdo : Deeds env _ N store (Command.onUser look c verb u { v with store := store }).1.store :=
      deeds_onUser (v := { v with store := store }) (K := K ∪ {p | some u = some p}) look verb (.inr rfl)
        fun p hp => .inl (hK p hp)
    rw [he] at hdo
    exact .lookThen ⟨_, hN⟩ hl hdo

end Friends

theorem store_listFriends (h : w.listFriends c = some w') : w'.server.store = w.server.store := by
  have hloop : ∀ (l : List Friend) {w w' : World}, l.foldlM (fun w f => (w.whereIs f).map fun t =>
      w.info c ((w.server.item f.user).username ++ str ", " ++ t)) w = some w' →
      w'.server.store = w.server.store := by
    intro l
    induction l with
    | nil =>
      intro w w' h
      cases h
      rfl
    | cons f l ih =>
      intro w w' h
      rw [List.foldlM_cons] at h
      obtain ⟨w1, h1, h2⟩ := Option.bind_eq_some_iff.mp h
      obtain ⟨t, -, rfl⟩ := Option.map_eq_some_iff.mp h1
      exact (ih h2).trans rfl
  unfold World.listFriends at h
  dsimp only at h
  split at h
  · cases h
    rfl
  · exact (hloop _ h).trans rfl

theorem deeds_commandFriend {arg1 argr : Text} (h : World.commandFriend env w c arg1 argr = some w')
    (hK : ∀ p, w.user c = some p → p ∈ K) (hN : N w.server.store argr) :
    Deeds env K N w.server.store w'.server.store := by
  unfold World.commandFriend at h
  split at h
  · cases h
    exact .refl ..
  · cases h
    exact .of_eq (store_infos (fun _ s => str s) _ w)
  · exact .of_eq (store_listFriends h)
  · split_ifs at h
    · cases h
      exact .refl ..
    · split at h
      · cases h
        exact .refl ..
      · cases h
        refine .of_eq ?_
        unfold World.friendWhisper
        split_ifs <;> rfl
  · obtain ⟨⟨v, out⟩, hr, rfl⟩ := Option.map_eq_some_iff.mp h
    rw [store_replyAll]
    exact deeds_friendVerb hK hN hr

theorem deeds_command {k : Command.Call} (h : w.command env c k = some w') (hK : ∀ p, w.user c = some p → p ∈ K)
    (hN : N w.server.store k.argr) :
    Deeds env K N w.server.store w'.server.store := by
  unfold World.command at h
  split at h
  · exact deeds_commandFriend h hK hN
  all_goals
    cases h
    refine .of_eq ?_
  · unfold World.commandWhisper
    split_ifs
    · rfl
    · exact store_sendWhisper ..
  · unfold World.commandReply
    split_ifs
    · rfl
    · exact store_sendWhisper ..
  · exact store_infos (fun w ch => str "  " ++ (w.lobby.channels.get ch).name.1) _ _
  · unfold World.commandDND World.setStatusText
    dsimp only
    split_ifs <;> rfl
  · unfold World.commandAway World.setStatusText
    dsimp only
    split_ifs <;> rfl
  · rfl
  · rfl
  · unfold World.commandWhoIs
    split_ifs
    · rfl
    · split
      · rfl
      · split <;> rfl

theorem deeds_sendChat (h : w.sendChat env c payload = some w') (hK : ∀ p, w.user c = some p → p ∈ K)
    (hN : ∀ channel ok acts k, Command.sendChat Command.cmdMap channel (Stream.ofBytes payload) = some (ok, acts) →
      .call k ∈ acts → N w.server.store k.argr) :
    Deeds env K N w.server.store w'.server.store := by
  obtain ⟨⟨ok, acts⟩, hs, hrest⟩ := Option.bind_eq_some_iff.mp h
  obtain ⟨ok', acts', hs', hlen⟩ :=
    Command.sendChat_returns Command.cmdMap (w.lobby.member c).channel.isSome (Stream.ofBytes payload)
  obtain ⟨rfl, rfl⟩ := Prod.mk.inj (Option.some.inj (hs.symm.trans hs'))
  -- one line is one command, or is said
  rcases acts with _ | ⟨x, _ | ⟨y, acts⟩⟩
  · cases hrest
    exact .refl ..
  · obtain ⟨w1, h1, h2⟩ := Option.bind_eq_some_iff.mp hrest
    cases h2
    rcases x with k | text
    · exact deeds_command h1 hK (hN _ ok _ k hs List.mem_cons_self)
    · cases h1
      refine .of_eq ?_
      unfold World.talk
      split <;> rfl
  · simp only [List.length_cons] at hlen
    omega

/-! ### The suites -/

/-- The names a packet asks for: those of account packets and requests for data, and what friend commands are given. -/
inductive Asks (am : Ambient) : PluginCall → Text → Prop
  | account {n : ℕ} {payload : List Byte} {op : Logon.Op} (hop : Dispatch.bnetOps.lookup n = some op) :
      Asks am ⟨.bnet, n, payload⟩ (Call.username ⟨op, payload, am.scratch⟩)
  | changeEmail {payload : List Byte} : Asks am ⟨.bnet, 0x5BFF, payload⟩ (Stream.ofBytes payload).readStr.1
  | profile {payload : List Byte} : Asks am ⟨.bnetLoggedIn, 0x35FF, payload⟩
      (ReadUserData.readUInt (Stream.ofBytes payload) (am.uints 0)).2.readStr.1
  | readUserData {suite : Suite} {payload : List Byte} {query : ReadUserData.Query} {a : Text}
      (hsuite : suite = .bnet ∨ suite = .bnetLoggedIn)
      (hq : ReadUserData.readQuery am.readUserData payload = some query) (ha : a ∈ query.anames.1) (hne : a ≠ []) :
      Asks am ⟨suite, 0x26FF, payload⟩ a
  | writeUserData {payload : List Byte} {request : WriteUserData.Request} {a : Text}
      (hq : WriteUserData.readRequest am.acount am.kcount payload = some request) (ha : a ∈ request.anames.1)
      (hne : a ≠ []) : Asks am ⟨.bnetLoggedIn, 0x27FF, payload⟩ a
  | sendChat {payload : List Byte} {channel ok : Bool} {acts : List Command.ChatAction} {k : Command.Call}
      (hs : Command.sendChat Command.cmdMap channel (Stream.ofBytes payload) = some (ok, acts)) (hk : .call k ∈ acts) :
      Asks am ⟨.bnetLoggedIn, 0x0EFF, payload⟩ k.argr

theorem store_fileRequest {kind : FileReq.Kind} (h : fileRequest st am c payload w kind = some w') :
    w'.server.store = w.server.store := by
  unfold fileRequest at h
  dsimp only at h
  split_ifs at h
  split at h
  · cases h
    rfl
  · cases h
    rfl
  · cases h
    exact store_reply ..

theorem store_queryIcon : (queryIcon st am c w).server.store = w.server.store := by
  unfold queryIcon
  dsimp only
  split
  · rfl
  · exact store_reply ..

theorem store_war3Tags (cookie : UInt32) (count i : ℕ) (r : Stream) (w : World) :
    (war3Tags st am c cookie count i r w).server.store = w.server.store := by
  induction count generalizing i r w with
  | zero => rfl
  | succ count ih => rw [war3Tags, ih, store_reply]

theorem store_queryWar3Info : (queryWar3Info st am c payload w).server.store = w.server.store := by
  unfold queryWar3Info
  dsimp only
  split_ifs
  · exact store_war3Tags ..
  · rfl

theorem store_ping : (ping am c payload w).server.store = w.server.store := by
  unfold ping
  dsimp only
  split_ifs <;> rfl

theorem store_enterChat : (enterChat c payload w).server.store = w.server.store := by
  unfold enterChat
  split
  · rfl
  · exact store_reply ..

theorem deeds_bnet {op : ℕ} (h : bnet st am c payload w op = some w') (hK : ∀ p, w.user c = some p → p ∈ K)
    (hN : ∀ n, Asks am ⟨.bnet, op, payload⟩ n → N w.server.store n) :
    Deeds st.env K N w.server.store w'.server.store := by
  unfold bnet at h
  split at h
  · next k hk => exact deeds_account h hK (hN _ (.account hk))
  · split at h
    · cases h
      exact .of_eq (store_reply ..)
    · cases h
      exact .of_eq (store_reply ..)
    · exact deeds_changeEmail h (hN _ .changeEmail)
    · cases h
      exact .of_eq store_ping
    · exact .of_eq (store_fileRequest h)
    · cases h
      exact .of_eq store_queryIcon
    · exact deeds_readUserData h hK fun query hq a ha hne => hN a (.readUserData (.inl rfl) hq ha hne)
    · cases h
      exact deeds_setEmail hK
    · cases h
      exact .refl ..
    · cases h
      exact .refl ..
    · cases h
      exact .refl ..

theorem deeds_bnetLoggedIn {op : ℕ} (h : bnetLoggedIn st am c payload w op = some w')
    (hK : ∀ p, w.user c = some p → p ∈ K) (hN : ∀ n, Asks am ⟨.bnetLoggedIn, op, payload⟩ n → N w.server.store n) :
    Deeds st.env K N w.server.store w'.server.store := by
  have hkeep : ∀ {v : World}, some v = some w' → v.server.store = w.server.store →
      Deeds st.env K N w.server.store w'.server.store := fun he hv => .of_eq (Option.some.inj he ▸ hv)
  unfold bnetLoggedIn at h
  split at h
  · exact hkeep h store_enterChat
  · exact hkeep h (store_reply ..)
  · exact hkeep h (store_reply ..)
  · exact hkeep h rfl
  · exact hkeep h rfl
  · exact hkeep h rfl
  · exact hkeep h (store_reply ..)
  · exact hkeep h rfl
  · exact hkeep h rfl
  · exact hkeep h (store_reply ..)
  · exact hkeep h store_ping
  · exact deeds_profile h (hN _ .profile)
  · exact .of_eq (store_fileRequest h)
  · exact hkeep h store_queryIcon
  · exact hkeep h (store_reply ..)
  · exact hkeep h (store_reply ..)
  · exact hkeep h store_queryWar3Info
  · exact deeds_readUserData h hK fun query hq a ha hne => hN a (.readUserData (.inr rfl) hq ha hne)
  · exact hkeep h (store_reply ..)
  · exact deeds_sendChat h hK fun _ _ _ k hs hk => hN _ (.sendChat hs hk)
  · cases h
    exact deeds_setEmail hK
  · exact hkeep h rfl
  · exact hkeep h rfl
  · exact hkeep h rfl
  · exact hkeep h rfl
  · exact deeds_writeUserData h hK fun request hq a ha hne => hN a (.writeUserData hq ha hne)
  · exact hkeep h rfl

theorem store_file {op : ℕ} (h : file st am c payload w op = some w') : w'.server.store = w.server.store := by
  unfold file at h
  split at h
  · exact store_fileRequest h
  · cases h
    rfl
  · exact store_fileRequest h
  · cases h
    rfl

theorem store_init (op : ℕ) : (init c w op).server.store = w.server.store := by
  unfold init
  split_ifs <;> rfl

theorem store_baal (op : ℕ) : (baal am c payload w op).server.store = w.server.store := by
  unfold baal
  split
  · unfold realmAuth
    dsimp only
    split_ifs
    · split <;> rfl
    · rfl
  · rfl
  · rfl

/-- **A packet does deeds to the accounts**, and nothing else. -/
theorem process_deeds {call : PluginCall} (h : process st am c call w = some w')
    (hK : ∀ p, w.user c = some p → p ∈ K) (hN : ∀ n, Asks am call n → N w.server.store n) :
    Deeds st.env K N w.server.store w'.server.store := by
  obtain ⟨suite, op, payload⟩ := call
  unfold process at h
  dsimp only at h
  split at h
  · cases h
    exact .of_eq (store_init _)
  · exact deeds_bnet h hK hN
  · exact deeds_bnetLoggedIn h hK hN
  · exact .of_eq (store_file h)
  · cases h
    exact .of_eq (store_baal _)

/-! ### Accounts at hand are cached -/

/-- The tables answer for the name, and there is an id left. -/
def Clear (eng : Engine) (db : Database) (s : Store) (n : Text) : Prop :=
  Exact eng db (.name n) ∧ s.cache.nextUid.toNat + 1 < 2 ^ 32

theorem sane_of_proper {x : Deed} (hheld : ∀ p, AtHand env K hist p → Held s p)
    (hp : Proper env K (Clear env.eng s.db) hist s x) : Deed.Sane env s x := by
  cases x with
  | look key =>
    obtain ⟨s', n, rfl, hn⟩ := hp
    exact .inr hn.1
  | change p x => exact ⟨hheld p hp.1, hp.2⟩
  | befriend p q => exact ⟨hheld p hp.1, hheld q hp.2⟩
  | create n f => exact ⟨.inr hp.1.1, hp.2, hp.1.2⟩
  | restart => exact hp.elim

theorem held_of_answers {key : Key} (ha : Answers env s key (some p) s') : Held s' p := by
  obtain ⟨q, hq, he⟩ := ha.found
  split_ifs at he with hex
  obtain rfl : p = q := Option.some.inj he
  cases key with
  | name n =>
    have hid : (s'.cache.get p).id ≠ 0 := UInt32.pos_iff_ne_zero.mp (of_decide_eq_true hex)
    exact ⟨_, (ha.coherent.name hq).2.2 hid⟩
  | id i => exact ⟨i, hq⟩

theorem keepId_step {x : Deed} (h : InOrder s) (hok : x.Sane env s) (hx : x ≠ .restart) (hs : x.Step env s s')
    {i : UInt32} (hi : s.cache.findId i = some p) : s'.cache.findId i = some p := by
  cases x with
  | look key =>
    obtain ⟨a, hl⟩ := hs
    exact (answers_of_answered h.sound.db h.sound.coherent hok hl).loaded.keepId hi
  | change q x =>
    obtain rfl : s' = _ := hs
    exact hi
  | befriend q r =>
    obtain rfl : s' = _ := hs
    exact hi
  | create n f =>
    obtain ⟨a, store, hl, ha, rfl⟩ := hs
    have hans := answers_of_answered h.sound.db h.sound.coherent hok.1 hl
    obtain ⟨hin, -⟩ := h.look hok.1 hl
    obtain ⟨hname, hrow⟩ := free_of_answer hin.sound.db hans ha
    have hfr := fresh_added env hin.sound.indexed (fun u => ⟨(keeps_setup f u).1, (keeps_setup f u).2.1⟩) hname hrow
    exact hfr.keepId (hans.loaded.keepId hi)
  | restart => exact absurd rfl hx

theorem db_step {x : Deed} (h : InOrder s) (hok : x.Sane env s) (hx : x ≠ .restart) (hs : x.Step env s s') :
    s'.db = s.db := by
  cases x with
  | look key =>
    obtain ⟨a, hl⟩ := hs
    exact (answers_of_answered h.sound.db h.sound.coherent hok hl).loaded.db
  | change q x =>
    obtain rfl : s' = _ := hs
    rfl
  | befriend q r =>
    obtain rfl : s' = _ := hs
    rfl
  | create n f =>
    obtain ⟨a, store, hl, ha, rfl⟩ := hs
    exact (answers_of_answered h.sound.db h.sound.coherent hok.1 hl).loaded.db
  | restart => exact absurd rfl hx

/-- Whoever is at hand stays in the cache, so that proper deeds are sane. -/
theorem held_run {s₀ : Store} (h₀ : InOrder s₀) (hK : ∀ p ∈ K, Held s₀ p) (hr : Run (Deed.Step env) s₀ hist s)
    (hp : Allowed (Proper env K (Clear env.eng s₀.db)) hist) : InOrder s ∧ s.db = s₀.db ∧
      (∀ p, AtHand env K hist p → Held s p) ∧ Allowed (fun _ => Deed.Sane env) hist := by
  induction hr with
  | nil =>
    refine ⟨h₀, rfl, fun p hp => ?_, trivial⟩
    rcases hp with hp | ⟨x, hx, -⟩
    · exact hK p hp
    · cases hx
  | @snoc hist s s' x _ hs ih =>
    obtain ⟨hin, hdb, hheld, hsane⟩ := ih hp.2
    have hproper : Proper env K (Clear env.eng s.db) hist s x := hdb ▸ hp.1
    have hok : Deed.Sane env s x := sane_of_proper hheld hproper
    have hx : x ≠ .restart := by
      rintro rfl
      exact hproper
    have hkeep : ∀ p, AtHand env K hist p → Held s' p := fun p hat => by
      obtain ⟨i, hi⟩ := hheld p hat
      exact ⟨i, keepId_step hin hok hx hs hi⟩
    refine ⟨(Deed.Step.posted hin hok hs).1, (db_step hin hok hx hs).trans hdb, fun p hat => ?_, hok, hsane⟩
    rcases hat with hat | ⟨y, hy, key, hev, hl⟩
    · exact hkeep p (.inl hat)
    · rcases List.mem_cons.mp hy with rfl | hy
      · -- found just now
        obtain rfl : x = .look key := hev
        exact held_of_answers (answers_of_answered hin.sound.db hin.sound.coherent hok hl)
      · exact hkeep p (.inr ⟨y, hy, key, hev, hl⟩)

/-! ### Runs of the server -/

/-- The accounts that connections act for. -/
def onDuty (w : World) : Set Ptr := {p | ∃ d ∈ w.net.live, w.user d = some p}

/-- Proper deeds, and connections act for accounts that are at hand. -/
def Serves (env : Env) (N : Store → Text → Prop) (w w' : World) : Prop :=
  ∃ hist, Run (Deed.Step env) w.server.store hist w'.server.store ∧ Allowed (Proper env (onDuty w) N) hist ∧
    ∀ p ∈ onDuty w', AtHand env (onDuty w) hist p

theorem user_modifyClient (v : Server) (c d : ConnId) {f : Client → Client} (hf : ∀ cl, (f cl).user = cl.user) :
    ((v.modifyClient c f).client d).user = (v.client d).user := (LogonPool.SamePool.modifyClient v c hf).user d

theorem user_setStage (v : Server) (c d : ConnId) (x : Stage) : ((v.setStage c x).client d).user = (v.client d).user :=
  user_modifyClient v c d fun _ => rfl

theorem user_setProof (v : Server) (c d : ConnId) (x y : Buf 20) :
    ((v.setProof c x y).client d).user = (v.client d).user := user_modifyClient v c d fun _ => rfl

theorem user_setUser {v : Server} {u : Option Ptr} {d : ConnId} (h : ((v.setUser c u).client d).user = some p) :
    u = some p ∨ (v.client d).user = some p := by
  by_cases hd : d = c
  · rw [hd, Server.setUser_client_self] at h
    exact .inl h
  · rw [Server.setUser_client_ne v u hd] at h
    exact .inr h

/-- What a connection acts for after an account packet, a lookup has found if it is new. -/
theorem users_did {call : Logon.Call} {v v' : Server} (h : Did env c call v v') :
    (∀ d p, (v'.client d).user = some p → (v.client d).user = some p) ∨
    ∃ p, lookup env env.depth v.store (.name call.username) = some (some p, v'.store) ∧
      ∀ d q, (v'.client d).user = some q → q = p ∨ (v.client d).user = some q := by
  cases h with
  | looked => exact .inl fun _ _ => id
  | @srp p a store hl =>
    refine .inr ⟨p, ?_, fun d q hq => ?_⟩
    · rw [Server.setProof_store, Server.setUser_store]
      exact hl
    · rw [user_setProof] at hq
      exact (user_setUser hq).imp_left fun e => (Option.some.inj e).symm
  | @oldLogin p store hl =>
    refine .inr ⟨p, ?_, fun d q hq => ?_⟩
    · rw [Server.setStage_store, Server.setUser_store]
      exact hl
    · rw [user_setStage] at hq
      exact (user_setUser hq).imp_left fun e => (Option.some.inj e).symm
  | passwd => exact .inl fun _ _ => id
  | create => exact .inl fun _ _ => id
  | login =>
    refine .inl fun d p hp => ?_
    rwa [user_setStage] at hp
  | refused => exact .inl fun _ _ => id
  -- `AccountChangeProof` ends with a `SetUser` of no account, whether the proof was right or not
  | change => exact .inl fun d p hp => (user_setUser hp).resolve_left nofun
  | unchanged => exact .inl fun d p hp => (user_setUser hp).resolve_left nofun

theorem account_serves {op : Logon.Op} (hc : c ∈ w.net.live) (h : account st am c payload w op = some w')
    (hN : N w.server.store (Call.username ⟨op, payload, am.scratch⟩)) :
    Serves st.env N w w' := by
  have hdeeds : Deeds st.env (onDuty w) N w.server.store w'.server.store :=
    deeds_account h (fun p hp => ⟨c, hc, hp⟩) hN
  obtain ⟨⟨v, rs⟩, hh, rfl⟩ := Option.map_eq_some_iff.mp h
  obtain ⟨xs, -, he⟩ := SuitesActs.answers_eq (c := c) rs (w.setServer v)
  rw [he] at hdeeds ⊢
  rcases users_did (handle_did hh) with hkeep | ⟨p, hl, hkeep⟩
  · obtain ⟨hist, hr, hok⟩ := hdeeds
    refine ⟨hist, hr, hok, ?_⟩
    rintro q ⟨d, hd, hq⟩
    exact .inl ⟨d, hd, hkeep d q hq⟩
  · -- the lookup is all the packet has done to the store, so it is taken in place of the deeds of `deeds_account`
    have hlook : Deed.Step st.env w.server.store (.look (.name _)) v.store := ⟨some p, hl⟩
    refine ⟨_, Run.one hlook, ⟨⟨_, _, rfl, hN⟩, trivial⟩, ?_⟩
    rintro q ⟨d, hd, hq⟩
    rcases hkeep d q hq with rfl | hq
    · exact .inr ⟨_, List.mem_singleton_self _, _, rfl, hl⟩
    · exact .inl ⟨d, hd, hq⟩

/-- Only account packets make a connection act for another account. -/
theorem serves_of_deeds {x : Daemon.Event} (hi : Acts.Inv w) (hs : Daemon.Serve st w x w')
    (hno : ∀ c call am, x = .call c call am → ∀ k, ¬ SuitesActs.Account am.scratch call k)
    (h : Deeds st.env (onDuty w) N w.server.store w'.server.store) : Serves st.env N w w' := by
  obtain ⟨hist, hr, hok⟩ := h
  refine ⟨hist, hr, hok, ?_⟩
  rintro p ⟨d, hd, hp⟩
  rcases Admission.client_cases hi hs hd with ⟨token, sp, cp, ip, -, hnew⟩ | ⟨-, call, am, k, hx, hk, -⟩ |
    ⟨hlive, -, -, huser, -⟩
  · rw [World.user, hnew] at hp
    cases hp
  · exact absurd hk (hno d call am hx k)
  · exact .inl ⟨d, hlive, huser.symm.trans hp⟩

theorem store_onDatagram {ip : UInt32} {port : UInt16} {b : List Byte}
    (h : Daemon.onDatagram am ip port b w = some w') : w'.server.store = w.server.store := by
  unfold Daemon.onDatagram connTest2 at h
  split_ifs at h
  · cases h
    rfl
  · cases h
    rfl
  · split at h
    · cases h
    · split_ifs at h
      cases h
      rfl
  · cases h
    rfl

theorem serve_serves {x : Daemon.Event} (hi : Acts.Inv w) (hs : Daemon.Serve st w x w')
    (hN : ∀ c call am, x = .call c call am → ∀ n, Asks am call n → N w.server.store n) : Serves st.env N w w' := by
  cases x with
  | connect c token sp cp ip =>
    refine serves_of_deeds hi hs nofun (.of_eq ?_)
    obtain ⟨-, rfl⟩ := hs
    rfl
  | call c k am =>
    by_cases hacc : ∃ j, SuitesActs.Account am.scratch k j
    · obtain ⟨hc, -, h⟩ := hs
      obtain ⟨j, hsuite, op, hop, -⟩ := hacc
      obtain ⟨suite, n, payload⟩ := k
      obtain rfl : suite = .bnet := hsuite
      have hbnet : bnet st am c payload w n = some w' := h
      unfold bnet at hbnet
      rw [hop] at hbnet
      exact account_serves hc hbnet (hN _ _ _ rfl _ (.account hop))
    · refine serves_of_deeds hi hs ?_ (process_deeds hs.2.2 (fun p hp => ⟨c, hs.1, hp⟩) (hN _ _ _ rfl))
      rintro c' k' am' ⟨⟩ j hj
      exact hacc ⟨j, hj⟩
  | datagram ip port b am =>
    refine serves_of_deeds hi hs nofun (.of_eq ?_)
    exact store_onDatagram hs
  | close c =>
    refine serves_of_deeds hi hs nofun (.of_eq ?_)
    obtain ⟨-, rfl⟩ := hs
    rfl

theorem served {evs : List (Entry World Daemon.Event)} (hs : Acts.Start w₀) (hr : Run (Daemon.Serve st) w₀ evs w)
    (hN : ∀ x ∈ evs, ∀ c call am, x.event = .call c call am → ∀ n, Asks am call n → N x.before.server.store n) :
    ∃ hist, Run (Deed.Step st.env) w₀.server.store hist w.server.store ∧ Allowed (Proper st.env ∅ N) hist ∧
      ∀ p ∈ onDuty w, AtHand st.env ∅ hist p := by
  induction hr with
  | nil =>
    refine ⟨[], .nil, trivial, ?_⟩
    rintro p ⟨d, hd, -⟩
    rw [hs.net.live] at hd
    exact absurd hd (Finset.notMem_empty d)
  | snoc hr hstep ih =>
    obtain ⟨hnew, hN⟩ := List.forall_mem_cons.mp hN
    obtain ⟨hist, hdeeds, hok, hduty⟩ := ih hN
    obtain ⟨hi, -⟩ := Daemon.serve_run (Acts.inv_start hs) hr
    obtain ⟨hist', hdeeds', hok', hduty'⟩ := serve_serves hi hstep hnew
    refine ⟨hist' ++ hist, hdeeds.trans hdeeds', allowed_append hduty (fun _ _ => id) hok hok', fun p hp => ?_⟩
    exact atHand_append hduty (hduty' p hp)

/-- A run of the server: at its start nobody is connected and the accounts are in order, the tables answer for the names
that packets ask for, and there are ids left. -/
structure Service (st : Settings) (w₀ : World) (evs : List (Entry World Daemon.Event)) (w : World) : Prop where
  start : Acts.Start w₀
  inOrder : InOrder w₀.server.store
  run : Run (Daemon.Serve st) w₀ evs w
  names : ∀ x ∈ evs, ∀ c call am, x.event = .call c call am → ∀ n, Asks am call n →
    Exact st.env.eng w₀.server.store.db (.name n)
  ids : ∀ x ∈ evs, x.before.server.store.cache.nextUid.toNat + 1 < 2 ^ 32

theorem Service.accounts {evs : List (Entry World Daemon.Event)} (h : Service st w₀ evs w) :
    ∃ hist, Run (Deed.Step st.env) w₀.server.store hist w.server.store ∧ InOrder w.server.store ∧
      Run Book.Step (account w₀.server.store) (hist.map posted) (account w.server.store) := by
  obtain ⟨hist, hdeeds, hok, -⟩ := served (N := Clear st.env.eng w₀.server.store.db) h.start h.run
    fun x hx c call am hcall n hn => ⟨h.names x hx c call am hcall n hn, h.ids x hx⟩
  obtain ⟨-, -, -, hsane⟩ := held_run h.inOrder (fun p hp => hp.elim) hdeeds hok
  exact ⟨hist, hdeeds, accounts_posted h.inOrder hdeeds hsane⟩

end Blitzd.Plugins.Bookkeeping
