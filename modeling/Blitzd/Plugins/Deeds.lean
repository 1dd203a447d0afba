import Mathlib.Data.Set.Insert
import Blitzd.Plugins.Restart

/-! # The account store is a book of accounts

`Deed`s are what the server does with its accounts: it looks them up, sets what belongs to them, makes friends and new
accounts, and restarts. What that comes to is a page for each id (`Book`), on which most of it is nothing at all: neither
a lookup nor a restart changes a page, a deed changes the page it is about, and a new account gets a page that was empty.

`run_posted`: as long as the storage answers for the names that are looked up, ids do not run out, and what is marked can
be written at each restart, the accounts go through a run of the book. So no account is lost, and each is found by its id
with all that was put down for it (`kept_and_found`), and names stay with their accounts (`named_alone`). -/

namespace Blitzd.Plugins.Ledger

open Blitzd.Lib Blitzd.Lib.Bytes Blitzd.Lib.KeyMap Blitzd.Utils.CString Blitzd.Storage.Sqlite
open Blitzd.Cache Blitzd.Cache.UserCacheItem Blitzd.Cache.UserSave
open Blitzd.Cache.UserLookup (idleEnv exact_of_plain)
open Blitzd.Plugins.Accounts (Answered)

variable {env : Env} {s s' s₀ : Store} {i j : UInt32} {p q : Ptr} {u v : UserCacheItem}

/-! ### The book -/

/-- What is done to one account. -/
inductive Change
  | salt (b : Buf 32)
  | verifier (b : Buf 32)
  | passwd (b : Buf 20)
  | mail (m : Text)
  | getData (k : Text)
  | setData (k v : Text)
  | removeFriend (idx : ℕ)
  | moveFriend (idx1 idx2 : ℕ)

/-- The account changes. -/
def Change.apply : Change → UserCacheItem → UserCacheItem
  | salt b, u => u.setSalt b
  | verifier b, u => u.setVerifier b
  | passwd b, u => u.setPasswd b
  | mail m, u => u.setMail m
  | getData k, u => (u.getData k).2
  | setData k v, u => u.setData k v
  | removeFriend idx, u => (u.removeFriend idx).2
  | moveFriend idx1 idx2, u => (u.moveFriend idx1 idx2).2

/-- What is put down for it. -/
def Change.put : Change → Fields → Fields
  | salt b, g => { g with salt := b }
  | verifier b, g => { g with verifier := b }
  | passwd b, g => { g with passwd := b }
  | mail m, g => { g with mail := m }
  | setData k v, g => { g with data := fun k' => if nameEq.eqv k k' then v else g.data k' }
  | getData _, g | removeFriend _, g | moveFriend _ _, g => g

/-- The changes that are about friends. Their loops lose some and list others twice. -/
def Change.regroups : Change → Prop
  | removeFriend _ | moveFriend _ _ => True
  | _ => False

abbrev Book := UInt32 → Option Account

inductive Posting
  | nothing
  | change (i : UInt32) (x : Change)
  | befriend (i j : UInt32)
  | new (i : UInt32) (n : Text)

def Book.Step (b : Book) : Posting → Book → Prop
  | .nothing, b' => b' = b
  | .change i x, b' => ∃ a a', b i = some a ∧ a'.fields = x.put a.fields ∧
      (a'.friends = a.friends ∨ x.regroups ∧ a'.friends ⊆ a.friends) ∧ b' = Function.update b i (some a')
  | .befriend i j, b' => ∃ a a', b i = some a ∧ b j ≠ none ∧
      (a' = a ∨ i ≠ j ∧ a' = ⟨a.fields, insert j a.friends⟩) ∧ b' = Function.update b i (some a')
  | .new i n, b' => b i = none ∧ (∀ j a, b j = some a → strcmpiEq a.fields.username n = false) ∧
      ∃ a, a.fields.username = n ∧ a.friends = ∅ ∧ b' = Function.update b i (some a)

/-- Pages stay, under the names they have. -/
theorem Book.Step.kept {b b' : Book} {x : Posting} (h : b.Step x b') {a : Account} (ha : b i = some a) :
    ∃ a', b' i = some a' ∧ a'.fields.username = a.fields.username := by
  have hother : ∀ {j a'}, i ≠ j → b' = Function.update b j a' →
      ∃ a', b' i = some a' ∧ a'.fields.username = a.fields.username := fun hij he =>
    ⟨a, by rw [he, Function.update_of_ne hij, ha], rfl⟩
  cases x with
  | nothing =>
    obtain rfl : b' = b := h
    exact ⟨a, ha, rfl⟩
  | change j x =>
    obtain ⟨a₀, a', hj, hf, -, he⟩ := h
    by_cases hij : i = j
    · subst hij
      obtain rfl : a = a₀ := Option.some.inj (ha.symm.trans hj)
      refine ⟨a', by rw [he, Function.update_self], ?_⟩
      rw [hf]
      cases x <;> rfl
    · exact hother hij he
  | befriend j k =>
    obtain ⟨a₀, a', hj, -, hf, he⟩ := h
    by_cases hij : i = j
    · subst hij
      obtain rfl : a = a₀ := Option.some.inj (ha.symm.trans hj)
      refine ⟨a', by rw [he, Function.update_self], ?_⟩
      rcases hf with rfl | ⟨-, rfl⟩ <;> rfl
    · exact hother hij he
  | new j n =>
    obtain ⟨hj, -, a', -, -, he⟩ := h
    have hij : i ≠ j := by
      rintro rfl
      rw [ha] at hj
      cases hj
    exact hother hij he

/-- The page a posting is about. -/
def Posting.About (i : UInt32) : Posting → Prop
  | nothing => False
  | change j _ | befriend j _ | new j _ => j = i

theorem Book.Step.other {b b' : Book} {x : Posting} (h : b.Step x b') (hx : ¬ x.About i) : b' i = b i := by
  cases x with
  | nothing => exact congrFun h i
  | change j x =>
    obtain ⟨_, _, -, -, -, rfl⟩ := h
    exact Function.update_of_ne (Ne.symm hx) ..
  | befriend j k =>
    obtain ⟨_, _, -, -, -, rfl⟩ := h
    exact Function.update_of_ne (Ne.symm hx) ..
  | new j n =>
    obtain ⟨-, -, _, -, -, rfl⟩ := h
    exact Function.update_of_ne (Ne.symm hx) ..

/-- A page stays over a whole run, and as it is if nothing is posted to it. -/
theorem Book.kept {b₀ b : Book} {hist : List (Entry Book Posting)} {a : Account} (hr : Run Book.Step b₀ hist b)
    (ha : b₀ i = some a) : ∃ a', b i = some a' ∧ a'.fields.username = a.fields.username ∧
      ((∀ x ∈ hist, ¬ x.event.About i) → a' = a) := by
  induction hr with
  | nil => exact ⟨a, ha, rfl, fun _ => rfl⟩
  | @snoc hist b b' e _ hs ih =>
    obtain ⟨a', hb, hname, hsame⟩ := ih
    obtain ⟨a'', hb', hname'⟩ := hs.kept hb
    refine ⟨a'', hb', hname'.trans hname, fun hall => ?_⟩
    obtain ⟨he, hall⟩ := List.forall_mem_cons.mp hall
    rw [← hsame hall]
    exact Option.some.inj (hb'.symm.trans ((hs.other he).trans hb))

/-! ### Deeds -/

/-- How the two kinds of accounts are set up. -/
inductive Setup
  | nls (salt verifier : Buf 32)
  | ols (pwd : Buf 20)

def Setup.apply : Setup → UserCacheItem → UserCacheItem
  | nls salt verifier, u => ((u.setSalt salt).setVerifier verifier).addFlag UCF_NLSAUTH
  | ols pwd, u => (u.setPasswd pwd).addFlag UCF_OLSAUTH

inductive Deed
  | look (key : Key)
  | change (p : Ptr) (x : Change)
  | befriend (p q : Ptr)
  | create (n : Text) (f : Setup)
  | restart

/-- A pointer as lookups return them. -/
def Held (s : Store) (p : Ptr) : Prop := ∃ i, s.cache.findId i = some p

def Deed.Step (env : Env) (s : Store) : Deed → Store → Prop
  | .look key, s' => ∃ a, lookup env env.depth s key = some (a, s')
  | .change p x, s' => s' = ⟨s.cache.modify p x.apply, s.db⟩
  | .befriend p q, s' => s' = s.setHeap (addFriend s.cache.heap p (some q)).1
  | .create n f, s' => ∃ a store, lookup env env.depth s (.name n) = some (a, store) ∧
      (∀ p, a = some p → (store.cache.get p).isExist = false) ∧ s' = added env store n f.apply
  | .restart, s' => s' = reopen env.eng s

/-- Texts that come out of packets. -/
def Change.Texts : Change → Prop
  | mail m => NulFree m
  | getData k => NulFree k
  | setData k v => NulFree k ∧ NulFree v
  | _ => True

/-- The storage answers for the names, pointers are those of cached accounts, ids do not run out, and what is marked can
be written before a restart. -/
def Deed.Sane (env : Env) (s : Store) : Deed → Prop
  | .look key => Answered env s key
  | .change p x => Held s p ∧ x.Texts
  | .befriend p q => Held s p ∧ Held s q
  | .create n _ => Answered env s (.name n) ∧ NulFree n ∧ s.cache.nextUid.toNat + 1 < 2 ^ 32
  | .restart => Savable s

/-- What a deed is in the book. -/
def Deed.posting (s : Store) : Deed → Posting
  | .look _ | .restart => .nothing
  | .change p x => .change (s.cache.get p).id x
  | .befriend p q => .befriend (s.cache.get p).id (s.cache.get q).id
  | .create n _ => .new s.cache.nextUid n

/-! ### Changes -/

theorem fields_apply (x : Change) (u : UserCacheItem) : fields (x.apply u) = x.put (fields u) := by
  cases x with
  | salt b =>
    obtain ⟨d, hd⟩ := u.setSalt_eq b
    exact (congrArg fields hd).trans rfl
  | verifier b =>
    obtain ⟨d, hd⟩ := u.setVerifier_eq b
    exact (congrArg fields hd).trans rfl
  | passwd b =>
    obtain ⟨d, hd⟩ := u.setPasswd_eq b
    exact (congrArg fields hd).trans rfl
  | mail m =>
    obtain ⟨d, hd⟩ := u.setMail_eq m
    exact (congrArg fields hd).trans rfl
  | getData k => exact fields_getData u k
  | setData k v =>
    obtain ⟨m, d, hm⟩ := u.setData_eq k v
    have hrest : fields (u.setData k v) = { fields u with data := (fields (u.setData k v)).data } := by
      rw [hm]
      rfl
    have hdata : (fields (u.setData k v)).data = fun k' => if nameEq.eqv k k' then v else (fields u).data k' := by
      funext k'
      rw [data_fields, getData_setData, data_fields]
    exact hrest.trans (congrArg (fun data => { fields u with data := data }) hdata)
  | removeFriend idx => exact (regroups_removeFriend u idx).fields
  | moveFriend idx1 idx2 => exact (regroups_moveFriend u idx1 idx2).fields

theorem sets_or_regroups (x : Change) (u : UserCacheItem) :
    Sets u (x.apply u) ∨ x.regroups ∧ Regroups u (x.apply u) := by
  cases x with
  | salt b => exact .inl (.setSalt u b)
  | verifier b => exact .inl (.setVerifier u b)
  | passwd b => exact .inl (.setPasswd u b)
  | mail m => exact .inl (.setMail u m)
  | getData k => exact .inl (.getData u k)
  | setData k v => exact .inl (.setData u k v)
  | removeFriend idx => exact .inr ⟨trivial, regroups_removeFriend u idx⟩
  | moveFriend idx1 idx2 => exact .inr ⟨trivial, regroups_moveFriend u idx1 idx2⟩

theorem mail_apply {x : Change} (hx : x.Texts) (h : NulFree u.mail) : NulFree (x.apply u).mail := by
  have hmail : (x.apply u).mail = (x.put (fields u)).mail := congrArg Fields.mail (fields_apply x u)
  rw [hmail]
  cases x with
  | mail m => exact hx
  | _ => exact h

theorem data_apply {x : Change} (hx : x.Texts) (h : Tidy u.dataMap) : Tidy (x.apply u).dataMap := by
  have hsame : ∀ {v : UserCacheItem}, v.dataMap = u.dataMap → Tidy v.dataMap := fun he => he ▸ h
  cases x with
  | salt b =>
    obtain ⟨d, hd⟩ := u.setSalt_eq b
    exact hsame (congrArg UserCacheItem.dataMap hd :)
  | verifier b =>
    obtain ⟨d, hd⟩ := u.setVerifier_eq b
    exact hsame (congrArg UserCacheItem.dataMap hd :)
  | passwd b =>
    obtain ⟨d, hd⟩ := u.setPasswd_eq b
    exact hsame (congrArg UserCacheItem.dataMap hd :)
  | mail m =>
    obtain ⟨d, hd⟩ := u.setMail_eq m
    exact hsame (congrArg UserCacheItem.dataMap hd :)
  | getData k => exact h.getData hx
  | setData k v => exact h.setData hx.1 hx.2
  | removeFriend idx => exact hsame (regroups_removeFriend u idx).dataMap
  | moveFriend idx1 idx2 => exact hsame (regroups_moveFriend u idx1 idx2).dataMap

/-- A change marks what it changes. -/
theorem marked_apply (ht : Tended s i p) {x : Change} (hx : x.Texts) : Marked s p (x.apply (s.cache.get p)) := by
  rcases sets_or_regroups x (s.cache.get p) with h | ⟨-, h⟩
  · exact .of_sets ht h (mail_apply hx ht.mail) (data_apply hx ht.data)
  · exact .of_regroups ht h

/-- Pages that agree but for one. -/
theorem eq_update {b b' : Book} {a : Account} (hi : b' i = some a) (ho : ∀ j ≠ i, b' j = b j) :
    b' = Function.update b i (some a) := by
  funext j
  by_cases hj : j = i
  · rw [hj, Function.update_self, hi]
  · rw [Function.update_of_ne hj, ho j hj]

theorem step_change {x : Change} (h : InOrder s) (hp : Held s p) (hx : x.Texts) :
    InOrder ⟨s.cache.modify p x.apply, s.db⟩ ∧
      Book.Step (account s) (.change (s.cache.get p).id x) (account ⟨s.cache.modify p x.apply, s.db⟩) := by
  obtain ⟨i, hi⟩ := hp
  obtain ⟨hin, hother⟩ := h.mark hi (marked_apply (h.tended hi) hx)
  rw [(h.sound.coherent.id hi).2.1]
  have hself : (s.cache.modify p x.apply).get p = x.apply (s.cache.get p) := Heap.modify_self ..
  have hacc : account ⟨s.cache.modify p x.apply, s.db⟩ i =
      some ⟨fields (x.apply (s.cache.get p)), circle ⟨s.cache.modify p x.apply, s.db⟩ p⟩ := by
    rw [account_cached (s := ⟨s.cache.modify p x.apply, s.db⟩) hi]
    dsimp only
    rw [hself]
  have hcircle : ∀ k, k ∈ circle ⟨s.cache.modify p x.apply, s.db⟩ p ↔
      ∃ g ∈ (x.apply (s.cache.get p)).friendList, s.cache.findId k = some g.user := fun k => by
    show (∃ q ∈ ((s.cache.modify p x.apply).get p).friendList.map Friend.user, s.cache.findId k = some q) ↔ _
    rw [hself]
    simp
  refine ⟨hin, _, _, account_cached hi, fields_apply x _, ?_, eq_update hacc hother⟩
  have hold : ∀ k, k ∈ circle s p ↔ ∃ g ∈ (s.cache.get p).friendList, s.cache.findId k = some g.user := fun k => by
    show (∃ q ∈ (s.cache.get p).friendList.map Friend.user, s.cache.findId k = some q) ↔ _
    simp
  rcases sets_or_regroups x (s.cache.get p) with hsets | ⟨hre, hsome⟩
  · refine .inl (Set.ext fun k => ?_)
    rw [hcircle, hold, hsets.friendList]
  · refine .inr ⟨hre, fun k hk => ?_⟩
    obtain ⟨g, hg, hk⟩ := (hcircle k).mp hk
    exact (hold k).mpr ⟨g, hsome.subset g hg, hk⟩

/-! ### Friends and new accounts -/

theorem circle_push (h : InOrder s) (hj : s.cache.findId j = some q) {heap : Heap UserCacheItem}
    (hu : users heap p = users s.cache.heap p ++ [q]) : circle (s.setHeap heap) p = insert j (circle s p) := by
  ext k
  show (∃ r ∈ users heap p, s.cache.findId k = some r) ↔ k = j ∨ ∃ r ∈ users s.cache.heap p, s.cache.findId k = some r
  have hjk : s.cache.findId k = some q ↔ k = j :=
    ⟨fun hk => h.sound.coherent.id_inj hk hj, fun e => e ▸ hj⟩
  rw [hu]
  simp only [List.mem_append, List.mem_singleton, or_and_right, exists_or, exists_eq_left, hjk]
  exact or_comm

theorem step_befriend (h : InOrder s) (hp : Held s p) (hq : Held s q) :
    InOrder (s.setHeap (addFriend s.cache.heap p (some q)).1) ∧
      Book.Step (account s) (.befriend (s.cache.get p).id (s.cache.get q).id)
        (account (s.setHeap (addFriend s.cache.heap p (some q)).1)) := by
  obtain ⟨i, hi⟩ := hp
  obtain ⟨j, hj⟩ := hq
  obtain ⟨hin, hother⟩ := h.befriend hi hj
  rw [(h.sound.coherent.id hi).2.1, (h.sound.coherent.id hj).2.1]
  have hknown : account s j ≠ none := account_ne_none.mpr (.inl (by simp [hj]))
  have hacc := account_cached (s := s.setHeap (addFriend s.cache.heap p (some q)).1) hi
  refine ⟨hin, _, _, account_cached hi, hknown, ?_, eq_update hacc hother⟩
  rcases addFriend_outcome s.cache.heap p q with ⟨-, he⟩ | ⟨_, -, -, he⟩ | ⟨hne, -, -, he⟩
  · rw [he]
    exact .inl rfl
  · rw [he]
    exact .inl rfl
  · -- the friend is put at the end of the list
    have husers := users_push s.cache.heap p q (decide (Lists s.cache.heap q p)) p
    rw [if_pos rfl] at husers
    have hfields : fields (((markBack s.cache.heap p q).cell p).pushFriend ⟨decide (Lists s.cache.heap q p), q⟩) =
        fields (s.cache.get p) := by
      have hcore := core_of_unflagged (unflagged_markBack s.cache.heap p q p)
      exact fields_of_core hcore
    have hcircle : circle (s.setHeap (addFriend s.cache.heap p (some q)).1) p = insert j (circle s p) :=
      circle_push h hj (by rw [he, husers])
    refine .inr ⟨fun hij => hne (Option.some.inj ((hij ▸ hj).symm.trans hi)), ?_⟩
    rw [hcircle, ← hfields, he]
    dsimp only [Store.setHeap, UserCache.get]
    rw [Heap.modify_self]

/-- What a new account is set up with is neither its name nor its mail, data or friends. -/
theorem keeps_setup (f : Setup) (u : UserCacheItem) : (f.apply u).id = u.id ∧ (f.apply u).username = u.username ∧
    (f.apply u).mail = u.mail ∧ (f.apply u).dataMap = u.dataMap ∧ (f.apply u).friendList = u.friendList := by
  cases f with
  | nls salt verifier =>
    obtain ⟨d₁, h₁⟩ := u.setSalt_eq salt
    obtain ⟨d₂, h₂⟩ := (u.setSalt salt).setVerifier_eq verifier
    obtain ⟨d₃, h₃⟩ := ((u.setSalt salt).setVerifier verifier).setFlag_eq
      (((u.setSalt salt).setVerifier verifier).flag ||| UCF_NLSAUTH)
    unfold Setup.apply UserCacheItem.addFlag
    dsimp only
    rw [h₃, h₂, h₁]
    exact ⟨rfl, rfl, rfl, rfl, rfl⟩
  | ols pwd =>
    obtain ⟨d₁, h₁⟩ := u.setPasswd_eq pwd
    obtain ⟨d₂, h₂⟩ := (u.setPasswd pwd).setFlag_eq ((u.setPasswd pwd).flag ||| UCF_OLSAUTH)
    unfold Setup.apply UserCacheItem.addFlag
    dsimp only
    rw [h₂, h₁]
    exact ⟨rfl, rfl, rfl, rfl, rfl⟩

theorem dirty_addFlag (h : u.flag = 0) {f : UInt32} (hf : f ≠ 0) : (u.addFlag f).dirty = true := by
  unfold UserCacheItem.addFlag UserCacheItem.setFlag
  rw [h, UInt32.zero_or, if_neg hf.symm]

/-- The flag is what marks a new account: its passwords may be what the memory had. -/
theorem dirty_setup (f : Setup) (hu : u.flag = 0) : (f.apply u).dirty = true := by
  cases f with
  | nls salt verifier =>
    obtain ⟨d₁, h₁⟩ := u.setSalt_eq salt
    obtain ⟨d₂, h₂⟩ := (u.setSalt salt).setVerifier_eq verifier
    refine dirty_addFlag ?_ (by decide)
    rw [h₂, h₁]
    exact hu
  | ols pwd =>
    obtain ⟨d₁, h₁⟩ := u.setPasswd_eq pwd
    refine dirty_addFlag ?_ (by decide)
    rw [h₁]
    exact hu

/-- Where the name of an account is. -/
theorem InOrder.named (h : InOrder s) {a : Account} (ha : account s i = some a) :
    (∃ p, s.cache.findId i = some p ∧ s.cache.findName a.fields.username = some p) ∨
      ∃ r ∈ s.db.users, uid r = i ∧ a.fields.username = r.username := by
  rcases hi : s.cache.findId i with _ | p
  · obtain ⟨r, hr, hri⟩ := row_of_account ha hi
    rw [account_row h.sound.db hi hr hri, Option.some.injEq] at ha
    refine .inr ⟨r, hr, hri, ?_⟩
    rw [← ha]
    show (fillRow r _).username = r.username
    rw [fillRow_eq]
    exact cstr_of_nulFree (h.sound.db.nulFree r hr)
  · rw [account_cached hi, Option.some.injEq] at ha
    refine .inl ⟨p, rfl, ?_⟩
    rw [← ha]
    exact (h.sound.coherent.id hi).2.2.2

/-- **No two accounts have one name**, whatever its case. -/
theorem InOrder.name_inj (h : InOrder s) {a b : Account} (ha : account s i = some a) (hb : account s j = some b)
    (he : strcmpiEq a.fields.username b.fields.username = true) : i = j := by
  have hc := h.sound.coherent
  have hfind := s.cache.findName_congr he
  rcases h.named ha with ⟨p, hi, hp⟩ | ⟨r, hr, hri, hname⟩
  · rcases h.named hb with ⟨q, hj, hq⟩ | ⟨r, hr, hrj, hname⟩
    · obtain rfl : p = q := Option.some.inj (hp.symm.trans (hfind.trans hq))
      exact hc.id_inj hi hj
    · rw [hname] at hfind
      rw [← (hc.id hi).2.1, ← hrj]
      exact hc.row r hr (hfind.symm.trans hp)
  · rcases h.named hb with ⟨q, hj, hq⟩ | ⟨r', hr', hrj, hname'⟩
    · rw [hname] at hfind
      rw [← (hc.id hj).2.1, ← hri]
      exact (hc.row r hr (hfind.trans hq)).symm
    · rw [hname, hname'] at he
      rw [← hri, ← hrj, h.sound.db.eq_of_name hr hr' he]

theorem step_create {n : Text} {a : Option Ptr} {store : Store} (f : Setup) (h : InOrder s)
    (hx : Answered env s (.name n)) (hn : NulFree n) (hnext : s.cache.nextUid.toNat + 1 < 2 ^ 32)
    (hl : lookup env env.depth s (.name n) = some (a, store))
    (ha : ∀ p, a = some p → (store.cache.get p).isExist = false) :
    InOrder (added env store n f.apply) ∧
      Book.Step (account s) (.new s.cache.nextUid n) (account (added env store n f.apply)) := by
  obtain ⟨hin, hsame⟩ := h.look hx hl
  have hans := answers_of_answered h.sound.db h.sound.coherent hx hl
  have huid : store.cache.nextUid = s.cache.nextUid := hans.loaded.next h.sound.rowBelow
  obtain ⟨hname, hrow⟩ := free_of_answer hin.sound.db hans ha
  rw [← huid] at hnext ⊢
  rw [← funext hsame]
  obtain ⟨hin', hother, hnew⟩ : InOrder (added env store n f.apply) ∧ _ :=
    hin.added (fun u => ⟨(keeps_setup f u).1, (keeps_setup f u).2.1⟩) hname hrow hnext hn (fun _ => dirty_setup f)
      (fun u => (keeps_setup f u).2.2.1) (fun u => (keeps_setup f u).2.2.2.1) fun u => (keeps_setup f u).2.2.2.2
  have hfree : account store store.cache.nextUid = none :=
    not_not.mp fun hc => nextUid_free hin.sound (account_ne_none.mp hc)
  refine ⟨hin', hfree, fun j b hb => ?_, _, ?_, rfl, eq_update hnew hother⟩
  · by_contra hne
    have he : strcmpiEq b.fields.username n = true := by simpa using hne
    rcases hin.named hb with ⟨p, hj, hp⟩ | ⟨r, hr, -, hr'⟩
    · have hid := hname p ((store.cache.findName_congr he).symm.trans hp)
      rw [(hin.sound.coherent.id hj).2.1] at hid
      exact (hin.sound.coherent.id hj).2.2.1 hid
    · have hfalse := hrow r hr
      rw [← hr', strcmpiEq_symm he] at hfalse
      cases hfalse
  · exact (keeps_setup f _).2.1

/-! ### Runs -/

/-- **Every deed is its posting.** -/
theorem Deed.Step.posted {x : Deed} (h : InOrder s) (hok : x.Sane env s) (hs : x.Step env s s') :
    InOrder s' ∧ Book.Step (account s) (x.posting s) (account s') := by
  cases x with
  | look key =>
    obtain ⟨a, hl⟩ := hs
    obtain ⟨hin, hsame⟩ := h.look hok hl
    exact ⟨hin, funext hsame⟩
  | change p x =>
    obtain rfl : s' = _ := hs
    exact step_change h hok.1 hok.2
  | befriend p q =>
    obtain rfl : s' = _ := hs
    exact step_befriend h hok.1 hok.2
  | create n f =>
    obtain ⟨a, store, hl, ha, rfl⟩ := hs
    exact step_create f h hok.1 hok.2.1 hok.2.2 hl ha
  | restart =>
    obtain rfl : s' = reopen env.eng s := hs
    obtain ⟨hin, hsame⟩ := reopen_spec env.eng h hok
    exact ⟨hin, funext hsame⟩

/-- A step of the server as a step of the book. -/
def posted (x : Entry Store Deed) : Entry Book Posting := ⟨account x.before, x.event.posting x.before, account x.after⟩

theorem accounts_posted {hist : List (Entry Store Deed)} (h₀ : InOrder s₀)
    (hr : Run (Deed.Step env) s₀ hist s) (hok : Allowed (fun _ => Deed.Sane env) hist) :
    InOrder s ∧ Run Book.Step (account s₀) (hist.map posted) (account s) := by
  refine Run.invariant (I := fun hist s => InOrder s ∧ Run Book.Step (account s₀) (hist.map posted) (account s))
    ⟨h₀, .nil⟩ (fun {hist s x s'} hI hsane hs => ?_) hr hok
  obtain ⟨hin, hstep⟩ := Deed.Step.posted hI.1 hsane hs
  exact ⟨hin, .snoc hI.2 hstep⟩

/-- **The account store is a book of accounts.** -/
theorem run_posted {hist : List (Entry Store Deed)} (h₀ : InOrder s₀)
    (hr : Run (Deed.Step env) s₀ hist s) (hok : Allowed (fun _ => Deed.Sane env) hist) :
    Run Book.Step (account s₀) (hist.map posted) (account s) := (accounts_posted h₀ hr hok).2

/-- Tables with one account. -/
def aliceRow : UserRow := savedRow ((UserCacheItem.new (str "alice") (Buf.zero 20)).setUserId 1)

def aliceStore : Store := loadFromDB ⟨.new, ⟨[aliceRow], []⟩⟩

theorem inOrder_aliceStore : InOrder aliceStore := by
  refine inOrder_loadFromDB ⟨⟨List.pairwise_singleton _ _, List.pairwise_singleton _ _⟩, ?_, ?_⟩ ?_ (by decide)
    ⟨⟨fun i => Nat.zero_le _, fun i => List.not_mem_nil⟩, fun i j hj => ?_, fun i hi => ?_⟩
  · intro r hr
    rw [List.mem_singleton.mp hr]
    decide
  · intro r hr
    rw [List.mem_singleton.mp hr]
    decide
  · intro r hr
    rw [List.mem_singleton.mp hr]
    exact rowCreds_savedRow _
  · cases hj
  · exact absurd rfl hi

def bobLooked : Store := ((lookup idleEnv idleEnv.depth aliceStore (.name (str "bob"))).getD (none, aliceStore)).2

def bobAdded : Store := added idleEnv bobLooked (str "bob") (Setup.ols (Buf.zero 20)).apply

/-- A second account, and a restart. -/
def bobHist : List (Entry Store Deed) :=
  [⟨bobAdded, .restart, reopen idleEnv.eng bobAdded⟩, ⟨aliceStore, .create (str "bob") (.ols (Buf.zero 20)), bobAdded⟩]

theorem run_bobHist : Run (Deed.Step idleEnv) aliceStore bobHist (reopen idleEnv.eng bobAdded) :=
  .snoc (.snoc .nil ⟨none, bobLooked, rfl, fun p hp => (by cases hp), rfl⟩) rfl

theorem sane_bobHist : Allowed (fun _ => Deed.Sane idleEnv) bobHist := by
  have hnext : aliceStore.cache.nextUid = 2 := rfl
  refine ⟨fun {i p} hi _ => ?_, ⟨.inr (exact_of_plain _ _ (by decide) (by decide)), by decide, ?_⟩, trivial⟩
  · have hi : find KeyEq.ofEq [((2 : UInt32), (1 : Ptr))] i = some p := hi
    have hp : p = 1 := by
      simp only [find] at hi
      split_ifs at hi
      exact (Option.some.inj hi).symm
    rw [hp]
    decide
  · rw [hnext]
    decide

/-- The two steps in the book. -/
theorem run_posted_bob : Run Book.Step (account aliceStore) (bobHist.map posted)
    (account (reopen idleEnv.eng bobAdded)) := run_posted inOrder_aliceStore run_bobHist sane_bobHist

/-- **No account is lost**: after any run it is found by its id, under its name, and with all it had unless something was
done to it since. -/
theorem kept_and_found {hist : List (Entry Store Deed)} {a : Account} {k : ℕ} (h₀ : InOrder s₀)
    (hr : Run (Deed.Step env) s₀ hist s) (hok : Allowed (fun _ => Deed.Sane env) hist)
    (ha : account s₀ i = some a) (hk : s.db.users.length < k) :
    ∃ a' q s', lookup env k s (.id i) = some (some q, s') ∧ s'.cache.findId i = some q ∧ account s' i = some a' ∧
      a'.fields.username = a.fields.username ∧
      ((∀ x ∈ hist, ¬ (x.event.posting x.before).About i) → a' = a) := by
  obtain ⟨hin, hbook⟩ := accounts_posted h₀ hr hok
  obtain ⟨a', ha', hname, hsame⟩ := Book.kept hbook ha
  obtain ⟨q, s', hl, hq, hfound⟩ := found_again env hin ha' hk
  refine ⟨a', q, s', hl, hq, hfound, hname, fun hall => hsame fun x hx => ?_⟩
  obtain ⟨y, hy, rfl⟩ := List.mem_map.mp hx
  exact hall y hy

theorem account_aliceStore : account aliceStore 1 = some ⟨rowFields aliceRow, {j | j ∈ storedFriends aliceStore.db 1}⟩ :=
  account_row inOrder_aliceStore.sound.db rfl List.mem_cons_self (by decide)

/-- The first account after the second one was added, and a restart. -/
theorem kept_and_found_alice : ∃ k q s', lookup idleEnv k (reopen idleEnv.eng bobAdded) (.id 1) = some (some q, s') ∧
    account s' 1 = some ⟨rowFields aliceRow, {j | j ∈ storedFriends aliceStore.db 1}⟩ := by
  obtain ⟨a', q, s', hl, -, ha', -, hsame⟩ :=
    kept_and_found inOrder_aliceStore run_bobHist sane_bobHist account_aliceStore (Nat.lt_succ_self _)
  refine ⟨_, q, s', hl, ha'.trans (congrArg some (hsame fun x hx => ?_))⟩
  rcases List.mem_cons.mp hx with rfl | hx
  · exact id
  · rw [List.mem_singleton.mp hx]
    show ¬ aliceStore.cache.nextUid = 1
    decide

/-- **A name stays with its account**: no other one ever gets it, in whatever case. -/
theorem named_alone {hist : List (Entry Store Deed)} {a : Account} (h₀ : InOrder s₀)
    (hr : Run (Deed.Step env) s₀ hist s) (hok : Allowed (fun _ => Deed.Sane env) hist) (ha : account s₀ i = some a) :
    {j | ∃ b, account s j = some b ∧ strcmpiEq a.fields.username b.fields.username = true} = {i} := by
  obtain ⟨hin, hbook⟩ := accounts_posted h₀ hr hok
  obtain ⟨a', ha', hname, -⟩ := Book.kept hbook ha
  ext j
  constructor
  · rintro ⟨b, hb, he⟩
    exact (hin.name_inj ha' hb (hname ▸ he)).symm
  · rintro rfl
    exact ⟨a', ha', hname ▸ strcmpiEq_refl _⟩

theorem named_alone_alice : {j | ∃ b, account (reopen idleEnv.eng bobAdded) j = some b ∧
    strcmpiEq (rowFields aliceRow).username b.fields.username = true} = {1} :=
  named_alone inOrder_aliceStore run_bobHist sane_bobHist account_aliceStore

end Blitzd.Plugins.Ledger
