import Blitzd.Lib.Run
import Blitzd.Cache.UserLookup
import Blitzd.Core.CommandFriend

/-! # Mutual friends

Accounts are looked up, clients change their account, and friends are added and removed in any order
(`FriendMove`). `RemoveFriend` leaves the flag of the other side as it is, and from the middle of a list it takes
out more than the friend: `flag_outlives_friend` is the run that shows the first. In every run that removes a
friend only from the last two places and when the friend does not list the client's account (`Parting`), the
flag of an entry says whether the friend has one in turn, and the name of a private game is shown to nobody
whom the player does not list (`flags_current`). -/

namespace Blitzd.Core.Command

open Blitzd.Lib Blitzd.Lib.Bytes Blitzd.Lib.KeyMap Blitzd.Cache Blitzd.Packets

inductive FriendMove
  | add (c : ConnId) (argr : Text)
  | remove (c : ConnId) (argr : Text)
  | lookup (key : Key)
  | setUser (c : ConnId) (user : Option Ptr)

/-- A client's account is one of the heap. -/
def FriendMove.Step (env : Env) (w : Server) : FriendMove → Server → Prop
  | .add c argr, w' => ∃ look out, commandFriend look c env .add argr w = some (w', out)
  | .remove c argr, w' => ∃ look out, commandFriend look c env .remove argr w = some (w', out)
  | .lookup key, w' => ∃ user store, Cache.lookup env env.depth w.store key = some (user, store) ∧
      w' = { w with store := store }
  | .setUser c user, w' => (∀ p ∈ user, p < w.store.cache.heap.brk) ∧ w' = w.setUser c user

/-- At the start nobody has friends; accounts come with theirs when they are looked up. -/
structure FriendStart (w : Server) : Prop where
  bounded : Bounded w.store.cache
  user : ∀ c p, (w.client c).user = some p → p < w.store.cache.heap.brk
  friends : ∀ p, (w.item p).friendList = []

/-- A friend removed stands in one of the last two places and does not list the account. -/
def Parting (env : Env) (w : Server) : FriendMove → Prop
  | .remove c argr => ∀ u p i, Names env w argr u → (w.client c).user = some p →
      (w.item p).findFriend u = some i →
        (w.item p).friendList.length ≤ i + 2 ∧ (w.item u).findFriend p = none
  | _ => True

/-! ### Steps -/

/-- Pointers are allocated and flags are right. -/
structure FlagInv (w : Server) : Prop where
  bounded : Bounded w.store.cache
  user : ∀ c p, (w.client c).user = some p → p < w.store.cache.heap.brk
  amity : Amity w.store.cache.heap

section Step

variable {env : Env} {look : ConnId → ClientView} {c d : ConnId} {argr : Text} {w w' : Server} {out : List Sent}
  {store : Store} {user : Option Ptr} {key : Key} {p q u : Ptr} {verb : FriendVerb}

theorem FriendStart.inv (h : FriendStart w) : FlagInv w := by
  have hnil : ∀ p, Cache.friends w.store.cache.heap p = [] := h.friends
  refine ⟨h.bounded, h.user, fun _ => hnil _, fun {p q} hpq => ?_, fun p => ?_, fun {p f} hf => ?_⟩
  · rw [Cache.Lists, users, hnil] at hpq
    cases hpq
  · rw [users, hnil]
    exact List.nodup_nil
  · rw [hnil] at hf
    cases hf

/-- Whom the accounts that were there list. -/
theorem users_lookup {k : ℕ} {s s' : Store} (hb : Bounded s.cache) (hl : lookup env k s key = some (user, s'))
    (hp : p < s.cache.heap.brk) : users s'.cache.heap p = users s.cache.heap p :=
  (users_loadRule s.cache.heap.brk (users s.cache.heap)).lookup le_rfl hb (fun _ _ => rfl) hl p hp

theorem findFriend_congr {s s' : Store} (h : users s'.cache.heap p = users s.cache.heap p) (u : Ptr) :
    (s'.cache.get p).findFriend u = (s.cache.get p).findFriend u := by
  rw [UserCacheItem.findFriend_eq, UserCacheItem.findFriend_eq]
  exact congrArg _ h

theorem FlagInv.lookup {k : ℕ} (h : FlagInv w) (hl : Cache.lookup env k w.store key = some (user, store)) :
    FlagInv { w with store := store } := by
  obtain ⟨hk, -⟩ := lookup_keeps h.bounded hl
  exact ⟨hk.bounded, fun c p hp => (h.user c p hp).trans_le hk.heap.brk,
    amity_loadRule.lookup (Nat.zero_le _) h.bounded h.amity hl⟩

theorem FlagInv.added (h : FlagInv w) (hu : u < w.store.cache.heap.brk) (look : ConnId → ClientView)
    (c : ConnId) : FlagInv (addCommand look c u w).1 := by
  have hout := addCommand_outcome look c u w
  generalize addCommand look c u w = r at hout ⊢
  cases hout with
  | nothing => exact h
  | again => exact h
  | @pushed p _ hp _ _ _ hw =>
    subst hw
    have hk := keeps_setHeap h.bounded (addFriend_extends w.store.cache.heap p (some u))
    exact ⟨hk.bounded, fun c q hq => (h.user c q hq).trans_le hk.heap.brk, h.amity.addFriend (h.user c p hp) hu⟩

/-- One of the last two entries is taken out, of a friend who does not list the account. -/
theorem FlagInv.removeFriend (h : FlagInv w) {i : ℕ} (hf : (w.item p).findFriend u = some i)
    (hlast : (w.item p).friendList.length ≤ i + 2) (hno : ¬ Cache.Lists w.store.cache.heap u p) :
    FlagInv (w.modifyItem p fun x => (x.removeFriend i).2) := by
  obtain ⟨f, hi, rfl⟩ := users_of_findFriend hf
  have hlt : i < (w.item p).friendList.length := (List.getElem?_eq_some_iff.mp hi).1
  refine ⟨⟨h.bounded.name, h.bounded.id⟩, h.user, h.amity.erase hi hno rfl fun q => ?_⟩
  have herase := UserCacheItem.friendList_removeFriend_last hlt hlast
  have hmod := friends_modify w.store.cache.heap p q fun x => (x.removeFriend i).2
  exact hmod.trans (if_congr Iff.rfl herase rfl)

/-- `/f remove` on the user found, where the lists before the lookup are as they should. -/
theorem FlagInv.removed (h : FlagInv w)
    (hl : Cache.lookup env env.depth w.store (.name argr) = some (some u, store))
    (hok : Parting env w (.remove c argr)) : FlagInv (removeCommand c u { w with store := store }).1 := by
  have h1 := h.lookup hl
  rw [removeCommand]
  rcases withFriend_cases c u { w with store := store } _ with ⟨⟨out, he, -⟩, -⟩ | ⟨p, i, hp, hf, he⟩
  · rw [he]
    exact h1
  rw [he]
  have hus := users_lookup h.bounded hl (h.user c p hp)
  have hf0 : (w.item p).findFriend u = some i := (findFriend_congr hus u).symm.trans hf
  obtain ⟨hlen, hno⟩ := hok u p i ⟨store, hl⟩ hp hf0
  have hub : u < w.store.cache.heap.brk := by
    refine h.amity.allocated (p := p) ?_
    by_contra hno
    rw [← findFriend_eq_none] at hno
    exact absurd (hno.symm.trans hf0) (by simp)
  refine h1.removeFriend hf ?_ ?_
  · have hlen1 := congrArg List.length hus
    rw [users, users, List.length_map, List.length_map] at hlen1
    exact hlen1.trans_le hlen
  · rw [← findFriend_eq_none]
    exact (findFriend_congr (users_lookup h.bounded hl hub) p).trans hno

theorem FlagInv.step {m : FriendMove} (h : FlagInv w) (hok : Parting env w m) (hs : m.Step env w w') :
    FlagInv w' := by
  rcases m with ⟨c, argr⟩ | ⟨c, argr⟩ | key | ⟨c, user⟩
  · obtain ⟨look, out, hc⟩ := hs
    obtain ⟨user, store, hl, ⟨-, rfl, -⟩ | ⟨u, rfl, hu⟩⟩ := commandFriend_cases hc
    · exact h.lookup hl
    · have h1 := (h.lookup hl).added ((lookup_keeps h.bounded hl).2 u rfl) look c
      rw [onUser] at hu
      rwa [hu] at h1
  · obtain ⟨look, out, hc⟩ := hs
    obtain ⟨user, store, hl, ⟨-, rfl, -⟩ | ⟨u, rfl, hu⟩⟩ := commandFriend_cases hc
    · exact h.lookup hl
    · have h1 := h.removed hl hok
      rw [onUser] at hu
      rwa [hu] at h1
  · obtain ⟨user, store, hl, rfl⟩ := hs
    exact h.lookup hl
  · obtain ⟨hu, rfl⟩ := hs
    refine ⟨?_, fun d p hp => ?_, ?_⟩
    · rw [Server.setUser_store]
      exact h.bounded
    · rw [Server.setUser_store]
      by_cases hd : d = c
      · rw [hd, Server.setUser_client_self] at hp
        exact hu p hp
      · rw [Server.setUser_client_ne w user hd] at hp
        exact h.user d p hp
    · rw [Server.setUser_store]
      exact h.amity

end Step

/-! ### What friend packets disclose -/

/-- The `BNetFriendsList` of a client. -/
def friendsList (look : ConnId → ClientView) (c : ConnId) (w : Server) : Packet :=
  .friendsList ((w.client c).user.map fun p => (w.item p).friendList.map fun f =>
    some (friendView look w f (w.pool.findName (w.item f.user).username)))

/-- The friends a packet shows. -/
def shown : Packet → List FriendView
  | .friendAdd fr => fr.toList
  | .friendUpdate _ fr => fr.toList
  | .friendsList (some l) => l.filterMap id
  | _ => []

/-- Whoever is shown in a private game lists the account the packet is for: that of the client it goes to, or
the one whose client was looked for. -/
def Discreet (w : Server) (s : Sent) : Prop := ∀ fv ∈ shown s.packet, fv.whereabouts.location = 5 →
  ∃ p q, ((w.client s.conn).user = some p ∨ w.pool.findName (w.item p).username = some s.conn) ∧
    fv.username = (w.item q).username ∧ Cache.Lists w.store.cache.heap q p

section Discreet

variable {env : Env} {look : ConnId → ClientView} {c d : ConnId} {argr : Text} {w w' : Server} {out : List Sent}
  {p q u : Ptr} {verb : FriendVerb} {f : Friend} {cl : Option ConnId}

/-- A private game is shown for entries with the flag only. -/
theorem lists_of_location (h : Amity w.store.cache.heap) (hf : f ∈ (w.item p).friendList)
    (hloc : (friendView look w f cl).whereabouts.location = 5) : Cache.Lists w.store.cache.heap f.user p :=
  (h.flag hf).mp (FriendView.isMutual_of_location hloc)

theorem discreet_friendsList (h : Amity w.store.cache.heap) (look : ConnId → ClientView) (c : ConnId) :
    Discreet w ⟨c, friendsList look c w⟩ := by
  intro fv hfv hloc
  unfold friendsList at hfv
  rcases hu : (w.client c).user with _ | p
  · rw [hu] at hfv
    cases hfv
  · rw [hu] at hfv
    obtain ⟨f, hf, rfl⟩ : ∃ f ∈ (w.item p).friendList,
        friendView look w f (w.pool.findName (w.item f.user).username) = fv := by
      simpa [shown] using hfv
    exact ⟨p, f.user, .inl rfl, rfl, lists_of_location h hf hloc⟩

/-- Packets that show no friend. -/
theorem discreet_of_shown (h : ∀ s ∈ out, shown s.packet = []) : ∀ s ∈ out, Discreet w s := by
  intro s hs fv hfv
  rw [h s hs] at hfv
  cases hfv

theorem discreet_of_messages (h : Messages out) : ∀ s ∈ out, Discreet w s := by
  refine discreet_of_shown fun s hs => ?_
  obtain ⟨d, text, rfl⟩ := h s hs
  rfl

/-- A packet about an entry of the list of `p`. -/
theorem discreet_entry (h : Amity w.store.cache.heap) {i : ℕ} {pk : Option FriendView → Packet}
    (hpk : ∀ fr, shown (pk fr) = fr.toList)
    (hd : (w.client d).user = some p ∨ w.pool.findName (w.item p).username = some d) :
    Discreet w ⟨d, pk (((w.item p).getFriend i).map fun f => friendView look w f cl)⟩ := by
  intro fv hfv hloc
  rw [hpk] at hfv
  obtain ⟨f, hf, rfl⟩ := Option.map_eq_some_iff.mp (Option.mem_toList.mp hfv)
  exact ⟨p, f.user, hd, rfl, lists_of_location h (List.mem_of_getElem? hf) hloc⟩

theorem discreet_announce (h : Amity w.store.cache.heap) (hp : (w.client c).user = some p) {i : ℕ}
    {back : Option ℕ} : ∀ s ∈ announce look c p u i back w, Discreet w s := by
  obtain ⟨out, cl, text, he, hout⟩ := announce_cases look c p u i back w
  rw [he]
  intro s hs
  rcases List.mem_append.mp hs with hs | hs
  · rcases hout s hs with ⟨d, text, rfl⟩ | ⟨d, j, hd, rfl⟩
    · exact discreet_of_messages (messages_info d text) _ (List.mem_singleton_self _)
    · exact discreet_entry h (fun _ => rfl) (.inr hd)
  · rcases List.mem_pair.mp hs with rfl | rfl
    · exact discreet_entry h (fun _ => rfl) (.inl hp)
    · exact discreet_of_messages (messages_info c text) _ (List.mem_singleton_self _)

theorem discreet_withFriend {k : Ptr → ℕ → Server × List Sent}
    (hk : ∀ p i, ∀ s ∈ (k p i).2, shown s.packet = []) :
    ∀ s ∈ (withFriend c u w k).2, Discreet (withFriend c u w k).1 s := by
  rcases withFriend_cases c u w k with ⟨⟨out, he, hm⟩, -⟩ | ⟨p, i, -, -, he⟩
  · rw [he]
    exact discreet_of_messages hm
  · rw [he]
    exact discreet_of_shown (hk p i)

theorem discreet_remove : ∀ s ∈ (removeCommand c u w).2, Discreet (removeCommand c u w).1 s := by
  refine discreet_withFriend fun p i s hs => ?_
  rcases List.mem_pair.mp hs with rfl | rfl <;> rfl

/-- A move shows nobody, made or not. -/
theorem shown_position {P : Prop} [Decidable P] {w1 : Server} {i j : UInt8} :
    ∀ s ∈ (if P then (w1, [⟨c, .friendPosition i j⟩]) else (w, ([] : List Sent))).2, shown s.packet = [] := by
  intro s hs
  split_ifs at hs
  · rw [List.mem_singleton.mp hs]
    rfl
  · cases hs

theorem discreet_demote : ∀ s ∈ (demoteCommand c u w).2, Discreet (demoteCommand c u w).1 s :=
  discreet_withFriend fun _ _ => shown_position

theorem discreet_promote : ∀ s ∈ (promoteCommand c u w).2, Discreet (promoteCommand c u w).1 s :=
  discreet_withFriend fun _ _ => shown_position

theorem discreet_command (h : FlagInv w) (hc : commandFriend look c env verb argr w = some (w', out)) :
    ∀ s ∈ out, Discreet w' s := by
  obtain ⟨user, store, hl, ⟨-, rfl, text, rfl⟩ | ⟨u, rfl, hu⟩⟩ := commandFriend_cases hc
  · exact discreet_of_messages (messages_info c text)
  have h1 := h.lookup hl
  cases verb with
  | add =>
    have hinv := h1.added ((lookup_keeps h.bounded hl).2 u rfl) look c
    have hout := addCommand_outcome look c u { w with store := store }
    rw [onUser] at hu
    rw [hu] at hinv hout
    cases hout with
    | nothing hm => exact discreet_of_messages hm
    | again hp => exact discreet_announce hinv.amity hp
    | pushed hp _ _ _ hw => exact discreet_announce hinv.amity (by rw [hw]; exact hp)
  | remove =>
    rw [onUser] at hu
    simpa only [hu] using discreet_remove (c := c) (u := u) (w := { w with store := store })
  | demote =>
    rw [onUser] at hu
    simpa only [hu] using discreet_demote (c := c) (u := u) (w := { w with store := store })
  | promote =>
    rw [onUser] at hu
    simpa only [hu] using discreet_promote (c := c) (u := u) (w := { w with store := store })

end Discreet

/-! ### Runs -/

variable {env : Env} {w₀ w : Server} {hist : List (Entry Server FriendMove)}

/-- **The flags are current** along every run that parts as it should, and friend packets show private games to
listed friends only. -/
theorem flags_current (hs : FriendStart w₀) (hr : Run (FriendMove.Step env) w₀ hist w)
    (hok : Allowed (fun _ => Parting env) hist) :
    (∀ p, ∀ f ∈ (w.item p).friendList,
      (f.isMutual = true ↔ ∃ g ∈ (w.item f.user).friendList, g.user = p)) ∧
    (∀ look c, Discreet w ⟨c, friendsList look c w⟩) ∧
    ∀ look c verb argr w' out, commandFriend look c env verb argr w = some (w', out) →
      ∀ s ∈ out, Discreet w' s := by
  have hinv : FlagInv w := by
    refine Run.invariant (I := fun _ w => FlagInv w) hs.inv ?_ hr hok
    exact fun h hp hstep => h.step hp hstep
  refine ⟨fun p f hf => ?_, discreet_friendsList hinv.amity, fun look c verb argr w' out => discreet_command hinv⟩
  rw [hinv.amity.flag hf, Cache.Lists, users, List.mem_map]
  rfl

/-! ### Two accounts -/

theorem commandFriend_cached (look : ConnId → ClientView) (c : ConnId) (verb : FriendVerb) {argr : Text} {u : Ptr}
    (hk : w.store.cache.findKey (.name argr) = some u) (hex : (w.store.cache.get u).isExist = true) :
    commandFriend look c env verb argr w = some (onUser look c verb u w) := by
  unfold commandFriend
  rw [lookup_cached env env.depth _ hk, if_pos hex]

/-- `alice` and `bob`, online and without friends. -/
def pals : Server where
  clients := ⟨fun c => { (default : Client) with user := if c < 2 then some c else none }, 2⟩
  pool := ⟨[], []⟩
  store := ⟨⟨⟨fun p => { UserCacheItem.new (if p = 0 then str "alice" else str "bob") (Buf.zero 20) with
    id := UInt32.ofNat (p + 1) }, 2⟩, 3, 2, [(str "alice", 0), (str "bob", 1)], [(1, 0), (2, 1)]⟩, ⟨[], []⟩⟩

theorem start_pals : FriendStart pals := by
  refine ⟨bounded_of_maps (by simp [pals]) (by simp [pals]), fun c p hp => ?_, fun p => rfl⟩
  have hp : (if c < 2 then some c else none) = some p := hp
  split_ifs at hp with hc
  cases hp
  exact hc

/-- Clients that are in no game and no channel. -/
def idle : ConnId → ClientView := fun _ => ⟨0, none, none, [], []⟩

open UserLookup (idleEnv)

theorem pals_add : FriendMove.Step idleEnv pals (.add 0 (str "bob")) (addCommand idle 0 1 pals).1 :=
  ⟨idle, _, commandFriend_cached idle 0 .add (u := 1) (by decide) (by decide)⟩

/-- `alice` adds `bob`, who adds `alice` and removes `alice` again. -/
theorem flag_outlives_friend : FriendStart pals ∧ ∃ hist w, Run (FriendMove.Step idleEnv) pals hist w ∧
    ¬ ∀ p, ∀ f ∈ (w.item p).friendList,
      (f.isMutual = true ↔ ∃ g ∈ (w.item f.user).friendList, g.user = p) := by
  let w1 := (addCommand idle 0 1 pals).1
  let w2 := (addCommand idle 1 0 w1).1
  have h2 : FriendMove.Step idleEnv w1 (.add 1 (str "alice")) w2 :=
    ⟨idle, _, commandFriend_cached idle 1 .add (u := 0) (by decide) (by decide)⟩
  have h3 : FriendMove.Step idleEnv w2 (.remove 1 (str "alice")) (removeCommand 1 0 w2).1 :=
    ⟨idle, _, commandFriend_cached idle 1 .remove (u := 0) (by decide) (by decide)⟩
  refine ⟨start_pals, _, _, .snoc (.snoc (.snoc .nil pals_add) h2) h3, fun h => ?_⟩
  obtain ⟨g, hg, -⟩ := (h 0 ⟨true, 1⟩ (by decide)).mp rfl
  have hnil : ((removeCommand 1 0 w2).1.item 1).friendList = [] := by decide
  rw [hnil] at hg
  cases hg

/-- `alice` removes `bob`, who does not list `alice`. -/
theorem alice_parts : Parting idleEnv (addCommand idle 0 1 pals).1 (.remove 0 (str "bob")) := by
  rintro u p i ⟨store, hl⟩ hp hf
  rw [lookup_cached (p := 1) idleEnv idleEnv.depth _ (by decide)] at hl
  cases hp
  cases hl
  cases hf
  exact ⟨by decide, by decide⟩

/-- The run of `alice_parts`. -/
theorem flags_current_pals : ∃ hist w, Run (FriendMove.Step idleEnv) pals hist w ∧
    Allowed (fun _ => Parting idleEnv) hist ∧ ∀ p, ∀ f ∈ (w.item p).friendList,
      (f.isMutual = true ↔ ∃ g ∈ (w.item f.user).friendList, g.user = p) := by
  have h2 : FriendMove.Step idleEnv (addCommand idle 0 1 pals).1 (.remove 0 (str "bob"))
      (removeCommand 0 1 (addCommand idle 0 1 pals).1).1 :=
    ⟨idle, _, commandFriend_cached idle 0 .remove (u := 1) (by decide) (by decide)⟩
  have hr := Run.snoc (Run.snoc Run.nil pals_add) h2
  exact ⟨_, _, hr, ⟨alice_parts, trivial, trivial⟩,
    (flags_current start_pals hr ⟨alice_parts, trivial, trivial⟩).1⟩

end Blitzd.Core.Command
