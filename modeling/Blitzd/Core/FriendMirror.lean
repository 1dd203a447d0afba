import Blitzd.Lib.Run
import Blitzd.Core.FriendFlags

/-! # The friend list a client keeps

A client reads its friends from `BNetFriendsList` and then follows the packets the friend commands send it
(`receive`). The packets speak of an entry added at the end, taken out, or moved; the server adds no second entry
for the friend at the end of the list but tells the client so, takes out more than one entry, and overwrites an
entry by its neighbour instead of moving it. `mirror_iff` gives the commands after which the two lists still
agree (`Steady`). -/

namespace Blitzd.Core.Command

open Blitzd.Lib Blitzd.Lib.Bytes Blitzd.Lib.KeyMap Blitzd.Lib.Shift Blitzd.Cache Blitzd.Packets

/-- The names of the friends of an account. -/
def names (w : Server) (p : Ptr) : List Text := (w.item p).friendList.map fun f => (w.item f.user).username

/-- What a packet does to the client's list. -/
def receive (m : List Text) : Packet → List Text
  | .friendsList (some l) => ((l.take (l.length % 256)).filterMap id).map FriendView.username
  | .friendAdd (some fr) => m ++ [fr.username]
  | .friendRemove i => m.eraseIdx i.toNat
  | .friendPosition i j => moveTo m i.toNat j.toNat
  | _ => m

/-- What the packets to client `c` do to its list. -/
def receiveAll (c : ConnId) (m : List Text) (out : List Sent) : List Text :=
  out.foldl (fun m s => if s.conn = c then receive m s.packet else m) m

/-- A server and the list of the client. -/
structure Desk where
  server : Server
  mirror : List Text

/-- A command of client `c`. -/
def Desk.Step (env : Env) (c : ConnId) (s : Desk) (cmd : FriendVerb × Text) (s' : Desk) : Prop :=
  ∃ look out, commandFriend look c env cmd.1 cmd.2 s.server = some (s'.server, out) ∧
    s'.mirror = receiveAll c s.mirror out

/-- Of the user `u` listed at `i` among the friends of `p` with these names: not added again at the end of the
list; removed only where all behind it have one name; not moved past another name. -/
def SteadyAt (ns : List Text) (u p : Ptr) (i : ℕ) : FriendVerb → Prop
  | .add => u ≠ p → i + 1 ≠ ns.length
  | .remove => ∀ a ∈ ns.drop (i + 1), ∀ b ∈ ns.drop (i + 1), a = b
  | .demote => i + 1 < ns.length → ns[i]? = ns[i + 1]?
  | .promote => 0 < i → ns[i]? = ns[i - 1]?

def Steady (env : Env) (c : ConnId) (w : Server) (cmd : FriendVerb × Text) : Prop :=
  ∀ u p i, Names env w cmd.2 u → (w.client c).user = some p → (w.item p).findFriend u = some i →
    SteadyAt (names w p) u p i cmd.1

/-! ### What the client receives -/

section Receive

variable {look : ConnId → ClientView} {c : ConnId} {w : Server} {m : List Text} {out : List Sent} {p u : Ptr}
  {i : ℕ}

theorem receiveAll_append (out out' : List Sent) :
    receiveAll c m (out ++ out') = receiveAll c (receiveAll c m out) out' := List.foldl_append

theorem receiveAll_of_idle (h : ∀ s ∈ out, ∀ m, receive m s.packet = m) : receiveAll c m out = m := by
  induction out generalizing m with
  | nil => rfl
  | cons s out ih =>
    rw [List.forall_mem_cons] at h
    rw [receiveAll, List.foldl_cons, h.1, ite_self]
    exact ih h.2

theorem receiveAll_messages (h : Messages out) : receiveAll c m out = m := by
  refine receiveAll_of_idle fun s hs m => ?_
  obtain ⟨d, text, rfl⟩ := h s hs
  rfl

theorem receiveAll_position (c : ConnId) (m : List Text) (i j : UInt8) :
    receiveAll c m [⟨c, .friendPosition i j⟩] = moveTo m i.toNat j.toNat := if_pos rfl

/-- The client is told the entry at `i`. -/
theorem receiveAll_announce {f : Friend} (hf : (w.item p).getFriend i = some f) (back : Option ℕ) :
    receiveAll c m (announce look c p u i back w) = m ++ [(w.item f.user).username] := by
  obtain ⟨out, cl, text, he, hout⟩ := announce_cases look c p u i back w
  have hidle : receiveAll c m out = m := by
    refine receiveAll_of_idle fun s hs m => ?_
    rcases hout s hs with ⟨d, text, rfl⟩ | ⟨d, j, -, rfl⟩ <;> rfl
  rw [he, receiveAll_append, hidle, hf]
  simp [receiveAll, receive, friendView, info]

end Receive

/-! ### Names -/

/-- The account of the client, and what its friend list points to. -/
structure MirrorInv (c : ConnId) (p : Ptr) (w : Server) : Prop where
  bounded : Bounded w.store.cache
  user : (w.client c).user = some p
  account : p < w.store.cache.heap.brk
  friend : ∀ q ∈ users w.store.cache.heap p, q < w.store.cache.heap.brk
  length : (names w p).length < 256

section Names

variable {env : Env} {c : ConnId} {p q u : Ptr} {w w' : Server} {i : ℕ}

theorem names_eq (w : Server) (p : Ptr) :
    names w p = (users w.store.cache.heap p).map fun q => (w.item q).username := by
  rw [names, users, List.map_map]
  rfl

theorem length_names (w : Server) (p : Ptr) : (names w p).length = (w.item p).friendList.length :=
  List.length_map _

/-- Changes that keep whom the account lists. -/
theorem names_congr (h : ∀ q ∈ users w.store.cache.heap p, q < w.store.cache.heap.brk)
    (hx : Heap.Extends UserCacheItem.core w.store.cache.heap w'.store.cache.heap)
    (hu : users w'.store.cache.heap p = users w.store.cache.heap p) : names w' p = names w p := by
  rw [names_eq, names_eq, hu]
  refine List.map_congr_left fun q hq => ?_
  exact (id_username_of_core (hx.cell q (h q hq))).2

/-- A friend more at the end. -/
theorem names_append (h : ∀ q ∈ users w.store.cache.heap p, q < w.store.cache.heap.brk)
    (hx : Heap.Extends UserCacheItem.core w.store.cache.heap w'.store.cache.heap)
    (hu : users w'.store.cache.heap p = users w.store.cache.heap p ++ [u]) :
    names w' p = names w p ++ [(w'.item u).username] := by
  rw [names_eq, names_eq, hu, List.map_append]
  refine congrArg (· ++ _) (List.map_congr_left fun q hq => ?_)
  exact (id_username_of_core (hx.cell q (h q hq))).2

theorem getFriend_append (hu : users w'.store.cache.heap p = users w.store.cache.heap p ++ [u]) :
    ∃ f, (w'.item p).getFriend (w.item p).friendList.length = some f ∧ f.user = u := by
  have hlen : (users w.store.cache.heap p).length = (w.item p).friendList.length := List.length_map _
  have hlast : (users w'.store.cache.heap p)[(w.item p).friendList.length]? = some u := by
    rw [hu, ← hlen, List.getElem?_append_right le_rfl, Nat.sub_self]
    rfl
  rw [users, List.getElem?_map] at hlast
  exact Option.map_eq_some_iff.mp hlast

/-- Before the command proper, and without it. -/
theorem MirrorInv.lookup (h : MirrorInv c p w) {k : ℕ} {key : Key} {user : Option Ptr} {store : Store}
    (hl : Cache.lookup env k w.store key = some (user, store)) :
    MirrorInv c p { w with store := store } ∧ names { w with store := store } p = names w p := by
  obtain ⟨hk, -⟩ := lookup_keeps h.bounded hl
  have hus := users_lookup h.bounded hl h.account
  have hn : names { w with store := store } p = names w p := names_congr h.friend hk.heap hus
  refine ⟨⟨hk.bounded, h.user, h.account.trans_le hk.heap.brk, fun q hq => ?_, ?_⟩, hn⟩
  · have hq : q ∈ users w.store.cache.heap p := hus ▸ hq
    exact (h.friend q hq).trans_le hk.heap.brk
  · rw [hn]
    exact h.length

/-- A change of the client's own list. -/
theorem names_modifyItem {f : UserCacheItem → UserCacheItem} (hf : ∀ x, (f x).username = x.username) :
    names (w.modifyItem p f) p = (f (w.item p)).friendList.map fun g => (w.item g.user).username := by
  have hname : ∀ q, ((w.modifyItem p f).item q).username = (w.item q).username := by
    intro q
    by_cases hq : q = p
    · rw [hq, Server.modifyItem_item_self, hf]
    · rw [Server.modifyItem_item_ne w f hq]
  rw [names, Server.modifyItem_item_self]
  exact List.map_congr_left fun g _ => hname g.user

theorem MirrorInv.modifyItem (h : MirrorInv c p w) {f : UserCacheItem → UserCacheItem}
    (hsub : ∀ g ∈ (f (w.item p)).friendList, g ∈ (w.item p).friendList)
    (hlen : (f (w.item p)).friendList.length ≤ (w.item p).friendList.length) :
    MirrorInv c p (w.modifyItem p f) := by
  refine ⟨⟨h.bounded.name, h.bounded.id⟩, h.user, h.account, fun q hq => ?_, ?_⟩
  · have hq : q ∈ ((f (w.item p)).friendList).map Friend.user := by
      have hfr := friends_modify w.store.cache.heap p p f
      rw [if_pos rfl] at hfr
      exact (congrArg (List.map Friend.user) hfr) ▸ hq
    obtain ⟨g, hg, rfl⟩ := List.mem_map.mp hq
    exact h.friend _ (List.mem_map_of_mem (hsub g hg))
  · have := h.length
    rw [length_names] at this ⊢
    rw [Server.modifyItem_item_self]
    omega

end Names

/-! ### Commands -/

section Commands

variable {env : Env} {look : ConnId → ClientView} {c : ConnId} {p q u : Ptr} {w w' : Server} {i : ℕ}
  {verb : FriendVerb}

/-- The outcome of a command on the user `u`: the invariant, and when the client is still in step. -/
def Outcome (c : ConnId) (p u : Ptr) (w : Server) (verb : FriendVerb) (r : Server × List Sent) : Prop :=
  MirrorInv c p r.1 ∧ (receiveAll c (names w p) r.2 = names r.1 p ↔
    ∀ i, (w.item p).findFriend u = some i → SteadyAt (names w p) u p i verb)

theorem toNat_ofNat_of_lt (h : i < 256) : (UInt8.ofNat i).toNat = i := by
  rw [UInt8.toNat_ofNat']
  omega

/-- Nothing was done, and nothing was to be done. -/
theorem outcome_messages (h : MirrorInv c p w) {out : List Sent} (hm : Messages out)
    (hno : ∀ i, (w.item p).findFriend u = some i → SteadyAt (names w p) u p i verb) :
    Outcome c p u w verb (w, out) :=
  ⟨h, iff_of_true (receiveAll_messages hm) hno⟩

/-- The one place to look at. -/
theorem forall_place (hf : (w.item p).findFriend u = some i) {P : ℕ → Prop} :
    (∀ j, (w.item p).findFriend u = some j → P j) ↔ P i := by
  constructor
  · exact fun h => h i hf
  · intro h j hj
    rwa [Option.some.inj (hj.symm.trans hf)]

theorem outcome_add (h : MirrorInv c p w) (hu : u < w.store.cache.heap.brk) :
    Outcome c p u w .add (addCommand look c u w) := by
  have hout := addCommand_outcome look c u w
  generalize addCommand look c u w = r at hout ⊢
  cases hout with
  | nothing hm hno =>
    refine outcome_messages h hm fun i hf hne => ?_
    rw [length_names]
    exact hno p i h.user hne hf
  | @again q i hq hne hf hi =>
    obtain rfl : q = p := Option.some.inj (hq.symm.trans h.user)
    obtain ⟨f, hget, -⟩ := users_of_findFriend hf
    refine ⟨h, ?_⟩
    rw [receiveAll_announce hget none, forall_place hf, SteadyAt, length_names]
    refine iff_of_false (fun he => ?_) (fun hx => hx hne hi)
    have := congrArg List.length he
    rw [List.length_append, List.length_singleton] at this
    dsimp only at this
    omega
  | @pushed q w1 hq hne hno hlen hw hus =>
    obtain rfl : q = p := Option.some.inj (hq.symm.trans h.user)
    have hx : Heap.Extends UserCacheItem.core w.store.cache.heap w1.store.cache.heap := by
      rw [hw]
      exact addFriend_extends w.store.cache.heap q (some u)
    have husq := hus q
    rw [if_pos rfl] at husq
    have hnames := names_append h.friend hx husq
    -- the new entry is the one the packet is about
    obtain ⟨f, hget, hfu⟩ := getFriend_append husq
    have hk := keeps_setHeap h.bounded (addFriend_extends w.store.cache.heap q (some u))
    refine ⟨⟨?_, ?_, h.account.trans_le hx.brk, fun r hr => ?_, ?_⟩, ?_⟩
    · rw [hw]
      exact hk.bounded
    · rw [hw]
      exact h.user
    · rw [husq] at hr
      rcases List.mem_append.mp hr with hr | hr
      · exact (h.friend r hr).trans_le hx.brk
      · rw [List.mem_singleton.mp hr]
        exact hu.trans_le hx.brk
    · rw [hnames, List.length_append, length_names, List.length_singleton]
      omega
    · rw [receiveAll_announce hget, hfu, hnames]
      refine iff_of_true rfl fun i hf => ?_
      exact absurd hf (by rw [Server.item, UserCache.get, findFriend_eq_none.mpr hno]; simp)

/-- The commands on a friend: what they do at the friend's place is what counts. -/
theorem outcome_withFriend (h : MirrorInv c p w) {k : Ptr → ℕ → Server × List Sent}
    (hk : ∀ i, i < (w.item p).friendList.length → i < 256 → MirrorInv c p (k p i).1 ∧
      (receiveAll c (names w p) (k p i).2 = names (k p i).1 p ↔ SteadyAt (names w p) u p i verb)) :
    Outcome c p u w verb (withFriend c u w k) := by
  rcases withFriend_cases c u w k with ⟨⟨out, he, hm⟩, hno⟩ | ⟨q, i, hq, hf, he⟩
  · rw [he]
    exact outcome_messages h hm fun i hf => absurd hf (hno p i h.user)
  · obtain rfl : q = p := Option.some.inj (hq.symm.trans h.user)
    have hlt : i < (w.item q).friendList.length := (List.findIdx?_eq_some_iff_getElem.mp hf).1
    have hlen := h.length
    rw [length_names] at hlen
    rw [he, Outcome, forall_place hf]
    exact hk i hlt (hlt.trans hlen)

/-- `/f remove`: the client takes one entry out, the server spreads its last one. -/
theorem outcome_remove (h : MirrorInv c p w) : Outcome c p u w .remove (removeCommand c u w) := by
  refine outcome_withFriend h fun i hlt hbyte => ?_
  have hlist := UserCacheItem.friendList_removeFriend hlt
  have hname : ∀ x : UserCacheItem, (x.removeFriend i).2.username = x.username :=
    fun x => (id_username_of_core (x.core_removeFriend i)).2
  refine ⟨h.modifyItem (fun g hg => ?_) ?_, ?_⟩
  · rw [hlist, smear_eq hlt] at hg
    rcases List.mem_append.mp (List.mem_of_mem_take hg) with hg | hg
    · exact List.mem_of_mem_take hg
    · rw [List.eq_of_mem_replicate hg]
      exact List.getLast_mem _
  · rw [hlist, List.length_take, smear_eq hlt, List.length_append, List.length_take, List.length_replicate]
    omega
  · have hrec : receiveAll c (names w p) [⟨c, .friendRemove (UInt8.ofNat i)⟩,
        info c (str "Removed " ++ (w.item u).username ++ str " from your friend list.")] =
          (names w p).eraseIdx i := by
      simp [receiveAll, receive, info, toNat_ofNat_of_lt hbyte]
    rw [hrec, names_modifyItem hname, hlist, eq_comm]
    exact map_smear_iff _ hlt

/-- Two neighbours: the client swaps them, the server overwrites one by the other. -/
theorem outcome_overwrite (h : MirrorInv c p w) {a b : List Friend} {x y z : Friend}
    {f : UserCacheItem → UserCacheItem} (hl : (w.item p).friendList = a ++ x :: y :: b) (hz : z = x ∨ z = y)
    (hf : (f (w.item p)).friendList = a ++ z :: z :: b) (hname : ∀ u, (f u).username = u.username) :
    MirrorInv c p (w.modifyItem p f) ∧
      (moveTo (names w p) a.length (a.length + 1) = names (w.modifyItem p f) p ↔
        (w.item x.user).username = (w.item y.user).username) ∧
      moveTo (names w p) (a.length + 1) a.length = moveTo (names w p) a.length (a.length + 1) ∧
      (names w p)[a.length]? = some (w.item x.user).username ∧
      (names w p)[a.length + 1]? = some (w.item y.user).username := by
  have hns : names w p = a.map (fun g => (w.item g.user).username) ++ (w.item x.user).username ::
      (w.item y.user).username :: b.map fun g => (w.item g.user).username := by
    rw [names, hl, List.map_append, List.map_cons, List.map_cons]
  have hlen : (a.map fun g => (w.item g.user).username).length = a.length := List.length_map _
  have hup : moveTo (names w p) a.length (a.length + 1) = a.map (fun g => (w.item g.user).username) ++
      (w.item y.user).username :: (w.item x.user).username :: b.map fun g => (w.item g.user).username := by
    rw [hns, ← hlen]
    exact moveTo_up _ _ [_] _
  have hdown : moveTo (names w p) (a.length + 1) a.length = moveTo (names w p) a.length (a.length + 1) := by
    rw [hup, hns, ← hlen]
    exact moveTo_down _ _ [_] _
  refine ⟨h.modifyItem (fun g hg => ?_) ?_, ?_, hdown, ?_, ?_⟩
  · rw [hf] at hg
    rw [hl]
    simp only [List.mem_append, List.mem_cons] at hg ⊢
    rcases hz with rfl | rfl <;> tauto
  · rw [hf, hl]
    simp
  · rw [hup, names_modifyItem hname, hf, List.map_append, List.append_cancel_left_eq,
      List.map_cons, List.map_cons, List.cons.injEq, List.cons.injEq]
    rcases hz with rfl | rfl <;> simp [eq_comm]
  · rw [hns, ← hlen]
    simp
  · rw [hns, ← hlen]
    simp

theorem username_moveFriend (x : UserCacheItem) (i j : ℕ) : (x.moveFriend i j).2.username = x.username :=
  (id_username_of_core (x.core_moveFriend i j)).2

theorem outcome_demote (h : MirrorInv c p w) : Outcome c p u w .demote (demoteCommand c u w) := by
  refine outcome_withFriend h fun i _ hbyte => ?_
  have hlen := h.length
  rw [length_names] at hlen
  by_cases hi : i + 1 < (w.item p).friendList.length
  · rw [if_pos hi]
    obtain ⟨a, x, y, b, hl, rfl⟩ := exists_neighbours hi
    obtain ⟨hinv, hiff, -, hx, hy⟩ := outcome_overwrite (f := fun u => (u.moveFriend a.length (a.length + 1)).2) h hl
      (.inr rfl)
      (UserCacheItem.friendList_moveFriend_up _ [y] hl) fun u => username_moveFriend u _ _
    have hj : (UInt8.ofNat a.length + 1).toNat = a.length + 1 := by
      rw [UInt8.toNat_add, toNat_ofNat_of_lt hbyte, UInt8.toNat_one]
      omega
    refine ⟨hinv, ?_⟩
    rw [receiveAll_position, hj, toNat_ofNat_of_lt hbyte, hiff, SteadyAt, hx, hy, Option.some.injEq, length_names]
    exact ⟨fun he _ => he, fun he => he hi⟩
  · rw [if_neg hi]
    refine ⟨h, iff_of_true rfl fun hx => ?_⟩
    rw [length_names] at hx
    exact absurd hx hi

theorem outcome_promote (h : MirrorInv c p w) : Outcome c p u w .promote (promoteCommand c u w) := by
  refine outcome_withFriend h fun i hlt hbyte => ?_
  by_cases hi : i > 0
  · rw [if_pos hi]
    obtain ⟨j, rfl⟩ : ∃ j, i = j + 1 := ⟨i - 1, by omega⟩
    obtain ⟨a, x, y, b, hl, rfl⟩ := exists_neighbours hlt
    obtain ⟨hinv, hiff, hswap, hx, hy⟩ := outcome_overwrite (f := fun u => (u.moveFriend (a.length + 1) a.length).2) h hl
      (.inl rfl)
      (UserCacheItem.friendList_moveFriend_down _ [x] hl) fun u => username_moveFriend u _ _
    have hj : (UInt8.ofNat (a.length + 1) - 1).toNat = a.length := by
      rw [UInt8.toNat_sub, toNat_ofNat_of_lt hbyte, UInt8.toNat_one]
      omega
    refine ⟨hinv, ?_⟩
    rw [receiveAll_position, hj, toNat_ofNat_of_lt hbyte, hswap, Nat.add_sub_cancel, hiff, SteadyAt,
      Nat.add_sub_cancel, hx, hy, Option.some.injEq]
    exact ⟨fun he _ => he.symm, fun he => (he hi).symm⟩
  · rw [if_neg hi]
    exact ⟨h, iff_of_true rfl fun hx => absurd hx hi⟩

theorem outcome_onUser (h : MirrorInv c p w) (hu : u < w.store.cache.heap.brk) (look : ConnId → ClientView)
    (verb : FriendVerb) : Outcome c p u w verb (onUser look c verb u w) := by
  cases verb with
  | add => exact outcome_add h hu
  | remove => exact outcome_remove h
  | demote => exact outcome_demote h
  | promote => exact outcome_promote h

theorem Names.eq {argr : Text} {user : Option Ptr} {store : Store} (h : Names env w argr u)
    (hl : lookup env env.depth w.store (.name argr) = some (user, store)) : user = some u := by
  obtain ⟨store', h⟩ := h
  exact (Prod.mk.inj (Option.some.inj (hl.symm.trans h))).1

/-- The step lemma: a command keeps the invariant, and the client stays in step when the command is steady. -/
theorem Desk.Step.outcome {s s' : Desk} {cmd : FriendVerb × Text} (h : MirrorInv c p s.server)
    (hm : s.mirror = names s.server p) (hs : Desk.Step env c s cmd s') :
    MirrorInv c p s'.server ∧ (s'.mirror = names s'.server p ↔ Steady env c s.server cmd) := by
  obtain ⟨look, out, hc, hm'⟩ := hs
  obtain ⟨user, store, hl, ⟨rfl, hw, text, rfl⟩ | ⟨u, rfl, hu⟩⟩ := commandFriend_cases hc
  · obtain ⟨h1, hn⟩ := h.lookup hl
    rw [hm', receiveAll_messages (messages_info c text), hm, hw]
    refine ⟨h1, iff_of_true hn.symm fun u p i hname => ?_⟩
    exact absurd (hname.eq hl) (by simp)
  · obtain ⟨h1, hn⟩ := h.lookup hl
    have hplace := findFriend_congr (users_lookup h.bounded hl h.account) u
    obtain ⟨hinv, hiff⟩ := outcome_onUser h1 ((lookup_keeps h.bounded hl).2 u rfl) look cmd.1
    rw [hu, hn] at hiff
    rw [hu] at hinv
    refine ⟨hinv, ?_⟩
    rw [hm', hm]
    refine hiff.trans ⟨fun hx v q i hname hq hf => ?_, fun hx i hf => ?_⟩
    · obtain rfl : u = v := Option.some.inj (hname.eq hl)
      obtain rfl : q = p := Option.some.inj (hq.symm.trans h.user)
      exact hx i (hplace.trans hf)
    · exact hx u p i ⟨store, hl⟩ h.user (hplace.symm.trans hf)

end Commands

/-! ### Runs -/

/-- Client `c` with the account `p`, whose friend list has valid pointers and a count that fits its byte. -/
structure MirrorStart (c : ConnId) (p : Ptr) (w : Server) : Prop where
  bounded : Bounded w.store.cache
  user : (w.client c).user = some p
  account : p < w.store.cache.heap.brk
  friend : ∀ f ∈ (w.item p).friendList, f.user < w.store.cache.heap.brk
  length : (w.item p).friendList.length < 256

section Runs

variable {env : Env} {c : ConnId} {p : Ptr} {w : Server} {s : Desk} {hist : List (Entry Desk (FriendVerb × Text))}

theorem MirrorStart.inv (h : MirrorStart c p w) : MirrorInv c p w := by
  refine ⟨h.bounded, h.user, h.account, fun q hq => ?_, ?_⟩
  · obtain ⟨f, hf, rfl⟩ := List.mem_map.mp hq
    exact h.friend f hf
  · rw [length_names]
    exact h.length

/-- The list sent in `BNetFriendsList`. -/
theorem receive_friendsList (h : MirrorStart c p w) (look : ConnId → ClientView) :
    receive [] (friendsList look c w) = names w p := by
  rw [friendsList, h.user, Option.map_some, receive, List.length_map, Nat.mod_eq_of_lt h.length,
    List.take_of_length_le (by rw [List.length_map]), names, List.filterMap_map, List.map_filterMap]
  simp [friendView]

/-- **The client's list follows the server's** through a run exactly when every command is steady. -/
theorem mirror_iff (h : MirrorStart c p w) (look : ConnId → ClientView)
    (hr : Run (Desk.Step env c) ⟨w, receive [] (friendsList look c w)⟩ hist s) :
    (∀ x ∈ hist, x.after.mirror = names x.after.server p) ↔
      Allowed (fun _ s cmd => Steady env c s.server cmd) hist :=
  Run.good_iff (I := fun s => MirrorInv c p s.server) (P := fun s => s.mirror = names s.server p) h.inv
    (receive_friendsList h look) (fun hinv hm hs => hs.outcome hinv hm) hr

end Runs

/-! ### The list of `alice` -/

open UserLookup (idleEnv)

theorem mirrorStart_pals : MirrorStart 0 0 pals := by
  refine ⟨start_pals.bounded, rfl, by decide, fun f hf => ?_, by decide⟩
  cases hf

/-- `alice` with `bob` as a friend. -/
def friendly : Server := (addCommand idle 0 1 pals).1

theorem mirrorStart_friendly : MirrorStart 0 0 friendly := by
  have h : Outcome 0 0 1 pals .add (addCommand idle 0 1 pals) := outcome_add mirrorStart_pals.inv (by decide)
  exact ⟨h.1.bounded, h.1.user, h.1.account, fun f hf => h.1.friend _ (List.mem_map_of_mem hf), by decide⟩

/-- A command on a user in the cache. -/
theorem Desk.step_cached {env : Env} {c : ConnId} {s : Desk} (verb : FriendVerb) {argr : Text} {u : Ptr}
    (hk : s.server.store.cache.findKey (.name argr) = some u)
    (hex : (s.server.store.cache.get u).isExist = true) : Desk.Step env c s (verb, argr)
      ⟨(onUser idle c verb u s.server).1, receiveAll c s.mirror (onUser idle c verb u s.server).2⟩ :=
  ⟨idle, _, commandFriend_cached idle c verb hk hex, rfl⟩

/-- Added again, `bob` stands twice in the client's list. -/
theorem friend_added_twice : MirrorStart 0 0 friendly ∧ ∃ hist s,
    Run (Desk.Step idleEnv 0) ⟨friendly, receive [] (friendsList idle 0 friendly)⟩ hist s ∧
      ¬ ∀ x ∈ hist, x.after.mirror = names x.after.server 0 := by
  have hs : Desk.Step idleEnv 0 ⟨friendly, receive [] (friendsList idle 0 friendly)⟩ (.add, str "bob") _ :=
    Desk.step_cached .add (u := 1) (by decide) (by decide)
  refine ⟨mirrorStart_friendly, _, _, .snoc .nil hs, fun h => ?_⟩
  have := congrArg List.length (h _ (List.mem_singleton_self _))
  exact absurd this (by decide)

/-- `bob` added and removed again. -/
theorem mirror_pals : MirrorStart 0 0 pals ∧ ∃ hist s,
    Run (Desk.Step idleEnv 0) ⟨pals, receive [] (friendsList idle 0 pals)⟩ hist s ∧ hist.length = 2 ∧
      ∀ x ∈ hist, x.after.mirror = names x.after.server 0 := by
  have h1 : Desk.Step idleEnv 0 ⟨pals, receive [] (friendsList idle 0 pals)⟩ (.add, str "bob") _ :=
    Desk.step_cached .add (u := 1) (by decide) (by decide)
  have h2 : Desk.Step idleEnv 0 ⟨friendly, [str "bob"]⟩ (.remove, str "bob") _ :=
    Desk.step_cached .remove (u := 1) (by decide) (by decide)
  have hr := Run.snoc (Run.snoc Run.nil h1) h2
  refine ⟨mirrorStart_pals, _, _, hr, rfl, (mirror_iff mirrorStart_pals idle hr).mpr ⟨?_, ?_, trivial⟩⟩
  · rintro u p i - hp hf
    cases hp
    intro a ha
    have hn : names friendly 0 = [str "bob"] := by decide
    have ha : a ∈ (names friendly 0).drop (i + 1) := ha
    rw [hn, List.drop_succ_cons, List.drop_nil] at ha
    cases ha
  · rintro u p i - hp hf
    cases hp
    cases hf

end Blitzd.Core.Command
