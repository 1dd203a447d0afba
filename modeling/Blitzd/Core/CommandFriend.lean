import Blitzd.Cache.FriendList
import Blitzd.Core.Client
import Blitzd.Packets.BNet

/-! # The friend command (`CommandFriend`)

`/f add`, `remove`, `demote` and `promote`: they look a user up, change the friend list of the client's account
and tell the client, by index, what they did. `commandFriend_cases` splits a command into the lookup and the rest;
the results below say what the rest does to friend lists and what it sends. Accounts, but for their friends, the
pool and the clients stay as they are (`commandFriend_frame`). -/

namespace Blitzd.Core.Command

open Blitzd.Lib Blitzd.Lib.Bytes Blitzd.Lib.KeyMap Blitzd.Cache Blitzd.Packets

inductive FriendVerb
  | add | remove | demote | promote
deriving DecidableEq

/-- A packet and the connection it goes to. -/
structure Sent where
  conn : ConnId
  packet : Packet

/-- `Message::Send(&client, NULL, Info, text)`. -/
def info (c : ConnId) (text : Text) : Sent := ⟨c, .chatEvent 0x12 0 0 [] text⟩

section Handlers

variable (look : ConnId → ClientView) (c : ConnId)

/-- What a friend packet about the entry `f` is packed from. -/
def friendView (w : Server) (f : Friend) (cl : Option ConnId) : FriendView :=
  ⟨(w.item f.user).username, f.isMutual, cl.map look⟩

/-- What `/f add` sends about the entry at `idx`. -/
def announce (cuser user : Ptr) (idx : ℕ) (back : Option ℕ) (w : Server) : List Sent :=
  let cl := w.pool.findName (w.item user).username
  let update := match cl, back with
    | some d, some j => [⟨d, .friendUpdate (UInt8.ofNat j)
        (((w.item user).getFriend j).map fun f => friendView look w f (some c))⟩]
    | _, _ => []
  let note := match cl with
    | some d => [info d ((w.item cuser).username ++ str " added you as his/her friend.")]
    | none => []
  update ++ note ++
    [⟨c, .friendAdd (((w.item cuser).getFriend idx).map fun f => friendView look w f cl)⟩,
      info c (str "Added " ++ (w.item user).username ++ str " to your friend list.")]

def addCommand (user : Ptr) (w : Server) : Server × List Sent :=
  if (w.client c).user = some user then (w, [info c (str "Can not add yourself!")])
  else match (w.client c).user with
    | none => (w, [])
    | some cuser =>
      let r := addFriend w.store.cache.heap cuser (some user)
      let w1 : Server := { w with store := w.store.setHeap r.1 }
      match r.2 with
      | none => (w1, [info c (str "Failed to add friend.")])
      | some idx =>
        if idx ≠ (w1.item cuser).friendList.length - 1 then
          (w1, [info c (str "The user is already in your friend list.")])
        else (w1, announce look c cuser user idx (mutIdx w.store.cache.heap cuser user) w1)

/-- The common part of the other commands: the friend's place in the list. -/
def withFriend (user : Ptr) (w : Server) (k : Ptr → ℕ → Server × List Sent) : Server × List Sent :=
  match (w.client c).user with
  | none => (w, [])
  | some cuser => match (w.item cuser).findFriend user with
    | none => (w, [info c (str "The user is not in your friend list!")])
    | some idx => k cuser idx

def removeCommand (user : Ptr) (w : Server) : Server × List Sent :=
  withFriend c user w fun cuser idx =>
    (w.modifyItem cuser fun x => (x.removeFriend idx).2,
      [⟨c, .friendRemove (UInt8.ofNat idx)⟩,
        info c (str "Removed " ++ (w.item user).username ++ str " from your friend list.")])

def demoteCommand (user : Ptr) (w : Server) : Server × List Sent :=
  withFriend c user w fun cuser idx =>
    if idx + 1 < (w.item cuser).friendList.length then
      (w.modifyItem cuser fun x => (x.moveFriend idx (idx + 1)).2,
        [⟨c, .friendPosition (UInt8.ofNat idx) (UInt8.ofNat idx + 1)⟩])
    else (w, [])

def promoteCommand (user : Ptr) (w : Server) : Server × List Sent :=
  withFriend c user w fun cuser idx =>
    if idx > 0 then
      (w.modifyItem cuser fun x => (x.moveFriend idx (idx - 1)).2,
        [⟨c, .friendPosition (UInt8.ofNat idx) (UInt8.ofNat idx - 1)⟩])
    else (w, [])

/-- The command on the user found. -/
def onUser (verb : FriendVerb) (user : Ptr) (w : Server) : Server × List Sent :=
  match verb with
  | .add => addCommand look c user w
  | .remove => removeCommand c user w
  | .demote => demoteCommand c user w
  | .promote => promoteCommand c user w

/-- `CommandFriend::Process` on a name; `none` when the lookup does not return. -/
def commandFriend (env : Env) (verb : FriendVerb) (argr : Text) (w : Server) : Option (Server × List Sent) :=
  match lookup env env.depth w.store (.name argr) with
  | none => none
  | some (user, store) =>
    let w1 : Server := { w with store := store }
    match user with
    | none => some (w1, [info c (str "The user does not exist!")])
    | some u => some (onUser look c verb u w1)

end Handlers

/-- The user a name stands for. -/
def Names (env : Env) (w : Server) (argr : Text) (u : Ptr) : Prop :=
  ∃ store, lookup env env.depth w.store (.name argr) = some (some u, store)

section Cases

variable {env : Env} {look : ConnId → ClientView} {c d : ConnId} {verb : FriendVerb} {argr : Text} {w w' : Server}
  {out : List Sent}

/-- A command is a lookup, and a change if a user was found. -/
theorem commandFriend_cases (h : commandFriend look c env verb argr w = some (w', out)) :
    ∃ user store, lookup env env.depth w.store (.name argr) = some (user, store) ∧
      ((user = none ∧ w' = { w with store := store } ∧ ∃ text, out = [info c text]) ∨
      ∃ u, user = some u ∧ onUser look c verb u { w with store := store } = (w', out)) := by
  unfold commandFriend at h
  rcases hl : lookup env env.depth w.store (.name argr) with _ | ⟨user, store⟩
  · rw [hl] at h
    cases h
  rw [hl] at h
  refine ⟨user, store, rfl, ?_⟩
  rcases user with _ | u
  · obtain ⟨hw, ho⟩ := Prod.mk.inj (Option.some.inj h)
    exact .inl ⟨rfl, hw.symm, _, ho.symm⟩
  · exact .inr ⟨u, rfl, Option.some.inj h⟩

/-- Nothing but messages. -/
def Messages (out : List Sent) : Prop := ∀ s ∈ out, ∃ d text, s = info d text

theorem messages_nil : Messages [] := fun s hs => by cases hs

theorem messages_info (d : ConnId) (text : Text) : Messages [info d text] :=
  fun _ hs => ⟨d, text, List.mem_singleton.mp hs⟩

/-- The client is told the entry, behind messages and perhaps an update to the friend's client. -/
theorem announce_cases (look : ConnId → ClientView) (c : ConnId) (p u : Ptr) (i : ℕ) (back : Option ℕ)
    (w : Server) : ∃ out cl text, announce look c p u i back w =
      out ++ [⟨c, .friendAdd (((w.item p).getFriend i).map fun f => friendView look w f cl)⟩, info c text] ∧
      ∀ s ∈ out, (∃ d text, s = info d text) ∨ ∃ d j, w.pool.findName (w.item u).username = some d ∧
        s = ⟨d, .friendUpdate (UInt8.ofNat j)
          (((w.item u).getFriend j).map fun f => friendView look w f (some c))⟩ := by
  refine ⟨_, _, _, rfl, fun s hs => ?_⟩
  rcases hcl : w.pool.findName (w.item u).username with _ | d
  · rw [hcl] at hs
    cases hs
  · rw [hcl] at hs
    rcases List.mem_append.mp hs with hs | hs
    · rcases back with _ | j
      · cases hs
      · exact .inr ⟨d, j, rfl, List.mem_singleton.mp hs⟩
    · exact .inl ⟨d, _, List.mem_singleton.mp hs⟩

/-- Without a place in the list nothing happens. -/
theorem withFriend_cases (c : ConnId) (u : Ptr) (w : Server) (k : Ptr → ℕ → Server × List Sent) :
    ((∃ out, withFriend c u w k = (w, out) ∧ Messages out) ∧
      ∀ p i, (w.client c).user = some p → (w.item p).findFriend u ≠ some i) ∨
    ∃ p i, (w.client c).user = some p ∧ (w.item p).findFriend u = some i ∧ withFriend c u w k = k p i := by
  unfold withFriend
  rcases hu : (w.client c).user with _ | p
  · exact .inl ⟨⟨_, rfl, messages_nil⟩, fun p i hp => by cases hp⟩
  dsimp only
  rcases hf : (w.item p).findFriend u with _ | i
  · refine .inl ⟨⟨_, rfl, messages_info _ _⟩, fun q i hq => ?_⟩
    cases hq
    rw [hf]
    simp
  · exact .inr ⟨p, i, rfl, hf, rfl⟩

/-- The outcomes of `/f add`: nothing, an entry that was there told again, a new entry at the end. -/
inductive AddOutcome (look : ConnId → ClientView) (c : ConnId) (u : Ptr) (w : Server) : Server × List Sent → Prop
  | nothing {out : List Sent} (hout : Messages out)
      (hno : ∀ p i, (w.client c).user = some p → u ≠ p → (w.item p).findFriend u = some i →
        i + 1 ≠ (w.item p).friendList.length) : AddOutcome look c u w (w, out)
  | again {p : Ptr} {i : ℕ} (hp : (w.client c).user = some p) (hne : u ≠ p)
      (hf : (w.item p).findFriend u = some i) (hi : i + 1 = (w.item p).friendList.length) :
      AddOutcome look c u w (w, announce look c p u i none w)
  | pushed {p : Ptr} {w1 : Server} (hp : (w.client c).user = some p) (hne : u ≠ p)
      (hno : ¬ Cache.Lists w.store.cache.heap p u) (hlen : (w.item p).friendList.length ≤ 20)
      (hw : w1 = { w with store := w.store.setHeap (addFriend w.store.cache.heap p (some u)).1 })
      (hus : ∀ q, users w1.store.cache.heap q =
        if q = p then users w.store.cache.heap p ++ [u] else users w.store.cache.heap q) :
      AddOutcome look c u w (w1, announce look c p u (w.item p).friendList.length
        (mutIdx w.store.cache.heap p u) w1)

theorem addCommand_outcome (look : ConnId → ClientView) (c : ConnId) (u : Ptr) (w : Server) :
    AddOutcome look c u w (addCommand look c u w) := by
  unfold addCommand
  by_cases hself : (w.client c).user = some u
  · rw [if_pos hself]
    refine .nothing (messages_info _ _) fun p i hp hne => ?_
    exact absurd (Option.some.inj (hself.symm.trans hp)) hne
  rw [if_neg hself]
  rcases hp : (w.client c).user with _ | p
  · exact .nothing messages_nil fun p i hp' => by rw [hp] at hp'; cases hp'
  have hne : u ≠ p := fun he => hself (he ▸ hp)
  dsimp only
  rcases addFriend_outcome w.store.cache.heap p u with ⟨hno, he⟩ | ⟨i, -, hf, he⟩ | ⟨-, hno, hlen, he⟩
  · rw [he]
    refine .nothing (messages_info _ _) fun q i hq _ hf => ?_
    rw [hp] at hq
    cases hq
    exact absurd hf (by rw [Server.item, UserCache.get, findFriend_eq_none.mpr (hno.resolve_left hne).1]; simp)
  · rw [he]
    dsimp only
    have hmut : mutIdx w.store.cache.heap p u = none := by
      rw [mutIdx, if_neg hne, if_pos (by rw [hf]; simp)]
    have hlt : i < (w.item p).friendList.length := (List.findIdx?_eq_some_iff_getElem.mp hf).1
    by_cases hi : i ≠ (w.item p).friendList.length - 1
    · refine (if_pos hi).symm ▸ .nothing (messages_info _ _) fun q j hq _ hf' => ?_
      rw [hp] at hq
      cases hq
      have hij : i = j := Option.some.inj (hf.symm.trans hf')
      omega
    · refine (if_neg hi).symm ▸ ?_
      rw [hmut]
      exact .again hp hne hf (by omega)
  · have hus := users_push w.store.cache.heap p u (decide (Cache.Lists w.store.cache.heap u p))
    have hlast : (((markBack w.store.cache.heap p u).modify p fun x =>
        x.pushFriend ⟨decide (Cache.Lists w.store.cache.heap u p), u⟩).cell p).friendList.length =
          (w.item p).friendList.length + 1 := by
      have := congrArg List.length (hus p)
      rw [if_pos rfl] at this
      simpa [users, friends, Server.item, UserCache.get] using this
    have hw := congrArg (fun r : Heap UserCacheItem × Option ℕ => { w with store := w.store.setHeap r.1 }) he
    rw [he]
    dsimp only at hw ⊢
    refine (if_neg ?_).symm ▸ .pushed hp hne hno hlen hw.symm hus
    rw [not_not, friends]
    exact (Nat.sub_eq_of_eq_add hlast).symm

/-! ### What a command leaves alone -/

/-- Every account but for its friends, the pool and the clients. -/
structure Frame (w w' : Server) : Prop where
  keeps : Keeps w.store w'.store
  pool : w'.pool = w.pool
  clients : w'.clients = w.clients

theorem frame_refl (hb : Bounded w.store.cache) : Frame w w := ⟨⟨.refl _ _, hb⟩, rfl, rfl⟩

theorem frame_modifyItem (hb : Bounded w.store.cache) (p : Ptr) {f : UserCacheItem → UserCacheItem}
    (hf : ∀ x, (f x).core = x.core) : Frame w (w.modifyItem p f) :=
  ⟨⟨.modify _ p hf, hb.name, hb.id⟩, rfl, rfl⟩

theorem frame_withFriend {u : Ptr} (hb : Bounded w.store.cache) {k : Ptr → ℕ → Server × List Sent}
    (hk : ∀ p i, Frame w (k p i).1) : Frame w (withFriend c u w k).1 := by
  rcases withFriend_cases c u w k with ⟨⟨out, he, -⟩, -⟩ | ⟨p, i, -, -, he⟩
  · rw [he]
    exact frame_refl hb
  · rw [he]
    exact hk p i

theorem frame_onUser (hb : Bounded w.store.cache) (u : Ptr) : Frame w (onUser look c verb u w).1 := by
  cases verb with
  | add =>
    have hout := addCommand_outcome look c u w
    rw [onUser]
    generalize addCommand look c u w = r at hout ⊢
    cases hout with
    | nothing => exact frame_refl hb
    | again => exact frame_refl hb
    | @pushed p _ _ _ _ _ hw =>
      subst hw
      exact ⟨keeps_setHeap hb (addFriend_extends w.store.cache.heap p (some u)), rfl, rfl⟩
  | remove =>
    refine frame_withFriend hb fun p i => ?_
    exact frame_modifyItem hb p fun x => x.core_removeFriend i
  | demote =>
    refine frame_withFriend hb fun p i => ?_
    split_ifs
    · exact frame_modifyItem hb p fun x => x.core_moveFriend i (i + 1)
    · exact frame_refl hb
  | promote =>
    refine frame_withFriend hb fun p i => ?_
    split_ifs
    · exact frame_modifyItem hb p fun x => x.core_moveFriend i (i - 1)
    · exact frame_refl hb

theorem commandFriend_frame (hb : Bounded w.store.cache)
    (h : commandFriend look c env verb argr w = some (w', out)) : Frame w w' := by
  obtain ⟨user, store, hl, hrest⟩ := commandFriend_cases h
  obtain ⟨hk, -⟩ := lookup_keeps hb hl
  rcases hrest with ⟨-, rfl, -⟩ | ⟨u, rfl, hu⟩
  · exact ⟨hk, rfl, rfl⟩
  · have hf : Frame { w with store := store } (onUser look c verb u { w with store := store }).1 :=
      frame_onUser hk.bounded u
    rw [hu] at hf
    exact ⟨hk.trans hf.keeps, hf.pool, hf.clients⟩

end Cases

end Blitzd.Core.Command
