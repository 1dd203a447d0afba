import Blitzd.Core.CommandFriend
import Blitzd.Core.Pool
import Blitzd.Plugins.OldReplay

/-! # Who can be addressed by name

`SetUser` puts a connection into the pool under the name of its account, and `AuthLogon` and `AccountChange` call
it before anything has been proved. So a connection that has only named an account is found under the name
(`named_only_is_found`), and takes the place of the connection that was found there. `addressable_iff`: the pool
leads to logged-in connections only, through a run of connections and packets, exactly when no SRP exchange is
begun on a connection that is not logged in yet (`Proved`). -/

namespace Blitzd.Plugins.LogonPool

open Blitzd.Lib Blitzd.Lib.Bytes Blitzd.Utils.CString Blitzd.Cache Blitzd.Core Blitzd.Plugins.Logon

inductive NetEvent
  | connect (c : ConnId) (token : UInt32) (serverProof clientProof : Buf 20)
  /-- a first byte, or `TokenReq` of the file protocol -/
  | enter (c : ConnId) (s : Stage)
  | packet (c : ConnId) (call : Call)
  /-- a packet of another handler -/
  | other (c : ConnId)
  | disconnect (c : ConnId)

/-- The protocols a first byte picks, and the raw part of the file protocol. -/
def entrances : List (Stage × Stage) :=
  [(.connected, .bnet), (.connected, .fileTrans), (.connected, .baal), (.fileTrans, .fileRaw)]

/-- What the other handlers keep: none of them calls `SetUser` or `SetStage`, and an account that is loaded keeps
its name. -/
structure Elsewhere (n n' : Net) : Prop where
  live : n'.live = n.live
  pool : n'.server.pool = n.server.pool
  user : ∀ d, (n'.client d).user = (n.client d).user
  stage : ∀ d, (n'.client d).stage = (n.client d).stage
  bounded : Bounded n'.server.store.cache
  brk : n.server.store.cache.heap.brk ≤ n'.server.store.cache.heap.brk
  username : ∀ p < n.server.store.cache.heap.brk, (n'.server.item p).username = (n.server.item p).username

/-- Account packets are handled from `BNET` on, and in the buffer that logs in also behind that. -/
def Step (env : Env) (n : Net) : NetEvent → Net → Prop
  | .connect c token sp cp, n' => c ∉ n.live ∧ n' = n.connect c token sp cp
  | .enter c s, n' => c ∈ n.live ∧ ((n.client c).stage, s) ∈ entrances ∧
      n' = { n with server := n.server.setStage c s }
  | .packet c call, n' => c ∈ n.live ∧ (n.client c).stage ∈ [Stage.bnet, .bnetLoggedIn] ∧
      ∃ w rs, handle env c call n.server = some (w, rs) ∧ n' = { n with server := w }
  | .other c, n' => c ∈ n.live ∧ Elsewhere n n'
  | .disconnect c, n' => c ∈ n.live ∧ n' = n.disconnect c

/-- No connections yet, over any accounts in a sound cache. -/
structure Start (n : Net) : Prop extends Net.Start n where
  bounded : Bounded n.server.store.cache

/-- Whoever is found under a name is logged in. -/
def Addressable (n : Net) : Prop :=
  ∀ name c, n.server.pool.findName name = some c → (n.client c).stage = .bnetLoggedIn

/-- An exchange is begun on connections that are logged in. -/
def Proved (env : Env) (n : Net) : NetEvent → Prop
  | .packet c call => srpTarget env n.server call ≠ none → (n.client c).stage = .bnetLoggedIn
  | _ => True

/-! ### What a packet does to the pool -/

/-- The same accounts, pool and users. -/
structure SamePool (w w' : Server) : Prop where
  pool : w'.pool = w.pool
  store : w'.store = w.store
  user : ∀ d, (w'.client d).user = (w.client d).user

variable {env : Env} {c d : ConnId} {call : Call} {w w' : Server} {n n' n₀ : Net} {p : Ptr} {u : Option Ptr}
  {name : Text}

theorem SamePool.refl (w : Server) : SamePool w w := ⟨rfl, rfl, fun _ => rfl⟩

theorem SamePool.modifyClient (w : Server) (c : ConnId) {f : Client → Client} (hf : ∀ cl, (f cl).user = cl.user) :
    SamePool w (w.modifyClient c f) := by
  refine ⟨rfl, rfl, fun d => ?_⟩
  by_cases hd : d = c
  · rw [hd, Server.modifyClient_self, hf]
  · rw [Server.modifyClient_ne w f hd]

/-- Once the store is what it will be, a packet changes at most the account of its connection. -/
theorem did_shape (h : Did env c call w w') (hb : Bounded w.store.cache) :
    SamePool (withStore w w'.store) w' ∨
      ∃ u, SamePool ((withStore w w'.store).setUser c u) w' ∧ ∀ p ∈ u, p < w'.store.cache.heap.brk := by
  cases h with
  | looked => exact .inl (.refl _)
  | @srp p a store hl =>
    have hst : (((withStore w store).setUser c (some p)).setProof c a.serverProof a.clientProof).store = store :=
      Server.setUser_store _ c _
    rw [hst]
    refine .inr ⟨some p, .modifyClient _ c fun _ => rfl, fun q hq => ?_⟩
    exact (lookup_keeps hb hl).2 q hq
  | @oldLogin p store hl =>
    have hst : (((withStore w store).setUser c (some p)).setStage c .bnetLoggedIn).store = store :=
      Server.setUser_store _ c _
    rw [hst]
    refine .inr ⟨some p, .modifyClient _ c fun _ => rfl, fun q hq => ?_⟩
    exact (lookup_keeps hb hl).2 q hq
  | passwd => exact .inl (.refl _)
  | create => exact .inl (.refl _)
  | login => exact .inl (.modifyClient w c fun _ => rfl)
  | refused => exact .inl (.refl w)
  | change =>
    rw [Server.setUser_store]
    exact .inr ⟨none, .refl _, by simp⟩
  | unchanged =>
    rw [Server.setUser_store]
    exact .inr ⟨none, .refl _, by simp⟩

/-! ### The invariant -/

/-- Entries lead to live clients of their name, and accounts are allocated. -/
structure PoolInv (n : Net) : Prop where
  bounded : Bounded n.server.store.cache
  user : ∀ c ∈ n.live, ∀ p, (n.client c).user = some p → p < n.server.store.cache.heap.brk
  names : n.NameIndex

theorem isNamed_withStore {store : Store}
    (hu : ∀ p, u = some p → (store.cache.get p).username = (w.item p).username) (name : Text) :
    (withStore w store).isNamed u name = w.isNamed u name := by
  rcases u with _ | p
  · rfl
  · exact congrArg (strcmpiEq · name) (hu p rfl)

/-- A store in which the accounts in use have their names. -/
theorem nameIndex_withStore (h : n.NameIndex) {store : Store}
    (hu : ∀ c ∈ n.live, ∀ p, (n.client c).user = some p →
      (store.cache.get p).username = (n.server.item p).username) :
    Net.NameIndex { n with server := withStore n.server store } := by
  intro name c hc
  obtain ⟨hlive, hname⟩ := h name c hc
  exact ⟨hlive, (isNamed_withStore (hu c hlive) name).trans hname⟩

theorem nameIndex_same (h : n.NameIndex) (hl : n'.live = n.live) (hs : SamePool n.server n'.server) :
    n'.NameIndex := by
  intro name c hc
  rw [hs.pool] at hc
  obtain ⟨hlive, hname⟩ := h name c hc
  have hitem : ∀ v, n'.server.isNamed v name = n.server.isNamed v name := by
    intro v
    rcases v with _ | p
    · rfl
    · unfold Server.isNamed Server.item
      rw [hs.store]
  have huser : (n'.client c).user = (n.client c).user := hs.user c
  refine ⟨hl ▸ hlive, ?_⟩
  rw [hitem, huser]
  exact hname

theorem PoolInv.packet (h : PoolInv n) (hc : c ∈ n.live) (hd : Did env c call n.server w') :
    PoolInv { n with server := w' } := by
  have hb := hd.bounded h.bounded
  have hbrk := hd.brk h.bounded
  have hwho : ∀ p < n.server.store.cache.heap.brk, (w'.item p).username = (n.server.item p).username := by
    intro p hp
    exact congrArg (fun x : UInt32 × Text × UInt32 => x.2.1) (hd.who h.bounded hp)
  have hnames : Net.NameIndex { n with server := withStore n.server w'.store } :=
    nameIndex_withStore h.names fun d hd' p hp => hwho p (h.user d hd' p hp)
  rcases did_shape hd h.bounded with hs | ⟨u, hs, hu⟩
  · refine ⟨hb, fun d hd' p hp => ?_, nameIndex_same hnames rfl hs⟩
    have hp : (w'.client d).user = some p := hp
    rw [hs.user] at hp
    exact (h.user d hd' p hp).trans_le hbrk
  · refine ⟨hb, fun d hd' p hp => ?_, nameIndex_same (hnames.setUser hc u) rfl hs⟩
    have hp : (w'.client d).user = some p := hp
    rw [hs.user] at hp
    by_cases hdc : d = c
    · rw [hdc, Server.setUser_client_self] at hp
      exact hu p hp
    · rw [Server.setUser_client_ne _ u hdc] at hp
      exact (h.user d hd' p hp).trans_le hbrk

/-- A friend command is one of the other packets. -/
theorem elsewhere_commandFriend {look : ConnId → Packets.ClientView} {verb : Command.FriendVerb} {argr : Text}
    {out : List Command.Sent} (hb : Bounded n.server.store.cache)
    (h : Command.commandFriend look c env verb argr n.server = some (w', out)) :
    Elsewhere n { n with server := w' } := by
  have hf := Command.commandFriend_frame hb h
  have hcl : ∀ d, w'.client d = n.client d := by
    intro d
    unfold Server.client
    rw [hf.clients]
    rfl
  refine ⟨rfl, hf.pool, fun d => congrArg Client.user (hcl d), fun d => congrArg Client.stage (hcl d),
    hf.keeps.bounded, hf.keeps.heap.brk, fun p hp => ?_⟩
  exact (id_username_of_core (hf.keeps.heap.cell p hp)).2

theorem PoolInv.other (h : PoolInv n) (ho : Elsewhere n n') : PoolInv n' := by
  have hnames : Net.NameIndex { n with server := withStore n.server n'.server.store } :=
    nameIndex_withStore h.names fun d hd p hp => ho.username p (h.user d hd p hp)
  refine ⟨ho.bounded, fun d hd p hp => ?_, nameIndex_same hnames ho.live ⟨ho.pool, rfl, ho.user⟩⟩
  rw [ho.live] at hd
  rw [ho.user] at hp
  exact (h.user d hd p hp).trans_le ho.brk

theorem PoolInv.step {e : NetEvent} (h : PoolInv n) (hs : Step env n e n') : PoolInv n' := by
  rcases e with ⟨c, token, sp, cp⟩ | ⟨c, s⟩ | ⟨c, call⟩ | c | c
  · obtain ⟨hc, rfl⟩ := hs
    refine ⟨h.bounded, fun d hd p hp => ?_, h.names.connect hc token sp cp⟩
    by_cases hdc : d = c
    · rw [hdc, Net.client_connect_self] at hp
      cases hp
    · rw [Net.client_connect_ne n token sp cp hdc] at hp
      exact h.user d (Finset.mem_of_mem_insert_of_ne hd hdc) p hp
  · obtain ⟨hc, -, rfl⟩ := hs
    have hsame : SamePool n.server (n.server.setStage c s) := .modifyClient _ c fun _ => rfl
    refine ⟨h.bounded, fun d hd p hp => ?_, nameIndex_same h.names rfl hsame⟩
    exact h.user d hd p ((hsame.user d).symm.trans hp)
  · obtain ⟨hc, -, w', rs, hh, rfl⟩ := hs
    exact h.packet hc (handle_did hh)
  · exact h.other hs.2
  · obtain ⟨hc, rfl⟩ := hs
    exact ⟨h.bounded, fun d hd p hp => h.user d (Finset.mem_of_mem_erase hd) p hp, h.names.disconnect c⟩

/-! ### Addressable connections -/

/-- Stages do not go back. -/
theorem stage_packet (h : Did env c call w w') (hst : (w.client d).stage = .bnetLoggedIn) :
    (w'.client d).stage = .bnetLoggedIn := by
  by_cases hdc : d = c
  · subst hdc
    cases h with
    | looked => exact hst
    | srp =>
      rw [Server.setProof_client_self, Server.setUser_client_self]
      exact hst
    | oldLogin => rw [Server.setStage_client_self]
    | passwd => exact hst
    | create => exact hst
    | login => rw [Server.setStage_client_self]
    | refused => exact hst
    | change =>
      rw [Server.setUser_client_self]
      exact hst
    | unchanged =>
      rw [Server.setUser_client_self]
      exact hst
  · rw [h.client_ne hdc]
    exact hst

theorem entry_setUser (hf : (w.setUser c u).pool.findName name = some d) :
    w.pool.findName name = some d ∨ d = c ∧ u ≠ none := by
  rw [Server.findName_setUser] at hf
  split_ifs at hf with hu
  · refine .inr ⟨(Option.some.inj hf).symm, fun he => ?_⟩
    rw [he] at hu
    cases hu
  · exact .inl hf

/-- Entries after a packet: those that were there, and one for its connection. -/
theorem entry_packet (h : Did env c call w w') (hf : w'.pool.findName name = some d) :
    w.pool.findName name = some d ∨
      d = c ∧ (srpTarget env w call ≠ none ∨ (w'.client c).stage = .bnetLoggedIn) := by
  cases h with
  | looked => exact .inl hf
  | srp _ ht =>
    refine (entry_setUser hf).imp_right fun hx => ⟨hx.1, .inl ?_⟩
    rw [ht]
    simp
  | oldLogin =>
    refine (entry_setUser hf).imp_right fun hx => ⟨hx.1, .inr ?_⟩
    rw [Server.setStage_client_self]
  | passwd => exact .inl hf
  | create => exact .inl hf
  | login => exact .inl hf
  | refused => exact .inl hf
  | change => exact (entry_setUser hf).imp_right fun hx => absurd rfl hx.2
  | unchanged => exact (entry_setUser hf).imp_right fun hx => absurd rfl hx.2

/-- A connection that begins an exchange is found under the name of the account, at the stage it had. -/
theorem entry_srp {p : Ptr} {a : SrpAnswer} {rs : List Reply} (ht : srpTarget env w call = some (p, a))
    (hh : handle env c call w = some (w', rs)) :
    w'.pool.findName (w'.item p).username = some c ∧ (w'.client c).stage = (w.client c).stage := by
  obtain ⟨store, rs', -, he, -⟩ := handle_srp (c := c) ht
  rw [he] at hh
  obtain ⟨rfl, -⟩ := Prod.mk.inj (Option.some.inj hh)
  have hitem : ((withStore w store).setUser c (some p)).item p = (withStore w store).item p := by
    unfold Server.item
    rw [Server.setUser_store]
  constructor
  · show ((withStore w store).setUser c (some p)).pool.findName
      (((withStore w store).setUser c (some p)).item p).username = some c
    rw [Server.findName_setUser, hitem]
    exact if_pos (strcmpiEq_refl _)
  · rw [Server.setProof_client_self, Server.setUser_client_self]
    rfl

theorem addressable_packet (ha : Addressable n) {rs : List Reply}
    (hh : handle env c call n.server = some (w', rs)) : Addressable { n with server := w' } ↔
      (srpTarget env n.server call ≠ none → (n.client c).stage = .bnetLoggedIn) := by
  have hd := handle_did hh
  constructor
  · intro ha' ht
    obtain ⟨⟨p, a⟩, ht⟩ := Option.ne_none_iff_exists'.mp ht
    obtain ⟨hf, hst⟩ := entry_srp ht hh
    exact hst.symm.trans (ha' _ c hf)
  · intro hp name d hf
    rcases entry_packet hd hf with hold | ⟨rfl, ht | hst⟩
    · exact stage_packet hd (ha name d hold)
    · exact stage_packet hd (hp ht)
    · exact hst

theorem addressable_step {e : NetEvent} (h : PoolInv n) (ha : Addressable n) (hs : Step env n e n') :
    Addressable n' ↔ Proved env n e := by
  rcases e with ⟨c, token, sp, cp⟩ | ⟨c, s⟩ | ⟨c, call⟩ | c | c
  · obtain ⟨hc, rfl⟩ := hs
    refine iff_of_true (fun name d hf => ?_) trivial
    have hdc : d ≠ c := fun he => hc (he ▸ (h.names name d hf).1)
    rw [Net.client_connect_ne n token sp cp hdc]
    exact ha name d hf
  · obtain ⟨hc, hst, rfl⟩ := hs
    refine iff_of_true (fun name d hf => ?_) trivial
    have hd : (n.client d).stage = .bnetLoggedIn := ha name d hf
    have hdc : d ≠ c := by
      rintro rfl
      rw [hd] at hst
      simp [entrances] at hst
    exact (congrArg Client.stage (n.server.modifyClient_ne _ hdc)).trans hd
  · obtain ⟨hc, -, w', rs, hh, rfl⟩ := hs
    exact addressable_packet ha hh
  · obtain ⟨-, ho⟩ := hs
    refine iff_of_true (fun name d hf => ?_) trivial
    rw [ho.pool] at hf
    rw [ho.stage]
    exact ha name d hf
  · obtain ⟨hc, rfl⟩ := hs
    refine iff_of_true (fun name d hf => ?_) trivial
    rw [Net.findName_disconnect] at hf
    split_ifs at hf
    exact ha name d hf

/-- **The pool leads to logged-in connections only**, through a run, exactly when no exchange is begun before. -/
theorem addressable_iff {hist : List (Entry Net NetEvent)} (hs : Start n₀) (hr : Run (Step env) n₀ hist n) :
    (∀ x ∈ hist, Addressable x.after) ↔ Allowed (fun _ => Proved env) hist := by
  refine Run.good_iff (I := PoolInv) (P := Addressable) ⟨hs.bounded, ?_, hs.nameIndex⟩ ?_ ?_ hr
  · intro c hc
    rw [hs.live] at hc
    exact absurd hc (Finset.notMem_empty c)
  · intro name c hc
    rw [ClientPool.findName, hs.clientMap] at hc
    cases hc
  · intro n e n' h ha hstep
    exact ⟨h.step hstep, addressable_step h ha hstep⟩

/-! ### A connection that names `alice` -/

open UserLookup (idleEnv)

/-- The accounts of `duo`, and nobody connected. -/
def idleNet : Net := ⟨∅, 0, { LogonRun.duo with clients := Heap.empty }⟩

theorem start_idleNet : Start idleNet := ⟨⟨rfl, rfl, rfl⟩, LogonRun.start_duo.bounded⟩

/-- A connection that speaks the chat protocol. -/
def chatting : Net :=
  { idleNet.connect 0 7 (Buf.zero 20) (Buf.zero 20) with
    server := (idleNet.connect 0 7 (Buf.zero 20) (Buf.zero 20)).server.setStage 0 .bnet }

theorem run_chatting : ∃ hist, Run (Step idleEnv) idleNet hist chatting ∧
    Allowed (fun _ => Proved idleEnv) hist := by
  have h1 : Step idleEnv idleNet (.connect 0 7 (Buf.zero 20) (Buf.zero 20)) _ := ⟨Finset.notMem_empty 0, rfl⟩
  have h2 : Step idleEnv (idleNet.connect 0 7 (Buf.zero 20) (Buf.zero 20)) (.enter 0 .bnet) chatting :=
    ⟨by decide, by decide, rfl⟩
  exact ⟨_, .snoc (.snoc .nil h1) h2, trivial, trivial, trivial⟩

/-- `AuthLogon` for `alice`, and nothing else, makes the connection the one found under that name. -/
theorem named_only_is_found : Start idleNet ∧ ∃ hist n, Run (Step idleEnv) idleNet hist n ∧
    ¬ ∀ x ∈ hist, Addressable x.after := by
  obtain ⟨hist, hr, -⟩ := run_chatting
  have ht : srpTarget idleEnv chatting.server LogonRun.aliceLogon = some (0, LogonRun.aliceAnswer) :=
    LogonRun.srpTarget_aliceLogon
  obtain ⟨store, rs, -, hh, -⟩ := handle_srp (c := 0) ht
  have hs : Step idleEnv chatting (.packet 0 LogonRun.aliceLogon) _ := ⟨by decide, by decide, _, rs, hh, rfl⟩
  refine ⟨start_idleNet, _, _, .snoc hr hs, fun h => ?_⟩
  obtain ⟨hf, hst⟩ := entry_srp ht hh
  have hin := h _ List.mem_cons_self _ 0 hf
  have hbnet : (chatting.server.client 0).stage = .bnet := by decide
  rw [hbnet] at hst
  exact absurd (hst.symm.trans hin) (by decide)

/-- `bob`'s old logon. -/
theorem addressable_bob : Start idleNet ∧ ∃ hist n, Run (Step idleEnv) idleNet hist n ∧
    (n.client 0).stage = .bnetLoggedIn ∧ ∀ x ∈ hist, Addressable x.after := by
  obtain ⟨hist, hr, hok⟩ := run_chatting
  obtain ⟨p, ht⟩ := OldReplay.fits_iff_oldTarget.mp (OldReplay.fits_recorded (w := chatting.server) rfl)
  obtain ⟨store, rs, -, hh, -⟩ := handle_old (c := 0) ht
  have hs : Step idleEnv chatting (.packet 0 (OldReplay.oldLogon OldReplay.recorded Scratch.zero)) _ :=
    ⟨by decide, by decide, _, rs, hh, rfl⟩
  have hproved : Proved idleEnv chatting (.packet 0 (OldReplay.oldLogon OldReplay.recorded Scratch.zero)) :=
    fun hx => absurd (srpTarget_of_op (by decide) (by decide)) hx
  refine ⟨start_idleNet, _, _, .snoc hr hs, ?_, (addressable_iff start_idleNet (.snoc hr hs)).mpr ⟨hproved, hok⟩⟩
  exact congrArg Client.stage (Server.setStage_client_self _ 0 .bnetLoggedIn)

end Blitzd.Plugins.LogonPool
