import Blitzd.Lib.Run
import Blitzd.Cache.UserLookup
import Blitzd.Plugins.LogonStep

/-! # Who is logged in

Runs of the pre-login suite: any packets, on any number of connections. The connection keeps the
account it named and the proof it expects in two fields that different handlers write:
`OldAuthLogon2` sets the account and not the proof, `AccountChangeProof` clears the account and not
the proof, and a new `AuthLogon` replaces both while the stage stays. `lastSrp` is the exchange the
stored proof comes from (`Stored`, an invariant of every run).

`loggedIn_authenticated`: while packets respect the pairing of account and proof (`Paired`), a
connection that is logged in has proved the account it holds. `no_srp_without_flag`: while password
changes name SRP accounts only (`FlagPaired`), an account without the SRP flag is never the object of
an SRP exchange. Both fail without their condition. -/

namespace Blitzd.Plugins.LogonRun

open Blitzd.Lib Blitzd.Lib.Bytes Blitzd.Utils Blitzd.Cache Blitzd.Core Blitzd.Plugins.Logon

/-- A packet on a connection. -/
structure Event where
  conn : ConnId
  call : Call

abbrev History := List (Entry Server Event)

/-- One packet handled. -/
def Step (env : Env) (w : Server) (e : Event) (w' : Server) : Prop :=
  ∃ rs, handle env e.conn e.call w = some (w', rs)

/-- Connections with no account named, not logged in, over a cache whose maps are sound. -/
structure Start (w : Server) : Prop where
  user : ∀ c, (w.client c).user = none
  stage : ∀ c, (w.client c).stage ≠ .bnetLoggedIn
  bounded : Bounded w.store.cache

variable {env : Env} {w₀ w w' : Server} {h : History} {c : ConnId} {e : Event} {p : Ptr} {a : SrpAnswer}

/-! ### The exchange a stored proof comes from -/

/-- The last packet of the connection that began an SRP exchange: which one, for which account, and
what was computed from the account's salt and verifier. -/
def lastSrp (env : Env) (c : ConnId) : History → Option (Op × Ptr × SrpAnswer)
  | [] => none
  | x :: h =>
    if x.event.conn = c then
      match srpTarget env x.before x.event.call with
      | some (p, a) => some (x.event.call.op, p, a)
      | none => lastSrp env c h
    else lastSrp env c h

theorem lastSrp_new (hc : e.conn = c) (ht : srpTarget env w e.call = some (p, a)) :
    lastSrp env c (⟨w, e, w'⟩ :: h) = some (e.call.op, p, a) := by
  simp only [lastSrp, hc, ht, if_true]

theorem lastSrp_old (ht : e.conn = c → srpTarget env w e.call = none) :
    lastSrp env c (⟨w, e, w'⟩ :: h) = lastSrp env c h := by
  by_cases hc : e.conn = c
  · simp only [lastSrp, hc, ht hc, if_true]
  · simp only [lastSrp, if_neg hc]

theorem lastSrp_mem {op : Op} : ∀ {h : History}, lastSrp env c h = some (op, p, a) →
    ∃ m y r, h = m ++ y :: r ∧ y.event.conn = c ∧ y.event.call.op = op ∧
      srpTarget env y.before y.event.call = some (p, a)
  | ⟨w, e, w'⟩ :: h, hl => by
    by_cases hc : e.conn = c ∧ srpTarget env w e.call ≠ none
    · obtain ⟨⟨p', a'⟩, ht⟩ := Option.ne_none_iff_exists'.mp hc.2
      rw [lastSrp_new hc.1 ht] at hl
      cases hl
      exact ⟨[], _, h, rfl, hc.1, rfl, ht⟩
    · rw [lastSrp_old fun hconn => by simpa [hconn] using hc] at hl
      obtain ⟨m, y, r, rfl, hy⟩ := lastSrp_mem hl
      exact ⟨_ :: m, y, r, rfl, hy⟩

/-- The stored proof is that of the last exchange, and the accounts named are allocated. -/
structure Stored (env : Env) (h : History) (w : Server) : Prop where
  bounded : Bounded w.store.cache
  proof : ∀ {c op p a}, lastSrp env c h = some (op, p, a) →
    (w.client c).clientProof = a.clientProof ∧ p < w.store.cache.heap.brk

theorem Start.stored (h : Start w₀) : Stored env [] w₀ := ⟨h.bounded, fun hl => by cases hl⟩

theorem Stored.step (hi : Stored env h w) (hs : Step env w e w') :
    Stored env (⟨w, e, w'⟩ :: h) w' := by
  obtain ⟨rs, hh⟩ := hs
  have hd := handle_did hh
  refine ⟨hd.bounded hi.bounded, fun {c op p a} hl => ?_⟩
  have hbrk := hd.brk hi.bounded
  rcases eq_or_ne c e.conn with rfl | hc
  · rw [hd.client]
    rcases ht : srpTarget env w e.call with _ | ⟨q, b⟩
    · rw [lastSrp_old fun _ => ht] at hl
      obtain ⟨hp, hlt⟩ := hi.proof hl
      refine ⟨?_, hlt.trans_le hbrk⟩
      rw [← hp]
      rcases ho : oldTarget env w e.call with _ | q
      · rw [clientAfter_rest ht ho]
        split_ifs <;> rfl
      · rw [clientAfter_old ho]
    · rw [lastSrp_new rfl ht] at hl
      cases hl
      rw [clientAfter_srp ht]
      exact ⟨rfl, target_lt hh hi.bounded (.inl ⟨_, ht⟩)⟩
  · rw [lastSrp_old fun hconn => absurd hconn.symm hc] at hl
    obtain ⟨hp, hlt⟩ := hi.proof hl
    exact ⟨by rw [hd.client_ne hc, hp], hlt.trans_le hbrk⟩

/-! ### Who proved what -/

/-- The packet brought this proof, in full. -/
def ProofReceived (payload : List Byte) (proof : Buf 20) : Prop := payload.take 20 = proof.bytes

/-- The packet brought, behind the token it is for, the hash that fits the password. -/
def HashReceived (payload : List Byte) (passwd : Buf 20) : Prop :=
  ∃ token : Buf 8, payload.take 28 = token.bytes ++ (oldHash token passwd).bytes

/-- The connection received the proof that an `AuthLogon` before it computed for the account. -/
def SrpProved (env : Env) (c : ConnId) (h : History) (p : Ptr) : Prop :=
  ∃ l x m y r a, h = l ++ x :: (m ++ y :: r) ∧
    (x.event.conn = c ∧ x.event.call.op = .authLogonProof) ∧
    (y.event.conn = c ∧ y.event.call.op = .authLogon) ∧
    srpTarget env y.before y.event.call = some (p, a) ∧ ProofReceived x.event.call.payload a.clientProof

/-- The connection received the hash of the password the account had at that moment. -/
def OldProved (c : ConnId) (h : History) (p : Ptr) : Prop :=
  ∃ x ∈ h, (x.event.conn = c ∧ x.event.call.op = .oldAuthLogon2) ∧
    HashReceived x.event.call.payload (x.after.item p).passwd

/-- A connection that is logged in holds an account it has proved. -/
def Authenticated (env : Env) (c : ConnId) (h : History) (w : Server) : Prop :=
  (w.client c).stage = .bnetLoggedIn →
    ∃ p, (w.client c).user = some p ∧ (SrpProved env c h p ∨ OldProved c h p)

theorem SrpProved.cons (x : Entry Server Event) (hp : SrpProved env c h p) :
    SrpProved env c (x :: h) p := by
  obtain ⟨l, y, m, z, r, a, rfl, hr⟩ := hp
  exact ⟨x :: l, y, m, z, r, a, rfl, hr⟩

theorem OldProved.cons (x : Entry Server Event) (hp : OldProved c h p) : OldProved c (x :: h) p := by
  obtain ⟨y, hy, hr⟩ := hp
  exact ⟨y, List.mem_cons_of_mem _ hy, hr⟩

theorem proofReceived_of_matches {call : Call} (hm : proofMatches c call w)
    (hlen : 20 ≤ call.payload.length) : ProofReceived call.payload (w.client c).clientProof := by
  unfold ProofReceived
  rw [← hm]
  exact (Stream.readBuf_full (Stream.ofBytes call.payload) call.scratch.clientProof
    (by simpa [Stream.ofBytes] using hlen)).1.symm

theorem matches_of_proofReceived {call : Call}
    (hp : ProofReceived call.payload (w.client c).clientProof) : proofMatches c call w := by
  have hlen : 20 ≤ call.payload.length := by
    have := congrArg List.length hp
    rw [Buf.len, List.length_take] at this
    omega
  refine Buf.ext ?_
  rw [← hp]
  exact (Stream.readBuf_full (Stream.ofBytes call.payload) call.scratch.clientProof
    (by simpa [Stream.ofBytes] using hlen)).1

/-- The token and the hash of the old packets, when they are there in full. -/
theorem take_token_pwd {payload : List Byte} (t : Buf 8) (q : Buf 20) (hlen : 28 ≤ payload.length) :
    payload.take 28 = ((Stream.ofBytes payload).readBuf t).1.bytes ++
      (((Stream.ofBytes payload).readBuf t).2.readBuf q).1.bytes := by
  obtain ⟨h1, h2⟩ := Stream.readBuf_full (Stream.ofBytes payload) t
    (by simp only [Stream.ofBytes]; omega)
  rw [h1, h2]
  obtain ⟨h3, -⟩ := Stream.readBuf_full ⟨payload, 8⟩ q (by simp only; omega)
  exact (List.take_add (i := 8) (j := 20)).trans (by rw [← h3]; rfl)

theorem oldProved_of_target {call : Call} {rs : List Reply}
    (hh : handle env c call w = some (w', rs)) (ht : oldTarget env w call = some p)
    (hlen : 28 ≤ call.payload.length) : HashReceived call.payload (w'.item p).passwd := by
  obtain ⟨store, rs', hl, hh', -⟩ := handle_old (c := c) ht
  rw [hh'] at hh
  cases hh
  obtain ⟨-, -, -, hash⟩ := oldTarget_spec ht hl
  have hitem : (((withStore w store).setUser c (some p)).setStage c .bnetLoggedIn).item p =
      store.cache.get p := by
    unfold Server.item
    rw [Server.setStage_store, Server.setUser_store]
    rfl
  refine ⟨(readOldLogon call.scratch call.payload).token, ?_⟩
  rw [hitem, hash]
  exact take_token_pwd _ _ hlen

/-! ### Logging in -/

/-- The pairing of account and proof is respected: a proof is accepted only for the account of the
last exchange, an `AuthLogon`; packets are long enough to hold what is compared; and a connection that
is logged in neither gives its account up nor names another one by SRP. -/
structure Paired (env : Env) (h : History) (w : Server) (e : Event) : Prop where
  proof : e.call.op = .authLogonProof → proofMatches e.conn e.call w → 20 ≤ e.call.payload.length ∧
    ∃ p a, (w.client e.conn).user = some p ∧ lastSrp env e.conn h = some (.authLogon, p, a)
  old : oldTarget env w e.call ≠ none → 28 ≤ e.call.payload.length
  stays : (w.client e.conn).stage = .bnetLoggedIn → e.call.op ≠ .accountChangeProof ∧
    ∀ p a, srpTarget env w e.call = some (p, a) → (w.client e.conn).user = some p

/-- One packet on the connection itself. -/
theorem authenticated_step (hi : Stored env h w) (ha : Authenticated env e.conn h w)
    (hok : Paired env h w e) (hs : Step env w e w') :
    Authenticated env e.conn (⟨w, e, w'⟩ :: h) w' := by
  obtain ⟨rs, hh⟩ := hs
  intro hstage
  have hcl := (handle_did hh).client
  -- the account stays: what was proved before is enough
  have hkeep : (w.client e.conn).stage = .bnetLoggedIn →
      (w'.client e.conn).user = (w.client e.conn).user → ∃ p, (w'.client e.conn).user = some p ∧
        (SrpProved env e.conn (⟨w, e, w'⟩ :: h) p ∨ OldProved e.conn (⟨w, e, w'⟩ :: h) p) := by
    intro hst hu
    obtain ⟨p, hp, hproved⟩ := ha hst
    exact ⟨p, by rw [hu, hp], hproved.imp (.cons _) (.cons _)⟩
  rcases hsrp : srpTarget env w e.call with _ | ⟨p, a⟩
  · rcases hold : oldTarget env w e.call with _ | p
    · rw [clientAfter_rest hsrp hold] at hcl
      split_ifs at hcl with hlogin hchange
      · -- the proof accepted is that of the last exchange
        obtain ⟨hlen, p, a, hu, hlast⟩ := hok.proof hlogin.1 hlogin.2
        obtain ⟨m, y, r, rfl, hconn, hop, ht⟩ := lastSrp_mem hlast
        refine ⟨p, by rw [hcl, hu], .inl ⟨[], _, m, y, r, a, rfl, ⟨rfl, hlogin.1⟩, ⟨hconn, hop⟩, ht, ?_⟩⟩
        rw [← (hi.proof hlast).1]
        exact proofReceived_of_matches hlogin.2 hlen
      · rw [hcl] at hstage
        exact absurd hchange (hok.stays hstage).1
      · rw [hcl] at hstage
        exact hkeep hstage (by rw [hcl])
    · rw [clientAfter_old hold] at hcl
      have hlen := hok.old (by rw [hold]; simp)
      exact ⟨p, by rw [hcl], .inr ⟨_, List.mem_cons_self, ⟨rfl, op_of_oldTarget hold⟩,
        oldProved_of_target hh hold hlen⟩⟩
  · rw [clientAfter_srp hsrp] at hcl
    rw [hcl] at hstage
    exact hkeep hstage (by rw [hcl, (hok.stays hstage).2 p a hsrp])

/-- **Only who proved an account is logged in with it**, as long as packets respect the pairing of
account and proof. -/
theorem loggedIn_authenticated (env : Env) (w₀ w : Server) (h : History) (hstart : Start w₀)
    (hr : Run (Step env) w₀ h w) (hok : Allowed (Paired env) h) (c : ConnId) :
    Authenticated env c h w := by
  have hinv : Stored env h w ∧ ∀ c, Authenticated env c h w := by
    refine Run.invariant (I := fun h w => Stored env h w ∧ ∀ c, Authenticated env c h w)
      ⟨hstart.stored, fun c hst => absurd hst (hstart.stage c)⟩ ?_ hr hok
    rintro h w e w' ⟨hi, ha⟩ hpaired hs
    refine ⟨hi.step hs, fun c => ?_⟩
    rcases eq_or_ne c e.conn with rfl | hc
    · exact authenticated_step hi (ha _) hpaired hs
    · obtain ⟨rs, hh⟩ := hs
      have hcl := (handle_did hh).client_ne hc
      unfold Authenticated
      rw [hcl]
      intro hst
      obtain ⟨p, hp, hproved⟩ := ha c hst
      exact ⟨p, hp, hproved.imp (.cons _) (.cons _)⟩
  exact hinv.2 c

/-! ### Logged in as nobody -/

/-- The two proof packets are always handled. -/
theorem exists_step (env : Env) (call : Call) (hop : call.op = .authLogonProof ∨ call.op = .accountChangeProof)
    (c : ConnId) (w : Server) : ∃ w', Step env w ⟨c, call⟩ w' := by
  obtain ⟨op, payload, sc⟩ := call
  dsimp only at hop
  rcases hop with rfl | rfl
  · exact ⟨_, _, rfl⟩
  · exact ⟨_, _, rfl⟩

theorem clientAfter_login {payload : List Byte} {sc : Scratch}
    (hm : proofMatches c ⟨.authLogonProof, payload, sc⟩ w) :
    clientAfter env c ⟨.authLogonProof, payload, sc⟩ w = { w.client c with
      stage := .bnetLoggedIn, stats := toLE 4 (w.client c).gameid.toNat } := by
  rw [clientAfter_of_op (by simp) (by simp) (by simp), if_pos ⟨rfl, hm⟩]

theorem clientAfter_change {payload : List Byte} {sc : Scratch} :
    clientAfter env c ⟨.accountChangeProof, payload, sc⟩ w = { w.client c with user := none } := by
  rw [clientAfter_of_op (by simp) (by simp) (by simp), if_neg (by simp), if_pos rfl]

theorem step_srp {call : Call} (ht : srpTarget env w call = some (p, a)) (c : ConnId) :
    ∃ w', Step env w ⟨c, call⟩ w' := by
  obtain ⟨store, rs, -, hh, -⟩ := handle_srp (c := c) ht
  exact ⟨_, rs, hh⟩

theorem Step.client (hs : Step env w e w') : w'.client e.conn = clientAfter env e.conn e.call w := by
  obtain ⟨rs, hh⟩ := hs
  exact (handle_did hh).client

/-- A password change drops the account and keeps the proof, with which one then logs in. -/
theorem nobody_logs_in {call : Call} (ht : srpTarget env w call = some (p, a)) (c : ConnId)
    (sc : Scratch) (l : List Byte) : ∃ h w', Run (Step env) w h w' ∧
      (w'.client c).stage = .bnetLoggedIn ∧ (w'.client c).user = none := by
  obtain ⟨w1, h1⟩ := step_srp ht c
  obtain ⟨w2, h2⟩ := exists_step env ⟨.accountChangeProof, a.clientProof.bytes ++ l, sc⟩ (.inr rfl) c w1
  obtain ⟨w3, h3⟩ := exists_step env ⟨.authLogonProof, a.clientProof.bytes, sc⟩ (.inl rfl) c w2
  have c1 := h1.client
  have c2 := h2.client
  have c3 := h3.client
  dsimp only at c1 c2 c3
  rw [clientAfter_srp ht] at c1
  rw [clientAfter_change, c1] at c2
  have hm : proofMatches c ⟨.authLogonProof, a.clientProof.bytes, sc⟩ w2 := by
    refine matches_of_proofReceived ?_
    rw [c2]
    exact List.take_of_length_le a.clientProof.len.le
  rw [clientAfter_login hm, c2] at c3
  exact ⟨_, w3, .snoc (.snoc (.snoc .nil h1) h2) h3, by rw [c3], by rw [c3]⟩

/-- Two accounts in the cache: `alice`, for SRP, and `bob`, for old logons. -/
def duoItem (p : Ptr) : UserCacheItem :=
  if p = 0 then { UserCacheItem.new (str "alice") (Buf.zero 20) with id := 1, flag := UCF_NLSAUTH }
  else { UserCacheItem.new (str "bob") (Buf.zero 20) with id := 2, flag := UCF_OLSAUTH }

/-- A server with these accounts and new connections. -/
def duo : Server where
  clients := ⟨fun _ => { Client.new 0 0 (Buf.zero 20) (Buf.zero 20) with stage := .bnet }, 1⟩
  pool := ⟨[], []⟩
  store := ⟨⟨⟨duoItem, 2⟩, 3, 2, [(str "alice", 0), (str "bob", 1)], [(1, 0), (2, 1)]⟩, ⟨[], []⟩⟩

theorem start_duo : Start duo := by
  have hb : Bounded duo.store.cache := bounded_of_maps (by simp [duo]) (by simp [duo])
  exact ⟨fun _ => rfl, fun _ => by simp [duo, Server.client, Client.new], hb⟩

open UserLookup (idleEnv)

/-- `alice` logging on, with the public key `0`. -/
def aliceLogon : Call := ⟨.authLogon, (Buf.zero 32).bytes ++ str "alice", Scratch.zero⟩

def aliceAnswer : SrpAnswer := srpAnswer Scratch.zero (str "alice") (duoItem 0) (Buf.zero 32)

theorem srpTarget_aliceLogon : srpTarget idleEnv duo aliceLogon = some (0, aliceAnswer) := by
  have hkey : duo.store.cache.findKey (.name (str "alice")) = some 0 := by decide
  have hname : (readLogon aliceLogon.scratch aliceLogon.payload).username = str "alice" := by decide
  have hpub : (readLogon aliceLogon.scratch aliceLogon.payload).pubkey = Buf.zero 32 := by decide
  have hl := lookup_cached idleEnv idleEnv.depth _ hkey
  unfold srpTarget
  dsimp only
  rw [hname, hpub, hl]
  rfl

theorem nobody_logged_in : ∃ h w, Start duo ∧ Run (Step idleEnv) duo h w ∧
    ¬ Authenticated idleEnv 0 h w := by
  obtain ⟨h, w, hr, hstage, huser⟩ := nobody_logs_in srpTarget_aliceLogon 0 Scratch.zero []
  refine ⟨h, w, start_duo, hr, fun ha => ?_⟩
  obtain ⟨p, hp, -⟩ := ha hstage
  rw [huser] at hp
  cases hp

/-! ### Accounts without the SRP flag -/

def Lacks (w : Server) (p : Ptr) : Prop := (w.item p).flag &&& UCF_NLSAUTH = 0

/-- No SRP exchange is begun for an account without the flag, no SRP login made with one, and its salt
and verifier stay. -/
structure Spared (env : Env) (x : Entry Server Event) : Prop where
  named : ∀ p a, srpTarget env x.before x.event.call = some (p, a) → ¬ Lacks x.after p
  login : x.event.call.op = .authLogonProof → proofMatches x.event.conn x.event.call x.before →
    ∀ p, (x.before.client x.event.conn).user = some p → ¬ Lacks x.before p
  kept : x.event.call.op = .accountChangeProof → ∀ p < x.before.store.cache.heap.brk,
    Lacks x.before p → (x.after.item p).salt = (x.before.item p).salt ∧
      (x.after.item p).verifier = (x.before.item p).verifier

/-- Password changes name SRP accounts, and a proof is accepted for the account of its exchange. -/
structure FlagPaired (env : Env) (h : History) (w : Server) (e : Event) : Prop where
  change : e.call.op = .accountChange → ∀ p store,
    lookup env env.depth w.store (.name e.call.username) = some (some p, store) →
      (store.cache.get p).flag &&& UCF_NLSAUTH ≠ 0
  proof : e.call.op = .authLogonProof ∨ e.call.op = .accountChangeProof →
    proofMatches e.conn e.call w → ∀ p, (w.client e.conn).user = some p →
      ∃ op a, lastSrp env e.conn h = some (op, p, a)

/-- Exchanges are for accounts with the flag. -/
structure Flagged (env : Env) (h : History) (w : Server) : Prop where
  stored : Stored env h w
  flag : ∀ {c op p a}, lastSrp env c h = some (op, p, a) → ¬ Lacks w p

theorem Step.lacks (hs : Step env w e w') (hb : Bounded w.store.cache) (hp : p < w.store.cache.heap.brk) :
    Lacks w' p ↔ Lacks w p := by
  obtain ⟨rs, hh⟩ := hs
  have hwho := (handle_did hh).who hb hp
  have hflag : (w'.item p).flag = (w.item p).flag := congrArg (fun t => t.2.2) hwho
  unfold Lacks
  rw [hflag]

theorem named_flag (hs : Step env w e w') (hok : FlagPaired env h w e)
    (ht : srpTarget env w e.call = some (p, a)) : ¬ Lacks w' p := by
  obtain ⟨rs, hh⟩ := hs
  obtain ⟨store, rs', hl, hh', -⟩ := handle_srp (c := e.conn) ht
  rw [hh'] at hh
  cases hh
  have hitem : (((withStore w store).setUser e.conn (some p)).setProof e.conn a.serverProof
      a.clientProof).item p = store.cache.get p := by
    unfold Server.item
    rw [Server.setProof_store, Server.setUser_store]
    rfl
  unfold Lacks
  rw [hitem]
  rcases op_of_srpTarget ht with hop | hop
  · exact ((srpTarget_spec ht hl).2.2 hop).2
  · exact hok.change hop p store hl

theorem Flagged.step (hi : Flagged env h w) (hok : FlagPaired env h w e) (hs : Step env w e w') :
    Flagged env (⟨w, e, w'⟩ :: h) w' := by
  refine ⟨hi.stored.step hs, fun {c op p a} hl => ?_⟩
  by_cases hc : e.conn = c ∧ srpTarget env w e.call ≠ none
  · obtain ⟨⟨q, b⟩, ht⟩ := Option.ne_none_iff_exists'.mp hc.2
    rw [lastSrp_new hc.1 ht] at hl
    cases hl
    exact named_flag hs hok ht
  · rw [lastSrp_old fun hconn => by simpa [hconn] using hc] at hl
    rw [hs.lacks hi.stored.bounded (hi.stored.proof hl).2]
    exact hi.flag hl

theorem Flagged.spared (hi : Flagged env h w) (hok : FlagPaired env h w e) (hs : Step env w e w') :
    Spared env ⟨w, e, w'⟩ := by
  refine ⟨fun p a ht => named_flag hs hok ht, fun hop hm p hu => ?_, fun hop p hp hlacks => ?_⟩
  · obtain ⟨op, a, hl⟩ := hok.proof (.inl hop) hm p hu
    exact hi.flag hl
  · obtain ⟨rs, hh⟩ := hs
    rcases (handle_did hh).secrets hi.stored.bounded hp with hkeep | ⟨-, hu, hm⟩
    · exact hkeep
    · -- the account would be that of the last exchange, which has the flag
      obtain ⟨op, a, hl⟩ := hok.proof (.inr hop) hm p hu
      exact absurd hlacks (hi.flag hl)

/-- **Accounts without the flag stay out of SRP**, as long as password changes name accounts that have
it and proofs go with their exchange. -/
theorem no_srp_without_flag (env : Env) (w₀ w : Server) (h : History) (hstart : Start w₀)
    (hr : Run (Step env) w₀ h w) (hok : Allowed (FlagPaired env) h) : ∀ x ∈ h, Spared env x := by
  have hinv : Flagged env h w ∧ ∀ x ∈ h, Spared env x := by
    refine Run.invariant (I := fun h w => Flagged env h w ∧ ∀ x ∈ h, Spared env x)
      ⟨⟨hstart.stored, fun hl => by cases hl⟩, by simp⟩ ?_ hr hok
    rintro h w e w' ⟨hi, hx⟩ hpaired hs
    refine ⟨hi.step hpaired hs, fun x hmem => ?_⟩
    rcases List.mem_cons.mp hmem with rfl | hmem
    · exact hi.spared hpaired hs
    · exact hx x hmem
  exact hinv.2

/-- A password change of `bob`, who has no verifier. -/
def bobChange : Call := ⟨.accountChange, (Buf.zero 32).bytes ++ str "bob", Scratch.zero⟩

theorem srpTarget_bobChange : ∃ a, srpTarget idleEnv duo bobChange = some (1, a) := by
  have hkey : duo.store.cache.findKey (.name (str "bob")) = some 1 := by decide
  have hname : (readLogon bobChange.scratch bobChange.payload).username = str "bob" := by decide
  have hl := lookup_cached idleEnv idleEnv.depth _ hkey
  refine ⟨srpAnswer Scratch.zero (str "bob") (duoItem 1)
    (readLogon bobChange.scratch bobChange.payload).pubkey, ?_⟩
  unfold srpTarget
  dsimp only
  rw [hname, hl]
  rfl

theorem bob_becomes_user : ∃ h w, Start duo ∧ Run (Step idleEnv) duo h w ∧ ∃ x ∈ h, ¬ Spared idleEnv x := by
  obtain ⟨a, ht⟩ := srpTarget_bobChange
  obtain ⟨w1, h1⟩ := step_srp ht 0
  refine ⟨_, w1, start_duo, .snoc .nil h1, _, List.mem_cons_self, fun hs => ?_⟩
  have hlacks : Lacks duo 1 := by unfold Lacks; decide
  exact hs.named 1 a ht ((h1.lacks start_duo.bounded Nat.one_lt_two).mpr hlacks)

/-! ### An honest login -/

/-- Logging on and bringing the proof. -/
theorem honest_login {call : Call} (ht : srpTarget env w call = some (p, a)) (hop : call.op = .authLogon)
    (hstage : (w.client c).stage ≠ .bnetLoggedIn) (sc : Scratch) :
    ∃ h w', Run (Step env) w h w' ∧ Allowed (Paired env) h ∧ Allowed (FlagPaired env) h ∧
      (w'.client c).stage = .bnetLoggedIn := by
  obtain ⟨w1, h1⟩ := step_srp ht c
  obtain ⟨w2, h2⟩ := exists_step env ⟨.authLogonProof, a.clientProof.bytes, sc⟩ (.inl rfl) c w1
  have c1 := h1.client
  have c2 := h2.client
  dsimp only at c1 c2
  rw [clientAfter_srp ht] at c1
  have hm : proofMatches c ⟨.authLogonProof, a.clientProof.bytes, sc⟩ w1 := by
    refine matches_of_proofReceived ?_
    rw [c1]
    exact List.take_of_length_le a.clientProof.len.le
  rw [clientAfter_login hm] at c2
  have hlast : lastSrp env c [⟨w, ⟨c, call⟩, w1⟩] = some (.authLogon, p, a) := by
    rw [← hop]
    exact lastSrp_new rfl ht
  have hflag1 : FlagPaired env [] w ⟨c, call⟩ :=
    ⟨fun hop' => absurd (hop.symm.trans hop') (by simp), fun hop' => by
      rw [show (Event.mk c call).call.op = .authLogon from hop] at hop'
      simp at hop'⟩
  have hflag2 : FlagPaired env [⟨w, ⟨c, call⟩, w1⟩] w1
      ⟨c, ⟨.authLogonProof, a.clientProof.bytes, sc⟩⟩ := by
    refine ⟨fun hop' => absurd hop' (by simp), fun _ _ q hq => ⟨.authLogon, a, ?_⟩⟩
    rw [c1] at hq
    cases hq
    exact hlast
  refine ⟨_, w2, .snoc (.snoc .nil h1) h2, ⟨⟨?_, ?_, ?_⟩, ⟨?_, ?_, ?_⟩, trivial⟩,
    ⟨hflag2, hflag1, trivial⟩, by rw [c2]⟩
  · exact fun _ _ => ⟨a.clientProof.len.ge, p, a, by rw [c1], hlast⟩
  · exact fun ho => absurd (oldTarget_of_op (by simp)) ho
  · intro hst
    rw [c1] at hst
    exact absurd hst hstage
  · exact fun hop' => absurd (hop.symm.trans hop') (by simp)
  · intro ho
    obtain ⟨q, hq⟩ := Option.ne_none_iff_exists'.mp ho
    exact absurd (hop.symm.trans (op_of_oldTarget hq)) (by simp)
  · exact fun hst => absurd hst hstage

theorem alice_authenticated : ∃ h w, Run (Step idleEnv) duo h w ∧ Allowed (Paired idleEnv) h ∧
    (w.client 0).stage = .bnetLoggedIn ∧ Authenticated idleEnv 0 h w := by
  obtain ⟨h, w, hr, hok, -, hst⟩ := honest_login (c := 0) srpTarget_aliceLogon rfl (start_duo.stage 0) .zero
  exact ⟨h, w, hr, hok, hst, loggedIn_authenticated idleEnv duo w h start_duo hr hok 0⟩

theorem alice_spared : ∃ h w, Run (Step idleEnv) duo h w ∧ Allowed (FlagPaired idleEnv) h ∧
    (w.client 0).stage = .bnetLoggedIn ∧ ∀ x ∈ h, Spared idleEnv x := by
  obtain ⟨h, w, hr, -, hok, hst⟩ := honest_login (c := 0) srpTarget_aliceLogon rfl (start_duo.stage 0) .zero
  exact ⟨h, w, hr, hok, hst, no_srp_without_flag idleEnv duo w h start_duo hr hok⟩

end Blitzd.Plugins.LogonRun
