import Blitzd.Cache.Credentials
import Blitzd.Plugins.LogonRun

/-! # Who may change a password

`receive` hands buffers of packets to connections: a buffer that arrives in the stage before login goes
to the pre-login suite as a whole, also the packets behind the one that logs in (`ProcessBNet` does
not look at the stage again). Whatever the grouping, the result is a run of the suite (`receive_run`).

`credentials_guarded`: as long as names are read as themselves and a proof is accepted only for the
account of its exchange (`Careful`), the salt and verifier of an account change only with the proof
computed for that account, its old password only with the hash that fits it. `bob_overwritten` is the
order of packets that breaks it otherwise: `AuthLogon` as one account, `OldAuthLogon2` as another, and
`AccountChangeProof` with the proof of the first. -/

namespace Blitzd.Plugins.LogonCredentials

open Blitzd.Lib Blitzd.Lib.Bytes Blitzd.Utils Blitzd.Utils.CString Blitzd.Cache Blitzd.Core
open Blitzd.Plugins.Logon Blitzd.Plugins.LogonRun

variable {env : Env} {w₀ w w' : Server} {h h' : History} {e : Event}

/-! ### Receive buffers -/

/-- `ProcessBNet`: every packet of the buffer goes to the suite. -/
def processBNet (env : Env) (c : ConnId) : List Call → History → Server → Option (History × Server)
  | [], h, w => some (h, w)
  | call :: l, h, w =>
    match handle env c call w with
    | none => none
    | some (w', _) => processBNet env c l (⟨w, ⟨c, call⟩, w'⟩ :: h) w'

/-- A buffer received on a connection. Past the login the packets of this suite are not known. -/
def onRecv (env : Env) (c : ConnId) (l : List Call) (h : History) (w : Server) :
    Option (History × Server) :=
  if (w.client c).stage = .bnet then processBNet env c l h w else some (h, w)

def receive (env : Env) : List (ConnId × List Call) → History → Server → Option (History × Server)
  | [], h, w => some (h, w)
  | (c, l) :: gs, h, w =>
    match onRecv env c l h w with
    | none => none
    | some (h', w') => receive env gs h' w'

theorem processBNet_run {c : ConnId} : ∀ (l : List Call) {h h' : History} {w w' : Server},
    Run (Step env) w₀ h w → processBNet env c l h w = some (h', w') → Run (Step env) w₀ h' w'
  | [], h, h', w, w', hr, he => by
    cases he
    exact hr
  | call :: l, h, h', w, w', hr, he => by
    rw [processBNet] at he
    rcases hh : handle env c call w with _ | ⟨w1, rs⟩
    · rw [hh] at he
      cases he
    · rw [hh] at he
      exact processBNet_run l (.snoc hr ⟨rs, hh⟩) he

/-- Buffers make a run, however the packets are grouped. -/
theorem receive_run : ∀ (gs : List (ConnId × List Call)) {h h' : History} {w w' : Server},
    Run (Step env) w₀ h w → receive env gs h w = some (h', w') → Run (Step env) w₀ h' w'
  | [], h, h', w, w', hr, he => by
    cases he
    exact hr
  | (c, l) :: gs, h, h', w, w', hr, he => by
    rw [receive] at he
    rcases hg : onRecv env c l h w with _ | ⟨h1, w1⟩
    · rw [hg] at he
      cases he
    · rw [hg] at he
      refine receive_run gs ?_ he
      unfold onRecv at hg
      split_ifs at hg
      · exact processBNet_run l hr hg
      · cases hg
        exact hr

/-! ### Changes of credentials -/

/-- The packet is a password change with the proof that the connection's last SRP exchange computed for
account `i`. -/
def ChangeProved (env : Env) (h : History) (w : Server) (e : Event) (i : UInt32) : Prop :=
  e.call.op = .accountChangeProof ∧ ∃ op p a, lastSrp env e.conn h = some (op, p, a) ∧
    (w.item p).id = i ∧ ProofReceived e.call.payload a.clientProof

/-- The change from `cr` to `cr'` is one that account `i` has authorised by this packet. -/
def Authorised (env : Env) (h : History) (w : Server) (e : Event) (i : UInt32) (cr cr' : Creds) : Prop :=
  (cr'.salt ≠ cr.salt ∨ cr'.verifier ≠ cr.verifier → ChangeProved env h w e i) ∧
  (cr'.passwd ≠ cr.passwd → e.call.op = .oldAccountChange ∧ HashReceived e.call.payload cr.passwd)

/-- Every account is still there after the packet, and what changed was authorised. -/
def Guarded (env : Env) (h : History) (x : Entry Server Event) : Prop :=
  ∀ i cr, x.before.store.creds i = some cr →
    ∃ cr', x.after.store.creds i = some cr' ∧ Authorised env h x.before x.event i cr cr'

/-- Names are read as themselves, ids do not run out, a proof is accepted only for the account of its
exchange, and packets are long enough to hold what is compared. -/
structure Careful (env : Env) (h : History) (w : Server) (e : Event) : Prop where
  name : Reads w.store e.call.username
  next : e.call.op = .accountCreate ∨ e.call.op = .oldAccountCreate2 →
    w.store.cache.nextUid.toNat + 1 < 2 ^ 32
  proof : e.call.op = .accountChangeProof → proofMatches e.conn e.call w →
    ∀ p, (w.client e.conn).user = some p →
      20 ≤ e.call.payload.length ∧ ∃ op a, lastSrp env e.conn h = some (op, p, a)
  old : changeTarget env w e.call ≠ none → 28 ≤ e.call.payload.length

/-- The accounts that connections hold are found under their ids. -/
structure Held (w : Server) : Prop where
  sound : Sound w.store
  user : ∀ {c p}, (w.client c).user = some p → w.store.cache.findId (w.item p).id = some p

theorem nulFree_readName (st : Stream) : NulFree (readName st) := fun _ hx =>
  Stream.readStr_ne_zero (List.mem_of_mem_take hx)

theorem nulFree_username (call : Call) : NulFree call.username := by
  obtain ⟨op, payload, sc⟩ := call
  cases op with
  | authLogonProof | accountChangeProof => exact fun _ hx => absurd hx (by simp [Call.username])
  | _ =>
    simp only [Call.username, readLogon, readCreate, readOldCreate, readOldChange, readOldLogon]
    exact nulFree_readName _

theorem hashReceived_of_changeTarget {call : Call} {p : Ptr} {q : Buf 20} {store : Store}
    (ht : changeTarget env w call = some (p, q))
    (hl : lookup env env.depth w.store (.name call.username) = some (some p, store))
    (hlen : 28 ≤ call.payload.length) : HashReceived call.payload (store.cache.get p).passwd := by
  obtain ⟨-, -, hash⟩ := changeTarget_spec ht hl
  refine ⟨(readOldChange call.scratch call.payload).token, ?_⟩
  rw [hash]
  exact take_token_pwd call.scratch.token call.scratch.pwd hlen

theorem setPasswd_keeps (q : Buf 20) (u : UserCacheItem) :
    (u.setPasswd q).id = u.id ∧ (u.setPasswd q).username = u.username := by
  have hwho := who_setPasswd u q
  exact ⟨congrArg (fun t => t.1) hwho, congrArg (fun t => t.2.1) hwho⟩

theorem change_keeps (s v : Buf 32) (u : UserCacheItem) :
    ((u.setSalt s).setVerifier v).id = u.id ∧ ((u.setSalt s).setVerifier v).username = u.username := by
  have hwho := who_change u s v
  exact ⟨congrArg (fun t => t.1) hwho, congrArg (fun t => t.2.1) hwho⟩

/-- **What one packet does to the credentials.** -/
theorem moves_step (hw : Held w) (hi : Stored env h w) (hok : Careful env h w e) (hs : Step env w e w') :
    Moves (Authorised env h w e) w.store w'.store := by
  obtain ⟨rs, hh⟩ := hs
  have hans : ∀ {a : Option Ptr} {store : Store},
      lookup env env.depth w.store (.name e.call.username) = some (a, store) →
        Answers env w.store (.name e.call.username) a store := fun hl =>
    lookup_loads hw.sound (nulFree_username _) hok.name hl
  have hload : ∀ {a : Option Ptr} {store : Store},
      lookup env env.depth w.store (.name e.call.username) = some (a, store) → Sound store := fun hl =>
    hw.sound.loaded (hans hl).loaded (hans hl).coherent
  cases handle_did hh with
  | looked _ _ hl => exact .of_loaded hw.sound (hans hl).loaded (.refl (hload hl))
  | srp hl =>
    rw [Server.setProof_store, Server.setUser_store]
    exact .of_loaded hw.sound (hans hl).loaded (.refl (hload hl))
  | oldLogin hl =>
    rw [Server.setStage_store, Server.setUser_store]
    exact .of_loaded hw.sound (hans hl).loaded (.refl (hload hl))
  | @passwd p q store hl ht =>
    refine .of_loaded hw.sound (hans hl).loaded
      (moves_modify (hload hl) (findId_of_answer (hans hl)) (setPasswd_keeps q) ⟨fun hne => ?_, fun _ => ?_⟩)
    · obtain ⟨d, hd⟩ := (store.cache.get p).setPasswd_eq q
      rw [hd] at hne
      exact absurd hne (by simp [UserCacheItem.creds])
    · exact ⟨op_of_changeTarget ht,
        hashReceived_of_changeTarget ht hl (hok.old (by rw [ht]; simp))⟩
  | @create ptr store f hop hl hfree hf =>
    have hno : ∀ p, ptr = some p → (store.cache.get p).isExist = false := fun p hp =>
      Bool.eq_false_of_not_eq_true fun hex => hfree ⟨p, hp, hex⟩
    obtain ⟨hname, hrow⟩ := free_of_answer (hload hl).db (hans hl) hno
    have hnext := (hans hl).loaded.next hw.sound.rowBelow
    exact .of_loaded hw.sound (hans hl).loaded
      (moves_add (hload hl) hf hname hrow (by rw [hnext]; exact hok.next hop))
  | login => exact .refl hw.sound
  | refused => exact .refl hw.sound
  | @change p hop hu hm =>
    rw [Server.setUser_store]
    obtain ⟨hlen, op, a, hl⟩ := hok.proof hop hm p hu
    refine moves_modify hw.sound (hw.user hu) (change_keeps _ _) ⟨fun _ => ?_, fun hne => ?_⟩
    · refine ⟨hop, op, p, a, hl, rfl, ?_⟩
      rw [← (hi.proof hl).1]
      exact proofReceived_of_matches hm hlen
    · obtain ⟨d, hd⟩ := (w.item p).setSalt_eq (readChange e.call.scratch e.call.payload).s
      obtain ⟨d', hd'⟩ := ((w.item p).setSalt (readChange e.call.scratch e.call.payload).s).setVerifier_eq
        (readChange e.call.scratch e.call.payload).v
      refine absurd ?_ hne
      show (((w.item p).setSalt _).setVerifier _).passwd = (w.item p).passwd
      rw [hd', hd]
  | unchanged =>
    rw [Server.setUser_store]
    exact .refl hw.sound

/-- An account decided for is found under its id afterwards. -/
theorem findId_of_target (hw : Held w) (hok : Careful env h w e) (hs : Step env w e w') {p : Ptr}
    (ht : (∃ a, srpTarget env w e.call = some (p, a)) ∨ oldTarget env w e.call = some p) :
    w'.store.cache.findId (w'.item p).id = some p := by
  obtain ⟨rs, hh⟩ := hs
  have hfind : ∀ {store : Store},
      lookup env env.depth w.store (.name e.call.username) = some (some p, store) →
        store.cache.findId (store.cache.get p).id = some p := fun hl =>
    findId_of_answer (lookup_loads hw.sound (nulFree_username _) hok.name hl)
  unfold Server.item
  rcases ht with ⟨a, ht⟩ | ht
  · obtain ⟨store, rs', hl, hh', -⟩ := handle_srp (c := e.conn) ht
    rw [hh'] at hh
    cases hh
    rw [Server.setProof_store, Server.setUser_store]
    exact hfind hl
  · obtain ⟨store, rs', hl, hh', -⟩ := handle_old (c := e.conn) ht
    rw [hh'] at hh
    cases hh
    rw [Server.setStage_store, Server.setUser_store]
    exact hfind hl

theorem Held.step (hw : Held w) (hi : Stored env h w) (hok : Careful env h w e) (hs : Step env w e w') :
    Held w' := by
  have hm := moves_step hw hi hok hs
  -- an account held before is still found
  have hkeep : ∀ {c p}, (w.client c).user = some p → w'.store.cache.findId (w'.item p).id = some p := by
    intro c p hu
    have hp := hw.user hu
    obtain ⟨rs, hh⟩ := hs
    have hwho := (handle_did hh).who hi.bounded (hw.sound.coherent.id hp).1
    have hid : (w'.item p).id = (w.item p).id := congrArg (fun t => t.1) hwho
    rw [hid]
    exact hm.keepId hp
  refine ⟨hm.sound, fun {c p} hu => ?_⟩
  rcases eq_or_ne c e.conn with rfl | hc
  · rw [hs.client] at hu
    rcases hsrp : srpTarget env w e.call with _ | ⟨q, a⟩
    · rcases hold : oldTarget env w e.call with _ | q
      · rw [clientAfter_rest hsrp hold] at hu
        split_ifs at hu
        · exact hkeep hu
        · exact hkeep hu
      · rw [clientAfter_old hold] at hu
        cases hu
        exact findId_of_target hw hok hs (.inr hold)
    · rw [clientAfter_srp hsrp] at hu
      cases hu
      exact findId_of_target hw hok hs (.inl ⟨a, hsrp⟩)
  · obtain ⟨rs, hh⟩ := hs
    rw [(handle_did hh).client_ne hc] at hu
    exact hkeep hu

theorem guarded_step (hw : Held w) (hi : Stored env h w) (hok : Careful env h w e)
    (hs : Step env w e w') : Guarded env h ⟨w, e, w'⟩ := by
  intro i cr hcr
  obtain ⟨cr', hcr', rfl | hchg⟩ := (moves_step hw hi hok hs).creds hcr
  · exact ⟨cr', hcr', fun hne => by simp at hne, fun hne => absurd rfl hne⟩
  · exact ⟨cr', hcr', hchg⟩

/-- **Credentials change only with a proof for the account they belong to**, in every interleaving and
grouping of packets that are `Careful`. -/
theorem credentials_guarded (env : Env) (w₀ w : Server) (gs : List (ConnId × List Call)) (h : History)
    (hstart : Start w₀) (hsound : Sound w₀.store) (hr : receive env gs [] w₀ = some (h, w))
    (hok : Allowed (Careful env) h) : ∀ l x r, h = l ++ x :: r → Guarded env r x := by
  have hinv : Stored env h w ∧ Held w ∧ ∀ l x r, h = l ++ x :: r → Guarded env r x := by
    refine Run.invariant
      (I := fun h w => Stored env h w ∧ Held w ∧ ∀ l x r, h = l ++ x :: r → Guarded env r x)
      ⟨hstart.stored, ⟨hsound, fun {c p} hu => ?_⟩, fun l x r he => by simp at he⟩ ?_
      (receive_run gs .nil hr) hok
    · rw [hstart.user c] at hu
      cases hu
    · rintro h w e w' ⟨hi, hw, hx⟩ hcareful hs
      refine ⟨hi.step hs, hw.step hi hcareful hs, fun l x r he => ?_⟩
      rcases l with _ | ⟨y, l⟩
      · cases he
        exact guarded_step hw hi hcareful hs
      · cases he
        exact hx l x r rfl
  exact hinv.2.2

/-! ### A password change, and one that is not -/

theorem sound_duo : Sound duo.store := by
  have hname : ∀ {n p}, duo.store.cache.findName n = some p →
      (p = 0 ∧ strcmpiEq (str "alice") n = true) ∨ (p = 1 ∧ strcmpiEq (str "bob") n = true) := by
    intro n p hn
    obtain ⟨k, hk, he⟩ := KeyMap.find_some hn
    simp only [duo, List.mem_cons, Prod.mk.injEq, List.not_mem_nil, or_false] at hk
    rcases hk with ⟨rfl, rfl⟩ | ⟨rfl, rfl⟩
    exacts [.inl ⟨rfl, he⟩, .inr ⟨rfl, he⟩]
  have hid : ∀ {i p}, duo.store.cache.findId i = some p → (p = 0 ∧ i = 1) ∨ (p = 1 ∧ i = 2) := by
    intro i p hi
    obtain ⟨k, hk, he⟩ := KeyMap.find_some hi
    have he : k = i := of_decide_eq_true he
    simp only [duo, List.mem_cons, Prod.mk.injEq, List.not_mem_nil, or_false] at hk
    rcases hk with ⟨rfl, rfl⟩ | ⟨rfl, rfl⟩
    exacts [.inl ⟨rfl, he.symm⟩, .inr ⟨rfl, he.symm⟩]
  refine ⟨⟨⟨.nil, .nil⟩, fun r hr => absurd hr (by simp [duo]), fun r hr => absurd hr (by simp [duo])⟩,
    fun r hr => absurd hr (by simp [duo]),
    ⟨fun {n p} hn => ?_, fun {i p} hi => ?_, fun r hr => absurd hr (by simp [duo]),
      fun r hr => absurd hr (by simp [duo])⟩, by decide, fun {i p} hi => ?_,
    fun r hr => absurd hr (by simp [duo])⟩
  · rcases hname hn with ⟨rfl, he⟩ | ⟨rfl, he⟩
    exacts [⟨Nat.zero_lt_two, he, fun _ => rfl⟩, ⟨Nat.one_lt_two, he, fun _ => rfl⟩]
  · rcases hid hi with ⟨rfl, rfl⟩ | ⟨rfl, rfl⟩
    exacts [⟨Nat.zero_lt_two, rfl, by decide, by decide⟩, ⟨Nat.one_lt_two, rfl, by decide, by decide⟩]
  · rcases hid hi with ⟨rfl, rfl⟩ | ⟨rfl, rfl⟩ <;> decide

variable {c : ConnId} {call : Call} {p : Ptr} {a : SrpAnswer}

/-- The password change of the account one has logged on to. -/
theorem own_change (ht : srpTarget env w call = some (p, a)) (hread : Reads w.store call.username)
    (hstage : (w.client c).stage = .bnet) (sc : Scratch) (l : List Byte) :
    ∃ h w', receive env [(c, [call, ⟨.accountChangeProof, a.clientProof.bytes ++ l, sc⟩])] [] w =
      some (h, w') ∧ h ≠ [] ∧ Allowed (Careful env) h := by
  obtain ⟨store, rs, -, h1, -⟩ := handle_srp (c := c) ht
  generalize ((withStore w store).setUser c (some p)).setProof c a.serverProof a.clientProof = w1 at h1
  obtain ⟨w2, rs2, h2⟩ := exists_step env ⟨.accountChangeProof, a.clientProof.bytes ++ l, sc⟩ (.inr rfl) c w1
  dsimp only at h2
  have c1 := (handle_did h1).client
  rw [clientAfter_srp ht] at c1
  have hop := op_of_srpTarget ht
  refine ⟨[⟨w1, ⟨c, ⟨.accountChangeProof, a.clientProof.bytes ++ l, sc⟩⟩, w2⟩, ⟨w, ⟨c, call⟩, w1⟩], w2, ?_,
    by simp, ⟨.inr (show UserLookup.Plain [] by decide), fun ho => ?_, fun _ _ q hq => ?_, fun ho => ?_⟩,
    ⟨hread, fun ho => ?_, fun ho => ?_, fun ho => ?_⟩, trivial⟩
  · simp only [receive, onRecv, if_pos hstage, processBNet, h1, h2]
  · rcases ho with ho | ho <;> cases ho
  · rw [c1] at hq
    cases hq
    exact ⟨by simp [a.clientProof.len], call.op, a, lastSrp_new rfl ht⟩
  · exact absurd (changeTarget_of_op (by simp)) ho
  · rcases hop with hop | hop <;> simp [hop] at ho
  · rcases hop with hop | hop <;> simp [hop] at ho
  · obtain ⟨⟨q, b⟩, hq⟩ := Option.ne_none_iff_exists'.mp ho
    have hchange : call.op = .oldAccountChange := op_of_changeTarget hq
    rcases hop with hop | hop <;> simp [hop] at hchange

open UserLookup (idleEnv)

theorem alice_changes_own : ∃ gs h w, receive idleEnv gs [] duo = some (h, w) ∧ h ≠ [] ∧
    Allowed (Careful idleEnv) h ∧ ∀ l x r, h = l ++ x :: r → Guarded idleEnv r x := by
  have hread : Reads duo.store aliceLogon.username := .inl (by decide)
  obtain ⟨h, w, hr, hne, hok⟩ := own_change srpTarget_aliceLogon hread (c := 0) rfl .zero []
  exact ⟨_, h, w, hr, hne, hok,
    credentials_guarded idleEnv duo w _ h start_duo sound_duo hr hok⟩

/-- `bob`'s old logon, for the token zero. -/
def bobLogon : Call :=
  ⟨.oldAuthLogon2, (Buf.zero 8).bytes ++ (oldHash (Buf.zero 8) (duoItem 1).passwd).bytes ++ str "bob", .zero⟩

theorem oldTarget_bobLogon (hstore : w.store = duo.store) : oldTarget idleEnv w bobLogon = some 1 := by
  have hkey : duo.store.cache.findKey (.name ((str "bob").take 15)) = some 1 := by decide
  have hl := lookup_cached idleEnv idleEnv.depth _ hkey
  have hread := readOldLogon_pack Scratch.zero (Buf.zero 8) (oldHash (Buf.zero 8) (duoItem 1).passwd)
    (n := str "bob") (by decide)
  unfold oldTarget bobLogon
  dsimp only
  rw [hread, hstore, hl]
  exact if_pos ⟨rfl, rfl, by decide, rfl⟩

/-- The change of the password, to salt and verifier of ones, with the proof of another's exchange. -/
def stolenChange (proof : Buf 20) : Call :=
  ⟨.accountChangeProof, proof.bytes ++ (Buf.const 32 1).bytes ++ (Buf.const 32 1).bytes, .zero⟩

/-- An exchange for a cached account touches the connection only. -/
theorem srp_cached (ht : srpTarget env w call = some (p, a))
    (hk : w.store.cache.findName call.username = some p) (c : ConnId) :
    ∃ w' rs, handle env c call w = some (w', rs) ∧ w'.store = w.store ∧
      w'.client c = { w.client c with
        user := some p, serverProof := a.serverProof, clientProof := a.clientProof } := by
  obtain ⟨store, rs, hl, hh, -⟩ := handle_srp (c := c) ht
  have hc := (handle_did hh).client
  rw [clientAfter_srp ht] at hc
  rw [lookup_cached env env.depth (.name call.username) hk] at hl
  have hstore : w.store = store := congrArg Prod.snd (Option.some.inj hl)
  refine ⟨_, rs, hh, ?_, hc⟩
  rw [Server.setProof_store, Server.setUser_store]
  exact hstore.symm

theorem old_cached (ht : oldTarget env w call = some p)
    (hk : w.store.cache.findName call.username = some p) (c : ConnId) :
    ∃ w' rs, handle env c call w = some (w', rs) ∧ w'.store = w.store ∧
      w'.client c = { w.client c with
        user := some p, stage := .bnetLoggedIn, stats := toLE 4 (w.client c).gameid.toNat } := by
  obtain ⟨store, rs, hl, hh, -⟩ := handle_old (c := c) ht
  have hc := (handle_did hh).client
  rw [clientAfter_old ht] at hc
  rw [lookup_cached env env.depth (.name call.username) hk] at hl
  have hstore : w.store = store := congrArg Prod.snd (Option.some.inj hl)
  refine ⟨_, rs, hh, ?_, hc⟩
  rw [Server.setStage_store, Server.setUser_store]
  exact hstore.symm

variable (env) in
theorem change_accepted {payload : List Byte} {sc : Scratch} (hu : (w.client c).user = some p)
    (hm : proofMatches c ⟨.accountChangeProof, payload, sc⟩ w) :
    ∃ w' rs, handle env c ⟨.accountChangeProof, payload, sc⟩ w = some (w', rs) ∧
      w'.store = ⟨w.store.cache.modify p fun u =>
        (u.setSalt (readChange sc payload).s).setVerifier (readChange sc payload).v, w.store.db⟩ := by
  have hh : handle env c ⟨.accountChangeProof, payload, sc⟩ w =
      some ((w.modifyItem p fun u => (u.setSalt (readChange sc payload).s).setVerifier
        (readChange sc payload).v).setUser c none, [.accountChangeProof 0 (w.client c).serverProof]) := by
    have hm : readProof sc payload = (w.client c).clientProof := hm
    simp only [handle, accountChangeProof, hu]
    rw [if_pos hm]
  refine ⟨_, _, hh, ?_⟩
  rw [Server.setUser_store]
  rfl

theorem creds_change (u : UserCacheItem) (s v : Buf 32) :
    ((u.setSalt s).setVerifier v).creds = ⟨s, v, u.passwd⟩ := by
  obtain ⟨d, hd⟩ := u.setSalt_eq s
  obtain ⟨d', hd'⟩ := (u.setSalt s).setVerifier_eq v
  rw [hd', hd]
  rfl

/-- Three packets in one buffer: the second logs in as `bob`, the third is checked against the proof of
the first. -/
theorem overwrites (ht : srpTarget idleEnv duo aliceLogon = some (0, a)) :
    ∃ x r w, receive idleEnv [(0, [aliceLogon, bobLogon, stolenChange a.clientProof])] [] duo =
      some (x :: r, w) ∧ lastSrp idleEnv 0 r = some (.authLogon, 0, a) ∧ x.event.conn = 0 ∧
      x.before.store = duo.store ∧ x.after.store.creds 2 =
        some ⟨Buf.const 32 1, Buf.const 32 1, (duoItem 1).passwd⟩ := by
  obtain ⟨w1, rs1, h1, s1, c1⟩ := srp_cached ht (by decide) 0
  have hbob : bobLogon.username = str "bob" := by
    have hread := readOldLogon_pack Scratch.zero (Buf.zero 8) (oldHash (Buf.zero 8) (duoItem 1).passwd)
      (n := str "bob") (by decide)
    exact congrArg OldLogonIn.username hread
  have hold := oldTarget_bobLogon s1
  obtain ⟨w2, rs2, h2, s2, c2⟩ := old_cached hold (by rw [hbob, s1]; decide) 0
  have hm : proofMatches 0 (stolenChange a.clientProof) w2 := by
    refine matches_of_proofReceived ?_
    rw [c2, c1]
    show (a.clientProof.bytes ++ _ ++ _).take 20 = _
    rw [List.append_assoc, List.take_left' a.clientProof.len]
  obtain ⟨w3, rs3, h3, s3⟩ := change_accepted idleEnv (p := 1) (by rw [c2]) hm
  refine ⟨⟨w2, ⟨0, stolenChange a.clientProof⟩, w3⟩, [⟨w1, ⟨0, bobLogon⟩, w2⟩, ⟨duo, ⟨0, aliceLogon⟩, w1⟩],
    w3, ?_, ?_, rfl, s2.trans s1, ?_⟩
  · have hstage : (duo.client 0).stage = .bnet := rfl
    have h3' : handle idleEnv 0 (stolenChange a.clientProof) w2 = some (w3, rs3) := h3
    simp only [receive, onRecv, if_pos hstage, processBNet, h1, h2, h3']
  · rw [lastSrp_old fun _ => srpTarget_of_op (by simp [bobLogon]) (by simp [bobLogon])]
    exact lastSrp_new rfl ht
  · dsimp only
    rw [s3, s2, s1, readChange_pack]
    rw [creds_modify_self (s := duo.store) (p := 1) (by decide), creds_change]
    rfl

theorem bob_overwritten : ∃ gs h w, Start duo ∧ Sound duo.store ∧
    receive idleEnv gs [] duo = some (h, w) ∧ ∃ l x r, h = l ++ x :: r ∧ ¬ Guarded idleEnv r x := by
  obtain ⟨x, r, w, hr, hlast, hconn, hbefore, hafter⟩ := overwrites srpTarget_aliceLogon
  refine ⟨_, _, w, start_duo, sound_duo, hr, [], x, r, rfl, fun hg => ?_⟩
  obtain ⟨cr', hcr', hsalt, -⟩ := hg 2 (duoItem 1).creds (by rw [hbefore]; rfl)
  rw [hafter] at hcr'
  cases hcr'
  obtain ⟨-, op, p, b, hl, hid, -⟩ := hsalt (.inl (by decide))
  rw [hconn, hlast] at hl
  cases hl
  unfold Server.item at hid
  rw [hbefore] at hid
  exact absurd hid (by decide)

end Blitzd.Plugins.LogonCredentials
