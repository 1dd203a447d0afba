import Blitzd.Cache.UserLoad
import Blitzd.Plugins.Logon

/-! # What one packet does

A call does one of a few things (`Did`, `handle_did`), decided by the account an SRP exchange is begun
for (`srpTarget`), the account an old logon logs in (`oldTarget`), the account whose old password is
replaced (`changeTarget`) and whether the proof of a proof packet is the one stored with the
connection (`proofMatches`). Everything said of runs rests on this list. A call leaves the other
connections alone (`Did.client_ne`). -/

namespace Blitzd.Plugins.Logon

open Blitzd.Lib Blitzd.Lib.Bytes Blitzd.Utils Blitzd.Crypto Blitzd.Cache Blitzd.Core

variable {env : Env} {c : ConnId} {call : Call} {w w' : Server} {rs : List Reply}

/-! ### The decisions -/

/-- The account name in a packet; the proof packets have none. -/
def Call.username (call : Call) : Text :=
  match call.op with
  | .authLogon | .accountChange => (readLogon call.scratch call.payload).username
  | .accountCreate => (readCreate call.scratch call.payload).username
  | .oldAccountCreate2 => (readOldCreate call.scratch call.payload).username
  | .oldAccountChange => (readOldChange call.scratch call.payload).username
  | .oldAuthLogon2 => (readOldLogon call.scratch call.payload).username
  | .authLogonProof | .accountChangeProof => []

/-- The account and the answers of the SRP exchange that the call begins, if it answers with status 0. -/
def srpTarget (env : Env) (w : Server) (call : Call) : Option (Ptr × SrpAnswer) :=
  let i := readLogon call.scratch call.payload
  match lookup env env.depth w.store (.name i.username) with
  | some (some p, store) =>
    let u := store.cache.get p
    if call.op = .accountChange ∨
        call.op = .authLogon ∧ u.isExist = true ∧ u.flag &&& UCF_NLSAUTH ≠ 0 then
      some (p, srpAnswer call.scratch i.username u i.pubkey)
    else none
  | _ => none

/-- The account an old logon is accepted for. -/
def oldTarget (env : Env) (w : Server) (call : Call) : Option Ptr :=
  let i := readOldLogon call.scratch call.payload
  match lookup env env.depth w.store (.name i.username) with
  | some (some p, store) =>
    let u := store.cache.get p
    if call.op = .oldAuthLogon2 ∧ u.isExist = true ∧ u.flag &&& UCF_OLSAUTH ≠ 0 ∧
        oldHash i.token u.passwd = i.pwd then some p else none
  | _ => none

/-- The account whose password an old change replaces, and the new one. -/
def changeTarget (env : Env) (w : Server) (call : Call) : Option (Ptr × Buf 20) :=
  let i := readOldChange call.scratch call.payload
  match lookup env env.depth w.store (.name i.username) with
  | some (some p, store) =>
    let u := store.cache.get p
    if call.op = .oldAccountChange ∧ u.isExist = true ∧ oldHash i.token u.passwd = i.pwd then
      some (p, i.newpwd) else none
  | _ => none

/-- The proof read by the two proof packets is the one stored with the connection. -/
def proofMatches (c : ConnId) (call : Call) (w : Server) : Prop :=
  readProof call.scratch call.payload = (w.client c).clientProof

instance : Decidable (proofMatches c call w) := inferInstanceAs (Decidable (_ = _))

/-! ### The cases of a call -/

/-- The state with the cache and database of a lookup. -/
def withStore (w : Server) (store : Store) : Server := { w with store := store }

/-- What a call can do. -/
inductive Did (env : Env) (c : ConnId) (call : Call) (w : Server) : Server → Prop
  /-- a lookup, and nothing else -/
  | looked {ptr : Option Ptr} {store : Store} (hop : call.op ≠ .authLogonProof)
      (hop' : call.op ≠ .accountChangeProof)
      (hl : lookup env env.depth w.store (.name call.username) = some (ptr, store))
      (hsrp : srpTarget env w call = none) (hold : oldTarget env w call = none)
      (hchange : changeTarget env w call = none) : Did env c call w (withStore w store)
  /-- an SRP exchange begun -/
  | srp {p : Ptr} {a : SrpAnswer} {store : Store}
      (hl : lookup env env.depth w.store (.name call.username) = some (some p, store))
      (ht : srpTarget env w call = some (p, a)) :
      Did env c call w
        (((withStore w store).setUser c (some p)).setProof c a.serverProof a.clientProof)
  /-- an old logon accepted -/
  | oldLogin {p : Ptr} {store : Store}
      (hl : lookup env env.depth w.store (.name call.username) = some (some p, store))
      (ht : oldTarget env w call = some p) :
      Did env c call w (((withStore w store).setUser c (some p)).setStage c .bnetLoggedIn)
  /-- an old password replaced -/
  | passwd {p : Ptr} {q : Buf 20} {store : Store}
      (hl : lookup env env.depth w.store (.name call.username) = some (some p, store))
      (ht : changeTarget env w call = some (p, q)) :
      Did env c call w ((withStore w store).modifyItem p fun u => u.setPasswd q)
  /-- an account created -/
  | create {ptr : Option Ptr} {store : Store} {f : UserCacheItem → UserCacheItem}
      (hop : call.op = .accountCreate ∨ call.op = .oldAccountCreate2)
      (hl : lookup env env.depth w.store (.name call.username) = some (ptr, store))
      (hfree : ¬ Taken (withStore w store) ptr)
      (hf : ∀ u, (f u).id = u.id ∧ (f u).username = u.username) :
      Did env c call w (addAccount env call.username f (withStore w store))
  /-- an SRP login -/
  | login (hop : call.op = .authLogonProof) (hm : proofMatches c call w) :
      Did env c call w (w.setStage c .bnetLoggedIn)
  | refused (hop : call.op = .authLogonProof) (hm : ¬ proofMatches c call w) : Did env c call w w
  /-- an SRP password change -/
  | change {p : Ptr} (hop : call.op = .accountChangeProof) (hu : (w.client c).user = some p)
      (hm : proofMatches c call w) :
      Did env c call w ((w.modifyItem p fun u =>
        (u.setSalt (readChange call.scratch call.payload).s).setVerifier
          (readChange call.scratch call.payload).v).setUser c none)
  | unchanged (hop : call.op = .accountChangeProof)
      (hm : ∀ p, (w.client c).user = some p → ¬ proofMatches c call w) :
      Did env c call w (w.setUser c none)

theorem withUser_eq_pair {name : Text} {k : Option Ptr → Server → Server × List Reply}
    (h : withUser env w name k = some (w', rs)) :
    ∃ ptr store, lookup env env.depth w.store (.name name) = some (ptr, store) ∧
      k ptr (withStore w store) = (w', rs) := by
  obtain ⟨⟨ptr, store⟩, hl, he⟩ := Option.map_eq_some_iff.mp h
  exact ⟨ptr, store, hl, he⟩

theorem withUser_eq_some {name : Text} {k : Option Ptr → Server → Server × List Reply}
    (h : withUser env w name k = some (w', rs)) :
    ∃ ptr store, lookup env env.depth w.store (.name name) = some (ptr, store) ∧
      w' = (k ptr (withStore w store)).1 := by
  obtain ⟨ptr, store, hl, he⟩ := withUser_eq_pair h
  exact ⟨ptr, store, hl, by rw [he]⟩

section Ops

variable {payload : List Byte} {sc : Scratch}

theorem srpTarget_of_op (h1 : call.op ≠ .authLogon) (h2 : call.op ≠ .accountChange) :
    srpTarget env w call = none := by
  unfold srpTarget
  dsimp only
  split
  · rw [if_neg (by simp [h1, h2])]
  · rfl

theorem oldTarget_of_op (h1 : call.op ≠ .oldAuthLogon2) : oldTarget env w call = none := by
  unfold oldTarget
  dsimp only
  split
  · rw [if_neg (by simp [h1])]
  · rfl

theorem changeTarget_of_op (h1 : call.op ≠ .oldAccountChange) : changeTarget env w call = none := by
  unfold changeTarget
  dsimp only
  split
  · rw [if_neg (by simp [h1])]
  · rfl

theorem did_authLogon (h : authLogon env c sc payload w = some (w', rs)) :
    Did env c ⟨.authLogon, payload, sc⟩ w w' := by
  unfold authLogon at h
  obtain ⟨ptr, store, hl, rfl⟩ := withUser_eq_some h
  have hmiss : srpTarget env w ⟨.authLogon, payload, sc⟩ = none →
      Did env c ⟨.authLogon, payload, sc⟩ w (withStore w store) := fun ht =>
    .looked (by simp) (by simp) hl ht (oldTarget_of_op (by simp)) (changeTarget_of_op (by simp))
  rcases ptr with _ | p
  · exact hmiss (by simp only [srpTarget, hl])
  · have ht : srpTarget env w ⟨.authLogon, payload, sc⟩ =
        if ((withStore w store).item p).isExist = true ∧
          ((withStore w store).item p).flag &&& UCF_NLSAUTH ≠ 0 then
          some (p, srpAnswer sc (readLogon sc payload).username ((withStore w store).item p)
            (readLogon sc payload).pubkey) else none := by
      simp only [srpTarget, hl, reduceCtorEq, false_or, true_and]
      rfl
    dsimp only
    split_ifs with he hf
    · exact hmiss (by rw [ht, he]; simp)
    · exact hmiss (by rw [ht, if_neg fun h => h.2 hf])
    · rw [if_pos ⟨by simpa using he, hf⟩] at ht
      exact .srp hl ht

theorem did_accountChange (h : accountChange env c sc payload w = some (w', rs)) :
    Did env c ⟨.accountChange, payload, sc⟩ w w' := by
  unfold accountChange at h
  obtain ⟨ptr, store, hl, rfl⟩ := withUser_eq_some h
  rcases ptr with _ | p
  · refine .looked (by simp) (by simp) hl ?_ (oldTarget_of_op (by simp)) (changeTarget_of_op (by simp))
    simp only [srpTarget, hl]
  · have ht : srpTarget env w ⟨.accountChange, payload, sc⟩ =
        some (p, srpAnswer sc (readLogon sc payload).username ((withStore w store).item p)
          (readLogon sc payload).pubkey) := by
      simp only [srpTarget, hl, true_or, if_true]
      rfl
    exact .srp hl ht

theorem did_authLogonProof :
    Did env c ⟨.authLogonProof, payload, sc⟩ w (authLogonProof c sc payload w).1 := by
  unfold authLogonProof
  dsimp only
  split_ifs with hm
  · exact .login rfl hm
  · exact .refused rfl hm

theorem did_accountChangeProof :
    Did env c ⟨.accountChangeProof, payload, sc⟩ w (accountChangeProof c sc payload w).1 := by
  unfold accountChangeProof
  dsimp only
  rcases hu : (w.client c).user with _ | p
  · refine Did.unchanged (w := w) rfl fun p hp => ?_
    rw [hu] at hp
    cases hp
  · dsimp only
    split_ifs with hm
    · exact .change rfl hu hm
    · exact Did.unchanged (w := w) rfl fun _ _ => hm

/-- The settings of a new account keep its id and name. -/
theorem setup_keeps (salt verifier : Buf 32) (u : UserCacheItem) :
    (((u.setSalt salt).setVerifier verifier).addFlag UCF_NLSAUTH).id = u.id ∧
      (((u.setSalt salt).setVerifier verifier).addFlag UCF_NLSAUTH).username = u.username := by
  obtain ⟨d1, e1⟩ := u.setSalt_eq salt
  obtain ⟨d2, e2⟩ := (u.setSalt salt).setVerifier_eq verifier
  obtain ⟨d3, e3⟩ := ((u.setSalt salt).setVerifier verifier).setFlag_eq
    (((u.setSalt salt).setVerifier verifier).flag ||| UCF_NLSAUTH)
  unfold UserCacheItem.addFlag
  rw [e3, e2, e1]
  exact ⟨rfl, rfl⟩

theorem old_setup_keeps (pwd : Buf 20) (u : UserCacheItem) :
    ((u.setPasswd pwd).addFlag UCF_OLSAUTH).id = u.id ∧
      ((u.setPasswd pwd).addFlag UCF_OLSAUTH).username = u.username := by
  obtain ⟨d1, e1⟩ := u.setPasswd_eq pwd
  obtain ⟨d2, e2⟩ := (u.setPasswd pwd).setFlag_eq ((u.setPasswd pwd).flag ||| UCF_OLSAUTH)
  unfold UserCacheItem.addFlag
  rw [e2, e1]
  exact ⟨rfl, rfl⟩

theorem did_accountCreate (h : accountCreate env sc payload w = some (w', rs)) :
    Did env c ⟨.accountCreate, payload, sc⟩ w w' := by
  unfold accountCreate at h
  obtain ⟨ptr, store, hl, rfl⟩ := withUser_eq_some h
  split_ifs with ht
  · exact .looked (by simp) (by simp) hl (srpTarget_of_op (by simp) (by simp)) (oldTarget_of_op (by simp))
      (changeTarget_of_op (by simp))
  · exact .create (Or.inl rfl) hl ht (setup_keeps _ _)

theorem did_oldAccountCreate2 (h : oldAccountCreate2 env sc payload w = some (w', rs)) :
    Did env c ⟨.oldAccountCreate2, payload, sc⟩ w w' := by
  unfold oldAccountCreate2 at h
  obtain ⟨ptr, store, hl, rfl⟩ := withUser_eq_some h
  split_ifs with ht
  · exact .looked (by simp) (by simp) hl (srpTarget_of_op (by simp) (by simp)) (oldTarget_of_op (by simp))
      (changeTarget_of_op (by simp))
  · exact .create (Or.inr rfl) hl ht (old_setup_keeps _)

theorem did_oldAccountChange (h : oldAccountChange env sc payload w = some (w', rs)) :
    Did env c ⟨.oldAccountChange, payload, sc⟩ w w' := by
  unfold oldAccountChange at h
  obtain ⟨ptr, store, hl, rfl⟩ := withUser_eq_some h
  have hmiss : changeTarget env w ⟨.oldAccountChange, payload, sc⟩ = none →
      Did env c ⟨.oldAccountChange, payload, sc⟩ w (withStore w store) := fun ht =>
    .looked (by simp) (by simp) hl (srpTarget_of_op (by simp) (by simp)) (oldTarget_of_op (by simp)) ht
  rcases ptr with _ | p
  · exact hmiss (by simp only [changeTarget, hl])
  · have ht : changeTarget env w ⟨.oldAccountChange, payload, sc⟩ =
        if ((withStore w store).item p).isExist = true ∧
          oldHash (readOldChange sc payload).token ((withStore w store).item p).passwd =
            (readOldChange sc payload).pwd then
          some (p, (readOldChange sc payload).newpwd) else none := by
      simp only [changeTarget, hl, true_and]
      rfl
    dsimp only
    split_ifs with hp
    · rw [if_pos hp] at ht
      exact .passwd hl ht
    · exact hmiss (by rw [ht, if_neg hp])

theorem did_oldAuthLogon2 (h : oldAuthLogon2 env c sc payload w = some (w', rs)) :
    Did env c ⟨.oldAuthLogon2, payload, sc⟩ w w' := by
  unfold oldAuthLogon2 at h
  obtain ⟨ptr, store, hl, rfl⟩ := withUser_eq_some h
  have hmiss : oldTarget env w ⟨.oldAuthLogon2, payload, sc⟩ = none →
      Did env c ⟨.oldAuthLogon2, payload, sc⟩ w (withStore w store) := fun ht =>
    .looked (by simp) (by simp) hl (srpTarget_of_op (by simp) (by simp)) ht (changeTarget_of_op (by simp))
  rcases ptr with _ | p
  · exact hmiss (by simp only [oldTarget, hl])
  · have ht : oldTarget env w ⟨.oldAuthLogon2, payload, sc⟩ =
        if ((withStore w store).item p).isExist = true ∧
          ((withStore w store).item p).flag &&& UCF_OLSAUTH ≠ 0 ∧
          oldHash (readOldLogon sc payload).token ((withStore w store).item p).passwd =
            (readOldLogon sc payload).pwd then some p else none := by
      simp only [oldTarget, hl, true_and]
      rfl
    dsimp only
    by_cases he : ((withStore w store).item p).isExist = false
    · rw [if_pos he]
      exact hmiss (by rw [ht, he]; simp)
    by_cases hf : ((withStore w store).item p).flag &&& UCF_OLSAUTH = 0
    · rw [if_neg he, if_pos hf]
      exact hmiss (by rw [ht, if_neg fun h => h.2.1 hf])
    by_cases hp : oldHash (readOldLogon sc payload).token ((withStore w store).item p).passwd =
        (readOldLogon sc payload).pwd
    · rw [if_pos ⟨by simpa using he, hf, hp⟩] at ht
      rw [if_neg he, if_neg hf, if_pos hp]
      exact .oldLogin hl ht
    · rw [if_neg he, if_neg hf, if_neg hp]
      exact hmiss (by rw [ht, if_neg fun h => hp h.2.2])

end Ops

/-- **A call does one of the things listed.** -/
theorem handle_did (h : handle env c call w = some (w', rs)) : Did env c call w w' := by
  obtain ⟨op, payload, sc⟩ := call
  cases op with
  | authLogon => exact did_authLogon h
  | authLogonProof =>
    simp only [handle, Option.some.injEq] at h
    rw [show w' = (authLogonProof c sc payload w).1 by rw [h]]
    exact did_authLogonProof
  | accountChange => exact did_accountChange h
  | accountChangeProof =>
    simp only [handle, Option.some.injEq] at h
    rw [show w' = (accountChangeProof c sc payload w).1 by rw [h]]
    exact did_accountChangeProof
  | accountCreate => exact did_accountCreate h
  | oldAccountCreate2 => exact did_oldAccountCreate2 h
  | oldAccountChange => exact did_oldAccountChange h
  | oldAuthLogon2 => exact did_oldAuthLogon2 h

/-- A call for which an exchange is decided begins it. -/
theorem handle_srp {p : Ptr} {a : SrpAnswer} (h : srpTarget env w call = some (p, a)) :
    ∃ store rs, lookup env env.depth w.store (.name call.username) = some (some p, store) ∧
      handle env c call w = some
        (((withStore w store).setUser c (some p)).setProof c a.serverProof a.clientProof, rs) ∧
      (call.op = .authLogon → .authLogon 0 (store.cache.get p).salt a.pubkey ∈ rs) := by
  obtain ⟨op, payload, sc⟩ := call
  rcases hl : lookup env env.depth w.store (.name (readLogon sc payload).username) with
    _ | ⟨_ | q, store⟩
  · simp [srpTarget, hl] at h
  · simp [srpTarget, hl] at h
  · simp only [srpTarget, hl] at h
    split_ifs at h with hc
    simp only [Option.some.injEq, Prod.mk.injEq] at h
    obtain ⟨rfl, ha⟩ := h
    rcases hc with rfl | ⟨rfl, he, hf⟩
    · refine ⟨store, [.accountChange 0 (store.cache.get q).salt a.pubkey], hl, ?_, by simp⟩
      simp only [handle, accountChange, withUser, hl, Option.map_some, beginSrp, ← ha]
      rfl
    · refine ⟨store, [.authLogon 0 (store.cache.get q).salt a.pubkey], hl, ?_, by simp⟩
      rw [← ha]
      simp only [handle, authLogon, withUser, hl, Option.map_some, beginSrp]
      rw [if_neg (by simpa [Server.item] using he), if_neg (by simpa [Server.item] using hf)]
      rfl

/-- An old logon that is decided for logs in. -/
theorem handle_old {p : Ptr} (h : oldTarget env w call = some p) :
    ∃ store rs, lookup env env.depth w.store (.name call.username) = some (some p, store) ∧
      handle env c call w = some
        (((withStore w store).setUser c (some p)).setStage c .bnetLoggedIn, rs) ∧
      .oldAuthLogon2 0 [] ∈ rs := by
  obtain ⟨op, payload, sc⟩ := call
  rcases hl : lookup env env.depth w.store (.name (readOldLogon sc payload).username) with
    _ | ⟨_ | q, store⟩
  · simp [oldTarget, hl] at h
  · simp [oldTarget, hl] at h
  · simp only [oldTarget, hl] at h
    split_ifs at h with hc
    cases h
    obtain ⟨rfl, he, hf, hp⟩ := hc
    refine ⟨store, (if ((withStore w store).item p).mail = [] then [.reqEmail] else []) ++
      [.oldAuthLogon2 0 []], hl, ?_, by simp⟩
    simp only [handle, oldAuthLogon2, withUser, hl, Option.map_some]
    rw [if_neg (by simpa [Server.item] using he), if_neg (by simpa [Server.item] using hf),
      if_pos (by simpa [Server.item] using hp)]
    rfl

/-! ### What the decisions tell -/

/-- An SRP exchange is begun by two packets only. -/
theorem op_of_srpTarget {t : Ptr × SrpAnswer} (h : srpTarget env w call = some t) :
    call.op = .authLogon ∨ call.op = .accountChange := by
  by_contra hne
  rw [not_or] at hne
  rw [srpTarget_of_op hne.1 hne.2] at h
  cases h

theorem op_of_oldTarget {p : Ptr} (h : oldTarget env w call = some p) : call.op = .oldAuthLogon2 := by
  by_contra hne
  rw [oldTarget_of_op hne] at h
  cases h

theorem op_of_changeTarget {t : Ptr × Buf 20} (h : changeTarget env w call = some t) :
    call.op = .oldAccountChange := by
  by_contra hne
  rw [changeTarget_of_op hne] at h
  cases h

theorem username_of_srp (h : call.op = .authLogon ∨ call.op = .accountChange) :
    call.username = (readLogon call.scratch call.payload).username := by
  unfold Call.username
  rcases h with e | e <;> rw [e]

theorem srpTarget_spec {p : Ptr} {a : SrpAnswer} {q : Option Ptr} {store : Store}
    (h : srpTarget env w call = some (p, a))
    (hl : lookup env env.depth w.store (.name call.username) = some (q, store)) :
    q = some p ∧ a = srpAnswer call.scratch call.username (store.cache.get p)
        (readLogon call.scratch call.payload).pubkey ∧
      (call.op = .authLogon → (store.cache.get p).isExist = true ∧
        (store.cache.get p).flag &&& UCF_NLSAUTH ≠ 0) := by
  have hname := username_of_srp (op_of_srpTarget h)
  rw [hname] at hl ⊢
  simp only [srpTarget, hl] at h
  rcases q with _ | q
  · cases h
  · dsimp only at h
    split_ifs at h with hc
    cases h
    refine ⟨rfl, rfl, fun hop => ?_⟩
    rcases hc with hc | hc
    · rw [hop] at hc; cases hc
    · exact hc.2

theorem oldTarget_spec {p : Ptr} {q : Option Ptr} {store : Store}
    (h : oldTarget env w call = some p)
    (hl : lookup env env.depth w.store (.name call.username) = some (q, store)) :
    q = some p ∧ (store.cache.get p).isExist = true ∧ (store.cache.get p).flag &&& UCF_OLSAUTH ≠ 0 ∧
      oldHash (readOldLogon call.scratch call.payload).token (store.cache.get p).passwd =
        (readOldLogon call.scratch call.payload).pwd := by
  have hname : call.username = (readOldLogon call.scratch call.payload).username := by
    unfold Call.username; rw [op_of_oldTarget h]
  rw [hname] at hl
  simp only [oldTarget, hl] at h
  rcases q with _ | q
  · cases h
  · dsimp only at h
    split_ifs at h with hc
    cases h
    exact ⟨rfl, hc.2⟩

theorem changeTarget_spec {p : Ptr} {b : Buf 20} {q : Option Ptr} {store : Store}
    (h : changeTarget env w call = some (p, b))
    (hl : lookup env env.depth w.store (.name call.username) = some (q, store)) :
    q = some p ∧ (store.cache.get p).isExist = true ∧
      oldHash (readOldChange call.scratch call.payload).token (store.cache.get p).passwd =
        (readOldChange call.scratch call.payload).pwd := by
  have hname : call.username = (readOldChange call.scratch call.payload).username := by
    unfold Call.username; rw [op_of_changeTarget h]
  rw [hname] at hl
  simp only [changeTarget, hl] at h
  rcases q with _ | q
  · cases h
  · dsimp only at h
    split_ifs at h with hc
    cases h
    exact ⟨rfl, hc.2⟩

/-! ### Connections -/

theorem Did.client_ne (h : Did env c call w w') {d : ConnId} (hd : d ≠ c) :
    w'.client d = w.client d := by
  have hstage : ∀ v : Server, (v.setStage c .bnetLoggedIn).client d = v.client d := fun v =>
    v.modifyClient_ne _ hd
  have hproof : ∀ (v : Server) s m, (v.setProof c s m).client d = v.client d := fun v s m =>
    v.modifyClient_ne _ hd
  cases h with
  | looked => rfl
  | srp => rw [hproof, Server.setUser_client_ne _ _ hd]; rfl
  | oldLogin => rw [hstage, Server.setUser_client_ne _ _ hd]; rfl
  | passwd => rfl
  | create => rfl
  | login => rw [hstage]
  | refused => rfl
  | change => rw [Server.setUser_client_ne _ _ hd]; rfl
  | unchanged => rw [Server.setUser_client_ne _ _ hd]

section Client

variable {payload : List Byte} {sc : Scratch}

/-- The connection of a call, after it. -/
def clientAfter (env : Env) (c : ConnId) (call : Call) (w : Server) : Client :=
  let cl := w.client c
  match srpTarget env w call, oldTarget env w call with
  | some (p, a), _ =>
    { cl with user := some p, serverProof := a.serverProof, clientProof := a.clientProof }
  | none, some p =>
    { cl with user := some p, stage := .bnetLoggedIn, stats := toLE 4 cl.gameid.toNat }
  | none, none =>
    if call.op = .authLogonProof ∧ proofMatches c call w then
      { cl with stage := .bnetLoggedIn, stats := toLE 4 cl.gameid.toNat }
    else if call.op = .accountChangeProof then { cl with user := none }
    else cl

theorem clientAfter_srp {p : Ptr} {a : SrpAnswer} (h : srpTarget env w call = some (p, a)) :
    clientAfter env c call w = { w.client c with
      user := some p, serverProof := a.serverProof, clientProof := a.clientProof } := by
  simp only [clientAfter, h]

theorem clientAfter_old {p : Ptr} (h : oldTarget env w call = some p) :
    clientAfter env c call w = { w.client c with
      user := some p, stage := .bnetLoggedIn, stats := toLE 4 (w.client c).gameid.toNat } := by
  have hop := op_of_oldTarget h
  have hs : srpTarget env w call = none := srpTarget_of_op (by simp [hop]) (by simp [hop])
  simp only [clientAfter, h, hs]

theorem clientAfter_rest (hs : srpTarget env w call = none) (ho : oldTarget env w call = none) :
    clientAfter env c call w =
      if call.op = .authLogonProof ∧ proofMatches c call w then
        { w.client c with stage := .bnetLoggedIn, stats := toLE 4 (w.client c).gameid.toNat }
      else if call.op = .accountChangeProof then { w.client c with user := none }
      else w.client c := by
  simp only [clientAfter, hs, ho]

/-- A packet that begins no exchange and brings no old password. -/
theorem clientAfter_of_op (h1 : call.op ≠ .authLogon) (h2 : call.op ≠ .accountChange)
    (h3 : call.op ≠ .oldAuthLogon2) : clientAfter env c call w =
      if call.op = .authLogonProof ∧ proofMatches c call w then
        { w.client c with stage := .bnetLoggedIn, stats := toLE 4 (w.client c).gameid.toNat }
      else if call.op = .accountChangeProof then { w.client c with user := none }
      else w.client c := clientAfter_rest (srpTarget_of_op h1 h2) (oldTarget_of_op h3)

/-- **What a call does to its connection.** -/
theorem Did.client (h : Did env c call w w') : w'.client c = clientAfter env c call w := by
  cases h with
  | looked h1 h2 _ hsrp hold =>
    rw [clientAfter_rest hsrp hold, if_neg fun h => h1 h.1, if_neg h2]
    rfl
  | srp _ ht =>
    rw [clientAfter_srp ht, Server.setProof_client_self, Server.setUser_client_self]
    rfl
  | oldLogin _ ht =>
    rw [clientAfter_old ht, Server.setStage_client_self, Server.setUser_client_self]
    rfl
  | passwd _ ht =>
    have hop := op_of_changeTarget ht
    rw [clientAfter_of_op (by simp [hop]) (by simp [hop]) (by simp [hop]), if_neg (by simp [hop]),
      if_neg (by simp [hop])]
    rfl
  | create hop =>
    rcases hop with hop | hop
    all_goals
      rw [clientAfter_of_op (by simp [hop]) (by simp [hop]) (by simp [hop]), if_neg (by simp [hop]),
        if_neg (by simp [hop])]
      rfl
  | login hop hm =>
    rw [clientAfter_of_op (by simp [hop]) (by simp [hop]) (by simp [hop]), if_pos ⟨hop, hm⟩,
      Server.setStage_client_self]
    rfl
  | refused hop hm =>
    rw [clientAfter_of_op (by simp [hop]) (by simp [hop]) (by simp [hop]), if_neg fun h => hm h.2,
      if_neg (by simp [hop])]
  | change hop =>
    rw [clientAfter_of_op (by simp [hop]) (by simp [hop]) (by simp [hop]), if_neg (by simp [hop]),
      if_pos hop, Server.setUser_client_self]
    rfl
  | unchanged hop =>
    rw [clientAfter_of_op (by simp [hop]) (by simp [hop]) (by simp [hop]), if_neg (by simp [hop]),
      if_pos hop, Server.setUser_client_self]

end Client

/-! ### Accounts -/

/-- What no packet changes of an account. -/
def who (u : UserCacheItem) : UInt32 × Text × UInt32 := (u.id, u.username, u.flag)

theorem who_setPasswd (u : UserCacheItem) (q : Buf 20) : who (u.setPasswd q) = who u := by
  obtain ⟨d, e⟩ := u.setPasswd_eq q
  rw [e]
  rfl

theorem who_change (u : UserCacheItem) (s v : Buf 32) : who ((u.setSalt s).setVerifier v) = who u := by
  obtain ⟨d, e⟩ := u.setSalt_eq s
  obtain ⟨d', e'⟩ := (u.setSalt s).setVerifier_eq v
  rw [e', e]
  rfl

theorem who_of_core {u v : UserCacheItem} (h : u.core = v.core) : who u = who v := by
  have h1 : who u = who u.core := rfl
  rw [h1, h]
  rfl

theorem bounded_modify {uc : UserCache} (hb : Bounded uc) (p : Ptr) (f : UserCacheItem → UserCacheItem) :
    Bounded (uc.modify p f) := ⟨fun hn => hb.name hn, fun hi => hb.id hi⟩

/-- The maps stay sound. -/
theorem Did.bounded (h : Did env c call w w') (hb : Bounded w.store.cache) : Bounded w'.store.cache := by
  cases h with
  | looked _ _ hl => exact (lookup_keeps hb hl).1.bounded
  | srp hl =>
    rw [Server.setProof_store, Server.setUser_store]
    exact (lookup_keeps hb hl).1.bounded
  | oldLogin hl =>
    rw [Server.setStage_store, Server.setUser_store]
    exact (lookup_keeps hb hl).1.bounded
  | passwd hl => exact bounded_modify (lookup_keeps hb hl).1.bounded _ _
  | create _ hl => exact bounded_modify (bounded_add env (lookup_keeps hb hl).1.bounded _ _) _ _
  | login => exact hb
  | refused => exact hb
  | change =>
    rw [Server.setUser_store]
    exact bounded_modify hb _ _
  | unchanged => rwa [Server.setUser_store]

/-- The accounts decided for are allocated afterwards. -/
theorem target_lt (h : handle env c call w = some (w', rs)) (hb : Bounded w.store.cache) {p : Ptr}
    (ht : (∃ a, srpTarget env w call = some (p, a)) ∨ oldTarget env w call = some p) :
    p < w'.store.cache.heap.brk := by
  rcases ht with ⟨a, ht⟩ | ht
  · obtain ⟨store, rs', hl, hh, -⟩ := handle_srp (c := c) ht
    rw [hh] at h
    cases h
    rw [Server.setProof_store, Server.setUser_store]
    exact (lookup_keeps hb hl).2 p rfl
  · obtain ⟨store, rs', hl, hh, -⟩ := handle_old (c := c) ht
    rw [hh] at h
    cases h
    rw [Server.setStage_store, Server.setUser_store]
    exact (lookup_keeps hb hl).2 p rfl

/-- What `f` reads of an account stays, if loading and old password changes keep it; unless the call is
an SRP password change of the account. -/
theorem Did.item {β : Type} {f : UserCacheItem → β} (h : Did env c call w w')
    (hb : Bounded w.store.cache) (hcore : ∀ u v : UserCacheItem, u.core = v.core → f u = f v)
    (hpasswd : ∀ u q, f (UserCacheItem.setPasswd u q) = f u) {p : Ptr}
    (hp : p < w.store.cache.heap.brk) : f (w'.item p) = f (w.item p) ∨
      call.op = .accountChangeProof ∧ (w.client c).user = some p ∧ proofMatches c call w ∧
        w'.item p = ((w.item p).setSalt (readChange call.scratch call.payload).s).setVerifier
          (readChange call.scratch call.payload).v := by
  have hlook : ∀ {a : Option Ptr} {store : Store},
      lookup env env.depth w.store (.name call.username) = some (a, store) →
        Heap.Extends f w.store.cache.heap store.cache.heap := fun hl =>
    (lookup_keeps hb hl).1.heap.mono hcore
  cases h with
  | looked _ _ hl => exact .inl ((hlook hl).cell p hp)
  | srp hl =>
    unfold Server.item
    rw [Server.setProof_store, Server.setUser_store]
    exact .inl ((hlook hl).cell p hp)
  | oldLogin hl =>
    unfold Server.item
    rw [Server.setStage_store, Server.setUser_store]
    exact .inl ((hlook hl).cell p hp)
  | passwd hl => exact .inl (((hlook hl).trans (.modify _ _ fun u => hpasswd u _)).cell p hp)
  | create _ hl =>
    exact .inl (((hlook hl).trans ((Heap.Extends.alloc _ _ _).modify_new le_rfl _)).cell p hp)
  | login => exact .inl rfl
  | refused => exact .inl rfl
  | @change q hop hu hm =>
    unfold Server.item
    rw [Server.setUser_store]
    rcases eq_or_ne p q with rfl | hq
    · exact .inr ⟨hop, hu, hm, w.modifyItem_item_self p _⟩
    · exact .inl (congrArg f (w.modifyItem_item_ne _ hq))
  | unchanged =>
    unfold Server.item
    rw [Server.setUser_store]
    exact .inl rfl

theorem Did.brk (h : Did env c call w w') (hb : Bounded w.store.cache) :
    w.store.cache.heap.brk ≤ w'.store.cache.heap.brk := by
  cases h with
  | looked _ _ hl => exact (lookup_keeps hb hl).1.heap.brk
  | srp hl =>
    rw [Server.setProof_store, Server.setUser_store]
    exact (lookup_keeps hb hl).1.heap.brk
  | oldLogin hl =>
    rw [Server.setStage_store, Server.setUser_store]
    exact (lookup_keeps hb hl).1.heap.brk
  | passwd hl => exact (lookup_keeps hb hl).1.heap.brk
  | create _ hl => exact (lookup_keeps hb hl).1.heap.brk.trans (Nat.le_succ _)
  | login => exact le_rfl
  | refused => exact le_rfl
  | change => rw [Server.setUser_store]; exact le_rfl
  | unchanged => rw [Server.setUser_store]

/-- Ids, names and flags stay. -/
theorem Did.who (h : Did env c call w w') (hb : Bounded w.store.cache) {p : Ptr}
    (hp : p < w.store.cache.heap.brk) : who (w'.item p) = who (w.item p) := by
  rcases h.item (f := Logon.who) hb (fun _ _ => who_of_core) who_setPasswd hp with he | ⟨-, -, -, he⟩
  · exact he
  · rw [he, who_change]

/-- Salt and verifier stay, unless the call is an SRP password change of the account. -/
theorem Did.secrets (h : Did env c call w w') (hb : Bounded w.store.cache) {p : Ptr}
    (hp : p < w.store.cache.heap.brk) :
    ((w'.item p).salt = (w.item p).salt ∧ (w'.item p).verifier = (w.item p).verifier) ∨
      call.op = .accountChangeProof ∧ (w.client c).user = some p ∧ proofMatches c call w := by
  have hpasswd : ∀ (u : UserCacheItem) q,
      ((u.setPasswd q).salt, (u.setPasswd q).verifier) = (u.salt, u.verifier) := fun u q => by
    obtain ⟨d, e⟩ := u.setPasswd_eq q
    rw [e]
  have hcore : ∀ u v : UserCacheItem, u.core = v.core →
      (u.salt, u.verifier) = (v.salt, v.verifier) := fun u v huv => by
    have hpair : (u.core.salt, u.core.verifier) = (v.core.salt, v.core.verifier) := by rw [huv]
    exact hpair
  rcases h.item (f := fun u => (u.salt, u.verifier)) hb hcore hpasswd hp with he | ⟨hop, hu, hm, -⟩
  · exact .inl (Prod.mk.inj he)
  · exact .inr ⟨hop, hu, hm⟩

end Blitzd.Plugins.Logon
