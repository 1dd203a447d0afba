import Blitzd.Plugins.LogonRun

/-! # Replaying an old logon

The hash of an old logon covers the token the packet itself brings, never the token the server gave
the connection. So acceptance does not depend on the connection at all (`accepts_iff`), and a packet
is refused on one of two connections exactly when no connection accepts it (`bound_iff`). -/

namespace Blitzd.Plugins.OldReplay

open Blitzd.Lib Blitzd.Lib.Bytes Blitzd.Utils Blitzd.Utils.CString Blitzd.Cache Blitzd.Core
open Blitzd.Plugins.Logon

variable {env : Env} {w : Server} {c : ConnId} {payload : List Byte} {sc : Scratch}

/-- An `OldAuthLogon2` packet. -/
def oldLogon (payload : List Byte) (sc : Scratch) : Call := ⟨.oldAuthLogon2, payload, sc⟩

/-- The packet is answered with result 0 and the connection logged in. -/
def Accepts (env : Env) (w : Server) (c : ConnId) (call : Call) : Prop :=
  ∃ w' rs, handle env c call w = some (w', rs) ∧ .oldAuthLogon2 0 [] ∈ rs ∧
    (w'.client c).stage = .bnetLoggedIn

/-- The packet is not accepted on both connections, whatever the locals of the two calls hold. -/
def Bound (env : Env) (w : Server) (c₁ c₂ : ConnId) (payload : List Byte) : Prop :=
  ∀ sc₁ sc₂, ¬ (Accepts env w c₁ (oldLogon payload sc₁) ∧ Accepts env w c₂ (oldLogon payload sc₂))

/-- The packet names an account for old logons and brings the hash of its own token and the account's
password. -/
def Fits (env : Env) (w : Server) (payload : List Byte) (sc : Scratch) : Prop :=
  let i := readOldLogon sc payload
  ∃ p store, lookup env env.depth w.store (.name i.username) = some (some p, store) ∧
    (store.cache.get p).isExist = true ∧ (store.cache.get p).flag &&& UCF_OLSAUTH ≠ 0 ∧
    oldHash i.token (store.cache.get p).passwd = i.pwd

theorem fits_iff_oldTarget : Fits env w payload sc ↔ ∃ p, oldTarget env w (oldLogon payload sc) = some p := by
  constructor
  · rintro ⟨p, store, hl, he, hf, hh⟩
    refine ⟨p, ?_⟩
    simp only [oldTarget, oldLogon, hl]
    exact if_pos ⟨trivial, he, hf, hh⟩
  · rintro ⟨p, ht⟩
    obtain ⟨store, -, hl, -⟩ := handle_old (c := 0) ht
    exact ⟨p, store, hl, (oldTarget_spec ht hl).2⟩

/-- A logon that is not decided for is not answered with 0. -/
theorem refused_of_oldTarget (ht : oldTarget env w (oldLogon payload sc) = none) {w' : Server}
    {rs : List Reply} (hh : handle env c (oldLogon payload sc) w = some (w', rs)) :
    .oldAuthLogon2 0 [] ∉ rs := by
  have h : oldAuthLogon2 env c sc payload w = some (w', rs) := hh
  unfold oldAuthLogon2 at h
  obtain ⟨ptr, store, hl, h⟩ := withUser_eq_pair h
  rcases ptr with _ | p
  · cases h
    simp
  · simp only [oldTarget, oldLogon, hl, true_and] at ht
    have hcond : ¬ (((withStore w store).item p).isExist = true ∧
        ((withStore w store).item p).flag &&& UCF_OLSAUTH ≠ 0 ∧
        oldHash (readOldLogon sc payload).token ((withStore w store).item p).passwd =
          (readOldLogon sc payload).pwd) := fun hc => absurd ((if_pos hc).symm.trans ht) (by simp)
    dsimp only at h
    by_cases he : ((withStore w store).item p).isExist = false
    · rw [if_pos he] at h
      cases h
      simp
    by_cases hf : ((withStore w store).item p).flag &&& UCF_OLSAUTH = 0
    · rw [if_neg he, if_pos hf] at h
      cases h
      simp
    · rw [if_neg he, if_neg hf, if_neg fun hp => hcond ⟨by simpa using he, hf, hp⟩] at h
      cases h
      simp

/-- **Acceptance has nothing to do with the connection.** -/
theorem accepts_iff : Accepts env w c (oldLogon payload sc) ↔ Fits env w payload sc := by
  rw [fits_iff_oldTarget]
  constructor
  · rintro ⟨w', rs, hh, hr, -⟩
    rcases ht : oldTarget env w (oldLogon payload sc) with _ | p
    · exact absurd hr (refused_of_oldTarget ht hh)
    · exact ⟨p, rfl⟩
  · rintro ⟨p, ht⟩
    obtain ⟨store, rs, -, hh, hr⟩ := handle_old (c := c) ht
    exact ⟨_, rs, hh, hr, by rw [Server.setStage_client_self]⟩

/-- **A packet is bound to a connection exactly when no connection accepts it**: only a packet that
names no account for old logons, or brings a wrong hash. -/
theorem bound_iff (env : Env) (w : Server) (c₁ c₂ : ConnId) (payload : List Byte) :
    Bound env w c₁ c₂ payload ↔ ∀ sc, ¬ Fits env w payload sc := by
  constructor
  · intro hb sc hf
    exact hb sc sc ⟨accepts_iff.mpr hf, accepts_iff.mpr hf⟩
  · rintro hn sc₁ sc₂ ⟨h₁, -⟩
    exact hn sc₁ (accepts_iff.mp h₁)

/-! ### A recorded packet -/

/-- The server of `duo`, each connection with its own token. -/
def tokens : Server :=
  { LogonRun.duo with
    clients := ⟨fun c => { Client.new 0 (UInt32.ofNat c) (Buf.zero 20) (Buf.zero 20) with stage := .bnet }, 2⟩ }

/-- `bob`'s logon, for the token zero. -/
def recorded : List Byte :=
  (Buf.zero 8).bytes ++ (oldHash (Buf.zero 8) (LogonRun.duoItem 1).passwd).bytes ++ str "bob"

/-- It fits wherever these accounts are. -/
theorem fits_recorded (hw : w.store = LogonRun.duo.store) : Fits UserLookup.idleEnv w recorded Scratch.zero := by
  have hkey : LogonRun.duo.store.cache.findKey (.name ((str "bob").take 15)) = some 1 := by decide
  have hl := lookup_cached UserLookup.idleEnv UserLookup.idleEnv.depth _ hkey
  unfold Fits recorded
  rw [readOldLogon_pack _ _ _ (by decide), hw]
  exact ⟨1, _, hl, rfl, by decide, rfl⟩

theorem recorded_replayed : (∀ c, (tokens.client c).stage = .bnet ∧ (tokens.client c).user = none) ∧
    (tokens.client 0).token ≠ (tokens.client 1).token ∧
    ¬ Bound UserLookup.idleEnv tokens 0 1 recorded := by
  refine ⟨fun _ => ⟨rfl, rfl⟩, by decide, fun hb => ?_⟩
  have hf : Fits UserLookup.idleEnv tokens recorded Scratch.zero := fits_recorded rfl
  exact hb Scratch.zero Scratch.zero ⟨accepts_iff.mpr hf, accepts_iff.mpr hf⟩

end Blitzd.Plugins.OldReplay
