import Blitzd.Core.OnRecv
import Blitzd.Plugins.LogonRun

/-! # The plugins as suites

`server env c locals rest` are the suites as connection `c` sees them: the `Init` plugins, `TokenReq` and
the account packets before login are the ones modelled, every other plugin is part of `rest`, which is
known only to leave the stage of the connection alone. `locals` gives what the locals of a handler hold.
An account lookup that does not return ends the process; here it changes nothing.

`onRecv_run`: whatever bytes a connection sends before and after login, the state they lead to is one of
a run of account packets, so that what holds along all runs holds of the bytes. -/

namespace Blitzd.Plugins.Dispatch

open Blitzd.Lib Blitzd.Lib.Bytes Blitzd.Cache Blitzd.Core Blitzd.Plugins.Logon Blitzd.Plugins.LogonRun

/-- The plugins without a model. -/
structure Others (c : ConnId) where
  process : PluginCall → Server → Server
  keeps : ∀ call w, ((process call w).client c).stage = (w.client c).stage

/-- Plugins that do nothing. -/
def Others.idle (c : ConnId) : Others c := ⟨fun _ w => w, fun _ _ => rfl⟩

/-- The opcodes of the account packets. -/
def bnetOps : List (ℕ × Op) :=
  [(0x52FF, .accountCreate), (0x55FF, .accountChange), (0x56FF, .accountChangeProof), (0x53FF, .authLogon),
    (0x54FF, .authLogonProof), (0x31FF, .oldAccountChange), (0x3DFF, .oldAccountCreate2),
    (0x3AFF, .oldAuthLogon2)]

section

variable (env : Env) (c : ConnId) (locals : Server → Scratch) (rest : Others c)

/-- The packet, for one of the account handlers. -/
def bnetCall (call : PluginCall) (w : Server) : Option Call :=
  (bnetOps.lookup call.op).map fun op => ⟨op, call.payload, locals w⟩

def process (call : PluginCall) (w : Server) : Server :=
  match call.suite with
  | .init =>
    if call.op = 0x01 then w.setStage c .bnet else if call.op = 0x02 then w.setStage c .fileTrans
    else if call.op = 0x65 then w.setStage c .baal else w
  | .bnet =>
    match bnetCall locals call w with
    | some k => ((handle env c k w).map Prod.fst).getD w
    | none => rest.process call w
  | .file => if call.op = 0x0200 then w.setStage c .fileRaw else rest.process call w
  | .bnetLoggedIn | .baal => rest.process call w

/-- The packet brings the stored proof, or an old password that is accepted. -/
def LogsIn (k : Call) (w : Server) : Prop :=
  (k.op = .authLogonProof ∧ proofMatches c k w) ∨ (oldTarget env w k).isSome = true

instance (k : Call) (w : Server) : Decidable (LogsIn env c k w) := inferInstanceAs (Decidable (_ ∨ _))

def logsIn (call : PluginCall) (w : Server) : Bool :=
  match bnetCall locals call w with
  | some k => decide (LogsIn env c k w)
  | none => false

end

variable {env : Env} {c : ConnId} {k : Call} {w w' : Server} {rs : List Reply}

/-- **What a packet does to the stage.** -/
theorem handle_stage (h : handle env c k w = some (w', rs)) :
    (w'.client c).stage = if LogsIn env c k w then .bnetLoggedIn else (w.client c).stage := by
  rw [(handle_did h).client]
  rcases ho : oldTarget env w k with _ | p
  · have hold : (oldTarget env w k).isSome = false := by rw [ho]; rfl
    rcases hs : srpTarget env w k with _ | ⟨p, a⟩
    · rw [clientAfter_rest hs ho]
      by_cases hp : k.op = .authLogonProof ∧ proofMatches c k w
      · rw [if_pos hp, if_pos (.inl hp)]
      · have hl : ¬ LogsIn env c k w := by simp [LogsIn, hp, hold]
        rw [if_neg hp, if_neg hl]
        split_ifs <;> rfl
    · have hl : ¬ LogsIn env c k w := by
        rintro (⟨hop, -⟩ | hx)
        · rcases op_of_srpTarget hs with hop' | hop' <;> rw [hop] at hop' <;> cases hop'
        · rw [hold] at hx
          cases hx
      rw [clientAfter_srp hs, if_neg hl]
  · have hl : LogsIn env c k w := .inr (by rw [ho]; rfl)
    rw [clientAfter_old ho, if_pos hl]

/-- A handler that does not return has not logged in. -/
theorem not_logsIn_of_none (h : handle env c k w = none) : ¬ LogsIn env c k w := by
  rintro (⟨hop, -⟩ | ho)
  · unfold handle at h
    rw [hop] at h
    cases h
  · obtain ⟨p, hp⟩ := Option.isSome_iff_exists.mp ho
    obtain ⟨_, _, -, hr, -⟩ := handle_old (c := c) hp
    rw [h] at hr
    cases hr

theorem stage_bnet (locals : Server → Scratch) (rest : Others c) {call : PluginCall}
    (hc : call.suite = .bnet) : ((process env c locals rest call w).client c).stage =
      if logsIn env c locals call w then .bnetLoggedIn else (w.client c).stage := by
  unfold process logsIn
  rw [hc]
  rcases hk : bnetCall locals call w with _ | k
  · exact rest.keeps call w
  · rcases hh : handle env c k w with _ | ⟨w', rs⟩
    · simp [hh, not_logsIn_of_none hh]
    · simp [hh, handle_stage hh]

/-- The suites, as the connection sees them. -/
def server (env : Env) (c : ConnId) (locals : Server → Scratch) (rest : Others c) : Suites Server where
  stage w := (w.client c).stage
  process := process env c locals rest
  logsIn := logsIn env c locals
  stage_process call w := by
    rcases hc : call.suite
    · simp only [process, stageAfter, hc]
      split_ifs <;> simp
    · simp only [stageAfter, hc]
      exact stage_bnet locals rest hc
    · simp only [process, stageAfter, hc]
      exact rest.keeps call w
    · simp only [process, stageAfter, hc]
      split_ifs
      · simp
      · exact rest.keeps call w
    · simp only [process, stageAfter, hc]
      exact rest.keeps call w

/-! ### Bytes and runs -/

section Runs

variable {w₀ : Server} {h : History} {locals : Server → Scratch} {mem : Memory Server} {suite : Suite}

/-- A call is a step of the run, or changes nothing. -/
theorem process_run (hr : Run (Step env) w₀ h w) (call : PluginCall)
    (hc : call.suite = .bnet ∨ call.suite = .bnetLoggedIn) :
    ∃ h', Run (Step env) w₀ h' ((server env c locals (.idle c)).process call w) := by
  have hstay : ∃ h', Run (Step env) w₀ h' w := ⟨h, hr⟩
  show ∃ h', Run (Step env) w₀ h' (process env c locals (.idle c) call w)
  unfold process
  rcases hc with hc | hc
  · rw [hc]
    rcases bnetCall locals call w with _ | k
    · exact hstay
    · rcases hh : handle env c k w with _ | ⟨w', rs⟩
      · simpa [hh] using hstay
      · refine ⟨⟨w, ⟨c, k⟩, w'⟩ :: h, ?_⟩
        simpa [hh] using Run.snoc hr ⟨rs, hh⟩
  · rw [hc]
    exact hstay

theorem packets_run (hs : suite = .bnet ∨ suite = .bnetLoggedIn) :
    ∀ (fuel : ℕ) {w : Server} {b : List Byte} {h : History}, Run (Step env) w₀ h w →
      ∃ h', Run (Step env) w₀ h' (packets (server env c locals (.idle c)) mem suite fuel w b).state := by
  intro fuel
  induction fuel with
  | zero =>
    intro w b h hr
    exact ⟨h, hr⟩
  | succ fuel ih =>
    intro w b h hr
    unfold packets
    by_cases hc : Complete suite b
    · rw [if_pos hc]
      obtain ⟨h1, hr1⟩ := process_run hr (packetCall (mem w) suite b) hs
      exact ih hr1
    · rw [if_neg hc]
      exact ⟨h, hr⟩

/-- **Bytes make runs.** -/
theorem onRecv_run (hr : Run (Step env) w₀ h w)
    (hst : (w.client c).stage = .bnet ∨ (w.client c).stage = .bnetLoggedIn) (b : List Byte) :
    ∃ h', Run (Step env) w₀ h' (onRecv (server env c locals (.idle c)) mem w b).state := by
  have hstage : (server env c locals (.idle c)).stage w = (w.client c).stage := rfl
  rcases b with _ | ⟨op, b⟩
  · exact ⟨h, hr⟩
  rcases hst with hst | hst
  · rw [onRecv, if_neg (by rw [hstage, hst]; simp), dispatch, hstage, hst]
    exact packets_run (.inl rfl) _ hr
  · rw [onRecv, if_neg (by rw [hstage, hst]; simp), dispatch, hstage, hst]
    exact packets_run (.inr rfl) _ hr

end Runs

end Blitzd.Plugins.Dispatch
