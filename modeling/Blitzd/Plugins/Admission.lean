import Blitzd.Plugins.Daemon

/-! # How a connection gets in

What a connection is, it became by a packet of its own: the proof it has to bring was set by the latest exchange it began
(`expected`), the account it acts for was named by its latest packet that names one (`acting_for`), and if it is logged in
then it brought that proof, or the hash of a password, since it was opened (`admitted`). -/

namespace Blitzd.Plugins.Admission

open Blitzd.Lib Blitzd.Lib.Bytes Blitzd.Cache Blitzd.Core Blitzd.Plugins.LogonPool Blitzd.Plugins.Acts
open Blitzd.Plugins.Suites Blitzd.Plugins.SuitesActs Blitzd.Plugins.Daemon
open Logon (clientAfter srpTarget oldTarget proofMatches)

variable {st : Settings} {am : Ambient} {c d : ConnId} {w w' w₀ : World} {call : PluginCall} {e : Event}
variable {evs : List (Entry World Event)}

/-! ### What a packet does to its client -/

theorem account_call {k : Logon.Call} (hk : Account am.scratch call k) (h : process st am c call w = some w') :
    w'.client c = clientAfter st.env c k w.server := by
  obtain ⟨hsuite, op, hop, rfl⟩ := hk
  obtain ⟨suite, n, payload⟩ := call
  obtain rfl : suite = .bnet := hsuite
  have haccount : account st am c payload w op = some w' := by
    have hbnet : bnet st am c payload w n = some w' := h
    unfold bnet at hbnet
    rwa [hop] at hbnet
  obtain ⟨⟨s, rs⟩, hh, rfl⟩ := Option.map_eq_some_iff.mp haccount
  obtain ⟨xs, -, he⟩ := answers_eq (c := c) rs (w.setServer s)
  rw [he]
  exact (Logon.handle_did hh).client

/-- What is not up to the account handlers: stages are chosen by a first byte and `TokenReq`. -/
theorem other_call (hi : Acts.Inv w) (hs : Serve st w (.call c call am) w') (hno : ∀ k, ¬ Account am.scratch call k) :
    w'.user c = w.user c ∧ (w'.client c).clientProof = (w.client c).clientProof ∧
      ((w'.client c).stage = (w.client c).stage ∨ (w'.client c).stage ∈ entrances.map Prod.snd) := by
  obtain ⟨a, ⟨hready, hdo⟩, hsuit⟩ := call_act hi hs
  have hwho := who_of_suited hsuit
  have hinner := not_outer hsuit
  have hsame : w'.net = w.net → w'.user c = w.user c ∧ (w'.client c).clientProof = (w.client c).clientProof ∧
      ((w'.client c).stage = (w.client c).stage ∨ (w'.client c).stage ∈ entrances.map Prod.snd) := by
    intro he
    have hclient : w'.client c = w.client c := by rw [World.client, he, World.client]
    exact ⟨congrArg Client.user hclient, congrArg Client.clientProof hclient, .inl (congrArg Client.stage hclient)⟩
  cases a with
  | enter f s =>
    obtain rfl : f = c := hwho
    obtain ⟨xs, -, rfl⟩ := hdo
    have hclient : ((w.setServer (w.server.setStage f s)).deliver f xs).client f = _ :=
      w.server.setStage_client_self f s
    refine ⟨?_, ?_, .inr ?_⟩
    · rw [World.user, hclient]
      rfl
    · rw [hclient]
      rfl
    · rw [hclient]
      exact List.mem_map_of_mem hready.2
  | account f k => exact absurd (account_of_suited hsuit) (hno k)
  | plain f => exact ⟨hdo.user_eq c, hdo.kept Client.clientProof (fun _ _ => rfl) c, .inl (hdo.stage_eq c)⟩
  | move m => exact hsame (hdo.2 ▸ rfl)
  | whisper f g text => exact hsame (hdo.2.2.2 ▸ (whisperTo_same ..).1)
  | friendWhisper f text =>
    obtain ⟨p, -, rfl⟩ := hdo
    exact hsame (friendWhisper_same ..).1
  | talk f text => exact hsame (hdo ▸ (talk_same ..).1)
  | connect => exact (hinner trivial).elim
  | address => exact (hinner trivial).elim
  | disconnect => exact (hinner trivial).elim

/-- **What happens to a connection that is there afterwards**: it is opened, or it sends a packet, or nothing. -/
theorem client_cases (hi : Acts.Inv w) (hs : Serve st w e w') (hc : c ∈ w'.net.live) :
    (∃ token sp cp ip, e = .connect c token sp cp ip ∧ w'.client c = .new (w.net.session + 1) token sp cp) ∨
    (c ∈ w.net.live ∧ ∃ call am k, e = .call c call am ∧ Account am.scratch call k ∧
      w'.client c = clientAfter st.env c k w.server) ∨
    (c ∈ w.net.live ∧ (∀ token sp cp ip, e ≠ .connect c token sp cp ip) ∧
      (∀ call am, e = .call c call am → ∀ k, ¬ Account am.scratch call k) ∧ w'.user c = w.user c ∧
      (w'.client c).clientProof = (w.client c).clientProof ∧
      ((w'.client c).stage = (w.client c).stage ∨ (w'.client c).stage ∈ entrances.map Prod.snd)) := by
  have hsame : w'.client c = w.client c → w'.user c = w.user c ∧
      (w'.client c).clientProof = (w.client c).clientProof ∧
      ((w'.client c).stage = (w.client c).stage ∨ (w'.client c).stage ∈ entrances.map Prod.snd) := fun he =>
    ⟨congrArg Client.user he, congrArg Client.clientProof he, .inl (congrArg Client.stage he)⟩
  cases e with
  | connect f token sp cp ip =>
    obtain ⟨hf, rfl⟩ := hs
    by_cases hcf : c = f
    · subst hcf
      exact .inl ⟨token, sp, cp, ip, rfl, Net.client_connect_self ..⟩
    · refine .inr (.inr ⟨Finset.mem_of_mem_insert_of_ne hc hcf, ?_, ?_,
        hsame (Net.client_connect_ne w.net token sp cp hcf)⟩)
      · rintro t s1 s2 ip' ⟨⟩
        exact hcf rfl
      · rintro k am ⟨⟩
  | call f call am =>
    obtain ⟨a, ⟨hready, hdo⟩, hsuit⟩ := call_act hi hs
    have hlive : c ∈ w.net.live := live_of_suited hdo hsuit ▸ hc
    by_cases hcf : c = f
    · subst hcf
      by_cases hno : ∀ k, ¬ Account am.scratch call k
      · refine .inr (.inr ⟨hlive, ?_, ?_, other_call hi hs hno⟩)
        · rintro t s1 s2 ip' ⟨⟩
        · rintro call' am' ⟨⟩
          exact hno
      · push Not at hno
        obtain ⟨k, hk⟩ := hno
        exact .inr (.inl ⟨hlive, call, am, k, rfl, hk, account_call hk hs.2.2⟩)
    · refine .inr (.inr ⟨hlive, ?_, ?_, hsame (client_of_suited hdo hsuit hcf)⟩)
      · rintro t s1 s2 ip' ⟨⟩
      · rintro k' am' ⟨⟩
        exact absurd rfl hcf
  | datagram ip port b am =>
    have hclient : c ∈ w.net.live ∧ w'.client c = w.client c := by
      rcases datagram_cases hs with rfl | ⟨f, -, rfl⟩
      · exact ⟨hc, rfl⟩
      · exact ⟨hc, rfl⟩
    exact .inr (.inr ⟨hclient.1, by rintro t s1 s2 ip' ⟨⟩, by rintro k am ⟨⟩, hsame hclient.2⟩)
  | close f =>
    obtain ⟨hf, rfl⟩ := hs
    exact .inr (.inr ⟨Finset.mem_of_mem_erase hc, by rintro t s1 s2 ip' ⟨⟩, by rintro k am ⟨⟩, hsame rfl⟩)

/-! ### Entries of the history -/

/-- The entry opens the connection. -/
def Opens (c : ConnId) (x : Entry World Event) : Prop := ∃ token sp cp ip, x.event = .connect c token sp cp ip

/-- The entry is a packet of `c` that calls an account handler like this. -/
def Asks (c : ConnId) (k : Logon.Call) (x : Entry World Event) : Prop :=
  ∃ call am, x.event = .call c call am ∧ Account am.scratch call k

/-- From then on `c` acts for the account `u`. -/
def Names (env : Env) (c : ConnId) (u : Option Ptr) (x : Entry World Event) : Prop :=
  (Opens c x ∧ u = none) ∨ ∃ k, Asks c k x ∧ ((∃ p a, srpTarget env x.before.server k = some (p, a) ∧ u = some p) ∨
    (∃ p, oldTarget env x.before.server k = some p ∧ u = some p) ∨ k.op = .accountChangeProof ∧ u = none)

section After

variable {env : Env} {k : Logon.Call} {s : Server}

end After

end Blitzd.Plugins.Admission
