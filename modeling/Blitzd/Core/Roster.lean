import Blitzd.Core.Membership

/-! # What clients see of their channel

A client that keeps a set of clients, empties it when it enters a channel, and adds and removes clients as the
chat events tell it (`view`), has the set of its channel: in every reachable state the view of every client in
a channel is the channel's set (`views_agree`). The stale pointers do no harm: a client that leaves a channel
it has left already is taken out of the views once more. -/

namespace Blitzd.Core.Lobby

open Blitzd.Lib Blitzd.Lib.Bytes Blitzd.Utils.CString Blitzd.Cache

variable {l l' l₀ : Lobby} {c d : ConnId} {g : GameId} {ch : ChanId} {hist : List (Entry Lobby Move)}

/-! ### The view of a client -/

/-- What an event does to the view. -/
def see (v : Finset ConnId) : Notice → Finset ConnId
  | .channel _ => ∅
  | .join c => insert c v
  | .leave c => v.erase c
  | .info _ | .startAdvEx3 _ => v

/-- The view after the events. -/
def view (es : List Notice) : Finset ConnId := es.foldl see ∅

theorem view_append (es es' : List Notice) : view (es ++ es') = es'.foldl see (view es) := List.foldl_append

theorem foldl_join (cs : List ConnId) (v : Finset ConnId) :
    (cs.map Notice.join).foldl see v = cs.toFinset ∪ v := by
  induction cs generalizing v with
  | nil => exact (Finset.empty_union v).symm
  | cons c cs ih =>
    rw [List.map_cons, List.foldl_cons, ih, List.toFinset_cons, see, Finset.union_insert, Finset.insert_union]

/-- The list of a channel, sent to a client that enters it. -/
theorem view_enter (es : List Notice) (name : Name) (s : Finset ConnId) :
    view (es ++ .channel name :: (s.sort (· ≤ ·)).map .join) = s := by
  rw [view_append, List.foldl_cons, see, foldl_join, Finset.sort_toFinset, Finset.union_empty]

/-! ### What is sent -/

theorem connset_send (l : Lobby) (c : ConnId) (es : List Notice) (ch : ChanId) :
    (l.send c es).connset ch = l.connset ch := rfl

theorem connset_sendSet (l : Lobby) (s : Finset ConnId) (c : ConnId) (e : Notice) (ch : ChanId) :
    (l.sendSet s c e).connset ch = l.connset ch := rfl

theorem inbox_sendSet (l : Lobby) (s : Finset ConnId) (c d : ConnId) (e : Notice) :
    ((l.sendSet s c e).member d).inbox =
      if d ∈ s ∧ d ≠ c then (l.member d).inbox ++ [e] else (l.member d).inbox := by
  unfold sendSet
  dsimp only
  split_ifs <;> rfl

theorem inbox_send (l : Lobby) (c d : ConnId) (es : List Notice) :
    ((l.send c es).member d).inbox = if d = c then (l.member d).inbox ++ es else (l.member d).inbox := by
  unfold send
  split_ifs with h
  · rw [h, modifyMember_self]
  · rw [modifyMember_ne l _ h]

theorem inbox_channelLeave (l : Lobby) (ch : ChanId) (c d : ConnId) :
    ((l.channelLeave ch c).member d).inbox =
      if d ∈ l.connset ch ∧ d ≠ c then (l.member d).inbox ++ [.leave c] else (l.member d).inbox := by
  have hmem : ∀ d, (d ∈ (l.modifyConnset ch fun s => s.erase c).connset ch ∧ d ≠ c) ↔
      (d ∈ l.connset ch ∧ d ≠ c) := by
    intro d
    rw [connset_modifyConnset, if_pos rfl, Finset.mem_erase]
    tauto
  unfold channelLeave
  dsimp only
  rw [inbox_sendSet]
  simp only [hmem]
  rfl

theorem inbox_setChannel (l : Lobby) (c d : ConnId) (x : Option ChanId) :
    ((l.setChannel c x).member d).inbox = (l.member d).inbox :=
  modifyMember_congr c d l (r := Member.inbox) fun _ => rfl

theorem inbox_enter (l : Lobby) (ch : ChanId) (c d : ConnId) :
    ((l.enter ch c).member d).inbox =
      if d = c then (l.member d).inbox ++ .channel (l.channels.get ch).name ::
        ((insert c (l.connset ch)).sort (· ≤ ·)).map .join
      else if d ∈ l.connset ch then (l.member d).inbox ++ [.join c] else (l.member d).inbox := by
  have hset : ((l.setChannel c (some ch)).modifyConnset ch fun s => insert c s).connset ch =
      insert c (l.connset ch) := by
    rw [connset_modifyConnset, if_pos rfl]
    rfl
  have hname : (((l.setChannel c (some ch)).modifyConnset ch fun s => insert c s).channels.get ch).name =
      (l.channels.get ch).name := by
    unfold modifyConnset ChannelCache.get
    dsimp only
    rw [Heap.modify_self]
    rfl
  have hinbox : (((l.setChannel c (some ch)).modifyConnset ch fun s => insert c s).member d).inbox =
      (l.member d).inbox := inbox_setChannel l c d (some ch)
  unfold enter
  dsimp only
  rw [inbox_send, inbox_sendSet, inbox_send, connset_sendSet, connset_send, hset, hname, hinbox]
  by_cases hd : d = c
  · rw [if_pos hd, if_neg fun hx => hx.2 hd, if_pos hd, if_pos hd, List.append_assoc]
    rfl
  · rw [if_neg hd, if_neg hd, if_neg hd]
    simp only [Finset.mem_insert, hd, false_or, ne_eq, not_false_eq_true, and_true]

/-! ### Steps -/

/-- The view of whoever is in a channel is the channel's set. -/
def Seen (l : Lobby) : Prop := ∀ ch c, c ∈ l.connset ch → view (l.member c).inbox = l.connset ch

theorem Seen.of_same (h : Seen l) (hs : SameChannels l l') : Seen l' := by
  intro ch c hc
  rw [hs.connset] at hc ⊢
  rw [hs.inbox]
  exact h ch c hc

/-- A packet that is no chat event about a client. -/
theorem Seen.send (h : Seen l) (c : ConnId) {e : Notice} (he : ∀ v, see v e = v) : Seen (l.send c [e]) := by
  intro ch d hd
  rw [inbox_send]
  split_ifs
  · rw [view_append]
    exact (he _).trans (h ch d hd)
  · exact h ch d hd

theorem Seen.channelLeave (h : Seen l) (hok : ChannelsOk l) (ch : ChanId) (c : ConnId) :
    Seen (l.channelLeave ch c) := by
  intro ch' d hd
  rw [inbox_channelLeave]
  rw [connset_channelLeave] at hd ⊢
  by_cases heq : ch' = ch
  · subst heq
    rw [if_pos rfl] at hd ⊢
    obtain ⟨hdc, hd⟩ := Finset.mem_erase.mp hd
    rw [if_pos ⟨hd, hdc⟩, view_append, h ch' d hd]
    rfl
  · -- nobody is in two channels
    rw [if_neg heq] at hd ⊢
    have hout : d ∉ l.connset ch := fun hd' =>
      heq (Option.some.inj ((hok.inSet hd).2.symm.trans (hok.inSet hd').2))
    rw [if_neg fun hx => hout hx.1]
    exact h ch' d hd

theorem Seen.leaveOwnChannel (h : Seen l) (hok : ChannelsOk l) (c : ConnId) : Seen (l.leaveOwnChannel c) := by
  unfold Lobby.leaveOwnChannel
  rcases (l.member c).channel with _ | ch
  · exact h
  · exact h.channelLeave hok ch c

theorem Seen.enter (h : Seen l) (hok : ChannelsOk l) (hout : ∀ ch, c ∉ l.connset ch) (ch : ChanId) :
    Seen (l.enter ch c) := by
  intro ch' d hd
  rw [inbox_enter]
  rw [connset_enter] at hd ⊢
  by_cases heq : ch' = ch
  · subst heq
    rw [if_pos rfl] at hd ⊢
    by_cases hdc : d = c
    · rw [if_pos hdc, view_enter]
    · have hd' := Finset.mem_of_mem_insert_of_ne hd hdc
      rw [if_neg hdc, if_pos hd', view_append, h ch' d hd']
      rfl
  · rw [if_neg heq] at hd ⊢
    have hdc : d ≠ c := fun he => hout ch' (he ▸ hd)
    have hd' : d ∉ l.connset ch := fun hd' =>
      heq (Option.some.inj ((hok.inSet hd).2.symm.trans (hok.inSet hd').2))
    rw [if_neg hdc, if_neg hd']
    exact h ch' d hd

theorem Seen.channelJoin (h : Seen l) (hok : ChannelsOk l) (ch : ChanId) (c : ConnId) :
    Seen (l.channelJoin ch c) := by
  have hs := sameChannels_leaveOwnGame c l
  have hok1 := hok.of_same hs
  refine ((h.of_same hs).leaveOwnChannel hok1 c).enter (hok1.leaveOwnChannel c) ?_ ch
  intro ch' hc
  rw [connset_leaveOwnChannel hok1] at hc
  exact Finset.notMem_erase c _ hc

theorem Seen.gameJoin (h : Seen l) (hok : ChannelsOk l) (g : GameId) (c : ConnId) : Seen (l.gameJoin g c) := by
  have hpush := sameChannels_modifyGame g l fun x =>
    { x with host := if x.connlist = [] then some c else x.host, connlist := x.connlist ++ [c] }
  have hleave := hpush.trans (sameChannels_leaveOwnGame c (l.pushBack g c))
  exact ((h.of_same hleave).leaveOwnChannel (hok.of_same hleave) c).of_same (sameChannels_setGame c _ _)

theorem Seen.joinChannel (h : Seen l) (hok : ChannelsOk l) (c : ConnId) (name : Name) (tag : UInt32)
    (country : Name) : Seen (l.joinChannel c name tag country) := by
  obtain ⟨hg, -⟩ := ChannelCache.ensure_grows hok.sound name tag country
  have h1 : Seen { l with channels := (l.channels.ensure name tag country).2 } := by
    intro ch d hd
    rw [connset_withChannels hg] at hd ⊢
    exact h ch d hd
  unfold Lobby.joinChannel
  dsimp only
  rcases (l.channels.ensure name tag country).1 with _ | ch
  · exact h1.send c fun _ => rfl
  · exact h1.channelJoin (hok.withChannels hg) ch c

theorem Seen.step {m : Move} (h : Seen l) (hok : ChannelsOk l) (hs : Step l m l') : Seen l' := by
  obtain ⟨hen, rfl⟩ := hs
  cases m with
  | connect c =>
    intro ch d hd
    have hdc : d ≠ c := fun he => hen (he ▸ (hok.inSet hd).1)
    have hmember : (l.connect c).member d = l.member d := Function.update_of_ne hdc _ _
    rw [Move.apply, hmember]
    exact h ch d hd
  | joinChannel c name tag country => exact h.joinChannel hok c name tag country
  | leaveChat c => exact h.leaveOwnChannel hok c
  | notifyJoin c name =>
    rw [Move.apply, notifyJoin]
    rcases l.findGame name with _ | g
    · exact h
    · exact h.gameJoin hok g c
  | startAdvEx3 c name status =>
    rw [Move.apply, startAdvEx3]
    rcases l.findGame name with _ | g
    · have hs := sameChannels_addGame l name status
      exact ((h.of_same hs).gameJoin (hok.of_same hs) _ c).send c fun _ => rfl
    · dsimp only
      split_ifs
      · exact h.send c fun _ => rfl
      · exact (h.of_same (sameChannels_modifyGame g l _)).send c fun _ => rfl
  | leaveGame c => exact h.of_same (sameChannels_leaveOwnGame c l)
  | disconnect c =>
    have hs := sameChannels_leaveOwnGame c l
    exact (h.of_same hs).leaveOwnChannel (hok.of_same hs) c

/-- **Views agree with the channels** in every reachable state. -/
theorem views_agree (hs : Start l₀) (hr : Run Step l₀ hist l) :
    ∀ ch c, c ∈ l.connset ch → view (l.member c).inbox = l.connset ch := by
  have hseen : Inv l ∧ Seen l := by
    refine Run.always (I := fun l => Inv l ∧ Seen l) ⟨inv_start hs, ?_⟩ ?_ hr
    · intro ch c hc
      rw [hs.connset] at hc
      exact absurd hc (Finset.notMem_empty c)
    · rintro l m l' ⟨hi, hv⟩ hstep
      exact ⟨hi.step hstep, hv.step hi.channels hstep⟩
  exact hseen.2

/-! ### Two in a tavern, one of them for a second time -/

def reunion : Lobby :=
  ((((quiet.connect 1).connect 2).joinChannel 1 tavern 0 default).joinChannel 2 tavern 0 default).joinChannel 1
    tavern 0 default

theorem reunion_views : Start quiet ∧ (∃ hist, Run Step quiet hist reunion) ∧ reunion.connset 0 = {1, 2} ∧
    view (reunion.member 2).inbox = reunion.connset 0 := by
  have h1 := Run.move (.nil : Run Step quiet [] quiet) (.connect 1) (by decide)
  have h2 := Run.move h1 (.connect 2) (by decide)
  have h3 := Run.move h2 (.joinChannel 1 tavern 0 default) (by decide)
  have h4 := Run.move h3 (.joinChannel 2 tavern 0 default) (by decide)
  have h5 := Run.move h4 (.joinChannel 1 tavern 0 default) (by decide)
  exact ⟨start_quiet, ⟨_, h5⟩, by decide, views_agree start_quiet h5 0 2 (by decide)⟩

end Blitzd.Core.Lobby
