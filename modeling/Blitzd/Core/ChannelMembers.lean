import Blitzd.Core.Lobby

/-! # Clients in channels

One half of the agreement between channels and clients holds always: a client in the set of a channel is
connected and points to that channel (`ChannelsOk`). So it is in one channel at most, and leaving the channel
it points to takes it out of all of them (`connset_leaveOwnChannel`), although `Leave` keeps the pointer. -/

namespace Blitzd.Core.Lobby

open Blitzd.Lib Blitzd.Lib.KeyMap Blitzd.Lib.Bytes Blitzd.Utils.CString Blitzd.Cache

variable {l l' : Lobby} {c d : ConnId} {ch : ChanId}

/-- Whoever is in a channel is connected and points to it. -/
structure ChannelsOk (l : Lobby) : Prop where
  sound : l.channels.Sound
  inSet : ∀ {ch c}, c ∈ l.connset ch → c ∈ l.live ∧ (l.member c).channel = some ch

theorem ChannelsOk.of_same (h : ChannelsOk l) (hs : SameChannels l l') : ChannelsOk l' := by
  constructor
  · rw [hs.channels]
    exact h.sound
  · intro ch c hc
    rw [hs.connset] at hc
    rw [hs.live, hs.channel]
    exact h.inSet hc

theorem connset_modifyConnset (l : Lobby) (ch ch' : ChanId) (f : Finset ConnId → Finset ConnId) :
    (l.modifyConnset ch f).connset ch' = if ch' = ch then f (l.connset ch) else l.connset ch' := by
  unfold modifyConnset connset ChannelCache.get
  dsimp only
  rw [Heap.cell_modify, apply_ite Channel.connset]

theorem sound_modifyConnset (h : l.channels.Sound) {f : Finset ConnId → Finset ConnId}
    (hf : l.channels.heap.brk ≤ ch → f ∅ = ∅) : (l.modifyConnset ch f).channels.Sound := by
  constructor
  · exact fun hk => h.bounded hk
  · intro ch' hch'
    have hbrk : l.channels.heap.brk ≤ ch' := hch'
    have hset := connset_modifyConnset l ch ch' f
    rw [connset] at hset
    rw [hset]
    split_ifs with heq
    · rw [connset, h.fresh (heq ▸ hbrk), hf (heq ▸ hbrk)]
    · exact h.fresh hbrk

theorem connset_channelLeave (l : Lobby) (ch ch' : ChanId) (c : ConnId) :
    (l.channelLeave ch c).connset ch' = if ch' = ch then (l.connset ch).erase c else l.connset ch' :=
  connset_modifyConnset l ch ch' fun s => s.erase c

theorem channel_sendSet (l : Lobby) (s : Finset ConnId) (c d : ConnId) (e : Notice) :
    ((l.sendSet s c e).member d).channel = (l.member d).channel := by
  unfold sendSet
  dsimp only
  split_ifs <;> rfl

theorem channel_send (l : Lobby) (c d : ConnId) (es : List Notice) :
    ((l.send c es).member d).channel = (l.member d).channel :=
  modifyMember_congr c d l (r := Member.channel) fun _ => rfl

theorem channel_channelLeave (l : Lobby) (ch : ChanId) (c d : ConnId) :
    ((l.channelLeave ch c).member d).channel = (l.member d).channel := channel_sendSet _ _ _ _ _

theorem ChannelsOk.channelLeave (h : ChannelsOk l) (ch : ChanId) (c : ConnId) :
    ChannelsOk (l.channelLeave ch c) := by
  constructor
  · exact sound_modifyConnset (f := fun s => s.erase c) h.sound fun _ => Finset.erase_empty c
  · intro ch' d hd
    have hmem : d ∈ l.connset ch' := by
      rw [connset_channelLeave] at hd
      split_ifs at hd with heq
      · exact heq ▸ Finset.mem_of_mem_erase hd
      · exact hd
    rw [channel_channelLeave]
    exact h.inSet hmem

@[simp] theorem channel_leaveOwnChannel (l : Lobby) (c d : ConnId) :
    ((l.leaveOwnChannel c).member d).channel = (l.member d).channel := by
  unfold leaveOwnChannel
  rcases (l.member c).channel with _ | ch
  · rfl
  · exact channel_channelLeave l ch c d

/-- A client that leaves its channel is in none. -/
theorem connset_leaveOwnChannel (h : ChannelsOk l) (c : ConnId) (ch : ChanId) :
    (l.leaveOwnChannel c).connset ch = (l.connset ch).erase c := by
  have hother : (l.member c).channel ≠ some ch → (l.connset ch).erase c = l.connset ch := by
    intro hne
    exact Finset.erase_eq_of_notMem fun hc => hne (h.inSet hc).2
  unfold leaveOwnChannel
  rcases hch : (l.member c).channel with _ | own
  · exact (hother (by rw [hch]; simp)).symm
  · dsimp only
    rw [connset_channelLeave]
    split_ifs with heq
    · rw [heq]
    · exact (hother (by rw [hch]; simpa using Ne.symm heq)).symm

theorem ChannelsOk.leaveOwnChannel (h : ChannelsOk l) (c : ConnId) : ChannelsOk (l.leaveOwnChannel c) := by
  unfold Lobby.leaveOwnChannel
  rcases (l.member c).channel with _ | ch
  · exact h
  · exact h.channelLeave ch c

theorem connset_enter (l : Lobby) (ch ch' : ChanId) (c : ConnId) :
    (l.enter ch c).connset ch' = if ch' = ch then insert c (l.connset ch) else l.connset ch' :=
  connset_modifyConnset (l.setChannel c (some ch)) ch ch' fun s => insert c s

theorem channel_enter (l : Lobby) (ch : ChanId) (c d : ConnId) :
    ((l.enter ch c).member d).channel = if d = c then some ch else (l.member d).channel := by
  unfold enter
  dsimp only
  rw [channel_send, channel_sendSet, channel_send]
  split_ifs with h
  · rw [h]
    exact channel_setChannel_self c l (some ch)
  · exact channel_setChannel_ne l (some ch) h

/-- A client that is in no channel enters one that is there. -/
theorem ChannelsOk.enter (h : ChannelsOk l) (hc : c ∈ l.live) (hch : ch < l.channels.heap.brk)
    (hout : ∀ ch, c ∉ l.connset ch) : ChannelsOk (l.enter ch c) := by
  constructor
  · exact sound_modifyConnset (l := l.setChannel c (some ch)) h.sound fun hle => absurd hch (not_lt.mpr hle)
  · intro ch' d hd
    rw [connset_enter] at hd
    rw [channel_enter]
    by_cases hdc : d = c
    · subst hdc
      rw [if_pos rfl]
      refine ⟨hc, ?_⟩
      by_contra hne
      rw [if_neg fun he => hne (by rw [he])] at hd
      exact hout ch' hd
    · rw [if_neg hdc]
      have hmem : d ∈ l.connset ch' := by
        split_ifs at hd with heq
        · exact heq ▸ Finset.mem_of_mem_insert_of_ne hd hdc
        · exact hd
      exact h.inSet hmem

/-! ### Channels that are added -/

theorem connset_withChannels {cc : ChannelCache} (hg : ChannelCache.Grows l.channels cc) (ch : ChanId) :
    connset { l with channels := cc } ch = l.connset ch := hg.connset ch

theorem ChannelsOk.withChannels (h : ChannelsOk l) {cc : ChannelCache} (hg : ChannelCache.Grows l.channels cc) :
    ChannelsOk { l with channels := cc } := by
  refine ⟨hg.sound, fun {ch c} hc => ?_⟩
  rw [connset_withChannels hg] at hc
  exact h.inSet hc

end Blitzd.Core.Lobby
