import Blitzd.Cache.ChannelConfig
import Blitzd.Core.Membership

/-! # Channels are never over full

A channel takes clients up to its `_maxUser`, which is positive for every channel that is made: `Load` reads 0 as no
limit, a channel under a new name has 100 and a copy has that of its template. `Ensure` gives only channels with room and
the client joins at once, after having left its own channel, so no channel goes over (`capacity_run`). -/

namespace Blitzd.Cache.ChannelCache

open Blitzd.Lib Blitzd.Lib.KeyMap Blitzd.Utils.CString

variable {cc cc' : ChannelCache}

/-! ### Room in the channels -/

/-- The channels have a limit that is positive, and keep to it. -/
structure Roomy (cc : ChannelCache) : Prop where
  bounded : ∀ {k ch}, cc.findName k = some ch → ch < cc.heap.brk
  positive : ∀ {ch}, ch < cc.heap.brk → 0 < (cc.get ch).maxUser.toNat
  within : ∀ ch, (cc.get ch).connset.card ≤ (cc.get ch).maxUser.toNat

theorem roomy_empty : Roomy empty where
  bounded h := by cases h
  positive h := absurd h (Nat.not_lt_zero _)
  within _ := Nat.zero_le _

theorem Roomy.add (h : Roomy cc) {x : Channel} (hempty : x.connset = ∅) (hpos : 0 < x.maxUser.toNat) :
    Roomy (cc.add x).2 := by
  refine ⟨bounded_add h.bounded, fun {ch} hch => ?_, fun ch => ?_⟩
  · by_cases hnew : ch = cc.heap.brk
    · rw [hnew, get_add_self]
      exact hpos
    · rw [get_add_ne _ _ hnew]
      have hch' : ch < cc.heap.brk + 1 := hch
      exact h.positive (lt_of_le_of_ne (Nat.le_of_lt_succ hch') hnew)
  · by_cases hnew : ch = cc.heap.brk
    · rw [hnew, get_add_self, hempty, Finset.card_empty]
      exact Nat.zero_le _
    · rw [get_add_ne _ _ hnew]
      exact h.within ch

/-- A limit of 0 in the file is the largest one. -/
theorem read_new {r : ChannelRow} {x : Channel} (h : r.read = some x) : x.connset = ∅ ∧ 0 < x.maxUser.toNat := by
  unfold ChannelRow.read at h
  by_cases hname : r.name.1 = []
  · rw [if_pos hname] at h
    cases h
  rw [if_neg hname] at h
  obtain rfl := Option.some.inj h
  refine ⟨rfl, ?_⟩
  generalize UInt32.ofNat (strtoul r.maxUser.1) = n
  show 0 < (if n = 0 then (0xFFFFFFFF : UInt32) else n).toNat
  split_ifs with hn
  · decide
  · exact Nat.pos_of_ne_zero fun h0 => hn (UInt32.toNat_inj.mp h0)

theorem Roomy.addAll {ts : List Channel} (hts : ∀ x ∈ ts, x.connset = ∅ ∧ 0 < x.maxUser.toNat) :
    ∀ {cc : ChannelCache}, Roomy cc → Roomy (cc.addAll ts) := by
  induction ts with
  | nil => exact fun h => h
  | cons x ts ih =>
    intro cc h
    have hx := hts x List.mem_cons_self
    exact ih (fun y hy => hts y (List.mem_cons_of_mem _ hy)) (h.add hx.1 hx.2)

theorem configured_new {rows : List ChannelRow} {x : Channel} (hx : x ∈ configured rows) :
    x.connset = ∅ ∧ 0 < x.maxUser.toNat := by
  obtain ⟨r, -, hr⟩ := List.mem_filterMap.mp hx
  exact read_new hr

theorem roomy_load (rows : List ChannelRow) : Roomy (load rows) := roomy_empty.addAll fun _ => configured_new

/-- **The channel `Ensure` gives has room.** -/
theorem Roomy.ensure (h : Roomy cc) (name : Name) (tag : UInt32) (country : Name) :
    Roomy (cc.ensure name tag country).2 ∧ ∀ ch, (cc.ensure name tag country).1 = some ch →
      ch < (cc.ensure name tag country).2.heap.brk ∧ ((cc.ensure name tag country).2.get ch).hasRoom = true := by
  -- a channel that was just made is empty
  have hadd : ∀ {x : Channel}, x.connset = ∅ → 0 < x.maxUser.toNat → Roomy (cc.add x).2 ∧
      ∀ ch, some cc.heap.brk = some ch → ch < (cc.add x).2.heap.brk ∧ ((cc.add x).2.get ch).hasRoom = true := by
    intro x hempty hpos
    refine ⟨h.add hempty hpos, ?_⟩
    rintro ch ⟨⟩
    refine ⟨Nat.lt_succ_self _, ?_⟩
    rw [get_add_self, Channel.hasRoom, hempty, Finset.card_empty]
    exact decide_eq_true hpos
  have hthere : ∀ {k : Name} {ch' : ChanId}, cc.findName k = some ch' → (cc.get ch').hasRoom = true → Roomy cc ∧
      ∀ ch, some ch' = some ch → ch < cc.heap.brk ∧ (cc.get ch).hasRoom = true := by
    intro k ch' hf hroom
    refine ⟨h, ?_⟩
    rintro ch ⟨⟩
    exact ⟨h.bounded hf, hroom⟩
  have hhundred : 0 < (100 : UInt32).toNat := by decide
  have he := ensured cc name tag country
  generalize cc.ensure name tag country = r at he ⊢
  cases he with
  | made _ => exact hadd rfl hhundred
  | indexed hname => exact hadd rfl (h.positive (h.bounded hname))
  | reused _ _ _ _ hf hroom => exact hthere hf hroom
  | country hname => exact hadd rfl (h.positive (h.bounded hname))
  | plain _ _ _ hf hroom => exact hthere hf hroom
  | full => exact ⟨h, fun ch hch => by cases hch⟩

/-! ### The loop ends -/

theorem indexLoop_mono {t : Channel} {b : Name} : ∀ {fuel fuel' idx : ℕ} {r : ChanId × ChannelCache},
    indexLoop cc t b fuel idx = some r → fuel ≤ fuel' → indexLoop cc t b fuel' idx = some r := by
  intro fuel
  induction fuel with
  | zero =>
    intro fuel' idx r h
    cases h
  | succ fuel ih =>
    intro fuel' idx r h hle
    obtain ⟨n, rfl⟩ : ∃ n, fuel' = n + 1 := ⟨fuel' - 1, by omega⟩
    rw [indexLoop] at h ⊢
    rcases hf : cc.findName (withIndex b idx) with _ | ch
    · rw [hf] at h
      exact h
    · rw [hf] at h
      dsimp only at h ⊢
      split_ifs at h ⊢
      · exact h
      · exact ih h (by omega)

/-- The loop over the indices ends, the sooner the fewer entries there are. -/
def Terminates (cc : ChannelCache) (name country : Name) : Prop :=
  ∀ ch, cc.findName name = some ch → (cc.get ch).byIndex = true → ∃ r, ∀ fuel, cc.channelMap.length < fuel →
    indexLoop cc (cc.get ch) (base (cc.get ch) country) fuel 1 = some r

theorem terminates (cc : ChannelCache) (name country : Name) : cc.Terminates name country := by
  intro ch _ _
  obtain ⟨r, hr⟩ := Option.isSome_iff_exists.mp (indexLoop_isSome cc (cc.get ch) (base (cc.get ch) country) 1)
  exact ⟨r, fun fuel hfuel => indexLoop_mono hr hfuel⟩

/-! ### Leaving -/

/-- Clients left channels. -/
structure Shrinks (cc cc' : ChannelCache) : Prop where
  channelMap : cc'.channelMap = cc.channelMap
  brk : cc'.heap.brk = cc.heap.brk
  maxUser : ∀ ch, (cc'.get ch).maxUser = (cc.get ch).maxUser
  connset : ∀ ch, (cc'.get ch).connset ⊆ (cc.get ch).connset

theorem Shrinks.refl (cc : ChannelCache) : Shrinks cc cc := ⟨rfl, rfl, fun _ => rfl, fun _ => Finset.Subset.refl _⟩

theorem get_changeMembers (cc : ChannelCache) (ch i : ChanId) (f : Finset ℕ → Finset ℕ) :
    ((cc.changeMembers ch f).get i).maxUser = (cc.get i).maxUser ∧
      ((cc.changeMembers ch f).get i).connset = if i = ch then f (cc.get i).connset else (cc.get i).connset := by
  have hget : (cc.changeMembers ch f).get i =
      (cc.heap.modify ch fun x => { x with connset := f x.connset }).cell i := rfl
  rw [hget, Heap.cell_modify]
  split_ifs with hi
  · rw [hi]
    exact ⟨rfl, rfl⟩
  · exact ⟨rfl, rfl⟩

theorem shrinks_erase (cc : ChannelCache) (ch : ChanId) (c : ℕ) :
    Shrinks cc (cc.changeMembers ch fun s => s.erase c) := by
  refine ⟨rfl, rfl, fun i => (get_changeMembers cc ch i _).1, fun i => ?_⟩
  rw [(get_changeMembers cc ch i _).2]
  split_ifs
  · exact Finset.erase_subset _ _
  · exact Finset.Subset.refl _

theorem Roomy.shrinks (h : Roomy cc) (hs : Shrinks cc cc') : Roomy cc' := by
  have hfind : ∀ k, cc'.findName k = cc.findName k := fun k => by rw [findName, findName, hs.channelMap]
  refine ⟨fun {k ch} hk => ?_, fun {ch} hch => ?_, fun ch => ?_⟩
  · rw [hfind] at hk
    rw [hs.brk]
    exact h.bounded hk
  · rw [hs.brk] at hch
    rw [hs.maxUser]
    exact h.positive hch
  · rw [hs.maxUser]
    exact (Finset.card_le_card (hs.connset ch)).trans (h.within ch)

/-- One client enters a channel that had room. -/
theorem Roomy.enter (h : Roomy cc) (hs : Shrinks cc cc') {ch : ChanId} (hroom : (cc.get ch).hasRoom = true) (c : ℕ) :
    Roomy (cc'.changeMembers ch (Insert.insert c)) := by
  have h' := h.shrinks hs
  refine ⟨h'.bounded, fun {i} hi => ?_, fun i => ?_⟩
  · rw [(get_changeMembers cc' ch i _).1]
    exact h'.positive hi
  · rw [(get_changeMembers cc' ch i _).1, (get_changeMembers cc' ch i _).2]
    split_ifs with hi
    · subst hi
      have hlt : (cc.get i).connset.card < (cc.get i).maxUser.toNat := of_decide_eq_true hroom
      have hle := Finset.card_le_card (hs.connset i)
      have hins := Finset.card_insert_le c (cc'.get i).connset
      rw [hs.maxUser]
      omega
    · exact h'.within i

end Blitzd.Cache.ChannelCache

namespace Blitzd.Core.Lobby

open Blitzd.Lib Blitzd.Cache Blitzd.Cache.ChannelCache Blitzd.Utils.CString

variable {l l' : Lobby}

/-! ### The moves -/

theorem shrinks_leaveOwnChannel (l : Lobby) (c : ConnId) : Shrinks l.channels (l.leaveOwnChannel c).channels := by
  unfold leaveOwnChannel
  rcases (l.member c).channel with _ | ch
  · exact Shrinks.refl _
  · exact shrinks_erase l.channels ch c

/-- What both joins begin with. -/
theorem shrinks_leaves (l : Lobby) (c : ConnId) :
    Shrinks l.channels ((l.leaveOwnGame c).leaveOwnChannel c).channels := by
  have h := shrinks_leaveOwnChannel (l.leaveOwnGame c) c
  rw [(sameChannels_leaveOwnGame c l).channels] at h
  exact h

theorem shrinks_gameJoin (l : Lobby) (g : GameId) (c : ConnId) : Shrinks l.channels (l.gameJoin g c).channels :=
  shrinks_leaves (l.pushBack g c) c

theorem shrinks_startAdvEx3 (l : Lobby) (c : ConnId) (name : Name) (status : GameStatus) :
    Shrinks l.channels (l.startAdvEx3 c name status).channels := by
  unfold startAdvEx3
  split
  · split_ifs <;> exact Shrinks.refl _
  · exact shrinks_gameJoin (l.addGame name status) l.games.brk c

theorem roomy_joinChannel (h : Roomy l.channels) (c : ConnId) (name : Name) (tag : UInt32) (country : Name) :
    Roomy (l.joinChannel c name tag country).channels := by
  obtain ⟨hroomy, hgiven⟩ := h.ensure name tag country
  unfold joinChannel
  dsimp only
  generalize l.channels.ensure name tag country = r at hroomy hgiven
  rcases hr : r.1 with _ | ch
  · exact hroomy
  · exact hroomy.enter (shrinks_leaves { l with channels := r.2 } c) (hgiven ch hr).2 c

theorem roomy_step {m : Move} (h : Roomy l.channels) (hs : Step l m l') : Roomy l'.channels := by
  obtain ⟨-, rfl⟩ := hs
  cases m with
  | connect c => exact h
  | joinChannel c name tag country => exact roomy_joinChannel h c name tag country
  | leaveChat c => exact h.shrinks (shrinks_leaveOwnChannel l c)
  | notifyJoin c name =>
    show Roomy (l.notifyJoin c name).channels
    unfold notifyJoin
    split
    · exact h.shrinks (shrinks_gameJoin l _ c)
    · exact h
  | startAdvEx3 c name status => exact h.shrinks (shrinks_startAdvEx3 l c name status)
  | leaveGame c =>
    show Roomy (l.leaveOwnGame c).channels
    rw [(sameChannels_leaveOwnGame c l).channels]
    exact h
  | disconnect c => exact h.shrinks (shrinks_leaves l c)

/-! ### Runs -/

/-- Nobody is connected yet, and the channels are those of the file. -/
def opened (rows : List ChannelRow) : Lobby := { quiet with channels := load rows }

/-- **Capacity.** After any moves of the clients no channel is over its limit, every call of `Ensure` ends, and the
channel it gives has room for one more. -/
theorem capacity_run (rows : List ChannelRow) {hist : List (Entry Lobby Move)}
    (hr : Run Step (opened rows) hist l) :
    (∀ ch, (l.connset ch).card ≤ (l.channels.get ch).maxUser.toNat) ∧
      ∀ name tag country, l.channels.Terminates name country ∧
        ∀ ch, (l.channels.ensure name tag country).1 = some ch →
          ((l.channels.ensure name tag country).2.get ch).hasRoom = true := by
  have hroomy : Roomy l.channels :=
    Run.always (I := fun l => Roomy l.channels) (roomy_load rows) roomy_step hr
  refine ⟨hroomy.within, fun name tag country => ⟨terminates l.channels name country, fun ch hch => ?_⟩⟩
  exact ((hroomy.ensure name tag country).2 ch hch).2

/-- One client in an indexed channel. -/
theorem capacity_indexed : ∃ hist l, Run Step (opened channelFile) hist l ∧ l.connset 2 = {1} ∧
    (l.connset 2).card ≤ (l.channels.get 2).maxUser.toNat := by
  have hr := Run.move (Run.move (.nil : Run Step (opened channelFile) [] _) (.connect 1) (by decide))
    (.joinChannel 1 warcraft 0 us) (by decide +kernel)
  exact ⟨_, _, hr, by decide +kernel, (capacity_run channelFile hr).1 2⟩

end Blitzd.Core.Lobby
