import Mathlib.Data.List.Basic

/-! # Receivers with a buffer

A receiver is called with all the bytes that are buffered; it makes calls, changes its state and leaves
the bytes it did not use, which stand before the next segment. `deliver` are the calls made while a
stream arrives in segments.

`Framing Y` is what makes the segments invisible: `Y s b l` says which calls `l` the stream `b` is to
make from the state `s`, a receiver shown a part of the stream makes a beginning of them and leaves a
state from which the remaining stream makes the others, and shown all of it makes all of them. Then
every cut of the stream delivers `l` (`Framing.deliver_eq`). `Independent` allows for a family of
receivers, so that what the receiver takes from elsewhere may differ between the two deliveries.

`Decoded` is the view of a stream of messages after each segment: the messages that have arrived are
called, and the buffer holds the beginning of the next one. A receiver that decodes one buffer decodes
them all (`decoded_feed`). -/

namespace Blitzd.Lib.Feed

variable {σ β γ ι : Type*}

/-- What a receiver does with a buffer. -/
structure Out (σ β γ : Type*) where
  state : σ
  rest : List β
  calls : List γ

/-- The outcome, after an earlier call. -/
def Out.cons (x : γ) (o : Out σ β γ) : Out σ β γ := { o with calls := x :: o.calls }

@[simp] theorem Out.cons_calls (x : γ) (o : Out σ β γ) : (o.cons x).calls = x :: o.calls := rfl

/-- The segments, none of them empty, make up the stream. -/
structure Cut (stream : List β) (segs : List (List β)) : Prop where
  flatten : segs.flatten = stream
  nonempty : ∀ seg ∈ segs, seg ≠ []

/-- The calls made while the segments arrive, with `b` left in the buffer before. -/
def deliver (recv : σ → List β → Out σ β γ) : σ → List β → List (List β) → List γ
  | _, _, [] => []
  | s, b, seg :: segs =>
    (recv s (b ++ seg)).calls ++
      deliver recv (recv s (b ++ seg)).state (recv s (b ++ seg)).rest segs

/-! ### Cuts -/

theorem Cut.whole {stream : List β} (h : stream ≠ []) : Cut stream [stream] where
  flatten := List.append_nil stream
  nonempty := by
    intro seg hseg
    rw [List.mem_singleton] at hseg
    exact hseg ▸ h

theorem Cut.cons {p rest : List β} {segs : List (List β)} (hp : p ≠ []) (h : Cut rest segs) :
    Cut (p ++ rest) (p :: segs) where
  flatten := by rw [List.flatten_cons, h.flatten]
  nonempty := by
    rintro seg (_ | ⟨_, hseg⟩)
    · exact hp
    · exact h.nonempty seg hseg

theorem exists_cut : ∀ stream : List β, ∃ segs, Cut stream segs
  | [] => ⟨[], rfl, by simp⟩
  | x :: l => ⟨[x :: l], Cut.whole (by simp)⟩

theorem deliver_whole (recv : σ → List β → Out σ β γ) (s : σ) (b : List β) :
    deliver recv s [] [b] = (recv s b).calls := List.append_nil _

/-- A segment that is used up stands apart from the ones behind it. -/
theorem deliver_cons {recv : σ → List β → Out σ β γ} {s s' : σ} {p : List β} {calls : List γ}
    (h : recv s p = ⟨s', [], calls⟩) (segs : List (List β)) :
    deliver recv s [] (p :: segs) = calls ++ deliver recv s' [] segs := by
  rw [deliver, List.nil_append, h]

/-! ### Receivers that do not see the segments -/

/-- The calls a stream is to make, and a receiver that makes them from any part of it. -/
structure Framing (recv : σ → List β → Out σ β γ) (Y : σ → List β → List γ → Prop) : Prop where
  nil : ∀ {s l}, Y s [] l → l = []
  step : ∀ {s b r l}, b ≠ [] → Y s (b ++ r) l →
    ∃ l', l = (recv s b).calls ++ l' ∧ Y (recv s b).state ((recv s b).rest ++ r) l'
  all : ∀ {s b l}, b ≠ [] → Y s b l → (recv s b).calls = l

section Framing

variable {recv : σ → List β → Out σ β γ} {Y : σ → List β → List γ → Prop} (hF : Framing recv Y)

include hF in
theorem Framing.deliver_buffered : ∀ (seg : List β) (segs : List (List β)) {s : σ} {b : List β} {l : List γ},
    (∀ x ∈ seg :: segs, x ≠ []) → Y s (b ++ (seg :: segs).flatten) l →
      deliver recv s b (seg :: segs) = l
  | seg, [], s, b, l, hne, hY => by
    have hb : b ++ seg ≠ [] := fun h => hne seg (List.mem_singleton_self _) (List.append_eq_nil_iff.mp h).2
    rw [List.flatten_cons, List.flatten_nil, List.append_nil] at hY
    rw [deliver, deliver, List.append_nil]
    exact hF.all hb hY
  | seg, seg' :: segs, s, b, l, hne, hY => by
    have hb : b ++ seg ≠ [] := fun h => hne seg (by simp) (List.append_eq_nil_iff.mp h).2
    rw [List.flatten_cons, ← List.append_assoc] at hY
    obtain ⟨l', rfl, hY'⟩ := hF.step hb hY
    rw [deliver, Framing.deliver_buffered seg' segs (fun x hx => hne x (List.mem_cons_of_mem _ hx)) hY']

include hF in
/-- **Every cut delivers the calls of the stream.** -/
theorem Framing.deliver_eq {s : σ} {stream : List β} {l : List γ} (hY : Y s stream l)
    {segs : List (List β)} (hc : Cut stream segs) : deliver recv s [] segs = l := by
  obtain ⟨rfl, hne⟩ := hc
  rcases segs with _ | ⟨seg, segs⟩
  · exact (hF.nil hY).symm
  · exact hF.deliver_buffered seg segs hne hY

end Framing

/-- Any two cuts of the stream, seen by any two of the receivers, make the same calls. -/
def Independent (recv : ι → σ → List β → Out σ β γ) (s : σ) (stream : List β) : Prop :=
  ∀ i j segs segs', Cut stream segs → Cut stream segs' →
    deliver (recv i) s [] segs = deliver (recv j) s [] segs'

section Independent

variable {recv : ι → σ → List β → Out σ β γ} {s s' : σ} {p rest : List β}

theorem Framing.independent {Y : σ → List β → List γ → Prop} (hF : ∀ i, Framing (recv i) Y)
    {stream : List β} {l : List γ} (hY : Y s stream l) : Independent recv s stream := by
  intro i j segs segs' hc hc'
  rw [(hF i).deliver_eq hY hc, (hF j).deliver_eq hY hc']

/-- Behind a segment that every receiver uses up in the same way. -/
theorem Independent.tail (h : Independent recv s (p ++ rest)) (hp : p ≠ []) {calls : List γ}
    (hr : ∀ i, recv i s p = ⟨s', [], calls⟩) : Independent recv s' rest := by
  intro i j segs segs' hc hc'
  have h' := h i j _ _ (hc.cons hp) (hc'.cons hp)
  rwa [deliver_cons (hr i), deliver_cons (hr j), List.append_cancel_left_eq] at h'

/-- The stream as one segment, or with its first part delivered before the rest. -/
theorem Independent.split (h : Independent recv s (p ++ rest)) (hp : p ≠ []) (i : ι) {calls : List γ}
    (hr : recv i s p = ⟨s', [], calls⟩) (hrest : rest ≠ []) :
    (recv i s (p ++ rest)).calls = calls ++ (recv i s' rest).calls := by
  have h' := h i i _ _ (Cut.whole fun e => hp (List.append_eq_nil_iff.mp e).1)
    ((Cut.whole hrest).cons hp)
  rwa [deliver_whole, deliver_cons hr, deliver_whole] at h'

end Independent

/-! ### Messages back to back -/

/-- The receiver after the segments, with the calls made while they arrived. -/
def feed (recv : σ → List β → Out σ β γ) : σ → List β → List (List β) → Out σ β γ
  | s, b, [] => ⟨s, b, []⟩
  | s, b, seg :: segs =>
    let o := recv s (b ++ seg)
    let o' := feed recv o.state o.rest segs
    ⟨o'.state, o'.rest, o.calls ++ o'.calls⟩

section Messages

variable {μ : Type*} (encode : μ → List β) (call : μ → γ)

/-- The buffer holds less than the first of the messages to come, and nothing when none comes. -/
def Pending : List μ → List β → Prop
  | [], rest => rest = []
  | m :: _, rest => ∃ t, t ≠ [] ∧ rest ++ t = encode m

/-- Of the messages, with their bytes `b` arrived: the complete ones are called, the next one waits. -/
def Decoded (msgs : List μ) (b : List β) (o : Out σ β γ) : Prop :=
  ∃ ms ms', msgs = ms ++ ms' ∧ o.calls = ms.map call ∧ ms.flatMap encode ++ o.rest = b ∧
    Pending encode ms' o.rest

variable {encode call} {recv : σ → List β → Out σ β γ} {I : σ → Prop}

theorem pending_nil (hne : ∀ m, encode m ≠ []) : ∀ msgs, Pending encode msgs []
  | [] => rfl
  | m :: _ => ⟨encode m, hne m, rfl⟩

/-- Once all the bytes have arrived nothing waits. -/
theorem Decoded.all {msgs : List μ} {o : Out σ β γ} (h : Decoded encode call msgs (msgs.flatMap encode) o) :
    o.calls = msgs.map call ∧ o.rest = [] := by
  obtain ⟨ms, ms', rfl, hcalls, hb, hp⟩ := h
  rw [List.flatMap_append, List.append_cancel_left_eq] at hb
  rcases ms' with _ | ⟨m, ms'⟩
  · rw [List.append_nil]
    exact ⟨hcalls, hp⟩
  · -- a message that waits is shorter than itself
    obtain ⟨t, ht, hm⟩ := hp
    have hlen := congrArg List.length hb
    have hlen' := congrArg List.length hm
    have hpos := List.length_pos_iff.mpr ht
    rw [List.flatMap_cons, List.length_append] at hlen
    rw [List.length_append] at hlen'
    omega

/-- **A receiver that decodes every buffer decodes every cut of the stream**, after each segment. -/
theorem decoded_feed
    (hrecv : ∀ {s b r msgs}, I s → b ++ r = msgs.flatMap encode →
      Decoded encode call msgs b (recv s b) ∧ I (recv s b).state) :
    ∀ (segs : List (List β)) {s : σ} {b r : List β} {msgs : List μ}, I s → Pending encode msgs b →
      b ++ segs.flatten ++ r = msgs.flatMap encode →
        Decoded encode call msgs (b ++ segs.flatten) (feed recv s b segs) := by
  intro segs
  induction segs with
  | nil =>
    intro s b r msgs _ hp _
    exact ⟨[], msgs, rfl, rfl, by rw [List.flatten_nil, List.append_nil]; rfl, hp⟩
  | cons seg segs ih =>
    intro s b r msgs hI _ hb
    rw [List.flatten_cons, ← List.append_assoc] at hb ⊢
    obtain ⟨⟨ms, ms', rfl, hcalls, hseg, hp⟩, hI'⟩ := hrecv hI ((List.append_assoc _ _ _).symm.trans hb)
    rw [← hseg, List.flatMap_append, List.append_assoc, List.append_assoc, List.append_cancel_left_eq,
      ← List.append_assoc] at hb
    obtain ⟨l, l', rfl, hcalls', hrest, hp'⟩ := ih hI' hp hb
    refine ⟨ms ++ l, l', (List.append_assoc _ _ _).symm, ?_, ?_, hp'⟩
    · rw [List.map_append, ← hcalls, ← hcalls']
      rfl
    · rw [List.flatMap_append, List.append_assoc, ← hseg, List.append_assoc, ← hrest]
      rfl

end Messages

end Blitzd.Lib.Feed
