import Blitzd.Core.Segmentation

/-! # The format of BNet packets (`PacketBNet::Build`)

`Build` writes the opcode as a `uint`, lets `Pack` append the rest and then puts the size of the whole
into the upper half of the first word. `ProcessBNetLoggedIn` masks the two halves out again.

`onRecv_decodes`: messages laid out back to back by `Build` and cut into segments in any way are handed to
the logged-in suite one by one, each with the segment that brings its last byte, and between the segments
the buffer holds the bytes of the next message. -/

namespace Blitzd.Packets

open Blitzd.Lib.Bytes Blitzd.Lib.Feed Blitzd.Core

/-- `*(ushort *)&_packet[2] = (ushort)_packet.size()`. -/
def putSize (p : List Byte) : List Byte := p.take 2 ++ toLE 2 p.length ++ p.drop 4

/-- `Build`, with what `Pack` appends; `none` is `false`. -/
def build (cmd : UInt16) (pack : Option (List Byte)) : Option (List Byte) :=
  pack.map fun body => putSize (toLE 4 cmd.toNat ++ body)

/-- The opcode, the size and the rest. -/
theorem putSize_eq (cmd : UInt16) (body : List Byte) :
    putSize (toLE 4 cmd.toNat ++ body) =
      toLE 2 cmd.toNat ++ toLE 2 (4 + body.length) ++ body := by
  have h4 : (toLE 4 cmd.toNat).length = 4 := length_toLE _ _
  have hlow : (toLE 4 cmd.toNat ++ body).take 2 = toLE 2 cmd.toNat := rfl
  have hdrop : (toLE 4 cmd.toNat ++ body).drop 4 = body := rfl
  rw [putSize, hlow, hdrop, List.length_append, h4]

/-- The header of what `Build` returns. The size is cut to 16 bits. -/
theorem header_putSize (cmd : UInt16) (body : List Byte) :
    Suite.header .bnetLoggedIn (putSize (toLE 4 cmd.toNat ++ body)) =
      ⟨cmd.toNat, (4 + body.length) % 65536⟩ := by
  have hcmd : ofLE (toLE 2 cmd.toNat) = cmd.toNat := ofLE_toLE_of_lt cmd.toNat_lt
  have hsize : ofLE (toLE 2 (4 + body.length)) = (4 + body.length) % 65536 := ofLE_toLE _ _
  rw [putSize_eq]
  show Header.mk (ofLE (toLE 2 cmd.toNat)) (ofLE (toLE 2 (4 + body.length))) = _
  rw [hcmd, hsize]

@[simp] theorem length_putSize (cmd : UInt16) (body : List Byte) :
    (putSize (toLE 4 cmd.toNat ++ body)).length = 4 + body.length := by
  rw [putSize_eq, List.length_append, List.length_append, length_toLE, length_toLE]

/-! ### Messages -/

/-- A message that has room in a packet. -/
structure Message where
  op : UInt16
  payload : List Byte
  fits : payload.length ≤ 65531

namespace Message

/-- The message as `Build` lays it out. -/
def encode (m : Message) : List Byte := putSize (toLE 4 m.op.toNat ++ m.payload)

theorem build_eq (m : Message) : build m.op (some m.payload) = some m.encode := rfl

/-- The message as the suite is handed it. -/
def call (m : Message) : PluginCall := ⟨.bnetLoggedIn, m.op.toNat, m.payload⟩

variable (m : Message)

theorem length_encode : m.encode.length = 4 + m.payload.length := length_putSize _ _

theorem encode_ne_nil : m.encode ≠ [] := by
  intro h
  have := m.length_encode
  rw [h, List.length_nil] at this
  omega

theorem header_encode : Suite.header .bnetLoggedIn m.encode = ⟨m.op.toNat, m.encode.length⟩ := by
  have hfits := m.fits
  rw [m.length_encode, encode, header_putSize]
  congr 1
  omega

theorem whole : Whole .bnetLoggedIn m.encode := by
  have hlen := m.length_encode
  constructor
  · rw [m.header_encode]
    show 4 ≤ m.encode.length
    omega
  · rw [m.header_encode]

theorem wholeCall_eq : wholeCall .bnetLoggedIn m.encode = m.call := by
  have hdrop : m.encode.drop 4 = m.payload := by
    rw [encode, putSize_eq]
    rfl
  have hsize : m.encode.length - 4 = m.payload.length := by
    rw [m.length_encode]
    omega
  rw [wholeCall, m.header_encode, hdrop, hsize, List.take_length, call]

/-- The message in front of a buffer is handed over and what follows stays. -/
theorem front (mem : (n : ℕ) → Buf n) (b : List Byte) :
    Complete .bnetLoggedIn (m.encode ++ b) ∧ packetCall mem .bnetLoggedIn (m.encode ++ b) = m.call ∧
      behind .bnetLoggedIn (m.encode ++ b) = b := by
  have hw := m.whole
  refine ⟨hw.complete.append, ?_, ?_⟩
  · rw [hw.append.packetCall_eq, hw.wholeCall_append, m.wholeCall_eq]
  · rw [hw.behind_append, hw.behind_eq, m.header_encode, List.drop_length]
    rfl

/-- A part of the message is not complete. -/
theorem not_complete {m : Message} {b t : List Byte} (ht : t ≠ []) (h : b ++ t = m.encode) :
    ¬ Complete .bnetLoggedIn b := by
  rintro ⟨h4, hle⟩
  have hlen := congrArg List.length h
  have hpos := List.length_pos_iff.mpr ht
  rw [← header_append .bnetLoggedIn t h4, h, m.header_encode] at hle
  rw [List.length_append] at hlen
  have hle' : m.encode.length ≤ b.length := hle
  omega

end Message

/-! ### The logged-in loop decodes -/

variable {σ : Type} {S : Suites σ} {mem : Memory σ}

/-- The logged-in suite has no plugin that sets the stage. -/
theorem stage_loggedIn {s : σ} (m : Message) (hs : S.stage s = .bnetLoggedIn) :
    S.stage (S.process m.call s) = .bnetLoggedIn := by
  rw [S.stage_process, ← hs]
  rfl

theorem packets_decoded : ∀ (msgs : List Message) {fuel : ℕ} {s : σ} {b r : List Byte},
    b.length ≤ fuel → S.stage s = .bnetLoggedIn → b ++ r = msgs.flatMap Message.encode →
      Decoded Message.encode Message.call msgs b (packets S mem .bnetLoggedIn fuel s b) ∧
        S.stage (packets S mem .bnetLoggedIn fuel s b).state = .bnetLoggedIn := by
  intro msgs
  induction msgs with
  | nil =>
    intro fuel s b r _ hs hb
    obtain ⟨rfl, -⟩ := List.append_eq_nil_iff.mp hb
    rw [packets_nil]
    exact ⟨⟨[], [], rfl, rfl, rfl, rfl⟩, hs⟩
  | cons m msgs ih =>
    intro fuel s b r hfuel hs hb
    rw [List.flatMap_cons] at hb
    -- the first message is there, or the buffer ends inside it
    have hsplit : (∃ c, b = m.encode ++ c ∧ c ++ r = msgs.flatMap Message.encode) ∨
        ∃ t, t ≠ [] ∧ b ++ t = m.encode := by
      rcases List.append_eq_append_iff.mp hb with ⟨t, he, hr⟩ | ⟨c, hbc, hrest⟩
      · by_cases ht : t = []
        · subst ht
          rw [List.append_nil] at he
          exact .inl ⟨[], by rw [he, List.append_nil], hr⟩
        · exact .inr ⟨t, ht, he.symm⟩
      · exact .inl ⟨c, hbc, hrest.symm⟩
    rcases hsplit with ⟨c, rfl, hc⟩ | ⟨t, ht, he⟩
    · obtain ⟨hcomplete, hcall, hbehind⟩ := m.front (mem s) c
      obtain ⟨n, hn, hstep⟩ := packets_step S mem s hcomplete hfuel
      rw [hstep, hcall, hbehind]
      rw [hbehind] at hn
      obtain ⟨⟨ms, ms', rfl, hcalls, hrest, hp⟩, hs'⟩ := ih hn (stage_loggedIn m hs) hc
      refine ⟨⟨m :: ms, ms', rfl, ?_, ?_, hp⟩, hs'⟩
      · rw [Out.cons_calls, hcalls, List.map_cons]
      · rw [List.flatMap_cons, List.append_assoc]
        exact congrArg (m.encode ++ ·) hrest
    · rw [packets_stop (Message.not_complete ht he)]
      exact ⟨⟨[], m :: msgs, rfl, rfl, rfl, t, ht, he⟩, hs⟩

theorem onRecv_decoded {s : σ} {b r : List Byte} {msgs : List Message} (hs : S.stage s = .bnetLoggedIn)
    (hb : b ++ r = msgs.flatMap Message.encode) :
    Decoded Message.encode Message.call msgs b (onRecv S mem s b) ∧
      S.stage (onRecv S mem s b).state = .bnetLoggedIn := by
  by_cases hnil : b = []
  · subst hnil
    exact ⟨⟨[], msgs, rfl, rfl, rfl, pending_nil Message.encode_ne_nil _⟩, hs⟩
  · rw [onRecv_dispatch (by rw [hs]; simp) hnil, dispatch, hs]
    exact packets_decoded msgs le_rfl hs hb

/-- **What `Build` lays out, `OnRecv` hands over**: for every cut of the stream, after every segment the
messages that have arrived were called in order and the buffer holds the beginning of the next; after the
last segment all were called and the buffer is empty. -/
theorem onRecv_decodes (S : Suites σ) (mem : Memory σ) {s : σ} (hs : S.stage s = .bnetLoggedIn)
    (msgs : List Message) {segs : List (List Byte)} (hcut : segs.flatten = msgs.flatMap Message.encode) :
    (∀ done todo, segs = done ++ todo →
      Decoded Message.encode Message.call msgs done.flatten (feed (onRecv S mem) s [] done)) ∧
    (feed (onRecv S mem) s [] segs).calls = msgs.map Message.call ∧
    (feed (onRecv S mem) s [] segs).rest = [] := by
  have hpart : ∀ done todo, segs = done ++ todo →
      Decoded Message.encode Message.call msgs done.flatten (feed (onRecv S mem) s [] done) := by
    rintro done todo rfl
    rw [List.flatten_append] at hcut
    exact decoded_feed (I := fun s => S.stage s = .bnetLoggedIn) onRecv_decoded done hs
      (pending_nil Message.encode_ne_nil _) hcut
  refine ⟨hpart, ?_⟩
  have hall := hpart segs [] (List.append_nil _).symm
  rw [hcut] at hall
  exact hall.all

/-! ### A line of chat and a departure, in four segments -/

def chatLine : Message := ⟨0x0EFF, str "hi" ++ [0], by decide⟩

def departure : Message := ⟨0x10FF, [], by decide⟩

/-- The fresh connection, once it has logged in. -/
def online : Server := fresh.setStage 0 .bnetLoggedIn

/-- A cut inside the first header, inside the first payload and inside the second header. -/
def chatSegs : List (List Byte) := [[0xFF, 0x0E, 0x07], [0x00, 0x68], [0x69, 0x00, 0xFF, 0x10], [0x04, 0x00]]

theorem onRecv_decodes_chat : freshSuites.stage online = .bnetLoggedIn ∧
    chatSegs.flatten = [chatLine, departure].flatMap Message.encode ∧
    (feed (onRecv freshSuites fun _ n => Buf.zero n) online [] chatSegs).calls =
      [chatLine.call, departure.call] := by
  have hcut : chatSegs.flatten = [chatLine, departure].flatMap Message.encode := by decide
  exact ⟨rfl, hcut, (onRecv_decodes freshSuites _ rfl _ hcut).2.1⟩

end Blitzd.Packets
