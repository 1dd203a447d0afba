import Mathlib.Tactic.Common
import Blitzd.Lib.Bytes

/-! # Connections (`TcpClient.cpp`, and the `bufferevent` of libevent)

A `TcpClient` leaves its socket to a `bufferevent`, with a buffer for each direction. The loop of libevent calls
`bufferevent_readcb` and `bufferevent_writecb` when the socket can be read from or written to. They only note which
callbacks of the client are due (`DEFER_CALLBACKS`); later the loop runs all that are due, in the order reading, writing,
end. What the socket gives and takes is up to the peer (`Read`, `Write`).

`PendClose` closes the connection at once if everything is written, and otherwise leaves it to `DoSend`. `Due` says that
nothing is forgotten on the way: bytes that are not written have their event, bytes that came in and a close that is
pending have their callback. -/

namespace Blitzd.Network

open Blitzd.Lib.Bytes

/-- `struct bufferevent`, of a socket without timeouts and watermarks. `input` is what was read since `OnRecv` was called
last, and `wire` what the socket has taken so far. -/
structure BufferEvent where
  input : List Byte
  output : List Byte
  wire : List Byte
  /-- `EV_READ` is enabled, and `ev_read` is added. -/
  reading : Bool
  /-- `EV_WRITE` is enabled. -/
  writing : Bool
  /-- `ev_write` is added. -/
  evWrite : Bool
  readcbPending : Bool
  writecbPending : Bool
  eventcbPending : Bool

/-- What `evbuffer_read` can return. -/
inductive Read
  | data (b : List Byte)
  | retry
  | eof
  | error

/-- What `evbuffer_write_atmost` can return. -/
inductive Write
  | took (n : ℕ)
  | retry
  | eof
  | error

namespace BufferEvent

/-- `bufferevent_socket_new` and `bufferevent_enable`, for both directions. -/
def new : BufferEvent where
  input := []
  output := []
  wire := []
  reading := true
  writing := true
  evWrite := true
  readcbPending := false
  writecbPending := false
  eventcbPending := false

/-- `bufferevent_write`, which calls `bufferevent_socket_outbuf_cb`. -/
def write (b : BufferEvent) (bytes : List Byte) : BufferEvent :=
  { b with output := b.output ++ bytes, evWrite := b.evWrite || (b.writing && !bytes.isEmpty) }

/-- `bufferevent_readcb`. -/
def readcb (b : BufferEvent) : Read → BufferEvent
  | .data bytes => { b with input := b.input ++ bytes, readcbPending := true }
  | .retry => b
  | .eof | .error => { b with reading := false, eventcbPending := true }

/-- `bufferevent_writecb`. -/
def writecb (b : BufferEvent) (r : Write) : BufferEvent :=
  if b.output = [] then { b with evWrite := false, writecbPending := true }
  else match r with
    | .took n =>
      let output := b.output.drop n
      { b with
        wire := b.wire ++ b.output.take n
        output := output
        evWrite := b.evWrite && !output.isEmpty
        writecbPending := b.writecbPending || output.isEmpty }
    | .retry => b
    | .eof | .error => { b with writing := false, evWrite := false, eventcbPending := true }

/-- `bufferevent_run_deferred_callbacks_locked` is in the queue. -/
def Queued (b : BufferEvent) : Prop :=
  b.readcbPending = true ∨ b.writecbPending = true ∨ b.eventcbPending = true

/-- All that was ever to be sent, in its order. -/
def stream (b : BufferEvent) : List Byte := b.wire ++ b.output

@[simp] theorem stream_write (b : BufferEvent) (bytes : List Byte) : (b.write bytes).stream = b.stream ++ bytes :=
  (List.append_assoc ..).symm

@[simp] theorem stream_readcb (b : BufferEvent) (r : Read) : (b.readcb r).stream = b.stream := by
  cases r <;> rfl

@[simp] theorem stream_writecb (b : BufferEvent) (r : Write) : (b.writecb r).stream = b.stream := by
  unfold writecb
  split_ifs
  · rfl
  · cases r with
    | took n =>
      show (b.wire ++ b.output.take n) ++ b.output.drop n = b.wire ++ b.output
      rw [List.append_assoc, List.take_append_drop]
    | retry => rfl
    | eof => rfl
    | error => rfl

end BufferEvent

/-- `_bufev` and `_pend_close`. -/
structure TcpClient where
  bufev : BufferEvent
  pend : Bool

namespace TcpClient

/-- A client that `DoRegister` was called for. -/
def new : TcpClient := ⟨.new, false⟩

def send (t : TcpClient) (data : List Byte) : TcpClient := { t with bufev := t.bufev.write data }

/-- `none` is a client that is closed, and thereby deleted. -/
def pendClose (t : TcpClient) : Option TcpClient :=
  if t.bufev.output = [] then none else some { t with pend := true }

def doSend (t : TcpClient) : Option TcpClient := if t.pend = true ∧ t.bufev.output = [] then none else some t

/-- The read callback is about to be called: `OnRecv` gets the input. -/
def taken (t : TcpClient) : TcpClient := { t with bufev := { t.bufev with input := [], readcbPending := false } }

/-- The write callback, if it is due. -/
def runWritecb (t : TcpClient) : Option TcpClient :=
  if t.bufev.writecbPending = true then doSend { t with bufev := { t.bufev with writecbPending := false } } else some t

/-- The event callback, if it is due: all events it is due for make it call `DoDisconnect`. -/
def runEventcb (t : TcpClient) : Option TcpClient := if t.bufev.eventcbPending = true then none else some t

/-- What `bufferevent_run_deferred_callbacks_locked` does behind the read callback. A client that is deleted has no
callbacks any more. -/
def runRest (t : TcpClient) : Option TcpClient := t.runWritecb.bind runEventcb

/-! ### Nothing is forgotten -/

/-- What has to happen is due. -/
structure Due (t : TcpClient) : Prop where
  output : t.bufev.output ≠ [] → t.bufev.evWrite = true ∨ t.bufev.eventcbPending = true
  input : t.bufev.input ≠ [] → t.bufev.readcbPending = true
  close : t.pend = true → t.bufev.output = [] → t.bufev.writecbPending = true ∨ t.bufev.eventcbPending = true
  reading : t.bufev.reading = true ∨ t.bufev.eventcbPending = true
  writing : t.bufev.writing = true ∨ t.bufev.eventcbPending = true

variable {t t' : TcpClient}

theorem due_new : Due new :=
  ⟨fun h => absurd rfl h, fun h => absurd rfl h, fun h => absurd h (by decide), .inl rfl, .inl rfl⟩

theorem Due.send (h : Due t) (data : List Byte) : Due (t.send data) := by
  refine ⟨fun hout => ?_, h.input, fun hp hout => h.close hp (List.append_eq_nil_iff.mp hout).1, h.reading, h.writing⟩
  rcases h.writing with hw | he
  · by_cases hold : t.bufev.output = []
    · have hdata : data ≠ [] := by
        rintro rfl
        exact hout (by rw [TcpClient.send, BufferEvent.write, hold]; rfl)
      left
      simp [TcpClient.send, BufferEvent.write, hw, hdata]
    · rcases h.output hold with hev | he
      · left
        simp [TcpClient.send, BufferEvent.write, hev]
      · exact .inr he
  · exact .inr he

theorem Due.pendClose (h : Due t) (ht : t.pendClose = some t') : Due t' := by
  unfold TcpClient.pendClose at ht
  split_ifs at ht with hout
  cases ht
  exact ⟨h.output, h.input, fun _ he => absurd he hout, h.reading, h.writing⟩

theorem Due.taken (h : Due t) : Due t.taken :=
  ⟨h.output, fun hin => absurd rfl hin, h.close, h.reading, h.writing⟩

theorem Due.readcb (h : Due t) (r : Read) : Due { t with bufev := t.bufev.readcb r } := by
  cases r with
  | data bytes => exact ⟨h.output, fun _ => rfl, h.close, h.reading, h.writing⟩
  | retry => exact h
  | eof => exact ⟨fun _ => .inr rfl, h.input, fun _ _ => .inr rfl, .inr rfl, .inr rfl⟩
  | error => exact ⟨fun _ => .inr rfl, h.input, fun _ _ => .inr rfl, .inr rfl, .inr rfl⟩

theorem Due.writecb (h : Due t) (r : Write) : Due { t with bufev := t.bufev.writecb r } := by
  unfold BufferEvent.writecb
  split_ifs with hout
  · exact ⟨fun hne => absurd hout hne, h.input, fun _ _ => .inl rfl, h.reading, h.writing⟩
  · cases r with
    | took n =>
      refine ⟨fun hne => ?_, h.input, fun _ he => ?_, h.reading, h.writing⟩
      · have hdrop : t.bufev.output.drop n ≠ [] := hne
        rcases h.output hout with hev | he
        · left
          simp [hev, hdrop]
        · exact .inr he
      · have hdrop : t.bufev.output.drop n = [] := he
        left
        simp [hdrop]
    | retry => exact h
    | eof => exact ⟨fun _ => .inr rfl, h.input, fun _ _ => .inr rfl, .inr rfl, .inr rfl⟩
    | error => exact ⟨fun _ => .inr rfl, h.input, fun _ _ => .inr rfl, .inr rfl, .inr rfl⟩

/-- Behind the read callback a client goes on as it is, but for the callbacks that were due. -/
theorem runRest_some (ht : t.runRest = some t') : t.bufev.eventcbPending = false ∧
    (t.bufev.writecbPending = true → t.pend = true → t.bufev.output ≠ []) ∧
    t' = { t with bufev := { t.bufev with writecbPending := false } } := by
  unfold runRest runWritecb at ht
  split_ifs at ht with hwrite
  · unfold doSend at ht
    split_ifs at ht with hclose
    · cases ht
    · have hevent : runEventcb { t with bufev := { t.bufev with writecbPending := false } } = some t' := ht
      unfold runEventcb at hevent
      split_ifs at hevent with he
      cases hevent
      exact ⟨Bool.eq_false_iff.mpr he, fun _ hp hout => hclose ⟨hp, hout⟩, rfl⟩
  · have hevent : runEventcb t = some t' := ht
    unfold runEventcb at hevent
    split_ifs at hevent with he
    cases hevent
    refine ⟨Bool.eq_false_iff.mpr he, fun hw => absurd hw hwrite, ?_⟩
    rw [← Bool.eq_false_iff.mpr hwrite]

theorem Due.runRest (h : Due t) (ht : t.runRest = some t') : Due t' := by
  obtain ⟨he, hclose, rfl⟩ := runRest_some ht
  have hnot : t.bufev.eventcbPending ≠ true := Bool.eq_false_iff.mp he
  refine ⟨h.output, h.input, fun hp hout => ?_, h.reading, h.writing⟩
  have hw := (h.close hp hout).resolve_right hnot
  exact absurd hout (hclose hw hp)

/-- **When a client is closed**: at its end, or when it was to be closed and everything is written. -/
theorem runRest_none (ht : t.runRest = none) :
    t.bufev.eventcbPending = true ∨ t.pend = true ∧ t.bufev.output = [] := by
  unfold TcpClient.runRest runWritecb at ht
  split_ifs at ht with hwrite
  · unfold doSend at ht
    split_ifs at ht with hclose
    · exact .inr hclose
    · have hevent : runEventcb { t with bufev := { t.bufev with writecbPending := false } } = none := ht
      unfold runEventcb at hevent
      split_ifs at hevent with he
      exact .inl he
  · have hevent : runEventcb t = none := ht
    unfold runEventcb at hevent
    split_ifs at hevent with he
    exact .inl he

end TcpClient

end Blitzd.Network
