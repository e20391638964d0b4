import Voyager.ProtobufCodec

/-!
One direction of a connection between two parties that use `ProtobufCodec`. What
one of them sends goes into a stream of bytes; the other one reads any number of
them at a time, its codec takes the whole frames out of the read buffer, and the
message callback handles these one after the other before the next read. A
connection may break: then the rest of what is in flight is lost, but what
arrives is still the beginning of what was sent.
-/
namespace Voyager

open ProtobufCodec Lib.Framing

/-- `sent` and `seen` are the history: what was given to the connection, and the
bytes that were read. The callback has been called for the first `handled` of the
messages that the codec has delivered. -/
structure MessagePipe (μ : Type*) where
  sent : List μ
  seen : List Byte
  inFlight : List Byte
  delivery : Delivery μ
  handled : ℕ

namespace MessagePipe

variable {μ : Type*}

def create (initSize : ℕ) : MessagePipe μ := ⟨[], [], [], ProtobufCodec.start initSize, 0⟩

/-- The string that `SendMessage` hands to the connection. -/
def write (d : MessagePipe μ) (message : μ) (bytes : List Byte) : MessagePipe μ :=
  { d with sent := d.sent ++ [message], inFlight := d.inFlight ++ bytes }

/-- One read of up to `n` bytes, and `OnMessage` on what it appended. The codec makes
no more rounds than there are messages. -/
def read (P : MessageClass μ) (kLittleEndian : Bool) (d : MessagePipe μ) (n : ℕ) :
    Option (MessagePipe μ) :=
  if d.handled = d.delivery.messages.length then
    (receive P kLittleEndian (fun _ _ => true) (d.sent.length + 1) d.delivery
      (d.inFlight.take n)).map fun delivery =>
        { d with
          seen := d.seen ++ d.inFlight.take n
          inFlight := d.inFlight.drop n
          delivery := delivery }
  else none

/-- The message that the callback is called with next. -/
def pending (d : MessagePipe μ) : Option μ := d.delivery.messages[d.handled]?

def handle (d : MessagePipe μ) : MessagePipe μ := { d with handled := d.handled + 1 }

/-- The connection breaks: only `n` of the bytes in flight can still arrive. -/
def cut (d : MessagePipe μ) (n : ℕ) : MessagePipe μ := { d with inFlight := d.inFlight.take n }

/-- The messages that the callback was called with. -/
def done (d : MessagePipe μ) : List μ := d.delivery.messages.take d.handled

/-- Nothing is in flight, and everything delivered has been handled. -/
structure Drained (d : MessagePipe μ) : Prop where
  inFlight : d.inFlight = []
  handled : d.handled = d.delivery.messages.length

/-- Whether protobuf can send the message and read it back. -/
def Good (P : MessageClass μ) (message : μ) : Prop := Fits P message ∧ P.Inverts message

variable (P : MessageClass μ) (kLittleEndian : Bool)

/-- What arrives is the beginning of the frames of what was sent. -/
structure Ok (d : MessagePipe μ) : Prop where
  good : ∀ m ∈ d.sent, Good P m
  arrives : d.seen ++ d.inFlight <+: stream (frame P kLittleEndian) d.sent
  received : Received (frame P kLittleEndian) d.sent d.seen d.delivery.messages
    d.delivery.buffer.readable
  wf : d.delivery.buffer.Wf
  errors : d.delivery.errors = []
  handled : d.handled ≤ d.delivery.messages.length

/-- Nothing has been lost so far. -/
def Whole (d : MessagePipe μ) : Prop :=
  d.seen ++ d.inFlight = Lib.Framing.stream (frame P kLittleEndian) d.sent

variable {P kLittleEndian} {d : MessagePipe μ}

theorem ok_create (initSize : ℕ) : Ok P kLittleEndian (create initSize : MessagePipe μ) where
  good m hm := by cases hm
  arrives := List.nil_prefix
  received := by
    have hnil : (ProtobufCodec.start initSize : Delivery μ).buffer.readable = [] :=
      Buffer.readable_ofSize initSize
    change Received _ [] [] [] (ProtobufCodec.start initSize : Delivery μ).buffer.readable
    rw [hnil]
    exact Received.start [] (by simp)
  wf := Buffer.wf_ofSize initSize
  errors := rfl
  handled := Nat.le_refl 0

theorem whole_create (initSize : ℕ) : Whole P kLittleEndian (create initSize : MessagePipe μ) := rfl

@[simp] theorem done_write (message : μ) (bytes : List Byte) :
    (d.write message bytes).done = d.done := rfl

@[simp] theorem done_cut (n : ℕ) : (d.cut n).done = d.done := rfl

theorem done_handle {message : μ} (hpending : d.pending = some message) :
    d.handle.done = d.done ++ [message] := by
  obtain ⟨hlt, hget⟩ := List.getElem?_eq_some_iff.mp hpending
  simp only [done, handle]
  rw [List.take_succ_eq_append_getElem hlt, hget]

theorem Whole.write (h : Whole P kLittleEndian d) (message : μ) :
    Whole P kLittleEndian (d.write message (frame P kLittleEndian message)) := by
  rw [Whole] at h ⊢
  simp only [MessagePipe.write, stream_append, ← h, List.append_assoc]
  simp

theorem Ok.write (h : Ok P kLittleEndian d) {message : μ} (hgood : Good P message)
    (hwhole : Whole P kLittleEndian d) :
    Ok P kLittleEndian (d.write message (frame P kLittleEndian message)) where
  good m hm := by
    rcases List.mem_append.mp hm with hm | hm
    · exact h.good m hm
    · rw [List.mem_singleton.mp hm]
      exact hgood
  arrives := (hwhole.write message).symm ▸ List.prefix_rfl
  received := h.received.extend ((List.prefix_append _ d.inFlight).trans h.arrives)
    (length_frame_pos kLittleEndian hgood.1 hgood.2)
  wf := h.wf
  errors := h.errors
  handled := h.handled

theorem Ok.handle (h : Ok P kLittleEndian d) {message : μ} (hpending : d.pending = some message) :
    Ok P kLittleEndian d.handle where
  good := h.good
  arrives := h.arrives
  received := h.received
  wf := h.wf
  errors := h.errors
  handled := (List.getElem?_eq_some_iff.mp hpending).1

theorem Ok.cut (h : Ok P kLittleEndian d) (n : ℕ) : Ok P kLittleEndian (d.cut n) where
  good := h.good
  arrives :=
    ((List.prefix_append_right_inj d.seen).mpr (List.take_prefix n d.inFlight)).trans h.arrives
  received := h.received
  wf := h.wf
  errors := h.errors
  handled := h.handled

/-- A read succeeds whenever the callback is through, whatever arrives. -/
theorem Ok.read (h : Ok P kLittleEndian d) (n : ℕ)
    (hhandled : d.handled = d.delivery.messages.length) :
    ∃ d', d.read P kLittleEndian n = some d' ∧ Ok P kLittleEndian d' ∧ d'.sent = d.sent ∧
      d'.done = d.done ∧ d'.seen ++ d'.inFlight = d.seen ++ d.inFlight := by
  have hsplit : d.seen ++ d.inFlight.take n ++ d.inFlight.drop n = d.seen ++ d.inFlight := by
    rw [List.append_assoc, List.take_append_drop]
  have harrives := h.arrives
  rw [← hsplit] at harrives
  obtain ⟨delivery, hread, hwf, herrors, hreceived⟩ := receive_stream kLittleEndian h.wf
    (fun m hm => (h.good m hm).1) (fun m hm => (h.good m hm).2) h.received
    ((List.prefix_append _ _).trans harrives) (Nat.lt_succ_self _)
  have hmore : d.delivery.messages <+: delivery.messages := h.received.done_mono hreceived
  refine ⟨{ d with
    seen := d.seen ++ d.inFlight.take n
    inFlight := d.inFlight.drop n
    delivery := delivery }, ?_, ?_, rfl, ?_, hsplit⟩
  · rw [MessagePipe.read, if_pos hhandled, hread, Option.map_some]
  · exact
      { good := h.good
        arrives := harrives
        received := hreceived
        wf := hwf
        errors := herrors.trans h.errors
        handled := Nat.le_trans h.handled hmore.length_le }
  · obtain ⟨more, hmessages⟩ := hmore
    rw [done, done, ← hmessages, List.take_append_of_le_length h.handled]

theorem Ok.read_eq (h : Ok P kLittleEndian d) {n : ℕ} {d' : MessagePipe μ}
    (hread : d.read P kLittleEndian n = some d') :
    Ok P kLittleEndian d' ∧ d'.sent = d.sent ∧ d'.done = d.done ∧
      d'.seen ++ d'.inFlight = d.seen ++ d.inFlight := by
  by_cases hhandled : d.handled = d.delivery.messages.length
  · obtain ⟨d'', hread', hspec⟩ := h.read n hhandled
    rw [hread, Option.some.injEq] at hread'
    exact hread' ▸ hspec
  · rw [MessagePipe.read, if_neg hhandled] at hread
    cases hread

/-- Once nothing is in flight any more, everything that was sent has been handled. -/
theorem Ok.done_eq_sent (h : Ok P kLittleEndian d) (hwhole : Whole P kLittleEndian d)
    (hdrained : d.Drained) : d.done = d.sent := by
  rw [Whole, hdrained.inFlight, List.append_nil] at hwhole
  have hreceived := h.received
  rw [hwhole] at hreceived
  rw [done, hdrained.handled, List.take_length]
  exact hreceived.complete.1

end MessagePipe

end Voyager
