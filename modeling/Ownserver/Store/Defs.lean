import Ownserver.Registry

/-!
# The Store of `ownserver_server`

`Store` (`store.rs`) is the server's shared state: the registry of remote streams, the registry
of clients, and two side indexes, `addrs_map` from a peer address to the stream it opened and
`port_map` from a public port to the client it serves. Each method below is one step on that
state; the locks the source takes inside a method are not split, so a method is atomic here.

`Client` and `RemoteStream` are not under src/. They are modelled from the spec: each carries its
id, the fields the Store reads (`remote_port()`, the owning client of a stream), and the
`disabled` flag, which `disable()` sets and nothing clears. Their channels are not modelled;
`send_to_client` and `send_to_remote` are read through their results.

`StoreOp` names the mutating methods, `Store.step` runs one, and `Store.run` runs a list of them
from `Store::new`. `streams_step` and `clients_step` connect the Store to the two-phase registry
of `Ownserver.Registry`: on each registry, every method is one `RegistryOp`. Through them the
Store refines the lifecycle automaton of each id (`registries_refine_phases`).
-/

set_option autoImplicit false
set_option relaxedAutoImplicit false

namespace Ownserver

/-- Modelled from the spec: `ClientStreamError` is not under src/. A lookup miss is
`*NotAvailable`; an entry that is marked for removal answers `*Disabled` (§4.3, §7). -/
inductive ClientStreamError
  | clientNotAvailable (clientId : ClientId)
  | streamNotAvailable (streamId : StreamId)
  | clientDisabled (clientId : ClientId)
  | streamDisabled (streamId : StreamId)
  deriving DecidableEq, Repr

/-- Modelled from the spec: `Client` is not under src/. One connected tunnel client: its id, the
public port it was given, and the `disabled` flag. -/
structure Client where
  clientId : ClientId
  remotePort : UInt16
  disabled : Bool
  deriving DecidableEq, Repr

namespace Client

/-- Modelled from the spec: `Client::disable` marks the client terminal. -/
def disable (client : Client) : Client := { client with disabled := true }

/-- Modelled from the spec: `Client::send_to_client` enqueues on the outbound channel, and refuses
once the client is disabled. -/
def sendToClient (client : Client) (_packet : ControlPacket) : Except ClientStreamError Unit :=
  if client.disabled then .error (.clientDisabled client.clientId) else .ok ()

@[simp] theorem disable_clientId (client : Client) : client.disable.clientId = client.clientId :=
  rfl

@[simp] theorem disable_remotePort (client : Client) :
    client.disable.remotePort = client.remotePort := rfl

@[simp] theorem disable_disabled (client : Client) : client.disable.disabled = true := rfl

end Client

/-- Modelled from the spec: `RemoteStream` is not under src/. One external connection: its id,
its owning client, and the `disabled` flag. -/
structure RemoteStream where
  streamId : StreamId
  clientId : ClientId
  disabled : Bool
  deriving DecidableEq, Repr

namespace RemoteStream

/-- Modelled from the spec: `RemoteStream::disable` marks the stream terminal. -/
def disable (stream : RemoteStream) : RemoteStream := { stream with disabled := true }

/-- Modelled from the spec: `RemoteStream::send_to_remote` enqueues on the stream's inbound
channel, and refuses once the stream is disabled. -/
def sendToRemote (stream : RemoteStream) (streamId : StreamId) (_message : StreamMessage) :
    Except ClientStreamError Unit :=
  if stream.disabled then .error (.streamDisabled streamId) else .ok ()

@[simp] theorem disable_streamId (stream : RemoteStream) :
    stream.disable.streamId = stream.streamId := rfl

@[simp] theorem disable_clientId (stream : RemoteStream) :
    stream.disable.clientId = stream.clientId := rfl

@[simp] theorem disable_disabled (stream : RemoteStream) : stream.disable.disabled = true := rfl

end RemoteStream

/-- `Store`: the stream and client registries and their two side indexes. The port allocator
`alloc` is not modelled. -/
structure Store where
  streams : Map StreamId RemoteStream
  clients : Map ClientId Client
  addrsMap : Map SocketAddr StreamId
  portMap : Map UInt16 ClientId

namespace Store

/-- `Store::new`: every map empty. -/
def new : Store := ⟨∅, ∅, ∅, ∅⟩

/-- `Store::send_to_client`: the client's own answer, or `ClientNotAvailable` for an unknown id. -/
def sendToClient (store : Store) (clientId : ClientId) (packet : ControlPacket) :
    Except ClientStreamError Unit :=
  match store.clients.lookup clientId with
  | some client => client.sendToClient packet
  | none => .error (.clientNotAvailable clientId)

/-- `Store::send_to_remote`: the stream's own answer, or `StreamNotAvailable` for an unknown id. -/
def sendToRemote (store : Store) (streamId : StreamId) (message : StreamMessage) :
    Except ClientStreamError Unit :=
  match store.streams.lookup streamId with
  | some stream => stream.sendToRemote streamId message
  | none => .error (.streamNotAvailable streamId)

/-- `Store::disable_remote`: disable the stream under the id, if there is one. -/
@[simps]
def disableRemote (store : Store) (streamId : StreamId) : Store :=
  { store with streams := store.streams.modify streamId RemoteStream.disable }

/-- `Store::disable_client`: disable the client under the id, if there is one. -/
@[simps]
def disableClient (store : Store) (clientId : ClientId) : Store :=
  { store with clients := store.clients.modify clientId Client.disable }

/-- `Store::add_client`: register the client under its id and its public port under the id. -/
@[simps]
def addClient (store : Store) (client : Client) : Store :=
  { store with
    clients := store.clients.insert client.clientId client
    portMap := store.portMap.insert client.remotePort client.clientId }

/-- `Store::add_remote`: register the stream under its id and the peer address under the id. -/
@[simps]
def addRemote (store : Store) (remote : RemoteStream) (peerAddr : SocketAddr) : Store :=
  { store with
    streams := store.streams.insert remote.streamId remote
    addrsMap := store.addrsMap.insert peerAddr remote.streamId }

/-- `Store::cleanup`: drop the disabled streams and the disabled clients. -/
@[simps]
def cleanup (store : Store) : Store :=
  { store with
    streams := store.streams.retain fun _ stream => !stream.disabled
    clients := store.clients.retain fun _ client => !client.disabled }

/-- `Store::find_stream_id_by_addr`: the stream registered for the address, read back through the
stream registry, unless it is gone or disabled. -/
def findStreamIdByAddr (store : Store) (addr : SocketAddr) : Option StreamId :=
  match store.addrsMap.lookup addr with
  | none => none
  | some streamId =>
    match store.streams.lookup streamId with
    | some stream => if !stream.disabled then some stream.streamId else none
    | none => none

/-- `Store::find_stream_id_by_addr` read in its two parts: `addrRead` is what the read of
`addrs_map` returned, and the stream registry is read in `later`. The method takes the two locks
one after the other, so other calls can run between the two reads (`Ownserver.Store.Interleaving`).
-/
def findStreamIdByAddrSplit (addrRead : Option StreamId) (later : Store) : Option StreamId :=
  match addrRead with
  | none => none
  | some streamId =>
    match later.streams.lookup streamId with
    | some stream => if !stream.disabled then some stream.streamId else none
    | none => none

/-- `Store::get_stream_ids`: the own id of every registered stream, in the map's order. -/
def getStreamIds (store : Store) : List StreamId :=
  store.streams.entries.map fun entry => entry.2.streamId

/-- `Store::len_streams`. -/
def lenStreams (store : Store) : Nat := store.streams.len

/-- `Store::len_clients`. -/
def lenClients (store : Store) : Nat := store.clients.len

end Store

/-! ### Runs -/

/-- A call of one of the Store's mutating methods. -/
inductive StoreOp
  | addClient (client : Client)
  | addRemote (remote : RemoteStream) (peerAddr : SocketAddr)
  | disableClient (clientId : ClientId)
  | disableRemote (streamId : StreamId)
  | cleanup
  deriving DecidableEq, Repr

namespace Store

/-- One call. -/
def step (store : Store) : StoreOp → Store
  | .addClient client => store.addClient client
  | .addRemote remote peerAddr => store.addRemote remote peerAddr
  | .disableClient clientId => store.disableClient clientId
  | .disableRemote streamId => store.disableRemote streamId
  | .cleanup => store.cleanup

/-- A run of calls from `Store::new`. -/
def run (ops : List StoreOp) : Store := ops.foldl step new

@[simp] theorem run_append_singleton (ops : List StoreOp) (op : StoreOp) :
    run (ops ++ [op]) = (run ops).step op := by
  simp [run]

end Store

namespace StoreOp

/-- What a call does to the stream registry. -/
def onStreams : StoreOp → RegistryOp StreamId RemoteStream
  | .addRemote remote _ => .add remote.streamId remote
  | .disableRemote streamId => .disable streamId
  | .cleanup => .sweep
  | _ => .skip

/-- What a call does to the client registry. -/
def onClients : StoreOp → RegistryOp ClientId Client
  | .addClient client => .add client.clientId client
  | .disableClient clientId => .disable clientId
  | .cleanup => .sweep
  | _ => .skip

/-- The event a call is for the stream `streamId`. -/
def streamEvent (streamId : StreamId) (op : StoreOp) : LifeEvent :=
  op.onStreams.event RemoteStream.disabled streamId

/-- The event a call is for the client `clientId`. -/
def clientEvent (clientId : ClientId) (op : StoreOp) : LifeEvent :=
  op.onClients.event Client.disabled clientId

end StoreOp

/-- Every add of the run carries a fresh id: no two `add_remote` calls register the same stream
id, and no two `add_client` calls the same client id. -/
def FreshIds (ops : List StoreOp) : Prop :=
  FreshKeys StoreOp.onStreams ops ∧ FreshKeys StoreOp.onClients ops

instance (ops : List StoreOp) : Decidable (FreshIds ops) :=
  inferInstanceAs (Decidable (_ ∧ _))

namespace Store

theorem streams_step (store : Store) (op : StoreOp) :
    (store.step op).streams =
      op.onStreams.apply RemoteStream.disable RemoteStream.disabled store.streams := by
  cases op <;> rfl

theorem clients_step (store : Store) (op : StoreOp) :
    (store.step op).clients = op.onClients.apply Client.disable Client.disabled store.clients := by
  cases op <;> rfl

/-- The stream registry after a run is the registry run of the calls. -/
theorem streams_run (ops : List StoreOp) :
    (run ops).streams = runMap RemoteStream.disable RemoteStream.disabled StoreOp.onStreams ops :=
  (List.foldl_hom streams _ _ ops new fun store op ↦ (streams_step store op).symm).symm

/-- The client registry after a run is the registry run of the calls. -/
theorem clients_run (ops : List StoreOp) :
    (run ops).clients = runMap Client.disable Client.disabled StoreOp.onClients ops :=
  (List.foldl_hom clients _ _ ops new fun store op ↦ (clients_step store op).symm).symm

/-- The Store refines the lifecycle automaton of `Ownserver.Registry`: along every run, the
disabled flag each registry shows under an id is the flag of that id's phase. -/
theorem registries_refine_phases (ops : List StoreOp) :
    (∀ streamId, ((run ops).streams.lookup streamId).map RemoteStream.disabled =
      (phaseAlong RemoteStream.disabled StoreOp.onStreams streamId ops).flag) ∧
    (∀ clientId, ((run ops).clients.lookup clientId).map Client.disabled =
      (phaseAlong Client.disabled StoreOp.onClients clientId ops).flag) :=
  ⟨fun streamId ↦ by rw [streams_run, flag_runMap RemoteStream.disable_disabled],
    fun clientId ↦ by rw [clients_run, flag_runMap Client.disable_disabled]⟩

end Store

end Ownserver
