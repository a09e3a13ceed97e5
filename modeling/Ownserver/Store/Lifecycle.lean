import Ownserver.Store.Defs

/-!
# Two-phase deletion in the Store

The Store deletes in two phases: `disable_remote` and `disable_client` only mark an entry, and
`cleanup` drops every marked entry of both registries. Through `streams_run` and `clients_run`
the registries of a run are registry runs of `Ownserver.Registry`, so the discipline proved there
holds for the Store.

`StreamRegistered` and `ClientRegistered` say by position in the run when an id is registered:
some add registered it, and no `cleanup` has run since the entry became disabled (at its add, or
by a disable of the id before that cleanup). `mem_streams_run_iff` and `mem_clients_run_iff`
show, for runs whose adds carry fresh ids, that an id is present in its registry exactly then,
and `sendToRemote_eq_notAvailable_iff` and `sendToClient_eq_notAvailable_iff` that the sends
answer `*NotAvailable` exactly when the id is absent. `twoPhaseDeletion_run` assembles these
with the two monotonicity facts: at every step of such a run, no call removes an entry that is
not disabled, and no call clears a disabled flag.
-/

set_option autoImplicit false
set_option relaxedAutoImplicit false

namespace Ownserver

/-- Some `add_remote` of the run registered the stream `streamId`, and no `cleanup` has run since
the stream became disabled. -/
def StreamRegistered (ops : List StoreOp) (streamId : StreamId) : Prop :=
  ∃ pre remote peerAddr mid, ops = pre ++ .addRemote remote peerAddr :: mid ∧
    remote.streamId = streamId ∧ ¬ SweptIn remote.disabled (mid.map (StoreOp.streamEvent streamId))

/-- Some `add_client` of the run registered the client `clientId`, and no `cleanup` has run since
the client became disabled. -/
def ClientRegistered (ops : List StoreOp) (clientId : ClientId) : Prop :=
  ∃ pre client mid, ops = pre ++ .addClient client :: mid ∧
    client.clientId = clientId ∧ ¬ SweptIn client.disabled (mid.map (StoreOp.clientEvent clientId))

namespace StoreOp

theorem onStreams_eq_add {op : StoreOp} {streamId : StreamId} {remote : RemoteStream} :
    op.onStreams = .add streamId remote ↔
      ∃ peerAddr, op = .addRemote remote peerAddr ∧ remote.streamId = streamId := by
  cases op <;> simp [onStreams, and_comm, eq_comm]
  rintro rfl
  rfl

theorem onClients_eq_add {op : StoreOp} {clientId : ClientId} {client : Client} :
    op.onClients = .add clientId client ↔ op = .addClient client ∧ client.clientId = clientId := by
  cases op <;> simp [onClients, and_comm, eq_comm]
  rintro rfl
  rfl

end StoreOp

/-- A prefix of a run with fresh keys has fresh keys. -/
theorem FreshKeys.of_append {O K V : Type} {proj : O → RegistryOp K V} {pre post : List O}
    (h : FreshKeys proj (pre ++ post)) : FreshKeys proj pre := by
  unfold FreshKeys at h ⊢
  rw [List.filterMap_append] at h
  exact h.sublist (List.sublist_append_left _ _)

theorem FreshIds.of_append {pre post : List StoreOp} (h : FreshIds (pre ++ post)) :
    FreshIds pre :=
  ⟨h.1.of_append, h.2.of_append⟩

namespace Store

/-- With fresh ids, a stream is present after a run exactly while it is registered. -/
theorem mem_streams_run_iff {ops : List StoreOp} (hfresh : FreshIds ops) (streamId : StreamId) :
    streamId ∈ (run ops).streams ↔ StreamRegistered ops streamId := by
  rw [streams_run, mem_runMap_iff RemoteStream.disable_disabled hfresh.1]
  constructor
  · rintro ⟨pre, op, mid, remote, rfl, hop, hswept⟩
    obtain ⟨peerAddr, rfl, hid⟩ := StoreOp.onStreams_eq_add.mp hop
    exact ⟨pre, remote, peerAddr, mid, rfl, hid, hswept⟩
  · rintro ⟨pre, remote, peerAddr, mid, rfl, hid, hswept⟩
    exact ⟨pre, _, mid, remote, rfl, StoreOp.onStreams_eq_add.mpr ⟨peerAddr, rfl, hid⟩, hswept⟩

/-- With fresh ids, a client is present after a run exactly while it is registered. -/
theorem mem_clients_run_iff {ops : List StoreOp} (hfresh : FreshIds ops) (clientId : ClientId) :
    clientId ∈ (run ops).clients ↔ ClientRegistered ops clientId := by
  rw [clients_run, mem_runMap_iff Client.disable_disabled hfresh.2]
  constructor
  · rintro ⟨pre, op, mid, client, rfl, hop, hswept⟩
    obtain ⟨rfl, hid⟩ := StoreOp.onClients_eq_add.mp hop
    exact ⟨pre, client, mid, rfl, hid, hswept⟩
  · rintro ⟨pre, client, mid, rfl, hid, hswept⟩
    exact ⟨pre, _, mid, client, rfl, StoreOp.onClients_eq_add.mpr ⟨rfl, hid⟩, hswept⟩

/-- `send_to_remote` answers `StreamNotAvailable` exactly for an id with no stream. -/
theorem sendToRemote_eq_notAvailable_iff (store : Store) (streamId : StreamId)
    (message : StreamMessage) :
    store.sendToRemote streamId message = .error (.streamNotAvailable streamId) ↔
      streamId ∉ store.streams := by
  rw [← AList.lookup_eq_none, sendToRemote]
  cases store.streams.lookup streamId with
  | none => simp
  | some stream => by_cases h : stream.disabled <;> simp [RemoteStream.sendToRemote, h]

/-- `send_to_client` answers `ClientNotAvailable` exactly for an id with no client. -/
theorem sendToClient_eq_notAvailable_iff (store : Store) (clientId : ClientId)
    (packet : ControlPacket) :
    store.sendToClient clientId packet = .error (.clientNotAvailable clientId) ↔
      clientId ∉ store.clients := by
  rw [← AList.lookup_eq_none, sendToClient]
  cases store.clients.lookup clientId with
  | none => simp
  | some client => by_cases h : client.disabled <;> simp [Client.sendToClient, h]

/-- No call removes a stream or a client that is not disabled. -/
theorem mem_step_of_not_disabled (store : Store) (op : StoreOp) :
    (∀ streamId stream, store.streams.lookup streamId = some stream → stream.disabled = false →
      streamId ∈ (store.step op).streams) ∧
    (∀ clientId client, store.clients.lookup clientId = some client → client.disabled = false →
      clientId ∈ (store.step op).clients) := by
  refine ⟨fun streamId stream hlook hlive ↦ ?_, fun clientId client hlook hlive ↦ ?_⟩
  · rw [streams_step]
    exact RegistryOp.mem_apply_of_not_disabled _ hlook hlive
  · rw [clients_step]
    exact RegistryOp.mem_apply_of_not_disabled _ hlook hlive

/-- With fresh ids, no call clears the disabled flag of a stream or a client. -/
theorem disabled_run_append_singleton {ops : List StoreOp} {op : StoreOp}
    (hfresh : FreshIds (ops ++ [op])) :
    (∀ streamId stream stream', (run ops).streams.lookup streamId = some stream →
      stream.disabled = true → (run (ops ++ [op])).streams.lookup streamId = some stream' →
      stream'.disabled = true) ∧
    (∀ clientId client client', (run ops).clients.lookup clientId = some client →
      client.disabled = true → (run (ops ++ [op])).clients.lookup clientId = some client' →
      client'.disabled = true) := by
  refine ⟨fun streamId stream stream' hlook hdis hlook' ↦ ?_,
    fun clientId client client' hlook hdis hlook' ↦ ?_⟩
  · rw [streams_run] at hlook hlook'
    exact disabled_runMap_append_singleton RemoteStream.disable_disabled hfresh.1 hlook hdis hlook'
  · rw [clients_run] at hlook hlook'
    exact disabled_runMap_append_singleton Client.disable_disabled hfresh.2 hlook hdis hlook'

/-- Two-phase deletion along every run whose adds carry fresh ids. A stream is present exactly
from its `add_remote` until the first `cleanup` after it became disabled, and `send_to_remote`
answers `StreamNotAvailable` exactly outside that interval; the same holds of a client, its
`add_client` and `send_to_client`. At every step of the run, no call removes an entry that is
not disabled, and no call clears a disabled flag. -/
theorem twoPhaseDeletion_run {ops : List StoreOp} (hfresh : FreshIds ops) :
    (∀ streamId message,
      (streamId ∈ (run ops).streams ↔ StreamRegistered ops streamId) ∧
      ((run ops).sendToRemote streamId message = .error (.streamNotAvailable streamId) ↔
        ¬ StreamRegistered ops streamId)) ∧
    (∀ clientId packet,
      (clientId ∈ (run ops).clients ↔ ClientRegistered ops clientId) ∧
      ((run ops).sendToClient clientId packet = .error (.clientNotAvailable clientId) ↔
        ¬ ClientRegistered ops clientId)) ∧
    (∀ pre op post, ops = pre ++ op :: post →
      ((∀ streamId stream, (run pre).streams.lookup streamId = some stream →
          stream.disabled = false → streamId ∈ (run (pre ++ [op])).streams) ∧
        (∀ clientId client, (run pre).clients.lookup clientId = some client →
          client.disabled = false → clientId ∈ (run (pre ++ [op])).clients)) ∧
      ((∀ streamId stream stream', (run pre).streams.lookup streamId = some stream →
          stream.disabled = true → (run (pre ++ [op])).streams.lookup streamId = some stream' →
          stream'.disabled = true) ∧
        (∀ clientId client client', (run pre).clients.lookup clientId = some client →
          client.disabled = true → (run (pre ++ [op])).clients.lookup clientId = some client' →
          client'.disabled = true))) := by
  refine ⟨fun streamId message ↦ ⟨mem_streams_run_iff hfresh streamId, ?_⟩,
    fun clientId packet ↦ ⟨mem_clients_run_iff hfresh clientId, ?_⟩, ?_⟩
  · rw [sendToRemote_eq_notAvailable_iff, mem_streams_run_iff hfresh]
  · rw [sendToClient_eq_notAvailable_iff, mem_clients_run_iff hfresh]
  · rintro pre op post rfl
    rw [run_append_singleton]
    refine ⟨mem_step_of_not_disabled (run pre) op, ?_⟩
    rw [← run_append_singleton]
    have hprefix : FreshIds ((pre ++ [op]) ++ post) := by simpa using hfresh
    exact disabled_run_append_singleton hprefix.of_append

/-- A stream disabled and then swept is no longer registered. -/
theorem twoPhaseDeletion_run_swept :
    FreshIds [.addRemote ⟨⟨10⟩, ⟨1⟩, false⟩ (.v4 0x7f000001 40000), .disableRemote ⟨10⟩,
        .cleanup] ∧
      ¬ StreamRegistered [.addRemote ⟨⟨10⟩, ⟨1⟩, false⟩ (.v4 0x7f000001 40000),
        .disableRemote ⟨10⟩, .cleanup] ⟨10⟩ :=
  ⟨by decide, ((twoPhaseDeletion_run (by decide)).1 ⟨10⟩ .close).2.mp rfl⟩

end Store

end Ownserver
