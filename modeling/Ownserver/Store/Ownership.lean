import Ownserver.Store.Index

/-!
# Streams and their owning clients

§4.4 of the spec has `disable(client_id)` cascade to every stream the client owns. The Store
does not: `disable_client` marks the client and leaves the stream registry as it was
(`disableClient_streams`), and nothing in the Store reads a stream's owner. A run that adds a
client and one of its streams, disables the client and sweeps leaves the stream live, still
found by its peer address, while its client is gone (`disableClient_leaves_owned_stream_live`).

The cascade is left to the caller. `OwnersLive` is the ownership invariant: every stream that is
registered and not disabled is owned by a registered client that is not disabled. It holds along
every run whose calls are `Cascaded`: an `add_remote` names a live owner, an `add_client` brings
an id that is not registered, and a `disable_client` comes only once the client owns no live
stream (`ownersLive_run`). Then `find_stream_id_by_addr` never returns a stream whose client
has been disabled or swept.
-/

set_option autoImplicit false
set_option relaxedAutoImplicit false

namespace Ownserver

namespace Store

/-- Whether the client `clientId` is registered and not disabled. -/
def clientLive (store : Store) (clientId : ClientId) : Bool :=
  match store.clients.lookup clientId with
  | some client => !client.disabled
  | none => false

/-- Whether some stream of the client `clientId` is registered and not disabled. -/
def ownsLiveStream (store : Store) (clientId : ClientId) : Bool :=
  store.streams.entries.any fun entry => entry.2.clientId == clientId && !entry.2.disabled

/-- Every stream that is registered and not disabled is owned by a registered client that is not
disabled. -/
def OwnersLive (store : Store) : Prop :=
  ∀ streamId stream, store.streams.lookup streamId = some stream → stream.disabled = false →
    store.clientLive stream.clientId = true

theorem clientLive_eq_true_iff {store : Store} {clientId : ClientId} :
    store.clientLive clientId = true ↔
      ∃ client, store.clients.lookup clientId = some client ∧ client.disabled = false := by
  unfold clientLive
  cases store.clients.lookup clientId <;> simp

theorem ownsLiveStream_eq_false_iff {store : Store} {clientId : ClientId} :
    store.ownsLiveStream clientId = false ↔
      ∀ streamId stream, store.streams.lookup streamId = some stream →
        stream.clientId = clientId → stream.disabled = true := by
  simp only [ownsLiveStream, List.any_eq_false, Bool.and_eq_true, beq_iff_eq, Bool.not_eq_true',
    not_and, Bool.not_eq_false]
  constructor
  · intro h streamId stream hlook hid
    exact h ⟨streamId, stream⟩ (AList.mem_lookup_iff.mp hlook) hid
  · intro h entry hentry hid
    exact h entry.1 entry.2 (AList.mem_lookup_iff.mpr hentry) hid

end Store

namespace StoreOp

/-- The precondition of the ownership law as the spec states it: an `add_remote` names an owner
that is registered and not disabled when it is called. -/
def OwnerLiveAtAdd (store : Store) : StoreOp → Prop
  | .addRemote remote _ => store.clientLive remote.clientId = true
  | _ => True

/-- The caller's side of a cascading disable: an `add_remote` names a live owner, an `add_client`
brings an id that is not registered, and a `disable_client` comes only once the client owns no
live stream. -/
def Cascaded (store : Store) : StoreOp → Prop
  | .addRemote remote _ => store.clientLive remote.clientId = true
  | .addClient client => client.clientId ∉ store.clients
  | .disableClient clientId => store.ownsLiveStream clientId = false
  | _ => True

instance (store : Store) : (op : StoreOp) → Decidable (OwnerLiveAtAdd store op)
  | .addRemote remote _ => inferInstanceAs (Decidable (store.clientLive remote.clientId = true))
  | .addClient _ | .disableClient _ | .disableRemote _ | .cleanup => isTrue trivial

instance (store : Store) : (op : StoreOp) → Decidable (Cascaded store op)
  | .addRemote remote _ => inferInstanceAs (Decidable (store.clientLive remote.clientId = true))
  | .addClient client => inferInstanceAs (Decidable (client.clientId ∉ store.clients))
  | .disableClient clientId => inferInstanceAs (Decidable (store.ownsLiveStream clientId = false))
  | .disableRemote _ | .cleanup => isTrue trivial

end StoreOp

namespace Store

/-- A client listening on port 8080 and one stream of it from a local peer; then the client is
disabled and swept, with no cascade to its stream. -/
def sweptOwnerRun : List StoreOp :=
  [.addClient ⟨⟨1⟩, 8080, false⟩, .addRemote ⟨⟨10⟩, ⟨1⟩, false⟩ (.v4 0x7f000001 40000),
    .disableClient ⟨1⟩, .cleanup]

/-- No cascade: `sweptOwnerRun` names a live owner at its `add_remote`, and leaves the stream live
and found by its peer address while the owner is gone. -/
theorem disableClient_leaves_owned_stream_live :
    Along step StoreOp.OwnerLiveAtAdd new sweptOwnerRun ∧
      (run sweptOwnerRun).findStreamIdByAddr (.v4 0x7f000001 40000) = some ⟨10⟩ ∧
      ⟨1⟩ ∉ (run sweptOwnerRun).clients := by
  decide

/-- Every `Cascaded` call keeps the owners of the live streams live. -/
theorem ownersLive_step {store : Store} (h : OwnersLive store) {op : StoreOp}
    (hop : StoreOp.Cascaded store op) : OwnersLive (store.step op) := by
  intro streamId stream hlook hlive
  cases op with
  | addClient client =>
    have hold := h streamId stream hlook hlive
    have hne : stream.clientId ≠ client.clientId := by
      rintro hid
      obtain ⟨found, hfound, -⟩ := clientLive_eq_true_iff.mp hold
      exact hop (hid ▸ AList.lookup_isSome.mp (by simp [hfound]))
    simpa [clientLive, step, Map.lookup_insert_eq_ite, hne] using hold
  | addRemote remote peerAddr =>
    simp only [step, addRemote_streams, Map.lookup_insert_eq_ite] at hlook
    split_ifs at hlook with hid
    · cases hlook
      exact hop
    · exact h streamId stream hlook hlive
  | disableClient clientId =>
    have hold := h streamId stream hlook hlive
    have hne : stream.clientId ≠ clientId := fun hid ↦ by
      simp [ownsLiveStream_eq_false_iff.mp hop streamId stream hlook hid] at hlive
    simpa [clientLive, step, Map.lookup_modify_of_ne _ _ hne] using hold
  | disableRemote disabledId =>
    by_cases hid : streamId = disabledId
    · subst hid
      simp only [step, disableRemote_streams, Map.lookup_modify_self] at hlook
      obtain ⟨found, -, rfl⟩ := Option.map_eq_some'.mp hlook
      simp at hlive
    · rw [step, disableRemote_streams, Map.lookup_modify_of_ne _ _ hid] at hlook
      exact h streamId stream hlook hlive
  | cleanup =>
    rw [step, cleanup_streams, Map.lookup_retain, Option.filter_eq_some] at hlook
    obtain ⟨client, hclient, hclientLive⟩ :=
      clientLive_eq_true_iff.mp (h streamId stream hlook.1 hlive)
    simp [clientLive, step, hclient, hclientLive, Option.filter_some]

/-- The ownership law with the cascade left to the caller: along every run whose calls are
`Cascaded`, every stream that is registered and not disabled is owned by a registered client that
is not disabled, and `find_stream_id_by_addr` returns only streams whose client is registered and
not disabled. -/
theorem ownersLive_run {ops : List StoreOp} (hcalls : Along step StoreOp.Cascaded new ops) :
    OwnersLive (run ops) ∧
      ∀ addr streamId, (run ops).findStreamIdByAddr addr = some streamId →
        ∃ stream, (run ops).streams.lookup streamId = some stream ∧
          (run ops).clientLive stream.clientId = true := by
  have hinv : OwnersLive (run ops) :=
    @Along.foldl _ _ step StoreOp.Cascaded OwnersLive (fun _ _ h hop ↦ ownersLive_step h hop) ops
      new (fun _ _ h ↦ by simp [new] at h) hcalls
  refine ⟨hinv, fun addr streamId hfind ↦ ?_⟩
  obtain ⟨-, hflag⟩ := (findStreamIdByAddr_eq_some_iff (keysAgree_run ops).streams addr
    streamId).mp hfind
  obtain ⟨stream, hlook, hlive⟩ := Option.map_eq_some'.mp hflag
  exact ⟨stream, hlook, hinv streamId stream hlook hlive⟩

/-- The cascade done by the caller: the stream is disabled before its client. -/
theorem ownersLive_run_cascaded :
    Along step StoreOp.Cascaded new
        [.addClient ⟨⟨1⟩, 8080, false⟩, .addRemote ⟨⟨10⟩, ⟨1⟩, false⟩ (.v4 0x7f000001 40000),
          .disableRemote ⟨10⟩, .disableClient ⟨1⟩, .cleanup] ∧
      OwnersLive (run [.addClient ⟨⟨1⟩, 8080, false⟩,
        .addRemote ⟨⟨10⟩, ⟨1⟩, false⟩ (.v4 0x7f000001 40000), .disableRemote ⟨10⟩,
        .disableClient ⟨1⟩, .cleanup]) :=
  ⟨by decide, (ownersLive_run (by decide)).1⟩

end Store

end Ownserver
