import Ownserver.Store.Defs

/-!
# Every registry entry is keyed by its own id

`add_client` and `add_remote` insert an entry under the id they read from it, and `disable()`
changes only the flag, so in every reachable state each stream of the Store is keyed by its own
`stream_id()` and each client by its own `client_id` (`keysAgree_run`). Nothing here needs fresh
ids: a second add under an id replaces the entry with one carrying the same id.

`find_stream_id_by_addr` returns the stored stream's own id rather than the key it looked up,
and `get_stream_ids` lists the stored streams' own ids, so both rest on this invariant.
`getStreamIds_eq_keys` reads `get_stream_ids` as the list of keys of the stream registry, which
has no duplicate and as many elements as `len_streams()` (`getStreamIds_run`).
-/

set_option autoImplicit false
set_option relaxedAutoImplicit false

namespace Ownserver

/-- Assumes: an add puts its entry under the entry's own id, and `disable` keeps the id. Every
registry operation keeps each entry keyed by its own id. -/
theorem RegistryOp.keyedBy_apply {K V : Type} [DecidableEq K] {idOf : V → K} {disable : V → V}
    {disabled : V → Bool} (hdisable : ∀ value, idOf (disable value) = idOf value)
    {op : RegistryOp K V} (hadd : ∀ key value, op = .add key value → idOf value = key)
    {m : Map K V} (hm : KeyedBy idOf m) : KeyedBy idOf (op.apply disable disabled m) := by
  intro key value hlook
  rcases lookup_apply_eq_some hdisable op hlook with rfl | ⟨found, hfound, hsame⟩
  · exact hadd key value rfl
  · exact hsame.trans (hm key found hfound)

namespace Store

/-- Each stream of the Store is keyed by its own `stream_id()`, each client by its own
`client_id`. -/
structure KeysAgree (store : Store) : Prop where
  streams : KeyedBy RemoteStream.streamId store.streams
  clients : KeyedBy Client.clientId store.clients

theorem keysAgree_new : KeysAgree new :=
  ⟨fun _ _ h ↦ by simp [new] at h, fun _ _ h ↦ by simp [new] at h⟩

theorem keysAgree_step {store : Store} (h : KeysAgree store) (op : StoreOp) :
    KeysAgree (store.step op) := by
  constructor
  · rw [streams_step]
    refine RegistryOp.keyedBy_apply RemoteStream.disable_streamId ?_ h.streams
    intro key value hop
    cases op <;> simp [StoreOp.onStreams] at hop
    obtain ⟨rfl, rfl⟩ := hop
    rfl
  · rw [clients_step]
    refine RegistryOp.keyedBy_apply Client.disable_clientId ?_ h.clients
    intro key value hop
    cases op <;> simp [StoreOp.onClients] at hop
    obtain ⟨rfl, rfl⟩ := hop
    rfl

/-- In every reachable state, each entry is keyed by its own id. -/
theorem keysAgree_run (ops : List StoreOp) : KeysAgree (run ops) := by
  induction ops using List.reverseRecOn with
  | nil => exact keysAgree_new
  | append_singleton ops op ih =>
    rw [run_append_singleton]
    exact keysAgree_step ih op

/-- Where streams are keyed by their own ids, `get_stream_ids` lists the keys of the stream
registry. -/
theorem getStreamIds_eq_keys {store : Store} (h : KeyedBy RemoteStream.streamId store.streams) :
    store.getStreamIds = store.streams.keys := by
  unfold getStreamIds AList.keys List.keys
  refine List.map_congr_left fun entry hentry ↦ h entry.1 entry.2 ?_
  exact AList.mem_lookup_iff.mpr hentry

/-- In every reachable state, each stream is keyed by its own `stream_id()` and each client by
its own `client_id`; `get_stream_ids` is the list of keys of the stream registry, without a
duplicate, with the stream registry's keys as its elements, and of length `len_streams()`. -/
theorem getStreamIds_run (ops : List StoreOp) :
    KeysAgree (run ops) ∧ (run ops).getStreamIds = (run ops).streams.keys ∧
      (run ops).getStreamIds.Nodup ∧
      (∀ streamId, streamId ∈ (run ops).getStreamIds ↔ streamId ∈ (run ops).streams) ∧
      (run ops).getStreamIds.length = (run ops).lenStreams := by
  have hkeys := getStreamIds_eq_keys (keysAgree_run ops).streams
  refine ⟨keysAgree_run ops, hkeys, hkeys ▸ AList.keys_nodup _,
    fun streamId ↦ by rw [hkeys, AList.mem_keys], ?_⟩
  simp [getStreamIds, lenStreams, Map.len]

end Store

end Ownserver
