import Mathlib.Data.List.Perm.Subperm
import Ownserver.Store.Index

/-!
# The Store under concurrent calls

The methods of `Store` (`store.rs`) are not atomic. Every statement that takes one of the
registry locks, and every call on a side index, is its own critical section (`Access`), and the
calls of concurrent tasks interleave between them: `add_client` writes `clients` and then
`port_map`, `add_remote` writes `streams` and then `addrs_map`, `cleanup` sweeps `streams` and then
`clients`, and each `disable_*` is one section (`StoreOp.accesses`). `find_stream_id_by_addr`
reads `addrs_map` in one section and the stream registry in a later one
(`findStreamIdByAddrSplit`).

`Interleaves calls trace` is a schedule: at each point one call makes its next section, and every
call has made some first part of its sections when the trace stops. Along any schedule of calls
whose `add_remote` calls carry fresh stream ids, each stream id is added once
(`freshKeys_of_interleaves`), and every address is written only after the stream it names
(`Interleaves.addrsAfterStreams`).

`findStreamIdByAddr_linearizable` is the consequence for readers: when `find_stream_id_by_addr`
returns a stream, that stream was live at every point between its two reads, and the method run
atomically at its first read returns the same stream. A `None` answer has no such point in
general: a call can miss a live stream registered for the address at every moment of the call
(`findStreamIdByAddr_none_not_linearizable`).

Scope. The reads for the `gauge!` metrics and the `len` and `get_stream_ids` reads are single
sections that change nothing, and are not listed. `send_to_client` and `send_to_remote` hold one
lock for their whole body and change no field of the Store.
-/

set_option autoImplicit false
set_option relaxedAutoImplicit false

namespace Ownserver

/-- One critical section of a Store method: a statement under one of the registry locks, or one
call on a side index. -/
inductive Access
  | insertClient (client : Client)
  | insertPort (port : UInt16) (clientId : ClientId)
  | insertStream (remote : RemoteStream)
  | insertAddr (addr : SocketAddr) (streamId : StreamId)
  | disableStream (streamId : StreamId)
  | disableClient (clientId : ClientId)
  | retainStreams
  | retainClients
  deriving DecidableEq, Repr

/-- What a section does to the stream registry. -/
def Access.onStreams : Access → RegistryOp StreamId RemoteStream
  | .insertStream remote => .add remote.streamId remote
  | .disableStream streamId => .disable streamId
  | .retainStreams => .sweep
  | _ => .skip

/-- The critical sections of a method, in program order. -/
def StoreOp.accesses : StoreOp → List Access
  | .addClient client => [.insertClient client, .insertPort client.remotePort client.clientId]
  | .addRemote remote peerAddr => [.insertStream remote, .insertAddr peerAddr remote.streamId]
  | .disableClient clientId => [.disableClient clientId]
  | .disableRemote streamId => [.disableStream streamId]
  | .cleanup => [.retainStreams, .retainClients]

namespace Store

/-- One critical section. -/
def access (store : Store) : Access → Store
  | .insertClient client => { store with clients := store.clients.insert client.clientId client }
  | .insertPort port clientId => { store with portMap := store.portMap.insert port clientId }
  | .insertStream remote => { store with streams := store.streams.insert remote.streamId remote }
  | .insertAddr addr streamId => { store with addrsMap := store.addrsMap.insert addr streamId }
  | .disableStream streamId => store.disableRemote streamId
  | .disableClient clientId => store.disableClient clientId
  | .retainStreams =>
    { store with streams := store.streams.retain fun _ stream => !stream.disabled }
  | .retainClients =>
    { store with clients := store.clients.retain fun _ client => !client.disabled }

/-- The Store after a sequence of critical sections from `Store::new`. -/
def runAccesses (trace : List Access) : Store := trace.foldl access new

@[simp] theorem runAccesses_append_singleton (trace : List Access) (a : Access) :
    runAccesses (trace ++ [a]) = (runAccesses trace).access a := by
  simp [runAccesses]

theorem streams_access (store : Store) (a : Access) :
    (store.access a).streams =
      a.onStreams.apply RemoteStream.disable RemoteStream.disabled store.streams := by
  cases a <;> rfl

theorem addrsMap_access (store : Store) (a : Access) :
    (store.access a).addrsMap = match a with
      | .insertAddr addr streamId => store.addrsMap.insert addr streamId
      | _ => store.addrsMap := by
  cases a <;> rfl

/-- The stream registry after a sequence of sections is the registry run of their effects. -/
theorem streams_runAccesses (trace : List Access) :
    (runAccesses trace).streams =
      runMap RemoteStream.disable RemoteStream.disabled Access.onStreams trace :=
  (List.foldl_hom streams _ _ trace new fun store a ↦ (streams_access store a).symm).symm

/-- At every point of every schedule, each stream is keyed by its own id. -/
theorem keyedBy_runAccesses (trace : List Access) :
    KeyedBy RemoteStream.streamId (runAccesses trace).streams := by
  induction trace using List.reverseRecOn with
  | nil => exact fun _ _ h ↦ by simp [runAccesses, new] at h
  | append_singleton trace a ih =>
    rw [runAccesses_append_singleton, streams_access]
    refine RegistryOp.keyedBy_apply RemoteStream.disable_streamId (fun key value hadd ↦ ?_) ih
    cases a <;> simp [Access.onStreams] at hadd
    obtain ⟨rfl, rfl⟩ := hadd
    rfl

/-- An address is registered only by an `addrs_map` write of the sequence. -/
theorem exists_insertAddr_of_lookup {trace : List Access} {addr : SocketAddr}
    {streamId : StreamId} (h : (runAccesses trace).addrsMap.lookup addr = some streamId) :
    ∃ before after, trace = before ++ .insertAddr addr streamId :: after := by
  induction trace using List.reverseRecOn with
  | nil => simp [runAccesses, new] at h
  | append_singleton trace a ih =>
    rw [runAccesses_append_singleton, addrsMap_access] at h
    split at h
    next addr' streamId' =>
      rw [Map.lookup_insert_eq_ite] at h
      split_ifs at h with hsame
      · cases h
        subst hsame
        exact ⟨trace, [], rfl⟩
      · obtain ⟨before, after, rfl⟩ := ih h
        exact ⟨before, after ++ [.insertAddr addr' streamId'], by simp⟩
    next =>
      obtain ⟨before, after, rfl⟩ := ih h
      exact ⟨before, after ++ [a], by simp⟩

end Store

/-! ### Schedules -/

/-- `trace` is a schedule of the calls: at each point the call `i` makes the next of its
sections, and the schedule may stop at any point. Each element of `calls` is the list of sections
a call has still to make. -/
inductive Interleaves : List (List Access) → List Access → Prop
  | stop (calls : List (List Access)) : Interleaves calls []
  | next {calls : List (List Access)} (i : Nat) {a : Access} {rest : List Access}
      {trace : List Access} (hcall : calls[i]? = some (a :: rest)) :
      Interleaves (calls.set i rest) trace → Interleaves calls (a :: trace)

/-- The call picked by a scheduler splits the calls around it. -/
private theorem split_at_getElem? {calls : List (List Access)} {i : Nat} {l : List Access}
    (h : calls[i]? = some l) (l' : List Access) :
    calls = calls.take i ++ l :: calls.drop (i + 1) ∧
      calls.set i l' = calls.take i ++ l' :: calls.drop (i + 1) := by
  obtain ⟨hi, rfl⟩ := List.getElem?_eq_some_iff.mp h
  refine ⟨?_, by rw [List.set_eq_take_append_cons_drop, if_pos hi]⟩
  conv_lhs => rw [← List.take_append_drop i calls, List.drop_eq_getElem_cons hi]

/-- A schedule makes a sub-multiset of the calls' sections. -/
theorem Interleaves.subperm {calls : List (List Access)} {trace : List Access}
    (h : Interleaves calls trace) : trace.Subperm calls.flatten := by
  induction h with
  | stop => exact List.nil_subperm
  | @next calls i a rest trace hcall _ ih =>
    obtain ⟨hcalls, hset⟩ := split_at_getElem? hcall rest
    have hperm : calls.flatten.Perm (a :: (calls.set i rest).flatten) := by
      rw [hset]
      conv_lhs => rw [hcalls]
      simp
    exact ((List.subperm_cons a).mpr ih).trans hperm.symm.subperm

/-- The stream ids the calls add, section by section, are the ids their methods add. -/
theorem addedKeys_accesses (ops : List StoreOp) :
    (ops.map StoreOp.accesses).flatten.filterMap (fun a ↦ a.onStreams.addedKey) =
      ops.filterMap fun op ↦ op.onStreams.addedKey := by
  induction ops with
  | nil => rfl
  | cons op ops ih =>
    rw [List.map_cons, List.flatten_cons, List.filterMap_append, ih]
    cases op <;> rfl

/-- Along any schedule of calls whose `add_remote` calls carry fresh stream ids, every stream id
is added once. -/
theorem freshKeys_of_interleaves {ops : List StoreOp} (hfresh : FreshKeys StoreOp.onStreams ops)
    {trace : List Access} (h : Interleaves (ops.map StoreOp.accesses) trace) :
    FreshKeys Access.onStreams trace := by
  unfold FreshKeys at hfresh ⊢
  rw [← addedKeys_accesses] at hfresh
  obtain ⟨l, hperm, hsub⟩ := h.subperm
  exact (hperm.filterMap _).nodup_iff.mp (hfresh.sublist (hsub.filterMap _))

/-! ### Addresses after their streams -/

/-- Every `addrs_map` write of `trace` comes after the `streams` write of the stream it names:
earlier in `trace`, or in `past`. -/
def AddrsAfterStreams (past trace : List Access) : Prop :=
  ∀ before addr streamId after, trace = before ++ .insertAddr addr streamId :: after →
    ∃ remote, .insertStream remote ∈ past ++ before ∧ remote.streamId = streamId

theorem addrsAfterStreams_nil (past : List Access) : AddrsAfterStreams past [] := by
  intro before addr streamId after h
  simp at h

theorem addrsAfterStreams_cons {past : List Access} {a : Access} {trace : List Access} :
    AddrsAfterStreams past (a :: trace) ↔
      (∀ addr streamId, a = .insertAddr addr streamId →
        ∃ remote, .insertStream remote ∈ past ∧ remote.streamId = streamId) ∧
      AddrsAfterStreams (past ++ [a]) trace := by
  constructor
  · intro h
    refine ⟨fun addr streamId ha ↦ ?_, fun before addr streamId after htrace ↦ ?_⟩
    · simpa using h [] addr streamId trace (by rw [ha]; rfl)
    · simpa using h (a :: before) addr streamId after (by rw [htrace]; rfl)
  · rintro ⟨hhead, hrest⟩ before addr streamId after htrace
    rcases before with _ | ⟨b, before⟩
    · obtain ⟨rfl, rfl⟩ := List.cons.inj htrace
      simpa using hhead addr streamId rfl
    · obtain ⟨rfl, rfl⟩ := List.cons.inj htrace
      simpa using hrest before addr streamId after rfl

theorem AddrsAfterStreams.mono {past past' trace : List Access}
    (h : AddrsAfterStreams past trace) (hsub : past ⊆ past') : AddrsAfterStreams past' trace := by
  intro before addr streamId after htrace
  obtain ⟨remote, hmem, hid⟩ := h before addr streamId after htrace
  exact ⟨remote, List.mem_append.mpr ((List.mem_append.mp hmem).imp (fun h ↦ hsub h) id), hid⟩

/-- `add_remote` writes the stream before the address. -/
theorem addrsAfterStreams_accesses (op : StoreOp) : AddrsAfterStreams [] op.accesses := by
  cases op <;>
    simp [StoreOp.accesses, addrsAfterStreams_cons, addrsAfterStreams_nil]

/-- A schedule keeps every call's order of writes: if each call writes an address only after the
stream it names, so does the schedule. -/
theorem Interleaves.addrsAfterStreams {calls : List (List Access)} {trace : List Access}
    (h : Interleaves calls trace) {past : List Access}
    (hcalls : ∀ l ∈ calls, AddrsAfterStreams past l) : AddrsAfterStreams past trace := by
  induction h generalizing past with
  | stop => exact addrsAfterStreams_nil past
  | @next calls i a rest trace hcall _ ih =>
    obtain ⟨hhead, hrest⟩ := addrsAfterStreams_cons.mp (hcalls _ (List.getElem?_mem hcall))
    refine addrsAfterStreams_cons.mpr ⟨hhead, ih fun l hl ↦ ?_⟩
    rcases List.mem_or_eq_of_mem_set hl with hl | rfl
    · exact (hcalls l hl).mono (List.subset_append_left _ _)
    · exact hrest

/-! ### Linearizable reads -/

namespace Store

/-- `find_stream_id_by_addr` under concurrent calls. Along any schedule of calls whose
`add_remote` calls carry fresh stream ids, split where the method reads `addrs_map` (`pre`) and
where it reads the stream registry (`pre ++ mid`): if the method returns a stream, that stream was
registered and not disabled at every point in between, and the method run atomically at its first
read returns the same stream. -/
theorem findStreamIdByAddr_linearizable {ops : List StoreOp}
    (hfresh : FreshKeys StoreOp.onStreams ops) {pre mid : List Access}
    (hrun : Interleaves (ops.map StoreOp.accesses) (pre ++ mid)) (addr : SocketAddr)
    (streamId : StreamId)
    (hfound : findStreamIdByAddrSplit ((runAccesses pre).addrsMap.lookup addr)
      (runAccesses (pre ++ mid)) = some streamId) :
    (runAccesses pre).findStreamIdByAddr addr = some streamId ∧
      ∀ k, ((runAccesses (pre ++ mid.take k)).streams.lookup streamId).map
        RemoteStream.disabled = some false := by
  have hkeys := freshKeys_of_interleaves hfresh hrun
  have horder : AddrsAfterStreams [] (pre ++ mid) := hrun.addrsAfterStreams fun l hl ↦ by
    obtain ⟨op, -, rfl⟩ := List.mem_map.mp hl
    exact addrsAfterStreams_accesses op
  obtain ⟨haddr, hlive⟩ :=
    (findStreamIdByAddrSplit_eq_some_iff (keyedBy_runAccesses _) _ _).mp hfound
  -- the address was written in `pre`, after the stream it names
  obtain ⟨before, after, hpre⟩ := exists_insertAddr_of_lookup haddr
  obtain ⟨remote, hmem, hid⟩ :=
    horder before addr streamId (after ++ mid) (by rw [hpre]; simp)
  obtain ⟨first, second, rfl⟩ := List.append_of_mem (by simpa using hmem)
  -- so no later section adds the stream again
  have hsplit : pre ++ mid =
      first ++ .insertStream remote :: (second ++ .insertAddr addr streamId :: (after ++ mid)) := by
    rw [hpre]
    simp
  have hnoadd : ∀ born, LifeEvent.add born ∉
      eventsOf RemoteStream.disabled Access.onStreams streamId mid := fun born hborn ↦
    no_add_after_of_freshKeys (by rwa [hsplit] at hkeys) (by rw [← hid]; rfl) born
      (List.map_subset _ (fun x hx ↦ by simp [hx]) hborn)
  -- and the stream, live at the second read, was live at every point before it
  have hlive_at : ∀ k, phaseAlong RemoteStream.disabled Access.onStreams streamId
      (pre ++ mid.take k) = .live := by
    rw [streams_runAccesses, flag_runMap RemoteStream.disable_disabled,
      Phase.flag_eq_some_false_iff] at hlive
    exact phaseAlong_take_eq_live hnoadd hlive
  have hflag : ∀ k, ((runAccesses (pre ++ mid.take k)).streams.lookup streamId).map
      RemoteStream.disabled = some false := fun k ↦ by
    rw [streams_runAccesses, flag_runMap RemoteStream.disable_disabled, hlive_at k]
    rfl
  refine ⟨?_, hflag⟩
  rw [findStreamIdByAddr_eq_some_iff (keyedBy_runAccesses pre)]
  exact ⟨haddr, by simpa using hflag 0⟩

/-- The address both remote streams of the schedules below connect from. -/
def sharedPeer : SocketAddr := .v4 0x7f000001 40000

/-- Two `add_remote` calls from `sharedPeer`, of the streams `10` and `11` of client `1`, and a
`disable_remote` of `disabled`. -/
def twoRemotesFromPeer (disabled : StreamId) : List StoreOp :=
  [.addRemote ⟨⟨10⟩, ⟨1⟩, false⟩ sharedPeer, .addRemote ⟨⟨11⟩, ⟨1⟩, false⟩ sharedPeer,
    .disableRemote disabled]

/-- The first `add_remote` call's two sections: where the reader below reads the address. -/
def firstRemoteAdded : List Access :=
  [.insertStream ⟨⟨10⟩, ⟨1⟩, false⟩, .insertAddr sharedPeer ⟨10⟩]

/-- In `twoRemotesFromPeer ⟨11⟩`, the disable falls between the second call's two sections; the
method reads the address after the first call and the registry after the others, and returns the
first stream. -/
theorem findStreamIdByAddr_linearizable_interleaved :
    FreshKeys StoreOp.onStreams (twoRemotesFromPeer ⟨11⟩) ∧
      (runAccesses firstRemoteAdded).findStreamIdByAddr sharedPeer = some ⟨10⟩ :=
  ⟨by decide, (@findStreamIdByAddr_linearizable (twoRemotesFromPeer ⟨11⟩) (by decide)
    firstRemoteAdded
    [.insertStream ⟨⟨11⟩, ⟨1⟩, false⟩, .disableStream ⟨11⟩, .insertAddr sharedPeer ⟨11⟩]
    (.next 0 rfl (.next 0 rfl (.next 1 rfl (.next 2 rfl (.next 1 rfl (.stop _))))))
    _ _ (by decide)).1⟩

/-- The sections of `twoRemotesFromPeer ⟨10⟩` after `firstRemoteAdded`: the second call, then the
disable of the first stream. -/
def secondAddedFirstDisabled : List Access :=
  [.insertStream ⟨⟨11⟩, ⟨1⟩, false⟩, .insertAddr sharedPeer ⟨11⟩, .disableStream ⟨10⟩]

/-- A `None` answer is not linearizable. The method reads the address while the stream `10` is
registered for it and live; a second `add_remote` from the address and a `disable_remote` of `10`
run before its second read, and it returns `None`, although the method run atomically at any
point in between returns a live stream. -/
theorem findStreamIdByAddr_none_not_linearizable :
    Interleaves ((twoRemotesFromPeer ⟨10⟩).map StoreOp.accesses)
        (firstRemoteAdded ++ secondAddedFirstDisabled) ∧
      findStreamIdByAddrSplit ((runAccesses firstRemoteAdded).addrsMap.lookup sharedPeer)
        (runAccesses (firstRemoteAdded ++ secondAddedFirstDisabled)) = none ∧
      ∀ k ≤ 3, (runAccesses (firstRemoteAdded ++ secondAddedFirstDisabled.take k)).findStreamIdByAddr
          sharedPeer ≠ none :=
  ⟨.next 0 rfl (.next 0 rfl (.next 1 rfl (.next 1 rfl (.next 2 rfl (.stop _))))),
    by decide, by decide⟩

end Store

end Ownserver
