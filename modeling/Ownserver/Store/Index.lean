import Ownserver.Store.Keys
import Ownserver.Store.Lifecycle

/-!
# The side indexes of the Store

`add_client` writes `port_map` and `add_remote` writes `addrs_map`, and no method of the Store
ever removes an entry from either: `cleanup` sweeps only the two registries. So after every run
`port_map` maps a port to the id of the most recent `add_client` whose client listens on it
(`portMap_run`), and `addrs_map` maps a peer address to the id of the most recent `add_remote`
from it (`addrsMap_run`), whether or not that client or stream has been swept since.
`cleanup_keeps_swept_port_entry` is such a run: the port entry outlives the client it names.
What does hold of a port entry whose client is still registered is that the client listens on
that port (`sideIndexes_run`, for runs whose adds carry fresh ids).

`find_stream_id_by_addr` reads `addrs_map` and then checks the stream registry, so the stale
entries are harmless to it: `findStreamIdByAddr_run` shows that it returns a stream exactly when
the most recent `add_remote` from the address registered that stream and the stream has since
been neither disabled nor swept.
-/

set_option autoImplicit false
set_option relaxedAutoImplicit false

namespace Ownserver

namespace StoreOp

/-- The stream an `add_remote` from the peer address `addr` registers. -/
def remoteAt (addr : SocketAddr) : StoreOp → Option RemoteStream
  | .addRemote remote peerAddr => if peerAddr = addr then some remote else none
  | _ => none

/-- The client an `add_client` registers, when the client listens on `port`. -/
def clientOnPort (port : UInt16) : StoreOp → Option Client
  | .addClient client => if client.remotePort = port then some client else none
  | _ => none

theorem remoteAt_eq_some_iff {addr : SocketAddr} {op : StoreOp} {remote : RemoteStream} :
    op.remoteAt addr = some remote ↔ op = .addRemote remote addr := by
  cases op <;> simp [remoteAt, and_comm, eq_comm]

theorem clientOnPort_eq_some_iff {port : UInt16} {op : StoreOp} {client : Client} :
    op.clientOnPort port = some client ↔ op = .addClient client ∧ client.remotePort = port := by
  cases op <;> simp [clientOnPort]
  constructor
  · rintro ⟨hport, rfl⟩
    exact ⟨rfl, hport⟩
  · rintro ⟨rfl, hport⟩
    exact ⟨hport, rfl⟩

theorem streamEvent_eq_disable_iff {streamId : StreamId} {op : StoreOp} :
    op.streamEvent streamId = .disable ↔ op = .disableRemote streamId := by
  cases op <;> simp [streamEvent, onStreams, RegistryOp.event]
  split <;> simp

end StoreOp

/-- The stream of the most recent `add_remote` from the peer address `addr`. -/
def latestRemote (addr : SocketAddr) (ops : List StoreOp) : Option RemoteStream :=
  ops.reverse.findSome? (StoreOp.remoteAt addr)

/-- The client of the most recent `add_client` whose client listens on `port`. -/
def latestOnPort (port : UInt16) (ops : List StoreOp) : Option Client :=
  ops.reverse.findSome? (StoreOp.clientOnPort port)

theorem latestRemote_append_singleton (addr : SocketAddr) (ops : List StoreOp) (op : StoreOp) :
    latestRemote addr (ops ++ [op]) = (op.remoteAt addr).or (latestRemote addr ops) := by
  simp only [latestRemote, List.reverse_append, List.reverse_singleton, List.singleton_append,
    List.findSome?_cons]
  cases op.remoteAt addr <;> rfl

theorem latestOnPort_append_singleton (port : UInt16) (ops : List StoreOp) (op : StoreOp) :
    latestOnPort port (ops ++ [op]) = (op.clientOnPort port).or (latestOnPort port ops) := by
  simp only [latestOnPort, List.reverse_append, List.reverse_singleton, List.singleton_append,
    List.findSome?_cons]
  cases op.clientOnPort port <;> rfl

/-- The most recent `add_remote` from `addr`, by position: it registered `remote`, and no
`add_remote` from `addr` came after it. -/
theorem latestRemote_eq_some_iff {addr : SocketAddr} {ops : List StoreOp} {remote : RemoteStream} :
    latestRemote addr ops = some remote ↔
      ∃ pre mid, ops = pre ++ .addRemote remote addr :: mid ∧
        ∀ remote', .addRemote remote' addr ∉ mid := by
  rw [latestRemote, List.findSome?_eq_some_iff]
  constructor
  · rintro ⟨after, op, before, hrev, hop, hafter⟩
    rw [StoreOp.remoteAt_eq_some_iff] at hop
    subst hop
    rw [List.reverse_eq_append_iff] at hrev
    refine ⟨before.reverse, after.reverse, by simp [hrev], fun remote' hmem ↦ ?_⟩
    have := hafter _ (List.mem_reverse.mp hmem)
    simp [StoreOp.remoteAt] at this
  · rintro ⟨pre, mid, rfl, hmid⟩
    refine ⟨mid.reverse, .addRemote remote addr, pre.reverse, by simp,
      StoreOp.remoteAt_eq_some_iff.mpr rfl, fun op hop ↦ ?_⟩
    cases hat : op.remoteAt addr with
    | none => rfl
    | some remote' =>
      rw [StoreOp.remoteAt_eq_some_iff] at hat
      exact absurd (List.mem_reverse.mp (hat ▸ hop)) (hmid remote')

namespace Store

/-- `addrs_map` maps each address to the id of the most recent `add_remote` from it. -/
theorem addrsMap_run (addr : SocketAddr) (ops : List StoreOp) :
    (run ops).addrsMap.lookup addr = (latestRemote addr ops).map RemoteStream.streamId := by
  induction ops using List.reverseRecOn with
  | nil => rfl
  | append_singleton ops op ih =>
    rw [run_append_singleton, latestRemote_append_singleton]
    cases op
    case addRemote remote peerAddr =>
      by_cases h : addr = peerAddr
      · simp [step, Map.lookup_insert_eq_ite, StoreOp.remoteAt, h]
      · simp [step, Map.lookup_insert_eq_ite, StoreOp.remoteAt, h, Ne.symm h, ih]
    all_goals simpa [step, StoreOp.remoteAt] using ih

/-- `port_map` maps each port to the id of the most recent `add_client` whose client listens on
it. -/
theorem portMap_run (port : UInt16) (ops : List StoreOp) :
    (run ops).portMap.lookup port = (latestOnPort port ops).map Client.clientId := by
  induction ops using List.reverseRecOn with
  | nil => rfl
  | append_singleton ops op ih =>
    rw [run_append_singleton, latestOnPort_append_singleton]
    cases op
    case addClient client =>
      by_cases h : port = client.remotePort
      · simp [step, Map.lookup_insert_eq_ite, StoreOp.clientOnPort, h]
      · simp [step, Map.lookup_insert_eq_ite, StoreOp.clientOnPort, h, Ne.symm h, ih]
    all_goals simpa [step, StoreOp.clientOnPort] using ih

/-- A client listening on port 8080, then disabled and swept. -/
def sweptPortRun : List StoreOp := [.addClient ⟨⟨1⟩, 8080, false⟩, .disableClient ⟨1⟩, .cleanup]

/-- `cleanup` does not touch the side indexes: `sweptPortRun` leaves its port entry behind, naming
a client that is no longer registered. -/
theorem cleanup_keeps_swept_port_entry :
    FreshIds sweptPortRun ∧ (run sweptPortRun).portMap.lookup 8080 = some ⟨1⟩ ∧
      ⟨1⟩ ∉ (run sweptPortRun).clients := by
  decide

/-- The side indexes along a run whose adds carry fresh ids: `port_map` maps each port to the id
of the most recent `add_client` whose client listens on it, and that client, while it is still
registered, listens on the port; `addrs_map` maps each address to the id of the most recent
`add_remote` from it. Swept clients and streams keep their entries. -/
theorem sideIndexes_run {ops : List StoreOp} (hfresh : FreshIds ops) :
    (∀ port, (run ops).portMap.lookup port = (latestOnPort port ops).map Client.clientId) ∧
    (∀ port clientId client, (run ops).portMap.lookup port = some clientId →
      (run ops).clients.lookup clientId = some client → client.remotePort = port) ∧
    (∀ addr, (run ops).addrsMap.lookup addr =
      (latestRemote addr ops).map RemoteStream.streamId) := by
  refine ⟨fun port ↦ portMap_run port ops, fun port clientId client hport hclient ↦ ?_,
    fun addr ↦ addrsMap_run addr ops⟩
  rw [portMap_run] at hport
  obtain ⟨latest, hlatest, rfl⟩ := Option.map_eq_some'.mp hport
  obtain ⟨after, op, before, hrev, hop, -⟩ := List.findSome?_eq_some_iff.mp hlatest
  have hmem : op ∈ ops := List.mem_reverse.mp (hrev ▸ List.mem_append_right _
    (List.mem_cons_self _ _))
  obtain ⟨rfl, hlisten⟩ := StoreOp.clientOnPort_eq_some_iff.mp hop
  rw [clients_run] at hclient
  obtain ⟨op', hop', added, hadded, hremote⟩ :=
    exists_add_of_lookup_runMap Client.disable_remotePort hclient
  have hsame := FreshKeys.eq_of_add hfresh.2 hmem hop'
    (show (StoreOp.addClient latest).onClients.addedKey = some latest.clientId from rfl)
    (by rw [hadded]; rfl)
  subst hsame
  simp only [StoreOp.onClients, RegistryOp.add.injEq] at hadded
  rw [hremote, ← hadded.2, hlisten]

/-- A port taken again after its first client was swept maps to the new client. -/
theorem sideIndexes_run_port_reused :
    FreshIds (sweptPortRun ++ [.addClient ⟨⟨2⟩, 8080, false⟩]) ∧
      (run (sweptPortRun ++ [.addClient ⟨⟨2⟩, 8080, false⟩])).portMap.lookup 8080 = some ⟨2⟩ :=
  ⟨by decide, ((sideIndexes_run (by decide)).1 8080).trans (by decide)⟩

/-- With nothing in between, the two reads of `find_stream_id_by_addr` are the method. -/
theorem findStreamIdByAddr_eq_split (store : Store) (addr : SocketAddr) :
    store.findStreamIdByAddr addr =
      findStreamIdByAddrSplit (store.addrsMap.lookup addr) store := rfl

/-- The split read returns a stream exactly when the address read named it and the later read
finds it registered and not disabled. -/
theorem findStreamIdByAddrSplit_eq_some_iff {later : Store}
    (h : KeyedBy RemoteStream.streamId later.streams) (addrRead : Option StreamId)
    (streamId : StreamId) :
    findStreamIdByAddrSplit addrRead later = some streamId ↔
      addrRead = some streamId ∧
        (later.streams.lookup streamId).map RemoteStream.disabled = some false := by
  cases addrRead with
  | none => simp [findStreamIdByAddrSplit]
  | some key =>
    dsimp only [findStreamIdByAddrSplit]
    cases hlook : later.streams.lookup key with
    | none =>
      simp only [Option.some.injEq, reduceCtorEq, false_iff, not_and]
      rintro rfl
      simp [hlook]
    | some stream =>
      have hid : stream.streamId = key := h key stream hlook
      constructor
      · intro hfound
        have hlive : stream.disabled = false := by
          cases hdis : stream.disabled <;> simp_all
        have hkey : key = streamId := by simpa [hlive, hid] using hfound
        subst hkey
        exact ⟨rfl, by simp [hlook, hlive]⟩
      · rintro ⟨hkey, hflag⟩
        obtain rfl := Option.some.inj hkey
        rw [hlook, Option.map_some', Option.some.injEq] at hflag
        simp [hflag, hid]

/-- Where streams are keyed by their own ids, `find_stream_id_by_addr` returns the id registered
for the address exactly when the registry holds that stream and it is not disabled. -/
theorem findStreamIdByAddr_eq_some_iff {store : Store}
    (h : KeyedBy RemoteStream.streamId store.streams) (addr : SocketAddr) (streamId : StreamId) :
    store.findStreamIdByAddr addr = some streamId ↔
      store.addrsMap.lookup addr = some streamId ∧
        (store.streams.lookup streamId).map RemoteStream.disabled = some false := by
  rw [findStreamIdByAddr_eq_split]
  exact findStreamIdByAddrSplit_eq_some_iff h _ _

/-- `find_stream_id_by_addr` along a run whose `add_remote` calls carry fresh stream ids: it
returns `streamId` exactly when the most recent `add_remote` from the address registered the
stream `streamId`, and the stream has since been neither disabled (at its add, or by
`disable_remote`) nor swept. -/
theorem findStreamIdByAddr_run {ops : List StoreOp} (hfresh : FreshKeys StoreOp.onStreams ops)
    (addr : SocketAddr) (streamId : StreamId) :
    (run ops).findStreamIdByAddr addr = some streamId ↔
      ∃ pre remote mid, ops = pre ++ .addRemote remote addr :: mid ∧
        (∀ remote', .addRemote remote' addr ∉ mid) ∧ remote.streamId = streamId ∧
        remote.disabled = false ∧ .disableRemote streamId ∉ mid ∧
        ¬ SweptIn remote.disabled (mid.map (StoreOp.streamEvent streamId)) := by
  rw [findStreamIdByAddr_eq_some_iff (keysAgree_run ops).streams, addrsMap_run, streams_run,
    flag_runMap RemoteStream.disable_disabled]
  have hdisable (mid : List StoreOp) :
      LifeEvent.disable ∉ mid.map (StoreOp.streamEvent streamId) ↔
        .disableRemote streamId ∉ mid := by
    simp [StoreOp.streamEvent_eq_disable_iff]
  constructor
  · rintro ⟨hlatest, hlive⟩
    obtain ⟨remote, hremote, rfl⟩ := Option.map_eq_some'.mp hlatest
    obtain ⟨pre, mid, rfl, hmid⟩ := latestRemote_eq_some_iff.mp hremote
    have hnoadd : ∀ born, LifeEvent.add born ∉ mid.map (StoreOp.streamEvent remote.streamId) :=
      no_add_after_of_freshKeys hfresh rfl
    rw [phaseAlong_add (show (StoreOp.addRemote remote addr).onStreams = .add remote.streamId remote
      from rfl), Phase.flag_eq_some_false_iff] at hlive
    obtain ⟨hborn, hdis⟩ := (foldl_born_eq_live_iff hnoadd _).mp hlive
    refine ⟨pre, remote, mid, rfl, hmid, rfl, hborn, (hdisable mid).mp hdis, ?_⟩
    rw [hborn]
    exact not_sweptIn_false hdis
  · rintro ⟨pre, remote, mid, rfl, hmid, rfl, hborn, hdis, -⟩
    have hnoadd : ∀ born, LifeEvent.add born ∉ mid.map (StoreOp.streamEvent remote.streamId) :=
      no_add_after_of_freshKeys hfresh rfl
    refine ⟨by rw [latestRemote_eq_some_iff.mpr ⟨pre, mid, rfl, hmid⟩]; rfl, ?_⟩
    rw [phaseAlong_add (show (StoreOp.addRemote remote addr).onStreams = .add remote.streamId remote
      from rfl), Phase.flag_eq_some_false_iff]
    exact (foldl_born_eq_live_iff hnoadd _).mpr ⟨hborn, (hdisable mid).mpr hdis⟩

/-- Of two streams opened from one address, the second is the one found. -/
theorem findStreamIdByAddr_run_latest :
    FreshKeys StoreOp.onStreams [.addRemote ⟨⟨10⟩, ⟨1⟩, false⟩ (.v4 0x7f000001 40000),
        .addRemote ⟨⟨11⟩, ⟨1⟩, false⟩ (.v4 0x7f000001 40000)] ∧
      (run [.addRemote ⟨⟨10⟩, ⟨1⟩, false⟩ (.v4 0x7f000001 40000),
        .addRemote ⟨⟨11⟩, ⟨1⟩, false⟩ (.v4 0x7f000001 40000)]).findStreamIdByAddr
          (.v4 0x7f000001 40000) = some ⟨11⟩ :=
  ⟨by decide, (findStreamIdByAddr_run (by decide) _ _).mpr
    ⟨[.addRemote ⟨⟨10⟩, ⟨1⟩, false⟩ (.v4 0x7f000001 40000)], ⟨⟨11⟩, ⟨1⟩, false⟩, [], rfl,
      fun _ ↦ List.not_mem_nil _, rfl, rfl, List.not_mem_nil _, not_sweptIn_nil _⟩⟩

end Store

end Ownserver
