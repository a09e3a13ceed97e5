import Ownserver.Basic

/-!
# The connection registry of `proxy_server`

`Connections` (`connected_clients.rs`) keeps the connected clients twice: by id in `clients` and
by host in `hosts`, both `DashMap`s. `add` writes both. `remove` takes a client value and drops
whatever is registered under that value's host and under its id. `remove_by_id` first looks the id
up and, when it finds a client, drops that client's host and then its id; but the `Ref` its `get`
returned still holds the shard of the id, so the removal of the id waits forever and the call
never returns. `removeById` is the state that call leaves. Each method here is one atomic step;
`Ownserver.Connections.Shared` runs them section by section under the locks of the two `DashMap`s,
shows that called one after another they do what these steps do, and that a `remove_by_id` of a
registered id stops in the state `removeById` gives. Of `ConnectedClient`'s channel, the methods
here only close it (`remove` and `remove_by_id`); it is modelled in `Ownserver.Forwarding`.

The two removals differ when the value passed to `remove` is not the client registered under its
id. A client removed once, whose host is then taken by another client, takes that other client's
host entry with it when it is removed again (`remove_stale_client_differs_from_removeById`), and
the indexes stop agreeing: the other client is registered by id but not found by its host
(`remove_stale_client_unregisters_host`). Removing the same client twice in a row does nothing the
second time (`remove_remove`).

What holds is the agreement of the indexes along every run whose calls are `Registered`: every
`add` brings an id and a host that are not registered, every `remove` names the client registered
under its id, and every `remove_by_id` names an id that is not registered, so that it returns
(`indexesAgree_run`). `Consistent` is the invariant behind it, kept by every such call
(`consistent_step`).
-/

set_option autoImplicit false
set_option relaxedAutoImplicit false

namespace Ownserver

/-- `ConnectedClient`: the client's id and the host it is reached under. -/
structure ConnectedClient where
  id : ClientId
  host : String
  deriving DecidableEq, Repr

/-- `Connections`: the clients by id and by host. -/
structure Connections where
  clients : Map ClientId ConnectedClient
  hosts : Map String ConnectedClient

namespace Connections

/-- `Connections::new`: both maps empty. -/
def new : Connections := ⟨∅, ∅⟩

/-- `Connections::remove`: drop the entries under the client's host and under its id. -/
@[simps]
def remove (conn : Connections) (client : ConnectedClient) : Connections :=
  { hosts := conn.hosts.erase client.host
    clients := conn.clients.erase client.id }

/-- `Connections::remove_by_id`. An unknown id changes nothing. For a registered id the method
never returns: it removes the registered client's host, then waits at `self.clients.remove` for
the shard lock that its own `get` still holds (`Ownserver.Shared.World.removeById_never_returns`).
This is the state it leaves: the host removed and the id still registered. -/
def removeById (conn : Connections) (clientId : ClientId) : Connections :=
  match conn.clients.lookup clientId with
  | some client => { conn with hosts := conn.hosts.erase client.host }
  | none => conn

/-- `Connections::get`. -/
def get (conn : Connections) (clientId : ClientId) : Option ConnectedClient :=
  conn.clients.lookup clientId

/-- `Connections::find_by_host`. -/
def findByHost (conn : Connections) (host : String) : Option ConnectedClient :=
  conn.hosts.lookup host

/-- `Connections::add`: register the client under its id and under its host. -/
@[simps]
def add (conn : Connections) (client : ConnectedClient) : Connections :=
  { clients := conn.clients.insert client.id client
    hosts := conn.hosts.insert client.host client }

/-- `Connections::clear`: empty both maps. -/
def clear (_conn : Connections) : Connections := ⟨∅, ∅⟩

/-- `Connections::len_clients`. -/
def lenClients (conn : Connections) : Nat := conn.clients.len

/-- `Connections::len_hosts`. -/
def lenHosts (conn : Connections) : Nat := conn.hosts.len

/-- Removing the same client twice in a row removes nothing the second time. -/
theorem remove_remove (conn : Connections) (client : ConnectedClient) :
    (conn.remove client).remove client = conn.remove client := by
  have herase {K : Type} [DecidableEq K] (key : K) (m : Map K ConnectedClient) :
      (m.erase key).erase key = m.erase key :=
    AList.ext (List.kerase_of_not_mem_keys (List.not_mem_keys_kerase key m.nodupKeys))
  simp only [remove, herase]

end Connections

/-! ### Runs -/

/-- A call of one of the mutating methods of `Connections`. -/
inductive ConnectionsOp
  | add (client : ConnectedClient)
  | remove (client : ConnectedClient)
  | removeById (clientId : ClientId)
  | clear
  deriving DecidableEq, Repr

namespace Connections

/-- One call. -/
def step (conn : Connections) : ConnectionsOp → Connections
  | .add client => conn.add client
  | .remove client => conn.remove client
  | .removeById clientId => conn.removeById clientId
  | .clear => conn.clear

/-- A run of calls from `Connections::new`. -/
def run (ops : List ConnectionsOp) : Connections := ops.foldl step new

end Connections

namespace ConnectionsOp

/-- An `add` brings an id and a host that are not registered. -/
def FreshAdd (conn : Connections) : ConnectionsOp → Prop
  | .add client => client.id ∉ conn.clients ∧ client.host ∉ conn.hosts
  | _ => True

/-- `FreshAdd`; a `remove` names the client registered under its id; and a `remove_by_id` names
an id that is not registered, the only case in which the method returns. -/
def Registered (conn : Connections) : ConnectionsOp → Prop
  | .add client => client.id ∉ conn.clients ∧ client.host ∉ conn.hosts
  | .remove client => conn.get client.id = some client
  | .removeById clientId => conn.get clientId = none
  | .clear => True

instance (conn : Connections) : (op : ConnectionsOp) → Decidable (FreshAdd conn op)
  | .add client =>
    inferInstanceAs (Decidable (client.id ∉ conn.clients ∧ client.host ∉ conn.hosts))
  | .remove _ | .removeById _ | .clear => isTrue trivial

instance (conn : Connections) : (op : ConnectionsOp) → Decidable (Registered conn op)
  | .add client =>
    inferInstanceAs (Decidable (client.id ∉ conn.clients ∧ client.host ∉ conn.hosts))
  | .remove client => inferInstanceAs (Decidable (conn.get client.id = some client))
  | .removeById clientId => inferInstanceAs (Decidable (conn.get clientId = none))
  | .clear => isTrue trivial

end ConnectionsOp

namespace Connections

/-- The stale remove, as a run: the client `1` added under the host `foobar` and removed, and the
client `2` added under the same host. -/
def staleRemoveRun : List ConnectionsOp :=
  [.add ⟨⟨1⟩, "foobar"⟩, .remove ⟨⟨1⟩, "foobar"⟩, .add ⟨⟨2⟩, "foobar"⟩]

/-- The state after the stale remove: `staleRemoveRun`, then the client `1` removed once more. -/
def staleRemoved : Connections := run (staleRemoveRun ++ [.remove ⟨⟨1⟩, "foobar"⟩])

/-- After `staleRemoveRun`, `remove` of the client `1` takes the host of the client `2`, where
`remove_by_id` of the id `1` finds nothing. -/
theorem remove_stale_client_differs_from_removeById :
    (run staleRemoveRun).get ⟨1⟩ = none ∧
      ((run staleRemoveRun).remove ⟨⟨1⟩, "foobar"⟩).findByHost ("foobar") = none ∧
      ((run staleRemoveRun).removeById ⟨1⟩).findByHost ("foobar") = some ⟨⟨2⟩, "foobar"⟩ := by
  decide

/-- The stale remove breaks the agreement of the indexes, along a run whose every `add` brings an
id and a host that are not registered. -/
theorem remove_stale_client_unregisters_host :
    Along step ConnectionsOp.FreshAdd new (staleRemoveRun ++ [.remove ⟨⟨1⟩, "foobar"⟩]) ∧
      staleRemoved.get ⟨2⟩ = some ⟨⟨2⟩, "foobar"⟩ ∧ staleRemoved.findByHost ("foobar") = none ∧
      staleRemoved.lenHosts = 0 ∧ staleRemoved.lenClients = 1 := by
  decide

/-- The two indexes hold the same clients, each keyed by its own id in `clients` and by its own
host in `hosts`. -/
structure Consistent (conn : Connections) : Prop where
  clients_keyed : KeyedBy ConnectedClient.id conn.clients
  hosts_keyed : KeyedBy ConnectedClient.host conn.hosts
  hosts_registered : ∀ host client, conn.hosts.lookup host = some client →
    conn.clients.lookup client.id = some client
  clients_hosted : ∀ clientId client, conn.clients.lookup clientId = some client →
    conn.hosts.lookup client.host = some client

theorem consistent_new : Consistent new :=
  ⟨fun _ _ h ↦ by simp [new] at h, fun _ _ h ↦ by simp [new] at h,
    fun _ _ h ↦ by simp [new] at h, fun _ _ h ↦ by simp [new] at h⟩

theorem consistent_add {conn : Connections} (h : Consistent conn) {client : ConnectedClient}
    (hid : client.id ∉ conn.clients) (hhost : client.host ∉ conn.hosts) :
    Consistent (conn.add client) := by
  rw [← AList.lookup_eq_none] at hid hhost
  refine ⟨h.clients_keyed.insert client, h.hosts_keyed.insert client, ?_, ?_⟩
  · intro host found hlook
    rw [add_hosts, Map.lookup_insert_eq_ite] at hlook
    rw [add_clients, Map.lookup_insert_eq_ite]
    split_ifs at hlook with heq
    · cases hlook
      simp
    · have hreg := h.hosts_registered _ _ hlook
      have hne : found.id ≠ client.id := fun hsame ↦ by
        rw [hsame, hid] at hreg
        cases hreg
      simp [hne, hreg]
  · intro clientId found hlook
    rw [add_clients, Map.lookup_insert_eq_ite] at hlook
    rw [add_hosts, Map.lookup_insert_eq_ite]
    split_ifs at hlook with heq
    · cases hlook
      simp
    · have hhosted := h.clients_hosted _ _ hlook
      have hne : found.host ≠ client.host := fun hsame ↦ by
        rw [hsame, hhost] at hhosted
        cases hhosted
      simp [hne, hhosted]

theorem consistent_remove {conn : Connections} (h : Consistent conn) {client : ConnectedClient}
    (hreg : conn.get client.id = some client) : Consistent (conn.remove client) := by
  have hhosted := h.clients_hosted _ _ hreg
  refine ⟨h.clients_keyed.erase client.id, h.hosts_keyed.erase client.host, ?_, ?_⟩
  · intro host found hlook
    rw [remove_hosts, Map.lookup_erase_eq_ite] at hlook
    split_ifs at hlook with hother
    have hfound := h.hosts_registered _ _ hlook
    have hne : found.id ≠ client.id := by
      rintro hsame
      have : found = client := Option.some.inj (hfound.symm.trans (hsame ▸ hreg))
      exact hother (h.hosts_keyed _ _ hlook ▸ this ▸ rfl)
    simp [Map.lookup_erase_eq_ite, hne, hfound]
  · intro clientId found hlook
    rw [remove_clients, Map.lookup_erase_eq_ite] at hlook
    split_ifs at hlook with hother
    have hfound := h.clients_hosted _ _ hlook
    have hne : found.host ≠ client.host := by
      rintro hsame
      have : found = client := Option.some.inj (hfound.symm.trans (hsame ▸ hhosted))
      exact hother (h.clients_keyed _ _ hlook ▸ this ▸ rfl)
    simp [Map.lookup_erase_eq_ite, hne, hfound]

/-- Every `Registered` call keeps the indexes consistent. -/
theorem consistent_step {conn : Connections} (h : Consistent conn) {op : ConnectionsOp}
    (hop : ConnectionsOp.Registered conn op) : Consistent (conn.step op) := by
  cases op with
  | add client => exact consistent_add h hop.1 hop.2
  | remove client => exact consistent_remove h hop
  | removeById clientId =>
    show Consistent (conn.removeById clientId)
    rw [removeById, show conn.clients.lookup clientId = none from hop]
    exact h
  | clear => exact consistent_new

/-- Consistent indexes have as many hosts as clients. -/
theorem Consistent.lenHosts_eq {conn : Connections} (h : Consistent conn) :
    conn.lenHosts = conn.lenClients := by
  have hperm : conn.hosts.values.Perm conn.clients.values := by
    refine (List.perm_ext_iff_of_nodup h.hosts_keyed.nodup_values
      h.clients_keyed.nodup_values).mpr fun client ↦ ?_
    rw [h.hosts_keyed.mem_values_iff, h.clients_keyed.mem_values_iff]
    exact ⟨h.hosts_registered _ _, h.clients_hosted _ _⟩
  rw [lenHosts, lenClients, ← Map.length_values, ← Map.length_values, hperm.length_eq]

/-- The agreement of the two indexes along every run whose calls are `Registered`: a client found
by a host is registered under its id with that host, a client registered under an id is found
by its host with that id, and there are as many hosts as clients. -/
theorem indexesAgree_run {ops : List ConnectionsOp}
    (hcalls : Along step ConnectionsOp.Registered new ops) :
    (∀ host client, (run ops).findByHost host = some client →
      ∃ client', (run ops).get client.id = some client' ∧ client'.host = host) ∧
    (∀ clientId client, (run ops).get clientId = some client →
      ∃ client', (run ops).findByHost client.host = some client' ∧ client'.id = clientId) ∧
    (run ops).lenHosts = (run ops).lenClients := by
  have h : Consistent (run ops) :=
    @Along.foldl _ _ step ConnectionsOp.Registered Consistent
      (fun _ _ h hop ↦ consistent_step h hop) ops new consistent_new hcalls
  refine ⟨fun host client hfind ↦ ⟨client, h.hosts_registered _ _ hfind, h.hosts_keyed _ _ hfind⟩,
    fun clientId client hget ↦ ⟨client, h.clients_hosted _ _ hget, h.clients_keyed _ _ hget⟩,
    h.lenHosts_eq⟩

/-- Two clients under two hosts, a `remove_by_id` of the unknown id `3`, and the first client
removed by its registered value. -/
def twoHostsRun : List ConnectionsOp :=
  [.add ⟨⟨1⟩, "foo"⟩, .add ⟨⟨2⟩, "bar"⟩, .removeById ⟨3⟩, .remove ⟨⟨1⟩, "foo"⟩]

/-- The agreement of the indexes after `twoHostsRun`. -/
theorem indexesAgree_run_two_hosts :
    Along step ConnectionsOp.Registered new twoHostsRun ∧
      (run twoHostsRun).lenHosts = (run twoHostsRun).lenClients :=
  ⟨by decide, (indexesAgree_run (by decide)).2.2⟩

end Connections

end Ownserver
