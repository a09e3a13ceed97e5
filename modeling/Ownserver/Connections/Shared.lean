import Ownserver.Connections
import Ownserver.Forwarding

/-!
# Connections shared between tasks

`Connections` (`connected_clients.rs`) is shared by the proxy's tasks, and both of its maps are
`DashMap`s: each map is split into shards, each shard under its own read-write lock, and a call
holds the lock of its key's shard for the length of the call, or the lock of every shard in turn
for `clear`. A method is therefore a sequence of sections (`Instr`), and the tasks interleave
between them. Here `ConnectedClient` carries its sender `tx`, the channel `ConnectedClient::build`
made for it: every clone holds the same channel, and `remove` and `remove_by_id` close it.

One lock is held across statements. `remove_by_id` takes a `Ref` with `self.clients.get`, which
holds the read lock of the shard of `client_id` until the end of the `if let`, and inside it calls
`self.clients.remove(&client.id)`, which waits for the write lock of that same shard. The wait
never ends: the only holder it waits for is the task itself. `removeById_never_returns`: once
`get` has found the client, along every continuation of the run the task stays inside the method
holding the `Ref` (`InRemoveById`), every entry of that shard of `clients` keeps its value, so the
client stays registered under its id, and every task whose next section writes to the shard (an
`add` or a `remove` of a client of the shard, or a `clear`) waits with it. Run alone from that
`get`, the call removes the client's host, closes its channel and stops at the `remove`: its
clients and hosts are then those of the atomic `Connections.removeById`, the host gone and the
id still registered (`alone_removeById_registered`).

`removeChannel_stays_closed` is what the two removals do to the client's forwarding loop: once a
task has run the `close_channel` of `remove` or `remove_by_id`, the channel is closed in every
later state, whatever the other tasks and the channel's producers do, so every later
`send_to_client` on it is refused, and its loop, given turns whose writes the sink accepts, writes
out the packets still queued and ends.

`serial_refines` connects this level to `Ownserver.Connections`: methods called one after another,
each running alone, return and leave the clients and hosts, senders forgotten, as the atomic
methods run in the same order, as long as no call is a `remove_by_id` of a registered id
(`ConnectionsOp.Completes`). Its step is `alone_refines`, which also says that `clear` closes no
channel. Interleaved, the methods are not atomic: `clear` run between the two sections of `add`
leaves the added client's host registered and its id not, a state neither order of the two calls
gives (`clear_within_add_unregisters_id`).

Scope. The reads (`get`, `find_by_host`, `len_clients`, `len_hosts`) hold a lock for one call and
change nothing; they are not sections here, and neither are the `clients.len()` of the `gauge!`
calls. `tracing` and `gauge!` are not modelled. How `DashMap` hashes a key to a shard is a
parameter (`Shards`); every result holds for every choice. A write waits while a `Ref` into its
shard is held; here the `get` of another task goes on meanwhile. Whether a waiting writer holds
back new readers is left open: every result about a waiting task is about all continuations, so it
holds as well when fewer continuations are possible.
-/

set_option autoImplicit false
set_option relaxedAutoImplicit false

namespace Ownserver

/-- How the two `DashMap`s of `Connections` are split: the number of shards, and the shard of each
key, always below the number. -/
structure Shards where
  count : Nat
  ofClient : ClientId → Nat
  ofHost : String → Nat
  ofClient_lt : ∀ clientId, ofClient clientId < count
  ofHost_lt : ∀ host, ofHost host < count

/-- A `DashMap` of a single shard. -/
def Shards.single : Shards := ⟨1, fun _ ↦ 0, fun _ ↦ 0, fun _ ↦ Nat.one_pos, fun _ ↦ Nat.one_pos⟩

/-- The call returns under the locks of `Connections`: it is no `remove_by_id` of a registered
id. -/
def ConnectionsOp.Completes (conn : Connections) : ConnectionsOp → Prop
  | .removeById clientId => conn.get clientId = none
  | _ => True

instance (conn : Connections) : (op : ConnectionsOp) → Decidable (ConnectionsOp.Completes conn op)
  | .removeById clientId => inferInstanceAs (Decidable (conn.get clientId = none))
  | .add _ | .remove _ | .clear => isTrue trivial

namespace Map

variable {K V W : Type} [DecidableEq K]

/-- `m'` holds what `m` holds, each value seen through `f`. -/
def Views (f : V → W) (m : Map K V) (m' : Map K W) : Prop :=
  ∀ key, (m.lookup key).map f = m'.lookup key

variable {f : V → W} {m : Map K V} {m' : Map K W}

theorem Views.insert (h : m.Views f m') (key : K) (value : V) :
    Views f (m.insert key value) (m'.insert key (f value)) := by
  intro other
  rw [lookup_insert_eq_ite, lookup_insert_eq_ite]
  split_ifs
  · rfl
  · exact h other

theorem Views.erase (h : m.Views f m') (key : K) : Views f (m.erase key) (m'.erase key) := by
  intro other
  rw [lookup_erase_eq_ite, lookup_erase_eq_ite]
  split_ifs
  · rfl
  · exact h other

/-- `Views` read off the entries of the two maps, so that it can be decided. -/
theorem views_iff : Views f m m' ↔ (∀ entry ∈ m.entries, m'.lookup entry.1 = some (f entry.2)) ∧
    ∀ entry ∈ m'.entries, (m.lookup entry.1).map f = some entry.2 := by
  refine ⟨fun h ↦ ⟨fun entry hentry ↦ ?_, fun entry hentry ↦ ?_⟩, fun ⟨hleft, hright⟩ key ↦ ?_⟩
  · rw [← h, AList.mem_lookup_iff.mpr hentry, Option.map_some']
  · rw [h, AList.mem_lookup_iff.mpr hentry]
  · cases hlook : m.lookup key with
    | some value => exact (hleft ⟨key, value⟩ (AList.mem_lookup_iff.mp hlook)).symm
    | none =>
      cases hlook' : m'.lookup key with
      | none => rfl
      | some value => simpa [hlook] using hright ⟨key, value⟩ (AList.mem_lookup_iff.mp hlook')

instance [DecidableEq W] : Decidable (Views f m m') := decidable_of_iff _ views_iff.symm

/-- A sharded map cleared shard by shard: once the shards below `count` are cleared, the keys left
are exactly those of the other shards. -/
theorem lookup_foldl_retain_range (shardOf : K → Nat) (m : Map K V) (count : Nat) (key : K) :
    ((List.range count).foldl (fun m shard ↦ m.retain fun key _ ↦ shardOf key != shard) m).lookup
        key = if shardOf key < count then none else m.lookup key := by
  induction count with
  | zero => simp
  | succ count ih =>
    rw [List.range_succ, List.foldl_append, List.foldl_cons, List.foldl_nil, lookup_retain, ih]
    by_cases hlt : shardOf key < count
    · simp [hlt, Nat.lt_succ_of_lt hlt]
    · have hle : shardOf key < count + 1 ↔ shardOf key = count := by omega
      by_cases heq : shardOf key = count <;> cases m.lookup key <;>
        simp [Option.filter, hlt, hle, heq]

end Map

namespace Shared

/-- `ConnectedClient` with its sender: `tx` names the channel `ConnectedClient::build` made. -/
structure ConnectedClient where
  id : ClientId
  host : String
  tx : Nat
  deriving DecidableEq, Repr

/-- The client as `Ownserver.Connections` sees it, without its sender. -/
def ConnectedClient.view (client : ConnectedClient) : Ownserver.ConnectedClient :=
  ⟨client.id, client.host⟩

/-- One section of a `Connections` method: a single call on one of the maps or on a sender. -/
inductive Instr
  | closeChannel (tx : Nat)
  | insertClient (client : ConnectedClient)
  | insertHost (client : ConnectedClient)
  | removeHost (host : String)
  | removeClient (clientId : ClientId)
  | clearClients (shard : Nat)
  | clearHosts (shard : Nat)
  | getGuarded (clientId : ClientId)
  | dropGuard (clientId : ClientId)
  deriving DecidableEq, Repr

/-- A call of a mutating method of `Connections`. -/
inductive Method
  | add (client : ConnectedClient)
  | remove (client : ConnectedClient)
  | removeById (clientId : ClientId)
  | clear
  deriving DecidableEq, Repr

/-- The method as `Ownserver.Connections` runs it. -/
def Method.view : Method → ConnectionsOp
  | .add client => .add client.view
  | .remove client => .remove client.view
  | .removeById clientId => .removeById clientId
  | .clear => .clear

/-- The body of `remove_by_id` once `self.clients.get(&client_id)` has found `client`: close its
channel, remove its host and its id, and drop the `Ref` at the end of the `if let`. -/
def removeByIdBody (clientId : ClientId) (client : ConnectedClient) : List Instr :=
  [.closeChannel client.tx, .removeHost client.host, .removeClient client.id, .dropGuard clientId]

section Sections

variable (shards : Shards)

/-- The sections of a method, in program order. `clear` clears the shards of `clients` one after
another, then those of `hosts`. -/
def Method.program : Method → List Instr
  | .add client => [.insertClient client, .insertHost client]
  | .remove client => [.closeChannel client.tx, .removeHost client.host, .removeClient client.id]
  | .removeById clientId => [.getGuarded clientId]
  | .clear =>
    (List.range shards.count).map .clearClients ++ (List.range shards.count).map .clearHosts

/-- The shard of `clients` a section writes to, if it writes to one. -/
def Instr.clientShard : Instr → Option Nat
  | .insertClient client => some (shards.ofClient client.id)
  | .removeClient clientId => some (shards.ofClient clientId)
  | .clearClients shard => some shard
  | _ => none

/-- Whether a section takes or drops a `Ref`. -/
def Instr.touchesRef : Instr → Bool
  | .getGuarded _ | .dropGuard _ => true
  | _ => false

end Sections

/-- The shared state: the two maps, and the `Ref`s into `clients` held across statements, each
with the task holding it and the shard it locks. -/
structure Connections where
  clients : Map ClientId ConnectedClient
  hosts : Map String ConnectedClient
  guards : List (Nat × Nat)

/-- The shared state stands for the atomic `Ownserver.Connections`: the same clients under every
id and every host, senders forgotten. -/
structure Refines (conn : Connections) (abs : Ownserver.Connections) : Prop where
  clients : conn.clients.Views ConnectedClient.view abs.clients
  hosts : conn.hosts.Views ConnectedClient.view abs.hosts

instance (conn : Connections) (abs : Ownserver.Connections) : Decidable (Refines conn abs) :=
  decidable_of_iff (conn.clients.Views ConnectedClient.view abs.clients ∧
    conn.hosts.Views ConnectedClient.view abs.hosts) ⟨fun h ↦ ⟨h.1, h.2⟩, fun h ↦ ⟨h.1, h.2⟩⟩

/-- The shared state, the channels by sender, and the tasks in progress, each with the sections it
has still to run. -/
structure World where
  conn : Connections
  channels : Map Nat Outbound
  tasks : List (List Instr)

/-- What happens next: a task starts a method, a task runs its next section if it can,
`ConnectedClient::build` makes the channel `tx`, or the channel `tx` sees an event of its own (a
`send_to_client`, a `close_channel` from elsewhere, or a turn of its forwarding loop). -/
inductive Event
  | call (method : Method)
  | turn (task : Nat)
  | build (tx : Nat)
  | channel (tx : Nat) (event : OutboundEvent)

/-- Methods called one after another, each running alone to its end: the method called `i`-th is
the task `start + i`. -/
def serial (shards : Shards) (start : Nat) : List Method → List Event
  | [] => []
  | method :: rest =>
    .call method :: List.replicate (method.program shards).length (.turn start) ++
      serial shards (start + 1) rest

namespace Connections

variable (shards : Shards)

/-- A write to a shard of `clients` can take the shard's lock: no `Ref` into the shard is held. -/
def canWrite (conn : Connections) (shard : Nat) : Bool :=
  conn.guards.all fun guard => guard.2 != shard

/-- Whether a section can run now: a write to a shard of `clients` waits while a `Ref` into the
shard is held. -/
def ready (conn : Connections) (instr : Instr) : Bool :=
  match instr.clientShard shards with
  | some shard => conn.canWrite shard
  | none => true

/-- What a single call on one of the maps does. The sections that are no such call leave the maps
as they are. -/
def apply (conn : Connections) : Instr → Connections
  | .insertClient client => { conn with clients := conn.clients.insert client.id client }
  | .insertHost client => { conn with hosts := conn.hosts.insert client.host client }
  | .removeHost host => { conn with hosts := conn.hosts.erase host }
  | .removeClient clientId => { conn with clients := conn.clients.erase clientId }
  | .clearClients shard =>
    { conn with clients := conn.clients.retain fun key _ => shards.ofClient key != shard }
  | .clearHosts shard =>
    { conn with hosts := conn.hosts.retain fun host _ => shards.ofHost host != shard }
  | .closeChannel _ | .getGuarded _ | .dropGuard _ => conn

/-- What a section does to the shared state, and the sections its task has left after it. `get`
takes a `Ref` and, if it finds a client, enters the body of the `if let`; the end of the body
drops the `Ref`. -/
def exec (conn : Connections) (task : Nat) (rest : List Instr) : Instr → Connections × List Instr
  | .getGuarded clientId =>
    match conn.clients.lookup clientId with
    | some client =>
      ({ conn with guards := conn.guards ++ [(task, shards.ofClient clientId)] },
        removeByIdBody clientId client ++ rest)
    | none => (conn, rest)
  | .dropGuard clientId =>
    ({ conn with guards := conn.guards.erase (task, shards.ofClient clientId) }, rest)
  | instr => (conn.apply shards instr, rest)

end Connections

/-- The channel a section closes: `client.tx.close_channel()`. -/
def Instr.closes : Instr → Option Nat
  | .closeChannel tx => some tx
  | _ => none

/-- Writes every packet as no bytes: the encoder of the concrete runs below. -/
def encodeNothing : ControlPacket → Except Unit (List UInt8) := fun _ ↦ .ok []

/-- The client `1` under the host `foobar`, with the channel `7`: the client of the concrete runs
below. -/
def foobarClient : ConnectedClient := ⟨⟨1⟩, "foobar", 7⟩

namespace World

variable {ε : Type} (encode : ControlPacket → Except ε (List UInt8)) (shards : Shards)

/-- No task, no client, no channel. -/
def init : World := ⟨⟨∅, ∅, []⟩, ∅, []⟩

/-- The channels after a section: the channel it closes, if any, is closed. -/
def closeBy (channels : Map Nat Outbound) (instr : Instr) : Map Nat Outbound :=
  match instr.closes with
  | some tx => channels.modify tx fun out => out.step encode .closeChannel
  | none => channels

/-- A turn of the task `task`: it runs its next section if the section can run, and waits
otherwise. -/
def turn (w : World) (task : Nat) : World :=
  match w.tasks[task]? with
  | some (instr :: rest) =>
    if w.conn.ready shards instr then
      { conn := (w.conn.exec shards task rest instr).1
        channels := closeBy encode w.channels instr
        tasks := w.tasks.set task (w.conn.exec shards task rest instr).2 }
    else w
  | _ => w

/-- One event. -/
def step (w : World) : Event → World
  | .call method => { w with tasks := w.tasks ++ [method.program shards] }
  | .turn task => w.turn encode shards task
  | .build tx =>
    if tx ∈ w.channels then w else { w with channels := w.channels.insert tx Outbound.build }
  | .channel tx event => { w with channels := w.channels.modify tx fun out => out.step encode event }

/-- The world after a run of events from `init`. -/
def run (events : List Event) : World := events.foldl (step encode shards) init

/-- `count` turns of the task `task` in a row, with no other event between them. -/
def alone (w : World) (task count : Nat) : World :=
  (List.replicate count (Event.turn task)).foldl (step encode shards) w

/-- The task `task` is inside `remove_by_id clientId` after `get` found `client`, the client
registered under `clientId`: it holds the `Ref` into the shard of `clientId`, and of the body it has
run at most the `close_channel` and the removal of the host. -/
structure InRemoveById (w : World) (task : Nat) (clientId : ClientId) (client : ConnectedClient) :
    Prop where
  keyed : client.id = clientId
  holds : (task, shards.ofClient clientId) ∈ w.conn.guards
  within : ∃ k < 3, w.tasks[task]? = some ((removeByIdBody clientId client).drop k)

/-- The channel `tx` was built and is closed. -/
def ClosedAt (channels : Map Nat Outbound) (tx : Nat) : Prop :=
  ∃ out, channels.lookup tx = some out ∧ out.closed = true

end World

/-! ### Sections and locks -/

namespace Connections

variable {shards : Shards}

@[simp] theorem guards_apply (conn : Connections) (instr : Instr) :
    (conn.apply shards instr).guards = conn.guards := by
  cases instr <;> rfl

theorem guards_foldl_apply (conn : Connections) (instrs : List Instr) :
    (instrs.foldl (apply shards) conn).guards = conn.guards := by
  induction instrs generalizing conn with
  | nil => rfl
  | cons instr rest ih => rw [List.foldl_cons, ih, guards_apply]

theorem exec_of_touchesRef_eq_false {conn : Connections} {task : Nat} {rest : List Instr}
    {instr : Instr} (hplain : instr.touchesRef = false) :
    conn.exec shards task rest instr = (conn.apply shards instr, rest) := by
  cases instr <;> first | rfl | simp [Instr.touchesRef] at hplain

theorem canWrite_eq_false {conn : Connections} {holder shard : Nat}
    (hguard : (holder, shard) ∈ conn.guards) : conn.canWrite shard = false :=
  List.all_eq_false.mpr ⟨_, hguard, by simp⟩

theorem ready_of_guards_eq_nil {conn : Connections} (hidle : conn.guards = []) (instr : Instr) :
    conn.ready shards instr = true := by
  unfold ready
  split <;> simp [canWrite, hidle]

/-- While a `Ref` into the shard of `key` is held, a section that can run leaves the entry of `key`
as it is. -/
theorem lookup_exec_of_ready {conn : Connections} {instr : Instr} {task holder : Nat}
    {rest : List Instr} {key : ClientId} (hguard : (holder, shards.ofClient key) ∈ conn.guards)
    (hready : conn.ready shards instr = true) :
    (conn.exec shards task rest instr).1.clients.lookup key = conn.clients.lookup key := by
  have hfree (shard : Nat) (hwrites : instr.clientShard shards = some shard) :
      shard ≠ shards.ofClient key := by
    rintro rfl
    simp [ready, hwrites, canWrite_eq_false hguard] at hready
  cases instr with
  | insertClient client =>
    have hkey : key ≠ client.id := fun h ↦ hfree _ rfl (by rw [h])
    simp [exec, apply, Map.lookup_insert_eq_ite, hkey]
  | removeClient clientId =>
    have hkey : key ≠ clientId := fun h ↦ hfree _ rfl (by rw [h])
    simp [exec, apply, Map.lookup_erase_eq_ite, hkey]
  | clearClients shard =>
    have hkey := hfree shard rfl
    simp only [exec, apply, Map.lookup_retain]
    cases conn.clients.lookup key <;> simp [Ne.symm hkey]
  | getGuarded clientId => simp only [exec]; split <;> rfl
  | _ => rfl

/-- A `Ref` is dropped only by the task that holds it. -/
theorem mem_guards_exec {conn : Connections} {instr : Instr} {task holder shard : Nat}
    {rest : List Instr} (hguard : (holder, shard) ∈ conn.guards) (hother : task ≠ holder) :
    (holder, shard) ∈ (conn.exec shards task rest instr).1.guards := by
  cases instr with
  | getGuarded clientId => simp only [exec]; split <;> simp [hguard]
  | dropGuard clientId => simpa [exec, Ne.symm hother] using hguard
  | _ => exact hguard

theorem keyedBy_exec {conn : Connections} (hkeyed : KeyedBy ConnectedClient.id conn.clients)
    (task : Nat) (rest : List Instr) (instr : Instr) :
    KeyedBy ConnectedClient.id (conn.exec shards task rest instr).1.clients := by
  cases instr with
  | insertClient client => exact hkeyed.insert client
  | removeClient clientId => exact hkeyed.erase clientId
  | clearClients shard => exact hkeyed.retain _
  | getGuarded clientId => simp only [exec]; split <;> exact hkeyed
  | _ => exact hkeyed

/-- The sections of `clear` on the shards `clientShards` of `clients` and then `hostShards` of
`hosts` clear each map shard by shard, and take no `Ref`. -/
theorem foldl_apply_clear (conn : Connections) (clientShards hostShards : List Nat) :
    (clientShards.map Instr.clearClients ++ hostShards.map Instr.clearHosts).foldl (apply shards)
        conn =
      ⟨clientShards.foldl (fun m shard ↦ m.retain fun key _ ↦ shards.ofClient key != shard)
          conn.clients,
        hostShards.foldl (fun m shard ↦ m.retain fun host _ ↦ shards.ofHost host != shard)
          conn.hosts,
        conn.guards⟩ := by
  induction clientShards generalizing conn with
  | cons shard rest ih => exact ih _
  | nil =>
    induction hostShards generalizing conn with
    | nil => rfl
    | cons shard rest ih => exact ih _

end Connections

section Refinement

variable {shards : Shards}

theorem touchesRef_program {method : Method} (hplain : ∀ clientId, method ≠ .removeById clientId) :
    ∀ instr ∈ method.program shards, instr.touchesRef = false := by
  cases method with
  | removeById clientId => exact absurd rfl (hplain clientId)
  | clear =>
    simp only [Method.program, List.mem_append, List.mem_map]
    rintro _ (⟨_, -, rfl⟩ | ⟨_, -, rfl⟩) <;> rfl
  | add _ | remove _ => simp [Method.program, Instr.touchesRef]

/-- Run section by section, `add`, `remove` and `clear` do to the maps what the atomic methods
do. -/
theorem Refines.apply_program {conn : Connections} {abs : Ownserver.Connections}
    (h : Refines conn abs) {method : Method} (hplain : ∀ clientId, method ≠ .removeById clientId) :
    Refines ((method.program shards).foldl (Connections.apply shards) conn)
      (abs.step method.view) := by
  cases method with
  | add client => exact ⟨h.clients.insert client.id client, h.hosts.insert client.host client⟩
  | remove client => exact ⟨h.clients.erase client.id, h.hosts.erase client.host⟩
  | clear =>
    rw [Method.program, Connections.foldl_apply_clear]
    refine ⟨fun key ↦ ?_, fun host ↦ ?_⟩ <;>
      simp [Method.view, Map.lookup_foldl_retain_range, shards.ofClient_lt,
        shards.ofHost_lt, Ownserver.Connections.step, Ownserver.Connections.clear]
  | removeById clientId => exact absurd rfl (hplain clientId)

end Refinement

/-! ### Turns -/

namespace World

variable {ε : Type} {encode : ControlPacket → Except ε (List UInt8)} {shards : Shards} {w : World}

theorem turn_of_ready {task : Nat} {instr : Instr} {rest : List Instr}
    (hnext : w.tasks[task]? = some (instr :: rest)) (hready : w.conn.ready shards instr = true) :
    w.turn encode shards task =
      ⟨(w.conn.exec shards task rest instr).1, closeBy encode w.channels instr,
        w.tasks.set task (w.conn.exec shards task rest instr).2⟩ := by
  simp [turn, hnext, hready]

theorem turn_of_blocked {task : Nat} {instr : Instr} {rest : List Instr}
    (hnext : w.tasks[task]? = some (instr :: rest)) (hready : w.conn.ready shards instr = false) :
    w.turn encode shards task = w := by
  simp [turn, hnext, hready]

variable (encode shards w) in
/-- What a turn can do: nothing, or run the task's next section, which can run. -/
theorem turn_cases (task : Nat) :
    w.turn encode shards task = w ∨ ∃ instr rest, w.tasks[task]? = some (instr :: rest) ∧
      w.conn.ready shards instr = true ∧
      w.turn encode shards task =
        ⟨(w.conn.exec shards task rest instr).1, closeBy encode w.channels instr,
          w.tasks.set task (w.conn.exec shards task rest instr).2⟩ := by
  match hnext : w.tasks[task]? with
  | some (instr :: rest) =>
    cases hready : w.conn.ready shards instr
    · exact .inl (turn_of_blocked hnext hready)
    · exact .inr ⟨instr, rest, rfl, hready, turn_of_ready hnext hready⟩
  | some [] | none => exact .inl (by simp [turn, hnext])

/-- A task whose next section writes to a shard into which a `Ref` is held waits: its turn changes
nothing. -/
theorem turn_of_writes_guarded {holder shard task : Nat} {instr : Instr} {rest : List Instr}
    (hguard : (holder, shard) ∈ w.conn.guards) (hnext : w.tasks[task]? = some (instr :: rest))
    (hwrites : instr.clientShard shards = some shard) : w.turn encode shards task = w :=
  turn_of_blocked hnext (by simp [Connections.ready, hwrites, Connections.canWrite_eq_false hguard])

/-- While no `Ref` is held, a turn runs the task's next section when it takes and drops no
`Ref`. -/
theorem turn_of_idle {task : Nat} {instr : Instr} {rest : List Instr} (hidle : w.conn.guards = [])
    (hnext : w.tasks[task]? = some (instr :: rest)) (hplain : instr.touchesRef = false) :
    w.turn encode shards task =
      ⟨w.conn.apply shards instr, closeBy encode w.channels instr, w.tasks.set task rest⟩ := by
  rw [turn_of_ready hnext (Connections.ready_of_guards_eq_nil hidle instr),
    Connections.exec_of_touchesRef_eq_false hplain]

@[simp] theorem conn_step_build (tx : Nat) : (w.step encode shards (.build tx)).conn = w.conn := by
  simp only [step]
  split <;> rfl

@[simp] theorem tasks_step_build (tx : Nat) :
    (w.step encode shards (.build tx)).tasks = w.tasks := by
  simp only [step]
  split <;> rfl

theorem keyedBy_step (hkeyed : KeyedBy ConnectedClient.id w.conn.clients) (event : Event) :
    KeyedBy ConnectedClient.id (w.step encode shards event).conn.clients := by
  cases event with
  | turn task =>
    show KeyedBy _ (w.turn encode shards task).conn.clients
    rcases turn_cases encode shards w task with heq | ⟨instr, rest, -, -, heq⟩ <;> rw [heq]
    · exact hkeyed
    · exact Connections.keyedBy_exec hkeyed task rest instr
  | build tx => rw [conn_step_build]; exact hkeyed
  | call _ | channel _ _ => exact hkeyed

/-- Every client is registered under its own id, along every run. -/
theorem keyedBy_run (events : List Event) :
    KeyedBy ConnectedClient.id (run encode shards events).conn.clients :=
  List.foldlRecOn (motive := fun w : World ↦ KeyedBy ConnectedClient.id w.conn.clients) events _ _
    (fun _ _ h ↦ by simp [init] at h) fun _ hw event _ ↦ keyedBy_step hw event

/-! ### `remove_by_id` never returns -/

/-- While a `Ref` into the shard of `key` is held, no event changes the entry of `key`. -/
theorem lookup_step_of_guard {holder : Nat} {key : ClientId}
    (hguard : (holder, shards.ofClient key) ∈ w.conn.guards) (event : Event) :
    (w.step encode shards event).conn.clients.lookup key = w.conn.clients.lookup key := by
  cases event with
  | turn task =>
    show (w.turn encode shards task).conn.clients.lookup key = _
    rcases turn_cases encode shards w task with heq | ⟨instr, rest, -, hready, heq⟩ <;> rw [heq]
    exact Connections.lookup_exec_of_ready hguard hready
  | build tx => rw [conn_step_build]
  | call _ | channel _ _ => rfl

/-- `get` finds the client registered under `clientId`: the task takes the `Ref` and enters the
body of the `if let`, and no map changes. -/
theorem inRemoveById_turn {task : Nat} {clientId : ClientId} {client : ConnectedClient}
    (hkeyed : KeyedBy ConnectedClient.id w.conn.clients)
    (hcall : w.tasks[task]? = some [.getGuarded clientId])
    (hfound : w.conn.clients.lookup clientId = some client) :
    InRemoveById shards (w.step encode shards (.turn task)) task clientId client ∧
      (w.step encode shards (.turn task)).conn.clients = w.conn.clients := by
  have hlt : task < w.tasks.length := (List.getElem?_eq_some_iff.mp hcall).1
  show InRemoveById shards (w.turn encode shards task) task clientId client ∧
    (w.turn encode shards task).conn.clients = w.conn.clients
  rw [turn_of_ready hcall rfl]
  refine ⟨⟨hkeyed _ _ hfound, ?_, 0, by omega, ?_⟩, ?_⟩ <;> simp [Connections.exec, hfound, hlt]

/-- Every event keeps the task inside `remove_by_id`: at its `remove` of the id it waits for the
`Ref` it holds itself, and no other task drops that `Ref`. -/
theorem inRemoveById_step {task : Nat} {clientId : ClientId} {client : ConnectedClient}
    (h : InRemoveById shards w task clientId client) (event : Event) :
    InRemoveById shards (w.step encode shards event) task clientId client := by
  obtain ⟨hid, hguard, k, hk, htask⟩ := h
  have hlt : task < w.tasks.length := (List.getElem?_eq_some_iff.mp htask).1
  cases event with
  | call method => exact ⟨hid, hguard, k, hk, by simp [step, List.getElem?_append_left hlt, htask]⟩
  | build tx => simp only [step]; split <;> exact ⟨hid, hguard, k, hk, htask⟩
  | channel tx event => exact ⟨hid, hguard, k, hk, htask⟩
  | turn other =>
    show InRemoveById shards (w.turn encode shards other) task clientId client
    by_cases hself : other = task
    · subst hself
      match k, hk with
      | 0, _ =>
        rw [turn_of_ready htask rfl]
        exact ⟨hid, hguard, 1, by omega, by rw [List.getElem?_set_self hlt]; rfl⟩
      | 1, _ =>
        rw [turn_of_ready htask rfl]
        exact ⟨hid, hguard, 2, by omega, by rw [List.getElem?_set_self hlt]; rfl⟩
      | 2, _ =>
        rw [turn_of_writes_guarded hguard htask (by simp [Instr.clientShard, hid])]
        exact ⟨hid, hguard, 2, by omega, htask⟩
    · rcases turn_cases encode shards w other with heq | ⟨instr, rest, -, -, heq⟩ <;> rw [heq]
      · exact ⟨hid, hguard, k, hk, htask⟩
      · exact ⟨hid, Connections.mem_guards_exec hguard hself, k, hk,
          by rw [List.getElem?_set_ne hself, htask]⟩

/-- Along every continuation the task stays inside `remove_by_id`, and the shard it holds keeps
every entry. -/
theorem inRemoveById_foldl {task : Nat} {clientId : ClientId} {client : ConnectedClient}
    (h : InRemoveById shards w task clientId client) (events : List Event) :
    InRemoveById shards (events.foldl (step encode shards) w) task clientId client ∧
      ∀ key, shards.ofClient key = shards.ofClient clientId →
        (events.foldl (step encode shards) w).conn.clients.lookup key = w.conn.clients.lookup key := by
  induction events generalizing w with
  | nil => exact ⟨h, fun _ _ ↦ rfl⟩
  | cons event rest ih =>
    obtain ⟨hinv, hframe⟩ := ih (inRemoveById_step h event)
    exact ⟨hinv, fun key hkey ↦
      (hframe key hkey).trans (lookup_step_of_guard (by rw [hkey]; exact h.holds) event)⟩

/-- `remove_by_id` of a registered id never returns. Once `get` has found the client, along every
continuation of the run the task stays inside the method holding its `Ref`, every entry of the
shard of `clients` it locks keeps its value (the client stays registered under its id), and every
task whose next section writes to that shard waits. -/
theorem removeById_never_returns {events : List Event} {task : Nat} {clientId : ClientId}
    {client : ConnectedClient}
    (hcall : (run encode shards events).tasks[task]? = some [.getGuarded clientId])
    (hfound : (run encode shards events).conn.clients.lookup clientId = some client)
    (later : List Event) :
    InRemoveById shards (run encode shards (events ++ .turn task :: later)) task clientId client ∧
      (∀ key, shards.ofClient key = shards.ofClient clientId →
        (run encode shards (events ++ .turn task :: later)).conn.clients.lookup key =
          (run encode shards events).conn.clients.lookup key) ∧
      ∀ other instr rest,
        (run encode shards (events ++ .turn task :: later)).tasks[other]? = some (instr :: rest) →
        instr.clientShard shards = some (shards.ofClient clientId) →
        (run encode shards (events ++ .turn task :: later)).turn encode shards other =
          run encode shards (events ++ .turn task :: later) := by
  obtain ⟨henter, hclients⟩ := inRemoveById_turn (keyedBy_run events) hcall hfound
  obtain ⟨hinv, hframe⟩ := inRemoveById_foldl henter later
  have hrun : run encode shards (events ++ .turn task :: later) =
      later.foldl (step encode shards) ((run encode shards events).step encode shards (.turn task)) := by
    simp [run, List.foldl_append]
  rw [hrun]
  exact ⟨hinv, fun key hkey ↦ by rw [hframe key hkey, hclients],
    fun other instr rest hnext hwrites ↦ turn_of_writes_guarded hinv.holds hnext hwrites⟩

/-- The channel `7` built, `foobarClient` added by the task `0`, and `remove_by_id` of its id
called as the task `1`. -/
def removingByIdRun : List Event :=
  [.build 7, .call (.add foobarClient), .turn 0, .turn 0, .call (.removeById ⟨1⟩)]

/-- `remove_by_id` of the registered id `1`, once `get` has found the client. -/
theorem removeById_never_returns_registered :
    (run encodeNothing Shards.single removingByIdRun).tasks[1]? = some [.getGuarded ⟨1⟩] ∧
      (run encodeNothing Shards.single removingByIdRun).conn.clients.lookup ⟨1⟩ =
        some foobarClient ∧
      InRemoveById Shards.single (run encodeNothing Shards.single (removingByIdRun ++ [.turn 1]))
        1 ⟨1⟩ foobarClient :=
  ⟨by decide, by decide, (removeById_never_returns (by decide) (by decide) []).1⟩

/-! ### Removal closes the channel for good -/

theorem closedAt_modify {channels : Map Nat Outbound} {tx : Nat} (h : ClosedAt channels tx)
    (other : Nat) (event : OutboundEvent) :
    ClosedAt (channels.modify other fun out ↦ out.step encode event) tx := by
  obtain ⟨out, hlook, hclosed⟩ := h
  by_cases hother : tx = other
  · subst hother
    exact ⟨_, by rw [Map.lookup_modify_self, hlook]; rfl, Outbound.closed_step hclosed event⟩
  · exact ⟨out, by rw [Map.lookup_modify_of_ne _ _ hother, hlook], hclosed⟩

theorem closedAt_closeBy {channels : Map Nat Outbound} {tx : Nat} (h : ClosedAt channels tx)
    (instr : Instr) : ClosedAt (closeBy encode channels instr) tx := by
  unfold closeBy
  split
  · exact closedAt_modify h _ _
  · exact h

/-- A closed channel stays closed whatever happens next. -/
theorem closedAt_step {tx : Nat} (h : ClosedAt w.channels tx) (event : Event) :
    ClosedAt (w.step encode shards event).channels tx := by
  cases event with
  | turn task =>
    show ClosedAt (w.turn encode shards task).channels tx
    rcases turn_cases encode shards w task with heq | ⟨instr, rest, -, -, heq⟩ <;> rw [heq]
    · exact h
    · exact closedAt_closeBy h instr
  | build other =>
    simp only [step]
    split
    · exact h
    · next hnew =>
      obtain ⟨out, hlook, hclosed⟩ := h
      have hne : tx ≠ other := fun heq ↦ hnew (heq ▸ AList.lookup_isSome.mp (by rw [hlook]; rfl))
      exact ⟨out, by rw [Map.lookup_insert_eq_ite, if_neg hne, hlook], hclosed⟩
  | channel other event => exact closedAt_modify h other event
  | call _ => exact h

/-- The events of one channel act on it as on `Outbound`. -/
theorem lookup_foldl_channel (tx : Nat) (events : List OutboundEvent) :
    ((events.map (Event.channel tx)).foldl (step encode shards) w).channels.lookup tx =
      (w.channels.lookup tx).map fun out ↦ events.foldl (Outbound.step encode) out := by
  induction events generalizing w with
  | nil => simp
  | cons event rest ih => simp [ih, step, Option.map_map, Function.comp_def]

/-- Once a task has run the `close_channel` of `remove` or `remove_by_id` on a channel that was
built, the channel is closed along every continuation, whatever the other tasks and the channel's
producers do: every `send_to_client` on it is refused, and its loop, given turns whose writes the
sink accepts, writes out the packets still queued, in order, and ends on the closed channel. -/
theorem removeChannel_stays_closed {task tx : Nat} {rest : List Instr}
    (hnext : w.tasks[task]? = some (.closeChannel tx :: rest)) (hbuilt : tx ∈ w.channels)
    (later : List Event) :
    ∃ out, ((Event.turn task :: later).foldl (step encode shards) w).channels.lookup tx = some out ∧
      (∀ packet, out.sendToClient packet = .error .disconnected) ∧
      (out.exit = none → (∀ packet ∈ out.queue, ∃ data, encode packet = .ok data) →
        ∃ done, (((List.replicate (out.queue.length + 1) (OutboundEvent.poll true)).map
            (Event.channel tx)).foldl (step encode shards)
              ((Event.turn task :: later).foldl (step encode shards) w)).channels.lookup tx =
            some done ∧ done.exit = some .channelClosed ∧
          ∃ tail, done.written = out.written ++ tail ∧
            List.Forall₂ (Outbound.Wire encode) out.queue tail) := by
  have hclosed : ClosedAt ((Event.turn task :: later).foldl (step encode shards) w).channels tx := by
    refine List.foldlRecOn (motive := fun w : World ↦ ClosedAt w.channels tx) later _ _ ?_
      fun _ hw event _ ↦ closedAt_step hw event
    show ClosedAt (w.turn encode shards task).channels tx
    obtain ⟨out, hlook⟩ := Option.isSome_iff_exists.mp (AList.lookup_isSome.mpr hbuilt)
    rw [turn_of_ready hnext rfl]
    exact ⟨out.step encode .closeChannel, by simp [closeBy, Instr.closes, hlook], rfl⟩
  obtain ⟨out, hlook, hout⟩ := hclosed
  refine ⟨out, hlook, fun packet ↦ by simp [Outbound.sendToClient, hout], fun hexit hencode ↦ ?_⟩
  obtain ⟨hend, tail, hwritten, hwire⟩ := Outbound.polls_deliver_all hexit hout hencode
  exact ⟨_, by rw [lookup_foldl_channel, hlook]; rfl, hend, tail, hwritten, hwire⟩

/-- The channel `7` built, `foobarClient` added by the task `0`, and `remove` of it called as the
task `1`. -/
def removingRun : List Event :=
  [.build 7, .call (.add foobarClient), .turn 0, .turn 0, .call (.remove foobarClient)]

/-- `remove` of `foobarClient` runs the `close_channel` of its channel `7`. -/
theorem removeChannel_stays_closed_removed :
    (run encodeNothing Shards.single removingRun).tasks[1]? =
        some [.closeChannel 7, .removeHost ("foobar"), .removeClient ⟨1⟩] ∧
      7 ∈ (run encodeNothing Shards.single removingRun).channels ∧
      ∃ out, ([Event.turn 1].foldl (step encodeNothing Shards.single)
          (run encodeNothing Shards.single removingRun)).channels.lookup 7 = some out ∧
        ∀ packet, out.sendToClient packet = .error .disconnected :=
  ⟨by decide, by decide,
    (@removeChannel_stays_closed _ _ _ _ 1 7 [.removeHost ("foobar"), .removeClient ⟨1⟩]
      (by decide) (by decide) []).imp fun _ h ↦ ⟨h.1, h.2.1⟩⟩

/-! ### The atomic methods, as seen when a task runs alone -/

theorem foldl_closeBy_of_closes_eq_none {channels : Map Nat Outbound} {instrs : List Instr}
    (hnone : ∀ instr ∈ instrs, instr.closes = none) :
    instrs.foldl (closeBy encode) channels = channels := by
  induction instrs with
  | nil => rfl
  | cons instr rest ih =>
    rw [List.foldl_cons, closeBy, hnone instr (List.mem_cons_self _ _)]
    exact ih fun other hother ↦ hnone other (List.mem_cons_of_mem _ hother)

variable (encode shards) in
/-- A task whose sections take and drop no `Ref`, run alone while no `Ref` is held, runs its
sections one per turn, in order, and returns. -/
theorem alone_of_touchesRef_eq_false {task : Nat} {instrs : List Instr}
    (hplain : ∀ instr ∈ instrs, instr.touchesRef = false) (hidle : w.conn.guards = [])
    (htask : w.tasks[task]? = some instrs) :
    w.alone encode shards task instrs.length =
      ⟨instrs.foldl (Connections.apply shards) w.conn, instrs.foldl (closeBy encode) w.channels,
        w.tasks.set task []⟩ := by
  have hlt : task < w.tasks.length := (List.getElem?_eq_some_iff.mp htask).1
  induction instrs generalizing w with
  | nil =>
    have hset : w.tasks.set task [] = w.tasks := List.ext_getElem? fun other ↦ by
      by_cases hother : task = other
      · subst hother
        rw [List.getElem?_set_self hlt, htask]
      · rw [List.getElem?_set_ne hother]
    show w = _
    rw [List.foldl_nil, List.foldl_nil, hset]
  | cons instr rest ih =>
    show (List.replicate rest.length _).foldl _ (w.turn encode shards task) = _
    rw [turn_of_idle hidle htask (hplain instr (List.mem_cons_self _ _))]
    refine (ih (fun other hother ↦ hplain other (List.mem_cons_of_mem _ hother))
      (by rw [Connections.guards_apply, hidle]) (by simp [hlt]) (by simpa using hlt)).trans ?_
    simp [List.set_set]

variable (encode) in
/-- Run alone from a state where no `Ref` is held, a method that completes under the locks
returns, holds no `Ref` after it, and does to the clients and hosts what the atomic method does.
Only `remove` closes a channel, the one of the client it is given: `clear` closes none. -/
theorem alone_refines {abs : Ownserver.Connections} {task : Nat} {method : Method}
    (hrefines : Refines w.conn abs) (hidle : w.conn.guards = [])
    (htask : w.tasks[task]? = some (method.program shards))
    (hcompletes : ConnectionsOp.Completes abs method.view) :
    Refines (w.alone encode shards task (method.program shards).length).conn
        (abs.step method.view) ∧
      (w.alone encode shards task (method.program shards).length).conn.guards = [] ∧
      (w.alone encode shards task (method.program shards).length).tasks = w.tasks.set task [] ∧
      (w.alone encode shards task (method.program shards).length).channels =
        match method with
        | .remove client => w.channels.modify client.tx fun out ↦ out.step encode .closeChannel
        | _ => w.channels := by
  by_cases hbyid : ∃ clientId, method = .removeById clientId
  · obtain ⟨clientId, rfl⟩ := hbyid
    have habsent : abs.clients.lookup clientId = none := hcompletes
    have hnone : w.conn.clients.lookup clientId = none := by
      simpa [habsent] using hrefines.clients clientId
    have hturn : w.alone encode shards task (Method.program shards (.removeById clientId)).length =
        ⟨w.conn, w.channels, w.tasks.set task []⟩ := by
      show w.turn encode shards task = _
      rw [turn_of_ready htask rfl]
      simp [Connections.exec, hnone, closeBy, Instr.closes]
    rw [hturn]
    refine ⟨?_, hidle, rfl, rfl⟩
    simpa [Method.view, Ownserver.Connections.step, Ownserver.Connections.removeById, habsent]
      using hrefines
  · push_neg at hbyid
    rw [alone_of_touchesRef_eq_false encode shards (touchesRef_program hbyid) hidle htask]
    refine ⟨hrefines.apply_program hbyid, by rw [Connections.guards_foldl_apply, hidle], rfl, ?_⟩
    cases method with
    | remove client => simp [Method.program, closeBy, Instr.closes]
    | removeById clientId => exact absurd rfl (hbyid clientId)
    | add _ => exact foldl_closeBy_of_closes_eq_none (by simp [Method.program, Instr.closes])
    | clear =>
      refine foldl_closeBy_of_closes_eq_none ?_
      simp only [Method.program, List.mem_append, List.mem_map]
      rintro _ (⟨_, -, rfl⟩ | ⟨_, -, rfl⟩) <;> rfl

variable (encode) in
/-- Methods called one after another, each running alone to its end from a state where no `Ref` is
held, all return, and leave the maps, senders forgotten, as the atomic methods run in the same
order. -/
theorem foldl_serial {abs : Ownserver.Connections} (methods : List Method)
    (hrefines : Refines w.conn abs) (hidle : w.conn.guards = [])
    (hcompletes : Along Ownserver.Connections.step ConnectionsOp.Completes abs
      (methods.map Method.view)) :
    Refines ((serial shards w.tasks.length methods).foldl (step encode shards) w).conn
        ((methods.map Method.view).foldl Ownserver.Connections.step abs) ∧
      ((serial shards w.tasks.length methods).foldl (step encode shards) w).conn.guards = [] ∧
      ((serial shards w.tasks.length methods).foldl (step encode shards) w).tasks =
        w.tasks ++ methods.map fun _ ↦ [] := by
  induction methods generalizing w abs with
  | nil => exact ⟨hrefines, hidle, by simp [serial]⟩
  | cons method rest ih =>
    obtain ⟨hcomp, hrest⟩ := hcompletes
    have htask : (w.step encode shards (.call method)).tasks[w.tasks.length]? =
        some (method.program shards) := by
      simp [step]
    obtain ⟨hrefines', hidle', htasks', -⟩ := alone_refines encode
      (show Refines (w.step encode shards (.call method)).conn abs from hrefines) hidle htask hcomp
    have hdone : ((w.step encode shards (.call method)).alone encode shards w.tasks.length
        (method.program shards).length).tasks = w.tasks ++ [[]] := by
      rw [htasks']
      simp [step]
    obtain ⟨hrefinesRest, hidleRest, htasksRest⟩ := ih hrefines' hidle' hrest
    rw [hdone, List.length_append, List.length_singleton] at hrefinesRest hidleRest htasksRest
    have hunfold : (serial shards w.tasks.length (method :: rest)).foldl (step encode shards) w =
        (serial shards (w.tasks.length + 1) rest).foldl (step encode shards)
          ((w.step encode shards (.call method)).alone encode shards w.tasks.length
            (method.program shards).length) := by
      simp only [serial, List.foldl_cons, List.foldl_append, alone]
    rw [hunfold]
    exact ⟨hrefinesRest, hidleRest, by simpa using htasksRest⟩

/-- Called one after another, each running alone, the methods of the shared `Connections` refine
the atomic ones: every call that completes under the locks returns, and the maps are, senders
forgotten, those of the atomic run of the same calls. -/
theorem serial_refines (methods : List Method)
    (hcompletes : Along Ownserver.Connections.step ConnectionsOp.Completes
      Ownserver.Connections.new (methods.map Method.view)) :
    Refines (run encode shards (serial shards 0 methods)).conn
        (Ownserver.Connections.run (methods.map Method.view)) ∧
      (run encode shards (serial shards 0 methods)).tasks = methods.map fun _ ↦ [] := by
  obtain ⟨hrefines, -, htasks⟩ := foldl_serial encode methods
    (show Refines (init : World).conn Ownserver.Connections.new from ⟨fun _ ↦ rfl, fun _ ↦ rfl⟩)
    rfl hcompletes
  exact ⟨hrefines, by simpa using htasks⟩

/-- `add` of `foobarClient`, `remove_by_id` of the unknown id `2`, `remove` of `foobarClient`, and
`clear`. -/
def serialMethods : List Method :=
  [.add foobarClient, .removeById ⟨2⟩, .remove foobarClient, .clear]

/-- `serialMethods` called one after another. -/
theorem serial_refines_add_remove_clear :
    Along Ownserver.Connections.step ConnectionsOp.Completes Ownserver.Connections.new
        (serialMethods.map Method.view) ∧
      Refines (run encodeNothing Shards.single (serial Shards.single 0 serialMethods)).conn
        (Ownserver.Connections.run (serialMethods.map Method.view)) :=
  ⟨by decide, (serial_refines _ (by decide)).1⟩

/-- `clear` run between the two sections of `add` leaves the added client's host registered and
its id not, whatever was registered before: the host index holds a client the id index does not,
and the state is that of neither order of the two atomic calls. -/
theorem clear_within_add_unregisters_id {adder clearer : Nat} {client : ConnectedClient}
    (hidle : w.conn.guards = []) (hne : clearer ≠ adder)
    (hadd : w.tasks[adder]? = some (Method.program shards (.add client)))
    (hclear : w.tasks[clearer]? = some (Method.program shards .clear)) :
    let raced := ((w.turn encode shards adder).alone encode shards clearer
      (Method.program shards .clear).length).turn encode shards adder
    raced.conn.clients.lookup client.id = none ∧ raced.conn.hosts.lookup client.host = some client ∧
      ∀ before : Ownserver.Connections, ¬Refines raced.conn ((before.add client.view).clear) ∧
        ¬Refines raced.conn (before.clear.add client.view) := by
  intro raced
  have hlt : adder < w.tasks.length := (List.getElem?_eq_some_iff.mp hadd).1
  -- `add` writes `clients`, `clear` runs to its end, and `add` writes `hosts`
  have hfirst : w.turn encode shards adder =
      ⟨w.conn.apply shards (.insertClient client), w.channels,
        w.tasks.set adder [.insertHost client]⟩ :=
    turn_of_idle hidle hadd rfl
  have hcleared := alone_of_touchesRef_eq_false encode shards
    (@touchesRef_program shards .clear (by simp)) (by rw [hfirst]; exact hidle)
    (show (w.turn encode shards adder).tasks[clearer]? = _ by
      rw [hfirst, List.getElem?_set_ne (Ne.symm hne), hclear])
  have hsecond : ((w.turn encode shards adder).alone encode shards clearer
      (Method.program shards .clear).length).tasks[adder]? = some [.insertHost client] := by
    rw [hcleared, hfirst, List.getElem?_set_ne hne, List.getElem?_set_self hlt]
  have hidle' : ((w.turn encode shards adder).alone encode shards clearer
      (Method.program shards .clear).length).conn.guards = [] := by
    rw [hcleared, Connections.guards_foldl_apply, hfirst]
    exact hidle
  have hlast : raced.conn = (((w.turn encode shards adder).alone encode shards clearer
      (Method.program shards .clear).length).conn).apply shards (.insertHost client) :=
    congrArg World.conn (turn_of_idle hidle' hsecond rfl)
  have hclients : raced.conn.clients.lookup client.id = none := by
    rw [hlast, hcleared, hfirst]
    rw [Method.program, Connections.foldl_apply_clear]
    simp [Connections.apply, Map.lookup_foldl_retain_range, shards.ofClient_lt]
  have hhosts : raced.conn.hosts.lookup client.host = some client := by
    rw [hlast]
    simp [Connections.apply, AList.lookup_insert]
  refine ⟨hclients, hhosts, fun before ↦ ⟨fun h ↦ ?_, fun h ↦ ?_⟩⟩
  · have := h.hosts client.host
    simp [hhosts, Ownserver.Connections.clear] at this
  · have := h.clients client.id
    simp [hclients, Ownserver.Connections.add, AList.lookup_insert, ConnectedClient.view] at this

/-- `add` of `foobarClient` and `clear`, called as the tasks `0` and `1` on a single shard. -/
def addAndClear : World :=
  run encodeNothing Shards.single [.call (.add foobarClient), .call .clear]

/-- `clear` run between the two sections of the `add` of `foobarClient`. -/
theorem clear_within_add_unregisters_id_single :
    addAndClear.conn.guards = [] ∧ (1 : Nat) ≠ 0 ∧
      addAndClear.tasks[0]? = some (Method.program Shards.single (.add foobarClient)) ∧
      addAndClear.tasks[1]? = some (Method.program Shards.single .clear) ∧
      (((addAndClear.turn encodeNothing Shards.single 0).alone encodeNothing Shards.single 1
          (Method.program Shards.single .clear).length).turn encodeNothing Shards.single
            0).conn.clients.lookup ⟨1⟩ = none :=
  ⟨rfl, by decide, rfl, rfl,
    (@clear_within_add_unregisters_id _ _ _ _ 0 1 foobarClient (by rfl) (by decide) (by rfl)
      (by rfl)).1⟩

end World

end Shared

end Ownserver
