import Mathlib.Data.List.AList

/-!
# Identifiers, addresses, packets, and the map model

The vocabulary shared by the two server crates. `ClientId` and `StreamId` are the opaque 128-bit
identifiers of the library crates, `SocketAddr` is `std::net::SocketAddr`, and `ControlPacket` and
`StreamMessage` are the messages of the control channel and of a stream's inbound channel.

`Map K V` is how a `HashMap<K, V>` or a `DashMap<K, V>` is read here: the association list of its
live entries, with key uniqueness carried by the type (Mathlib's `AList`), so that a map with a
repeated key cannot be built. Iteration order is the list's; a Rust map has none, and nothing
proved below depends on it. `retain` is `HashMap::retain`, `modify` is `get_mut` followed by a
mutation of the value found, and `lookup_retain`, `lookup_modify_self` and `lookup_modify_of_ne`
are the lookups after them that every registry proof rewrites with.

`Along step pre` says that every call of a run meets its precondition in the state it is made in,
and `Along.foldl` turns an invariant kept by every such call into an invariant of the run.
-/

set_option autoImplicit false
set_option relaxedAutoImplicit false

namespace Ownserver

/-- `ClientId`: an opaque 128-bit identifier, compared bitwise. -/
structure ClientId where
  uuid : BitVec 128
  deriving DecidableEq, Repr

/-- `StreamId`: an opaque 128-bit identifier, compared bitwise. -/
structure StreamId where
  uuid : BitVec 128
  deriving DecidableEq, Repr

/-- `std::net::SocketAddr`, read through its equality only: that of `SocketAddrV4` compares the
address and the port, that of `SocketAddrV6` also the flow label and the scope id. -/
inductive SocketAddr
  | v4 (ip : BitVec 32) (port : UInt16)
  | v6 (ip : BitVec 128) (port : UInt16) (flowinfo : UInt32) (scopeId : UInt32)
  deriving DecidableEq, Repr

/-- `Payload`, the kind of traffic a client forwards, as the client's `main` chooses it from its
`--payload` option: `UDP` for "udp", `Other` for every other value. -/
inductive Payload
  | udp
  | other
  deriving DecidableEq, Repr

/-- Modelled from the spec: `ControlPacket` is not under src/. The tagged message of the control
channel (§3 of the spec). -/
inductive ControlPacket
  | init (streamId : StreamId)
  | data (streamId : StreamId) (bytes : List UInt8)
  | endStream (streamId : StreamId)
  | refused (streamId : StreamId)
  | ping
  | pong
  | hello (token : String) (payloadKind : Payload)
  | serverHello (clientId : ClientId) (assignedPort : UInt16)
  deriving DecidableEq, Repr

/-- Modelled from the spec: `StreamMessage` is not under src/. What a stream's inbound channel
carries to its socket writer: a byte buffer or the close signal. -/
inductive StreamMessage
  | data (bytes : List UInt8)
  | close
  deriving DecidableEq, Repr

/-! ### Maps -/

/-- A `HashMap<K, V>` or `DashMap<K, V>`: the association list of its live entries. -/
abbrev Map (K V : Type) := AList fun _ : K => V

namespace Map

variable {K V : Type} [DecidableEq K]

/-- `HashMap::retain`: keep exactly the entries the predicate accepts. -/
def retain (keep : K → V → Bool) (m : Map K V) : Map K V :=
  ⟨m.entries.filter fun entry => keep entry.1 entry.2,
    m.nodupKeys.sublist (List.filter_sublist _)⟩

/-- `get_mut(&key)` followed by a mutation of the value found; an absent key is left absent. -/
def modify (key : K) (f : V → V) (m : Map K V) : Map K V :=
  match m.lookup key with
  | some value => m.insert key (f value)
  | none => m

/-- The number of live entries, `len()`. -/
def len (m : Map K V) : Nat := m.entries.length

theorem lookup_insert_eq_ite (key other : K) (value : V) (m : Map K V) :
    (m.insert key value).lookup other = if other = key then some value else m.lookup other := by
  split_ifs with h
  · subst h
    exact AList.lookup_insert m
  · exact AList.lookup_insert_ne h

theorem lookup_erase_eq_ite (key other : K) (m : Map K V) :
    (m.erase key).lookup other = if other = key then none else m.lookup other := by
  split_ifs with h
  · subst h
    exact AList.lookup_erase other m
  · exact AList.lookup_erase_ne h

@[simp] theorem lookup_retain (keep : K → V → Bool) (key : K) (m : Map K V) :
    (m.retain keep).lookup key = (m.lookup key).filter (keep key) := by
  apply Option.ext
  intro value
  change value ∈ _ ↔ value ∈ _
  rw [AList.mem_lookup_iff, Option.mem_filter_iff, AList.mem_lookup_iff]
  exact List.mem_filter

@[simp] theorem lookup_modify_self (key : K) (f : V → V) (m : Map K V) :
    (m.modify key f).lookup key = (m.lookup key).map f := by
  unfold modify
  cases h : m.lookup key <;> simp [h, AList.lookup_insert]

@[simp] theorem lookup_modify_of_ne {key other : K} (f : V → V) (m : Map K V)
    (h : other ≠ key) : (m.modify key f).lookup other = m.lookup other := by
  unfold modify
  cases m.lookup key <;> simp [AList.lookup_insert_ne h]

@[simp] theorem lookup_empty (key : K) : (∅ : Map K V).lookup key = none := rfl

/-- The values of the map, in the map's order. -/
def values (m : Map K V) : List V := m.entries.map fun entry => entry.2

omit [DecidableEq K] in
theorem length_values (m : Map K V) : m.values.length = m.len := List.length_map _ _

end Map

/-- Every entry of the map is keyed by the id `idOf` reads from its value. -/
def KeyedBy {K V : Type} [DecidableEq K] (idOf : V → K) (m : Map K V) : Prop :=
  ∀ key value, m.lookup key = some value → idOf value = key

namespace KeyedBy

variable {K V : Type} [DecidableEq K] {idOf : V → K} {m : Map K V}

theorem mem_values_iff (h : KeyedBy idOf m) {value : V} :
    value ∈ m.values ↔ m.lookup (idOf value) = some value := by
  constructor
  · intro hmem
    obtain ⟨entry, hentry, rfl⟩ := List.mem_map.mp hmem
    have hlook : m.lookup entry.1 = some entry.2 := AList.mem_lookup_iff.mpr hentry
    rwa [h _ _ hlook]
  · intro hlook
    exact List.mem_map.mpr ⟨⟨idOf value, value⟩, AList.mem_lookup_iff.mp hlook, rfl⟩

/-- Inserting a value under its own id keeps the map keyed. -/
theorem insert (h : KeyedBy idOf m) (value : V) : KeyedBy idOf (m.insert (idOf value) value) := by
  intro key found hlook
  rw [Map.lookup_insert_eq_ite] at hlook
  split_ifs at hlook with hkey
  · cases hlook
    exact hkey.symm
  · exact h key found hlook

theorem erase (h : KeyedBy idOf m) (key : K) : KeyedBy idOf (m.erase key) := by
  intro other found hlook
  rw [Map.lookup_erase_eq_ite] at hlook
  split_ifs at hlook
  exact h other found hlook

theorem retain (h : KeyedBy idOf m) (keep : K → V → Bool) : KeyedBy idOf (m.retain keep) := by
  intro key found hlook
  rw [Map.lookup_retain, Option.filter_eq_some] at hlook
  exact h key found hlook.1

/-- A map keyed by an attribute of its values holds no value twice. -/
theorem nodup_values (h : KeyedBy idOf m) : m.values.Nodup := by
  refine m.nodupKeys.nodup.map_on fun first hfirst second hsecond hvalue ↦ ?_
  refine m.nodupKeys.eq_of_fst_eq hfirst hsecond ?_
  rw [← h _ _ (AList.mem_lookup_iff.mpr hfirst), ← h _ _ (AList.mem_lookup_iff.mpr hsecond)]
  exact congrArg idOf hvalue

end KeyedBy

/-! ### Runs with preconditions -/

section Along

variable {σ O : Type} (step : σ → O → σ) (pre : σ → O → Prop)

/-- Every call of the run, in the state it is made in, meets the precondition `pre`. -/
def Along : σ → List O → Prop
  | _, [] => True
  | state, op :: rest => pre state op ∧ Along (step state op) rest

instance decidableAlong [∀ state op, Decidable (pre state op)] :
    ∀ state ops, Decidable (Along step pre state ops)
  | _, [] => isTrue trivial
  | state, op :: rest =>
    have : Decidable (Along step pre (step state op) rest) :=
      decidableAlong (step state op) rest
    inferInstanceAs (Decidable (pre state op ∧ _))

variable {step pre}

/-- Assumes: every call that meets its precondition keeps the invariant. Along a run whose calls
all meet their preconditions, the invariant holds at the end. -/
theorem Along.foldl {inv : σ → Prop} (hstep : ∀ state op, inv state → pre state op →
    inv (step state op)) {ops : List O} :
    ∀ {state : σ}, inv state → Along step pre state ops → inv (ops.foldl step state) := by
  induction ops with
  | nil => exact fun hinv _ ↦ hinv
  | cons op rest ih => exact fun hinv ⟨hop, hrest⟩ ↦ ih (hstep _ op hinv hop) hrest

end Along

end Ownserver
