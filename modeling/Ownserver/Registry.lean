import Ownserver.Basic

/-!
# Two-phase deletion

The server keeps its clients and its streams in registries that delete in two phases (§3 and
§4.3 of the spec): `disable` marks an entry terminal and leaves it in place, and a later sweep
removes every disabled entry at once. This module states that discipline once, for a registry of
any kind, so that the Store's two registries share one proof.

`RegistryOp` is what one operation of a component does to one registry, and `RegistryOp.apply`
carries it out on the map: an add is `insert`, a disable is `get_mut` followed by the entry's own
`disable()`, a sweep is `retain` of the entries that are not disabled. `Phase` is the abstract
model: the life of one key, from `unborn` through `live` and `disabled` to `swept`, driven by the
`LifeEvent` each operation is for that key (`RegistryOp.event`).

`flag_runMap` is the refinement: along every run, the disabled flag the map shows under a key is
the flag of the key's phase. `mem_runMap_iff` reads it back as positions in the run: when every
add carries a fresh key, a key is present exactly when some operation added it and no sweep has
run since the entry became disabled (`SweptIn`). `mem_apply_of_not_disabled` and
`disabled_runMap_append_singleton` are the two monotonicity facts: no operation removes an entry
that is not disabled, and along a run with fresh keys no operation clears a disabled flag.
-/

set_option autoImplicit false
set_option relaxedAutoImplicit false

namespace Ownserver

/-! ### The lifecycle of one key -/

/-- What an operation is for one key of a registry: an add under the key (of an entry already
disabled or not), a disable of the key, a sweep of the whole registry, or nothing. -/
inductive LifeEvent
  | add (born : Bool)
  | disable
  | sweep
  | other
  deriving DecidableEq, Repr

/-- Where one key stands under two-phase deletion: never added, added and live, disabled and
awaiting the sweep, or swept. -/
inductive Phase
  | unborn
  | live
  | disabled
  | swept
  deriving DecidableEq, Repr

namespace Phase

/-- The phase an add enters: an entry added already disabled awaits the sweep at once. -/
def born (isDisabled : Bool) : Phase := if isDisabled then .disabled else .live

/-- A disable marks a live key; a key in any other phase is left where it is. -/
def disable : Phase → Phase
  | .live => .disabled
  | phase => phase

/-- A sweep removes a disabled key; a key in any other phase is left where it is. -/
def sweep : Phase → Phase
  | .disabled => .swept
  | phase => phase

/-- One event of the discipline. An add replaces whatever stood under the key. -/
def step (phase : Phase) : LifeEvent → Phase
  | .add isDisabled => born isDisabled
  | .disable => phase.disable
  | .sweep => phase.sweep
  | .other => phase

/-- What a registry shows of a phase: the disabled flag of the entry under the key, if any. -/
def flag : Phase → Option Bool
  | .live => some false
  | .disabled => some true
  | _ => none

@[simp] theorem step_add (phase : Phase) (isDisabled : Bool) :
    phase.step (.add isDisabled) = born isDisabled := rfl

@[simp] theorem step_other (phase : Phase) : phase.step .other = phase := rfl

@[simp] theorem born_disable (isDisabled : Bool) : (born isDisabled).disable = born true := by
  cases isDisabled <;> rfl

theorem flag_eq_some_false_iff {phase : Phase} : phase.flag = some false ↔ phase = .live := by
  cases phase <;> simp [flag]

@[simp] theorem flag_born (isDisabled : Bool) : (born isDisabled).flag = some isDisabled := by
  cases isDisabled <;> rfl

/-- Without an add, a phase that neither a disable nor a sweep moves stays where it is: a swept
key stays swept, and a key never added stays unborn. -/
theorem foldl_step_of_fixed {phase : Phase} (hdisable : phase.disable = phase)
    (hsweep : phase.sweep = phase) {events : List LifeEvent}
    (hadd : ∀ born, LifeEvent.add born ∉ events) : events.foldl step phase = phase := by
  induction events with
  | nil => rfl
  | cons event rest ih =>
    have hfixed : phase.step event = phase := by
      cases event with
      | add born => exact absurd (List.mem_cons_self _ _) (hadd born)
      | disable => exact hdisable
      | sweep => exact hsweep
      | other => rfl
    rw [List.foldl_cons, hfixed]
    exact ih fun born h ↦ hadd born (List.mem_cons_of_mem _ h)

/-- Without an add, only a live key ends live: nothing brings a disabled or swept key back. -/
theorem eq_live_of_foldl_step {events : List LifeEvent}
    (hadd : ∀ born, LifeEvent.add born ∉ events) {phase : Phase}
    (h : events.foldl step phase = .live) : phase = .live := by
  induction events generalizing phase with
  | nil => exact h
  | cons event rest ih =>
    have hstep := ih (fun born h ↦ hadd born (List.mem_cons_of_mem _ h)) h
    cases event with
    | add born => exact absurd (List.mem_cons_self _ _) (hadd born)
    | disable => cases phase <;> simp_all [step, disable]
    | sweep => cases phase <;> simp_all [step, sweep]
    | other => exact hstep

end Phase

/-! ### Sweeps after a disable, by position -/

/-- Some sweep among `events` comes after the entry was disabled: at its add when `born`, or by a
disable before that sweep. -/
def SweptIn (born : Bool) (events : List LifeEvent) : Prop :=
  ∃ before after, events = before ++ .sweep :: after ∧ (born = true ∨ LifeEvent.disable ∈ before)

theorem not_sweptIn_nil (born : Bool) : ¬ SweptIn born [] := by
  rintro ⟨before, after, h, -⟩
  simp at h

theorem sweptIn_sweep_cons (born : Bool) (events : List LifeEvent) :
    SweptIn born (.sweep :: events) ↔ born = true ∨ SweptIn born events := by
  constructor
  · rintro ⟨before, after, h, hborn⟩
    rcases List.cons_eq_append_iff.mp h with ⟨rfl, -⟩ | ⟨before', rfl, rfl⟩
    · exact .inl (by simpa using hborn)
    · cases born
      · exact .inr ⟨before', after, rfl, by simpa using hborn⟩
      · exact .inl rfl
  · rintro (hborn | ⟨before, after, rfl, hborn⟩)
    · exact ⟨[], events, rfl, .inl hborn⟩
    · exact ⟨.sweep :: before, after, rfl, by simpa using hborn⟩

/-- An entry added live and never disabled is never swept. -/
theorem not_sweptIn_false {events : List LifeEvent} (h : LifeEvent.disable ∉ events) :
    ¬ SweptIn false events := by
  rintro ⟨before, after, rfl, hborn | hmem⟩
  · cases hborn
  · exact h (List.mem_append_left _ hmem)

/-- An event other than a sweep moves the window of a later sweep; a disable marks the entry. -/
theorem sweptIn_cons_of_ne_sweep {event : LifeEvent} (hevent : event ≠ .sweep) (born : Bool)
    (events : List LifeEvent) :
    SweptIn born (event :: events) ↔ SweptIn (born || decide (event = .disable)) events := by
  constructor
  · rintro ⟨before, after, h, hborn⟩
    rcases List.cons_eq_append_iff.mp h with ⟨rfl, h'⟩ | ⟨before', rfl, rfl⟩
    · exact absurd (List.cons.inj h').1.symm hevent
    · refine ⟨before', after, rfl, ?_⟩
      rcases hborn with rfl | hmem
      · exact .inl rfl
      · rcases List.mem_cons.mp hmem with rfl | hmem
        · simp
        · exact .inr hmem
  · rintro ⟨before, after, rfl, hborn⟩
    refine ⟨event :: before, after, rfl, ?_⟩
    cases born <;> by_cases hdis : event = .disable <;> simp_all

/-- With no add among the events, an entry added with flag `born` is still present after them
exactly when no sweep has come after it was disabled. -/
theorem flag_isSome_foldl_born_iff {events : List LifeEvent}
    (hadd : ∀ born, LifeEvent.add born ∉ events) (born : Bool) :
    (events.foldl Phase.step (.born born)).flag.isSome ↔ ¬ SweptIn born events := by
  induction events generalizing born with
  | nil => simp [not_sweptIn_nil]
  | cons event rest ih =>
    have hrest : ∀ born, LifeEvent.add born ∉ rest := fun born h ↦
      hadd born (List.mem_cons_of_mem _ h)
    cases event with
    | add born' => exact absurd (List.mem_cons_self _ _) (hadd born')
    | disable =>
      rw [sweptIn_cons_of_ne_sweep (by decide), List.foldl_cons, Phase.step, Phase.born_disable]
      simpa using ih hrest true
    | other =>
      rw [sweptIn_cons_of_ne_sweep (by decide), List.foldl_cons, Phase.step_other]
      simpa using ih hrest born
    | sweep =>
      rw [sweptIn_sweep_cons, List.foldl_cons]
      cases born with
      | false => simpa [Phase.step, Phase.born, Phase.sweep] using ih hrest false
      | true =>
        have hswept := @Phase.foldl_step_of_fixed .swept rfl rfl _ hrest
        simp [Phase.step, Phase.born, Phase.sweep, hswept, Phase.flag]

/-- With no add among the events, an entry added with flag `born` is still live after them
exactly when it was added live and no disable came since. -/
theorem foldl_born_eq_live_iff {events : List LifeEvent}
    (hadd : ∀ born, LifeEvent.add born ∉ events) (born : Bool) :
    events.foldl Phase.step (.born born) = .live ↔ born = false ∧ LifeEvent.disable ∉ events := by
  induction events generalizing born with
  | nil => cases born <;> simp [Phase.born]
  | cons event rest ih =>
    have hrest : ∀ born, LifeEvent.add born ∉ rest := fun born h ↦
      hadd born (List.mem_cons_of_mem _ h)
    cases event with
    | add born' => exact absurd (List.mem_cons_self _ _) (hadd born')
    | disable =>
      rw [List.foldl_cons, Phase.step, Phase.born_disable, ih hrest]
      simp
    | other => simpa using ih hrest born
    | sweep =>
      cases born with
      | false => simpa [Phase.step, Phase.born, Phase.sweep] using ih hrest false
      | true =>
        have hswept := @Phase.foldl_step_of_fixed .swept rfl rfl _ hrest
        simp [Phase.step, Phase.born, Phase.sweep, hswept]

/-! ### Registries -/

/-- What one operation of a component does to one of its registries. -/
inductive RegistryOp (K V : Type)
  | add (key : K) (value : V)
  | disable (key : K)
  | sweep
  | skip

namespace RegistryOp

variable {K V : Type} [DecidableEq K] (disable : V → V) (disabled : V → Bool)

/-- The registry after the operation: `insert`, `get_mut` and `disable()` of the entry found, or
`retain` of the entries that are not disabled. -/
def apply : RegistryOp K V → Map K V → Map K V
  | .add key value, m => m.insert key value
  | .disable key, m => m.modify key disable
  | .sweep, m => m.retain fun _ value => !disabled value
  | .skip, m => m

/-- The event the operation is for the key `k`. -/
def event (k : K) : RegistryOp K V → LifeEvent
  | .add key value => if key = k then .add (disabled value) else .other
  | .disable key => if key = k then .disable else .other
  | .sweep => .sweep
  | .skip => .other

/-- The key an add carries. -/
def addedKey : RegistryOp K V → Option K
  | .add key _ => some key
  | _ => none

variable {disable disabled}

theorem addedKey_of_event_eq_add {k : K} {op : RegistryOp K V} {born : Bool}
    (h : op.event disabled k = .add born) : op.addedKey = some k := by
  cases op with
  | add key value =>
    by_cases hkey : key = k
    · simp [addedKey, hkey]
    · simp [event, hkey] at h
  | disable key =>
    by_cases hkey : key = k <;> simp [event, hkey] at h
  | sweep | skip => simp [event] at h

/-- The refinement step: if the map shows the flag of the key's phase, it still does after the
operation, with the phase moved by the operation's event. -/
theorem flag_apply (hdisable : ∀ value, disabled (disable value) = true) (op : RegistryOp K V)
    {m : Map K V} {k : K} {phase : Phase} (h : (m.lookup k).map disabled = phase.flag) :
    ((op.apply disable disabled m).lookup k).map disabled =
      (phase.step (op.event disabled k)).flag := by
  cases op with
  | add key value =>
    by_cases hkey : k = key
    · subst hkey
      simp [apply, event, Map.lookup_insert_eq_ite]
    · simp [apply, event, Map.lookup_insert_eq_ite, hkey, Ne.symm hkey, h]
  | disable key =>
    by_cases hkey : k = key
    · subst hkey
      simp only [apply, event, if_true, Map.lookup_modify_self, Option.map_map]
      cases hlook : m.lookup k <;> cases phase <;> simp_all [Phase.flag, Phase.step, Phase.disable]
    · simp [apply, event, hkey, Ne.symm hkey, h]
  | sweep =>
    simp only [apply, event, Map.lookup_retain]
    cases hlook : m.lookup k with
    | none => cases phase <;> simp_all [Phase.flag, Phase.step, Phase.sweep]
    | some value =>
      cases hvalue : disabled value <;> cases phase <;>
        simp_all [Phase.flag, Phase.step, Phase.sweep]
  | skip => exact h

/-- No operation removes an entry that is not disabled. -/
theorem mem_apply_of_not_disabled (op : RegistryOp K V) {m : Map K V} {k : K} {value : V}
    (hlook : m.lookup k = some value) (hlive : disabled value = false) :
    k ∈ op.apply disable disabled m := by
  rw [← AList.lookup_isSome]
  cases op with
  | add key value' =>
    by_cases hkey : k = key <;> simp [apply, Map.lookup_insert_eq_ite, hkey, hlook]
  | disable key =>
    by_cases hkey : k = key
    · subst hkey
      simp [apply, hlook]
    · simp [apply, hkey, hlook]
  | sweep => simp [apply, hlook, hlive, Option.filter_some]
  | skip => simp [apply, hlook]

/-- Assumes: `disable` keeps the attribute `attr`. An entry after an operation is the one the
operation added under its key, or carries the attribute of the entry that stood there before. -/
theorem lookup_apply_eq_some {α : Type} {attr : V → α}
    (hattr : ∀ value, attr (disable value) = attr value) (op : RegistryOp K V) {m : Map K V}
    {k : K} {value : V} (hlook : (op.apply disable disabled m).lookup k = some value) :
    op = .add k value ∨ ∃ found, m.lookup k = some found ∧ attr value = attr found := by
  cases op with
  | add key added =>
    rw [apply, Map.lookup_insert_eq_ite] at hlook
    split_ifs at hlook with hkey
    · cases hlook
      exact .inl (hkey ▸ rfl)
    · exact .inr ⟨value, hlook, rfl⟩
  | disable key =>
    rw [apply] at hlook
    by_cases hkey : k = key
    · subst hkey
      rw [Map.lookup_modify_self] at hlook
      obtain ⟨found, hfound, rfl⟩ := Option.map_eq_some'.mp hlook
      exact .inr ⟨found, hfound, hattr found⟩
    · exact .inr ⟨value, by rwa [Map.lookup_modify_of_ne _ _ hkey] at hlook, rfl⟩
  | sweep =>
    rw [apply, Map.lookup_retain, Option.filter_eq_some] at hlook
    exact .inr ⟨value, hlook.1, rfl⟩
  | skip => exact .inr ⟨value, hlook, rfl⟩

end RegistryOp

/-! ### Runs -/

section Runs

variable {O K V : Type} [DecidableEq K] (disable : V → V) (disabled : V → Bool)
  (proj : O → RegistryOp K V)

/-- The registry after a run of operations from the empty map. -/
def runMap (ops : List O) : Map K V :=
  ops.foldl (fun m op => (proj op).apply disable disabled m) ∅

/-- The events a run is for the key `k`. -/
def eventsOf (k : K) (ops : List O) : List LifeEvent :=
  ops.map fun op => (proj op).event disabled k

/-- The phase of the key `k` after a run. -/
def phaseAlong (k : K) (ops : List O) : Phase :=
  (eventsOf disabled proj k ops).foldl Phase.step .unborn

/-- Every add of the run carries a key that no earlier add carried. -/
def FreshKeys (ops : List O) : Prop :=
  (ops.filterMap fun op => (proj op).addedKey).Nodup

instance [DecidableEq K] (ops : List O) : Decidable (FreshKeys proj ops) :=
  inferInstanceAs (Decidable (List.Nodup _))

variable {disable disabled proj}

@[simp] theorem runMap_append_singleton (ops : List O) (op : O) :
    runMap disable disabled proj (ops ++ [op]) =
      (proj op).apply disable disabled (runMap disable disabled proj ops) := by
  simp [runMap]

@[simp] theorem phaseAlong_append_singleton (k : K) (ops : List O) (op : O) :
    phaseAlong disabled proj k (ops ++ [op]) =
      (phaseAlong disabled proj k ops).step ((proj op).event disabled k) := by
  simp [phaseAlong, eventsOf]

theorem phaseAlong_append (k : K) (ops more : List O) :
    phaseAlong disabled proj k (ops ++ more) =
      (eventsOf disabled proj k more).foldl Phase.step (phaseAlong disabled proj k ops) := by
  simp [phaseAlong, eventsOf]

/-- A key live after a run, with no add of it in the run's last part `more`, was live at every
point of `more`. -/
theorem phaseAlong_take_eq_live {k : K} {ops more : List O}
    (hnoadd : ∀ born, LifeEvent.add born ∉ eventsOf disabled proj k more)
    (hlive : phaseAlong disabled proj k (ops ++ more) = .live) (n : Nat) :
    phaseAlong disabled proj k (ops ++ more.take n) = .live := by
  rw [← List.take_append_drop n more, ← List.append_assoc, phaseAlong_append] at hlive
  exact Phase.eq_live_of_foldl_step
    (fun born hborn ↦ hnoadd born (List.map_subset _ (List.drop_subset n more) hborn)) hlive

/-- The refinement: along every run, the map shows under each key the flag of its phase. -/
theorem flag_runMap (hdisable : ∀ value, disabled (disable value) = true) (k : K)
    (ops : List O) :
    ((runMap disable disabled proj ops).lookup k).map disabled =
      (phaseAlong disabled proj k ops).flag := by
  induction ops using List.reverseRecOn with
  | nil => rfl
  | append_singleton ops op ih =>
    rw [runMap_append_singleton, phaseAlong_append_singleton]
    exact RegistryOp.flag_apply hdisable (proj op) ih

theorem mem_runMap_iff_flag_isSome (hdisable : ∀ value, disabled (disable value) = true)
    (k : K) (ops : List O) :
    k ∈ runMap disable disabled proj ops ↔ (phaseAlong disabled proj k ops).flag.isSome := by
  rw [← flag_runMap hdisable, ← AList.lookup_isSome]
  cases (runMap disable disabled proj ops).lookup k <;> rfl

/-- With fresh keys, nothing after the add of a key adds it again. -/
theorem no_add_after_of_freshKeys {pre mid : List O} {op : O} {k : K}
    (hfresh : FreshKeys proj (pre ++ op :: mid)) (hop : (proj op).addedKey = some k) :
    ∀ born, LifeEvent.add born ∉ eventsOf disabled proj k mid := by
  intro born hmem
  obtain ⟨other, hother, hevent⟩ := List.mem_map.mp hmem
  unfold FreshKeys at hfresh
  simp only [List.filterMap_append, List.filterMap_cons, hop] at hfresh
  rw [List.nodup_middle] at hfresh
  exact (List.nodup_cons.mp hfresh).1 (List.mem_append_right _
    (List.mem_filterMap.mpr ⟨other, hother, RegistryOp.addedKey_of_event_eq_add hevent⟩))

/-- A key whose phase is not `unborn` was added by some operation of the run. -/
theorem exists_added_of_phaseAlong_ne_unborn {k : K} {ops : List O}
    (h : phaseAlong disabled proj k ops ≠ .unborn) :
    ∃ op ∈ ops, ∃ value, proj op = .add k value := by
  by_contra hnone
  refine h (@Phase.foldl_step_of_fixed .unborn rfl rfl _ fun born hmem ↦ hnone ?_)
  obtain ⟨op, hop, hevent⟩ := List.mem_map.mp hmem
  have hkey := RegistryOp.addedKey_of_event_eq_add hevent
  cases hproj : proj op with
  | add key value =>
    rw [hproj] at hkey
    cases hkey
    exact ⟨op, hop, value, hproj⟩
  | disable _ | sweep | skip => simp [hproj, RegistryOp.addedKey] at hkey

/-- The phase of a key after its add and the operations since. -/
theorem phaseAlong_add {pre mid : List O} {op : O} {k : K} {value : V}
    (hop : proj op = .add k value) :
    phaseAlong disabled proj k (pre ++ op :: mid) =
      (eventsOf disabled proj k mid).foldl Phase.step (.born (disabled value)) := by
  simp [phaseAlong, eventsOf, hop, RegistryOp.event]

/-- Two-phase deletion by position: with fresh keys, a key is present after a run exactly when
some operation added it and no sweep has run since the entry became disabled. -/
theorem mem_runMap_iff (hdisable : ∀ value, disabled (disable value) = true) {ops : List O}
    (hfresh : FreshKeys proj ops) (k : K) :
    k ∈ runMap disable disabled proj ops ↔
      ∃ pre op mid value, ops = pre ++ op :: mid ∧ proj op = .add k value ∧
        ¬ SweptIn (disabled value) (eventsOf disabled proj k mid) := by
  rw [mem_runMap_iff_flag_isSome hdisable]
  constructor
  · intro hpresent
    have hborn : phaseAlong disabled proj k ops ≠ .unborn := fun h ↦ by
      simp [h, Phase.flag] at hpresent
    obtain ⟨op, hop, value, hvalue⟩ := exists_added_of_phaseAlong_ne_unborn hborn
    obtain ⟨pre, mid, rfl⟩ := List.append_of_mem hop
    have hkey : (proj op).addedKey = some k := by simp [hvalue, RegistryOp.addedKey]
    rw [phaseAlong_add hvalue,
      flag_isSome_foldl_born_iff (no_add_after_of_freshKeys hfresh hkey)] at hpresent
    exact ⟨pre, op, mid, value, rfl, hvalue, hpresent⟩
  · rintro ⟨pre, op, mid, value, rfl, hop, hswept⟩
    have hkey : (proj op).addedKey = some k := by simp [hop, RegistryOp.addedKey]
    rwa [phaseAlong_add hop, flag_isSome_foldl_born_iff (no_add_after_of_freshKeys hfresh hkey)]

/-- With fresh keys, no operation clears the disabled flag of an entry: the entry under a key
disabled before a step is disabled after it, if there is one. -/
theorem disabled_runMap_append_singleton (hdisable : ∀ value, disabled (disable value) = true)
    {ops : List O} {op : O} (hfresh : FreshKeys proj (ops ++ [op])) {k : K} {value value' : V}
    (hlook : (runMap disable disabled proj ops).lookup k = some value)
    (hdis : disabled value = true)
    (hlook' : (runMap disable disabled proj (ops ++ [op])).lookup k = some value') :
    disabled value' = true := by
  have hbefore : (phaseAlong disabled proj k ops).flag = some true := by
    rw [← flag_runMap hdisable, hlook, Option.map_some', hdis]
  suffices hafter : (phaseAlong disabled proj k (ops ++ [op])).flag ≠ some false by
    rw [← flag_runMap hdisable, hlook', Option.map_some'] at hafter
    simpa using hafter
  rw [phaseAlong_append_singleton]
  have hphase : phaseAlong disabled proj k ops = .disabled := by
    cases hp : phaseAlong disabled proj k ops <;> simp_all [Phase.flag]
  have hnoadd : ∀ born, (proj op).event disabled k ≠ .add born := by
    intro born hevent
    obtain ⟨other, hother, value, hvalue⟩ :=
      exists_added_of_phaseAlong_ne_unborn (hphase ▸ (by decide : Phase.disabled ≠ .unborn))
    unfold FreshKeys at hfresh
    simp only [List.filterMap_append, List.filterMap_cons, List.filterMap_nil,
      RegistryOp.addedKey_of_event_eq_add hevent] at hfresh
    exact List.disjoint_of_nodup_append hfresh
      (List.mem_filterMap.mpr ⟨other, hother, by simp [hvalue, RegistryOp.addedKey]⟩)
      (List.mem_singleton_self k)
  rw [hphase]
  cases hevent : (proj op).event disabled k with
  | add born => exact absurd hevent (hnoadd born)
  | disable | sweep | other => simp [Phase.step, Phase.disable, Phase.sweep, Phase.flag]

/-- Assumes: `disable` keeps the attribute `attr`. Every entry of a registry after a run carries
the attribute of an entry some operation of the run added under its key. -/
theorem exists_add_of_lookup_runMap {α : Type} {attr : V → α}
    (hattr : ∀ value, attr (disable value) = attr value) {ops : List O} {k : K} {value : V}
    (hlook : (runMap disable disabled proj ops).lookup k = some value) :
    ∃ op ∈ ops, ∃ added, proj op = .add k added ∧ attr value = attr added := by
  induction ops using List.reverseRecOn generalizing value with
  | nil => simp [runMap] at hlook
  | append_singleton ops op ih =>
    rw [runMap_append_singleton] at hlook
    rcases RegistryOp.lookup_apply_eq_some hattr (proj op) hlook with hadd | ⟨found, hfound, hsame⟩
    · exact ⟨op, List.mem_append_right _ (List.mem_singleton_self op), value, hadd, rfl⟩
    · obtain ⟨op', hop', added, hadded, hattr'⟩ := ih hfound
      exact ⟨op', List.mem_append_left _ hop', added, hadded, hsame.trans hattr'⟩

omit [DecidableEq K] in
/-- With fresh keys, one key is added by one operation only. -/
theorem FreshKeys.eq_of_add {ops : List O} (hfresh : FreshKeys proj ops) {op op' : O}
    (hop : op ∈ ops) (hop' : op' ∈ ops) {k : K}
    (hkey : (proj op).addedKey = some k) (hkey' : (proj op').addedKey = some k) : op = op' := by
  induction ops with
  | nil => simp at hop
  | cons first rest ih =>
    unfold FreshKeys at hfresh ih
    have hrest : (rest.filterMap fun op => (proj op).addedKey).Nodup :=
      hfresh.sublist ((List.sublist_cons_self _ _).filterMap _)
    have hfirst : (proj first).addedKey = some k →
        k ∉ rest.filterMap fun op => (proj op).addedKey := by
      intro h
      simp only [List.filterMap_cons, h] at hfresh
      exact (List.nodup_cons.mp hfresh).1
    rcases List.mem_cons.mp hop with rfl | hmem <;> rcases List.mem_cons.mp hop' with rfl | hmem'
    · rfl
    · exact absurd (List.mem_filterMap.mpr ⟨op', hmem', hkey'⟩) (hfirst hkey)
    · exact absurd (List.mem_filterMap.mpr ⟨op, hmem, hkey⟩) (hfirst hkey')
    · exact ih hrest hmem hmem'

end Runs

end Ownserver
