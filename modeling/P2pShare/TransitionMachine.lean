import Mathlib.Tactic.Common

/-!
# Transition machines

A machine is a set of starting states and a partial step function.  Every
choice the environment makes (a schedule, a delivered byte string, a failed
write) is part of the event, so a run is a list of events and a concrete run
can be evaluated.

The file provides the induction rules that the protocol proofs share: an
invariant of all reachable states, the same for the steps a guard admits, and
the comparison of a property of the states an execution visits with a guard on
the steps it takes.
-/

namespace TransitionMachine

structure Machine (State : Type*) (Event : Type*) where
  start : State → Prop
  next : State → Event → Option State

variable {State Event : Type*} (machine : Machine State Event)

namespace Machine

/-- `machine.Leads s t`: some sequence of steps goes from `s` to `t`. -/
inductive Leads : State → State → Prop
  | refl (s : State) : Leads s s
  | step {s t u : State} (event : Event) :
      Leads s t → machine.next t event = some u → Leads s u

/-- The states of the runs that begin in a starting state. -/
def Reachable (s : State) : Prop :=
  ∃ s₀, machine.start s₀ ∧ machine.Leads s₀ s

/-- The machine that takes only the steps `guard` admits.  The guard reads the
state before the step. -/
noncomputable def restrict (guard : State → Event → Prop) :
    Machine State Event where
  start := machine.start
  next := fun s event =>
    open Classical in if guard s event then machine.next s event else none

/-- Run a list of events; `none` when one of them is not enabled. -/
def runFrom : State → List Event → Option State
  | s, [] => some s
  | s, event :: rest => (machine.next s event).bind fun t => runFrom t rest

/-- Each step of the run `events` from `s` meets the guard. -/
def Meets (guard : State → Event → Prop) : State → List Event → Prop
  | _, [] => True
  | s, event :: rest =>
      guard s event ∧ ∀ t, machine.next s event = some t → Meets guard t rest

/-- What the events of a run put in together. -/
def total (credit : Event → ℕ) : List Event → ℕ
  | [] => 0
  | event :: rest => credit event + total credit rest

/-- No event is enabled. -/
def Halted (s : State) : Prop :=
  ∀ event, machine.next s event = none

variable {machine}

theorem restrict_next_eq_some
    {guard : State → Event → Prop} {s t : State} {event : Event} :
    (machine.restrict guard).next s event = some t ↔
      machine.next s event = some t ∧ guard s event := by
  unfold restrict
  by_cases hguard : guard s event
  · simp [hguard]
  · simp [hguard]

theorem Leads.trans {s t u : State}
    (hleft : machine.Leads s t) (hright : machine.Leads t u) :
    machine.Leads s u := by
  induction hright with
  | refl => exact hleft
  | step event _ hnext ih => exact Leads.step event ih hnext

theorem Leads.single {s t : State} {event : Event}
    (hnext : machine.next s event = some t) : machine.Leads s t :=
  Leads.step event (Leads.refl s) hnext

/-- Whatever each step keeps is kept by a run. -/
theorem Leads.preserves {P : State → Prop} {s t : State}
    (hleads : machine.Leads s t) (hs : P s)
    (hstep : ∀ u event v, P u → machine.next u event = some v → P v) :
    P t := by
  induction hleads with
  | refl => exact hs
  | step event _ hnext ih => exact hstep _ event _ ih hnext

theorem Leads.of_restrict {guard : State → Event → Prop} {s t : State}
    (hleads : (machine.restrict guard).Leads s t) : machine.Leads s t := by
  induction hleads with
  | refl => exact Leads.refl s
  | step event _ hnext ih =>
      exact Leads.step event ih (restrict_next_eq_some.mp hnext).1

theorem leads_of_runFrom {s t : State} {events : List Event}
    (hrun : machine.runFrom s events = some t) : machine.Leads s t := by
  induction events generalizing s with
  | nil =>
      simp only [runFrom, Option.some.injEq] at hrun
      subst t
      exact Leads.refl s
  | cons event rest ih =>
      simp only [runFrom, Option.bind_eq_some_iff] at hrun
      obtain ⟨middle, hnext, hrest⟩ := hrun
      exact (Leads.single hnext).trans (ih hrest)

theorem total_zero (events : List Event) :
    total (fun _ => 0) events = 0 := by
  induction events with
  | nil => rfl
  | cons event rest ih => rw [total, ih]

/-- Each step is paid for by the measure or by the credit of its event. -/
theorem length_le_of_credit {P : State → Prop} {measure : State → ℕ}
    {credit : Event → ℕ} {s t : State} {events : List Event}
    (hrun : machine.runFrom s events = some t) (hs : P s)
    (hstep : ∀ u event v, P u → machine.next u event = some v →
      P v ∧ measure v < measure u + credit event) :
    events.length ≤ measure s + total credit events := by
  induction events generalizing s with
  | nil => exact Nat.zero_le _
  | cons event rest ih =>
      simp only [runFrom, Option.bind_eq_some_iff] at hrun
      obtain ⟨middle, hnext, hrest⟩ := hrun
      obtain ⟨hmiddle, hlower⟩ := hstep s event middle hs hnext
      have hlength := ih hrest hmiddle
      rw [List.length_cons, total]
      omega

/-- A measure that each step lowers bounds the length of the runs. -/
theorem length_le_of_runFrom {P : State → Prop} {measure : State → ℕ}
    {s t : State} {events : List Event}
    (hrun : machine.runFrom s events = some t) (hs : P s)
    (hstep : ∀ u event v, P u → machine.next u event = some v →
      P v ∧ measure v < measure u) :
    events.length ≤ measure s := by
  have hlength := @length_le_of_credit State Event machine P measure
    (fun _ => 0) s t events hrun hs hstep
  rw [total_zero, Nat.add_zero] at hlength
  exact hlength

theorem leads_restrict_of_runFrom {guard : State → Event → Prop} {s t : State}
    {events : List Event} (hrun : machine.runFrom s events = some t)
    (hmeets : machine.Meets guard s events) :
    (machine.restrict guard).Leads s t := by
  induction events generalizing s with
  | nil =>
      simp only [runFrom, Option.some.injEq] at hrun
      subst t
      exact Leads.refl s
  | cons event rest ih =>
      simp only [runFrom, Option.bind_eq_some_iff] at hrun
      obtain ⟨middle, hnext, hrest⟩ := hrun
      have hstep : (machine.restrict guard).next s event = some middle :=
        restrict_next_eq_some.mpr ⟨hnext, hmeets.1⟩
      exact (Leads.single hstep).trans (ih hrest (hmeets.2 middle hnext))

theorem runFrom_append {s middle t : State} {first second : List Event}
    (hfirst : machine.runFrom s first = some middle)
    (hsecond : machine.runFrom middle second = some t) :
    machine.runFrom s (first ++ second) = some t := by
  induction first generalizing s with
  | nil =>
      simp only [runFrom, Option.some.injEq] at hfirst
      rw [List.nil_append, hfirst, hsecond]
  | cons event rest ih =>
      simp only [runFrom, Option.bind_eq_some_iff] at hfirst
      obtain ⟨next, hnext, hrest⟩ := hfirst
      rw [List.cons_append, runFrom, hnext, Option.bind_some, ih hrest]

theorem meets_of_forall {guard : State → Event → Prop} {events : List Event}
    (hguard : ∀ event ∈ events, ∀ s, guard s event) (s : State) :
    machine.Meets guard s events := by
  induction events generalizing s with
  | nil => exact True.intro
  | cons event rest ih =>
      have hrest : ∀ other ∈ rest, ∀ s, guard s other := by
        intro other hother
        exact hguard other (List.mem_cons_of_mem _ hother)
      exact ⟨hguard event List.mem_cons_self s, fun t _ => ih hrest t⟩

theorem meets_append {guard : State → Event → Prop} {s middle : State}
    {first second : List Event}
    (hrun : machine.runFrom s first = some middle)
    (hfirst : machine.Meets guard s first)
    (hsecond : machine.Meets guard middle second) :
    machine.Meets guard s (first ++ second) := by
  induction first generalizing s with
  | nil =>
      simp only [runFrom, Option.some.injEq] at hrun
      subst middle
      exact hsecond
  | cons event rest ih =>
      simp only [runFrom, Option.bind_eq_some_iff] at hrun
      obtain ⟨next, hnext, hrest⟩ := hrun
      refine ⟨hfirst.1, ?_⟩
      intro t ht
      rw [hnext, Option.some.injEq] at ht
      subst t
      exact ih hrest (hfirst.2 next hnext)

/-- The simulation rule: when each step is matched by steps of another machine
that show the same labels, so is every run whose steps meet the guard. -/
theorem runFrom_simulated {State' Event' Label : Type*}
    {other : Machine State' Event'} {P : State → Prop}
    {guard : State → Event → Prop} {image : State → State'}
    {label? : Event → Option Label} {label?' : Event' → Option Label}
    {s t : State} {events : List Event} (hs : P s)
    (hmeets : machine.Meets guard s events)
    (hrun : machine.runFrom s events = some t)
    (hstep : ∀ u event v, P u → guard u event →
      machine.next u event = some v →
      P v ∧ ∃ steps, other.runFrom (image u) steps = some (image v) ∧
        steps.filterMap label?' = (label? event).toList) :
    ∃ steps, other.runFrom (image s) steps = some (image t) ∧
      steps.filterMap label?' = events.filterMap label? := by
  induction events generalizing s with
  | nil =>
      simp only [runFrom, Option.some.injEq] at hrun
      subst t
      exact ⟨[], rfl, rfl⟩
  | cons event rest ih =>
      simp only [runFrom, Option.bind_eq_some_iff] at hrun
      obtain ⟨middle, hnext, hrest⟩ := hrun
      obtain ⟨hmiddle, first, hfirst, hlabels⟩ :=
        hstep s event middle hs hmeets.1 hnext
      obtain ⟨second, hsecond, hlater⟩ :=
        ih hmiddle (hmeets.2 middle hnext) hrest
      refine ⟨first ++ second, runFrom_append hfirst hsecond, ?_⟩
      rw [List.filterMap_append, hlabels, hlater, List.filterMap_cons]
      cases label? event with
      | none => rfl
      | some label => rfl

/-- Whether a run meets a guard can be computed by taking its steps. -/
instance decidableMeets {guard : State → Event → Prop}
    [∀ s event, Decidable (guard s event)] :
    ∀ s events, Decidable (machine.Meets guard s events)
  | _, [] => isTrue True.intro
  | s, event :: rest =>
      match hnext : machine.next s event with
      | none =>
          decidable_of_iff (guard s event)
            ⟨fun hguard => ⟨hguard, fun t ht => by
              rw [hnext] at ht
              contradiction⟩, fun hmeets => hmeets.1⟩
      | some t =>
          have hrest : Decidable (machine.Meets guard t rest) :=
            decidableMeets t rest
          decidable_of_iff (guard s event ∧ machine.Meets guard t rest)
            ⟨fun hmeets => ⟨hmeets.1, fun u hu => by
              rw [hnext, Option.some.injEq] at hu
              exact hu ▸ hmeets.2⟩, fun hmeets =>
                ⟨hmeets.1, hmeets.2 t hnext⟩⟩

namespace Reachable

theorem of_start {s : State} (hstart : machine.start s) :
    machine.Reachable s :=
  ⟨s, hstart, Leads.refl s⟩

theorem step {s t : State} {event : Event}
    (hreach : machine.Reachable s)
    (hnext : machine.next s event = some t) : machine.Reachable t := by
  obtain ⟨s₀, hstart, hleads⟩ := hreach
  exact ⟨s₀, hstart, Leads.step event hleads hnext⟩

theorem leads {s t : State} (hreach : machine.Reachable s)
    (hleads : machine.Leads s t) : machine.Reachable t := by
  obtain ⟨s₀, hstart, hbefore⟩ := hreach
  exact ⟨s₀, hstart, hbefore.trans hleads⟩

theorem of_runFrom {s t : State} {events : List Event}
    (hstart : machine.start s)
    (hrun : machine.runFrom s events = some t) : machine.Reachable t :=
  (of_start hstart).leads (leads_of_runFrom hrun)

theorem of_restrict {guard : State → Event → Prop} {s : State}
    (hreach : (machine.restrict guard).Reachable s) :
    machine.Reachable s := by
  obtain ⟨s₀, hstart, hleads⟩ := hreach
  exact ⟨s₀, hstart, hleads.of_restrict⟩

/-- The invariant rule. -/
theorem invariant {P : State → Prop} {s : State}
    (hreach : machine.Reachable s)
    (hstart : ∀ s₀, machine.start s₀ → P s₀)
    (hstep : ∀ u event v, P u → machine.next u event = some v → P v) :
    P s := by
  obtain ⟨s₀, hs₀, hleads⟩ := hreach
  exact hleads.preserves (hstart s₀ hs₀) hstep

/-- The invariant rule for the runs whose steps all meet a guard. -/
theorem invariant_restrict
    {guard : State → Event → Prop} {P : State → Prop} {s : State}
    (hreach : (machine.restrict guard).Reachable s)
    (hstart : ∀ s₀, machine.start s₀ → P s₀)
    (hstep : ∀ u event v,
      P u → guard u event → machine.next u event = some v → P v) :
    P s := by
  apply hreach.invariant hstart
  intro u event v hu hnext
  obtain ⟨hfree, hguard⟩ := restrict_next_eq_some.mp hnext
  exact hstep u event v hu hguard hfree

end Reachable

/-! ## Executions with their history -/

variable (machine) in
/-- An execution from a starting state, with every state it left and the event
it left it by, the latest first. -/
inductive Execution : List (State × Event) → State → Prop
  | start {s : State} : machine.start s → Execution [] s
  | step {history : List (State × Event)} {s t : State} (event : Event) :
      Execution history s → machine.next s event = some t →
      Execution ((s, event) :: history) t

theorem Execution.reachable
    {history : List (State × Event)} {s : State}
    (hexec : machine.Execution history s) : machine.Reachable s := by
  induction hexec with
  | start hstart => exact Reachable.of_start hstart
  | step event _ hnext ih => exact ih.step hnext

/-- The invariant rule for a property of a state and the history that led to
it, in the executions whose steps all meet a guard. -/
theorem Execution.preserves
    {P : List (State × Event) → State → Prop} {guard : State → Event → Prop}
    {history : List (State × Event)} {s : State}
    (hexec : machine.Execution history s)
    (hmeets : ∀ entry ∈ history, guard entry.1 entry.2)
    (hstart : ∀ s₀, machine.start s₀ → P [] s₀)
    (hstep : ∀ earlier u event v, P earlier u → guard u event →
      machine.next u event = some v → P ((u, event) :: earlier) v) :
    P history s := by
  induction hexec with
  | start hs => exact hstart _ hs
  | @step earlier u v event _ hnext ih =>
      have hguard : guard u event := hmeets (u, event) List.mem_cons_self
      apply hstep earlier u event v _ hguard hnext
      exact ih fun entry hentry =>
        hmeets entry (List.mem_cons_of_mem _ hentry)

variable (machine) in
/-- What the run `events` from `s` adds to a history. -/
def visits : State → List Event → List (State × Event)
  | _, [] => []
  | s, event :: rest =>
      match machine.next s event with
      | none => []
      | some t => visits t rest ++ [(s, event)]

theorem Execution.of_runFrom {history : List (State × Event)} {s t : State}
    {events : List Event} (hexec : machine.Execution history s)
    (hrun : machine.runFrom s events = some t) :
    machine.Execution (machine.visits s events ++ history) t := by
  induction events generalizing s history with
  | nil =>
      simp only [runFrom, Option.some.injEq] at hrun
      subst t
      exact hexec
  | cons event rest ih =>
      simp only [runFrom, Option.bind_eq_some_iff] at hrun
      obtain ⟨middle, hnext, hrest⟩ := hrun
      have hlater := ih (Execution.step event hexec hnext) hrest
      unfold visits
      rw [hnext, List.append_assoc]
      exact hlater

/-- `P` holds in every state the execution visits. -/
def Throughout (P : State → Prop)
    (history : List (State × Event)) (s : State) : Prop :=
  P s ∧ ∀ entry ∈ history, P entry.1

/-- A run to a reachable state, with its history. -/
theorem Reachable.execution {s : State} (hreach : machine.Reachable s) :
    ∃ history, machine.Execution history s := by
  rcases hreach with ⟨s₀, hstart, hleads⟩
  induction hleads with
  | refl => exact ⟨[], Execution.start hstart⟩
  | step event _ hnext ih =>
      rcases ih with ⟨history, hexec⟩
      exact ⟨_, Execution.step event hexec hnext⟩

/-- If a step breaks `P` exactly when it violates `guard`, then `P` holds
throughout an execution exactly when all its steps meet the guard. -/
theorem Execution.throughout_iff
    {P : State → Prop} {guard : State → Event → Prop}
    {history : List (State × Event)} {s : State}
    (hexec : machine.Execution history s)
    (hstart : ∀ s₀, machine.start s₀ → P s₀)
    (hstep : ∀ u event v, machine.Reachable u → P u →
      machine.next u event = some v → (P v ↔ guard u event)) :
    Throughout P history s ↔ ∀ entry ∈ history, guard entry.1 entry.2 := by
  induction hexec with
  | start hs => simp [Throughout, hstart _ hs]
  | @step history u v event hbefore hnext ih =>
      have hexact : P u → (P v ↔ guard u event) := fun hu =>
        hstep u event v hbefore.reachable hu hnext
      constructor
      · rintro ⟨hv, hhistory⟩ entry hentry
        have hu : P u := hhistory (u, event) List.mem_cons_self
        have hearlier : Throughout P history u :=
          ⟨hu, fun other hother =>
            hhistory other (List.mem_cons_of_mem _ hother)⟩
        rcases List.mem_cons.mp hentry with rfl | hentry
        · exact (hexact hu).mp hv
        · exact ih.mp hearlier entry hentry
      · intro hguards
        have hearlier : Throughout P history u := ih.mpr fun other hother =>
          hguards other (List.mem_cons_of_mem _ hother)
        have hguard : guard u event := hguards (u, event) List.mem_cons_self
        refine ⟨(hexact hearlier.1).mpr hguard, ?_⟩
        intro entry hentry
        rcases List.mem_cons.mp hentry with rfl | hentry
        · exact hearlier.1
        · exact hearlier.2 entry hentry

end Machine

end TransitionMachine
