import PlusWeb.Library.Runs

/-!
# Actions with exceptions, a trace and a continuation

An action transforms a state and returns or throws; the state it leaves is
kept in both cases.  A traced state carries, beside the state proper, the
list of the events so far.

A `Script` is the body of a callback that is handed a continuation `next`.
It may work on the state, call `next` any number of times, react to what
each call did, and throw.  Running a script only ever sees the traced state
through these steps, so it can neither drop nor forge an event.

The rules say what a script preserves in terms of what its steps and the
continuation preserve.  Events, exceptions and states are arbitrary types.
-/

namespace PlusWeb

/-- How a call ends. -/
inductive Outcome (ε : Type) where
  | returned
  | threw (exception : ε)
deriving DecidableEq, Repr

/-- A call that works on a state of type `σ`. -/
abbrev Action (ε σ : Type) := σ → Outcome ε × σ

namespace Action

variable {ε σ : Type}

/-- Do nothing. -/
def skip : Action ε σ := fun state => (.returned, state)

/-- Update the state. -/
def modify (update : σ → σ) : Action ε σ :=
  fun state => (.returned, update state)

/-- Run the second action unless the first one throws. -/
def seq (first second : Action ε σ) : Action ε σ := fun state =>
  match first state with
  | (.returned, state) => second state
  | (.threw exception, state) => (.threw exception, state)

/--
An action that takes states in `before` to states in `after`, whether it
returns or throws.
-/
def Leads (before after : σ → Prop) (action : Action ε σ) : Prop :=
  ∀ state, before state → after (action state).2

/-- An action that keeps an invariant. -/
abbrev Preserves (invariant : σ → Prop) (action : Action ε σ) : Prop :=
  Leads invariant invariant action

theorem preserves_skip (invariant : σ → Prop) :
    Preserves invariant (skip : Action ε σ) :=
  fun _ holds => holds

theorem preserves_seq
    {invariant : σ → Prop} {first second : Action ε σ}
    (firstKeeps : Preserves invariant first)
    (secondKeeps : Preserves invariant second) :
    Preserves invariant (seq first second) := by
  intro state holds
  have middle := firstKeeps state holds
  unfold seq
  split
  case h_1 next equal =>
    rw [equal] at middle
    exact secondKeeps next middle
  case h_2 exception next equal =>
    rw [equal] at middle
    exact middle

end Action

/-- A state with the events that led to it. -/
structure Traced (α σ : Type) where
  state : σ
  trace : List α

namespace Traced

variable {α σ : Type}

/-- Append one event. -/
def log (event : α) (traced : Traced α σ) : Traced α σ :=
  { traced with trace := traced.trace ++ [event] }

/-- Update the state proper. -/
def update (work : σ → σ) (traced : Traced α σ) : Traced α σ :=
  { traced with state := work traced.state }

@[simp]
theorem log_trace (event : α) (traced : Traced α σ) :
    (traced.log event).trace = traced.trace ++ [event] := rfl

@[simp]
theorem log_state (event : α) (traced : Traced α σ) :
    (traced.log event).state = traced.state := rfl

@[simp]
theorem update_trace (work : σ → σ) (traced : Traced α σ) :
    (traced.update work).trace = traced.trace := rfl

@[simp]
theorem update_state (work : σ → σ) (traced : Traced α σ) :
    (traced.update work).state = work traced.state := rfl

end Traced

/-- The body of a callback with a continuation. -/
inductive Script (ε σ : Type) where
  | done
  | work (update : σ → σ) (rest : σ → Script ε σ)
  | next (rest : Outcome ε → σ → Script ε σ)
  | throw (exception : ε)

namespace Script

variable {ε σ α : Type}

/-- Run a script; `called` is the event of a call of the continuation. -/
def run
    (called : α) (continuation : Action ε (Traced α σ)) :
    Script ε σ → Action ε (Traced α σ)
  | .done, traced => (.returned, traced)
  | .work update rest, traced =>
      run called continuation (rest (update traced.state))
        (traced.update update)
  | .next rest, traced =>
      let (outcome, traced) := continuation (traced.log called)
      run called continuation (rest outcome traced.state) traced
  | .throw exception, traced => (.threw exception, traced)

/-- Call the continuation and return as it does. -/
def passThrough : Script ε σ :=
  .next fun outcome _ =>
    match outcome with
    | .returned => .done
    | .threw exception => .throw exception

@[simp]
theorem run_passThrough
    (called : α) (continuation : Action ε (Traced α σ))
    (traced : Traced α σ) :
    run called continuation passThrough traced =
      continuation (traced.log called) := by
  simp only [passThrough, run]
  cases result : continuation (traced.log called) with
  | mk outcome after => cases outcome <;> rfl

/--
Every work step of the script, from any state, is related to the state
it started from.
-/
def Respects (relation : σ → σ → Prop) : Script ε σ → Prop
  | .done => True
  | .work update rest =>
      (∀ state, relation state (update state)) ∧
        ∀ state, (rest state).Respects relation
  | .next rest => ∀ outcome state, (rest outcome state).Respects relation
  | .throw _ => True

theorem respects_true (script : Script ε σ) :
    script.Respects fun _ _ => True := by
  induction script with
  | done => trivial
  | work update rest induction => exact ⟨fun _ => trivial, induction⟩
  | next rest induction => exact induction
  | throw exception => trivial

theorem Respects.mono
    {relation weaker : σ → σ → Prop} {script : Script ε σ}
    (respects : script.Respects relation)
    (implies : ∀ before after, relation before after → weaker before after) :
    script.Respects weaker := by
  induction script with
  | done => trivial
  | work update rest induction =>
      exact
        ⟨fun state => implies _ _ (respects.1 state),
          fun state => induction state (respects.2 state)⟩
  | next rest induction =>
      exact fun outcome state =>
        induction outcome state (respects outcome state)
  | throw exception => trivial

theorem respects_passThrough (relation : σ → σ → Prop) :
    (passThrough : Script ε σ).Respects relation := by
  intro outcome state
  cases outcome <;> trivial

/--
The invariant rule: work steps keep the invariant, and a call of the
continuation, its event included, keeps it.
-/
theorem preserves_run
    {relation : σ → σ → Prop}
    {invariant : Traced α σ → Prop}
    {called : α} {continuation : Action ε (Traced α σ)}
    (workKeeps : ∀ traced update, invariant traced →
      relation traced.state (update traced.state) →
      invariant (traced.update update))
    (nextKeeps : ∀ traced, invariant traced →
      invariant (continuation (traced.log called)).2)
    (script : Script ε σ) (respects : script.Respects relation) :
    Action.Preserves invariant (script.run called continuation) := by
  induction script with
  | done => exact fun _ holds => holds
  | work update rest induction =>
      intro traced holds
      exact
        induction _ (respects.2 _) _
          (workKeeps traced update holds (respects.1 _))
  | next rest induction =>
      intro traced holds
      exact induction _ _ (respects _ _) _ (nextKeeps traced holds)
  | throw exception => exact fun _ holds => holds

/-! ### What the calls of the continuation yield -/

/--
What the calls of the continuation yield, in order; `inside` is what one
call yields, from the state it is made in.
-/
def collect {β : Type}
    (called : α) (continuation : Action ε (Traced α σ))
    (inside : Traced α σ → List β) :
    Script ε σ → Traced α σ → List β
  | .done, _ => []
  | .work update rest, traced =>
      collect called continuation inside (rest (update traced.state))
        (traced.update update)
  | .next rest, traced =>
      let (outcome, after) := continuation (traced.log called)
      inside (traced.log called) ++
        collect called continuation inside (rest outcome after.state) after
  | .throw _, _ => []

/--
A measure of the state that a script leaves alone after its last call of the
continuation: from this state on it ends with this value, or with the value
that the last call left.
-/
def Settles {π : Type} (measure : σ → π) : Script ε σ → π → σ → Prop
  | .done, value, state => measure state = value
  | .work update rest, value, state =>
      (rest (update state)).Settles measure value (update state)
  | .next rest, _, _ =>
      ∀ outcome state, (rest outcome state).Settles measure (measure state)
        state
  | .throw _, value, state => measure state = value

theorem Respects.settles
    {π : Type} {measure : σ → π} {script : Script ε σ}
    (respects :
      script.Respects fun before after => measure after = measure before)
    (state : σ) : script.Settles measure (measure state) state := by
  induction script generalizing state with
  | done => rfl
  | work update rest induction =>
      have later := induction _ (respects.2 (update state)) (update state)
      rwa [respects.1 state] at later
  | next rest induction =>
      exact fun outcome after =>
        induction outcome after (respects outcome after) after
  | throw exception => rfl

/--
A measure of the state after a script, from what the calls of the
continuation yield, if these say which value they leave.
-/
theorem measure_run
    {β π : Type} (measure : σ → π) (step : π → β → π)
    {called : α} {continuation : Action ε (Traced α σ)}
    {inside : Traced α σ → List β}
    (calls : ∀ traced value,
      measure (continuation traced).2.state =
        (inside traced).foldl step value)
    {script : Script ε σ} {value : π} {traced : Traced α σ}
    (settles : script.Settles measure value traced.state) :
    measure (script.run called continuation traced).2.state =
      (script.collect called continuation inside traced).foldl step
        value := by
  induction script generalizing value traced with
  | done => exact settles
  | work update rest induction =>
      exact induction _ settles
  | next rest induction =>
      have inner := calls (traced.log called) value
      simp only [run, collect]
      rw [induction _ _ (settles _ _), List.foldl_append, inner]
  | throw exception => exact settles

/--
What the calls of the continuation yield, along a measure that the script
leaves alone and that each call changes as what it yields says.
-/
theorem collect_tracks
    {β π : Type} (measure : σ → π) (step : π → β → π)
    (holds : π → List β → Prop) (none : ∀ value, holds value [])
    (more : ∀ value front back, holds value front →
      holds (front.foldl step value) back → holds value (front ++ back))
    {called : α} {continuation : Action ε (Traced α σ)}
    {inside : Traced α σ → List β}
    (calls : ∀ traced,
      measure (continuation traced).2.state =
        (inside traced).foldl step (measure traced.state))
    (all : ∀ traced, holds (measure traced.state) (inside traced))
    {script : Script ε σ}
    (respects :
      script.Respects fun before after => measure after = measure before)
    (traced : Traced α σ) :
    holds (measure traced.state)
      (script.collect called continuation inside traced) := by
  induction script generalizing traced with
  | done => exact none _
  | work update rest induction =>
      have later :=
        induction _ (respects.2 (update traced.state)) (traced.update update)
      rwa [Traced.update_state, respects.1] at later
  | next rest induction =>
      have inner := calls (traced.log called)
      let after := continuation (traced.log called)
      have later :=
        induction _ _ (respects after.1 after.2.state) after.2
      rw [inner] at later
      simp only [collect]
      exact more _ _ _ (all (traced.log called)) later
  | throw exception => exact none _

/-! ### Scripts that call the continuation at most once -/

/-- No call of the continuation on any path. -/
def Silent : Script ε σ → Prop
  | .done => True
  | .work _ rest => ∀ state, (rest state).Silent
  | .next _ => False
  | .throw _ => True

/-- At most one call of the continuation on every path. -/
def AtMostOnce : Script ε σ → Prop
  | .done => True
  | .work _ rest => ∀ state, (rest state).AtMostOnce
  | .next rest => ∀ outcome state, (rest outcome state).Silent
  | .throw _ => True

/-- What becomes of a script before it calls the continuation. -/
inductive Reached (ε σ : Type) where
  | ended (outcome : Outcome ε) (state : σ)
  | called (state : σ) (rest : Outcome ε → σ → Script ε σ)

/-- Run a script up to its first call of the continuation. -/
def advance : Script ε σ → σ → Reached ε σ
  | .done, state => .ended .returned state
  | .work update rest, state =>
      (rest (update state)).advance (update state)
  | .next rest, state => .called state rest
  | .throw exception, state => .ended (.threw exception) state

/-- Run a script that calls no continuation. -/
def finish (script : Script ε σ) (state : σ) : Outcome ε × σ :=
  match script.advance state with
  | .ended outcome state => (outcome, state)
  | .called state _ => (.returned, state)

theorem run_of_ended
    {script : Script ε σ} {state after : σ} {outcome : Outcome ε}
    (ended : script.advance state = .ended outcome after)
    (called : α) (continuation : Action ε (Traced α σ))
    (trace : List α) :
    script.run called continuation ⟨state, trace⟩ =
      (outcome, ⟨after, trace⟩) := by
  induction script generalizing state with
  | done =>
      rcases Reached.ended.inj ended with ⟨rfl, rfl⟩
      rfl
  | work update rest induction => exact induction _ ended
  | next rest => cases ended
  | throw exception =>
      rcases Reached.ended.inj ended with ⟨rfl, rfl⟩
      rfl

theorem run_silent
    {script : Script ε σ} (silent : script.Silent)
    (called : α) (continuation : Action ε (Traced α σ))
    (traced : Traced α σ) :
    script.run called continuation traced =
      ((script.finish traced.state).1,
        ⟨(script.finish traced.state).2, traced.trace⟩) := by
  induction script generalizing traced with
  | done => rfl
  | work update rest induction => exact induction _ (silent _) _
  | next rest => exact silent.elim
  | throw exception => rfl

theorem run_of_called
    {script : Script ε σ} (once : script.AtMostOnce)
    {state before : σ} {rest : Outcome ε → σ → Script ε σ}
    (reached : script.advance state = .called before rest)
    (called : α) (continuation : Action ε (Traced α σ))
    (trace : List α) :
    script.run called continuation ⟨state, trace⟩ =
      let (outcome, after) := continuation ⟨before, trace ++ [called]⟩
      let (outcome, state) := (rest outcome after.state).finish after.state
      (outcome, ⟨state, after.trace⟩) := by
  induction script generalizing state with
  | done => cases reached
  | work update next induction => exact induction _ (once _) reached
  | next next =>
      rcases Reached.called.inj reached with ⟨rfl, rfl⟩
      exact run_silent (once _ _) called continuation _
  | throw exception => cases reached

/-! ### Chains of scripts -/

/--
The way down a chain of scripts: what is left of those that called their
continuation, in the order they were entered; how the one that did not has
ended; and the state at the bottom.
-/
structure Descent (ε σ : Type) where
  frames : List (Outcome ε → σ → Script ε σ)
  stopped : Option (Outcome ε)
  state : σ

/--
Each script runs up to its call of the continuation, in the state the
one before it has left.
-/
def descend : List (Script ε σ) → σ → Descent ε σ
  | [], state => ⟨[], none, state⟩
  | script :: scripts, state =>
      match script.advance state with
      | .ended outcome state => ⟨[], some outcome, state⟩
      | .called state rest =>
          let below := descend scripts state
          { below with frames := rest :: below.frames }

/--
What is left of each script runs after those entered later, in the state
they have left.
-/
def unwind
    (frames : List (Outcome ε → σ → Script ε σ))
    (bottom : Outcome ε × σ) : Outcome ε × σ :=
  frames.foldr
    (fun rest below => (rest below.1 below.2).finish below.2) bottom

theorem length_descend_frames (scripts : List (Script ε σ)) (state : σ) :
    (descend scripts state).frames.length ≤ scripts.length ∧
      ((descend scripts state).stopped = none ↔
        (descend scripts state).frames.length = scripts.length) := by
  induction scripts generalizing state with
  | nil => simp [descend]
  | cons script scripts induction =>
      rw [descend]
      cases script.advance state with
      | ended outcome after => simp
      | called after rest => simpa using induction after

end Script

/-! ## Invariants of the trace alone -/

section Traces

variable {ε σ α : Type}

/-- An invariant that only looks at the events. -/
def OfTrace (invariant : List α → Prop) : Traced α σ → Prop :=
  fun traced => invariant traced.trace

/-- Run an action on the state proper. -/
def Action.onState (action : Action ε σ) : Action ε (Traced α σ) :=
  fun traced =>
    let (outcome, state) := action traced.state
    (outcome, { traced with state := state })

theorem Script.preserves_run_ofTrace
    {invariant : List α → Prop}
    {called : α} {continuation : Action ε (Traced α σ)}
    (nextKeeps : ∀ traced : Traced α σ, invariant traced.trace →
      invariant (continuation (traced.log called)).2.trace)
    (script : Script ε σ) :
    Action.Preserves (OfTrace invariant)
      (script.run called continuation) :=
  Script.preserves_run (fun _ _ holds _ => holds) nextKeeps script
    (respects_true script)

/-- The trace goes on from `start` by allowed events only. -/
def Extends (allowed : α → Prop) (start trace : List α) : Prop :=
  ∃ emitted, trace = start ++ emitted ∧ ∀ event ∈ emitted, allowed event

theorem extends_refl (allowed : α → Prop) (start : List α) :
    Extends allowed start start :=
  ⟨[], by simp, by simp⟩

theorem Extends.append_singleton
    {allowed : α → Prop} {start trace : List α} {event : α}
    (extends_ : Extends allowed start trace) (permitted : allowed event) :
    Extends allowed start (trace ++ [event]) := by
  rcases extends_ with ⟨emitted, rfl, all⟩
  refine ⟨emitted ++ [event], by simp, ?_⟩
  intro later member
  rcases List.mem_append.mp member with old | new
  · exact all later old
  · rwa [List.mem_singleton.mp new]

theorem Extends.trans
    {allowed : α → Prop} {start middle trace : List α}
    (first : Extends allowed start middle)
    (second : Extends allowed middle trace) :
    Extends allowed start trace := by
  rcases first with ⟨early, rfl, allEarly⟩
  rcases second with ⟨late, rfl, allLate⟩
  refine ⟨early ++ late, List.append_assoc _ _ _, ?_⟩
  intro event member
  exact (List.mem_append.mp member).elim (allEarly event) (allLate event)

theorem Extends.mem
    {allowed : α → Prop} {start trace : List α} {event : α}
    (extends_ : Extends allowed start trace) (member : event ∈ trace) :
    event ∈ start ∨ allowed event := by
  rcases extends_ with ⟨emitted, rfl, all⟩
  exact (List.mem_append.mp member).imp_right (all event)

/-- An action that appends allowed events only. -/
def Action.Emits
    (allowed : α → Prop) (action : Action ε (Traced α σ)) : Prop :=
  ∀ start, Action.Preserves (OfTrace (Extends allowed start)) action

theorem Action.Emits.extends
    {allowed : α → Prop} {action : Action ε (Traced α σ)}
    (emits : Action.Emits allowed action) (traced : Traced α σ) :
    Extends allowed traced.trace (action traced).2.trace :=
  emits traced.trace traced (extends_refl allowed traced.trace)

/--
An action that appends allowed events only when it starts in a state of
this kind.
-/
def Action.EmitsFrom
    (here : σ → Prop) (allowed : α → Prop)
    (action : Action ε (Traced α σ)) : Prop :=
  ∀ traced, here traced.state →
    Extends allowed traced.trace (action traced).2.trace

/--
A script that calls its continuation at most once calls it in a state of
the kind it started in.
-/
theorem Script.emitsFrom_run
    {relation : σ → σ → Prop} {here : σ → Prop} {allowed : α → Prop}
    {called : α} {continuation : Action ε (Traced α σ)}
    (kept : ∀ state after, relation state after → here state → here after)
    (calledAllowed : allowed called)
    (nextEmits : Action.EmitsFrom here allowed continuation)
    {script : Script ε σ} (once : script.AtMostOnce)
    (respects : script.Respects relation) :
    Action.EmitsFrom here allowed (script.run called continuation) := by
  induction script with
  | done => exact fun traced _ => extends_refl _ _
  | work update rest induction =>
      intro traced start
      exact
        induction _ (once _) (respects.2 _) (traced.update update)
          (kept _ _ (respects.1 _) start)
  | next rest induction =>
      intro traced start
      have logged :=
        (extends_refl allowed traced.trace).append_singleton calledAllowed
      have below := nextEmits (traced.log called) start
      simp only [run]
      rw [run_silent (once _ _)]
      exact logged.trans below
  | throw exception => exact fun traced _ => extends_refl _ _

/-- Before every `late` event the trace is `ready`. -/
def Precedes
    (ready : List α → Prop) (late : α → Prop) (trace : List α) : Prop :=
  ∀ before event after, trace = before ++ event :: after →
    late event → ready before

theorem precedes_nil (ready : List α → Prop) (late : α → Prop) :
    Precedes ready late [] := by
  intro before event after equal
  simp at equal

theorem Precedes.append_singleton
    {ready : List α → Prop} {late : α → Prop}
    {trace : List α} {event : α}
    (precedes : Precedes ready late trace)
    (guarded : late event → ready trace) :
    Precedes ready late (trace ++ [event]) := by
  intro before found after equal isLate
  rcases Runs.append_singleton_eq_iff.mp equal with
    ⟨rfl, rfl, -⟩ | ⟨rest, -, split⟩
  · exact guarded isLate
  · exact precedes before found rest split isLate

/-- From a ready trace on, nothing can come too early. -/
theorem Precedes.extend
    {ready : List α → Prop} {late allowed : α → Prop}
    (monotone : ∀ trace event, ready trace → ready (trace ++ [event]))
    {start trace : List α}
    (precedes : Precedes ready late start) (isReady : ready start)
    (extends_ : Extends allowed start trace) :
    Precedes ready late trace := by
  rcases extends_ with ⟨emitted, rfl, -⟩
  suffices both :
      Precedes ready late (start ++ emitted) ∧ ready (start ++ emitted) from
    both.1
  induction emitted using List.reverseRecOn with
  | nil => simpa using ⟨precedes, isReady⟩
  | append_singleton emitted event induction =>
      rw [← List.append_assoc]
      exact
        ⟨induction.1.append_singleton fun _ => induction.2,
          monotone _ _ induction.2⟩

end Traces

end PlusWeb
