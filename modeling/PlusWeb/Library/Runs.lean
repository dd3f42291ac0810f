import Mathlib

/-!
# Runs of a state machine

A machine takes one event after another.  A condition holds along a run if
each event meets it in the state it finds.

The rules say what a whole run keeps from what one step keeps under the
condition: an invariant of the states, or a property of the events so far.
-/

namespace PlusWeb.Runs

variable {σ ε : Type*} (step : σ → ε → σ)

/-- The state after some events. -/
def run (state : σ) (events : List ε) : σ := events.foldl step state

/-- Each event of the run meets the condition in the state it finds. -/
def Along (condition : σ → ε → Prop) : σ → List ε → Prop
  | _, [] => True
  | state, event :: events =>
      condition state event ∧ Along condition (step state event) events

instance instDecidableAlong (condition : σ → ε → Prop)
    [∀ state event, Decidable (condition state event)] :
    (state : σ) → (events : List ε) →
      Decidable (Along step condition state events)
  | _, [] => inferInstanceAs (Decidable True)
  | state, event :: events =>
      have := instDecidableAlong condition (step state event) events
      inferInstanceAs (Decidable (_ ∧ _))

@[simp]
theorem run_nil (state : σ) : run step state [] = state := rfl

@[simp]
theorem run_cons (state : σ) (event : ε) (events : List ε) :
    run step state (event :: events) = run step (step state event) events :=
  rfl

theorem run_append (state : σ) (past future : List ε) :
    run step state (past ++ future) =
      run step (run step state past) future :=
  List.foldl_append

theorem run_concat (state : σ) (past : List ε) (event : ε) :
    run step state (past ++ [event]) = step (run step state past) event := by
  rw [run_append, run_cons, run_nil]

variable {step}

theorem along_append
    {condition : σ → ε → Prop} {state : σ} {past future : List ε} :
    Along step condition state (past ++ future) ↔
      Along step condition state past ∧
        Along step condition (run step state past) future := by
  induction past generalizing state with
  | nil => simp [Along]
  | cons event past induction =>
      simp only [List.cons_append, Along, run_cons, induction, and_assoc]

/-- The invariant rule. -/
theorem invariant_run
    {condition : σ → ε → Prop} {invariant : σ → Prop}
    (keeps : ∀ state event, invariant state → condition state event →
      invariant (step state event))
    {state : σ} (holds : invariant state)
    {events : List ε} (along : Along step condition state events) :
    invariant (run step state events) := by
  induction events generalizing state with
  | nil => exact holds
  | cons event events induction =>
      exact induction (keeps state event holds along.1) along.2

/-- The invariant rule, if no event breaks the invariant. -/
theorem invariant_always
    {invariant : σ → Prop}
    (keeps : ∀ state event, invariant state → invariant (step state event))
    {state : σ} (holds : invariant state) (events : List ε) :
    invariant (run step state events) := by
  induction events generalizing state with
  | nil => exact holds
  | cons event events induction => exact induction (keeps state event holds)

/-- What the invariant and the condition say of each event of the run. -/
theorem along_of_invariant
    {condition result : σ → ε → Prop} {invariant : σ → Prop}
    (keeps : ∀ state event, invariant state → condition state event →
      invariant (step state event))
    (gives : ∀ state event, invariant state → condition state event →
      result state event)
    {state : σ} (holds : invariant state)
    {events : List ε} (along : Along step condition state events) :
    Along step result state events := by
  induction events generalizing state with
  | nil => trivial
  | cons event events induction =>
      exact
        ⟨gives state event holds along.1,
          induction (keeps state event holds along.1) along.2⟩

/-- The rule for what the events so far have led to. -/
theorem history_run
    {condition : σ → ε → Prop} {start : σ} (property : List ε → Prop)
    (initially : property [])
    (keeps : ∀ past event, property past →
      condition (run step start past) event → property (past ++ [event]))
    {events : List ε} (along : Along step condition start events) :
    property events := by
  induction events using List.reverseRecOn with
  | nil => exact initially
  | append_singleton past event induction =>
      rcases along_append.mp along with ⟨before, last⟩
      exact keeps past event (induction before) last.1

/-- An event of a longer history is its last or one of the shorter. -/
theorem append_singleton_eq_iff
    {past before after : List ε} {event found : ε} :
    past ++ [event] = before ++ found :: after ↔
      (past = before ∧ event = found ∧ after = []) ∨
        ∃ rest, after = rest ++ [event] ∧ past = before ++ found :: rest := by
  constructor
  · intro equal
    rcases List.eq_nil_or_concat after with rfl | ⟨rest, last, rfl⟩
    · have split : past = before ∧ event = found := by
        simpa using List.append_inj' equal rfl
      exact Or.inl ⟨split.1, split.2, rfl⟩
    · have split : past = before ++ found :: rest ∧ event = last := by
        have regroup :
            before ++ found :: (rest ++ [last]) =
              (before ++ found :: rest) ++ [last] := by simp
        rw [List.concat_eq_append, regroup] at equal
        simpa using List.append_inj' equal rfl
      rcases split with ⟨rfl, rfl⟩
      exact Or.inr ⟨rest, List.concat_eq_append, rfl⟩
  · rintro (⟨rfl, rfl, rfl⟩ | ⟨rest, rfl, rfl⟩)
    · rfl
    · simp

/-- An event may be taken after events it is independent of. -/
theorem run_cons_comm
    {event : ε} {events : List ε}
    (swap : ∀ other ∈ events, ∀ state,
      step (step state event) other = step (step state other) event)
    (state : σ) :
    run step state (event :: events) = step (run step state events) event := by
  induction events generalizing state with
  | nil => rfl
  | cons other events induction =>
      rw [run_cons, run_cons, swap other (List.mem_cons_self ..), ← run_cons,
        induction fun later member =>
          swap later (List.mem_cons_of_mem _ member)]
      rfl

/--
Events that are independent of all others may be taken first, in the
order they have among themselves.
-/
theorem run_early_late
    {early : ε → Bool}
    (swap : ∀ state event other, early event = false → early other = true →
      step (step state event) other = step (step state other) event)
    (state : σ) (events : List ε) :
    run step state events =
      run step state
        (events.filter early ++ events.filter fun event => !early event) := by
  induction events generalizing state with
  | nil => rfl
  | cons event events induction =>
      rw [run_cons, induction]
      cases kind : early event with
      | true => simp [kind]
      | false =>
          have moved :
              run step (step state event) (events.filter early) =
                step (run step state (events.filter early)) event := by
            apply run_cons_comm
            intro other member state
            exact swap state event other kind (List.mem_filter.mp member).2
          simp only [List.filter_cons, kind, Bool.false_eq_true, if_false,
            Bool.not_false, if_true]
          rw [run_append, run_append, moved]
          rfl

/-- A state no event changes is the end of the run. -/
theorem run_of_fixed
    {state : σ} (fixed : ∀ event, step state event = state)
    (events : List ε) :
    run step state events = state := by
  induction events with
  | nil => rfl
  | cons event events induction => rw [run_cons, fixed, induction]

end PlusWeb.Runs
