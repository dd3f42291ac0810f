import PlusWeb.Library.Action

/-!
# Two runs side by side

Two actions that are run from related states and do the same: they end the
same way, in related states, and log the same events.  A script is compared
with another script step by step, since what it does next may depend on the
state it has found.

One of the two may be given up on.  An action *follows* another unless the
other logs a certain event; what happens after that event does not matter.
-/

namespace PlusWeb

variable {ε σ α : Type}

/-- Traced states with related states and the same events. -/
structure Traced.Alike
    (related : σ → σ → Prop) (traced traced' : Traced α σ) : Prop where
  state : related traced.state traced'.state
  trace : traced.trace = traced'.trace

theorem Traced.Alike.log
    {related : σ → σ → Prop} {traced traced' : Traced α σ}
    (alike : Traced.Alike related traced traced') (event : α) :
    Traced.Alike related (traced.log event) (traced'.log event) := by
  constructor
  · exact alike.state
  · rw [Traced.log_trace, Traced.log_trace, alike.trace]

theorem Traced.Alike.update
    {related : σ → σ → Prop} {traced traced' : Traced α σ}
    (alike : Traced.Alike related traced traced') {work work' : σ → σ}
    (worked :
      related (work traced.state) (work' traced'.state)) :
    Traced.Alike related (traced.update work) (traced'.update work') := by
  constructor
  · exact worked
  · exact alike.trace

/-- Two actions that do the same in related states. -/
def Action.Alike
    (related : σ → σ → Prop) (action action' : Action ε σ) : Prop :=
  ∀ state state', related state state' →
    (action state).1 = (action' state').1 ∧
      related (action state).2 (action' state').2

/-- Two scripts that do the same in related states. -/
inductive Script.Alike (related : σ → σ → Prop) :
    Script ε σ → Script ε σ → Prop where
  | done : Script.Alike related .done .done
  | work {update update' : σ → σ} {rest rest' : σ → Script ε σ} :
      (∀ state state', related state state' →
        related (update state) (update' state')) →
      (∀ state state', related state state' →
        Script.Alike related (rest state) (rest' state')) →
      Script.Alike related (.work update rest) (.work update' rest')
  | next {rest rest' : Outcome ε → σ → Script ε σ} :
      (∀ outcome state state', related state state' →
        Script.Alike related (rest outcome state) (rest' outcome state')) →
      Script.Alike related (.next rest) (.next rest')
  | throw (exception : ε) :
      Script.Alike related (.throw exception) (.throw exception)

/--
The second action does what the first does, unless the first logs
`escape`.
-/
structure Action.Follows
    (related : σ → σ → Prop) (escape : α)
    (action action' : Action ε (Traced α σ)) : Prop where
  stays : ∀ traced, escape ∈ traced.trace →
    escape ∈ (action traced).2.trace
  follows : ∀ traced traced', Traced.Alike related traced traced' →
    escape ∈ (action traced).2.trace ∨
      (action traced).1 = (action' traced').1 ∧
        Traced.Alike related (action traced).2 (action' traced').2

section Rules

variable {related : σ → σ → Prop} {escape : α}

/-- Nothing needs to follow an action that always escapes. -/
theorem Action.follows_of_escapes
    {action : Action ε (Traced α σ)}
    (escapes : ∀ traced, escape ∈ (action traced).2.trace)
    (action' : Action ε (Traced α σ)) :
    Action.Follows related escape action action' := by
  constructor
  · intro traced _
    exact escapes traced
  · intro traced traced' _
    exact Or.inl (escapes traced)

/-- Actions on the state proper. -/
theorem Action.Alike.follows
    {action action' : Action ε σ}
    (alike : Action.Alike related action action') :
    Action.Follows related escape action.onState action'.onState := by
  constructor
  · intro traced logged
    exact logged
  · intro traced traced' start
    rcases alike _ _ start.state with ⟨same, states⟩
    right
    constructor
    · exact same
    · constructor
      · exact states
      · exact start.trace

/--
The rule for scripts: alike scripts with a continuation that is
followed.
-/
theorem Script.Alike.follows_run
    {script script' : Script ε σ}
    (alike : Script.Alike related script script') (called : α)
    {continuation continuation' : Action ε (Traced α σ)}
    (next : Action.Follows related escape continuation continuation') :
    Action.Follows related escape (script.run called continuation)
      (script'.run called continuation') := by
  have stays (script : Script ε σ) :
      Action.Preserves (OfTrace (escape ∈ ·))
        (script.run called continuation) := by
    apply Script.preserves_run_ofTrace
    intro traced logged
    apply next.stays
    exact List.mem_append_left _ logged
  constructor
  · exact stays script
  · induction alike with
    | done =>
        intro traced traced' start
        exact Or.inr ⟨rfl, start⟩
    | work updates rests induction =>
        intro traced traced' start
        have worked := updates _ _ start.state
        exact
          induction _ _ worked _ _ (start.update worked)
    | @next rest rest' rests induction =>
        intro traced traced' start
        simp only [Script.run]
        rcases next.follows _ _ (start.log called) with
          escaped | ⟨same, after⟩
        · left
          exact stays (rest _ _) _ escaped
        · rw [← same]
          exact induction _ _ _ after.state _ _ after
    | throw exception =>
        intro traced traced' start
        exact Or.inr ⟨rfl, start⟩

end Rules

end PlusWeb
