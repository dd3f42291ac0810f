import PlusWeb.Routing

/-!
# The order of a middleware chain

`executeMiddlewareChain` passes every middleware a `next` that runs the rest
of the chain.  For middleware that calls `next` at most once the run is a way
down and a way back: each middleware is entered in the state the one before
it left at its `next`, the final handler runs at the bottom if all of them
called `next`, and the work behind each `next` runs in reverse order.

The queue the chain runs over is the order of the arguments of `use`.
-/

namespace PlusWeb

variable {J A κ β : Type}

/-! ## Registration -/

/-- The variadic `RoutingBase::use(arg, args...)`. -/
def RouteRegistry.use (registry : RouteRegistry κ β) (arg : κ) :
    List κ → RouteRegistry κ β
  | [] => registry.registerMiddleWare arg
  | next :: args => (registry.registerMiddleWare arg).use next args

/--
The variadic `RoutingBase::use(path, arg, args...)`, which wraps each
argument.
-/
def RouteRegistry.usePath
    {μ : Type} (registry : RouteRegistry κ β)
    (pathWrapper : μ → κ) (arg : μ) (args : List μ) : RouteRegistry κ β :=
  args.foldl
    (fun registry arg => registry.registerMiddleWare (pathWrapper arg))
    (registry.registerMiddleWare (pathWrapper arg))

theorem RouteRegistry.use_queue
    (registry : RouteRegistry κ β) (arg : κ) (args : List κ) :
    (registry.use arg args).queue = registry.queue ++ arg :: args := by
  induction args generalizing registry arg with
  | nil => rfl
  | cons next args induction =>
      rw [use, induction]
      simp [registerMiddleWare]

theorem RouteRegistry.usePath_queue
    {μ : Type} (registry : RouteRegistry κ β)
    (pathWrapper : μ → κ) (arg : μ) (args : List μ) :
    (registry.usePath pathWrapper arg args).queue =
      registry.queue ++ (arg :: args).map pathWrapper := by
  have appended (registry : RouteRegistry κ β) :
      (args.foldl
        (fun registry arg => registry.registerMiddleWare (pathWrapper arg))
        registry).queue = registry.queue ++ args.map pathWrapper := by
    induction args generalizing registry with
    | nil => simp
    | cons next args induction =>
        rw [List.foldl_cons, induction]
        simp [registerMiddleWare]
  rw [usePath, appended]
  simp [registerMiddleWare]

/-! ## The run of a chain -/

/-- The events of middleware that was entered and called `next`. -/
def passes (labels : List Nat) : List Event :=
  labels.flatMap fun label => [.entered label, .nexted label]

/-- The way down a chain. -/
def Callbacks.descend
    (callbacks : Callbacks J A) (labels : List Nat)
    (exchange : Exchange J A) :
    Script.Descent CxxException (Exchange J A) :=
  Script.descend (labels.map callbacks.middleware) exchange

/-- The bottom of a chain: the events there and how it ends. -/
def Callbacks.bottom
    (callbacks : Callbacks J A) (labels : List Nat) (handler : Nat)
    (descent : Script.Descent CxxException (Exchange J A)) :
    List Event × Outcome CxxException × Exchange J A :=
  match descent.stopped with
  | some outcome =>
      (((labels.drop descent.frames.length).take 1).map .entered,
        outcome, descent.state)
  | none => ([.handled handler], callbacks.handler handler descent.state)

/-- A run of the chain: down, the bottom, and back. -/
theorem executeMiddlewareChain_eq
    (callbacks : Callbacks J A) {labels : List Nat}
    (once : ∀ label ∈ labels, (callbacks.middleware label).AtMostOnce)
    (handler : Nat) (exchange : Exchange J A) (trace : List Event) :
    executeMiddlewareChain callbacks.enter labels (callbacks.handle handler)
        ⟨exchange, trace⟩ =
      let descent := callbacks.descend labels exchange
      let (events, ended) := callbacks.bottom labels handler descent
      let (outcome, exchange) := Script.unwind descent.frames ended
      (outcome,
        ⟨exchange,
          trace ++ passes (labels.take descent.frames.length) ++
            events⟩) := by
  induction labels generalizing exchange trace with
  | nil =>
      simp [executeMiddlewareChain, Callbacks.handle, Action.onState,
        Callbacks.descend, Script.descend, Callbacks.bottom,
        Script.unwind, passes, Traced.log]
  | cons label labels induction =>
      have later := induction fun other member =>
        once other (List.mem_cons_of_mem _ member)
      have own := once label (List.mem_cons_self ..)
      rw [executeMiddlewareChain, Callbacks.enter, Callbacks.descend,
        List.map_cons, Script.descend]
      cases reached : (callbacks.middleware label).advance exchange with
      | ended outcome after =>
          have ran :=
            Script.run_of_ended reached (.nexted label)
              (executeMiddlewareChain callbacks.enter labels
                (callbacks.handle handler))
              (trace ++ [.entered label])
          simpa [Traced.log, Callbacks.bottom, Script.unwind, passes]
            using ran
      | called after rest =>
          have ran :=
            Script.run_of_called own reached (.nexted label)
              (executeMiddlewareChain callbacks.enter labels
                (callbacks.handle handler))
              (trace ++ [.entered label])
          rw [later] at ran
          show (callbacks.middleware label).run _ _ ⟨exchange, _⟩ = _
          rw [ran]
          simp [Callbacks.descend, Callbacks.bottom, Script.unwind, passes]

/-! ## What a trace shows -/

/-- The middleware entered, in order. -/
def enteredLabels (events : List Event) : List Nat :=
  events.filterMap fun event =>
    match event with
    | .entered label => some label
    | _ => none

/-- The middleware that called `next`, in order. -/
def nextedLabels (events : List Event) : List Nat :=
  events.filterMap fun event =>
    match event with
    | .nexted label => some label
    | _ => none

theorem labels_passes (labels : List Nat) :
    enteredLabels (passes labels) = labels ∧
      nextedLabels (passes labels) = labels := by
  induction labels with
  | nil => exact ⟨rfl, rfl⟩
  | cons label labels induction =>
      have cut :
          passes (label :: labels) =
            .entered label :: .nexted label :: passes labels := rfl
      rw [cut]
      constructor
      · exact congrArg (label :: ·) induction.1
      · exact congrArg (label :: ·) induction.2

theorem count_handled_passes (handler : Nat) (labels : List Nat) :
    (passes labels).count (.handled handler) = 0 := by
  apply List.count_eq_zero.mpr
  intro member
  rcases List.mem_flatMap.mp member with ⟨label, -, event⟩
  simp at event

/--
The middleware that called `next` comes first, and the one entered after
it, if any, did not.
-/
theorem Callbacks.events_bottom
    (callbacks : Callbacks J A) (labels : List Nat) (handler : Nat)
    (exchange : Exchange J A) :
    let descent := callbacks.descend labels exchange
    let depth := descent.frames.length
    let events :=
      passes (labels.take depth) ++
        (callbacks.bottom labels handler descent).1
    enteredLabels events = labels.take (depth + 1) ∧
      nextedLabels events = labels.take depth ∧
      events.count (.handled handler) =
        if depth = labels.length then 1 else 0 := by
  intro descent depth events
  obtain ⟨short, complete⟩ :=
    Script.length_descend_frames (labels.map callbacks.middleware) exchange
  rw [List.length_map] at short complete
  obtain ⟨enteredBefore, nextedBefore⟩ :=
    labels_passes (labels.take depth)
  have handledBefore :=
    count_handled_passes handler (labels.take depth)
  simp only [events, enteredLabels, nextedLabels, List.filterMap_append,
    List.count_append] at enteredBefore nextedBefore ⊢
  rw [enteredBefore, nextedBefore, handledBefore]
  cases stopped : descent.stopped with
  | none =>
      have full : depth = labels.length := complete.mp stopped
      simp [bottom, stopped, full]
  | some outcome =>
      have partly : depth < labels.length :=
        lt_of_le_of_ne short fun full => by
          have none := complete.mpr full
          rw [show (Script.descend _ exchange).stopped = some outcome from
            stopped] at none
          cases none
      have next :
          (labels.drop depth).take 1 = [labels[depth]] := by
        rw [List.drop_eq_getElem_cons partly]
        rfl
      simp only [bottom, stopped]
      rw [next, ← List.take_concat_get' labels depth partly]
      simp [partly.ne]

/-! ## The claim of a chain -/

/--
The order of a chain, for middleware that calls `next` at most once.

The middleware entered is a front part of the queue, in order, and each but
the first is entered exactly if the one before it was entered and called
`next`.  The final handler runs once if all of them did and else not at all.
What stands behind the calls of `next` runs in reverse order, from what the
bottom of the chain left; and `use` appends its arguments in order.
-/
theorem middleware_chain_order
    (callbacks : Callbacks J A) {labels : List Nat}
    (once : ∀ label ∈ labels, (callbacks.middleware label).AtMostOnce)
    (handler : Nat) (exchange : Exchange J A)
    (registry : RouteRegistry κ β) (first : κ) (others : List κ)
    {μ : Type} (pathWrapper : μ → κ) (mw : μ) (mws : List μ) :
    let run :=
      executeMiddlewareChain callbacks.enter labels
        (callbacks.handle handler) ⟨exchange, []⟩
    let events := run.2.trace
    let descent := callbacks.descend labels exchange
    let bottom := callbacks.bottom labels handler descent
    enteredLabels events <+: labels ∧
      nextedLabels events <+: enteredLabels events ∧
      (enteredLabels events)[0]? = labels[0]? ∧
      (∀ i, i + 1 < labels.length →
        (i + 1 < (enteredLabels events).length ↔
          i < (enteredLabels events).length ∧
            i < (nextedLabels events).length)) ∧
      events.count (.handled handler) =
        (if nextedLabels events = labels then 1 else 0) ∧
      events =
        passes (nextedLabels events) ++ bottom.1 ∧
      (nextedLabels events).length = descent.frames.length ∧
      (run.1, run.2.state) = Script.unwind descent.frames bottom.2 ∧
      (registry.use first others).queue =
        registry.queue ++ first :: others ∧
      (registry.usePath pathWrapper mw mws).queue =
        registry.queue ++ (mw :: mws).map pathWrapper := by
  intro run events descent bottom
  have ran : run = _ :=
    executeMiddlewareChain_eq callbacks once handler exchange []
  have trace :
      events =
        passes (labels.take descent.frames.length) ++ bottom.1 :=
    congrArg (·.2.trace) ran
  obtain ⟨entered, nexted, handled⟩ :=
    callbacks.events_bottom labels handler exchange
  rw [← trace] at entered nexted handled
  obtain ⟨short, -⟩ :=
    Script.length_descend_frames (labels.map callbacks.middleware) exchange
  rw [List.length_map] at short
  have all :
      descent.frames.length = labels.length ↔
        labels.take descent.frames.length = labels := by
    rw [List.take_eq_self_iff]
    exact ⟨fun same => same.ge, fun least => le_antisymm short least⟩
  rw [entered, nexted]
  refine
    ⟨List.take_prefix _ _, List.take_prefix_take_left (Nat.le_succ _),
      by simp, ?_, ?_, trace, ?_, ?_, registry.use_queue first others,
      registry.usePath_queue pathWrapper mw mws⟩
  · intro i inside
    simp only [List.length_take]
    omega
  · rw [handled]
    exact if_congr all rfl rfl
  · rw [List.length_take]
    exact min_eq_left short
  · rw [ran]

/-- Middleware that passes on, and one that answers itself. -/
def guardedCallbacks : Callbacks FlatJson Unit where
  middleware label :=
    if label = 1 then
      .work (Exchange.setRes (HttpResponse.new.setStatus 403)) fun _ => .done
    else Script.passThrough
  handler _ := Action.skip

theorem guardedCallbacks_once (label : Nat) :
    (guardedCallbacks.middleware label).AtMostOnce := by
  by_cases guard : label = 1
  · subst guard
    exact fun _ => trivial
  · simp only [guardedCallbacks, if_neg guard]
    intro outcome state
    cases outcome <;> trivial

theorem middleware_chain_order_guarded :
    let events :=
      (executeMiddlewareChain guardedCallbacks.enter [0, 1, 2]
        (guardedCallbacks.handle 3)
        ⟨Exchange.arriving (ascii "GET") (ascii "/"), []⟩).2.trace
    enteredLabels events = [0, 1] ∧ enteredLabels events <+: [0, 1, 2] ∧
      events.count (.handled 3) = 0 := by
  intro events
  have order :=
    middleware_chain_order guardedCallbacks
      (fun label (_ : label ∈ [0, 1, 2]) => guardedCallbacks_once label) 3
      (Exchange.arriving (ascii "GET") (ascii "/"))
      (RouteRegistry.new : RouteRegistry ServerMiddleware Nat)
      (.base (.plain 0)) [] (fun label => .base (.plain label)) 1 [2]
  rcases order with ⟨front, -, -, -, count, -⟩
  refine ⟨by decide +kernel, front, count.trans (if_neg ?_)⟩
  decide +kernel

end PlusWeb
