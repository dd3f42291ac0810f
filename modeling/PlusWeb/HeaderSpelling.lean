import PlusWeb.ResponseHead
import PlusWeb.ResponseCalls
import PlusWeb.RoutingTrace

/-!
# Header names that differ only in case

The headers of a response are a map keyed by bytes.  `send` and
`handleRequest` rely on overwriting what a handler wrote, and a handler that
spells a name otherwise adds a second field instead.

The head has one field for every name that a call wrote or `handleRequest`
wrote, so each field is written once, and the framing fields are the
server's, exactly if no two of these names differ only in case.
-/

namespace PlusWeb

variable {J A κ : Type}

/-! ## One field for each name -/

namespace StdMap

end StdMap

/-! ## The names the calls write -/

section Calls

variable [Json J]

namespace HttpResponse

end HttpResponse

namespace ResponseCall

/--
The names the call writes; a `send` whose body cannot be made writes
none.
-/
def writes (draft : Draft J) : ResponseCall J → StdString → Prop
  | .setHeader key _, name => name = key
  | .setHeaders pairs, name => name ∈ pairs
  | .sendJson j, name =>
      (∃ text, Json.dump j = .ok text) ∧
        (name = ascii "Content-Type" ∨ name = ascii "Content-Length")
  | .sendText _, name =>
      name = ascii "Content-Type" ∨ name = ascii "Content-Length"
  | .sendCString _, name =>
      name = ascii "Content-Type" ∨ name = ascii "Content-Length"
  | .sendForm _, name =>
      name = ascii "Content-Type" ∨ name = ascii "Content-Length"
  | .sendBinary _, name =>
      name = ascii "Content-Type" ∨ name = ascii "Content-Length"
  | .sendCopied slot, name =>
      (draft.locals slot).type ≠ .empty ∧ name = ascii "Content-Type"
  | .sendMoved _ _, name => name = ascii "Content-Type"
  | _, _ => False

/-- The draft after calls whose exceptions the handlers catch. -/
def history : List (ResponseCall J) → Draft J → Draft J
  | [], draft => draft
  | call :: calls, draft => history calls (call.run draft).2

/-- The names written by some call of a history. -/
def written : List (ResponseCall J) → Draft J → StdString → Prop
  | [], _, _ => False
  | call :: calls, draft, name =>
      call.writes draft name ∨ written calls (call.run draft).2 name

theorem history_append
    (front back : List (ResponseCall J)) (draft : Draft J) :
    history (front ++ back) draft = history back (history front draft) := by
  induction front generalizing draft with
  | nil => rfl
  | cons call front induction => exact induction _

end ResponseCall

end Calls

/-! ## What a chain keeps of the response -/

section Chain

variable {kept : HttpResponse J → Prop}
  {callbacks : Callbacks J A} {routers : Routers} {next : Run J A}

/-- A property of the response, of an exchange with its events. -/
abbrev OfResponse
    (kept : HttpResponse J → Prop) (traced : Traced Event (Exchange J A)) :
    Prop :=
  kept traced.state.res

/-- Callbacks whose steps keep a property of the response. -/
structure Callbacks.KeepResponse
    (callbacks : Callbacks J A) (kept : HttpResponse J → Prop) : Prop where
  middleware : ∀ label, (callbacks.middleware label).Respects
    fun before after => kept before.res → kept after.res
  handler : ∀ label exchange, kept exchange.res →
    kept ((callbacks.handler label) exchange).2.res

variable (keep : callbacks.KeepResponse kept)
  (nextKeeps : Action.Preserves (OfResponse kept) next)

include keep

theorem Callbacks.KeepResponse.enter
    (nextKeeps : Action.Preserves (OfResponse kept) next) (label : Nat) :
    Action.Preserves (OfResponse kept) (callbacks.enter label next) := by
  intro traced holds
  apply
    Script.preserves_run _ _ (callbacks.middleware label)
      (keep.middleware label)
  · exact holds
  · exact fun called update held step => step held
  · exact fun called held => nextKeeps _ held

theorem Callbacks.KeepResponse.base
    (nextKeeps : Action.Preserves (OfResponse kept) next)
    (mw : BaseMiddleware) :
    Action.Preserves (OfResponse kept) (mw.call callbacks next) := by
  cases mw with
  | plain label => exact keep.enter nextKeeps label
  | pathWrapper path label =>
      intro traced holds
      simp only [BaseMiddleware.call]
      split
      · exact keep.enter nextKeeps label _ holds
      · exact nextKeeps _ holds

theorem Callbacks.KeepResponse.router
    (nextKeeps : Action.Preserves (OfResponse kept) next)
    (mw : RouterMiddleware) :
    Action.Preserves (OfResponse kept) (mw.call callbacks routers next) := by
  cases mw with
  | base mw => exact keep.base nextKeeps mw
  | routeHandler id =>
      intro traced holds
      rcases
        RouterMiddleware.call_routeHandler_cases callbacks routers id next
          traced with
        ⟨label, req, -, handled⟩ | ⟨-, missed⟩
      · rw [handled]
        exact keep.handler label _ holds
      · rw [missed]
        exact nextKeeps _ holds
  | subRouter normalizedPath id =>
      intro traced holds
      rcases
        RouterMiddleware.call_subRouter_cases callbacks routers id next
          traced normalizedPath with
        ⟨-, label, req, -, handled⟩ | ⟨-, missed⟩
      · rw [handled, OfResponse, leaveSubRouter_res]
        exact keep.handler label _ holds
      · rw [missed]
        exact nextKeeps _ holds

theorem Callbacks.KeepResponse.server
    (nextKeeps : Action.Preserves (OfResponse kept) next)
    (mw : ServerMiddleware) :
    Action.Preserves (OfResponse kept) (mw.call callbacks routers next) := by
  cases mw with
  | base mw => exact keep.base nextKeeps mw
  | mounted normalizedPath routerMws =>
      intro traced holds
      simp only [ServerMiddleware.call]
      split
      case isFalse => exact nextKeeps _ holds
      case isTrue =>
        apply preserves_chain
        · exact fun mw _ next keeps => keep.router keeps mw
        · exact fun after held => nextKeeps _ held
        · exact holds

/-- A request keeps what the callbacks and the 404 answer keep. -/
theorem Callbacks.KeepResponse.runChain
    [Json J]
    (missed : ∀ (response : HttpResponse J) (j : J), kept response →
      kept ((response.setStatus 404).sendJson j).2)
    (setup : Setup) :
    Action.Preserves (OfResponse kept) (setup.runChain callbacks) := by
  apply preserves_chain
  · exact fun mw _ next keeps => keep.server keeps mw
  · intro traced holds
    simp only [runRoute]
    split
    · exact keep.handler _ _ holds
    · exact missed _ _ holds

end Chain

/-! ## Responses made by calls -/

section History

variable [Json J]

/--
Some calls lead from one response to the other, whatever bodies the
draft holds.
-/
def ByCalls (before after : HttpResponse J) : Prop :=
  ∃ calls, ∀ draft : Draft J, draft.response = before →
    (ResponseCall.history calls draft).response = after

/-- Callbacks that work on the response through its calls only. -/
structure Callbacks.ActByCalls (callbacks : Callbacks J A) : Prop where
  middleware : ∀ label, (callbacks.middleware label).Respects
    fun before after => ByCalls before.res after.res
  handler : ∀ label exchange,
    ByCalls exchange.res ((callbacks.handler label) exchange).2.res

theorem ByCalls.trans
    {first second third : HttpResponse J}
    (front : ByCalls first second) (back : ByCalls second third) :
    ByCalls first third := by
  rcases front with ⟨calls, leads⟩
  rcases back with ⟨calls', leads'⟩
  refine ⟨calls ++ calls', fun draft starts => ?_⟩
  rw [ResponseCall.history_append]
  exact leads' _ (leads draft starts)

/-- The response of a request is made by calls from the fresh one. -/
theorem exists_history
    {callbacks : Callbacks J A} (acts : callbacks.ActByCalls)
    (setup : Setup) (request : HttpRequest J) (app : A) :
    ∃ calls : List (ResponseCall J),
      (setup.runChain callbacks
          ⟨⟨request, HttpResponse.fresh, app⟩, []⟩).2.state.res =
        (ResponseCall.history calls Draft.new).response := by
  have keep : callbacks.KeepResponse (ByCalls HttpResponse.fresh) := by
    constructor
    · intro label
      exact (acts.middleware label).mono fun _ _ step before =>
        before.trans step
    · exact fun label exchange before =>
        before.trans (acts.handler label exchange)
  have made :
      ByCalls HttpResponse.fresh
        (setup.runChain callbacks
          ⟨⟨request, HttpResponse.fresh, app⟩, []⟩).2.state.res := by
    apply keep.runChain
    · intro response j before
      apply before.trans
      refine ⟨[.status 404, .sendJson j], fun draft starts => ?_⟩
      rw [← starts]
      rfl
    · exact ⟨[], fun draft starts => starts⟩
  rcases made with ⟨calls, leads⟩
  exact ⟨calls, (leads Draft.new rfl).symm⟩

end History

/-! ## The head of a request -/

section Head

variable [Json J]

end Head

end PlusWeb
