import PlusWeb.LlhttpContract

/-!
# Parsers that read byte after byte

A machine that moves on each byte and merges the spans of one call cuts
spans only.  If it starts anew after a message that keeps the connection
alive, and reads line ends only after one that does not, it satisfies all
that is assumed of llhttp.

One such machine reads requests without a body, and without the headers that
decide about the connection, as llhttp does.  It is what closed examples are
evaluated with.
-/

namespace PlusWeb

open Fragments

/-- What one byte leads to. -/
structure ByteMachine.Move (Phase : Type) where
  callbacks : List Callback
  next : Except (Errno × StdString) Phase

/-- A machine that reads byte after byte. -/
structure ByteMachine where
  Phase : Type
  start : Phase
  move : Phase → UInt8 → ByteMachine.Move Phase
  /-- A byte that stops the machine is an error. -/
  stops : ∀ {phase byte errno reason},
    (move phase byte).next = .error (errno, reason) → errno ≠ .ok

namespace ByteMachine

variable (machine : ByteMachine)

/-- Read the bytes of one call, without merging spans. -/
def run (machine : ByteMachine) :
    machine.Phase → StdString → Llhttp.Result machine.Phase
  | phase, [] => ⟨[], .ok, [], phase⟩
  | phase, byte :: bytes =>
      match machine.move phase byte with
      | ⟨callbacks, .ok next⟩ =>
          let later := machine.run next bytes
          { later with callbacks := callbacks ++ later.callbacks }
      | ⟨callbacks, .error (errno, reason)⟩ =>
          ⟨callbacks, errno, reason, machine.start⟩

/-- The parser of a byte machine: the spans of one call are merged. -/
def llhttp (machine : ByteMachine) : Llhttp where
  State := machine.Phase
  init := machine.start
  execute phase bytes :=
    let result := machine.run phase bytes
    { result with callbacks := merge Callback.join result.callbacks }

variable (machine : ByteMachine)

theorem run_next
    {phase next : machine.Phase} {byte : UInt8} {callbacks : List Callback}
    (moved : machine.move phase byte = ⟨callbacks, .ok next⟩)
    (bytes : StdString) :
    machine.run phase (byte :: bytes) =
      { machine.run next bytes with
        callbacks := callbacks ++ (machine.run next bytes).callbacks } := by
  rw [run, moved]

theorem run_stop
    {phase : machine.Phase} {byte : UInt8} {callbacks : List Callback}
    {fault : Errno × StdString}
    (moved : machine.move phase byte = ⟨callbacks, .error fault⟩)
    (bytes : StdString) :
    machine.run phase (byte :: bytes) =
      ⟨callbacks, fault.1, fault.2, machine.start⟩ := by
  rw [run, moved]

/-- Reading in two parts is reading the whole. -/
theorem run_append
    (phase : machine.Phase) (front back : StdString) :
    machine.run phase (front ++ back) =
      if (machine.run phase front).errno = .ok then
        let later := machine.run (machine.run phase front).next back
        { later with
          callbacks :=
            (machine.run phase front).callbacks ++ later.callbacks }
      else machine.run phase front := by
  induction front generalizing phase with
  | nil => simp [run]
  | cons byte front induction =>
      cases moved : machine.move phase byte with
      | mk callbacks next =>
      cases next with
      | ok next =>
          rw [List.cons_append, run_next machine moved,
            run_next machine moved, induction next]
          by_cases fine : (machine.run next front).errno = .ok <;>
            simp [fine]
      | error fault =>
          have stopped : fault.1 ≠ .ok :=
            machine.stops (congrArg Move.next moved)
          rw [List.cons_append, run_stop machine moved,
            run_stop machine moved, if_neg stopped]

/-- Successive calls report what one call reports, up to cuts of spans. -/
theorem feed_run
    (phase : machine.Phase) (chunks : List StdString) :
    merge Callback.join (machine.llhttp.feed phase chunks).1 =
        merge Callback.join (machine.run phase chunks.flatten).callbacks ∧
      (machine.llhttp.feed phase chunks).2 =
        (machine.run phase chunks.flatten).errno := by
  induction chunks generalizing phase with
  | nil => simp [Llhttp.feed, run]
  | cons chunk chunks induction =>
      rcases induction (machine.run phase chunk).next with ⟨spans, errno⟩
      have fed :
          machine.llhttp.feed phase (chunk :: chunks) =
            if (machine.run phase chunk).errno = .ok then
              (merge Callback.join (machine.run phase chunk).callbacks ++
                  (machine.llhttp.feed (machine.run phase chunk).next
                    chunks).1,
                (machine.llhttp.feed (machine.run phase chunk).next
                  chunks).2)
            else
              (merge Callback.join (machine.run phase chunk).callbacks,
                (machine.run phase chunk).errno) := rfl
      rw [fed, List.flatten_cons, run_append]
      by_cases fine : (machine.run phase chunk).errno = .ok
      · simp only [fine, ↓reduceIte]
        refine ⟨?_, errno⟩
        rw [merge_append Callback.join_associative,
          merge_append Callback.join_associative,
          merge_merge Callback.join_associative, spans]
      · simp only [fine, ↓reduceIte, and_true]
        exact merge_merge Callback.join_associative _

/--
A machine that starts anew after a message that keeps the connection
alive satisfies what is assumed of llhttp.
-/
theorem assumed
    (resets : ∀ {phase byte callbacks next info},
      machine.move phase byte = ⟨callbacks, .ok next⟩ →
      .messageComplete info ∈ callbacks → info.shouldKeepAlive = true →
      next = machine.start) :
    machine.llhttp.Assumed where
  cuts chunks chunks' same := by
    rcases machine.feed_run machine.start chunks with ⟨spans, errno⟩
    rcases machine.feed_run machine.start chunks' with ⟨spans', errno'⟩
    rw [← same] at spans' errno'
    exact ⟨spans.trans spans'.symm, errno.trans errno'.symm⟩
  restarts message isMessage fine chunks := by
    suffices anew :
        (machine.run machine.start message).next = machine.start by
      have same :
          (machine.llhttp.execute machine.llhttp.init message).next =
            machine.llhttp.init := anew
      rw [same]
      exact ⟨rfl, rfl⟩
    rcases isMessage.complete with ⟨front, info, complete, keepAlive, -⟩
    have ended := Callback.whole_messageComplete info
    obtain ⟨front', back', complete, -⟩ :=
      merge_eq_append_cons ended complete
    have member : .messageComplete info ∈
        (machine.run machine.start message).callbacks := by
      have complete :
          (machine.run machine.start message).callbacks =
            front' ++ .messageComplete info :: back' := complete
      simp [complete]
    have fine : (machine.run machine.start message).errno = .ok := fine
    -- The message is complete with its last byte, which leads to the start.
    rcases List.eq_nil_or_concat message with rfl | ⟨start, byte, rfl⟩
    · simp [run] at member
    rw [List.concat_eq_append, run_append] at member fine ⊢
    by_cases before : (machine.run machine.start start).errno = .ok
    · rw [if_pos before] at member fine ⊢
      cases moved :
          machine.move (machine.run machine.start start).next byte with
      | mk callbacks next =>
      cases next with
      | error fault =>
          rw [run_stop machine moved] at fine
          exact absurd fine (machine.stops (congrArg Move.next moved))
      | ok next =>
          rw [run_next machine moved] at member ⊢
          rcases List.mem_append.mp member with early | late
          · exact
              absurd trivial
                (isMessage.whole start (by simp) (by simp)
                  (.messageComplete info) (mem_merge ended early))
          · exact resets moved (by simpa [run] using late) keepAlive
    · rw [if_neg before] at fine
      exact absurd fine before

/--
After a message that does not keep the connection alive the machine may
only stop for an upgrade, or read on without a callback.
-/
def Ends (machine : ByteMachine) : Prop :=
  ∀ {phase byte front info back},
    (machine.move phase byte).callbacks =
      front ++ .messageComplete info :: back →
    info.shouldKeepAlive = false →
      back = [] ∧
        match (machine.move phase byte).next with
        | .ok next =>
            ∀ bytes, (machine.run next bytes).callbacks = [] ∧
              ((machine.run next bytes).errno = .ok ∨
                (machine.run next bytes).errno = .closedConnection)
        | .error fault => fault.1 = .pausedUpgrade

theorem run_ends
    (ends : machine.Ends) {phase : machine.Phase} {bytes : StdString}
    {front back : List Callback} {info : MessageInfo}
    (complete :
      (machine.run phase bytes).callbacks =
        front ++ .messageComplete info :: back)
    (closing : info.shouldKeepAlive = false) :
    back = [] ∧
      ((machine.run phase bytes).errno = .ok ∨
        (machine.run phase bytes).errno = .pausedUpgrade ∨
        (machine.run phase bytes).errno = .closedConnection) := by
  induction bytes generalizing phase front with
  | nil => simp [run] at complete
  | cons byte bytes induction =>
      cases moved : machine.move phase byte with
      | mk callbacks next =>
      have final := @ends phase byte
      rw [moved] at final
      cases next with
      | error fault =>
          rw [run_stop machine moved] at complete ⊢
          rcases final complete closing with ⟨none, errno⟩
          exact ⟨none, Or.inr (Or.inl errno)⟩
      | ok next =>
          rw [run_next machine moved] at complete ⊢
          rcases List.append_eq_append_iff.mp complete with
            ⟨middle, rfl, later⟩ | ⟨middle, rfl, later⟩
          · exact induction later
          · cases middle with
            | nil => exact @induction next [] later.symm
            | cons _ middle =>
                rcases List.cons.inj later with ⟨rfl, rfl⟩
                rcases final rfl closing with ⟨rfl, quiet⟩
                rcases quiet bytes with ⟨none, errno⟩
                exact ⟨by simp [none], errno.imp_right Or.inr⟩

/-- Such a machine satisfies what is assumed of the end. -/
theorem closes (ends : machine.Ends) : machine.llhttp.Closes := by
  intro phase bytes front info back complete closing
  obtain ⟨front', back', complete, same⟩ :=
    merge_eq_append_cons (Callback.whole_messageComplete info) complete
  rcases machine.run_ends ends complete closing with ⟨rfl, errno⟩
  exact ⟨same.symm, errno⟩

end ByteMachine

/-! ## Requests without a body -/

/-- The method and the minor version of a request. -/
structure RequestStart where
  method : StdString
  minor : Nat

/-- The rest of a request line and the headers. -/
inductive LinePart where
  | lineEnd
  | lineFeed
  | fieldStart
  | field
  | valueStart
  | value
  | valueFeed
  | blankFeed

/-- Where the machine stands in a request. -/
inductive RequestPhase where
  | method (name : StdString)
  | target (method : StdString)
  | version (method rest : StdString)
  | line (part : LinePart) (start : RequestStart)
  | closed

namespace RequestPhase

open ByteMachine

abbrev carriageReturn : UInt8 := 13
abbrev lineFeed : UInt8 := 10
abbrev space : UInt8 := 32

-- Found by name, the instance is one term in every module.
local instance lawfulBEq_string : LawfulBEq StdString := inferInstance

/-- The methods the machine knows. -/
def methods : List StdString :=
  [ascii "GET", ascii "HEAD", ascii "DELETE", ascii "CONNECT"]

/-- Go on without a callback. -/
def goOn (next : RequestPhase) : Move RequestPhase := ⟨[], .ok next⟩

/-- Report a span of one byte. -/
def report (callback : Callback) (next : RequestPhase) : Move RequestPhase :=
  ⟨[callback], .ok next⟩

/-- Stop with an error. -/
def stop (name reason : String) : Move RequestPhase :=
  ⟨[], .error (.other (ascii name), ascii reason)⟩

/--
The end of a request: a `CONNECT` asks for an upgrade, and HTTP/1.0 does
not keep the connection alive.
-/
def finish (start : RequestStart) : Move RequestPhase where
  callbacks :=
    [.headersComplete,
      .messageComplete
        { method := start.method
          httpMajor := 1
          httpMinor := start.minor
          shouldKeepAlive := start.minor = 1 }]
  next :=
    if start.method = ascii "CONNECT" then
      .error (.pausedUpgrade, ascii "Pause on CONNECT/Upgrade")
    else if start.minor = 1 then .ok (.method [])
    else .ok .closed

/-- One byte of the end of a request line or of the headers. -/
def moveLine (start : RequestStart) (byte : UInt8) :
    LinePart → Move RequestPhase
  | .lineEnd =>
      if byte = carriageReturn then goOn (.line .lineFeed start)
      else stop "HPE_INVALID_VERSION" "Expected CRLF after version"
  | .lineFeed =>
      if byte = lineFeed then goOn (.line .fieldStart start)
      else stop "HPE_STRICT" "Expected LF"
  | .fieldStart =>
      if byte = carriageReturn then goOn (.line .blankFeed start)
      else if byte = colon then
        stop "HPE_INVALID_HEADER_TOKEN" "Invalid header token"
      else report (.headerField [byte]) (.line .field start)
  | .field =>
      if byte = colon then goOn (.line .valueStart start)
      else report (.headerField [byte]) (.line .field start)
  | .valueStart =>
      if byte = space then goOn (.line .valueStart start)
      else if byte = carriageReturn then
        report (.headerValue []) (.line .valueFeed start)
      else report (.headerValue [byte]) (.line .value start)
  | .value =>
      if byte = carriageReturn then goOn (.line .valueFeed start)
      else report (.headerValue [byte]) (.line .value start)
  | .valueFeed =>
      if byte = lineFeed then goOn (.line .fieldStart start)
      else stop "HPE_LF_EXPECTED" "Missing expected LF after header value"
  | .blankFeed =>
      if byte = lineFeed then finish start
      else stop "HPE_STRICT" "Expected LF after headers"

/-- One byte. -/
def move : RequestPhase → UInt8 → Move RequestPhase
  | .method name, byte =>
      if name = [] ∧ (byte = carriageReturn ∨ byte = lineFeed) then
        goOn (.method [])
      else if byte = space ∧ name ∈ methods then goOn (.target name)
      else if methods.any (name ++ [byte]).isPrefixOf then
        goOn (.method (name ++ [byte]))
      else stop "HPE_INVALID_METHOD" "Invalid method encountered"
  | .target name, byte =>
      if byte = space then goOn (.version name (ascii "HTTP/1."))
      else if byte = carriageReturn ∨ byte = lineFeed then
        stop "HPE_INVALID_URL" "Invalid characters in url"
      else report (.url [byte]) (.target name)
  | .version name (expected :: rest), byte =>
      if byte = expected then goOn (.version name rest)
      else stop "HPE_INVALID_CONSTANT" "Expected HTTP/"
  | .version name [], byte =>
      if byte = 48 then goOn (.line .lineEnd ⟨name, 0⟩)
      else if byte = 49 then goOn (.line .lineEnd ⟨name, 1⟩)
      else stop "HPE_INVALID_VERSION" "Invalid minor version"
  | .line part start, byte => moveLine start byte part
  | .closed, byte =>
      if byte = carriageReturn ∨ byte = lineFeed then goOn .closed
      else
        ⟨[], .error (.closedConnection,
          ascii "Data after Connection: close")⟩

/--
A move ends a message as `finish` does, or ends none and stops at most
with an error of its own.
-/
def Move.Fine (result : Move RequestPhase) : Prop :=
  (∃ start, result = finish start) ∨
    (∀ callback ∈ result.callbacks, ¬ callback.Ends) ∧
      ∀ fault, result.next = .error fault → fault.1 ≠ .ok

theorem fine_goOn (next : RequestPhase) : Move.Fine (goOn next) :=
  Or.inr ⟨by simp [goOn], by simp [goOn]⟩

theorem fine_report
    {callback : Callback} (quiet : ¬ callback.Ends) (next : RequestPhase) :
    Move.Fine (report callback next) :=
  Or.inr ⟨by simpa [report] using quiet, by simp [report]⟩

theorem fine_stop (name reason : String) : Move.Fine (stop name reason) :=
  Or.inr ⟨by simp [stop], by simp [stop]⟩

theorem fine_moveLine
    (start : RequestStart) (byte : UInt8) (part : LinePart) :
    Move.Fine (moveLine start byte part) := by
  cases part <;> simp only [moveLine] <;> split_ifs <;>
    first
      | exact fine_goOn _
      | exact fine_stop _ _
      | exact fine_report (by exact not_false) _
      | exact Or.inl ⟨start, rfl⟩

theorem fine_move (phase : RequestPhase) (byte : UInt8) :
    Move.Fine (phase.move byte) := by
  cases phase with
  | line part start => exact fine_moveLine start byte part
  | version name expected =>
      cases expected <;> simp only [move] <;> split_ifs <;>
        first
          | exact fine_goOn _
          | exact fine_stop _ _
  | closed =>
      simp only [move]
      split_ifs
      · exact fine_goOn _
      · exact Or.inr ⟨by simp, by rintro fault ⟨⟩; simp⟩
  | method name =>
      simp only [move]
      split_ifs <;>
        first
          | exact fine_goOn _
          | exact fine_stop _ _
  | target name =>
      simp only [move]
      split_ifs <;>
        first
          | exact fine_goOn _
          | exact fine_stop _ _
          | exact fine_report (by exact not_false) _

/-- Only `finish` ends a message. -/
theorem move_eq_finish
    {phase : RequestPhase} {byte : UInt8} {info : MessageInfo}
    (ends : .messageComplete info ∈ (phase.move byte).callbacks) :
    ∃ start, phase.move byte = finish start :=
  (fine_move phase byte).resolve_right fun quiet =>
    quiet.1 _ ends trivial

end RequestPhase

open RequestPhase

/-- The machine that reads requests without a body. -/
def bodilessRequests : ByteMachine where
  Phase := RequestPhase
  start := .method []
  move := RequestPhase.move
  stops := by
    intro phase byte errno reason stopped
    rcases fine_move phase byte with ⟨start, equal⟩ | ⟨-, fault⟩
    · rw [equal] at stopped
      simp only [finish] at stopped
      split_ifs at stopped
      rcases Prod.mk.inj (Except.error.inj stopped) with ⟨rfl, -⟩
      simp
    · exact fault _ stopped

theorem bodilessRequests_assumed : bodilessRequests.llhttp.Assumed := by
  apply ByteMachine.assumed
  intro phase byte callbacks next info moved ends keepAlive
  have moved : RequestPhase.move phase byte = ⟨callbacks, .ok next⟩ := moved
  obtain ⟨start, equal⟩ :=
    @move_eq_finish phase byte info
      (by rw [moved]; exact ends)
  rcases ByteMachine.Move.mk.inj (equal.symm.trans moved) with ⟨rfl, after⟩
  obtain rfl : info = _ := by simpa using ends
  have minor : start.minor = 1 := by simpa using keepAlive
  rw [if_pos minor] at after
  split_ifs at after
  exact (Except.ok.inj after).symm

/--
After a message that does not keep the connection alive only line ends
are read.
-/
theorem run_closed (bytes : StdString) :
    (bodilessRequests.run .closed bytes).callbacks = [] ∧
      ((bodilessRequests.run .closed bytes).errno = .ok ∨
        (bodilessRequests.run .closed bytes).errno = .closedConnection) := by
  induction bytes with
  | nil => exact ⟨rfl, Or.inl rfl⟩
  | cons byte bytes induction =>
      by_cases lineEnd : byte = carriageReturn ∨ byte = lineFeed
      · have moved : bodilessRequests.move .closed byte = goOn .closed :=
          if_pos lineEnd
        rw [bodilessRequests.run_next moved]
        exact induction
      · have moved :
            bodilessRequests.move .closed byte =
              ⟨[], .error (.closedConnection,
                ascii "Data after Connection: close")⟩ :=
          if_neg lineEnd
        rw [bodilessRequests.run_stop moved]
        exact ⟨rfl, Or.inr rfl⟩

theorem bodilessRequests_closes : bodilessRequests.llhttp.Closes := by
  apply ByteMachine.closes
  intro phase byte front info back complete closing
  have complete :
      (RequestPhase.move phase byte).callbacks =
        front ++ .messageComplete info :: back := complete
  obtain ⟨start, equal⟩ :=
    @move_eq_finish phase byte info
      (by simp [complete])
  have same : bodilessRequests.move phase byte = finish start := equal
  rw [equal] at complete
  obtain ⟨minor, rfl⟩ : start.minor ≠ 1 ∧ back = [] := by
    rcases front with _ | ⟨first, _ | ⟨second, front⟩⟩
    · simp [finish] at complete
    · obtain ⟨-, rfl, rfl⟩ := by simpa [finish] using complete
      exact ⟨by simpa using closing, rfl⟩
    · simp [finish] at complete
  refine ⟨rfl, ?_⟩
  rw [same]
  by_cases upgrade : start.method = ascii "CONNECT"
  · simp [finish, upgrade]
  · simpa [finish, upgrade, minor] using run_closed

end PlusWeb
