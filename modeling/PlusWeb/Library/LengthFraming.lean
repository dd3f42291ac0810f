import Mathlib

/-!
# Messages whose heads tell their lengths

A reader takes a head from the front of a text, learns from it how many
letters of the body follow, and goes on behind them.  The number may depend
on something the reader knows of the message beforehand.

Messages written one after another are read back exactly if for each of them
the number learned is the length of its body.  Whatever the heads say, what
is read is the text.  Of such messages a reader who has only the first
letters reads those that are there whole, and no other.
-/

namespace PlusWeb.LengthFraming

variable {α μ ι : Type*}

/-- How a head is read, and what it says of the length of the body. -/
structure Reader (α μ ι : Type*) where
  head : List α → Option (ι × List α)
  count : μ → ι → Option Nat

/-- Read one message after another, to the end of the text. -/
def Reader.readAll (reader : Reader α μ ι) :
    List μ → List α → Option (List (ι × List α))
  | [], text => if text.isEmpty then some [] else none
  | message :: messages, text =>
      (reader.head text).bind fun (info, rest) =>
        (reader.count message info).bind fun count =>
          if rest.length < count then none
          else
            (reader.readAll messages (rest.drop count)).map
              fun read => (info, rest.take count) :: read

/-- A message as it is written. -/
structure Frame (α μ ι : Type*) where
  message : μ
  info : ι
  head : List α
  body : List α

namespace Frame

/-- The head is read back, whatever follows. -/
def HeadRead (reader : Reader α μ ι) (frame : Frame α μ ι) : Prop :=
  ∀ rest, reader.head (frame.head ++ rest) = some (frame.info, rest)

/-- The text of the message. -/
def text (frame : Frame α μ ι) : List α := frame.head ++ frame.body

/-- What should be read. -/
def read (frame : Frame α μ ι) : ι × List α := (frame.info, frame.body)

end Frame

variable {reader : Reader α μ ι}

/-- One message that says of its body what the text holds. -/
theorem readAll_step
    {message : μ} {info : ι} {count : Nat} {text rest : List α}
    (head : reader.head text = some (info, rest))
    (counted : reader.count message info = some count)
    (enough : count ≤ rest.length) (messages : List μ) :
    reader.readAll (message :: messages) text =
      (reader.readAll messages (rest.drop count)).map
        fun read => (info, rest.take count) :: read := by
  simp only [Reader.readAll, head, Option.bind_some, counted]
  rw [if_neg (not_lt.mpr enough)]

theorem readAll_cons
    {frame : Frame α μ ι} (headRead : frame.HeadRead reader)
    (messages : List μ) (rest : List α) :
    reader.readAll (frame.message :: messages) (frame.text ++ rest) =
      (reader.count frame.message frame.info).bind fun count =>
        if (frame.body ++ rest).length < count then none
        else
          (reader.readAll messages ((frame.body ++ rest).drop count)).map
            fun read =>
              (frame.info, (frame.body ++ rest).take count) :: read := by
  rw [Reader.readAll, Frame.text, List.append_assoc, headRead]
  rfl

/-- Messages are read back if and only if each says its own length. -/
theorem readAll_iff
    {frames : List (Frame α μ ι)}
    (headsRead : ∀ frame ∈ frames, frame.HeadRead reader) :
    reader.readAll (frames.map Frame.message) (frames.flatMap Frame.text) =
        some (frames.map Frame.read) ↔
      ∀ frame ∈ frames,
        reader.count frame.message frame.info =
          some frame.body.length := by
  induction frames with
  | nil => simp [Reader.readAll]
  | cons frame frames induction =>
      have rest := induction fun later member =>
        headsRead later (List.mem_cons_of_mem _ member)
      rw [List.map_cons, List.map_cons, List.flatMap_cons,
        readAll_cons (headsRead frame (List.mem_cons_self ..)),
        List.forall_mem_cons, ← rest]
      constructor
      · intro read
        rcases Option.bind_eq_some_iff.mp read with ⟨count, counted, read⟩
        split at read
        · cases read
        · next enough =>
          rcases Option.map_eq_some_iff.mp read with ⟨later, readLater, same⟩
          rcases List.cons.inj same with ⟨own, rfl⟩
          have taken := congrArg List.length (Prod.mk.inj own).2
          rw [List.length_take_of_le (not_lt.mp enough)] at taken
          have exact_ : count = frame.body.length := taken
          rw [exact_, List.drop_left] at readLater
          exact ⟨by rw [counted, exact_], readLater⟩
      · rintro ⟨counted, readLater⟩
        rw [counted, Option.bind_some, if_neg (by simp), List.drop_left,
          List.take_left, readLater]
        rfl

/-- What is read is the text. -/
theorem text_of_readAll
    {write : ι → List α}
    (sound : ∀ text info rest, reader.head text = some (info, rest) →
      text = write info ++ rest)
    {messages : List μ} {text : List α} {read : List (ι × List α)}
    (done : reader.readAll messages text = some read) :
    text = read.flatMap fun part => write part.1 ++ part.2 := by
  induction messages generalizing text read with
  | nil =>
      rw [Reader.readAll] at done
      split at done
      · next empty =>
        obtain rfl := Option.some.inj done
        simpa using empty
      · cases done
  | cons message messages induction =>
      rw [Reader.readAll] at done
      rcases Option.bind_eq_some_iff.mp done with ⟨⟨info, rest⟩, head, done⟩
      rcases Option.bind_eq_some_iff.mp done with ⟨count, -, done⟩
      split at done
      · cases done
      · rcases Option.map_eq_some_iff.mp done with ⟨later, readLater, rfl⟩
        rw [List.flatMap_cons, ← induction readLater, sound text info rest head,
          List.append_assoc, List.take_append_drop]

/-! ## The first letters of a text -/

/-- Read one message, if it is there whole; and what is behind it. -/
def Reader.readOne
    (reader : Reader α μ ι) (message : μ) (text : List α) :
    Option ((ι × List α) × List α) :=
  (reader.head text).bind fun (info, rest) =>
    (reader.count message info).bind fun count =>
      if rest.length < count then none
      else some ((info, rest.take count), rest.drop count)

/-- Read the messages that are there whole; and what is left. -/
def Reader.readWhole (reader : Reader α μ ι) :
    List μ → List α → List (ι × List α) × List α
  | [], text => ([], text)
  | message :: messages, text =>
      match reader.readOne message text with
      | none => ([], text)
      | some (read, rest) =>
          ((read :: (reader.readWhole messages rest).1),
            (reader.readWhole messages rest).2)

/-- A head is read from the same letters, whatever follows. -/
def Reader.Stable (reader : Reader α μ ι) : Prop :=
  ∀ text info rest more, reader.head text = some (info, rest) →
    reader.head (text ++ more) = some (info, rest ++ more)

/-- The messages that are whole in the first letters of their text. -/
def whole : Nat → List (Frame α μ ι) → List (Frame α μ ι)
  | _, [] => []
  | size, frame :: frames =>
      if frame.text.length ≤ size then
        frame :: whole (size - frame.text.length) frames
      else []

/-- A message that says its own length, with something behind it. -/
theorem readOne_text
    {frame : Frame α μ ι} (headRead : frame.HeadRead reader)
    (counted :
      reader.count frame.message frame.info = some frame.body.length)
    (rest : List α) :
    reader.readOne frame.message (frame.text ++ rest) =
      some (frame.read, rest) := by
  rw [Reader.readOne, Frame.text, List.append_assoc, headRead]
  simp [counted, Frame.read]

/-- A message of which something is missing. -/
theorem readOne_short
    (stable : reader.Stable) {frame : Frame α μ ι}
    (headRead : frame.HeadRead reader)
    (counted :
      reader.count frame.message frame.info = some frame.body.length)
    {text more rest : List α} (early : text ++ more = frame.text ++ rest)
    (short : text.length < frame.text.length) :
    reader.readOne frame.message text = none := by
  cases found : reader.head text with
  | none => rw [Reader.readOne, found, Option.bind_none]
  | some pair =>
      rcases pair with ⟨info, behind⟩
      have extended := stable text info behind more found
      rw [early, Frame.text, List.append_assoc, headRead] at extended
      obtain ⟨own, cut⟩ := Prod.mk.inj (Option.some.inj extended)
      subst own
      have missing : behind.length < frame.body.length := by
        have lengths := congrArg List.length early
        have bodies := congrArg List.length cut
        simp only [Frame.text, List.length_append] at lengths bodies short
        omega
      rw [Reader.readOne, found, Option.bind_some]
      simp only [counted, Option.bind_some, if_pos missing]

/--
What is read of the first letters of some messages, each of which says
its own length: those that are there whole.
-/
theorem readWhole_of_prefix
    (stable : reader.Stable) {frames : List (Frame α μ ι)}
    (headsRead : ∀ frame ∈ frames, frame.HeadRead reader)
    (counted : ∀ frame ∈ frames,
      reader.count frame.message frame.info = some frame.body.length)
    {text tail : List α}
    (early : text <+: frames.flatMap Frame.text ++ tail) :
    reader.readWhole (frames.map Frame.message) text =
      ((whole text.length frames).map Frame.read,
        text.drop
          ((whole text.length frames).flatMap Frame.text).length) := by
  induction frames generalizing text with
  | nil => simp [Reader.readWhole, whole]
  | cons frame frames induction =>
      obtain ⟨own, others⟩ := List.forall_mem_cons.mp headsRead
      obtain ⟨ownCount, otherCounts⟩ := List.forall_mem_cons.mp counted
      rw [List.flatMap_cons, List.append_assoc] at early
      rw [List.map_cons, Reader.readWhole]
      by_cases there : frame.text.length ≤ text.length
      · obtain ⟨rest, rfl⟩ :=
          List.prefix_of_prefix_length_le (List.prefix_append _ _) early
            there
        have later :=
          induction others otherCounts
            ((List.prefix_append_right_inj _).mp early)
        rw [readOne_text own ownCount, whole, if_pos there]
        simp [later]
      · obtain ⟨more, same⟩ := early
        rw [readOne_short stable own ownCount same (Nat.lt_of_not_le there),
          whole, if_neg there]
        simp

end PlusWeb.LengthFraming
