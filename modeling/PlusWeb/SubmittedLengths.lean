import PlusWeb.WriteBacklog

/-!
# The lengths that `send` submits

Sizes are `size_t` up to `send`, and `unsigned int` in `uv_buf_init`.  The
lengths of the buffers add up to what was to be sent, and so to the head and
the declared body, exactly if neither the head nor the body has a length of
2^32 or more.
-/

namespace PlusWeb

namespace Session

/--
The buffers `send` hands to `uv_write`: one for the head, and one for the
body unless it is empty.
-/
def outBuffers (head body : StdString) : List StdString :=
  uvBufInit head :: if body ≠ [] then [uvBufInit body] else []

theorem flatten_outBuffers (head body : StdString) :
    (outBuffers head body).flatten = buffers head body := by
  rw [outBuffers, buffers, List.flatten_cons]
  split_ifs <;> simp

/-- The sum of the buffer lengths. -/
def submitted (head body : StdString) : Nat :=
  ((outBuffers head body).map List.length).sum

theorem submitted_eq (head body : StdString) :
    submitted head body = (buffers head body).length := by
  rw [submitted, ← List.length_flatten, flatten_outBuffers]

end Session

namespace HttpResponse

variable {J : Type} [Json J]

/--
What a response is serialized to, together or apart, is its head section
and the text of its body.
-/
theorem serialize_length
    {response : HttpResponse J} {memory : Int} {splitAbove : Nat}
    {includeBody : Bool} {head body : StdString}
    (serialized :
      response.serialize memory splitAbove includeBody = .ok (head, body))
    (declared : ∀ text, response.bodySection = .ok text →
      text.length = response.body.length) :
    head.length + body.length =
      (response.headSection memory).length +
        if includeBody then response.body.length else 0 := by
  unfold serialize at serialized
  cases includeBody with
  | false =>
      rcases Prod.mk.inj (Except.ok.inj serialized) with ⟨rfl, rfl⟩
      rfl
  | true =>
      cases written : response.bodySection with
      | error what => simp [written] at serialized
      | ok text =>
          have length := declared text written
          simp only [written, ↓reduceIte] at serialized ⊢
          split at serialized
          · rcases Prod.mk.inj (Except.ok.inj serialized) with ⟨rfl, rfl⟩
            rw [length]
          · rcases Prod.mk.inj (Except.ok.inj serialized) with ⟨rfl, rfl⟩
            rw [List.length_append, length]
            rfl

end HttpResponse

open Session

/--
The lengths of the buffers add up to the length of the head and the body
exactly if both fit into `unsigned int`; and if a body is written with the
length `Content-Length` declares, then also to that of the head section and
the declared length.
-/
theorem submitted_eq_iff
    {J : Type} [Json J] (head body : StdString) :
    (submitted head body = head.length + body.length ↔
        head.length < 2 ^ 32 ∧ body.length < 2 ^ 32) ∧
      ∀ (response : HttpResponse J) (memory : Int) (splitAbove : Nat)
        (includeBody : Bool),
        response.serialize memory splitAbove includeBody = .ok (head, body) →
          (∀ text, response.bodySection = .ok text →
            text.length = response.body.length) →
            (submitted head body =
                (response.headSection memory).length +
                  (if includeBody then response.body.length else 0) ↔
              head.length < 2 ^ 32 ∧ body.length < 2 ^ 32) := by
  have fits :
      submitted head body = head.length + body.length ↔
        head.length < 2 ^ 32 ∧ body.length < 2 ^ 32 := by
    rw [submitted_eq, ← List.length_append]
    exact buffers_length_eq_iff (head, body)
  refine ⟨fits, fun response memory splitAbove includeBody serialized declared => ?_⟩
  rw [← HttpResponse.serialize_length serialized declared]
  exact fits

/-- A response with a body of five bytes. -/
def greeting : HttpResponse FlatJson :=
  HttpResponse.fresh.sendText (ascii "hello")

/-- Split into two buffers. -/
theorem submitted_eq_iff_greeting :
    submitted (greeting.headSection 0) (ascii "hello") =
        (greeting.headSection 0).length + greeting.body.length ↔
      (greeting.headSection 0).length < 2 ^ 32 ∧
        (ascii "hello").length < 2 ^ 32 :=
  (submitted_eq_iff (greeting.headSection 0) (ascii "hello")).2 greeting 0 4
    true rfl (by rintro text ⟨⟩; rfl)

/-- A body of 2^32 bytes is submitted as an empty buffer. -/
theorem submitted_short :
    ¬ ∀ head body : StdString,
      submitted head body = head.length + body.length := by
  intro claim
  obtain ⟨body, length⟩ : ∃ body : StdString, body.length = 2 ^ 32 :=
    ⟨List.replicate (2 ^ 32) 0, List.length_replicate⟩
  have whole := claim (ascii "HTTP/1.1 200 OK\r\n\r\n") body
  rw [submitted_eq, ← List.length_append] at whole
  have fits := ((buffers_length_eq_iff (_, body)).mp whole).2
  simp only [length] at fits
  exact absurd fits (Nat.lt_irrefl _)

end PlusWeb
