import Mathlib.Control.Basic

/-!
# Programs as trees of calls

A program that calls an object again and again, and goes on with each answer, is the tree of
its possible calls. Code that is written for an arbitrary monad becomes such a tree when it
is run in the monad of the trees, so that its calls can be served one by one, in between the
calls of other programs. `runAlone` serves them without any interruption.
-/

namespace OacTreeServer.Library

/-- A program that has a result, or makes a call and goes on with the answer to it. -/
inductive CallTree {Call : Type} (Answer : Call → Type) (A : Type) where
  | done (a : A)
  | call (c : Call) (next : Answer c → CallTree Answer A)

namespace CallTree

variable {Call : Type} {Answer : Call → Type} {A B S : Type}

/-- Go on with another program behind every result. -/
def bind (program : CallTree Answer A) (next : A → CallTree Answer B) : CallTree Answer B :=
  match program with
  | .done a => next a
  | .call c rest => .call c fun answer ↦ (rest answer).bind next

instance : Monad (CallTree Answer) where
  pure := .done
  bind := bind

/-- The program that makes one call. -/
def perform (c : Call) : CallTree Answer (Answer c) := .call c .done

/-- A result is passed on. -/
@[simp] theorem done_bind (a : A) (next : A → CallTree Answer B) :
    (.done a : CallTree Answer A) >>= next = next a := rfl

/-- A call comes before everything behind it. -/
@[simp] theorem call_bind (c : Call) (rest : Answer c → CallTree Answer A)
    (next : A → CallTree Answer B) :
    .call c rest >>= next = .call c fun answer ↦ rest answer >>= next := rfl

/-- A program that makes one call goes on with the answer. -/
@[simp] theorem perform_bind (c : Call) (next : Answer c → CallTree Answer B) :
    perform c >>= next = .call c next := rfl

/-- Nothing but results is there to return. -/
@[simp] theorem pure_eq (a : A) : (pure a : CallTree Answer A) = .done a := rfl

private theorem bind_done (program : CallTree Answer A) :
    program >>= (.done : A → CallTree Answer A) = program := by
  induction program with
  | done a => rfl
  | call c rest ih =>
    rw [call_bind]
    congr
    funext answer
    exact ih answer

private theorem bind_bind {C : Type} (program : CallTree Answer A)
    (next : A → CallTree Answer B) (last : B → CallTree Answer C) :
    program >>= next >>= last = program >>= fun a ↦ next a >>= last := by
  induction program with
  | done a => rfl
  | call c rest ih =>
    rw [call_bind, call_bind, call_bind]
    congr
    funext answer
    exact ih answer

instance : LawfulMonad (CallTree Answer) :=
  .mk' (CallTree Answer) bind_done done_bind bind_bind

/-- A program whose calls are served without interruption: its result and the state behind it,
unless the object refuses a call. -/
def runAlone (serve : (c : Call) → S → Option (Answer c × S)) :
    CallTree Answer A → S → Option (A × S)
  | .done a, s => some (a, s)
  | .call c next, s => (serve c s).bind fun r ↦ runAlone serve (next r.1) r.2

variable {serve : (c : Call) → S → Option (Answer c × S)}

/-- A result is there without a call. -/
@[simp] theorem runAlone_done (a : A) (s : S) :
    runAlone serve (.done a) s = some (a, s) := rfl

/-- The first call is served, and then the rest. -/
theorem runAlone_call {c : Call} {next : Answer c → CallTree Answer A} {s t : S}
    {answer : Answer c} (h : serve c s = some (answer, t)) :
    runAlone serve (.call c next) s = runAlone serve (next answer) t := by
  rw [runAlone, h, Option.bind_some]

end CallTree
end OacTreeServer.Library
