import OacTreeServer.External.OacTree

/-!
# The server of one request for user input

`InputRequestServer` (`base/input_request_server.cpp:36`) holds the id of the current
request, a slot for its reply and an interrupt flag. Every operation is one section
under its lock, except that waiting for a reply blocks on a predicate.
-/

namespace OacTreeServer.Input
open OacTreeServer.External

/-- `IsValid`; `input_request_server.cpp:111`. -/
def isValid {V : Type} [OacTree V] (reply : UserInputReply V) : Bool :=
  reply.requestType != OacTree.kInvalid V

/-- The members of the server that its lock protects; `input_request_server.h:87`. -/
structure InputRequestServer (V : Type) where
  requestId : UInt64
  reply : UserInputReply V
  interrupted : Bool
  deriving DecidableEq, Repr

namespace InputRequestServer

variable {V : Type} [OacTree V]

/-- Construction; `input_request_server.cpp:37`. -/
def new : InputRequestServer V := ⟨0, OacTree.kInvalidUserInputReply, false⟩

/-- `InitNewRequest`; `input_request_server.cpp:47`. -/
def initNewRequest (_server : InputRequestServer V) (id : UInt64) : InputRequestServer V :=
  { requestId := id, interrupted := false, reply := OacTree.kInvalidUserInputReply }

/-- `SetClientReply`: whether the reply was accepted, and the server behind it;
`input_request_server.cpp:55`. -/
def setClientReply (server : InputRequestServer V) (id : UInt64) (reply : UserInputReply V) :
    Bool × InputRequestServer V :=
  if id = 0 || !isValid reply then
    (false, server)
  else if id ≠ server.requestId || isValid server.reply then
    (false, server)
  else
    (true, { server with reply := reply })

/-- The predicate on which `WaitForReply` blocks; `input_request_server.cpp:81`. -/
def waitPredicate (server : InputRequestServer V) (id : UInt64) : Bool :=
  isValid server.reply && id = server.requestId || server.interrupted

/-- `WaitForReply`, or `none` while it blocks; `input_request_server.cpp:75`. -/
def waitForReply (server : InputRequestServer V) (id : UInt64) :
    Option (Bool × UserInputReply V) :=
  if id = 0 then
    some (false, OacTree.kInvalidUserInputReply)
  else if server.waitPredicate id then
    if server.interrupted then some (false, OacTree.kInvalidUserInputReply)
    else some (true, server.reply)
  else
    none

/-- `Interrupt`; `input_request_server.cpp:94`. -/
def interrupt (server : InputRequestServer V) (id : UInt64) : InputRequestServer V :=
  if server.requestId ≠ id then server else { server with interrupted := true }

section Laws

variable {server : InputRequestServer V} {id : UInt64} {reply : UserInputReply V}

/-- Exactly a valid reply to the current request is accepted, once. -/
theorem setClientReply_fst :
    (server.setClientReply id reply).1 = true ↔
      id ≠ 0 ∧ isValid reply = true ∧ id = server.requestId ∧ isValid server.reply = false := by
  unfold setClientReply
  by_cases hid : id = 0
  · simp [hid]
  · cases hv : isValid reply with
    | false => simp
    | true => by_cases he : id = server.requestId <;> cases hr : isValid server.reply <;> simp_all

/-- A refused reply changes nothing. -/
theorem setClientReply_of_refused (h : (server.setClientReply id reply).1 = false) :
    (server.setClientReply id reply).2 = server := by
  unfold setClientReply at h ⊢
  split
  · rfl
  · split
    · rfl
    · simp_all

/-- An accepted reply fills the slot. -/
theorem setClientReply_of_accepted (h : (server.setClientReply id reply).1 = true) :
    (server.setClientReply id reply).2 = { server with reply := reply } := by
  unfold setClientReply at h ⊢
  split
  · simp_all
  · split
    · simp_all
    · rfl

/-- Replies do not change the current request. -/
@[simp] theorem setClientReply_requestId :
    (server.setClientReply id reply).2.requestId = server.requestId := by
  cases h : (server.setClientReply id reply).1 with
  | false => rw [setClientReply_of_refused h]
  | true => rw [setClientReply_of_accepted h]

omit [OacTree V] in
/-- Interrupts do not change the current request. -/
@[simp] theorem interrupt_requestId : (server.interrupt id).requestId = server.requestId := by
  unfold interrupt
  split <;> rfl

omit [OacTree V] in
/-- Interrupts do not change the reply. -/
@[simp] theorem interrupt_reply : (server.interrupt id).reply = server.reply := by
  unfold interrupt
  split <;> rfl

omit [OacTree V] in
/-- The flag is set by an interrupt of the current request, and by no other. -/
theorem interrupt_interrupted :
    (server.interrupt id).interrupted = true ↔
      server.interrupted = true ∨ server.requestId = id := by
  unfold interrupt
  split <;> simp_all

/-- What a waiting call can return: nothing on an interrupt, else the reply. -/
theorem waitForReply_eq_some (hid : id ≠ 0) {result : Bool × UserInputReply V} :
    server.waitForReply id = some result ↔
      server.interrupted = true ∧ result = (false, OacTree.kInvalidUserInputReply) ∨
      server.interrupted = false ∧ isValid server.reply = true ∧ id = server.requestId ∧
        result = (true, server.reply) := by
  unfold waitForReply waitPredicate
  rw [if_neg hid]
  by_cases he : id = server.requestId <;> cases hi : server.interrupted <;>
    cases hv : isValid server.reply <;> simp [he, eq_comm (a := result)]

end Laws

end InputRequestServer
end OacTreeServer.Input
