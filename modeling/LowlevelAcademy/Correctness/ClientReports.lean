import LowlevelAcademy.Client.Messages

/-! What the client's reports are worth: `send_hello` and `send_employee` only test whether the
decoded type is `MSG_ERROR`, and the buffer they decode still holds the request.
-/

namespace LowlevelAcademy.Correctness

open LowlevelAcademy.Foundations
open LowlevelAcademy.Database
open LowlevelAcademy.Server
open LowlevelAcademy.Client

/-- The received bytes are a complete `MSG_HELLO_RESP` that carries the protocol version. -/
def HelloResponse (bytes : List UInt8) : Prop :=
  helloSize ≤ bytes.length
  ∧ wireType bytes = MsgType.helloResp.code
  ∧ wireProto bytes = protoVersion

/-- The received bytes are a complete `MSG_EMPLOYEE_ADD_RESP`. -/
def AddResponse (bytes : List UInt8) : Prop :=
  protoHeaderSize ≤ bytes.length ∧ wireType bytes = MsgType.employeeAddResp.code

/-- `send_hello` reports success for nothing but a complete response exactly when the bytes it
reads start with the type `MSG_ERROR` or are such a response; so does `send_employee`.
-/
theorem success_answered_iff (read : ReadOutcome buffSize) (employeeStr : List UInt8)
    : (((sendHello read).status = .success → HelloResponse read.bytes)
        ↔ StartsWithError read.bytes ∨ HelloResponse read.bytes)
      ∧ (((sendEmployee employeeStr read).status = .success → AddResponse read.bytes)
        ↔ StartsWithError read.bytes ∨ AddResponse read.bytes) := by
  constructor
  · rw [sendHello_success_iff, imp_iff_not_or, not_not]
  · rw [sendEmployee_success_iff, imp_iff_not_or, not_not]

/-- When the server closes the connection at once, both calls report success. -/
theorem success_without_answer
    : ((sendHello .closed).status = .success ∧ ¬ HelloResponse [])
      ∧ (sendEmployee [97, 44, 98, 44, 49] .closed).status = .success ∧ ¬ AddResponse [] := by
  have nothing : ¬ StartsWithError [] := by simp [StartsWithError]
  refine ⟨⟨(sendHello_success_iff .closed).mpr nothing, ?_⟩,
    (sendEmployee_success_iff _ .closed).mpr nothing, ?_⟩
  · rintro ⟨long, -⟩
    exact absurd long (by decide)
  · rintro ⟨long, -⟩
    exact absurd long (by decide)

end LowlevelAcademy.Correctness
