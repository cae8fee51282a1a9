import LowlevelAcademy.Client.Calls
import LowlevelAcademy.Server.Requests

/-! The client's calls on the wire: what they send, and what they make of the bytes that a
read put over the request.
-/

namespace LowlevelAcademy.Client

open LowlevelAcademy.Foundations
open LowlevelAcademy.Database
open LowlevelAcademy.Server

/-- The padding of the client's headers, which lies in a cleared buffer. -/
def noPadding : Bytes 2 := fit 2 nul []

/-- The message that `send_hello` writes. -/
def helloMessage : ClientMessage := .hello noPadding protoVersion

/-- The message that `send_employee` writes. -/
def addMessage (employeeStr : List UInt8) : ClientMessage :=
  .add noPadding (strncpy nul 1024 employeeStr)

/-- The message that `list_employees` writes. -/
def listMessage : ClientMessage := .list noPadding

/-- The buffer holds a message, and zeros behind it. -/
def HoldsMessage (buffer : Buffer) (message : ClientMessage) : Prop :=
  buffer.toList = message.bytes ++ List.replicate (buffSize - message.size) nul

theorem clearedBuffer_toList : clearedBuffer.toList = List.replicate buffSize nul := by
  rw [clearedBuffer, fit_toList_of_le (Nat.zero_le _)]
  rfl

private theorem drop_cleared (bound : Nat)
    : clearedBuffer.toList.drop bound = List.replicate (buffSize - bound) nul := by
  rw [clearedBuffer_toList, List.drop_replicate]

/-- Behind type and length a cleared buffer has the padding, then more zeros. -/
private theorem drop_cleared_padding
    : clearedBuffer.toList.drop 6
      = noPadding.toList ++ List.replicate (buffSize - protoHeaderSize) nul := by
  have split : buffSize - 6 = 2 + (buffSize - protoHeaderSize) := by decide
  rw [drop_cleared, split, List.replicate_add]
  rfl

theorem helloRequest_holds : HoldsMessage helloRequest helloMessage := by
  have built := clearedBuffer.toList_hello .helloReq
  have padding : slice 6 2 clearedBuffer.toList = noPadding.toList := by
    rw [slice, drop_cleared, List.take_replicate]
    rfl
  rw [HoldsMessage, helloRequest, built, padding, drop_cleared]
  simp only [helloMessage, ClientMessage.bytes, ClientMessage.body, ClientMessage.size,
    ClientMessage.msgType, ClientMessage.length, List.append_assoc]

theorem listRequest_holds : HoldsMessage listRequest listMessage := by
  have built := Buffer.toList_swapHeader_of_set
    (clearedBuffer.toList_setHeader MsgType.employeeListReq.code 0)
  rw [HoldsMessage, listRequest, built, drop_cleared_padding]
  simp only [listMessage, ClientMessage.bytes, ClientMessage.body, ClientMessage.size,
    ClientMessage.msgType, ClientMessage.length, List.append_assoc]

theorem addRequest_holds (employeeStr : List UInt8)
    : HoldsMessage (addRequest employeeStr) (addMessage employeeStr) := by
  let data := (strncpy nul 1024 employeeStr).toList
  let header := (clearedBuffer.setHeaderType MsgType.employeeAddReq.code).setHeaderLength 1
  have size : data.length = 1024 := List.Vector.toList_length _
  have set : header.toList
      = leBytes 4 MsgType.employeeAddReq.code.toNat
        ++ (leBytes 2 (1 : UInt16).toNat
          ++ (noPadding.toList ++ List.replicate (buffSize - protoHeaderSize) nul)) := by
    rw [clearedBuffer.toList_setHeader, drop_cleared_padding]
  have front : (leBytes 4 MsgType.employeeAddReq.code.toNat
      ++ leBytes 2 (1 : UInt16).toNat ++ noPadding.toList).length = protoHeaderSize := by
    simp
  have stored : (header.store protoHeaderSize data).toList
      = leBytes 4 MsgType.employeeAddReq.code.toNat
        ++ (leBytes 2 (1 : UInt16).toNat
          ++ (noPadding.toList ++ (data ++ List.replicate (buffSize - 1032) nul))) := by
    rw [Buffer.toList_store _ (by rw [size]; decide), set, splice]
    simp only [← List.append_assoc]
    rw [List.take_left' front, List.append_assoc _ data, List.append_assoc _ data, size,
      ← List.drop_drop (i := 1024) (j := protoHeaderSize), List.drop_left' front,
      List.drop_replicate]
    rfl
  rw [HoldsMessage, addRequest, Buffer.toList_swapHeader_of_set stored]
  simp only [addMessage, ClientMessage.bytes, ClientMessage.body, ClientMessage.size,
    ClientMessage.msgType, ClientMessage.length, List.append_assoc, data]

variable {buffer : Buffer} {message : ClientMessage}

/-- What is written from the buffer is the message. -/
theorem HoldsMessage.written (holds : HoldsMessage buffer message)
    : buffer.toList.take message.size = message.bytes := by
  rw [holds, List.take_left' message.bytes_length]

-----------------------------------------------------------------------------------------
-- Reading a reply over the request
-----------------------------------------------------------------------------------------

/-- A read returns no more than was asked for. -/
theorem ReadOutcome.bytes_length_le {size : Nat} (read : ReadOutcome size)
    : read.bytes.length ≤ size := by
  cases read with
  | data bytes nonempty fits => exact fits
  | closed | failed => exact Nat.zero_le _

/-- A read puts its bytes over the start of the buffer. -/
theorem toList_received {size : Nat} (buffer : Buffer) (read : ReadOutcome size)
    (small : size ≤ buffSize)
    : (buffer.store 0 read.bytes).toList
      = read.bytes ++ buffer.toList.drop read.bytes.length := by
  have fits := read.bytes_length_le
  rw [Buffer.toList_store _ (by omega)]
  simp [splice]

/-- The header that the client decodes is that of the read bytes, completed by the request. -/
theorem readReply_headerType {size : Nat} (buffer : Buffer) (read : ReadOutcome size)
    (small : size ≤ buffSize)
    : (readReply buffer read).headerType
      = wireType (read.bytes ++ buffer.toList.drop read.bytes.length) := by
  rw [readReply, Buffer.swapHeader_headerType, toList_received buffer read small]

theorem readReply_headerLength {size : Nat} (buffer : Buffer) (read : ReadOutcome size)
    (small : size ≤ buffSize)
    : (readReply buffer read).headerLength
      = wireLength (read.bytes ++ buffer.toList.drop read.bytes.length) := by
  rw [readReply, Buffer.swapHeader_headerLength, toList_received buffer read small]

-----------------------------------------------------------------------------------------
-- What counts as an error
-----------------------------------------------------------------------------------------

/-- The received bytes start with the type `MSG_ERROR`. -/
def StartsWithError (bytes : List UInt8) : Prop := [0, 0, 0, 0] <+: bytes

/-- The last byte of a request's type is not zero. -/
private theorem type_byte (message : ClientMessage)
    : ∃ code, message.bytes[3]? = some code ∧ code ≠ 0 := by
  cases message with
  | hello => exact ⟨1, rfl, by decide⟩
  | list => exact ⟨3, rfl, by decide⟩
  | add => exact ⟨5, rfl, by decide⟩

/-- The type that the client decodes from a reply over a request is `MSG_ERROR` only when the
reply starts with it.
-/
theorem error_over_request {message : ClientMessage} {buffer : Buffer} {size : Nat}
    (holds : HoldsMessage buffer message) (read : ReadOutcome size) (small : size ≤ buffSize)
    : (readReply buffer read).headerType = MsgType.error.code
      ↔ StartsWithError read.bytes := by
  have fits := read.bytes_length_le
  rw [readReply_headerType buffer read small]
  generalize read.bytes = bytes at fits ⊢
  have enough : 4 ≤ (bytes ++ buffer.toList.drop bytes.length).length := by
    rw [List.length_append, List.length_drop, List.Vector.toList_length]
    simp only [buffSize] at small ⊢
    omega
  rw [wireType_error_iff enough, StartsWithError, List.prefix_iff_eq_take]
  by_cases long : 4 ≤ bytes.length
  · rw [List.take_append_of_le_length long]
    exact eq_comm
  · -- the fourth byte is still the one of the request
    obtain ⟨code, found, nonzero⟩ := type_byte message
    have place : 3 < message.bytes.length := (List.getElem?_eq_some_iff.mp found).1
    have kept : ((bytes ++ buffer.toList.drop bytes.length).take 4)[3]? = some code := by
      rw [List.getElem?_take_of_lt (by decide), List.getElem?_append_right (by omega),
        List.getElem?_drop, Nat.add_sub_cancel' (by omega), holds,
        List.getElem?_append_left place, found]
    constructor
    · intro zeros
      rw [zeros] at kept
      exact absurd (Option.some.inj kept).symm nonzero
    · intro zeros
      have length := congrArg List.length zeros
      simp only [List.length_cons, List.length_nil, List.length_take] at length
      omega

theorem sendHello_success_iff (read : ReadOutcome buffSize)
    : (sendHello read).status = .success ↔ ¬ StartsWithError read.bytes := by
  rw [← error_over_request helloRequest_holds read (le_refl _), sendHello]
  split_ifs with error <;> simp [error]

theorem sendEmployee_success_iff (employeeStr : List UInt8) (read : ReadOutcome buffSize)
    : (sendEmployee employeeStr read).status = .success ↔ ¬ StartsWithError read.bytes := by
  rw [← error_over_request (addRequest_holds employeeStr) read (le_refl _), sendEmployee]
  split_ifs with error <;> simp [error]

end LowlevelAcademy.Client
