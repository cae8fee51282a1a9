import LowlevelAcademy.Server.Handler

/-! The requests that a client writes, and how the server reads one that is the start of what
it received.
-/

namespace LowlevelAcademy.Server

open LowlevelAcademy.Foundations
open LowlevelAcademy.Database

/-- The messages of the client: a hello with a version, a list request, or an add request with
its 1024 bytes of data. The padding of the header is whatever the client's buffer had there.
-/
inductive ClientMessage where
  | hello (padding : Bytes 2) (proto : UInt16)
  | list (padding : Bytes 2)
  | add (padding : Bytes 2) (data : Bytes 1024)
  deriving DecidableEq

/-- The type and the length in the header of a message. -/
def ClientMessage.msgType : ClientMessage → MsgType
  | .hello _ _ => .helloReq
  | .list _ => .employeeListReq
  | .add _ _ => .employeeAddReq

def ClientMessage.length : ClientMessage → UInt16
  | .hello _ _ | .add _ _ => 1
  | .list _ => 0

/-- What follows type and length: the padding and the body. -/
def ClientMessage.body : ClientMessage → List UInt8
  | .hello padding proto => padding.toList ++ beBytes 2 proto.toNat
  | .list padding => padding.toList
  | .add padding data => padding.toList ++ data.toList

/-- The bytes of a message on the connection. -/
def ClientMessage.bytes (message : ClientMessage) : List UInt8 :=
  wireHeader message.msgType.code message.length ++ message.body

/-- How many bytes a message has. -/
def ClientMessage.size : ClientMessage → Nat
  | .hello _ _ => 10
  | .list _ => 8
  | .add _ _ => 1032

@[simp] theorem ClientMessage.bytes_length (message : ClientMessage)
    : message.bytes.length = message.size := by
  cases message <;> simp [ClientMessage.bytes, ClientMessage.body, ClientMessage.size]

theorem ClientMessage.size_bounds (message : ClientMessage)
    : protoHeaderSize ≤ message.size ∧ message.size ≤ buffSize := by
  cases message <;> simp [ClientMessage.size, buffSize, protoHeaderSize]

/-- A message delivered whole in a read of its own. -/
def ClientMessage.chunk (message : ClientMessage) : Chunk where
  bytes := message.bytes
  nonempty := by
    intro none
    have long := message.size_bounds.1
    rw [← message.bytes_length, none] at long
    simp [protoHeaderSize] at long
  fits := message.bytes_length ▸ message.size_bounds.2

/-- A header decodes to the type and length it was made of. -/
theorem wireType_wireHeader (type : UInt32) (length : UInt16) (rest : List UInt8)
    : wireType (wireHeader type length ++ rest) = type := by
  rw [wireType, wireHeader, List.append_assoc, ← leBytes_swap32, load32_leBytes_append]
  exact swap32_swap32 type

theorem wireLength_wireHeader (type : UInt32) (length : UInt16) (rest : List UInt8)
    : wireLength (wireHeader type length ++ rest) = length := by
  rw [wireLength, wireHeader, List.append_assoc, List.drop_left' (beBytes_length 4 _),
    ← leBytes_swap16, load16_leBytes_append]
  exact swap16_swap16 length

/-- A message at the start of a read decodes to its own type and length. -/
@[simp] theorem ClientMessage.wireType_bytes (message : ClientMessage) (rest : List UInt8)
    : wireType (message.bytes ++ rest) = message.msgType.code := by
  rw [ClientMessage.bytes, List.append_assoc, wireType_wireHeader]

@[simp] theorem ClientMessage.wireLength_bytes (message : ClientMessage) (rest : List UInt8)
    : wireLength (message.bytes ++ rest) = message.length := by
  rw [ClientMessage.bytes, List.append_assoc, wireLength_wireHeader]

theorem wireProto_hello (padding : Bytes 2) (proto : UInt16) (rest : List UInt8)
    : wireProto ((ClientMessage.hello padding proto).bytes ++ rest) = proto := by
  have front (header : List UInt8) (size : header.length = 6)
      : (header ++ (padding.toList ++ beBytes 2 proto.toNat) ++ rest).drop 8
        = beBytes 2 proto.toNat ++ rest := by
    rw [← List.append_assoc, List.append_assoc]
    exact List.drop_left' (by simp [size])
  rw [wireProto, ClientMessage.bytes, ClientMessage.body, front _ (wireHeader_length _ _),
    ← leBytes_swap16, load16_leBytes_append]
  exact swap16_swap16 _

/-- The add string of an add request is its data, and behind it what was in the buffer. -/
theorem addString_add (padding : Bytes 2) (data : Bytes 1024) (rest : List UInt8)
    : addString ((ClientMessage.add padding data).bytes ++ rest) = data.toList ++ rest := by
  have front (header : List UInt8) (size : header.length = 6)
      : (header ++ (padding.toList ++ data.toList) ++ rest).drop protoHeaderSize
        = data.toList ++ rest := by
    rw [← List.append_assoc, List.append_assoc]
    exact List.drop_left' (by simp [size])
  rw [ClientMessage.bytes, ClientMessage.body, addString, front _ (wireHeader_length _ _)]

/-- A hello at the start of a read lets the client in exactly when it has the server's
version; other messages never do.
-/
theorem greets_message (message : ClientMessage) (rest : List UInt8)
    : Greets (message.bytes ++ rest)
      ↔ ∃ padding, message = .hello padding protoVersion := by
  cases message with
  | hello padding proto =>
      simp [Greets, wireProto_hello, ClientMessage.msgType, ClientMessage.length]
  | list | add => simp [Greets, ClientMessage.msgType, MsgType.code]

/-- What the server makes of a read in `STATE_MSG` that starts with a message. -/
theorem requestOf_msg (message : ClientMessage) (rest : List UInt8)
    : requestOf .msg (message.bytes ++ rest)
      = match message with
        | .hello _ _ => .ignored
        | .list _ => .list
        | .add _ _ => .add := by
  cases message <;>
    simp [requestOf, ClientMessage.msgType, ClientMessage.length, MsgType.code]

private theorem header_body_ne_nil (type : UInt32) (length : UInt16) (body : List UInt8)
    : wireHeader type length ++ ([0, 0] ++ body) ≠ [] := by
  simp

private theorem header_body_length {body : List UInt8} (type : UInt32) (length : UInt16)
    (fits : body.length ≤ buffSize - protoHeaderSize)
    : (wireHeader type length ++ ([0, 0] ++ body)).length ≤ buffSize := by
  simp only [List.length_append, wireHeader_length, List.length_cons, List.length_nil]
  simp only [buffSize, protoHeaderSize] at fits ⊢
  omega

/-- A read of any header, with zeros as its padding, and of what is sent behind it. -/
def headed (type : MsgType) (length : UInt16) (body : List UInt8)
    (fits : body.length ≤ buffSize - protoHeaderSize)
    : Chunk where
  bytes := wireHeader type.code length ++ ([0, 0] ++ body)
  nonempty := header_body_ne_nil type.code length body
  fits := header_body_length type.code length fits

variable {type : MsgType} {length : UInt16} {body : List UInt8}
variable {fits : body.length ≤ buffSize - protoHeaderSize}

@[simp] theorem wireType_headed (rest : List UInt8)
    : wireType ((headed type length body fits).bytes ++ rest) = type.code := by
  rw [headed, List.append_assoc, wireType_wireHeader]

@[simp] theorem wireLength_headed (rest : List UInt8)
    : wireLength ((headed type length body fits).bytes ++ rest) = length := by
  rw [headed, List.append_assoc, wireLength_wireHeader]

/-- Behind the header comes what was sent behind it, then what was in the buffer. -/
theorem addString_headed (rest : List UInt8)
    : addString ((headed type length body fits).bytes ++ rest) = body ++ rest := by
  have front : (wireHeader type.code length ++ [0, 0]).length = protoHeaderSize := by simp
  have whole : (headed type length body fits).bytes ++ rest
      = wireHeader type.code length ++ [0, 0] ++ (body ++ rest) := by
    simp [headed]
  rw [addString, whole, List.drop_left' front]

end LowlevelAcademy.Server
