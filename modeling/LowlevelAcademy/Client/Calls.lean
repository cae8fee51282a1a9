import LowlevelAcademy.Server.Protocol

/-! The calls of the client: `send_hello`, `send_employee` and `list_employees`. Each builds
its request in a cleared buffer and reads the reply over it.
-/

namespace LowlevelAcademy.Client

open LowlevelAcademy.Foundations
open LowlevelAcademy.Database
open LowlevelAcademy.Server

/-- How one `read` of at most `size` bytes from the server ends. -/
inductive ReadOutcome (size : Nat) where
  | data (bytes : List UInt8) (nonempty : bytes ≠ []) (fits : bytes.length ≤ size)
  | closed
  | failed

/-- The bytes that a `read` puts into the buffer; its result is not looked at. -/
def ReadOutcome.bytes {size : Nat} : ReadOutcome size → List UInt8
  | .data bytes _ _ => bytes
  | .closed | .failed => []

/-- What the client prints. -/
inductive Line where
  | protocolMismatch
  | serverConnected (proto : UInt16)
  | improperFormat
  | addedEmployee
  | unableToRead
  | employee (name address : List UInt8) (hours : UInt32)
  deriving DecidableEq

/-- What a call did: the request it wrote, the status it returned, and what it printed. -/
structure Call where
  written : List UInt8
  status : Status
  printed : List Line
  deriving DecidableEq

/-- The buffer of `send_hello` when it writes its request. -/
def helloRequest : Buffer :=
  let buffer := (clearedBuffer.setHeaderType MsgType.helloReq.code).setHeaderLength 1
  let buffer := buffer.setHelloProto protoVersion
  let buffer := buffer.swapHeader
  buffer.setHelloProto (htons buffer.helloProto)

/-- The buffer of `send_employee` when it writes its request. The request has 1024 bytes of
data, the argument's string filled up with zeros; a longer string is cut.
-/
def addRequest (employeeStr : List UInt8) : Buffer :=
  let buffer := (clearedBuffer.setHeaderType MsgType.employeeAddReq.code).setHeaderLength 1
  let buffer := buffer.store protoHeaderSize (strncpy nul 1024 employeeStr).toList
  buffer.swapHeader

/-- The buffer of `list_employees` when it writes its request. -/
def listRequest : Buffer :=
  ((clearedBuffer.setHeaderType MsgType.employeeListReq.code).setHeaderLength 0).swapHeader

/-- The buffer after a reply was read over the request and its header was converted. -/
def readReply {size : Nat} (buffer : Buffer) (read : ReadOutcome size) : Buffer :=
  (buffer.store 0 read.bytes).swapHeader

/-- `send_hello` -/
def sendHello (read : ReadOutcome buffSize) : Call :=
  let written := helloRequest.toList.take helloSize
  let buffer := readReply helloRequest read
  if buffer.headerType = MsgType.error.code then ⟨written, .error, [.protocolMismatch]⟩
  else ⟨written, .success, [.serverConnected (ntohs buffer.helloProto)]⟩

/-- `send_employee` -/
def sendEmployee (employeeStr : List UInt8) (read : ReadOutcome buffSize) : Call :=
  let written := (addRequest employeeStr).toList.take (protoHeaderSize + 1024)
  let buffer := readReply (addRequest employeeStr) read
  if buffer.headerType = MsgType.error.code then ⟨written, .error, [.improperFormat]⟩
  else ⟨written, .success, [.addedEmployee]⟩

/-- `employee->hours` of the record behind the header. -/
def entryHours (buffer : Buffer) : UInt32 :=
  load32 (buffer.toList.drop (protoHeaderSize + 512))

def setEntryHours (buffer : Buffer) (hours : UInt32) : Buffer :=
  buffer.store (protoHeaderSize + 512) (leBytes 4 hours.toNat)

/-- The line for the record behind the header. A name or an address is printed up to the next
terminator, wherever in the buffer it is.
-/
def entryLine (buffer : Buffer) : Line :=
  .employee (cString nul (buffer.toList.drop protoHeaderSize))
    (cString nul (buffer.toList.drop (protoHeaderSize + 256))) (entryHours buffer)

/-- One turn of the loop of `list_employees`: a record is read over the one before, and its
hours are converted in place.
-/
def readEntry (buffer : Buffer) (read : ReadOutcome employeeSize) : Buffer :=
  let buffer := buffer.store protoHeaderSize read.bytes
  setEntryHours buffer (ntohl (entryHours buffer))

/-- The loop of `list_employees` from record `i` on. -/
def readEntries (reads : Nat → ReadOutcome employeeSize) : Nat → Nat → Buffer → List Line
  | _, 0, _ => []
  | i, remaining + 1, buffer =>
      let buffer := readEntry buffer (reads i)
      entryLine buffer :: readEntries reads (i + 1) remaining buffer

/-- `list_employees`; the header of the reply is read on its own, then one record at a time. -/
def listEmployees (read : ReadOutcome protoHeaderSize) (reads : Nat → ReadOutcome employeeSize)
    : Call :=
  let written := listRequest.toList.take protoHeaderSize
  let buffer := readReply listRequest read
  if buffer.headerType = MsgType.error.code
      ∨ buffer.headerType ≠ MsgType.employeeListResp.code then
    ⟨written, .error, [.unableToRead]⟩
  else ⟨written, .success, readEntries reads 0 buffer.headerLength.toNat buffer⟩

end LowlevelAcademy.Client
