import LowlevelAcademy.Client.Calls

/-! The client's `main` as a process: which calls it makes on its connection, what each of them
writes and reads, and how it goes on from there.
-/

namespace LowlevelAcademy.Client

open LowlevelAcademy.Foundations
open LowlevelAcademy.Database
open LowlevelAcademy.Server

/-- The arguments that decide what `main` asks the server for: `add_arg` and `list_arg`. -/
structure Args where
  addArg : Option (List UInt8)
  listArg : Bool

/-- The calls that `main` makes on its connection. -/
inductive Routine where
  | sendHello
  | sendEmployee (employeeStr : List UInt8)
  | listEmployees
  deriving DecidableEq

/-- What a call writes before it reads. -/
def Routine.request : Routine → List UInt8
  | .sendHello => helloRequest.toList.take helloSize
  | .sendEmployee employeeStr =>
      (addRequest employeeStr).toList.take (protoHeaderSize + 1024)
  | .listEmployees => listRequest.toList.take protoHeaderSize

/-- Where `main` stands: before `connect`, about to make a call, in a call behind its `write`, in
the loop of `list_employees` with the reads so far, before `close`, or behind it.
-/
inductive Phase where
  | starting
  | calling (routine : Routine)
  | waiting (routine : Routine)
  | listing (header : ReadOutcome protoHeaderSize) (entries : List (ReadOutcome employeeSize))
  | leaving
  | closed

/-- `main` behind `send_employee`, whose status it does not look at. -/
def afterAdd (args : Args) : Phase :=
  if args.listArg then .calling .listEmployees else .leaving

/-- `main` behind a call that returned a status. -/
def afterCall (args : Args) : Routine → Status → Phase
  | .sendHello, status =>
      if status ≠ .success then .leaving
      else
        match args.addArg with
        | some employeeStr => .calling (.sendEmployee employeeStr)
        | none => afterAdd args
  | .sendEmployee _, _ => afterAdd args
  | .listEmployees, _ => .leaving

/-- How many records `list_employees` reads behind a header. -/
def announced (header : ReadOutcome protoHeaderSize) : Nat :=
  let buffer := readReply listRequest header
  if buffer.headerType = MsgType.error.code
      ∨ buffer.headerType ≠ MsgType.employeeListResp.code then 0
  else buffer.headerLength.toNat

/-- The reads of records, by their index in the loop. -/
def entryReads (entries : List (ReadOutcome employeeSize)) (i : Nat) : ReadOutcome employeeSize :=
  entries[i]?.getD .closed

/-- The read delivers a message whole. -/
def Delivers {size : Nat} (read : ReadOutcome size) (message : List UInt8) : Prop :=
  ∃ nonempty fits, read = .data message nonempty fits

end LowlevelAcademy.Client
