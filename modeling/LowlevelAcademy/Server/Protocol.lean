import LowlevelAcademy.Server.Clients

/-! Protocol messages in a client's buffer. The header and the bodies are overlaid on the
buffer; requests are converted to host order in place and replies are built in place.
-/

namespace LowlevelAcademy.Server

open LowlevelAcademy.Foundations
open LowlevelAcademy.Database

/-- `dbproto_type_e` -/
inductive MsgType where
  | error
  | helloReq
  | helloResp
  | employeeListReq
  | employeeListResp
  | employeeAddReq
  | employeeAddResp
  | employeeDelReq
  | employeeDelResp
  deriving DecidableEq

/-- The value of an enumerator of `dbproto_type_e`. -/
def MsgType.code : MsgType → UInt32
  | .error => 0
  | .helloReq => 1
  | .helloResp => 2
  | .employeeListReq => 3
  | .employeeListResp => 4
  | .employeeAddReq => 5
  | .employeeAddResp => 6
  | .employeeDelReq => 7
  | .employeeDelResp => 8

/-- `PROTO_VERSION` -/
def protoVersion : UInt16 := 100

/-- `sizeof(dbproto_header_t)`: the type at 0, the length at 4, and two bytes of padding. The
body of a message lies behind it.
-/
abbrev protoHeaderSize : Nat := 8

/-- `sizeof(dbproto_header_t) + sizeof(dbproto_hello_resp)` -/
abbrev helloSize : Nat := 10

-----------------------------------------------------------------------------------------
-- Overlays on a buffer
-----------------------------------------------------------------------------------------

/-- A buffer with some bytes overwritten. -/
def Buffer.store (buffer : Buffer) (offset : Nat) (bytes : List UInt8) : Buffer :=
  fit buffSize nul (splice offset bytes buffer.toList)

/-- `proto_header->type` -/
def Buffer.headerType (buffer : Buffer) : UInt32 := load32 buffer.toList

/-- `proto_header->length` -/
def Buffer.headerLength (buffer : Buffer) : UInt16 := load16 (buffer.toList.drop 4)

/-- `hello_req->proto` and `hello_res->proto` -/
def Buffer.helloProto (buffer : Buffer) : UInt16 := load16 (buffer.toList.drop 8)

def Buffer.setHeaderType (buffer : Buffer) (type : UInt32) : Buffer :=
  buffer.store 0 (leBytes 4 type.toNat)

def Buffer.setHeaderLength (buffer : Buffer) (length : UInt16) : Buffer :=
  buffer.store 4 (leBytes 2 length.toNat)

def Buffer.setHelloProto (buffer : Buffer) (proto : UInt16) : Buffer :=
  buffer.store 8 (leBytes 2 proto.toNat)

/-- The in-place conversion of type and length, from or to network order. -/
def Buffer.swapHeader (buffer : Buffer) : Buffer :=
  let buffer := buffer.setHeaderType (ntohl buffer.headerType)
  buffer.setHeaderLength (ntohs buffer.headerLength)

/-- Storing inside the buffer overwrites its bytes there. -/
theorem Buffer.toList_store (buffer : Buffer) {offset : Nat} {bytes : List UInt8}
    (inside : offset + bytes.length ≤ buffSize)
    : (buffer.store offset bytes).toList = splice offset bytes buffer.toList := by
  refine fit_toList_of_length ?_
  rw [splice_length (by rw [List.Vector.toList_length]; omega), List.Vector.toList_length]
  omega

@[simp] theorem Buffer.toList_setHeaderType (buffer : Buffer) (type : UInt32)
    : (buffer.setHeaderType type).toList
      = leBytes 4 type.toNat ++ buffer.toList.drop 4 := by
  rw [Buffer.setHeaderType, Buffer.toList_store _ (by simp [buffSize])]
  simp [splice]

@[simp] theorem Buffer.toList_setHeaderLength (buffer : Buffer) (length : UInt16)
    : (buffer.setHeaderLength length).toList
      = buffer.toList.take 4 ++ (leBytes 2 length.toNat ++ buffer.toList.drop 6) := by
  rw [Buffer.setHeaderLength, Buffer.toList_store _ (by simp [buffSize])]
  simp [splice]

@[simp] theorem Buffer.toList_setHelloProto (buffer : Buffer) (proto : UInt16)
    : (buffer.setHelloProto proto).toList
      = buffer.toList.take 8 ++ (leBytes 2 proto.toNat ++ buffer.toList.drop 10) := by
  rw [Buffer.setHelloProto, Buffer.toList_store _ (by simp [buffSize])]
  simp [splice]

/-- The bytes of a header in network order. -/
def wireHeader (type : UInt32) (length : UInt16) : List UInt8 :=
  beBytes 4 type.toNat ++ beBytes 2 length.toNat

@[simp] theorem wireHeader_length (type : UInt32) (length : UInt16)
    : (wireHeader type length).length = 6 := by
  simp [wireHeader]

/-- Conversion puts type and length into network order and keeps the rest. -/
theorem Buffer.toList_swapHeader (buffer : Buffer)
    : buffer.swapHeader.toList
      = wireHeader buffer.headerType buffer.headerLength ++ buffer.toList.drop 6 := by
  have length : (buffer.setHeaderType (ntohl buffer.headerType)).headerLength
      = buffer.headerLength := by
    rw [Buffer.headerLength, Buffer.toList_setHeaderType,
      List.drop_left' (leBytes_length 4 _), Buffer.headerLength]
  have behind : (leBytes 4 (ntohl buffer.headerType).toNat ++ buffer.toList.drop 4).drop 6
      = buffer.toList.drop 6 := by
    rw [List.drop_append, List.drop_eq_nil_of_le (by simp)]
    simp
  rw [Buffer.swapHeader, Buffer.toList_setHeaderLength, length, Buffer.toList_setHeaderType,
    List.take_left' (leBytes_length 4 _), behind, leBytes_swap32, leBytes_swap16, wireHeader,
    List.append_assoc]

-----------------------------------------------------------------------------------------
-- Requests as the server reads them
-----------------------------------------------------------------------------------------

/-- The type, the length and the version that a message's bytes carry in network order. -/
def wireType (bytes : List UInt8) : UInt32 := ntohl (load32 bytes)

def wireLength (bytes : List UInt8) : UInt16 := ntohs (load16 (bytes.drop 4))

def wireProto (bytes : List UInt8) : UInt16 := ntohs (load16 (bytes.drop 8))

/-- After the conversion in place the header reads as the message's type and length. -/
theorem Buffer.swapHeader_headerType (buffer : Buffer)
    : buffer.swapHeader.headerType = wireType buffer.toList := by
  rw [Buffer.headerType, Buffer.toList_swapHeader, wireHeader, List.append_assoc,
    ← leBytes_swap32, load32_leBytes_append]
  rfl

theorem Buffer.swapHeader_headerLength (buffer : Buffer)
    : buffer.swapHeader.headerLength = wireLength buffer.toList := by
  rw [Buffer.headerLength, Buffer.toList_swapHeader, wireHeader, List.append_assoc,
    List.drop_left' (beBytes_length 4 _), ← leBytes_swap16, load16_leBytes_append]
  rfl

/-- The conversion of the header leaves everything behind it alone. -/
theorem Buffer.swapHeader_drop (buffer : Buffer) {bound : Nat} (behind : 6 ≤ bound)
    : buffer.swapHeader.toList.drop bound = buffer.toList.drop bound := by
  rw [Buffer.toList_swapHeader, List.drop_append, List.drop_eq_nil_of_le (by simpa using behind),
    List.nil_append, wireHeader_length, List.drop_drop]
  congr 1
  omega

theorem Buffer.swapHeader_helloProto (buffer : Buffer)
    : ntohs buffer.swapHeader.helloProto = wireProto buffer.toList := by
  rw [Buffer.helloProto, Buffer.swapHeader_drop buffer (by omega)]
  rfl

/-- A word is decoded from the bytes it was received in. -/
theorem load32_append {bytes : List UInt8} (enough : 4 ≤ bytes.length) (rest : List UInt8)
    : load32 (bytes ++ rest) = load32 bytes := by
  rw [load32, List.take_append_of_le_length enough, load32]

theorem load16_append {bytes : List UInt8} (enough : 2 ≤ bytes.length) (rest : List UInt8)
    : load16 (bytes ++ rest) = load16 bytes := by
  rw [load16, List.take_append_of_le_length enough, load16]

theorem wireType_append {bytes : List UInt8} (enough : 4 ≤ bytes.length)
    (rest : List UInt8)
    : wireType (bytes ++ rest) = wireType bytes := by
  rw [wireType, load32_append enough, wireType]

theorem wireLength_append {bytes : List UInt8} (enough : 6 ≤ bytes.length)
    (rest : List UInt8)
    : wireLength (bytes ++ rest) = wireLength bytes := by
  rw [wireLength, List.drop_append_of_le_length (by omega),
    load16_append (by rw [List.length_drop]; omega), wireLength]

theorem wireProto_append {bytes : List UInt8} (enough : 10 ≤ bytes.length)
    (rest : List UInt8)
    : wireProto (bytes ++ rest) = wireProto bytes := by
  rw [wireProto, List.drop_append_of_le_length (by omega),
    load16_append (by rw [List.length_drop]; omega), wireProto]

/-- The type `MSG_ERROR` is four zero bytes. -/
theorem wireType_error_iff {bytes : List UInt8} (enough : 4 ≤ bytes.length)
    : wireType bytes = MsgType.error.code ↔ bytes.take 4 = [0, 0, 0, 0] := by
  rw [← load32_eq_zero_iff enough, wireType]
  constructor
  · intro swapped
    rw [← swap32_swap32 (load32 bytes)]
    exact congrArg swap32 swapped
  · intro zero
    rw [zero]
    rfl

-----------------------------------------------------------------------------------------
-- Replies
-----------------------------------------------------------------------------------------

/-- The steps that all replies without a body share: the header is set in the buffer and
converted to network order in place; the header's bytes are then written to the client.
-/
def replyHeader (buffer : Buffer) (type : MsgType) (length : UInt16)
    : Buffer × List UInt8 :=
  let buffer := ((buffer.setHeaderType type.code).setHeaderLength length).swapHeader
  (buffer, buffer.toList.take protoHeaderSize)

/-- `fsm_reply_hello_error` -/
def fsmReplyHelloError (buffer : Buffer) : Buffer × List UInt8 := replyHeader buffer .error 0

/-- `fsm_reply_add` -/
def fsmReplyAdd (buffer : Buffer) : Buffer × List UInt8 :=
  replyHeader buffer .employeeAddResp 0

/-- `fsm_reply_add_error` -/
def fsmReplyAddError (buffer : Buffer) : Buffer × List UInt8 := replyHeader buffer .error 0

/-- `fsm_reply_hello` -/
def fsmReplyHello (buffer : Buffer) : Buffer × List UInt8 :=
  let buffer := (buffer.setHeaderType MsgType.helloResp.code).setHeaderLength 1
  let buffer := buffer.setHelloProto protoVersion
  let buffer := buffer.swapHeader
  let buffer := buffer.setHelloProto (htons buffer.helloProto)
  (buffer, buffer.toList.take helloSize)

/-- The loop of `fsm_reply_list` from record `i` on: each record is copied into the same place
behind the header and written to the client from there.
-/
def replyEmployees (employees : Option (List Employee))
    : Nat → Nat → Buffer → Except Halt (Buffer × List (List UInt8))
  | _, 0, buffer => .ok (buffer, [])
  | i, remaining + 1, buffer =>
      match employeeAt employees i with
      | .error halt => .error halt
      | .ok employee =>
          let buffer := buffer.store protoHeaderSize
            (strncpy nul 256 employee.name.toList).toList
          let buffer := buffer.store (protoHeaderSize + 256)
            (strncpy nul 256 employee.address.toList).toList
          let buffer := buffer.store (protoHeaderSize + 512)
            (leBytes 4 (htonl employee.hours).toNat)
          match replyEmployees employees (i + 1) remaining buffer with
          | .error halt => .error halt
          | .ok (last, later) =>
              .ok (last, slice protoHeaderSize employeeSize buffer.toList :: later)

/-- `fsm_reply_list`, with everything it writes to the client, in order. -/
def fsmReplyList (db : Db) (buffer : Buffer) : Except Halt (Buffer × List (List UInt8)) :=
  let buffer := buffer.setHeaderType (htonl MsgType.employeeListResp.code)
  let buffer := buffer.setHeaderLength (htons db.header.count)
  match replyEmployees db.employees 0 db.header.count.toNat buffer with
  | .error halt => .error halt
  | .ok (last, entries) => .ok (last, buffer.toList.take protoHeaderSize :: entries)

/-- The header bytes of a reply: type and length in network order and, as padding, what the
request had there.
-/
def replyBytes (buffer : Buffer) (type : MsgType) (length : UInt16) : List UInt8 :=
  wireHeader type.code length ++ slice 6 2 buffer.toList

/-- A set header is stored in host order, and the rest of the buffer stays. -/
theorem Buffer.toList_setHeader (buffer : Buffer) (type : UInt32) (length : UInt16)
    : ((buffer.setHeaderType type).setHeaderLength length).toList
      = leBytes 4 type.toNat ++ (leBytes 2 length.toNat ++ buffer.toList.drop 6) := by
  rw [Buffer.toList_setHeaderLength, Buffer.toList_setHeaderType,
    List.take_left' (leBytes_length 4 _), List.drop_append,
    List.drop_eq_nil_of_le (by simp), List.nil_append, leBytes_length, List.drop_drop]

/-- Converting a buffer that starts with a set header. -/
theorem Buffer.toList_swapHeader_of_set {buffer : Buffer} {type : UInt32} {length : UInt16}
    {rest : List UInt8}
    (set : buffer.toList = leBytes 4 type.toNat ++ (leBytes 2 length.toNat ++ rest))
    : buffer.swapHeader.toList = wireHeader type length ++ rest := by
  have behind : (leBytes 4 type.toNat ++ (leBytes 2 length.toNat ++ rest)).drop 6 = rest := by
    rw [← List.append_assoc]
    exact List.drop_left' (by simp)
  rw [Buffer.toList_swapHeader, Buffer.headerType, Buffer.headerLength, set, behind,
    load32_leBytes_append, List.drop_left' (leBytes_length 4 _), load16_leBytes_append]

/-- The first eight bytes behind six known ones. -/
private theorem take_header {header rest : List UInt8} (size : header.length = 6)
    : (header ++ rest).take 8 = header ++ rest.take 2 := by
  rw [List.take_append, List.take_of_length_le (by rw [size]; decide), size]

/-- The reply functions without a body send their header. -/
theorem replyHeader_sent (buffer : Buffer) (type : MsgType) (length : UInt16)
    : (replyHeader buffer type length).2 = replyBytes buffer type length := by
  have set := buffer.toList_setHeader type.code length
  simp only [replyHeader, Buffer.toList_swapHeader_of_set set]
  rw [take_header (wireHeader_length _ _)]
  rfl

/-- The answer to an accepted hello. -/
def helloBytes (buffer : Buffer) : List UInt8 :=
  replyBytes buffer .helloResp 1 ++ beBytes 2 protoVersion.toNat

/-- A hello as both programs build it in a buffer: type and length, then the version, then all
three converted to network order in place.
-/
theorem Buffer.toList_hello (buffer : Buffer) (type : MsgType)
    : let set :=
        ((buffer.setHeaderType type.code).setHeaderLength 1).setHelloProto protoVersion
      (set.swapHeader.setHelloProto (htons set.swapHeader.helloProto)).toList
        = wireHeader type.code 1 ++ slice 6 2 buffer.toList ++ beBytes 2 protoVersion.toNat
          ++ buffer.toList.drop 10 := by
  intro set
  have padding : (slice 6 2 buffer.toList).length = 2 := by simp [buffSize]
  have header := buffer.toList_setHeader type.code 1
  have grouped : leBytes 4 type.code.toNat
      ++ (leBytes 2 (1 : UInt16).toNat ++ buffer.toList.drop 6)
      = (leBytes 4 type.code.toNat ++ leBytes 2 (1 : UInt16).toNat)
        ++ buffer.toList.drop 6 :=
    (List.append_assoc _ _ _).symm
  have stored : set.toList
      = leBytes 4 type.code.toNat
        ++ (leBytes 2 (1 : UInt16).toNat
          ++ (slice 6 2 buffer.toList
            ++ (leBytes 2 protoVersion.toNat ++ buffer.toList.drop 10))) := by
    have behind : (leBytes 4 type.code.toNat
        ++ leBytes 2 (1 : UInt16).toNat ++ buffer.toList.drop 6).drop 10
        = buffer.toList.drop 10 := by
      have short : (leBytes 4 type.code.toNat
          ++ leBytes 2 (1 : UInt16).toNat).length ≤ 10 := by
        simp
      rw [List.drop_append, List.drop_eq_nil_of_le short]
      simp
    rw [Buffer.toList_setHelloProto, header, grouped, take_header (by simp), behind]
    simp only [slice, List.append_assoc]
  have swapped := Buffer.toList_swapHeader_of_set stored
  have front : (wireHeader type.code 1 ++ slice 6 2 buffer.toList).length = 8 := by
    simp [padding]
  rw [← List.append_assoc] at swapped
  have proto : set.swapHeader.helloProto = protoVersion := by
    rw [Buffer.helloProto, swapped, List.drop_left' front, load16_leBytes_append]
  have behind : (wireHeader type.code 1 ++ slice 6 2 buffer.toList
      ++ (leBytes 2 protoVersion.toNat ++ buffer.toList.drop 10)).drop 10
      = buffer.toList.drop 10 := by
    rw [← List.append_assoc]
    exact List.drop_left' (by simp [padding])
  rw [Buffer.toList_setHelloProto, proto, swapped, behind, List.take_left' front,
    leBytes_swap16, ← List.append_assoc]

/-- The reply to a hello carries the server's version behind its header. -/
theorem fsmReplyHello_sent (buffer : Buffer)
    : (fsmReplyHello buffer).2 = helloBytes buffer := by
  have built := buffer.toList_hello .helloResp
  have size : (wireHeader MsgType.helloResp.code 1 ++ slice 6 2 buffer.toList
      ++ beBytes 2 protoVersion.toNat).length = helloSize := by
    simp [buffSize]
  simp only [fsmReplyHello, built, List.take_left' size]
  rfl

/-- Setting the header of a list reply in network order at once gives the same bytes. -/
private theorem listHeader_sent (buffer : Buffer) (count : UInt16)
    : (((buffer.setHeaderType (htonl MsgType.employeeListResp.code)).setHeaderLength
        (htons count)).toList).take protoHeaderSize
      = replyBytes buffer .employeeListResp count := by
  rw [Buffer.toList_setHeader, leBytes_swap32, leBytes_swap16, ← List.append_assoc,
    take_header (by simp)]
  rfl

/-- The bytes of a record in a LIST reply. -/
def listEntry (employee : Employee) : List UInt8 :=
  (strncpy nul 256 employee.name.toList).toList
    ++ (strncpy nul 256 employee.address.toList).toList
    ++ beBytes 4 employee.hours.toNat

@[simp] theorem listEntry_length (employee : Employee)
    : (listEntry employee).length = employeeSize := by
  simp [listEntry]

/-- Copying three pieces behind each other into a buffer leaves them there in one piece. -/
private theorem slice_stores (buffer : Buffer) {first second third : List UInt8}
    (size1 : first.length = 256) (size2 : second.length = 256) (size3 : third.length = 4)
    : slice protoHeaderSize employeeSize
        (((buffer.store protoHeaderSize first).store (protoHeaderSize + 256) second).store
          (protoHeaderSize + 512) third).toList
      = first ++ second ++ third := by
  have start : protoHeaderSize ≤ buffer.toList.length := by
    rw [List.Vector.toList_length]
    decide
  rw [Buffer.toList_store _ (by rw [size3]; decide),
    Buffer.toList_store _ (by rw [size2]; decide),
    Buffer.toList_store _ (by rw [size1]; decide)]
  have two := splice_splice first second start
  have three := splice_splice (first ++ second) third start
  rw [List.length_append, size1, size2] at three
  rw [size1] at two
  rw [two, three]
  exact slice_splice_self start (by simp [size1, size2, size3])

/-- Over a block that holds the remaining records the loop sends one entry for each, in order,
by induction on them; `front` are the ones already sent.
-/
theorem replyEmployees_ok (front todo : List Employee) (buffer : Buffer)
    : ∃ last,
        replyEmployees (some (front ++ todo)) front.length todo.length buffer
          = .ok (last, todo.map listEntry) := by
  induction todo generalizing front buffer with
  | nil => exact ⟨buffer, rfl⟩
  | cons employee later ih =>
      have current : employeeAt (some (front ++ employee :: later)) front.length
          = .ok employee := by
        simp [employeeAt]
      have sent := slice_stores buffer (strncpy nul 256 employee.name.toList).toList_length
        (strncpy nul 256 employee.address.toList).toList_length
        (leBytes_length 4 (htonl employee.hours).toNat)
      obtain ⟨last, rest⟩ := ih (front ++ [employee])
        (((buffer.store protoHeaderSize (strncpy nul 256 employee.name.toList).toList).store
          (protoHeaderSize + 256) (strncpy nul 256 employee.address.toList).toList).store
            (protoHeaderSize + 512) (leBytes 4 (htonl employee.hours).toNat))
      simp only [List.append_assoc, List.singleton_append, List.length_append,
        List.length_singleton] at rest
      refine ⟨last, ?_⟩
      simp only [List.length_cons, replyEmployees, current, rest, sent, List.map_cons]
      rw [leBytes_swap32, listEntry]

/-- What the loop sends does not depend on the buffer, since each entry overwrites all that is
sent of it.
-/
theorem replyEmployees_congr (employees : Option (List Employee)) (i remaining : Nat)
    (buffer other : Buffer)
    : (replyEmployees employees i remaining buffer).map Prod.snd
      = (replyEmployees employees i remaining other).map Prod.snd := by
  induction remaining generalizing i buffer other with
  | zero => rfl
  | succ remaining ih =>
      simp only [replyEmployees]
      cases employeeAt employees i with
      | error halt => rfl
      | ok employee =>
          let entry (start : Buffer) : Buffer :=
            ((start.store protoHeaderSize (strncpy nul 256 employee.name.toList).toList).store
              (protoHeaderSize + 256) (strncpy nul 256 employee.address.toList).toList).store
                (protoHeaderSize + 512) (leBytes 4 (htonl employee.hours).toNat)
          have sent (start : Buffer)
              : slice protoHeaderSize employeeSize (entry start).toList = listEntry employee := by
            rw [slice_stores start (strncpy nul 256 employee.name.toList).toList_length
              (strncpy nul 256 employee.address.toList).toList_length
              (leBytes_length 4 (htonl employee.hours).toNat), leBytes_swap32, listEntry]
          have same := ih (i + 1) (entry buffer) (entry other)
          have first := sent buffer
          have second := sent other
          simp only [entry] at same first second ⊢
          split <;> split <;> simp_all [Except.map]

/-- The entries of a list reply, whatever buffer they are built in. -/
def listEntries (db : Db) : Except Halt (List (List UInt8)) :=
  (replyEmployees db.employees 0 db.header.count.toNat clearedBuffer).map Prod.snd

/-- A list reply is its header followed by the entries. -/
theorem fsmReplyList_sent (db : Db) (buffer : Buffer)
    : (fsmReplyList db buffer).map Prod.snd
      = (listEntries db).map fun entries =>
          replyBytes buffer .employeeListResp db.header.count :: entries := by
  have same := replyEmployees_congr db.employees 0 db.header.count.toNat clearedBuffer
    ((buffer.setHeaderType (htonl MsgType.employeeListResp.code)).setHeaderLength
      (htons db.header.count))
  simp only [listEntries, same, fsmReplyList, listHeader_sent]
  cases replyEmployees db.employees 0 db.header.count.toNat _ <;> rfl

/-- A list reply that was sent is a header and the entries. -/
theorem fsmReplyList_cases {db : Db} {buffer last : Buffer} {sent : List (List UInt8)}
    (reply : fsmReplyList db buffer = .ok (last, sent))
    : ∃ entries,
        listEntries db = .ok entries
        ∧ sent = replyBytes buffer .employeeListResp db.header.count :: entries := by
  have whole := fsmReplyList_sent db buffer
  rw [reply] at whole
  cases entries : listEntries db with
  | error halt => rw [entries] at whole; cases whole
  | ok found =>
      rw [entries] at whole
      exact ⟨found, rfl, Except.ok.inj whole⟩

/-- Every entry has the size of a record, by induction on the loop. -/
theorem replyEmployees_length {employees : Option (List Employee)} {i remaining : Nat}
    {buffer last : Buffer} {sent : List (List UInt8)}
    (reply : replyEmployees employees i remaining buffer = .ok (last, sent))
    : ∀ entry ∈ sent, entry.length = employeeSize := by
  induction remaining generalizing i buffer sent with
  | zero =>
      obtain ⟨-, rfl⟩ := Prod.mk.inj (Except.ok.inj reply)
      simp
  | succ remaining ih =>
      simp only [replyEmployees] at reply
      split at reply
      · cases reply
      split at reply
      · cases reply
      next later =>
      obtain ⟨rfl, rfl⟩ := Prod.mk.inj (Except.ok.inj reply)
      intro entry member
      rcases List.mem_cons.mp member with rfl | rest
      · rw [slice_length, List.Vector.toList_length]
        decide
      · exact ih later entry rest

theorem listEntries_length {db : Db} {entries : List (List UInt8)}
    (listed : listEntries db = .ok entries)
    : ∀ entry ∈ entries, entry.length = employeeSize := by
  rw [listEntries] at listed
  cases reply : replyEmployees db.employees 0 db.header.count.toNat clearedBuffer with
  | error halt => rw [reply] at listed; cases listed
  | ok result =>
      rw [reply] at listed
      obtain rfl := Except.ok.inj listed
      exact replyEmployees_length reply

/-- Listing a held database sends its counter and then one entry for each record. -/
theorem fsmReplyList_ok {db : Db} {records : List Employee} (holds : db.Holds records)
    (buffer : Buffer)
    : ∃ last,
        fsmReplyList db buffer
          = .ok (last,
              replyBytes buffer .employeeListResp db.header.count
                :: records.map listEntry) := by
  obtain ⟨last, entries⟩ := replyEmployees_ok [] records
    ((buffer.setHeaderType (htonl MsgType.employeeListResp.code)).setHeaderLength
      (htons db.header.count))
  rw [List.nil_append, List.length_nil] at entries
  refine ⟨last, ?_⟩
  simp only [fsmReplyList, holds.employees, holds.count, entries, listHeader_sent]

end LowlevelAcademy.Server
