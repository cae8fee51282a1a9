import LowlevelAcademy.Client.Messages

/-! How `list_employees` decodes the records of a reply: what is behind the header after each
read, and the line that is printed for it.
-/

namespace LowlevelAcademy.Client

open LowlevelAcademy.Foundations
open LowlevelAcademy.Database
open LowlevelAcademy.Server

/-- The fields of a record as the server copies them into a list reply. -/
abbrev copiedName (employee : Employee) : List UInt8 :=
  (strncpy nul 256 employee.name.toList).toList

abbrev copiedAddress (employee : Employee) : List UInt8 :=
  (strncpy nul 256 employee.address.toList).toList

/-- The line that is printed for a record of a list reply. A name that fills its field runs
on into the address, and an address into the hours, which are in host order by then.
-/
def printedLine (employee : Employee) : Line :=
  let behind := leBytes 4 employee.hours.toNat ++ [nul]
  .employee (cString nul (copiedName employee ++ (copiedAddress employee ++ behind)))
    (cString nul (copiedAddress employee ++ behind)) employee.hours

/-- The line that shows the fields of a record. -/
def recordLine (employee : Employee) : Line :=
  .employee (cString nul employee.name.toList) (cString nul employee.address.toList)
    employee.hours

/-- Name and address end inside their fields. -/
structure TerminatedFields (employee : Employee) : Prop where
  name : nul ∈ employee.name.toList
  address : nul ∈ employee.address.toList

/-- Everything behind the place of a record is zero. -/
def ZeroBehind (buffer : Buffer) : Prop :=
  buffer.toList.drop (protoHeaderSize + employeeSize)
    = List.replicate (buffSize - (protoHeaderSize + employeeSize)) nul

/-- A copy of a terminated field is terminated. -/
theorem nul_mem_copied {field : Bytes 256} (terminated : nul ∈ field.toList)
    : nul ∈ (strncpy nul 256 field.toList).toList := by
  have short := cString_length_lt terminated
  rw [List.Vector.toList_length] at short
  exact nul_mem_strncpy short

/-- For a record with terminated fields the line shows them. -/
theorem printedLine_of_terminated {employee : Employee}
    (terminated : TerminatedFields employee)
    : printedLine employee = recordLine employee := by
  simp only [printedLine, recordLine, copiedName, copiedAddress,
    cString_append_of_mem (nul_mem_copied terminated.name),
    cString_append_of_mem (nul_mem_copied terminated.address), cString_copied]

-----------------------------------------------------------------------------------------
-- One turn of the loop
-----------------------------------------------------------------------------------------

variable (buffer : Buffer) (read : ReadOutcome employeeSize)

/-- The buffer after a record was read, before its hours are converted. -/
abbrev storedEntry : List UInt8 := splice protoHeaderSize read.bytes buffer.toList

private theorem toList_storedEntry
    : (buffer.store protoHeaderSize read.bytes).toList = storedEntry buffer read := by
  have fits := read.bytes_length_le
  refine Buffer.toList_store buffer ?_
  simp only [employeeSize] at fits
  simp only [protoHeaderSize, buffSize]
  omega

/-- The conversion of the hours leaves what is before and behind them. -/
theorem toList_readEntry
    : (readEntry buffer read).toList
      = (storedEntry buffer read).take (protoHeaderSize + 512)
        ++ (leBytes 4
            (ntohl (load32 ((storedEntry buffer read).drop (protoHeaderSize + 512)))).toNat
          ++ (storedEntry buffer read).drop (protoHeaderSize + employeeSize)) := by
  rw [readEntry, setEntryHours, Buffer.toList_store _ (by rw [leBytes_length]; decide), splice,
    toList_storedEntry, entryHours, toList_storedEntry, leBytes_length, List.append_assoc]
  rfl

theorem storedEntry_length : (storedEntry buffer read).length = buffSize := by
  rw [← toList_storedEntry, List.Vector.toList_length]

/-- The hours that are printed are those read, or what was there before them. -/
theorem entryHours_readEntry
    : entryHours (readEntry buffer read)
      = ntohl (load32 ((storedEntry buffer read).drop (protoHeaderSize + 512))) := by
  have front : ((storedEntry buffer read).take (protoHeaderSize + 512)).length
      = protoHeaderSize + 512 := by
    rw [List.length_take, storedEntry_length]
    decide
  rw [entryHours, toList_readEntry, List.drop_left' front, load32_leBytes_append]

/-- What is behind the header once a whole record was read. -/
theorem drop_readEntry {employee : Employee} (whole : read.bytes = listEntry employee)
    : (readEntry buffer read).toList.drop protoHeaderSize
      = copiedName employee
        ++ (copiedAddress employee
          ++ (leBytes 4 employee.hours.toNat
            ++ buffer.toList.drop (protoHeaderSize + employeeSize))) := by
  let header := buffer.toList.take protoHeaderSize
  let rest := buffer.toList.drop (protoHeaderSize + employeeSize)
  have headerSize : header.length = protoHeaderSize := by
    simp [header, buffSize, protoHeaderSize]
  have nameSize : (copiedName employee).length = 256 := List.Vector.toList_length _
  have addressSize : (copiedAddress employee).length = 256 := List.Vector.toList_length _
  have stored : storedEntry buffer read
      = header ++ copiedName employee ++ copiedAddress employee
        ++ (beBytes 4 employee.hours.toNat ++ rest) := by
    simp only [storedEntry, splice, whole, listEntry_length, header, rest, List.append_assoc]
    rw [listEntry]
    simp only [List.append_assoc]
  have front : (header ++ copiedName employee ++ copiedAddress employee).length
      = protoHeaderSize + 512 := by
    rw [List.length_append, List.length_append, headerSize, nameSize, addressSize]
  have behind : (storedEntry buffer read).drop (protoHeaderSize + employeeSize) = rest := by
    rw [stored, ← List.append_assoc]
    refine List.drop_left' ?_
    rw [List.length_append, front, beBytes_length, Nat.add_assoc]
  have hours : ntohl (load32 ((storedEntry buffer read).drop (protoHeaderSize + 512)))
      = employee.hours := by
    rw [stored, List.drop_left' front, ← leBytes_swap32, load32_leBytes_append]
    exact swap32_swap32 _
  rw [toList_readEntry, behind, hours, stored, List.take_left' front, List.append_assoc,
    List.append_assoc, List.drop_left' headerSize]

variable {buffer read}

/-- Nothing is read behind the place of a record. -/
theorem ZeroBehind.readEntry (zeros : ZeroBehind buffer) (read : ReadOutcome employeeSize)
    : ZeroBehind (readEntry buffer read) := by
  have fits := read.bytes_length_le
  have kept : (storedEntry buffer read).drop (protoHeaderSize + employeeSize)
      = buffer.toList.drop (protoHeaderSize + employeeSize) :=
    drop_splice (by rw [List.Vector.toList_length]; decide) (by omega)
  have front : ((storedEntry buffer read).take (protoHeaderSize + 512)
      ++ leBytes 4
        (ntohl (load32 ((storedEntry buffer read).drop (protoHeaderSize + 512)))).toNat).length
      = protoHeaderSize + employeeSize := by
    rw [List.length_append, List.length_take, storedEntry_length, leBytes_length]
    decide
  rw [ZeroBehind, toList_readEntry, ← List.append_assoc, List.drop_left' front, kept]
  exact zeros

/-- A whole record in a buffer with zeros behind it is printed as its line. -/
theorem entryLine_readEntry (zeros : ZeroBehind buffer) {employee : Employee}
    (whole : read.bytes = listEntry employee)
    : entryLine (readEntry buffer read) = printedLine employee := by
  have nameSize : (copiedName employee).length = 256 := List.Vector.toList_length _
  have addressSize : (copiedAddress employee).length = 256 := List.Vector.toList_length _
  have ended : buffer.toList.drop (protoHeaderSize + employeeSize)
      = [nul] ++ List.replicate 3571 nul := zeros
  have behind := drop_readEntry buffer read whole
  have address : (readEntry buffer read).toList.drop (protoHeaderSize + 256)
      = copiedAddress employee ++ (leBytes 4 employee.hours.toNat ++ [nul])
        ++ List.replicate 3571 nul := by
    rw [← List.drop_drop (i := 256) (j := protoHeaderSize), behind, List.drop_left' nameSize,
      ended]
    simp only [List.append_assoc]
  have name : (readEntry buffer read).toList.drop protoHeaderSize
      = copiedName employee
        ++ (copiedAddress employee ++ (leBytes 4 employee.hours.toNat ++ [nul]))
        ++ List.replicate 3571 nul := by
    rw [behind, ended]
    simp only [List.append_assoc]
  have hours : entryHours (readEntry buffer read) = employee.hours := by
    have front : (copiedName employee ++ copiedAddress employee).length = 512 := by
      rw [List.length_append, nameSize, addressSize]
    rw [entryHours, ← List.drop_drop (i := 512) (j := protoHeaderSize), behind,
      ← List.append_assoc, List.drop_left' front, load32_leBytes_append]
  have terminated : nul ∈ copiedAddress employee ++ (leBytes 4 employee.hours.toNat ++ [nul]) :=
    List.mem_append_right _ (List.mem_append_right _ (List.mem_singleton_self nul))
  have addressText := cString_append_of_mem terminated (List.replicate 3571 nul)
  have nameText := cString_append_of_mem
    (List.mem_append_right (copiedName employee) terminated) (List.replicate 3571 nul)
  rw [entryLine, name, address, hours, nameText, addressText]
  rfl

/-- When every read delivers a whole record, the loop prints the line of each, in order, by
induction on them.
-/
theorem readEntries_whole {reads : Nat → ReadOutcome employeeSize} {i : Nat}
    {employees : List Employee} (zeros : ZeroBehind buffer)
    (whole : ∀ k (inside : k < employees.length), (reads (i + k)).bytes = listEntry employees[k])
    : readEntries reads i employees.length buffer = employees.map printedLine := by
  induction employees generalizing i buffer with
  | nil => rfl
  | cons employee later ih =>
      have first : (reads i).bytes = listEntry employee := whole 0 (by simp)
      have rest := @ih (readEntry buffer (reads i)) (i + 1) (zeros.readEntry _) fun k inside => by
        have next := whole (k + 1) (by simpa using inside)
        rw [Nat.add_assoc, Nat.add_comm 1]
        exact next
      simp only [List.length_cons, readEntries, List.map_cons, entryLine_readEntry zeros first,
        rest]

/-- A reply's header leaves zeros behind it. -/
theorem drop_readReply (read : ReadOutcome protoHeaderSize)
    : (readReply listRequest read).toList.drop protoHeaderSize
      = List.replicate (buffSize - protoHeaderSize) nul := by
  have fits := read.bytes_length_le
  have request : listRequest.toList.drop protoHeaderSize
      = List.replicate (buffSize - protoHeaderSize) nul := by
    rw [listRequest_holds]
    exact List.drop_left' listMessage.bytes_length
  rw [readReply, Buffer.swapHeader_drop _ (by decide), toList_received _ read (by decide),
    List.drop_append, List.drop_drop, List.drop_eq_nil_of_le fits, List.nil_append,
    Nat.add_sub_cancel' fits, request]

theorem readReply_zeroBehind (read : ReadOutcome protoHeaderSize)
    : ZeroBehind (readReply listRequest read) := by
  rw [ZeroBehind, ← List.drop_drop (i := employeeSize) (j := protoHeaderSize), drop_readReply,
    List.drop_replicate, Nat.sub_sub]

end LowlevelAcademy.Client
