import LowlevelAcademy.Correctness.ListDecoding
import LowlevelAcademy.Foundations.Scans

/-! `list_employees` with a server that misbehaves or is lost: its buffer is never left, but what
it prints once the connection is gone are repetitions.
-/

namespace LowlevelAcademy.Correctness

open LowlevelAcademy.Foundations
open LowlevelAcademy.Database
open LowlevelAcademy.Server
open LowlevelAcademy.Client

-----------------------------------------------------------------------------------------
-- Any server
-----------------------------------------------------------------------------------------

/-- The buffer each time a line is printed, from record `i` on. -/
def entryBuffers (reads : Nat → ReadOutcome employeeSize) : Nat → Nat → Buffer → List Buffer
  | _, 0, _ => []
  | i, remaining + 1, buffer =>
      readEntry buffer (reads i)
        :: entryBuffers reads (i + 1) remaining (readEntry buffer (reads i))

/-- What `printf` examines for a line: the name and the address, each up to its terminator. -/
def entryScans (buffer : Buffer) : List Scan :=
  [stringScan nul buffer.toList protoHeaderSize,
    stringScan nul buffer.toList (protoHeaderSize + 256)]

/-- A line is printed for each of these buffers. -/
theorem readEntries_buffers (reads : Nat → ReadOutcome employeeSize) (i remaining : Nat)
    (buffer : Buffer)
    : readEntries reads i remaining buffer
      = (entryBuffers reads i remaining buffer).map entryLine := by
  induction remaining generalizing i buffer with
  | zero => rfl
  | succ remaining ih => rw [readEntries, entryBuffers, List.map_cons, ih]

theorem entryBuffers_length (reads : Nat → ReadOutcome employeeSize) (i remaining : Nat)
    (buffer : Buffer)
    : (entryBuffers reads i remaining buffer).length = remaining := by
  induction remaining generalizing i buffer with
  | zero => rfl
  | succ remaining ih => rw [entryBuffers, List.length_cons, ih]

/-- Whatever is read, the bytes behind the place of a record stay zero. -/
theorem entryBuffers_zeroBehind {reads : Nat → ReadOutcome employeeSize} {i remaining : Nat}
    {buffer : Buffer} (zeros : ZeroBehind buffer)
    : ∀ printed ∈ entryBuffers reads i remaining buffer, ZeroBehind printed := by
  induction remaining generalizing i buffer with
  | zero => simp [entryBuffers]
  | succ remaining ih =>
      intro printed member
      have kept := zeros.readEntry (reads i)
      rcases List.mem_cons.mp member with rfl | later
      · exact kept
      · exact ih kept printed later

/-- A zero behind the place of a record stops the scans. -/
theorem scans_of_zeroBehind {buffer : Buffer} (zeros : ZeroBehind buffer)
    : ∀ scan ∈ entryScans buffer, scan.stop ≤ protoHeaderSize + employeeSize + 1 := by
  have ended : buffer.toList[protoHeaderSize + employeeSize]? = some nul := by
    have first := congrArg (·[0]?) zeros
    simp only [List.getElem?_drop, Nat.add_zero] at first
    rw [first]
    rfl
  intro scan member
  simp only [entryScans, List.mem_cons, List.not_mem_nil, or_false] at member
  rcases member with rfl | rfl
  · exact stringScan_stop_le ended (by decide)
  · exact stringScan_stop_le ended (by decide)

/-- Whatever the server sends, in pieces of whatever size, and whenever it goes away,
`list_employees` either prints that it could not read, or it prints a line for each of as many
records as were announced, and `printf` examines no byte behind the first 525 of the buffer.
-/
theorem list_stays_inside (read : ReadOutcome protoHeaderSize)
    (reads : Nat → ReadOutcome employeeSize)
    : (listEmployees read reads).status = .error
        ∧ (listEmployees read reads).printed = [.unableToRead]
      ∨ (listEmployees read reads).status = .success
        ∧ ∃ buffers : List Buffer,
            buffers.length = (readReply listRequest read).headerLength.toNat
            ∧ (listEmployees read reads).printed = buffers.map entryLine
            ∧ ∀ buffer ∈ buffers, ∀ scan ∈ entryScans buffer, scan.stop ≤ 525 := by
  by_cases refused : (readReply listRequest read).headerType = MsgType.error.code
      ∨ (readReply listRequest read).headerType ≠ MsgType.employeeListResp.code
  · left
    simp only [listEmployees, if_pos refused, and_self]
  · right
    simp only [listEmployees, if_neg refused, true_and]
    refine ⟨_, entryBuffers_length .., readEntries_buffers .., fun buffer member => ?_⟩
    exact scans_of_zeroBehind (entryBuffers_zeroBehind (readReply_zeroBehind read) buffer member)

-----------------------------------------------------------------------------------------
-- A server that goes away
-----------------------------------------------------------------------------------------

/-- What is behind the header once a record was read and its hours converted. -/
def HoldsEntry (buffer : Buffer) (employee : Employee) : Prop :=
  buffer.toList.drop protoHeaderSize
    = copiedName employee
      ++ (copiedAddress employee
        ++ (leBytes 4 employee.hours.toNat
          ++ List.replicate (buffSize - (protoHeaderSize + employeeSize)) nul))

/-- The record that a cleared buffer stands for. -/
def noEmployee : Employee := ⟨fit 256 nul [], fit 256 nul [], 0⟩

/-- A record whose hours were converted once more. -/
def swapHours (employee : Employee) : Employee := { employee with hours := ntohl employee.hours }

variable {buffer : Buffer} {employee : Employee} {read : ReadOutcome employeeSize}

theorem holdsEntry_of_read (zeros : ZeroBehind buffer) (whole : read.bytes = listEntry employee)
    : HoldsEntry (readEntry buffer read) employee := by
  rw [HoldsEntry, drop_readEntry buffer read whole, zeros]

/-- The parts of the buffer from the hours on, and behind them. -/
theorem HoldsEntry.parts (holds : HoldsEntry buffer employee)
    : buffer.toList.drop (protoHeaderSize + 512)
        = leBytes 4 employee.hours.toNat
          ++ List.replicate (buffSize - (protoHeaderSize + employeeSize)) nul
      ∧ buffer.toList.drop (protoHeaderSize + 256)
        = copiedAddress employee
          ++ (leBytes 4 employee.hours.toNat
            ++ List.replicate (buffSize - (protoHeaderSize + employeeSize)) nul)
      ∧ ZeroBehind buffer := by
  have nameSize : (copiedName employee).length = 256 := List.Vector.toList_length _
  have addressSize : (copiedAddress employee).length = 256 := List.Vector.toList_length _
  have address : buffer.toList.drop (protoHeaderSize + 256)
      = copiedAddress employee
        ++ (leBytes 4 employee.hours.toNat
          ++ List.replicate (buffSize - (protoHeaderSize + employeeSize)) nul) := by
    rw [← List.drop_drop (i := 256) (j := protoHeaderSize), holds, List.drop_left' nameSize]
  have hours : buffer.toList.drop (protoHeaderSize + 512)
      = leBytes 4 employee.hours.toNat
        ++ List.replicate (buffSize - (protoHeaderSize + employeeSize)) nul := by
    rw [← List.drop_drop (i := 256) (j := protoHeaderSize + 256), address,
      List.drop_left' addressSize]
  refine ⟨hours, address, ?_⟩
  change buffer.toList.drop (protoHeaderSize + 512 + 4) = _
  rw [← List.drop_drop (i := 4) (j := protoHeaderSize + 512), hours,
    List.drop_left' (leBytes_length 4 _)]

/-- A read that delivers nothing leaves the record in the buffer, and its hours are converted
again.
-/
theorem HoldsEntry.again (holds : HoldsEntry buffer employee) (nothing : read.bytes = [])
    : HoldsEntry (readEntry buffer read) (swapHours employee) := by
  obtain ⟨hours, -, zeros⟩ := holds.parts
  have stored : storedEntry buffer read = buffer.toList := by
    rw [storedEntry, splice, nothing, List.length_nil, Nat.add_zero, List.append_nil,
      List.take_append_drop]
  have fields : (buffer.toList.take (protoHeaderSize + 512)).drop protoHeaderSize
      = copiedName employee ++ copiedAddress employee := by
    rw [List.drop_take, holds, ← List.append_assoc]
    refine List.take_left' ?_
    rw [List.length_append, List.Vector.toList_length, List.Vector.toList_length]
    rfl
  have front : protoHeaderSize ≤ (buffer.toList.take (protoHeaderSize + 512)).length := by
    rw [List.length_take, List.Vector.toList_length]
    decide
  rw [HoldsEntry, toList_readEntry, stored, hours, load32_leBytes_append,
    List.drop_append_of_le_length front, fields, zeros, List.append_assoc]
  rfl

/-- The line for a record in the buffer. -/
theorem HoldsEntry.line (holds : HoldsEntry buffer employee)
    : entryLine buffer = printedLine employee := by
  obtain ⟨hours, address, -⟩ := holds.parts
  have ended : List.replicate (buffSize - (protoHeaderSize + employeeSize)) nul
      = [nul] ++ List.replicate 3571 nul := rfl
  have terminated : nul ∈ copiedAddress employee ++ (leBytes 4 employee.hours.toNat ++ [nul]) :=
    List.mem_append_right _ (List.mem_append_right _ (List.mem_singleton_self nul))
  have addressText := cString_append_of_mem terminated (List.replicate 3571 nul)
  have nameText := cString_append_of_mem
    (List.mem_append_right (copiedName employee) terminated) (List.replicate 3571 nul)
  simp only [List.append_assoc] at addressText nameText
  rw [entryLine, entryHours, hours, load32_leBytes_append, address, holds, ended, addressText,
    nameText]
  rfl

/-- Behind the end of the connection the loop prints the last record again and again. -/
theorem readEntries_lost {reads : Nat → ReadOutcome employeeSize} {i : Nat}
    (lost : ∀ k ≥ i, (reads k).bytes = []) (remaining : Nat) (holds : HoldsEntry buffer employee)
    : readEntries reads i remaining buffer
      = (List.range remaining).map fun j => printedLine (swapHours^[j + 1] employee) := by
  induction remaining generalizing i buffer employee with
  | zero => rfl
  | succ remaining ih =>
      have again := holds.again (lost i (le_refl i))
      have later := ih (fun k above => lost k (Nat.le_of_succ_le above)) again
      rw [readEntries, again.line, later, List.range_succ_eq_map, List.map_cons, List.map_map]
      rfl

/-- The loop over whole records and then the end of the connection. By induction on the records;
the buffer holds the one before them.
-/
theorem readEntries_until {reads : Nat → ReadOutcome employeeSize} {i : Nat}
    {employees : List Employee} (remaining : Nat) (holds : HoldsEntry buffer employee)
    (whole : ∀ k (inside : k < employees.length), (reads (i + k)).bytes = listEntry employees[k])
    (lost : ∀ k ≥ i + employees.length, (reads k).bytes = [])
    : readEntries reads i (employees.length + remaining) buffer
      = employees.map printedLine
        ++ (List.range remaining).map fun j =>
          printedLine (swapHours^[j + 1] (employees.getLast?.getD employee)) := by
  induction employees generalizing i buffer employee with
  | nil =>
      rw [List.length_nil, Nat.zero_add]
      exact readEntries_lost lost remaining holds
  | cons first later ih =>
      have read : (reads i).bytes = listEntry first := whole 0 (Nat.zero_lt_succ _)
      have kept := holdsEntry_of_read holds.parts.2.2 read
      have rest := ih kept (i := i + 1) (fun k inside => by
        have next := whole (k + 1) (Nat.succ_lt_succ inside)
        rwa [List.getElem_cons_succ, Nat.add_comm k, ← Nat.add_assoc] at next) fun k above =>
          lost k (by rw [List.length_cons]; omega)
      rw [List.length_cons, Nat.add_right_comm, readEntries, kept.line, rest, List.map_cons,
        List.cons_append, List.getLast?_cons, Option.getD_some]

/-- The header of a list reply in a cleared buffer. -/
theorem listEmployees_of_header {records : List Employee} {stream : List UInt8}
    {header : ReadOutcome protoHeaderSize} (reply : ListReply records stream)
    (whole : header.bytes = stream.take protoHeaderSize) (reads : Nat → ReadOutcome employeeSize)
    : (listEmployees header reads).status = .success
      ∧ (listEmployees header reads).printed
        = readEntries reads 0 records.length (readReply listRequest header) := by
  obtain ⟨bound, rfl⟩ := (listReply_iff records stream).mp reply
  have bytes : header.bytes
      = wireHeader MsgType.employeeListResp.code (UInt16.ofNat records.length)
        ++ noPadding.toList := by
    rw [whole, replyStream, ← List.append_assoc]
    exact List.take_left' (by simp)
  have type : (readReply listRequest header).headerType = MsgType.employeeListResp.code := by
    rw [readReply_headerType _ header (by decide), bytes, List.append_assoc, wireType_wireHeader]
  have length : (readReply listRequest header).headerLength.toNat = records.length := by
    rw [readReply_headerLength _ header (by decide), bytes, List.append_assoc,
      wireLength_wireHeader, UInt16.toNat_ofNat', Nat.mod_eq_of_lt (by omega)]
  have accepted : ¬ (MsgType.employeeListResp.code = MsgType.error.code
      ∨ MsgType.employeeListResp.code ≠ MsgType.employeeListResp.code) := by decide
  simp only [listEmployees, type, length, if_neg accepted, and_self]

/-- A cleared record behind the header. -/
theorem holdsEntry_readReply (header : ReadOutcome protoHeaderSize)
    : HoldsEntry (readReply listRequest header) noEmployee := by
  have empty : (fit 256 nul ([] : List UInt8)).toList = List.replicate 256 nul := by
    rw [fit_toList_of_le (Nat.zero_le _)]
    rfl
  have copied : (strncpy nul 256 (fit 256 nul ([] : List UInt8)).toList).toList
      = List.replicate 256 nul := by
    have ended : cString nul (List.replicate 256 nul) = [] := rfl
    rw [strncpy, empty, ended, List.take_nil, empty]
  have parts : buffSize - protoHeaderSize
      = 256 + (256 + (4 + (buffSize - (protoHeaderSize + employeeSize)))) := by decide
  rw [HoldsEntry, drop_readReply, copiedName, copiedAddress, noEmployee, copied, parts,
    List.replicate_add, List.replicate_add, List.replicate_add]
  rfl

/-- The record as it is shown the next time, and the time after that. -/
theorem swapHours_twice (employee : Employee) : swapHours (swapHours employee) = employee := by
  rw [swapHours, swapHours]
  simp only [swap32_swap32]

/-- Every second time it is shown as it was. -/
theorem swapHours_iterate (j : Nat) (employee : Employee)
    : swapHours^[j + 1] employee = if j % 2 = 0 then swapHours employee else employee := by
  induction j generalizing employee with
  | zero => rfl
  | succ j ih =>
      rw [Function.iterate_succ_apply, ih]
      rcases Nat.mod_two_eq_zero_or_one j with even | odd
      · rw [if_pos even, if_neg (by omega), swapHours_twice]
      · rw [if_neg (by omega), if_pos (by omega)]

/-- When the server goes away after the first `k` records of a list reply, and these and the
header each arrived whole in one read, `list_employees` still succeeds and prints as many lines
as records were announced. The first `k` are right; all others repeat the last record that
arrived, or one without fields if none did, and their hours are in the wrong and in the right
byte order by turns.
-/
theorem list_repeats_lost {records : List Employee} {stream : List UInt8}
    {header : ReadOutcome protoHeaderSize} {reads : Nat → ReadOutcome employeeSize} {k : Nat}
    (reply : ListReply records stream) (whole : header.bytes = stream.take protoHeaderSize)
    (bound : k ≤ records.length)
    (arrives
      : ∀ i < k, (reads i).bytes = slice (protoHeaderSize + i * employeeSize) employeeSize stream)
    (lost : ∀ i ≥ k, (reads i).bytes = [])
    : (listEmployees header reads).status = .success
      ∧ (listEmployees header reads).printed
        = (records.take k).map printedLine
          ++ (List.range (records.length - k)).map fun j =>
            let last := (records.take k).getLast?.getD noEmployee
            printedLine (if j % 2 = 0 then swapHours last else last) := by
  obtain ⟨success, printed⟩ := listEmployees_of_header reply whole reads
  refine ⟨success, ?_⟩
  obtain ⟨-, rfl⟩ := (listReply_iff records stream).mp reply
  have entries (i : Nat) (inside : i < (records.take k).length)
      : (reads (0 + i)).bytes = listEntry (records.take k)[i] := by
    rw [List.length_take, min_eq_left bound] at inside
    rw [Nat.zero_add, arrives i inside, slice,
      ← List.drop_drop (i := i * employeeSize) (j := protoHeaderSize), drop_replyStream,
      List.getElem_take]
    exact slice_flatMap listEntry_length records i (inside.trans_le bound)
  have lines := readEntries_until (records.length - k) (holdsEntry_readReply header) entries
    fun i above => lost i (by rwa [List.length_take, min_eq_left bound, Nat.zero_add] at above)
  rw [List.length_take, min_eq_left bound, Nat.add_sub_cancel' bound] at lines
  rw [printed, lines]
  congr 1
  refine List.map_congr_left fun j _ => ?_
  rw [swapHours_iterate]

/-- Two records are announced, and the server goes away after the first. -/
theorem list_repeats_lost_second
    : ∃ (header : ReadOutcome protoHeaderSize) (reads : Nat → ReadOutcome employeeSize),
        (listEmployees header reads).status = .success
        ∧ (listEmployees header reads).printed
          = [printedLine sample, printedLine (swapHours sample)] := by
  let stream := replyStream [sample, sample]
  let reads : Nat → ReadOutcome employeeSize := fun i =>
    if i = 0 then readFrom employeeSize (slice protoHeaderSize employeeSize stream) else .closed
  have reply : ListReply [sample, sample] stream := (listReply_iff _ _).mpr ⟨by decide, rfl⟩
  have whole : (readFrom protoHeaderSize stream).bytes = stream.take protoHeaderSize := by simp
  have arrives (i : Nat) (inside : i < 1)
      : (reads i).bytes = slice (protoHeaderSize + i * employeeSize) employeeSize stream := by
    obtain rfl := Nat.lt_one_iff.mp inside
    simp only [reads, if_true, readFrom_bytes, slice, List.take_take, min_self, Nat.zero_mul,
      Nat.add_zero]
  have lost (i : Nat) (above : i ≥ 1) : (reads i).bytes = [] := by
    simp only [reads, if_neg (show ¬ i = 0 by omega)]
    rfl
  obtain ⟨success, printed⟩ := list_repeats_lost reply whole (by decide) arrives lost
  exact ⟨_, reads, success, printed⟩

end LowlevelAcademy.Correctness
