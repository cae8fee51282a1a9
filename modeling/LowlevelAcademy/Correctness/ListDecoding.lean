import LowlevelAcademy.Client.Listing

/-! Decoding a list reply that arrives in pieces: `list_employees` takes each read for a whole
record, so it is right exactly when the reads follow the records.
-/

namespace LowlevelAcademy.Correctness

open LowlevelAcademy.Foundations
open LowlevelAcademy.Database
open LowlevelAcademy.Server
open LowlevelAcademy.Client

/-- What the server sends for the client's list request while it holds the records. -/
def ListReply (records : List Employee) (stream : List UInt8) : Prop :=
  ∃ (db : Db) (buffer last : Buffer) (sent : List (List UInt8)),
    db.Holds records
    ∧ buffer.toList.take protoHeaderSize = listMessage.bytes
    ∧ fsmReplyList db buffer.swapHeader = .ok (last, sent)
    ∧ stream = sent.flatten

/-- The sizes of the pieces in which a reply arrives: one for the header and one for each
record, none empty and none larger than the read asks for.
-/
structure Cuts where
  header : Nat
  entry : Nat → Nat
  headerBounds : 1 ≤ header ∧ header ≤ protoHeaderSize
  entryBounds : ∀ i, 1 ≤ entry i ∧ entry i ≤ employeeSize

/-- Where the piece of record `i` starts in the reply. -/
def Cuts.start (cuts : Cuts) : Nat → Nat
  | 0 => cuts.header
  | i + 1 => cuts.start i + cuts.entry i

/-- A read of at most `size` bytes from what is there. -/
def readFrom (size : Nat) (available : List UInt8) : ReadOutcome size :=
  if nonempty : available.take size = [] then .closed
  else .data (available.take size) nonempty (List.length_take_le size available)

/-- The read of the header, and the read of record `i`. -/
def Cuts.headerRead (cuts : Cuts) (stream : List UInt8) : ReadOutcome protoHeaderSize :=
  readFrom protoHeaderSize (stream.take cuts.header)

def Cuts.entryRead (cuts : Cuts) (stream : List UInt8) (i : Nat)
    : ReadOutcome employeeSize :=
  readFrom employeeSize (slice (cuts.start i) (cuts.entry i) stream)

/-- What the client prints when the reply is cut so. -/
def decoded (cuts : Cuts) (stream : List UInt8) : List Line :=
  (listEmployees (cuts.headerRead stream) (cuts.entryRead stream)).printed

/-- With these cuts the client prints exactly the server's records, for every database of
`count` records with terminated names and addresses.
-/
def DecodesAll (count : Nat) (cuts : Cuts) : Prop :=
  ∀ records stream,
    records.length = count
    → (∀ employee ∈ records, TerminatedFields employee)
    → ListReply records stream
    → decoded cuts stream = records.map recordLine

/-- The reads of the header and of the first `count` records are whole. -/
def Aligned (count : Nat) (cuts : Cuts) : Prop :=
  cuts.header = protoHeaderSize ∧ ∀ i < count, cuts.entry i = employeeSize

/-- The reply as the bytes of its header and of its records. -/
def replyStream (records : List Employee) : List UInt8 :=
  wireHeader MsgType.employeeListResp.code (UInt16.ofNat records.length)
    ++ (noPadding.toList ++ records.flatMap listEntry)

@[simp] theorem readFrom_bytes (size : Nat) (available : List UInt8)
    : (readFrom size available).bytes = available.take size := by
  rw [readFrom]
  split_ifs with nothing
  · exact nothing.symm
  · rfl

/-- The server's reply to the client's request is the same whatever else is in its buffer. -/
theorem listReply_iff (records : List Employee) (stream : List UInt8)
    : ListReply records stream ↔ records.length ≤ 65535 ∧ stream = replyStream records := by
  have padding {buffer : Buffer}
      (received : buffer.toList.take protoHeaderSize = listMessage.bytes)
      : slice 6 2 buffer.toList = noPadding.toList := by
    have whole := buffer.toList.take_append_drop protoHeaderSize
    rw [received] at whole
    rw [← whole, slice_append (by rw [ClientMessage.bytes_length]; decide)]
    rfl
  have reply {db : Db} (holds : db.Holds records) {buffer : Buffer}
      (received : buffer.toList.take protoHeaderSize = listMessage.bytes)
      : ∃ last sent,
          fsmReplyList db buffer.swapHeader = .ok (last, sent)
          ∧ sent.flatten = replyStream records := by
    obtain ⟨last, replied⟩ := fsmReplyList_ok holds buffer.swapHeader
    refine ⟨last, _, replied, ?_⟩
    have count : db.header.count = UInt16.ofNat records.length := by
      rw [← holds.count, UInt16.ofNat_toNat]
    rw [List.flatten_cons, replyBytes_swapHeader, replyBytes, padding received, count,
      replyStream, List.flatMap_def, List.append_assoc]
  constructor
  · rintro ⟨db, buffer, last, sent, holds, received, replied, rfl⟩
    obtain ⟨last', sent', again, flat⟩ := reply holds received
    rw [replied] at again
    obtain ⟨rfl, rfl⟩ := Prod.mk.inj (Except.ok.inj again)
    exact ⟨holds.bound, flat⟩
  · rintro ⟨bound, rfl⟩
    have holds : Db.Holds ⟨headerOf records.length, some records⟩ records :=
      ⟨rfl, headerOf_count bound⟩
    have received : listRequest.toList.take protoHeaderSize = listMessage.bytes :=
      listRequest_holds.written
    obtain ⟨last, sent, replied, flat⟩ := reply holds received
    exact ⟨_, listRequest, last, sent, holds, received, replied, flat.symm⟩

-----------------------------------------------------------------------------------------
-- Reads that follow the records
-----------------------------------------------------------------------------------------

variable {cuts : Cuts} {count : Nat}

/-- The bytes of the records behind the header of a reply. -/
theorem drop_replyStream (records : List Employee)
    : (replyStream records).drop protoHeaderSize = records.flatMap listEntry := by
  rw [replyStream, ← List.append_assoc]
  exact List.drop_left' (by simp)

/-- With aligned cuts the pieces start where the records do. -/
theorem Aligned.start (aligned : Aligned count cuts) {i : Nat} (inside : i ≤ count)
    : cuts.start i = protoHeaderSize + i * employeeSize := by
  induction i with
  | zero => rw [Cuts.start, aligned.1, Nat.zero_mul]
  | succ i ih =>
      rw [Cuts.start, ih (by omega), aligned.2 i (by omega), Nat.succ_mul, Nat.add_assoc]

/-- With aligned cuts each read is one record. -/
theorem Aligned.entryRead {records : List Employee} {i : Nat} (aligned : Aligned i cuts)
    (inside : i < records.length) (whole : cuts.entry i = employeeSize)
    : (cuts.entryRead (replyStream records) i).bytes = listEntry records[i] := by
  have piece := slice_flatMap listEntry_length records i inside
  rw [Cuts.entryRead, readFrom_bytes, aligned.start (le_refl i), whole, slice,
    ← List.drop_drop (i := i * employeeSize) (j := protoHeaderSize), drop_replyStream,
    List.take_take, min_self]
  exact piece

/-- A piece of the reply that has the whole type gets the client into its loop. -/
theorem decoded_of_type (records : List Employee) (type : 4 ≤ cuts.header)
    : decoded cuts (replyStream records)
      = readEntries (cuts.entryRead (replyStream records)) 0
          (readReply listRequest (cuts.headerRead (replyStream records))).headerLength.toNat
          (readReply listRequest (cuts.headerRead (replyStream records))) := by
  let read := cuts.headerRead (replyStream records)
  have bytes : read.bytes = (replyStream records).take cuts.header := by
    simp only [read, Cuts.headerRead, readFrom_bytes, List.take_take,
      min_eq_right cuts.headerBounds.2]
  have enough : 4 ≤ read.bytes.length := by
    rw [bytes, List.length_take, replyStream, List.length_append, wireHeader_length]
    omega
  have decodes : (readReply listRequest read).headerType = MsgType.employeeListResp.code := by
    rw [readReply_headerType _ read (by decide), wireType_append enough,
      ← wireType_append enough ((replyStream records).drop cuts.header), bytes,
      List.take_append_drop, replyStream, wireType_wireHeader]
  have accepted : ¬ (MsgType.employeeListResp.code = MsgType.error.code
      ∨ MsgType.employeeListResp.code ≠ MsgType.employeeListResp.code) := by decide
  simp only [read] at decodes
  rw [decoded, listEmployees]
  simp only [decodes, if_neg accepted]

/-- The header of a reply that is read whole gives the number of records. -/
theorem decoded_of_header {records : List Employee} (whole : cuts.header = protoHeaderSize)
    (bound : records.length ≤ 65535)
    : decoded cuts (replyStream records)
      = readEntries (cuts.entryRead (replyStream records)) 0 records.length
          (readReply listRequest (cuts.headerRead (replyStream records))) := by
  let read := cuts.headerRead (replyStream records)
  have bytes : read.bytes
      = wireHeader MsgType.employeeListResp.code (UInt16.ofNat records.length)
        ++ noPadding.toList := by
    simp only [read, Cuts.headerRead, readFrom_bytes, whole, List.take_take, min_self,
      replyStream]
    rw [← List.append_assoc]
    exact List.take_left' (by simp)
  have length : (readReply listRequest read).headerLength.toNat = records.length := by
    rw [readReply_headerLength _ read (by decide), bytes, List.append_assoc,
      wireLength_wireHeader, UInt16.toNat_ofNat', Nat.mod_eq_of_lt (by omega)]
  simp only [read] at length
  rw [decoded_of_type records (by rw [whole]; decide), length]

/-- Aligned reads decode every database. -/
theorem decodesAll_of_aligned (aligned : Aligned count cuts) : DecodesAll count cuts := by
  rintro records stream rfl terminated reply
  obtain ⟨bound, rfl⟩ := (listReply_iff records stream).mp reply
  have whole (k : Nat) (inside : k < records.length)
      : (cuts.entryRead (replyStream records) (0 + k)).bytes = listEntry records[k] := by
    have before : Aligned k cuts := ⟨aligned.1, fun i below => aligned.2 i (below.trans inside)⟩
    rw [Nat.zero_add]
    exact before.entryRead inside (aligned.2 k inside)
  have lines := readEntries_whole
    (readReply_zeroBehind (cuts.headerRead (replyStream records))) whole
  rw [decoded_of_header aligned.1 bound, lines]
  exact List.map_congr_left fun employee member =>
    printedLine_of_terminated (terminated employee member)

-----------------------------------------------------------------------------------------
-- Reads that do not
-----------------------------------------------------------------------------------------

/-- A record whose hours are 1, with zeros in front of them. -/
def sample : Employee where
  name := strncpy nul 256 [97]
  address := strncpy nul 256 []
  hours := 1

theorem sample_terminated : TerminatedFields sample :=
  ⟨nul_mem_strncpy (by decide), nul_mem_strncpy (by decide)⟩

theorem recordLine_sample : recordLine sample = .employee [97] [] 1 := by
  simp only [recordLine, sample, cString_strncpy]
  rfl

/-- The bytes of the sample from its last address byte on. -/
theorem drop_listEntry_sample : (listEntry sample).drop 511 = [0, 0, 0, 0, 1] := by
  have address : copiedAddress sample = List.replicate 255 nul ++ [nul] := by
    have text : (cString nul (strncpy nul 256 ([] : List UInt8)).toList).take 256 = [] := by
      rw [cString_strncpy]
      rfl
    rw [copiedAddress, sample, strncpy, text, fit_toList_of_le (Nat.zero_le _),
      ← List.replicate_succ']
    rfl
  have entry : listEntry sample
      = copiedName sample ++ List.replicate 255 nul ++ ([nul] ++ beBytes 4 1) := by
    change copiedName sample ++ copiedAddress sample ++ beBytes 4 1 = _
    rw [address, List.append_assoc, List.append_assoc, List.append_assoc]
  have front : (copiedName sample ++ List.replicate 255 nul).length = 511 := by
    rw [List.length_append, List.Vector.toList_length, List.length_replicate]
  rw [entry, List.drop_left' front]
  decide

/-- A line that shows hours 1 was decoded from bytes whose last one is 1. -/
theorem lowByte_of_hours {buffer : Buffer} {read : ReadOutcome employeeSize}
    (shown : entryHours (readEntry buffer read) = 1)
    : (storedEntry buffer read)[523]? = some 1 := by
  have enough : 4 ≤ ((storedEntry buffer read).drop (protoHeaderSize + 512)).length := by
    rw [List.length_drop, storedEntry_length]
    decide
  have stored := leBytes_load32 enough
  have swapped := leBytes_swap32 (load32 ((storedEntry buffer read).drop (protoHeaderSize + 512)))
  rw [entryHours_readEntry] at shown
  have one : swap32 (load32 ((storedEntry buffer read).drop (protoHeaderSize + 512))) = 1 := shown
  rw [one, beBytes, stored] at swapped
  have digits : ((storedEntry buffer read).drop (protoHeaderSize + 512)).take 4
      = [0, 0, 0, 1] := by
    rw [← List.reverse_inj, ← swapped]
    rfl
  have last := congrArg (·[3]?) digits
  simpa using last

/-- The byte 515 places behind the header, after a read: from the read if it is long enough. -/
theorem storedEntry_lowByte (buffer : Buffer) (read : ReadOutcome employeeSize)
    : (storedEntry buffer read)[523]? = some 1
      → read.bytes[515]? = some 1 ∨ buffer.toList[523]? = some 1 := by
  have front : (buffer.toList.take protoHeaderSize).length = protoHeaderSize := by
    rw [List.length_take, List.Vector.toList_length]
    decide
  intro stored
  have index : 523 - protoHeaderSize = 515 := rfl
  rw [storedEntry, splice, List.append_assoc, List.getElem?_append_right (by rw [front]; decide),
    front, index] at stored
  by_cases long : 515 < read.bytes.length
  · rw [List.getElem?_append_left long] at stored
    exact Or.inl stored
  · rw [List.getElem?_append_right (by omega), List.getElem?_drop] at stored
    have place : protoHeaderSize + read.bytes.length + (515 - read.bytes.length) = 523 := by
      simp only [protoHeaderSize]
      omega
    rw [place] at stored
    exact Or.inr stored

/-- The read of record `k` does not end in the last byte of the sample's hours, and whole
samples were read before: then line `k` does not show the sample. By induction on `k`; the
converted hours of each sample leave a zero where a shorter read would need a 1.
-/
theorem line_ne_sample {reads : Nat → ReadOutcome employeeSize} {i k remaining : Nat}
    {buffer : Buffer} (clear : buffer.toList[523]? ≠ some 1)
    (whole : ∀ j < k, (reads (i + j)).bytes = listEntry sample)
    (cut : (reads (i + k)).bytes[515]? ≠ some 1)
    : (readEntries reads i remaining buffer)[k]? ≠ some (recordLine sample) := by
  induction k generalizing i remaining buffer with
  | zero =>
      cases remaining with
      | zero => simp [readEntries]
      | succ remaining =>
          intro shown
          simp only [readEntries, List.getElem?_cons_zero, Option.some.injEq, entryLine,
            recordLine_sample, Line.employee.injEq] at shown
          rcases storedEntry_lowByte _ _ (lowByte_of_hours shown.2.2) with own | old
          · exact cut own
          · exact clear old
  | succ k ih =>
      cases remaining with
      | zero => simp [readEntries]
      | succ remaining =>
          have first : (reads i).bytes = listEntry sample := whole 0 (by omega)
          have behind := drop_readEntry buffer (reads i) first
          have kept : (readEntry buffer (reads i)).toList[523]? ≠ some 1 := by
            have front : (copiedName sample ++ copiedAddress sample).length = 512 := by
              rw [List.length_append, List.Vector.toList_length, List.Vector.toList_length]
            have place := congrArg (·[515]?) behind
            simp only [List.getElem?_drop] at place
            rw [← List.append_assoc, List.getElem?_append_right (by omega), front] at place
            have high : (readEntry buffer (reads i)).toList[523]? = some 0 := place
            rw [high]
            decide
          rw [readEntries, List.getElem?_cons_succ]
          refine ih kept (fun j before => ?_) ?_
          · rw [Nat.add_assoc, Nat.add_comm 1]
            exact whole (j + 1) (by omega)
          · rw [Nat.add_assoc, Nat.add_comm 1]
            exact cut

/-- A header that is cut inside its type leaves the request's own type in the buffer. -/
theorem decoded_of_short (records : List Employee) (short : cuts.header < 4)
    : decoded cuts (replyStream records) = [.unableToRead] := by
  let read := cuts.headerRead (replyStream records)
  have same : read.bytes = listRequest.toList.take cuts.header := by
    have reply : replyStream records
        = [0, 0, 0] ++ (4 :: (beBytes 2 (UInt16.ofNat records.length).toNat
          ++ (noPadding.toList ++ records.flatMap listEntry))) := rfl
    have request : listRequest.toList
        = [0, 0, 0] ++ (3 :: ([0, 0] ++ (noPadding.toList
          ++ List.replicate (buffSize - listMessage.size) nul))) := listRequest_holds
    have inside : cuts.header ≤ ([0, 0, 0] : List UInt8).length := by
      simp only [List.length_cons, List.length_nil]
      omega
    simp only [read, Cuts.headerRead, readFrom_bytes, List.take_take]
    rw [min_eq_right cuts.headerBounds.2, reply, request,
      List.take_append_of_le_length inside, List.take_append_of_le_length inside]
  have size : read.bytes.length = cuts.header := by
    rw [same, List.length_take, List.Vector.toList_length]
    simp only [buffSize]
    omega
  have type : (readReply listRequest read).headerType = MsgType.employeeListReq.code := by
    rw [readReply_headerType _ read (by decide), size, same, List.take_append_drop,
      listRequest_holds]
    exact listMessage.wireType_bytes _
  have refused : MsgType.employeeListReq.code = MsgType.error.code
      ∨ MsgType.employeeListReq.code ≠ MsgType.employeeListResp.code := by decide
  simp only [read] at type
  rw [decoded, listEmployees]
  simp only [type, if_pos refused]

/-- A database of copies of the sample. -/
abbrev samples (count : Nat) : List Employee := List.replicate count sample

/-- When the reads do not follow the records, one of them ends before the sample's hours do;
those before it are whole.
-/
theorem exists_cut (positive : 0 < count) (type : 4 ≤ cuts.header)
    (misaligned : ¬ Aligned count cuts)
    : ∃ k < count,
        (∀ j < k, (cuts.entryRead (replyStream (samples count)) j).bytes = listEntry sample)
        ∧ (cuts.entryRead (replyStream (samples count)) k).bytes[515]? ≠ some 1 := by
  by_cases header : cuts.header = protoHeaderSize
  · have some_short : ∃ i, i < count ∧ cuts.entry i ≠ employeeSize := by
      by_contra all
      simp only [not_exists, not_and, not_not] at all
      exact misaligned ⟨header, all⟩
    classical
    let k := Nat.find some_short
    obtain ⟨inside, short⟩ := Nat.find_spec some_short
    have before (j : Nat) (earlier : j < k) : cuts.entry j = employeeSize := by
      by_contra differs
      exact Nat.find_min some_short earlier ⟨earlier.trans inside, differs⟩
    refine ⟨k, inside, fun j earlier => ?_, ?_⟩
    · have aligned : Aligned j cuts := ⟨header, fun i below => before i (below.trans earlier)⟩
      have place : j < (samples count).length := by
        rw [List.length_replicate]
        exact earlier.trans inside
      have bytes := aligned.entryRead place (before j earlier)
      rwa [List.getElem_replicate] at bytes
    · have bound := (cuts.entryBounds k).2
      have less : cuts.entry k < employeeSize := lt_of_le_of_ne bound short
      rw [Cuts.entryRead, readFrom_bytes, List.getElem?_eq_none]
      · exact Option.some_ne_none _ |>.symm
      · rw [List.length_take, slice_length]
        simp only [employeeSize] at less ⊢
        omega
  · refine ⟨0, positive, fun j below => absurd below (Nat.not_lt_zero j), ?_⟩
    have low : cuts.header < protoHeaderSize :=
      lt_of_le_of_ne cuts.headerBounds.2 header
    obtain ⟨more, rfl⟩ : ∃ more, count = more + 1 := ⟨count - 1, by omega⟩
    -- the read starts before the record, so its last byte is one in front of the hours' last
    have byte : (replyStream (samples (more + 1)))[cuts.header + 515]? = some 0 := by
      have place : cuts.header + 515 = protoHeaderSize + (511 + (cuts.header - 4)) := by
        simp only [protoHeaderSize]
        omega
      have tail : (listEntry sample ++ (samples more).flatMap listEntry).drop 511
          = [0, 0, 0, 0, 1] ++ (samples more).flatMap listEntry := by
        rw [List.drop_append_of_le_length (by rw [listEntry_length]; decide),
          drop_listEntry_sample]
      rw [place, ← List.getElem?_drop, drop_replyStream, samples, List.replicate_succ,
        List.flatMap_cons, ← List.getElem?_drop, tail]
      simp only [protoHeaderSize] at low
      generalize cuts.header = start at type low
      interval_cases start <;> rfl
    rw [Cuts.entryRead, readFrom_bytes, slice, List.getElem?_take, List.getElem?_take,
      List.getElem?_drop, Cuts.start, byte]
    split_ifs <;> simp

/-- Reads that do not follow the records show a database of samples wrongly. -/
theorem samples_misread (positive : 0 < count) (misaligned : ¬ Aligned count cuts)
    : decoded cuts (replyStream (samples count)) ≠ (samples count).map recordLine := by
  have size : (samples count).length = count := List.length_replicate
  intro shown
  have header : 4 ≤ cuts.header := by
    by_contra short
    rw [decoded_of_short _ (by omega)] at shown
    have member : Line.unableToRead ∈ (samples count).map recordLine :=
      shown ▸ List.mem_singleton_self _
    obtain ⟨employee, -, same⟩ := List.mem_map.mp member
    cases same
  obtain ⟨k, inside, whole, cut⟩ := exists_cut positive header misaligned
  let buffer := readReply listRequest (cuts.headerRead (replyStream (samples count)))
  have clear : buffer.toList[523]? ≠ some 1 := by
    have zero := congrArg (·[515]?)
      (drop_readReply (cuts.headerRead (replyStream (samples count))))
    simp only [List.getElem?_drop, List.getElem?_replicate] at zero
    have low : buffer.toList[523]? = some 0 := zero
    rw [low]
    decide
  let reads := cuts.entryRead (replyStream (samples count))
  have before (j : Nat) (earlier : j < k) : (reads (0 + j)).bytes = listEntry sample := by
    rw [Nat.zero_add]
    exact whole j earlier
  have here : (reads (0 + k)).bytes[515]? ≠ some 1 := by
    rw [Nat.zero_add]
    exact cut
  have wrong := @line_ne_sample reads 0 k buffer.headerLength.toNat buffer clear before here
  rw [← decoded_of_type _ header, shown] at wrong
  simp [inside] at wrong

/-- An empty reply is decoded once its type is there: the request's own length is zero too. -/
theorem decoded_empty (type : 4 ≤ cuts.header) : decoded cuts (replyStream []) = [] := by
  let read := cuts.headerRead (replyStream [])
  have reply : replyStream [] = [0, 0, 0, 4, 0, 0, 0, 0] := rfl
  have request : listRequest.toList
      = [0, 0, 0, 3, 0, 0, 0, 0] ++ List.replicate (buffSize - listMessage.size) nul :=
    listRequest_holds
  have bytes : read.bytes = (replyStream []).take cuts.header := by
    simp only [read, Cuts.headerRead, readFrom_bytes, List.take_take,
      min_eq_right cuts.headerBounds.2]
  have zeros : ((read.bytes ++ listRequest.toList.drop read.bytes.length).drop 4).take 2
      = [0, 0] := by
    have most := cuts.headerBounds.2
    rw [bytes, reply, request]
    simp only [protoHeaderSize] at most
    generalize cuts.header = start at type most
    interval_cases start <;> rfl
  have none : (readReply listRequest read).headerLength = 0 := by
    rw [readReply_headerLength _ read (by decide), wireLength, load16, zeros]
    rfl
  rw [decoded_of_type _ type, none]
  rfl

/-- For every number of records and every way to cut the reply, the client prints exactly the
server's records, whatever they are, if and only if the header and each record arrive whole;
without records the type in the header is enough.
-/
theorem list_decoding_iff (bound : count ≤ 65535) (cuts : Cuts)
    : DecodesAll count cuts ↔ Aligned count cuts ∨ (count = 0 ∧ 4 ≤ cuts.header) := by
  have reply : ListReply (samples count) (replyStream (samples count)) :=
    (listReply_iff _ _).mpr ⟨by rwa [List.length_replicate], rfl⟩
  have terminated : ∀ employee ∈ samples count, TerminatedFields employee := by
    intro employee member
    rw [List.eq_of_mem_replicate member]
    exact sample_terminated
  constructor
  · intro decodes
    have shown := decodes _ _ List.length_replicate terminated reply
    by_contra neither
    rw [not_or] at neither
    rcases Nat.eq_zero_or_pos count with rfl | positive
    · have short : cuts.header < 4 := by
        by_contra long
        exact neither.2 ⟨rfl, by omega⟩
      rw [decoded_of_short _ short] at shown
      cases shown
    · exact samples_misread positive neither.1 shown
  · rintro (aligned | ⟨rfl, type⟩)
    · exact decodesAll_of_aligned aligned
    · intro records stream none _ sent
      obtain rfl := List.length_eq_zero_iff.mp none
      obtain ⟨-, rfl⟩ := (listReply_iff [] stream).mp sent
      exact decoded_empty type

/-- A reply of one record whose record arrives in two pieces. -/
def cutInHours : Cuts where
  header := 8
  entry := fun _ => 515
  headerBounds := by decide
  entryBounds := fun _ => by decide

/-- Cutting off the last byte of a record breaks the decoding. -/
theorem list_decoding_cut : ¬ DecodesAll 1 cutInHours := by
  intro decodes
  rcases (list_decoding_iff (by decide) cutInHours).mp decodes with aligned | ⟨impossible, -⟩
  · exact absurd (aligned.2 0 (by decide)) (by decide)
  · cases impossible

/-- The reply of a server with one record arrives as its header, all of the record but its last
byte, and that byte: the client does not print the record.
-/
theorem list_decoding_fails
    : ∃ employee stream,
        TerminatedFields employee
        ∧ ListReply [employee] stream
        ∧ decoded cutInHours stream ≠ [recordLine employee] := by
  have reply : ListReply [sample] (replyStream [sample]) :=
    (listReply_iff _ _).mpr ⟨by decide, rfl⟩
  have misaligned : ¬ Aligned 1 cutInHours :=
    fun aligned => absurd (aligned.2 0 (by decide)) (by decide)
  have wrong := samples_misread (by decide) misaligned
  have one : samples 1 = [sample] := rfl
  rw [one, List.map_singleton] at wrong
  exact ⟨sample, replyStream [sample], sample_terminated, reply, wrong⟩

end LowlevelAcademy.Correctness
