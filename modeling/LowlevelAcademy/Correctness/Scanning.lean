import LowlevelAcademy.Foundations.Scans
import LowlevelAcademy.Server.Traces

/-! String scans over received data: which bytes the server examines when it prints, splits and
converts a message, and when all of them lie in the client's own buffer.
-/

namespace LowlevelAcademy.Correctness

open LowlevelAcademy.Foundations
open LowlevelAcademy.Database
open LowlevelAcademy.Server

/-- The scans of `add_employee` over the memory from the add string on. Each tokenizer call goes
on in the memory that the one before left; the fields are printed and copied once the number
was accepted.
-/
def addScans (memory : List UInt8) : List Scan :=
  strtokScans nul comma memory 0
    ++ match strtok nul comma memory 0 with
      | some ⟨memory, save, some name⟩ =>
          strtokScans nul comma memory save
            ++ match strtok nul comma memory save with
              | some ⟨memory, save, some address⟩ =>
                  strtokScans nul comma memory save
                    ++ match strtok nul comma memory save with
                      | some ⟨memory, _, some hours⟩ =>
                          strtolScans memory hours
                            ++ if atoi (cString nul (memory.drop hours)) = 0 then []
                              else
                                stringScan nul memory name :: stringScan nul memory address
                                  :: stringScan nul memory hours
                                  :: strncpyScan nul 256 memory name
                                  :: strncpyScan nul 256 memory address
                                  :: strtolScans memory hours
                      | _ => []
              | _ => []
      | _ => []

/-- The scans over a message that was received into a client's slot: the buffer is printed, and
the string of an add request is printed and given to `add_employee`.
-/
def receivedScans (world : World) (slot : Slot) : List Scan :=
  stringScan nul (world.message slot ++ world.clients.following slot) 0
    :: if world.request slot = .add then
        (stringScan nul (world.addMemory slot) 0 :: addScans (world.addMemory slot)).map
          (.shift protoHeaderSize)
      else []

/-- The scans over what is read stay inside the client's own buffer. -/
def ScansInside : Guard := fun server env =>
  ∀ slot ∈ server.reading, ∀ chunk ∈ env.read,
    ∀ scan ∈ receivedScans (server.world.receive slot chunk) slot, scan.stop ≤ buffSize

/-- Once a message was read there is a terminator in the buffer, and for an add request one
behind the header.
-/
def TerminatedReads : Guard := fun server env =>
  ∀ slot ∈ server.reading, ∀ chunk ∈ env.read,
    nul ∈ (server.world.receive slot chunk).message slot
    ∧ ((server.world.receive slot chunk).request slot = .add
      → nul ∈ addString ((server.world.receive slot chunk).message slot))

/-- Scans that start in front of a terminator and go on from there. -/
private theorem addScans_stop_le {memory : List UInt8} {last : Nat}
    (ended : memory[last]? = some nul)
    : ∀ scan ∈ addScans memory, scan.stop ≤ last + 1 := by
  have distinct : nul ≠ comma := by decide
  have zero : 0 ≤ last := Nat.zero_le _
  intro scan member
  rw [addScans] at member
  rcases List.mem_append.mp member with first | member
  · exact strtokScans_stop_le distinct ended zero scan first
  split at member
  · next memory1 save1 name call1 =>
    obtain ⟨ended1, before1, named⟩ := strtok_before distinct call1 ended zero
    have nameBefore := named name rfl
    rcases List.mem_append.mp member with second | member
    · exact strtokScans_stop_le distinct ended1 before1 scan second
    split at member
    · next memory2 save2 address call2 =>
      obtain ⟨ended2, before2, addressed⟩ := strtok_before distinct call2 ended1 before1
      have addressBefore := addressed address rfl
      rcases List.mem_append.mp member with third | member
      · exact strtokScans_stop_le distinct ended2 before2 scan third
      split at member
      · next memory3 save3 hours call3 =>
        obtain ⟨ended3, -, timed⟩ := strtok_before distinct call3 ended2 before2
        have hoursBefore := timed hours rfl
        rcases List.mem_append.mp member with number | member
        · exact strtolScans_stop_le ended3 hoursBefore scan number
        split_ifs at member
        · cases member
        · simp only [List.mem_cons] at member
          rcases member with rfl | rfl | rfl | rfl | rfl | again
          · exact stringScan_stop_le ended3 nameBefore
          · exact stringScan_stop_le ended3 addressBefore
          · exact stringScan_stop_le ended3 hoursBefore
          · exact strncpyScan_stop_le ended3 nameBefore
          · exact strncpyScan_stop_le ended3 addressBefore
          · exact strtolScans_stop_le ended3 hoursBefore scan (by simpa using again)
      · cases member
    · cases member
  · cases member

/-- Shifting a scan shifts its end. -/
private theorem shift_stop (offset : Nat) (scan : Scan)
    : (scan.shift offset).stop = offset + scan.stop :=
  Nat.add_assoc _ _ _

/-- The scans over a message stay inside the buffer exactly when the message is terminated. -/
theorem receivedScans_inside_iff (world : World) (slot : Slot)
    : (∀ scan ∈ receivedScans world slot, scan.stop ≤ buffSize)
      ↔ nul ∈ world.message slot
        ∧ (world.request slot = .add → nul ∈ addString (world.message slot)) := by
  have size : (world.message slot).length = buffSize := List.Vector.toList_length _
  have addSize : (addString (world.message slot)).length = buffSize - protoHeaderSize := by
    rw [List.length_drop, size]
  have header : protoHeaderSize + (buffSize - protoHeaderSize) = buffSize := rfl
  have whole : (stringScan nul (world.message slot ++ world.clients.following slot) 0).stop
      ≤ buffSize ↔ nul ∈ world.message slot := by
    rw [← size]
    exact stringScan_inside_iff _ (Nat.zero_le _)
  have data : (stringScan nul (world.addMemory slot) 0).stop ≤ buffSize - protoHeaderSize
      ↔ nul ∈ addString (world.message slot) := by
    rw [← addSize]
    exact stringScan_inside_iff _ (Nat.zero_le _)
  constructor
  · intro inside
    refine ⟨whole.mp (inside _ (by simp [receivedScans])), fun asked => data.mp ?_⟩
    have shifted := inside ((stringScan nul (world.addMemory slot) 0).shift protoHeaderSize)
      (by simp [receivedScans, asked])
    rw [shift_stop] at shifted
    omega
  · rintro ⟨ended, addEnded⟩ scan member
    rw [receivedScans] at member
    rcases List.mem_cons.mp member with rfl | member
    · exact whole.mpr ended
    split_ifs at member with asked
    · obtain ⟨inner, found, rfl⟩ := List.mem_map.mp member
      obtain ⟨last, place⟩ := List.mem_iff_getElem?.mp (addEnded asked)
      have before : last < (addString (world.message slot)).length :=
        (List.getElem?_eq_some_iff.mp place).1
      have inMemory : (world.addMemory slot)[last]? = some nul := by
        rw [World.addMemory, List.getElem?_append_left before, place]
      have bounded : inner.stop ≤ last + 1 := by
        rcases List.mem_cons.mp found with rfl | later
        · exact stringScan_stop_le inMemory (Nat.zero_le _)
        · exact addScans_stop_le inMemory inner later
      rw [shift_stop]
      omega
    · cases member

/-- The scans of a step stay inside exactly when what it reads is terminated. -/
theorem scansInside_iff (server : State) (env : Env)
    : ScansInside server env ↔ TerminatedReads server env := by
  simp only [ScansInside, TerminatedReads, receivedScans_inside_iff]

/-- What a run tries: its steps, and one more that may have no result. -/
def attempts (steps : List StepRecord) (server : State) (env : Env) : List (State × Env) :=
  steps.map (fun step => (step.before, step.env)) ++ [(server, env)]

/-- A step with terminated reads changes at most the slot that it reads from. -/
theorem slots_kept_of_terminated {dbfd : Nat} {env : Env} {server next : State}
    {actions : List Action} (result : pollLoopStep env dbfd server = .ok (next, actions))
    (terminated : TerminatedReads server env) {slot other : Slot}
    (reading : server.reading = some slot) (differs : other ≠ slot)
    : next.world.clients other = server.world.clients other := by
  rcases pollLoopStep_event result with ⟨none, -⟩ | ⟨slot', reading', event⟩
  · rw [reading] at none
    cases none
  obtain rfl := Option.some.inj (reading.symm.trans reading')
  rcases event with ⟨-, same, -⟩ | ⟨chunk, later, received, handled, -⟩
  · rw [same, World.disconnect]
    exact Function.update_of_ne differs _ _
  · obtain ⟨-, addEnded⟩ := terminated slot reading chunk received
    obtain ⟨state, buffer, same, -⟩ :=
      (handleClientFsm_handled handled).clients fun asked => Or.inl (addEnded asked)
    rw [same]
    simp [World.setClient, World.receive, Function.update_of_ne differs]

/-- In a run of the server, every scan over received data stays inside the buffer of the client
it was read from, also in a last step without a result, exactly when every read leaves a
terminator in the buffer and an add request has one behind its header. Then no step changes
another client's slot than the one it reads from.
-/
theorem scans_stay_inside_iff {dbfd : Nat} {guard : Guard} {db : Db} {file : OpenFile UInt8}
    {listenFd : Int32} {steps : List StepRecord} {server : State}
    (run : RecordedRun dbfd guard (startServer db file listenFd) steps server) (env : Env)
    : ((∀ attempt ∈ attempts steps server env, ScansInside attempt.1 attempt.2)
        ↔ ∀ attempt ∈ attempts steps server env, TerminatedReads attempt.1 attempt.2)
      ∧ ((∀ attempt ∈ attempts steps server env, TerminatedReads attempt.1 attempt.2)
        → ∀ step ∈ steps, ∀ slot other,
            step.before.reading = some slot
            → other ≠ slot
            → step.after.world.clients other = step.before.world.clients other) := by
  constructor
  · simp only [scansInside_iff]
  · intro terminated step taken slot other reading differs
    obtain ⟨-, -, result⟩ := RecordedRun.step run taken
    have tried : (step.before, step.env) ∈ attempts steps server env :=
      List.mem_append_left _ (List.mem_map_of_mem taken)
    exact slots_kept_of_terminated result (terminated _ tried) reading differs

/-- A message of 4096 bytes: the header of an add request and 4088 letters. -/
def floodBytes : List UInt8 := [0, 0, 0, 5, 0, 1, 0, 0] ++ List.replicate 4088 97

private theorem floodBytes_length : floodBytes.length = buffSize := by
  rw [floodBytes, List.length_append, List.length_replicate]
  rfl

def flood : Chunk := ⟨floodBytes, List.cons_ne_nil _ _, floodBytes_length.le⟩

/-- A client that has greeted sends that message: the add string has no end in its buffer. -/
theorem scans_run_on
    : ∃ steps server,
        RecordedRun 3 Orderly (startServer ⟨headerOf 0, some []⟩ (.opened []) 4) steps server
        ∧ server.reading = some 0
        ∧ ¬ ScansInside server (clientEnv (some flood) none) := by
  obtain ⟨history, server, run, reading, state, -, -⟩ :=
    first_client_reads 3 ⟨headerOf 0, some []⟩ (.opened []) 4
  obtain ⟨steps, -, recorded⟩ := recordedRun_of_run run
  refine ⟨steps, server, recorded, reading, fun inside => ?_⟩
  have message : (server.world.receive 0 flood).message 0 = floodBytes := by
    rw [World.receive_message, List.drop_eq_nil_of_le, List.append_nil]
    · rfl
    · rw [List.Vector.toList_length]
      exact floodBytes_length.ge
  have asked : (server.world.receive 0 flood).request 0 = .add := by
    rw [World.request, message, World.receive_state, state]
    rfl
  have ended := ((scansInside_iff server _).mp inside 0 reading flood rfl).2 asked
  rw [message] at ended
  have letters : addString floodBytes = List.replicate 4088 97 := rfl
  rw [letters] at ended
  exact absurd (List.eq_of_mem_replicate ended) (by decide)

/-- A step handles terminated messages only, of clients that have not greeted. -/
private theorem terminatedReads_of_handled {dbfd : Nat} {env : Env} {server next : State}
    {actions : List Action} (result : pollLoopStep env dbfd server = .ok (next, actions))
    (handles
      : ∀ slot state buffer,
          .handled slot state buffer ∈ actions → state = .hello ∧ nul ∈ buffer.toList)
    : TerminatedReads server env := by
  intro slot reading chunk received
  obtain ⟨later, -, same⟩ := pollLoopStep_message result reading received
  obtain ⟨greets, terminated⟩ := handles slot _ _ (by rw [same]; exact List.mem_cons_self)
  refine ⟨terminated, fun asked => ?_⟩
  have greeted := ((server.world.receive slot chunk).request_asked slot asked).1
  rw [World.receive_state, greets] at greeted
  cases greeted

/-- A first client can connect and greet, and be read from again. -/
private theorem greeted_run (dbfd : Nat) (db : Db) (file : OpenFile UInt8) (listenFd : Int32)
    : ∃ steps server,
        RecordedRun dbfd Orderly (startServer db file listenFd) steps server
        ∧ server.reading = some 0
        ∧ (server.world.clients 0).state = .msg
        ∧ ∀ step ∈ steps, TerminatedReads step.before step.env := by
  let world : World := ⟨initClients, db, file⟩
  let padding : Bytes 2 := clearedBuffer.take 2
  have consistent := startServer_consistent db file listenFd
  have free : findFreeSlot world.clients = some 0 :=
    findFreeSlot_first rfl fun other below => absurd below (Fin.not_lt_zero other)
  obtain ⟨_, first, connects, accepted⟩ :=
    consistent.connect_run dbfd rfl free (show (5 : Int32) ≠ -1 by decide) fun other =>
      show (-1 : Int32) ≠ 5 by decide
  obtain ⟨buffer, _, _, second, greets, greeted⟩ :=
    (consistent.run_orderly connects).greet_run dbfd rfl
      (show ((world.connect 0 5).clients 0).fd ≠ -1 by simp [World.connect])
      (show ((world.connect 0 5).clients 0).state = .hello by simp [World.connect]) padding
  have whole := connects.append greets
  obtain ⟨polled, third, i, inside, reaches, silent, below, ready, found⟩ :=
    (consistent.run_orderly whole).reach_run dbfd rfl
      (show (((world.connect 0 5).setClient 0 .msg buffer).clients 0).fd ≠ -1 by
        simp [World.setClient, World.connect])
  obtain ⟨steps, labels, run⟩ := recordedRun_of_run (whole.append reaches)
  let server : State := ⟨(world.connect 0 5).setClient 0 .msg buffer, polled, 2, .scan i 1⟩
  have reading : server.reading = some 0 :=
    (State.reading_of_scan server rfl inside ⟨below, Nat.one_pos⟩ ready).trans found
  refine ⟨steps, server, run, reading, by rw [World.setClient_self], fun step taken => ?_⟩
  refine terminatedReads_of_handled (run.step taken).2.2 fun slot state received handled => ?_
  have member : Action.handled slot state received ∈ (steps.map (·.actions)).flatten :=
    List.mem_flatten.mpr ⟨_, List.mem_map_of_mem taken, handled⟩
  rw [labels, List.flatten_append, List.flatten_append, accepted, greeted, silent] at member
  simp only [List.cons_append, List.nil_append, List.append_nil, List.mem_cons, reduceCtorEq,
    Action.handled.injEq, List.not_mem_nil, or_false, false_or] at member
  obtain ⟨rfl, rfl, rfl⟩ := member
  refine ⟨rfl, ?_⟩
  change nul ∈ ((world.connect 0 5).receive 0 (helloChunk padding)).message 0
  rw [World.receive_message]
  exact List.mem_append_left _ (List.mem_append_left _ (by decide))

/-- The add request for the record `a,b,1`. -/
def addAb : ClientMessage := .add (clearedBuffer.take 2) (addData [97, 44, 98, 44, 49])

/-- A first client connects, greets and sends that request: its string is split, converted and
copied inside the client's buffer.
-/
theorem scans_stay_inside_iff_add
    : ∃ steps server,
        RecordedRun 3 Orderly (startServer ⟨headerOf 0, some []⟩ (.opened []) 4) steps server
        ∧ server.reading = some 0
        ∧ (server.world.receive 0 addAb.chunk).request 0 = .add
        ∧ ∀ attempt ∈ attempts steps server (clientEnv (some addAb.chunk) none),
            ScansInside attempt.1 attempt.2 := by
  obtain ⟨steps, server, run, reading, state, earlier⟩ :=
    greeted_run 3 ⟨headerOf 0, some []⟩ (.opened []) 4
  obtain ⟨terminated, -⟩ := cString_addData (show nul ∉ [97, 44, 98, 44, 49] by decide) (by decide)
  obtain ⟨asked, rest, own⟩ := World.receive_add state (clearedBuffer.take 2) terminated
  refine ⟨steps, server, run, reading, asked, ?_⟩
  rw [(scans_stay_inside_iff run _).1]
  intro attempt tried
  rcases List.mem_append.mp tried with old | new
  · obtain ⟨step, taken, rfl⟩ := List.mem_map.mp old
    exact earlier step taken
  · obtain rfl := List.mem_singleton.mp new
    intro slot read chunk received
    obtain rfl := Option.some.inj (reading.symm.trans read)
    obtain rfl : addAb.chunk = chunk := Option.some.inj received
    have ended : nul ∈ addString ((server.world.receive 0 addAb.chunk).message 0) := by
      rw [addAb, own]
      exact List.mem_append_right _ List.mem_cons_self
    exact ⟨List.mem_of_mem_drop ended, fun _ => ended⟩

end LowlevelAcademy.Correctness
