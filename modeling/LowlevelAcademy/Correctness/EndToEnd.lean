import LowlevelAcademy.Network.Progress

/-! Adding and listing from end to end: any number of clients against the server, in any order of
their steps.
-/

namespace LowlevelAcademy.Correctness

open LowlevelAcademy.Foundations
open LowlevelAcademy.Database
open LowlevelAcademy.Server
open LowlevelAcademy.Client
open LowlevelAcademy.Network

variable {ι : Type*} [DecidableEq ι]

/-- The argument of an add that names a record: name and address fit their fields. -/
structure Names (employeeStr name address : List UInt8) (hours : Nat) : Prop where
  made : MadeOf employeeStr name address hours
  name : nul ∉ name ∧ name.length ≤ 255
  address : nul ∉ address ∧ address.length ≤ 255

/-- A list call shows the records of a moment between its request and its return. -/
structure ShowsMoment (args : ι → Args) (dbfd : Nat) (start : System ι) (records : List Employee)
    (client : ι) (listed seen : List (Event ι)) (call : Call)
    : Prop where
  moment : Moment client listed seen
  stored
    : ∃ state,
        SystemRun args dbfd start seen state
        ∧ state.server.world.db.Holds (stored records seen)
  success : call.status = .success
  printed : call.printed = (Network.stored records seen).map printedLine

-----------------------------------------------------------------------------------------
-- The argument and its record
-----------------------------------------------------------------------------------------

variable {employeeStr name address : List UInt8} {hours : Nat}

/-- Such an argument reaches the server as it is. -/
theorem Names.requestText_eq (names : Names employeeStr name address hours)
    : requestText employeeStr = employeeStr := by
  have digits : (decimalText hours).length ≤ 10 :=
    decimalText_length_le (by have := names.made.hours; omega)
  have clean : nul ∉ employeeStr := by
    rw [names.made.text, addText]
    simp only [List.mem_append, List.mem_cons, not_or]
    refine ⟨names.name.1, by decide, names.address.1, by decide, fun member => ?_⟩
    exact absurd (isDigit_of_mem_decimalText member) (by decide)
  have short : employeeStr.length ≤ 1024 := by
    have nameFits := names.name.2
    have addressFits := names.address.2
    rw [names.made.text, addText]
    simp only [List.length_append, List.length_cons]
    omega
  rw [requestText, cString_of_clean clean, List.take_of_length_le short]

/-- The line that lists print for its record. -/
theorem Names.printedLine_eq (names : Names employeeStr name address hours)
    : printedLine (employeeOf employeeStr) = .employee name address (UInt32.ofNat hours) := by
  have nameText := cString_of_clean names.name.1
  have addressText := cString_of_clean names.address.1
  have hoursText : cString nul (decimalText hours) = decimalText hours := by
    refine cString_of_clean fun member => ?_
    exact absurd (isDigit_of_mem_decimalText member) (by decide)
  have record : employeeOf employeeStr = newEmployee name address (decimalText hours) := by
    rw [employeeOf, names.made.fields]
  have nameFits := names.name.2
  have addressFits := names.address.2
  have terminated : TerminatedFields (employeeOf employeeStr) := by
    rw [record]
    exact ⟨nul_mem_strncpy (by rw [nameText]; omega), nul_mem_strncpy (by rw [addressText]; omega)⟩
  rw [printedLine_of_terminated terminated, recordLine, record]
  simp only [newEmployee, cString_strncpy, nameText, addressText, hoursText]
  rw [List.take_of_length_le (by omega), List.take_of_length_le (by omega),
    atoi_decimalText names.made.hours.1 (by have := names.made.hours.2; omega)]
  rfl

-----------------------------------------------------------------------------------------
-- Every run
-----------------------------------------------------------------------------------------

variable {args : ι → Args} {dbfd : Nat} {records : List Employee} {client : ι}
variable {history earlier listed : List (Event ι)}

/-- The one request that was accepted for a client was accepted at some point. -/
theorem accepted_once {request : List UInt8} (one : acceptedFor client history = [request])
    : ∃ earlier actions later,
        history = earlier ++ .served (some client) actions :: later
        ∧ acceptedRequests actions = [request] := by
  have member : request ∈ acceptedFor client history := by simp [one]
  obtain ⟨event, inside, accepted⟩ := List.mem_flatMap.mp member
  obtain ⟨earlier, later, rfl⟩ := List.append_of_mem inside
  have only : event.acceptedFor client = [request] := by
    obtain ⟨front, back, split⟩ := List.append_of_mem accepted
    have sizes := congrArg List.length one
    simp only [acceptedFor, List.flatMap_append, List.flatMap_cons, split, List.length_append,
      List.length_cons, List.length_nil] at sizes
    have none : front = [] ∧ back = [] :=
      ⟨List.length_eq_zero_iff.mp (by omega), List.length_eq_zero_iff.mp (by omega)⟩
    rw [split, none.1, none.2]
    rfl
  cases event with
  | served about actions =>
      cases about with
      | none => cases accepted
      | some other =>
          simp only [Event.acceptedFor] at only
          split_ifs at only with own
          exact ⟨earlier, actions, later, by rw [own], only⟩
  | _ => cases accepted

variable {db : Db} {file : OpenFile UInt8} {listenFd : Int32} {sys next : System ι}

/-- What `send_employee` has returned tells what was added for its client, then and later. -/
theorem added_of_returned (holds : db.Holds records) {before after : List (Event ι)} {call : Call}
    (run
      : SystemRun args dbfd (startSystem ι db file listenFd)
          (before ++ .returned client (.sendEmployee employeeStr) call :: after) sys)
    : acceptedFor client (before ++ .returned client (.sendEmployee employeeStr) call :: after)
        = acceptedFor client before
      ∧ ((call.status = .success
            ∧ acceptable (requestText employeeStr)
            ∧ acceptedFor client before = [requestText employeeStr])
          ∨ (call.status ≠ .success
            ∧ ¬ acceptable (requestText employeeStr)
            ∧ acceptedFor client before = [])) := by
  rw [List.append_cons] at run ⊢
  obtain ⟨middle, earlier, later⟩ := run.split
  obtain ⟨state, first, step⟩ := earlier.last
  obtain ⟨polled, sound⟩ := sound_run holds first
  obtain ⟨polled', sound'⟩ := sound.step step
  refine ⟨?_, (sound.add_returns step).2⟩
  rw [sound'.pastAdd_run (pastAdd_returned step) later, acceptedFor_snoc]
  exact List.append_nil _

/-- What `list_employees` has returned shows a moment of the run. -/
theorem showsMoment_of_returned (holds : db.Holds records) {listed after : List (Event ι)}
    {call : Call}
    (run
      : SystemRun args dbfd (startSystem ι db file listenFd)
          (listed ++ .returned client .listEmployees call :: after) sys)
    : ∃ seen,
        ShowsMoment args dbfd (startSystem ι db file listenFd) records client listed seen call := by
  rw [List.append_cons] at run
  obtain ⟨middle, earlier, later⟩ := run.split
  obtain ⟨state, first, step⟩ := earlier.last
  obtain ⟨polled, sound⟩ := sound_run holds first
  obtain ⟨seen, moment, success, printed⟩ := sound.list_returns step
  obtain ⟨rest, rfl⟩ := moment.past
  obtain ⟨past, reached, -⟩ := first.split
  obtain ⟨polled', sound'⟩ := sound_run holds reached
  exact ⟨seen, moment, ⟨past, reached, sound'.holds⟩, success, printed⟩

/-- What a list shows that begins behind an accepted add. -/
theorem listed_behind_add (holds : db.Holds records) {later after : List (Event ι)}
    {actions : List Action} {call : Call}
    (run : SystemRun args dbfd (startSystem ι db file listenFd) history sys)
    (added : history = earlier ++ .served (some client) actions :: later)
    (accepted : acceptedRequests actions = [employeeStr]) {other : ι}
    (returned : history = listed ++ .returned other .listEmployees call :: after)
    (behind : .wrote other .listEmployees ∉ earlier)
    : call.printed[(stored records earlier).length]? = some (printedLine (employeeOf employeeStr))
      ∧ call.printed.take (stored records earlier).length
        = (stored records earlier).map printedLine := by
  have past : earlier ++ [.served (some client) actions] <+: history := ⟨later, by simp [added]⟩
  have within : listed <+: history := ⟨_, returned.symm⟩
  obtain ⟨seen, shows⟩ := showsMoment_of_returned holds (returned ▸ run)
  obtain ⟨more, rfl⟩ := shows.moment.behind past within behind
  have whole : stored records (earlier ++ [.served (some client) actions] ++ more)
      = stored records earlier
        ++ employeeOf employeeStr :: (more.flatMap Event.accepted).map employeeOf := by
    simp [stored, Event.accepted, accepted]
  rw [shows.printed, whole, List.map_append, List.map_cons]
  constructor
  · rw [List.getElem?_append_right (by simp)]
    simp
  · exact List.take_left' (List.length_map ..)

/-- Any number of clients run against the server, in any order of their steps. The database always
holds the records it started with and those of the accepted requests. `send_employee` returns
success exactly when one record was added for it, and else none ever is. An argument that names a
record is added, and every list that begins behind that prints the record at the index that
counted the records before, the earlier ones as they were, and as many as there are at a moment
while it runs. As long as there is room for all records, no call is stuck.
-/
theorem clients_add_and_list (holds : db.Holds records)
    (run : SystemRun args dbfd (startSystem ι db file listenFd) history sys)
    : sys.server.world.db.Holds (stored records history)
      ∧ (∀ client employeeStr call before after,
          history = before ++ .returned client (.sendEmployee employeeStr) call :: after
          → (call.status = .success ↔ acceptedFor client history = [requestText employeeStr])
            ∧ (call.status ≠ .success → acceptedFor client history = [])
            ∧ ∀ name address hours,
                Names employeeStr name address hours
                → call.status = .success
                  ∧ ∃ earlier actions later,
                      before = earlier ++ .served (some client) actions :: later
                      ∧ acceptedRequests actions = [employeeStr]
                      ∧ ∀ other listing listed rest,
                          history = listed ++ .returned other .listEmployees listing :: rest
                          → .wrote other .listEmployees ∉ earlier
                          → listing.printed[(stored records earlier).length]?
                              = some (.employee name address (UInt32.ofNat hours))
                            ∧ listing.printed.take (stored records earlier).length
                              = (stored records earlier).map printedLine)
      ∧ (∀ client call listed after,
          history = listed ++ .returned client .listEmployees call :: after
          → ∃ seen,
              ShowsMoment args dbfd (startSystem ι db file listenFd) records client listed seen
                call)
      ∧ ∀ adders,
          Adders args records adders
          → ∀ client routine,
              routine ≠ .sendHello
              → Calling routine (sys.sessions client).phase
              → ∃ more call next,
                  SystemRun args dbfd sys (more ++ [.returned client routine call]) next := by
  obtain ⟨polled, sound⟩ := sound_run holds run
  refine ⟨sound.holds, ?_, ?_, ?_⟩
  · rintro client employeeStr call before after rfl
    obtain ⟨same, reports⟩ := added_of_returned holds run
    rw [same]
    refine ⟨?_, ?_, fun name address hours names => ?_⟩
    · rcases reports with ⟨success, -, one⟩ | ⟨error, -, none⟩
      · exact iff_of_true success one
      · exact iff_of_false error (by simp [none])
    · intro error
      rcases reports with ⟨success, -⟩ | ⟨-, -, none⟩
      · exact absurd success error
      · exact none
    · have text := names.requestText_eq
      have accepts : acceptable (requestText employeeStr) := by
        rw [text]
        exact names.made.acceptable
      rcases reports with ⟨success, -, one⟩ | ⟨-, rejects, -⟩
      · refine ⟨success, ?_⟩
        obtain ⟨earlier, actions, later, rfl, accepted⟩ := accepted_once one
        rw [text] at accepted
        refine ⟨earlier, actions, later, rfl, accepted, ?_⟩
        intro other listing listed rest returned behind
        rw [← names.printedLine_eq]
        exact listed_behind_add holds run (by rw [List.append_assoc, List.cons_append]) accepted
          returned behind
      · exact absurd accepts rejects
  · rintro client call listed after rfl
    exact showsMoment_of_returned holds run
  · intro adders within client routine differs calls
    obtain ⟨slot, linked⟩ := (sound.standing client).accepted calls differs
    exact (keptSystem_run holds within run).returns dbfd within calls linked

/-- A client that adds `a,b,1` and lists. -/
def adder : Unit → Args := fun _ => ⟨some [97, 44, 98, 44, 49], true⟩

/-- The client and a server with an empty database. -/
def adderStart : System Unit := startSystem Unit ⟨headerOf 0, some []⟩ (.opened []) 4

private theorem adder_holds : Db.Holds ⟨headerOf 0, some []⟩ [] := ⟨rfl, rfl⟩

private theorem adder_room : Adders adder [] {()} :=
  ⟨fun _ _ _ _ => Finset.mem_singleton_self (), by simp⟩

/-- The client can connect to the first slot. -/
private theorem adder_connects
    : ∃ history sys,
        SystemRun adder 3 adderStart history sys
        ∧ sys.sessions () = ⟨.calling .sendHello, .accepted 0, [], []⟩ := by
  have consistent : adderStart.server.Consistent := startServer_consistent _ _ _
  have free : findFreeSlot adderStart.server.world.clients = some 0 :=
    findFreeSlot_first rfl fun other below => absurd below (Fin.not_lt_zero other)
  obtain ⟨fds, accepting⟩ :=
    consistent.accept_step 3 rfl free (show (5 : Int32) ≠ -1 by decide)
  have connect : SystemStep adder 3 adderStart (.connected ()) _ := .connect rfl
  have unused : FreshAccept adderStart.server (pollEnv 0 5) := fun _ _ => by
    change (-1 : Int32) ≠ 5
    decide
  have orderly := pollEnv_orderly (k := 0) fun other used => unused other used
  refine ⟨_, _, (Run.single connect).snoc (.accept (System.put_self ..) ⟨unused, ?_, ?_⟩ accepting),
    System.put_self ..⟩
  · exact fun events polled j _ => orderly.ready events polled j
  · exact fun slot reported => absurd rfl reported.1

/-- A call that it is about to make can return. -/
private theorem adder_returns {history : List (Event Unit)} {sys : System Unit} {routine : Routine}
    (run : SystemRun adder 3 adderStart history sys)
    (calls : (sys.sessions ()).phase = .calling routine)
    (linked : ∃ slot, (sys.sessions ()).link = .accepted slot)
    : ∃ more call state next,
        SystemRun adder 3 adderStart (history ++ more) state
        ∧ SystemStep adder 3 state (.returned () routine call) next := by
  obtain ⟨slot, linked⟩ := linked
  obtain ⟨more, call, next, further⟩ :=
    (keptSystem_run adder_holds adder_room run).returns 3 adder_room (Or.inl calls) linked
  have whole := run.append further
  rw [← List.append_assoc] at whole
  obtain ⟨state, earlier, step⟩ := whole.last
  exact ⟨more, call, state, next, earlier, step⟩

/-- It can greet, add and list. -/
private theorem adder_run
    : ∃ before call middle listing sys,
        SystemRun adder 3 adderStart
          (before
            ++ .returned () (.sendEmployee [97, 44, 98, 44, 49]) call
              :: (middle ++ [.returned () .listEmployees listing])) sys
        ∧ .wrote () .listEmployees ∉ before := by
  obtain ⟨start, connected, run, stands⟩ := adder_connects
  obtain ⟨greeting, hello, state, greeted, run, step⟩ :=
    adder_returns run (by rw [stands]) ⟨0, by rw [stands]⟩
  obtain ⟨polled, sound⟩ := sound_run adder_holds run
  have adding : (greeted.sessions ()).phase = .calling (.sendEmployee [97, 44, 98, 44, 49]) := by
    rw [phase_returned step, sound.hello_returns step]
    rfl
  have run := run.snoc step
  obtain ⟨polled, sound⟩ := sound_run adder_holds run
  obtain ⟨more, call, state, added, run, step⟩ :=
    adder_returns run adding ((sound.standing ()).accepted (Or.inl adding) (by simp))
  have unlisted : .wrote () .listEmployees
      ∉ start ++ greeting ++ [.returned () .sendHello hello] ++ more := by
    intro wrote
    have past := pastAdd_of_wrote adder_holds run wrote
    cases step with
    | add before =>
        rw [before] at past
        exact past
  have listing : (added.sessions ()).phase = .calling .listEmployees := phase_returned step
  have behind := run.snoc step
  obtain ⟨polled, sound⟩ := sound_run adder_holds behind
  obtain ⟨middle, list, state, listed, further, last⟩ :=
    adder_returns behind listing ((sound.standing ()).accepted (Or.inl listing) (by simp))
  exact ⟨_, call, middle, list, listed, by simpa using further.snoc last, unlisted⟩

/-- The client and the server, from the start until the list has returned. -/
theorem clients_add_and_list_adder
    : ∃ before call middle listing sys,
        SystemRun adder 3 adderStart
          (before
            ++ .returned () (.sendEmployee [97, 44, 98, 44, 49]) call
              :: (middle ++ [.returned () .listEmployees listing])) sys
        ∧ call.status = .success
        ∧ .employee [97] [98] 1 ∈ listing.printed := by
  obtain ⟨before, call, middle, listing, sys, run, unlisted⟩ := adder_run
  have names : Names [97, 44, 98, 44, 49] [97] [98] 1 :=
    ⟨⟨by decide, by decide, by decide, by decide⟩, by decide, by decide⟩
  obtain ⟨-, adds, -⟩ := clients_add_and_list adder_holds run
  obtain ⟨-, -, described⟩ := adds () _ call before _ rfl
  obtain ⟨success, earlier, actions, later, rfl, -, lists⟩ := described [97] [98] 1 names
  obtain ⟨line, -⟩ := lists () listing _ [] (by rw [← List.cons_append, ← List.append_assoc])
    fun wrote => unlisted (List.mem_append_left _ wrote)
  exact ⟨_, call, middle, listing, sys, run, success, List.mem_of_getElem? line⟩

end LowlevelAcademy.Correctness
