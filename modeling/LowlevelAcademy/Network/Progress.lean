import LowlevelAcademy.Network.Running
import LowlevelAcademy.Server.Progress

/-! No client is left without its reply: whatever state a run has reached, it can be continued
until a call that a client has made returns.
-/

namespace LowlevelAcademy.Network

open LowlevelAcademy.Foundations
open LowlevelAcademy.Database
open LowlevelAcademy.Server
open LowlevelAcademy.Client

variable {ι : Type*} [DecidableEq ι]

omit [DecidableEq ι] in
/-- The clients that have not left are where they were, on the same connections. -/
def Stays (sys next : System ι) : Prop :=
  ∀ client,
    (sys.sessions client).phase ≠ .closed
    → (next.sessions client).phase = (sys.sessions client).phase
      ∧ (next.sessions client).link = (sys.sessions client).link

omit [DecidableEq ι] in
theorem Stays.refl (sys : System ι) : Stays sys sys := fun _ _ => ⟨rfl, rfl⟩

omit [DecidableEq ι] in
theorem Stays.trans {first second third : System ι} (earlier : Stays first second)
    (later : Stays second third)
    : Stays first third := by
  intro client opened
  obtain ⟨phase, link⟩ := earlier client opened
  obtain ⟨phase', link'⟩ := later client (by rwa [phase])
  exact ⟨phase'.trans phase, link'.trans link⟩

variable {args : ι → Args} {dbfd : Nat} {records : List Employee} {adders : Finset ι}
variable {history : List (Event ι)} {sys next : System ι} {client : ι} {slot : Slot}
variable {session : Session} {phase : Phase} {routine : Routine}
variable {message : List UInt8} {rest toServer toClient : List (List UInt8)}

/-- A step about one client leaves the others where they are. -/
theorem stays_put (server : State)
    (same
      : (sys.sessions client).phase ≠ .closed
        → session.phase = (sys.sessions client).phase ∧ session.link = (sys.sessions client).link)
    : Stays sys (sys.put server client session) := by
  intro other opened
  by_cases own : other = client
  · subst own
    rw [System.put_self]
    exact same opened
  · rw [System.put_other own]
    exact ⟨rfl, rfl⟩

/-- Every run keeps what a step keeps. -/
theorem Kept.run {more : List (Event ι)} (kept : Kept args records adders history sys)
    (within : Adders args records adders) (run : SystemRun args dbfd sys more next)
    : Kept args records adders (history ++ more) next := by
  refine run.invariant
    (motive := fun more next => Kept args records adders (history ++ more) next)
    (by rwa [List.append_nil]) ?_
  intro more sys event next kept step
  rw [← List.append_assoc]
  exact kept.step within step

-----------------------------------------------------------------------------------------
-- Turns of the server
-----------------------------------------------------------------------------------------

omit [DecidableEq ι] in
/-- The system calls of a turn that serves a client keep the contract. -/
theorem clientEnv_contract (read : Option Chunk) (fresh : Option (Nat → Employee))
    : Contract sys (clientEnv read fresh) :=
  ⟨fun _ impossible => absurd rfl impossible, by rintro _ ⟨⟩, by rintro _ ⟨-, _, ⟨⟩, -⟩⟩

/-- The server can handle the next message of the client it reads from. -/
theorem Kept.serve (dbfd : Nat) (kept : Kept args records adders history sys)
    (within : Adders args records adders)
    (before : sys.sessions client = ⟨phase, .accepted slot, message :: rest, toClient⟩)
    (reading : sys.server.reading = some slot)
    : ∃ server actions,
        SystemStep args dbfd sys (.served (some client) actions)
          (sys.put server client ⟨phase, .accepted slot, rest, toClient ++ repliesOf actions⟩)
        ∧ ∃ env, pollLoopStep env dbfd sys.server = .ok (server, actions) := by
  obtain ⟨polled, sound⟩ := kept.sound
  have standing := sound.standing client
  rw [before] at standing
  obtain ⟨routine, -, written, -, -, -, due, -⟩ := standing.sent_of_message
  let chunk := (Network.message routine).chunk
  let env := clientEnv (some chunk) (some fun _ => employeeOf [])
  have whole : chunk.bytes = routine.request := (request_bytes routine).symm
  have terminated : TerminatedAdds sys.server env := by
    rintro other same _ ⟨⟩ asked
    obtain rfl := Option.some.inj (reading.symm.trans same)
    exact (due.terminated whole asked).1
  have room (received : Chunk) (member : received ∈ env.read)
      (asked : (sys.server.world.receive slot received).request slot = .add)
      (accepts
        : acceptable
            (cString nul (addString ((sys.server.world.receive slot received).message slot))))
      : (stored records history).length < 65535 := by
    obtain rfl : chunk = received := Option.some.inj member
    obtain ⟨-, employeeStr, given, first, text⟩ := due.terminated whole asked
    exact kept.tally.room within given (text ▸ accepts) first
  obtain ⟨⟨server, actions⟩, result⟩ :=
    @pollLoopStep_ok dbfd _ _ env _ _ sound.holds room reading rfl terminated
  exact ⟨server, actions,
    .serve before (clientEnv_contract _ _) reading rfl (whole.trans written.symm) result,
    env, result⟩

/-- Within an iteration the server can always take its next turn. -/
theorem Kept.turn (dbfd : Nat) (kept : Kept args records adders history sys)
    (within : Adders args records adders) (position : sys.server.position ≠ .poll)
    : ∃ event next,
        SystemStep args dbfd sys event next
        ∧ Stays sys next
        ∧ next.server.position.turnsLeft < sys.server.position.turnsLeft := by
  obtain ⟨polled, sound⟩ := kept.sound
  cases reading : sys.server.reading with
  | none =>
      obtain ⟨server, result⟩ := sound.loop.idle_turn dbfd position reading
      exact ⟨_, _, .idle (clientEnv_contract _ _) result, .refl sys,
        pollLoopStep_turnsLeft result position⟩
  | some slot =>
      obtain ⟨client, linked, ready⟩ :=
        sound.readable slot (sound.loop.visits_of_reading reading)
      cases before : sys.sessions client with
      | mk phase link toServer toClient =>
      rw [before] at linked ready
      obtain rfl : link = .accepted slot := linked
      cases toServer with
      | cons message rest =>
          obtain ⟨server, actions, step, env, result⟩ := kept.serve dbfd within before reading
          exact ⟨_, _, step, stays_put server fun _ => by simp [before],
            pollLoopStep_turnsLeft result position⟩
      | nil =>
          obtain rfl : phase = .closed := ready.resolve_left (not_not.mpr rfl)
          obtain ⟨⟨server, actions⟩, result⟩ :=
            @pollLoopStep_ok dbfd _ _ (clientEnv none (some fun _ => employeeOf [])) _ _
              sound.holds (by rintro _ ⟨⟩) reading rfl (by rintro _ _ _ ⟨⟩)
          exact ⟨_, _, .hangUp before (clientEnv_contract _ _) reading rfl result,
            stays_put server fun opened => absurd (by rw [before]) opened,
            pollLoopStep_turnsLeft result position⟩

/-- So the server can always come to the start of an iteration. -/
theorem Kept.finish_scan (dbfd : Nat) (kept : Kept args records adders history sys)
    (within : Adders args records adders)
    : ∃ more next,
        SystemRun args dbfd sys more next
        ∧ Stays sys next
        ∧ next.server.position = .poll := by
  have advance (history : List (Event ι)) (state : System ι)
      (reached : Kept args records adders history state ∧ Stays sys state)
      (position : ¬ state.server.position = .poll)
      : ∃ event next,
          SystemStep args dbfd state event next
          ∧ (Kept args records adders (history ++ [event]) next ∧ Stays sys next)
          ∧ next.server.position.turnsLeft < state.server.position.turnsLeft := by
    obtain ⟨event, next, step, further, less⟩ := reached.1.turn dbfd within position
    exact ⟨event, next, step, ⟨reached.1.step within step, reached.2.trans further⟩, less⟩
  obtain ⟨more, next, run, ⟨-, stays⟩, position⟩ :=
    Run.reach (fun next : System ι => next.server.position.turnsLeft) advance
      ⟨kept, Stays.refl sys⟩
  exact ⟨more, next, run, stays, position⟩

/-- Steps of the server that come to one readable client, as a run of the system. -/
theorem idle_run (args : ι → Args) {server : State} {steps : List (List Action)}
    (readable : sys.Readable slot)
    (run : Run (Step dbfd (Targets slot)) sys.server steps server) (quiet : steps.flatten = [])
    : ∃ more, SystemRun args dbfd sys more ⟨server, sys.sessions⟩ := by
  induction run with
  | nil => exact ⟨[], .nil⟩
  | @snoc steps middle actions server earlier last ih =>
      rw [List.flatten_append, List.append_eq_nil_iff] at quiet
      obtain ⟨more, run⟩ := ih quiet.1
      obtain ⟨env, targets, result⟩ := last
      obtain rfl : actions = [] := by simpa using quiet.2
      have contract : Contract (⟨middle, sys.sessions⟩ : System ι) env := by
        refine ⟨targets.orderly.fresh, ?_, fun other reported => ?_⟩
        · exact fun events polled j _ => targets.orderly.ready events polled j
        · rw [targets.only other reported]
          exact readable
      exact ⟨_, run.snoc (.idle contract result)⟩

/-- A client that has sent a message can be the next one to be served. -/
theorem Kept.serve_run (dbfd : Nat) (kept : Kept args records adders history sys)
    (within : Adders args records adders) (position : sys.server.position = .poll)
    (before : sys.sessions client = ⟨phase, .accepted slot, message :: rest, toClient⟩)
    : ∃ more next replies,
        SystemRun args dbfd sys more next
        ∧ next.sessions client = ⟨phase, .accepted slot, rest, toClient ++ replies⟩ := by
  obtain ⟨polled, sound⟩ := kept.sound
  have connected := (sound.standing client).connected (by rw [before])
  have readable : sys.Readable slot := ⟨client, by rw [before], Or.inl (by simp [before])⟩
  obtain ⟨fds, steps, i, inside, run, quiet, below, ready, found⟩ :=
    sound.loop.consistent.target_run dbfd position connected
  obtain ⟨more, run⟩ := idle_run args readable run quiet
  have reading := State.reading_of_scan ⟨sys.server.world, fds, sys.server.nfds, .scan i 1⟩ rfl
    inside ⟨below, Nat.one_pos⟩ ready
  obtain ⟨server, actions, step, -⟩ :=
    (kept.run within run).serve dbfd within before (reading.trans found)
  exact ⟨_, _, repliesOf actions, run.snoc step, System.put_self ..⟩

-----------------------------------------------------------------------------------------
-- Calls that return
-----------------------------------------------------------------------------------------

/-- The request of a waiting client lies on its connection, or the reply does. -/
theorem Standing.waiting {args : Args} {states : Clients}
    (standing
      : Standing args records history client states
          ⟨.waiting routine, .accepted slot, toServer, toClient⟩)
    : (∃ message, toServer = [message])
      ∨ (toServer = [] ∧ Answered args records history client (states slot).buffer routine toClient)
    := by
  cases standing with
  | sent => exact Or.inl ⟨_, rfl⟩
  | answered _ _ answer => exact Or.inr ⟨rfl, answer⟩

/-- A waiting client can be answered. -/
theorem Kept.answer (dbfd : Nat) (kept : Kept args records adders history sys)
    (within : Adders args records adders)
    (waits : (sys.sessions client).phase = .waiting routine)
    (linked : (sys.sessions client).link = .accepted slot)
    : ∃ more next toClient,
        SystemRun args dbfd sys more next
        ∧ next.sessions client = ⟨.waiting routine, .accepted slot, [], toClient⟩ := by
  obtain ⟨first, middle, run, stays, position⟩ := kept.finish_scan dbfd within
  obtain ⟨phase, link⟩ := stays client (by simp [waits])
  cases before : middle.sessions client with
  | mk phase' link' toServer toClient =>
  rw [before, waits] at phase
  rw [before, linked] at link
  obtain rfl : phase' = .waiting routine := phase
  obtain rfl : link' = .accepted slot := link
  have reached := kept.run within run
  obtain ⟨polled, sound⟩ := reached.sound
  have standing := sound.standing client
  rw [before] at standing
  rcases standing.waiting with ⟨message, rfl⟩ | ⟨rfl, -⟩
  · obtain ⟨second, next, replies, further, behind⟩ := reached.serve_run dbfd within position before
    exact ⟨_, next, _, run.append further, behind⟩
  · exact ⟨_, middle, _, run, before⟩

/-- A read of at least a message's size can deliver it whole. -/
theorem exists_delivers {size : Nat} (nonempty : message ≠ []) (fits : message.length ≤ size)
    : ∃ read : ReadOutcome size, Delivers read message :=
  ⟨.data message nonempty fits, nonempty, fits, rfl⟩

/-- The records that a list call has still to read are on their way. -/
theorem Standing.listed {args : Args} {states : Clients} {header : ReadOutcome protoHeaderSize}
    {entries : List (ReadOutcome employeeSize)} {link : Link}
    (standing
      : Standing args records history client states
          ⟨.listing header entries, link, toServer, toClient⟩)
    : entries.length + toClient.length = announced header
      ∧ ∀ entry ∈ toClient, entry.length = employeeSize := by
  cases standing with
  | queued first early => rcases early with ⟨impossible, -⟩ | ⟨impossible, -⟩ <;> cases impossible
  | @listing _ _ slot _ seen connected moment announces split =>
  constructor
  · have sizes := congrArg List.length split
    rw [List.length_append, List.length_map, List.length_map] at sizes
    rw [announced_of_header announces, sizes]
  · intro entry member
    have sent : entry ∈ (stored records seen).map listEntry := by
      rw [← split]
      exact List.mem_append_right _ member
    obtain ⟨employee, -, rfl⟩ := List.mem_map.mp sent
    exact listEntry_length employee

/-- A list call that has read its header can read all records and return. By induction on the
records that are on their way.
-/
theorem Kept.list_returns (dbfd : Nat) (kept : Kept args records adders history sys)
    (within : Adders args records adders) {header : ReadOutcome protoHeaderSize}
    {entries : List (ReadOutcome employeeSize)} {link : Link}
    (before : sys.sessions client = ⟨.listing header entries, link, toServer, toClient⟩)
    : ∃ more call next,
        SystemRun args dbfd sys (more ++ [.returned client .listEmployees call]) next := by
  obtain ⟨polled, sound⟩ := kept.sound
  have standing := sound.standing client
  rw [before] at standing
  obtain ⟨count, sizes⟩ := standing.listed
  induction toClient generalizing history sys entries polled with
  | nil => exact ⟨[], _, _, .single (.list before count)⟩
  | cons message rest ih =>
      have size := sizes message List.mem_cons_self
      have nonempty : message ≠ [] := by
        rintro rfl
        cases size
      obtain ⟨read, delivers⟩ := exists_delivers nonempty size.le
      have entry : SystemStep args dbfd sys (.read client) _ :=
        .entry before (by rw [← count, List.length_cons]; omega) delivers
      have kept' := kept.step within entry
      obtain ⟨polled', sound'⟩ := kept'.sound
      have behind := sound'.standing client
      rw [System.put_self] at behind
      obtain ⟨more, call, next, run⟩ :=
        ih kept' (System.put_self ..) polled' sound' behind behind.listed.1 behind.listed.2
      exact ⟨.read client :: more, call, next, .cons entry run⟩

/-- The size of what a call reads first: its reply, or the header of a list reply. -/
def firstRead : Routine → Nat
  | .sendHello => helloSize
  | .sendEmployee _ | .listEmployees => protoHeaderSize

theorem firstRead_le (routine : Routine) : firstRead routine ≤ buffSize := by
  cases routine <;> simp only [firstRead] <;> decide

theorem Answered.first {args : Args} {buffer : Buffer}
    (answer : Answered args records history client buffer routine toClient)
    : ∃ message rest,
        toClient = message :: rest
        ∧ message ≠ []
        ∧ message.length = firstRead routine := by
  cases answer with
  | @hello reply size =>
      refine ⟨reply, [], rfl, ?_, size⟩
      rintro rfl
      cases size
  | @add employeeStr reply _ size =>
      refine ⟨reply, [], rfl, ?_, size⟩
      rintro rfl
      cases size
  | @list header seen _ announces =>
      refine ⟨header, _, rfl, ?_, announces.size⟩
      rintro rfl
      cases announces.size

/-- A waiting client's call can return. -/
theorem Kept.waiting_returns (dbfd : Nat) (kept : Kept args records adders history sys)
    (within : Adders args records adders)
    (waits : (sys.sessions client).phase = .waiting routine)
    (linked : (sys.sessions client).link = .accepted slot)
    : ∃ more call next,
        SystemRun args dbfd sys (more ++ [.returned client routine call]) next := by
  obtain ⟨first, middle, toClient, run, before⟩ := kept.answer dbfd within waits linked
  have reached := kept.run within run
  obtain ⟨polled, sound⟩ := reached.sound
  have standing := sound.standing client
  rw [before] at standing
  rcases standing.waiting with ⟨message, impossible⟩ | ⟨-, answer⟩
  · cases impossible
  obtain ⟨message, rest, rfl, nonempty, size⟩ := answer.first
  cases routine with
  | sendHello =>
      obtain ⟨read, delivers⟩ : ∃ read : ReadOutcome buffSize, Delivers read message :=
        exists_delivers nonempty (size.trans_le (firstRead_le _))
      exact ⟨first, _, _, run.snoc (.hello before delivers)⟩
  | sendEmployee employeeStr =>
      obtain ⟨read, delivers⟩ : ∃ read : ReadOutcome buffSize, Delivers read message :=
        exists_delivers nonempty (size.trans_le (firstRead_le _))
      exact ⟨first, _, _, run.snoc (.add before delivers)⟩
  | listEmployees =>
      obtain ⟨read, delivers⟩ : ∃ read : ReadOutcome protoHeaderSize, Delivers read message :=
        exists_delivers nonempty size.le
      have header : SystemStep args dbfd middle (.read client) _ := .header before delivers
      obtain ⟨more, call, next, further⟩ :=
        (reached.step within header).list_returns dbfd within (System.put_self ..)
      exact ⟨first ++ .read client :: more, call, next, by
        simpa using run.append (.cons header further)⟩

/-- A client is in a call: it is about to make it, or it has made it. -/
def Calling (routine : Routine) (phase : Phase) : Prop :=
  phase = .calling routine
  ∨ phase = .waiting routine
  ∨ (routine = .listEmployees ∧ ∃ header entries, phase = .listing header entries)

/-- Every call of a client that is connected can return. -/
theorem Kept.returns (dbfd : Nat) (kept : Kept args records adders history sys)
    (within : Adders args records adders) (calls : Calling routine (sys.sessions client).phase)
    (linked : (sys.sessions client).link = .accepted slot)
    : ∃ more call next,
        SystemRun args dbfd sys (more ++ [.returned client routine call]) next := by
  cases before : sys.sessions client with
  | mk phase link toServer toClient =>
  rw [before] at calls
  rcases calls with rfl | rfl | ⟨rfl, header, entries, rfl⟩
  · have write : SystemStep args dbfd sys (.wrote client routine) _ := .write before
    rw [before] at linked
    obtain ⟨more, call, next, run⟩ := (kept.step within write).waiting_returns dbfd within
      (by rw [System.put_self]) (by rwa [System.put_self])
    exact ⟨.wrote client routine :: more, call, next, .cons write run⟩
  · exact kept.waiting_returns dbfd within (by rw [before]) linked
  · exact kept.list_returns dbfd within before

/-- A client that makes another call than its hello is connected. -/
theorem Standing.accepted {args : Args} {states : Clients}
    (standing : Standing args records history client states session)
    (calls : Calling routine session.phase) (differs : routine ≠ .sendHello)
    : ∃ slot, session.link = .accepted slot := by
  cases standing with
  | starting | ended =>
      rcases calls with impossible | impossible | ⟨-, _, _, impossible⟩ <;> cases impossible
  | queued first early =>
      rcases early with ⟨rfl, -⟩ | ⟨rfl, -⟩ <;>
        rcases calls with same | same | ⟨-, _, _, same⟩ <;>
        cases same <;>
        exact absurd rfl differs
  | calling | sent | answered | listing | leaving | closed => exact ⟨_, rfl⟩

end LowlevelAcademy.Network
