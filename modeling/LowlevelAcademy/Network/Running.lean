import LowlevelAcademy.Network.Soundness

/-! Every run of the system keeps the invariant, and what its clients' calls return follows from
it.
-/

namespace LowlevelAcademy.Network

open LowlevelAcademy.Foundations
open LowlevelAcademy.Database
open LowlevelAcademy.Server
open LowlevelAcademy.Client

variable {ι : Type*} [DecidableEq ι]

omit [DecidableEq ι] in
/-- What a client does itself adds nothing to the database. -/
def Event.Own (client : ι) : Event ι → Prop
  | .connected other | .wrote other _ | .read other | .returned other _ _ | .closed other =>
      other = client
  | .served _ _ => False

variable {args : ι → Args} {dbfd polled : Nat} {records : List Employee}
variable {history : List (Event ι)} {event : Event ι} {sys next : System ι} {client : ι}
variable {session session' : Session}

omit [DecidableEq ι] in
theorem Event.Own.accepted (own : event.Own client) : event.accepted = [] := by
  cases event with
  | served => exact own.elim
  | _ => rfl

theorem Event.Own.acceptedFor (own : event.Own client) (other : ι)
    : event.acceptedFor other = [] := by
  cases event with
  | served => exact own.elim
  | _ => rfl

/-- A step of a client keeps up the invariant when it leads from where the client stands to where
it may stand, on the same connection.
-/
theorem Sound.own_step (sound : Sound args records history sys polled)
    (own : event.Own client) (before : sys.sessions client = session)
    (link : ∀ slot, session'.link = .accepted slot ↔ session.link = .accepted slot)
    (ready
      : session.toServer ≠ [] ∨ session.phase = .closed
        → session'.toServer ≠ [] ∨ session'.phase = .closed)
    (stands
      : Standing (args client) records (history ++ [event]) client sys.server.world.clients session
        → Standing (args client) records (history ++ [event]) client sys.server.world.clients
            session')
    : Sound args records (history ++ [event]) (sys.put sys.server client session') polled := by
  subst before
  exact sound.client_step own.accepted own.acceptedFor link ready
    (stands ((sound.standing client).keep (own.acceptedFor client) fun _ _ => rfl))

/-- Every step of the system keeps up the invariant. -/
theorem Sound.step (sound : Sound args records history sys polled)
    (step : SystemStep args dbfd sys event next)
    : ∃ polled, Sound args records (history ++ [event]) next polled := by
  cases step with
  | @connect client before =>
      refine ⟨polled, sound.own_step rfl before (by simp) (by simp) ?_⟩
      intro standing
      cases standing with
      | starting first => exact .queued first (Or.inl ⟨rfl, rfl⟩)
  | @write client routine link toServer toClient before =>
      refine ⟨polled, sound.own_step rfl before (fun _ => Iff.rfl) (by simp) ?_⟩
      exact fun standing => standing.write (by simp)
  | @hello client link toServer message rest read before delivers =>
      refine ⟨polled, sound.own_step rfl before (fun _ => Iff.rfl)
        (fun ready => Or.inl (ready.resolve_right (by simp))) ?_⟩
      exact fun standing => (standing.hello delivers).2
  | @add client employeeStr link toServer message rest read before delivers =>
      refine ⟨polled, sound.own_step rfl before (fun _ => Iff.rfl)
        (fun ready => Or.inl (ready.resolve_right (by simp))) ?_⟩
      exact fun standing => (standing.add delivers).2.2
  | @header client link toServer message rest read before delivers =>
      refine ⟨polled, sound.own_step rfl before (fun _ => Iff.rfl) (by simp) ?_⟩
      exact fun standing => standing.header delivers
  | @entry client header entries link toServer message rest read before more delivers =>
      refine ⟨polled, sound.own_step rfl before (fun _ => Iff.rfl) (by simp) ?_⟩
      exact fun standing => standing.entry delivers
  | @list client header entries link toServer toClient before all =>
      refine ⟨polled, sound.own_step rfl before (fun _ => Iff.rfl)
        (fun ready => Or.inl (ready.resolve_right (by simp))) ?_⟩
      exact fun standing => (standing.list all).2
  | @close client link toServer toClient before =>
      refine ⟨polled, sound.own_step rfl before (fun _ => Iff.rfl) (by simp) ?_⟩
      exact fun standing => standing.close
  | idle contract result => exact sound.idle_step contract result
  | accept before contract result => exact sound.accept_step before contract result
  | serve before contract reading received whole result =>
      exact sound.serve_step before contract reading received whole result
  | hangUp before contract reading ended result =>
      exact sound.hangUp_step before contract reading ended result

/-- Every run keeps up the invariant. -/
theorem sound_run {db : Db} {file : OpenFile UInt8} {listenFd : Int32}
    (holds : db.Holds records)
    (run : SystemRun args dbfd (startSystem ι db file listenFd) history sys)
    : ∃ polled, Sound args records history sys polled := by
  refine run.invariant
    (motive := fun history sys => ∃ polled, Sound args records history sys polled)
    (startSystem_sound args file listenFd holds) ?_
  rintro history sys event next ⟨polled, sound⟩ step
  exact sound.step step

-----------------------------------------------------------------------------------------
-- Counting the records
-----------------------------------------------------------------------------------------

/-- What a step adds to the database is the first add request of a client that was asked to add.
-/
theorem Sound.accepted_step (sound : Sound args records history sys polled)
    (step : SystemStep args dbfd sys event next)
    : event.accepted = []
      ∨ ∃ client employeeStr,
          (args client).addArg = some employeeStr
          ∧ (sys.sessions client).phase = .waiting (.sendEmployee employeeStr)
          ∧ acceptable (requestText employeeStr)
          ∧ acceptedFor client history = []
          ∧ event.accepted = [requestText employeeStr]
          ∧ ∀ other, event.acceptedFor other = if client = other then event.accepted else [] := by
  cases step with
  | connect | write | hello | add | header | entry | list | close => exact Or.inl rfl
  | idle | accept => exact Or.inl rfl
  | @serve client phase slot message rest toClient env chunk server actions before contract reading
      received whole result =>
      obtain ⟨later, handled, rfl⟩ := pollLoopStep_message result reading received
      have standing := sound.standing client
      rw [before] at standing
      have accepted := acceptedRequests_handled slot (sys.server.world.clients slot).state
        ((sys.server.world.receive slot chunk).clients slot).buffer later
      rcases standing.accepts sound.holds whole handled with
          none | ⟨employeeStr, asked, waits, accepts, first, one⟩
      · exact Or.inl (accepted.trans none)
      · exact Or.inr ⟨client, employeeStr, asked, by rw [before, waits], accepts, first,
          accepted.trans one, fun _ => rfl⟩
  | @hangUp client slot toClient env server actions before contract reading ended result =>
      rcases pollLoopStep_event result with
          ⟨impossible, -⟩ | ⟨read, same, ⟨-, -, rfl⟩ | ⟨_, _, impossible, -⟩⟩
      · cases reading.symm.trans impossible
      · exact Or.inl rfl
      · rw [ended] at impossible
        cases impossible

/-- The clients whose add requests are acceptable, with room for a record of each of them. -/
structure Adders (args : ι → Args) (records : List Employee) (adders : Finset ι) : Prop where
  covers
    : ∀ client, ∀ employeeStr ∈ (args client).addArg,
        acceptable (requestText employeeStr) → client ∈ adders
  fit : records.length + adders.card ≤ 65535

/-- Each record that was added is the only one of a client. -/
structure Tally (adders : Finset ι) (history : List (Event ι)) : Prop where
  once : ∀ client, (acceptedFor client history).length ≤ 1
  total
    : (history.flatMap Event.accepted).length
      = ∑ client ∈ adders, (acceptedFor client history).length

/-- What adds nothing adds nothing for any client. -/
theorem acceptedFor_of_accepted (none : event.accepted = []) (client : ι)
    : event.acceptedFor client = [] := by
  cases event with
  | served about actions =>
      cases about with
      | none => rfl
      | some other =>
          simp only [Event.accepted] at none
          simp [Event.acceptedFor, none]
  | _ => rfl

variable {adders : Finset ι}

/-- Every step leaves it so. -/
theorem Tally.step (tally : Tally adders history) (within : Adders args records adders)
    (sound : Sound args records history sys polled)
    (step : SystemStep args dbfd sys event next)
    : Tally adders (history ++ [event]) := by
  rcases sound.accepted_step step with
      none | ⟨client, employeeStr, asked, -, accepts, first, one, own⟩
  · have same (other : ι) : acceptedFor other (history ++ [event]) = acceptedFor other history := by
      rw [acceptedFor_snoc, acceptedFor_of_accepted none, List.append_nil]
    refine ⟨fun other => by rw [same]; exact tally.once other, ?_⟩
    simp only [same]
    rw [← tally.total, List.flatMap_append, List.flatMap_singleton, none, List.append_nil]
  · have lengths (other : ι)
        : (acceptedFor other (history ++ [event])).length
          = (acceptedFor other history).length + if client = other then 1 else 0 := by
      rw [acceptedFor_snoc, own, List.length_append]
      split_ifs
      · rw [one]
        rfl
      · rfl
    refine ⟨fun other => ?_, ?_⟩
    · rw [lengths]
      split_ifs with same
      · rw [← same, first]
        exact Nat.le_refl 1
      · exact tally.once other
    · have member : client ∈ adders := within.covers client employeeStr asked accepts
      simp only [lengths]
      rw [Finset.sum_add_distrib, Finset.sum_ite_eq, if_pos member, ← tally.total,
        List.flatMap_append, List.flatMap_singleton, one, List.length_append]
      rfl

/-- Before a client's record is added, there is room for it. -/
theorem Tally.room (tally : Tally adders history) (within : Adders args records adders)
    {employeeStr : List UInt8} (asked : (args client).addArg = some employeeStr)
    (accepts : acceptable (requestText employeeStr)) (first : acceptedFor client history = [])
    : (stored records history).length < 65535 := by
  have member : client ∈ adders := within.covers client employeeStr asked accepts
  have fewer : ∑ other ∈ adders, (acceptedFor other history).length < ∑ other ∈ adders, 1 :=
    Finset.sum_lt_sum (fun other _ => tally.once other) ⟨client, member, by simp [first]⟩
  have fit := within.fit
  rw [stored, List.length_append, List.length_map, tally.total]
  simp only [Finset.sum_const, smul_eq_mul, mul_one] at fewer
  omega

/-- The invariant of a run with room for all records. -/
structure Kept (args : ι → Args) (records : List Employee) (adders : Finset ι)
    (history : List (Event ι)) (sys : System ι)
    : Prop where
  sound : ∃ polled, Sound args records history sys polled
  tally : Tally adders history

theorem Kept.step (kept : Kept args records adders history sys)
    (within : Adders args records adders) (step : SystemStep args dbfd sys event next)
    : Kept args records adders (history ++ [event]) next := by
  obtain ⟨polled, sound⟩ := kept.sound
  exact ⟨sound.step step, kept.tally.step within sound step⟩

theorem keptSystem_run {db : Db} {file : OpenFile UInt8} {listenFd : Int32}
    (holds : db.Holds records) (within : Adders args records adders)
    (run : SystemRun args dbfd (startSystem ι db file listenFd) history sys)
    : Kept args records adders history sys := by
  refine run.invariant ⟨startSystem_sound args file listenFd holds, ?_⟩
    fun _ _ _ _ kept step => kept.step within step
  exact ⟨fun _ => Nat.zero_le 1, by simp [acceptedFor]⟩

-----------------------------------------------------------------------------------------
-- What the calls return
-----------------------------------------------------------------------------------------

/-- Behind its return a client goes on as its `main` does. -/
theorem phase_returned {routine : Routine} {call : Call}
    (step : SystemStep args dbfd sys (.returned client routine call) next)
    : (next.sessions client).phase = afterCall (args client) routine call.status := by
  cases step with
  | hello | add | list => rw [System.put_self]

/-- `send_hello` succeeds. -/
theorem Sound.hello_returns (sound : Sound args records history sys polled) {call : Call}
    (step : SystemStep args dbfd sys (.returned client .sendHello call) next)
    : call.status = .success := by
  cases step with
  | hello before delivers =>
      have standing := sound.standing client
      rw [before] at standing
      exact (standing.hello delivers).1

/-- `send_employee` returns success when its string was added once, and else nothing was. -/
theorem Sound.add_returns (sound : Sound args records history sys polled)
    {employeeStr : List UInt8} {call : Call}
    (step : SystemStep args dbfd sys (.returned client (.sendEmployee employeeStr) call) next)
    : (args client).addArg = some employeeStr
      ∧ ((call.status = .success
            ∧ acceptable (requestText employeeStr)
            ∧ acceptedFor client history = [requestText employeeStr])
          ∨ (call.status ≠ .success
            ∧ ¬ acceptable (requestText employeeStr)
            ∧ acceptedFor client history = [])) := by
  cases step with
  | add before delivers =>
      have standing := sound.standing client
      rw [before] at standing
      obtain ⟨asked, reports, -⟩ := standing.add delivers
      exact ⟨asked, reports⟩

/-- `list_employees` prints the records of a moment behind its request. -/
theorem Sound.list_returns (sound : Sound args records history sys polled) {call : Call}
    (step : SystemStep args dbfd sys (.returned client .listEmployees call) next)
    : ∃ seen,
        Moment client history seen
        ∧ call.status = .success
        ∧ call.printed = (stored records seen).map printedLine := by
  cases step with
  | list before all =>
      have standing := sound.standing client
      rw [before] at standing
      exact (standing.list all).1

-----------------------------------------------------------------------------------------
-- Behind `send_employee`
-----------------------------------------------------------------------------------------

/-- The client sends no add request any more. -/
def PastAdd : Phase → Prop
  | .calling .listEmployees | .waiting .listEmployees | .listing _ _ | .leaving | .closed => True
  | _ => False

theorem pastAdd_afterAdd (args : Args) : PastAdd (afterAdd args) := by
  rw [afterAdd]
  split_ifs <;> trivial

/-- A step about one client leaves every client past its add when it leaves that one so. -/
private theorem pastAdd_put {other : ι} (server : State)
    (moves : PastAdd (sys.sessions client).phase → PastAdd session.phase)
    (past : PastAdd (sys.sessions other).phase)
    : PastAdd ((sys.put server client session).sessions other).phase := by
  by_cases own : other = client
  · subst own
    rw [System.put_self]
    exact moves past
  · rwa [System.put_other own]

/-- No step leads back, and none accepts an add request of such a client. -/
theorem Sound.pastAdd_step (sound : Sound args records history sys polled)
    (step : SystemStep args dbfd sys event next) (past : PastAdd (sys.sessions client).phase)
    : PastAdd (next.sessions client).phase ∧ event.acceptedFor client = [] := by
  constructor
  · cases step with
    | connect before | hello before | add before =>
        refine pastAdd_put _ (fun impossible => ?_) past
        rw [before] at impossible
        exact impossible.elim
    | @write other routine link toServer toClient before =>
        refine pastAdd_put _ (fun before' => ?_) past
        rw [before] at before'
        cases routine with
        | sendHello | sendEmployee => exact before'.elim
        | listEmployees => trivial
    | header before | entry before | list before | close before =>
        exact pastAdd_put _ (fun _ => trivial) past
    | idle => exact past
    | accept before | serve before =>
        refine pastAdd_put _ (fun before' => ?_) past
        rwa [before] at before'
    | hangUp => exact pastAdd_put _ (fun _ => trivial) past
  · rcases sound.accepted_step step with
        none | ⟨other, employeeStr, -, waits, -, -, -, own⟩
    · exact acceptedFor_of_accepted none client
    · rw [own, if_neg]
      rintro rfl
      rw [waits] at past
      exact past.elim

/-- So nothing is added for it in the rest of a run. -/
theorem Sound.pastAdd_run {more : List (Event ι)} (sound : Sound args records history sys polled)
    (past : PastAdd (sys.sessions client).phase) (run : SystemRun args dbfd sys more next)
    : acceptedFor client (history ++ more) = acceptedFor client history := by
  have kept := run.invariant
    (motive := fun more next =>
      (∃ polled, Sound args records (history ++ more) next polled)
      ∧ PastAdd (next.sessions client).phase
      ∧ acceptedFor client (history ++ more) = acceptedFor client history)
    ⟨⟨polled, by rwa [List.append_nil]⟩, past, by rw [List.append_nil]⟩
    (by
      rintro more state event next ⟨⟨polled, sound⟩, past, same⟩ step
      obtain ⟨past', none⟩ := sound.pastAdd_step step past
      rw [← List.append_assoc]
      exact ⟨sound.step step, past', by rw [acceptedFor_snoc, none, List.append_nil, same]⟩)
  exact kept.2.2

/-- Behind its return `send_employee` is past its add. -/
theorem pastAdd_returned {employeeStr : List UInt8} {call : Call}
    (step : SystemStep args dbfd sys (.returned client (.sendEmployee employeeStr) call) next)
    : PastAdd (next.sessions client).phase := by
  rw [phase_returned step]
  exact pastAdd_afterAdd (args client)

/-- A client that has asked for a list is past its add. -/
theorem pastAdd_of_wrote {db : Db} {file : OpenFile UInt8} {listenFd : Int32}
    (holds : db.Holds records)
    (run : SystemRun args dbfd (startSystem ι db file listenFd) history sys)
    (wrote : .wrote client .listEmployees ∈ history)
    : PastAdd (sys.sessions client).phase := by
  have kept := run.invariant
    (motive := fun history sys =>
      (∃ polled, Sound args records history sys polled)
      ∧ (.wrote client .listEmployees ∈ history → PastAdd (sys.sessions client).phase))
    ⟨startSystem_sound args file listenFd holds, fun impossible => by cases impossible⟩
    (by
      rintro history sys event next ⟨⟨polled, sound⟩, past⟩ step
      refine ⟨sound.step step, fun wrote => ?_⟩
      rcases List.mem_append.mp wrote with before | now
      · exact (sound.pastAdd_step step (past before)).1
      · obtain rfl := List.mem_singleton.mp now
        cases step with
        | write before =>
            rw [System.put_self]
            trivial)
  exact kept.2 wrote

end LowlevelAcademy.Network
