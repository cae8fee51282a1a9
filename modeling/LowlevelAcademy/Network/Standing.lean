import LowlevelAcademy.Network.Exchanges

/-! Where a client stands in its session: what is in flight on its connection, what its slot of
the server is like, and what the history says about its requests.
-/

namespace LowlevelAcademy.Network

open LowlevelAcademy.Foundations
open LowlevelAcademy.Database
open LowlevelAcademy.Server
open LowlevelAcademy.Client

variable {ι : Type*} [DecidableEq ι]

omit [DecidableEq ι] in
theorem stored_snoc (records : List Employee) (history : List (Event ι)) (event : Event ι)
    : stored records (history ++ [event])
      = stored records history ++ event.accepted.map employeeOf := by
  simp [stored, List.append_assoc]

theorem acceptedFor_snoc (client : ι) (history : List (Event ι)) (event : Event ι)
    : acceptedFor client (history ++ [event])
      = acceptedFor client history ++ event.acceptedFor client := by
  simp [acceptedFor]

/-- A moment behind the request of a client's list: the history that was seen by then. -/
structure Moment (client : ι) (history seen : List (Event ι)) : Prop where
  past : seen <+: history
  wrote : .wrote client .listEmployees ∈ seen

/-- What is so when a call is about to be made, and until its request is handled: a hello finds
its slot in `STATE_HELLO`, the other calls are made behind it, and an add is the client's first.
-/
inductive Due (args : Args) (accepted : List (List UInt8)) (slot : ClientState) : Routine → Prop
  | hello (state : slot.state = .hello) (clear : ClearBehindHello slot.buffer)
    (first : accepted = [])
    : Due args accepted slot .sendHello
  | add {employeeStr} (asked : args.addArg = some employeeStr) (state : slot.state = .msg)
    (clear : ClearBehindHello slot.buffer) (first : accepted = [])
    : Due args accepted slot (.sendEmployee employeeStr)
  | list (state : slot.state = .msg) : Due args accepted slot .listEmployees

/-- How an add request was decided: it was accepted once and the reply is none of an error, or it
was rejected and the reply is.
-/
def Decided (employeeStr reply : List UInt8) (accepted : List (List UInt8)) : Prop :=
  (acceptable (requestText employeeStr)
    ∧ accepted = [requestText employeeStr]
    ∧ ¬ StartsWithError reply)
  ∨ (¬ acceptable (requestText employeeStr) ∧ accepted = [] ∧ StartsWithError reply)

/-- The reply to a call's request. A list is answered with the records of some moment. -/
inductive Answered (args : Args) (records : List Employee) (history : List (Event ι)) (client : ι)
    (buffer : Buffer)
    : Routine → List (List UInt8) → Prop
  | hello {reply} (size : reply.length = helloSize) (success : ¬ StartsWithError reply)
    (clear : ClearBehindHello buffer) (first : acceptedFor client history = [])
    : Answered args records history client buffer .sendHello [reply]
  | add {employeeStr reply} (asked : args.addArg = some employeeStr)
    (size : reply.length = protoHeaderSize)
    (decided : Decided employeeStr reply (acceptedFor client history))
    : Answered args records history client buffer (.sendEmployee employeeStr) [reply]
  | list {header seen} (moment : Moment client history seen)
    (announces : ListHeader (stored records seen) header)
    : Answered args records history client buffer .listEmployees
        (header :: (stored records seen).map listEntry)

/-- Where a client stands. -/
inductive Standing (args : Args) (records : List Employee) (history : List (Event ι)) (client : ι)
    (states : Clients)
    : Session → Prop
  | starting (first : acceptedFor client history = [])
    : Standing args records history client states ⟨.starting, .unmade, [], []⟩
  | queued {phase toServer} (first : acceptedFor client history = [])
    (early
      : (phase = .calling .sendHello ∧ toServer = [])
        ∨ (phase = .waiting .sendHello
          ∧ toServer = [Routine.sendHello.request]
          ∧ .wrote client .sendHello ∈ history))
    : Standing args records history client states ⟨phase, .queued, toServer, []⟩
  | calling {routine slot} (connected : (states slot).fd ≠ -1)
    (due : Due args (acceptedFor client history) (states slot) routine)
    : Standing args records history client states ⟨.calling routine, .accepted slot, [], []⟩
  | sent {routine slot} (connected : (states slot).fd ≠ -1)
    (due : Due args (acceptedFor client history) (states slot) routine)
    (wrote : .wrote client routine ∈ history)
    : Standing args records history client states
        ⟨.waiting routine, .accepted slot, [routine.request], []⟩
  | answered {routine slot toClient} (connected : (states slot).fd ≠ -1)
    (state : (states slot).state = .msg)
    (answer : Answered args records history client (states slot).buffer routine toClient)
    : Standing args records history client states ⟨.waiting routine, .accepted slot, [], toClient⟩
  | listing {header entries slot toClient seen} (connected : (states slot).fd ≠ -1)
    (moment : Moment client history seen)
    (announces : ListHeader (stored records seen) header.bytes)
    (split : entries.map (·.bytes) ++ toClient = (stored records seen).map listEntry)
    : Standing args records history client states
        ⟨.listing header entries, .accepted slot, [], toClient⟩
  | leaving {slot} (connected : (states slot).fd ≠ -1)
    : Standing args records history client states ⟨.leaving, .accepted slot, [], []⟩
  | closed {slot} (connected : (states slot).fd ≠ -1)
    : Standing args records history client states ⟨.closed, .accepted slot, [], []⟩
  | ended : Standing args records history client states ⟨.closed, .ended, [], []⟩

variable {args : Args} {records : List Employee} {history : List (Event ι)} {client : ι}
variable {states states' : Clients} {session : Session} {event : Event ι}

omit [DecidableEq ι] in
theorem Moment.snoc {seen : List (Event ι)} (moment : Moment client history seen)
    (event : Event ι)
    : Moment client (history ++ [event]) seen :=
  ⟨moment.past.trans (List.prefix_append _ _), moment.wrote⟩

omit [DecidableEq ι] in
/-- A moment behind a request that comes behind an event is behind that event. -/
theorem Moment.behind {earlier listed seen : List (Event ι)} (moment : Moment client listed seen)
    (past : earlier ++ [event] <+: history) (within : listed <+: history)
    (later : .wrote client .listEmployees ∉ earlier)
    : earlier ++ [event] <+: seen := by
  rcases List.prefix_or_prefix_of_prefix past (moment.past.trans within) with before | behind
  · exact before
  · rcases List.prefix_concat_iff.mp behind with same | before
    · rw [same]
    · exact absurd (before.subset moment.wrote) later

/-- What has no effect on a client's requests and on its slot leaves it where it stands. -/
theorem Standing.keep (standing : Standing args records history client states session)
    (quiet : event.acceptedFor client = [])
    (same : ∀ slot, session.link = .accepted slot → states' slot = states slot)
    : Standing args records (history ++ [event]) client states' session := by
  have accepted : acceptedFor client (history ++ [event]) = acceptedFor client history := by
    rw [acceptedFor_snoc, quiet, List.append_nil]
  cases standing with
  | starting first => exact .starting (accepted.trans first)
  | queued first early =>
      refine .queued (accepted.trans first) (early.imp_right ?_)
      rintro ⟨phase, toServer, wrote⟩
      exact ⟨phase, toServer, List.mem_append_left _ wrote⟩
  | @calling routine slot connected due =>
      have slot := same slot rfl
      exact .calling (slot ▸ connected) (slot ▸ accepted ▸ due)
  | @sent routine slot connected due wrote =>
      have slot := same slot rfl
      exact .sent (slot ▸ connected) (slot ▸ accepted ▸ due) (List.mem_append_left _ wrote)
  | @answered routine slot toClient connected state answer =>
      have slot := same slot rfl
      refine .answered (slot ▸ connected) (slot ▸ state) ?_
      rw [slot]
      cases answer with
      | hello size success clear first => exact .hello size success clear (accepted.trans first)
      | add asked size decided => exact .add asked size (accepted.symm ▸ decided)
      | list moment announces => exact .list (moment.snoc event) announces
  | @listing header entries slot toClient seen connected moment announces split =>
      exact .listing (same slot rfl ▸ connected) (moment.snoc event) announces split
  | @leaving slot connected => exact .leaving (same slot rfl ▸ connected)
  | @closed slot connected => exact .closed (same slot rfl ▸ connected)
  | ended => exact .ended

-----------------------------------------------------------------------------------------
-- The client's own steps
-----------------------------------------------------------------------------------------

variable {link : Link} {toServer toClient rest : List (List UInt8)} {reply : List UInt8}

/-- A call writes its request. -/
theorem Standing.write {routine : Routine}
    (standing
      : Standing args records history client states ⟨.calling routine, link, toServer, toClient⟩)
    (wrote : .wrote client routine ∈ history)
    : Standing args records history client states
        ⟨.waiting routine, link, toServer ++ [routine.request], toClient⟩ := by
  cases standing with
  | queued first early =>
      rcases early with ⟨same, rfl⟩ | ⟨impossible, -⟩
      · cases same
        exact .queued first (Or.inr ⟨rfl, rfl, wrote⟩)
      · cases impossible
  | calling connected due => exact .sent connected due wrote

omit [DecidableEq ι] in
/-- The bytes of a read that delivers a message. -/
theorem delivers_bytes {size : Nat} {read : ReadOutcome size} (delivers : Delivers read reply)
    : read.bytes = reply := by
  obtain ⟨nonempty, fits, rfl⟩ := delivers
  rfl

/-- Behind `send_employee` the client lists or leaves. -/
private theorem standing_afterAdd {slot : Slot} (connected : (states slot).fd ≠ -1)
    (state : (states slot).state = .msg)
    : Standing args records history client states ⟨afterAdd args, .accepted slot, [], []⟩ := by
  rw [afterAdd]
  split_ifs
  · exact .calling connected (.list state)
  · exact .leaving connected

/-- `send_hello` succeeds, and the client goes on with its next call. -/
theorem Standing.hello {read : ReadOutcome buffSize}
    (standing
      : Standing args records history client states
          ⟨.waiting .sendHello, link, toServer, reply :: rest⟩)
    (delivers : Delivers read reply)
    : (sendHello read).status = .success
      ∧ Standing args records history client states
          ⟨afterCall args .sendHello (sendHello read).status, link, toServer, rest⟩ := by
  cases standing with
  | answered connected state answer =>
  cases answer with
  | hello size success clear first =>
  have succeeds : (sendHello read).status = .success := by
    rwa [sendHello_success_iff, delivers_bytes delivers]
  refine ⟨succeeds, ?_⟩
  rw [succeeds, afterCall, if_neg (by simp)]
  split
  · next employeeStr asked => exact .calling connected (.add asked state clear first)
  · exact standing_afterAdd connected state

/-- `send_employee` reports how its request was decided. -/
theorem Standing.add {employeeStr : List UInt8} {read : ReadOutcome buffSize}
    (standing
      : Standing args records history client states
          ⟨.waiting (.sendEmployee employeeStr), link, toServer, reply :: rest⟩)
    (delivers : Delivers read reply)
    : args.addArg = some employeeStr
      ∧ (((sendEmployee employeeStr read).status = .success
            ∧ acceptable (requestText employeeStr)
            ∧ acceptedFor client history = [requestText employeeStr])
          ∨ ((sendEmployee employeeStr read).status ≠ .success
            ∧ ¬ acceptable (requestText employeeStr)
            ∧ acceptedFor client history = []))
      ∧ Standing args records history client states
          ⟨afterCall args (.sendEmployee employeeStr) (sendEmployee employeeStr read).status, link,
            toServer, rest⟩ := by
  cases standing with
  | answered connected state answer =>
  cases answer with
  | add asked size decided =>
  have reports : (sendEmployee employeeStr read).status = .success ↔ ¬ StartsWithError reply := by
    rw [sendEmployee_success_iff, delivers_bytes delivers]
  refine ⟨asked, ?_, standing_afterAdd connected state⟩
  rcases decided with ⟨accepts, accepted, success⟩ | ⟨rejects, none, error⟩
  · exact Or.inl ⟨reports.mpr success, accepts, accepted⟩
  · exact Or.inr ⟨fun succeeds => reports.mp succeeds error, rejects, none⟩

/-- `list_employees` reads the header of its reply. -/
theorem Standing.header {read : ReadOutcome protoHeaderSize}
    (standing
      : Standing args records history client states
          ⟨.waiting .listEmployees, link, toServer, reply :: rest⟩)
    (delivers : Delivers read reply)
    : Standing args records history client states ⟨.listing read [], link, toServer, rest⟩ := by
  cases standing with
  | answered connected state answer =>
  cases answer with
  | list moment announces =>
  exact .listing connected moment (by rwa [delivers_bytes delivers]) rfl

/-- It reads one record after the other. -/
theorem Standing.entry {header : ReadOutcome protoHeaderSize}
    {entries : List (ReadOutcome employeeSize)} {read : ReadOutcome employeeSize}
    (standing
      : Standing args records history client states
          ⟨.listing header entries, link, toServer, reply :: rest⟩)
    (delivers : Delivers read reply)
    : Standing args records history client states
        ⟨.listing header (entries ++ [read]), link, toServer, rest⟩ := by
  cases standing with
  | listing connected moment announces split =>
  refine .listing connected moment announces ?_
  rw [← split, List.map_append, List.append_assoc]
  simp [delivers_bytes delivers]

/-- It returns when all announced records were read, and has printed the records of a moment. -/
theorem Standing.list {header : ReadOutcome protoHeaderSize}
    {entries : List (ReadOutcome employeeSize)}
    (standing
      : Standing args records history client states
          ⟨.listing header entries, link, toServer, toClient⟩)
    (all : entries.length = announced header)
    : (∃ seen,
        Moment client history seen
        ∧ (listEmployees header (entryReads entries)).status = .success
        ∧ (listEmployees header (entryReads entries)).printed
          = (stored records seen).map printedLine)
      ∧ Standing args records history client states
          ⟨afterCall args .listEmployees (listEmployees header (entryReads entries)).status, link,
            toServer, toClient⟩ := by
  cases standing with
  | queued first early => rcases early with ⟨impossible, -⟩ | ⟨impossible, -⟩ <;> cases impossible
  | @listing _ _ slot _ seen connected moment announces split =>
  rw [announced_of_header announces] at all
  have sizes := congrArg List.length split
  rw [List.length_append, List.length_map, List.length_map, all] at sizes
  obtain rfl := List.length_eq_zero_iff.mp (by omega : toClient.length = 0)
  rw [List.append_nil] at split
  obtain ⟨status, printed⟩ := listEmployees_of_header announces split
  exact ⟨⟨seen, moment, status, printed⟩, .leaving connected⟩

/-- The client closes its connection. -/
theorem Standing.close
    (standing
      : Standing args records history client states ⟨.leaving, link, toServer, toClient⟩)
    : Standing args records history client states ⟨.closed, link, toServer, toClient⟩ := by
  cases standing with
  | queued first early => rcases early with ⟨impossible, -⟩ | ⟨impossible, -⟩ <;> cases impossible
  | leaving connected => exact .closed connected

end LowlevelAcademy.Network
