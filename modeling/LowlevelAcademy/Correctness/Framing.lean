import LowlevelAcademy.Server.Progress
import LowlevelAcademy.Server.Responses

/-! Framing: the server takes every read for one message. Reads that begin with a whole message
are answered as if it had arrived alone; what follows it in the same read is lost.
-/

namespace LowlevelAcademy.Correctness

open LowlevelAcademy.Foundations
open LowlevelAcademy.Database
open LowlevelAcademy.Server

/-- The system calls with a given outcome of `read`. -/
def reading (env : Env) (chunk : Chunk) : Env where
  poll := env.poll
  accept := env.accept
  read := some chunk
  realloc := env.realloc
  writes := env.writes

/-- The server reads the chunks from the client in the slot, one in each turn and each with
system calls of its own. The result has everything that was written to the client, in order.
-/
def serveReads (dbfd nfds : Nat) (slot : Slot)
    : List (Env × Chunk) → World → Except Halt (World × List (List UInt8))
  | [], world => .ok (world, [])
  | (env, chunk) :: later, world =>
      match serveClient (reading env chunk) dbfd world nfds slot with
      | .error halt => .error halt
      | .ok (world, nfds, actions) =>
          match serveReads dbfd nfds slot later world with
          | .error halt => .error halt
          | .ok (last, replies) => .ok (last, repliesOf actions ++ replies)

/-- What the reads amount to: the final database and file, and the replies. -/
def outcome (result : World × List (List UInt8))
    : Db × OpenFile UInt8 × List (List UInt8) :=
  (result.1.db, result.1.file, result.2)

/-- A read that begins with a whole message. -/
structure Delivery where
  message : ClientMessage
  trailing : List UInt8
  fits : message.size + trailing.length ≤ buffSize

/-- The read itself. -/
def Delivery.chunk (delivery : Delivery) : Chunk where
  bytes := delivery.message.bytes ++ delivery.trailing
  nonempty := List.append_ne_nil_of_left_ne_nil delivery.message.chunk.nonempty _
  fits := by
    rw [List.length_append, ClientMessage.bytes_length]
    exact delivery.fits

/-- The reads of deliveries, and the reads of their messages alone, with the same system calls. -/
def deliveredReads (deliveries : List (Env × Delivery)) : List (Env × Chunk) :=
  deliveries.map fun delivery => (delivery.1, delivery.2.chunk)

def messageReads (deliveries : List (Env × Delivery)) : List (Env × Chunk) :=
  deliveries.map fun delivery => (delivery.1, delivery.2.message.chunk)

variable {env : Env} {dbfd : Nat} {slot : Slot} {left right : World}

/-- A read that begins with a message has the same response as the message alone, for clients
in the same state and with the same database and file. The padding of the reply is that of the
message.
-/
private theorem served_delivery {delivery : Delivery} {alone nfds' : Nat}
    (ended : delivery.message.Ended)
    (sameState : (left.clients slot).state = (right.clients slot).state)
    (sameDb : left.db = right.db) (sameFile : left.file = right.file)
    : (serveClient (reading env delivery.chunk) dbfd left alone slot).map (served slot)
      = (serveClient (reading env delivery.message.chunk) dbfd right nfds' slot).map
          (served slot) := by
  have size : 6 + 2 ≤ delivery.message.bytes.length := by
    rw [ClientMessage.bytes_length]
    exact delivery.message.size_bounds.1
  have padding (world : World) (chunk : Chunk) (trailing : List UInt8)
      (starts : chunk.bytes = delivery.message.bytes ++ trailing)
      : paddingOf ((world.receive slot chunk).message slot)
        = paddingOf delivery.message.bytes := by
    rw [World.receive_message, starts, List.append_assoc]
    exact slice_append size _
  have complete := ClientMessage.complete ended
  have whole := (List.append_nil delivery.message.bytes).symm
  rw [serveClient_complete alone rfl (show delivery.chunk.bytes = _ from rfl) (complete _),
    serveClient_complete nfds' rfl (show delivery.message.chunk.bytes = _ from whole) (complete _),
    padding _ _ _ rfl, padding _ _ _ whole, sameState, sameDb, sameFile]
  rfl

/-- Reads that begin with whole messages have the outcome of the messages, by induction on the
reads. The two worlds may differ in the buffers, and in other slots.
-/
private theorem outcome_deliveries (deliveries : List (Env × Delivery)) {nfds nfds' : Nat}
    (ended : ∀ delivery ∈ deliveries, delivery.2.message.Ended)
    (sameState : (left.clients slot).state = (right.clients slot).state)
    (sameDb : left.db = right.db) (sameFile : left.file = right.file)
    : (serveReads dbfd nfds slot (deliveredReads deliveries) left).map outcome
      = (serveReads dbfd nfds' slot (messageReads deliveries) right).map outcome := by
  induction deliveries generalizing left right nfds nfds' with
  | nil =>
      simp [deliveredReads, messageReads, serveReads, Except.map, outcome, sameDb, sameFile]
  | cons head later ih =>
      obtain ⟨env, delivery⟩ := head
      have first := @served_delivery env dbfd slot left right delivery nfds nfds'
        (ended (env, delivery) List.mem_cons_self) sameState sameDb sameFile
      simp only [deliveredReads, messageReads, List.map_cons, serveReads]
      cases resultLeft : serveClient (reading env delivery.chunk) dbfd left nfds slot with
      | error halt =>
          cases resultRight : serveClient (reading env delivery.message.chunk) dbfd right nfds'
              slot <;>
            simp_all [Except.map]
      | ok servedLeft =>
          cases resultRight : serveClient (reading env delivery.message.chunk) dbfd right nfds'
              slot with
          | error halt => simp_all [Except.map]
          | ok servedRight =>
              obtain ⟨nextLeft, nfdsLeft, actionsLeft⟩ := servedLeft
              obtain ⟨nextRight, nfdsRight, actionsRight⟩ := servedRight
              simp only [resultLeft, resultRight, Except.map, served, observe, Except.ok.injEq,
                Response.mk.injEq] at first
              obtain ⟨state, db, file, replies, -⟩ := first
              have rest := @ih nextLeft nextRight nfdsLeft nfdsRight
                (fun other member => ended other (List.mem_cons_of_mem _ member)) state db file
              simp only [replies]
              revert rest
              simp only [deliveredReads, messageReads]
              cases serveReads dbfd nfdsLeft slot
                  (later.map fun delivery => (delivery.1, delivery.2.chunk)) nextLeft <;>
                cases serveReads dbfd nfdsRight slot
                  (later.map fun delivery => (delivery.1, delivery.2.message.chunk)) nextRight <;>
                simp [Except.map, outcome]

/-- A new connection in the first slot of a server with an empty database. -/
def newConnection : World where
  clients := Function.update initClients 0 ⟨5, .hello, clearedBuffer⟩
  db := ⟨headerOf 0, some []⟩
  file := .opened []

/-- The hello and the list request of a client whose header padding is zero. -/
def sampleHello : ClientMessage := .hello (fit 2 nul []) protoVersion

def sampleList : ClientMessage := .list (fit 2 nul [])

/-- The hello and the list request in one read. -/
def coalesced : Delivery where
  message := sampleHello
  trailing := sampleList.bytes
  fits := by simp [sampleHello, sampleList, ClientMessage.size, buffSize]

/-- An add request with a list request behind it in the same read, and the system calls of a
turn in which every write fails.
-/
def sampleAdd : ClientMessage := .add (fit 2 nul []) (addData [97, 44, 98, 44, 49])

def coalescedAdd : Delivery where
  message := sampleAdd
  trailing := sampleList.bytes
  fits := by simp [sampleAdd, sampleList, ClientMessage.size, buffSize]

def unsavedEnv : Env where
  poll := none
  accept := -1
  read := none
  realloc := some fun _ => employeeOf []
  writes := fun _ => .failed

private theorem sampleAdd_ended : sampleAdd.Ended :=
  Or.inl (cString_addData (show nul ∉ [97, 44, 98, 44, 49] by decide) (by decide)).1

/-- Every sequence of reads that each begin with a whole message, whose add data ends inside
its 1024 bytes, has the same outcome as the messages delivered each in a read of its own,
whatever the allocator and the writes do in each turn.
-/
theorem framing_of_deliveries (dbfd nfds : Nat) (slot : Slot) (world : World)
    (deliveries : List (Env × Delivery))
    (ended : ∀ delivery ∈ deliveries, delivery.2.message.Ended)
    : (serveReads dbfd nfds slot (deliveredReads deliveries) world).map outcome
      = (serveReads dbfd nfds slot (messageReads deliveries) world).map outcome :=
  outcome_deliveries deliveries ended rfl rfl rfl

/-- A hello and an add request, each with a list request behind it, have the outcome of both
alone, also when nothing of the save is written.
-/
theorem framing_of_coalesced
    : coalesced.message.Ended
      ∧ coalescedAdd.message.Ended
      ∧ (serveReads 3 2 0
            [(clientEnv none none, coalesced.chunk), (unsavedEnv, coalescedAdd.chunk)]
            newConnection).map outcome
        = (serveReads 3 2 0
            [(clientEnv none none, sampleHello.chunk), (unsavedEnv, sampleAdd.chunk)]
            newConnection).map outcome := by
  refine ⟨trivial, sampleAdd_ended, ?_⟩
  refine framing_of_deliveries 3 2 0 newConnection
    [(clientEnv none none, coalesced), (unsavedEnv, coalescedAdd)] ?_
  intro delivery member
  simp only [List.mem_cons, List.not_mem_nil, or_false] at member
  rcases member with rfl | rfl
  · trivial
  · exact sampleAdd_ended

-----------------------------------------------------------------------------------------
-- Cuts that change the outcome
-----------------------------------------------------------------------------------------

/-- What is written to a client for a sequence of reads. -/
def repliesTo (dbfd nfds : Nat) (slot : Slot) (reads : List (Env × Chunk)) (world : World)
    : Except Halt (List (List UInt8)) :=
  (serveReads dbfd nfds slot reads world).map Prod.snd

/-- What a read is responded with is the first part of the replies. -/
private theorem repliesTo_cons {env : Env} {dbfd nfds : Nat} {slot : Slot} {world : World}
    {chunk : Chunk} {response : Response}
    (responded
      : (serveClient (reading env chunk) dbfd world nfds slot).map (served slot) = .ok response)
    (later : List (Env × Chunk))
    : ∃ next nfds',
        (next.clients slot).state = response.state
        ∧ next.db = response.db
        ∧ repliesTo dbfd nfds slot ((env, chunk) :: later) world
          = (repliesTo dbfd nfds' slot later next).map (response.replies ++ ·) := by
  cases result : serveClient (reading env chunk) dbfd world nfds slot with
  | error halt => simp [result, Except.map] at responded
  | ok done =>
      obtain ⟨next, nfds', actions⟩ := done
      obtain rfl := Except.ok.inj (by simpa only [result, Except.map] using responded)
      refine ⟨next, nfds', rfl, rfl, ?_⟩
      simp only [repliesTo, serveReads, result]
      cases serveReads dbfd nfds' slot later next <;> rfl

/-- A hello in a read of its own is answered once. -/
private theorem served_hello
    : ∃ reply,
        (serveClient (reading (clientEnv none none) sampleHello.chunk) 3 newConnection 2 0).map
            (served 0)
          = .ok ⟨.msg, ⟨headerOf 0, some []⟩, .opened [], [reply], []⟩ := by
  have state : (newConnection.clients 0).state = .hello := by simp [newConnection]
  have asked : requestOf .hello sampleHello.chunk.bytes = .greeting := by
    have greets := (greets_message sampleHello []).mpr ⟨_, rfl⟩
    rw [List.append_nil] at greets
    exact requestOf_greeting greets
  have complete : Complete (newConnection.clients 0).state sampleHello.bytes :=
    ClientMessage.complete (show sampleHello.Ended from trivial) _
  rw [@serveClient_complete _ _ 3 newConnection 0 sampleHello.chunk [] 2 rfl
    (List.append_nil _).symm complete, state, asked]
  exact ⟨_, rfl⟩

/-- In `STATE_HELLO` a read that is no hello is answered once, and the client stays there. -/
private theorem served_refused {world : World} {nfds : Nat} {chunk : Chunk}
    (asked : (world.receive 0 chunk).request 0 = .refused)
    : ∃ reply,
        (serveClient (reading (clientEnv none none) chunk) 3 world nfds 0).map (served 0)
          = .ok ⟨.hello, world.db, world.file, [reply], []⟩ := by
  rw [serveClient_respond nfds rfl (by rw [asked]; rintro ⟨⟩), asked]
  exact ⟨_, rfl⟩

/-- In `STATE_MSG` a list request on an empty database is answered once. -/
private theorem served_list {world : World} {nfds : Nat}
    (state : (world.clients 0).state = .msg) (empty : world.db = ⟨headerOf 0, some []⟩)
    : ∃ reply,
        (serveClient (reading (clientEnv none none) sampleList.chunk) 3 world nfds 0).map
            (served 0)
          = .ok ⟨.msg, world.db, world.file, [reply], []⟩ := by
  have asked : requestOf .msg sampleList.chunk.bytes = .list := by
    have lists := requestOf_msg sampleList []
    rwa [List.append_nil] at lists
  have complete : Complete (world.clients 0).state sampleList.bytes :=
    ClientMessage.complete (show sampleList.Ended from trivial) _
  rw [@serveClient_complete _ _ 3 world 0 sampleList.chunk [] nfds rfl
    (List.append_nil _).symm complete, state, asked, empty]
  exact ⟨_, rfl⟩

/-- The first six bytes of the hello, and the last four. -/
def helloFront : Chunk where
  bytes := [0, 0, 0, 1, 0, 1]
  nonempty := by simp
  fits := by simp [buffSize]

def helloBack : Chunk where
  bytes := [0, 0, 0, 100]
  nonempty := by simp
  fits := by simp [buffSize]

/-- The replies to the client of a new connection. -/
def newReplies (reads : List Chunk) : Except Halt (List (List UInt8)) :=
  repliesTo 3 2 0 (reads.map fun chunk => (clientEnv none none, chunk)) newConnection

/-- A hello in a read of its own has one reply. -/
private theorem newReplies_hello : ∃ reply, newReplies [sampleHello.chunk] = .ok [reply] := by
  obtain ⟨reply, responded⟩ := served_hello
  obtain ⟨_, _, -, -, replies⟩ := repliesTo_cons responded []
  exact ⟨reply, replies⟩

/-- A hello and a list request in reads of their own have two. -/
private theorem newReplies_whole
    : ∃ first second,
        newReplies [sampleHello.chunk, sampleList.chunk] = .ok [first, second] := by
  obtain ⟨first, greeted⟩ := served_hello
  obtain ⟨next, nfds, state, db, replies⟩ := repliesTo_cons greeted
    [(clientEnv none none, sampleList.chunk)]
  obtain ⟨second, listed⟩ := @served_list next nfds state db
  obtain ⟨_, _, -, -, more⟩ := repliesTo_cons listed []
  rw [more] at replies
  exact ⟨first, second, replies⟩

/-- Both in one read have one reply, as if the hello had come alone. -/
private theorem newReplies_coalesced : ∃ reply, newReplies [coalesced.chunk] = .ok [reply] := by
  obtain ⟨reply, alone⟩ := newReplies_hello
  have same := congrArg (Except.map fun seen => seen.2.2)
    (@outcome_deliveries 3 0 newConnection newConnection [(clientEnv none none, coalesced)] 2 2
      (fun _ member => by rw [List.mem_singleton.mp member]; trivial) rfl rfl rfl)
  have replies (result : Except Halt (World × List (List UInt8)))
      : (result.map outcome).map (fun seen => seen.2.2) = result.map Prod.snd := by
    cases result <;> rfl
  rw [replies, replies] at same
  exact ⟨reply, same.trans alone⟩

/-- Neither part of the hello lets the client in: the buffer has no version behind the first
part, and the second part decodes to another type.
-/
private theorem front_refused
    : (newConnection.receive 0 helloFront).request 0 = .refused := by
  have message : (newConnection.receive 0 helloFront).message 0
      = [0, 0, 0, 1, 0, 1, 0, 0, 0, 0] ++ List.replicate 4086 0 := by
    have cleared : (newConnection.clients 0).buffer = clearedBuffer := by simp [newConnection]
    rw [World.receive_message, World.message, cleared, clearedBuffer,
      fit_toList_of_le (Nat.zero_le _), List.nil_append, List.drop_replicate]
    rfl
  have version : wireProto [0, 0, 0, 1, 0, 1, 0, 0, 0, 0] ≠ protoVersion := by decide
  have state : (newConnection.clients 0).state = .hello := by simp [newConnection]
  rw [World.request, World.receive_state, message, state]
  refine requestOf_refused fun greets => version ?_
  rw [← greets.2.2, wireProto_append (by decide)]

private theorem back_refused {world : World} (state : (world.clients 0).state = .hello)
    : (world.receive 0 helloBack).request 0 = .refused := by
  have type : wireType helloBack.bytes ≠ MsgType.helloReq.code := by decide
  rw [World.request, World.receive_state, World.receive_message, state]
  refine requestOf_refused fun greets => type ?_
  rw [← greets.1, wireType_append (by decide)]

/-- The hello in two reads has two replies. -/
private theorem newReplies_split
    : ∃ first second, newReplies [helloFront, helloBack] = .ok [first, second] := by
  obtain ⟨first, refused⟩ := @served_refused newConnection 2 helloFront front_refused
  obtain ⟨next, nfds, state, -, replies⟩ := repliesTo_cons refused
    [(clientEnv none none, helloBack)]
  obtain ⟨second, again⟩ := @served_refused next nfds helloBack (back_refused state)
  obtain ⟨_, _, -, -, more⟩ := repliesTo_cons again []
  rw [more] at replies
  exact ⟨first, second, replies⟩

/-- How the stream is cut changes the replies: a list request that arrives together with the
hello is not answered, and a hello that arrives in two reads is refused twice.
-/
theorem framing_depends_on_cut
    : coalesced.chunk.bytes = sampleHello.bytes ++ sampleList.bytes
      ∧ newReplies [coalesced.chunk] ≠ newReplies [sampleHello.chunk, sampleList.chunk]
      ∧ helloFront.bytes ++ helloBack.bytes = sampleHello.bytes
      ∧ newReplies [helloFront, helloBack] ≠ newReplies [sampleHello.chunk] := by
  obtain ⟨_, hello⟩ := newReplies_hello
  obtain ⟨_, _, whole⟩ := newReplies_whole
  obtain ⟨_, joined⟩ := newReplies_coalesced
  obtain ⟨_, _, split⟩ := newReplies_split
  refine ⟨rfl, ?_, by decide, ?_⟩
  · rw [joined, whole]
    simp
  · rw [split, hello]
    simp

end LowlevelAcademy.Correctness
