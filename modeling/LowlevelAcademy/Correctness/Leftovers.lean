import LowlevelAcademy.Server.Progress
import LowlevelAcademy.Server.Responses

/-! Bytes left in a client's buffer: a read that contains all the bytes of its request has the
same effect whatever was in the buffer before, and a shorter one can take up leftover bytes.
-/

namespace LowlevelAcademy.Correctness

open LowlevelAcademy.Foundations
open LowlevelAcademy.Database
open LowlevelAcademy.Server

variable {dbfd : Nat} {left right : State} {slot slot' : Slot} {chunk : Chunk}

/-- Receiving the data has the same effect for a client in one state of the server and for a
client in another: on their states, the database, the fields of the reply and what is written
to the file. If the files agree before, they agree after it.
-/
def SameEffect (dbfd : Nat) (left right : State) (slot slot' : Slot) (chunk : Chunk)
    : Prop :=
  ∀ env env' : Env,
    env.read = some chunk
    → env'.read = some chunk
    → env.realloc = env'.realloc
    → env.writes = env'.writes
    → (serveClient env dbfd left.world left.nfds slot).map (Response.effect ∘ served slot)
        = (serveClient env' dbfd right.world right.nfds slot').map
            (Response.effect ∘ served slot')
      ∧ (left.world.file = right.world.file
        → (serveClient env dbfd left.world left.nfds slot).map (Response.file ∘ served slot)
          = (serveClient env' dbfd right.world right.nfds slot').map
              (Response.file ∘ served slot'))

/-- A result seen through two views. -/
private theorem map_map {ε α β γ : Type} (result : Except ε α) (first : α → β)
    (second : β → γ)
    : result.map (second ∘ first) = (result.map first).map second := by
  cases result <;> rfl

/-- In any two states of the server with the same database, and for clients in the same state,
a read that contains every byte of its request has the same effect. What earlier messages and
replies left in the buffers does not matter.
-/
theorem effect_of_read (sameDb : left.world.db = right.world.db)
    (sameState : (left.world.clients slot).state = (right.world.clients slot').state)
    (complete : Complete (left.world.clients slot).state chunk.bytes)
    : SameEffect dbfd left right slot slot' chunk := by
  intro env env' received received' sameRealloc sameWrites
  have completeRight : Complete (right.world.clients slot').state chunk.bytes :=
    sameState ▸ complete
  have sameRespond (state : StateE) (db : Db) (file : OpenFile UInt8) (request : Request)
      (string padding : List UInt8)
      : respond env dbfd state db file request string padding
        = respond env' dbfd state db file request string padding := by
    simp only [respond, sameRealloc, sameWrites]
  have padding (world : World) (client : Slot)
      : (paddingOf (world.message client)).length = 2 := by
    simp [buffSize]
  have whole := (List.append_nil chunk.bytes).symm
  simp only [map_map, serveClient_complete _ received whole complete,
    serveClient_complete _ received' whole completeRight, sameDb, sameState, sameRespond]
  exact ⟨respond_effect env' dbfd _ _ _ _ _ _ (padding _ _) (padding _ _), fun sameFile => by
    rw [sameFile, respond_file]⟩

-----------------------------------------------------------------------------------------
-- A request that takes up leftover bytes
-----------------------------------------------------------------------------------------

/-- An add string that ends is accepted or not by its fields, and the reply says which. -/
private theorem respond_add_fields (env : Env) (dbfd : Nat) (state : StateE) {db : Db}
    (file : OpenFile UInt8) {contents : Nat → Employee} (available : env.realloc = some contents)
    {records : List Employee} (holds : db.Holds records) (room : records.length < 65535)
    {request : List UInt8} (clean : nul ∉ request) (rest : List UInt8) {padding : List UInt8}
    (size : padding.length = 2)
    : ∃ response,
        respond env dbfd state db file .add (request ++ nul :: rest) padding = .ok response
        ∧ replyFields response.replies
          = [wireHeader
              (if acceptable request then MsgType.employeeAddResp.code else MsgType.error.code)
              0] := by
  have fields (type : UInt32)
      : replyFields [wireHeader type 0 ++ padding] = [wireHeader type 0] := by
    have bare := replyFields_header size type 0 [] []
    rwa [List.append_nil, List.append_nil] at bare
  obtain ⟨edited, -, scanned⟩ := addEmployee_terminated env.realloc db clean rest
  rw [available, addResult] at scanned
  simp only [respond, available, scanned]
  split_ifs
  · obtain ⟨after, appended⟩ := appendEmployee_ok contents (employeeOf request) holds room
    obtain ⟨saved, saving, -⟩ := outputFile_ok env.writes (Int.natCast_nonneg dbfd) file
      (appendEmployee_holds holds appended).1
    simp only [appended, saving]
    exact ⟨_, rfl, fields _⟩
  · exact ⟨_, rfl, fields _⟩

/-- A message of a type that the server does not handle, with a payload. -/
def unknownMessage (payload : List UInt8)
    (fits : payload.length ≤ buffSize - protoHeaderSize)
    : Chunk :=
  headed .employeeDelReq 0 payload fits

/-- The header of an add request without its data. -/
def addHeader : Chunk := headed .employeeAddReq 1 [] (Nat.zero_le _)

/-- A first client of an empty database can greet and send an ignored message, whose payload
then lies behind the header in its buffer.
-/
private theorem payload_run (payload : List UInt8)
    (fits : payload.length ≤ buffSize - protoHeaderSize)
    : ∃ history server rest,
        Run (Step 3 Orderly) (startServer ⟨headerOf 0, some []⟩ (.opened []) 4) history server
        ∧ server.world.db = ⟨headerOf 0, some []⟩
        ∧ server.world.file = .opened []
        ∧ (server.world.clients 0).state = .msg
        ∧ addString (server.world.message 0) = payload ++ rest := by
  obtain ⟨buffer, fds1, history1, run1, -⟩ := first_client_run 3 ⟨headerOf 0, some []⟩
    (.opened []) 4 (show (5 : Int32) ≠ -1 by decide)
  have consistent := (startServer_consistent ⟨headerOf 0, some []⟩ (.opened []) 4).run_orderly run1
  let chunk := unknownMessage payload fits
  let world : World :=
    ⟨Function.update initClients 0 ⟨5, .msg, buffer⟩, ⟨headerOf 0, some []⟩, .opened []⟩
  have state : (world.clients 0).state = .msg := by simp [world]
  have connected : (world.clients 0).fd ≠ -1 := by simp only [world, Function.update_self]; decide
  have asked : (world.receive 0 chunk).request 0 = .ignored := by
    rw [World.receive_request, state]
    simp only [requestOf, chunk, unknownMessage, wireType_headed]
    rw [if_neg fun both => absurd both.1 (by decide), if_neg (by decide)]
  have handled := handleClientFsm_ignored (clientEnv (some chunk) none) 3 _ 0 asked
  obtain ⟨fds2, history2, run2, -⟩ := consistent.serve_run 3 rfl connected
    (by rintro _ ⟨⟩ add; exact absurd (asked.symm.trans add) (by decide))
    (serveClient_handled handled)
  refine ⟨_, _, (world.message 0).drop chunk.bytes.length, run1.append run2, rfl, rfl, ?_, ?_⟩
  · simp only [World.setClient, Function.update_self]
    exact ((world.receive_state 0 chunk).trans state)
  · simp only [World.message, World.setClient, Function.update_self]
    rw [addString, Buffer.swapHeader_drop _ (by decide)]
    change addString ((world.receive 0 chunk).message 0) = _
    rw [World.receive_message]
    exact addString_headed _

/-- After different ignored messages a list request has the same effect for two clients. -/
theorem effect_of_list
    : ∃ history history' left right,
        Run (Step 3 Orderly) (startServer ⟨headerOf 0, some []⟩ (.opened []) 4) history left
        ∧ Run (Step 3 Orderly) (startServer ⟨headerOf 0, some []⟩ (.opened []) 4) history' right
        ∧ addString (left.world.message 0) ≠ addString (right.world.message 0)
        ∧ SameEffect 3 left right 0 0 (ClientMessage.list (clearedBuffer.take 2)).chunk := by
  obtain ⟨history, left, rest, run, db, -, state, payload⟩ :=
    payload_run [97, 44, 98, 44, 49, 0] (by decide)
  obtain ⟨history', right, rest', run', db', -, state', payload'⟩ := payload_run [0] (by decide)
  refine ⟨history, history', left, right, run, run', by simp [payload, payload'], ?_⟩
  exact effect_of_read (db.trans db'.symm) (state.trans state'.symm)
    (ClientMessage.complete (show (ClientMessage.list _).Ended from trivial) _)

/-- A header alone of an add request takes the add string from the buffer. -/
private theorem addHeader_received {world : World} {slot : Slot}
    (state : (world.clients slot).state = .msg)
    : (world.receive slot addHeader).request slot = .add
      ∧ addString ((world.receive slot addHeader).message slot)
        = addString (world.message slot) := by
  constructor
  · rw [World.receive_request, state]
    simp only [requestOf, addHeader, wireType_headed, wireLength_headed, and_self, if_true]
  · have size : addHeader.bytes.length = protoHeaderSize := by simp [addHeader, headed]
    rw [World.receive_message, addHeader, addString_headed, ← addHeader, size]
    rfl

/-- After different ignored messages the same eight bytes add a record for one client and are
rejected for the other, although everything but the buffers agrees.
-/
theorem effect_of_leftovers
    : ∃ history history' left right,
        Run (Step 3 Orderly) (startServer ⟨headerOf 0, some []⟩ (.opened []) 4) history left
        ∧ Run (Step 3 Orderly) (startServer ⟨headerOf 0, some []⟩ (.opened []) 4) history' right
        ∧ left.world.db = right.world.db
        ∧ left.world.file = right.world.file
        ∧ (left.world.clients 0).state = (right.world.clients 0).state
        ∧ ¬ SameEffect 3 left right 0 0 addHeader := by
  obtain ⟨history, left, rest, run, db, file, state, payload⟩ :=
    payload_run [97, 44, 98, 44, 49, 0] (by decide)
  obtain ⟨history', right, rest', run', db', file', state', payload'⟩ := payload_run [0] (by decide)
  refine ⟨history, history', left, right, run, run', by rw [db, db'], by rw [file, file'],
    by rw [state, state'], fun same => ?_⟩
  let env := clientEnv (some addHeader) (some fun _ => employeeOf [])
  have holds : Db.Holds ⟨headerOf 0, some []⟩ [] := ⟨rfl, rfl⟩
  -- what each client is answered depends on the payload that its buffer still holds
  have answer {server : State} {request rest : List UInt8} (clean : nul ∉ request)
      (state : (server.world.clients 0).state = .msg)
      (db : server.world.db = ⟨headerOf 0, some []⟩)
      (payload : addString (server.world.message 0) = request ++ nul :: rest)
      : ∃ response,
          (serveClient env 3 server.world server.nfds 0).map (served 0) = .ok response
          ∧ replyFields response.replies
            = [wireHeader
                (if acceptable request then MsgType.employeeAddResp.code else MsgType.error.code)
                0] := by
    obtain ⟨asked, string⟩ := addHeader_received state
    rw [serveClient_respond server.nfds rfl fun _ => by
      rw [string, payload]
      exact Or.inl (by simp), asked, string, payload, db]
    exact respond_add_fields env 3 _ _ rfl holds (by decide) clean rest (by simp [buffSize])
  obtain ⟨accepted, result, fields⟩ := answer (show nul ∉ [97, 44, 98, 44, 49] by decide) state db
    payload
  obtain ⟨rejected, result', fields'⟩ := answer (List.not_mem_nil (a := nul)) state' db' payload'
  have effects := (same env env rfl rfl rfl rfl).1
  rw [map_map, map_map, result, result'] at effects
  have sameFields := congrArg Effect.fields (Except.ok.inj effects)
  simp only [Response.effect, fields, fields'] at sameFields
  exact absurd sameFields (by decide)

end LowlevelAcademy.Correctness
