import LowlevelAcademy.Database.Adding

/-! The table of client slots. The slots lie one after the other in memory, so a string scan
that runs past one client's buffer continues in the next slot.
-/

namespace LowlevelAcademy.Server

open LowlevelAcademy.Foundations
open LowlevelAcademy.Database

/-- `MAX_CLIENTS` -/
abbrev maxClients : Nat := 256

/-- `BUFF_SIZE` -/
abbrev buffSize : Nat := 4096

/-- `state_e` -/
inductive StateE where
  | new
  | connected
  | disconnected
  | hello
  | msg
  | goodbye
  deriving DecidableEq

/-- The value of an enumerator of `state_e`. -/
def StateE.code : StateE → UInt32
  | .new => 0
  | .connected => 1
  | .disconnected => 2
  | .hello => 3
  | .msg => 4
  | .goodbye => 5

/-- The enumerator with a value. Other values compare equal to no enumerator that the server
tests for; they read as `STATE_GOODBYE`, which it never tests for either.
-/
def StateE.ofCode (code : UInt32) : StateE :=
  if code = 0 then .new
  else if code = 1 then .connected
  else if code = 2 then .disconnected
  else if code = 3 then .hello
  else if code = 4 then .msg
  else .goodbye

/-- The buffer of a client. -/
abbrev Buffer := Bytes buffSize

/-- A buffer that `memset` has cleared. -/
def clearedBuffer : Buffer := fit buffSize nul []

/-- `clientstate_t`; a free slot has descriptor -1. -/
structure ClientState where
  fd : Int32
  state : StateE
  buffer : Buffer
  deriving DecidableEq

/-- `sizeof(clientstate_t)` -/
abbrev clientSize : Nat := 4104

/-- A valid index into `client_states`. -/
abbrev Slot := Fin maxClients

/-- `client_states` -/
abbrev Clients := Slot → ClientState

/-- `init_clients` -/
def initClients : Clients := fun _ => { fd := -1, state := .new, buffer := clearedBuffer }

/-- `find_free_slot`; no slot stands for the result -1. -/
def findFreeSlot (states : Clients) : Option Slot :=
  (List.finRange maxClients).find? fun slot => (states slot).fd = -1

/-- `find_slot_by_fd`; no slot stands for the result -1. -/
def findSlotByFd (states : Clients) (fd : Int32) : Option Slot :=
  (List.finRange maxClients).find? fun slot => (states slot).fd = fd

@[simp] theorem StateE.ofCode_code (state : StateE) : StateE.ofCode state.code = state := by
  cases state <;> rfl

/-- A free slot that was found is free. -/
theorem findFreeSlot_some {states : Clients} {slot : Slot}
    (found : findFreeSlot states = some slot)
    : (states slot).fd = -1 := by
  simpa using List.find?_some found

/-- The first free slot is the one that is found. -/
theorem findFreeSlot_first {states : Clients} {slot : Slot} (free : (states slot).fd = -1)
    (busy : ∀ other < slot, (states other).fd ≠ -1)
    : findFreeSlot states = some slot := by
  rw [findFreeSlot, List.find?_eq_some_iff_getElem]
  refine ⟨by simpa using free, slot, by simp, by simp, fun i before => ?_⟩
  simpa using busy _ (by simpa [Fin.lt_def] using before)

/-- The slot that was found has the descriptor. -/
theorem findSlotByFd_some {states : Clients} {fd : Int32} {slot : Slot}
    (found : findSlotByFd states fd = some slot)
    : (states slot).fd = fd := by
  simpa using List.find?_some found

/-- A descriptor that only one slot has is found at that slot. -/
theorem findSlotByFd_unique {states : Clients} {slot : Slot}
    (unique : ∀ other, (states other).fd = (states slot).fd → other = slot)
    : findSlotByFd states (states slot).fd = some slot := by
  cases found : findSlotByFd states (states slot).fd with
  | none =>
      simp only [findSlotByFd, List.find?_eq_none] at found
      exact absurd (by simp) (found slot (List.mem_finRange slot))
  | some other => rw [unique other (findSlotByFd_some found)]

-----------------------------------------------------------------------------------------
-- The memory behind a position in a client's buffer
-----------------------------------------------------------------------------------------

/-- The bytes of a client slot as the host stores it. -/
def ClientState.toBytes (client : ClientState) : List UInt8 :=
  leBytes 4 client.fd.toUInt32.toNat ++ leBytes 4 client.state.code.toNat
    ++ client.buffer.toList

/-- The client slot that the host sees in 4104 stored bytes. -/
def ClientState.ofBytes (bytes : List UInt8) : ClientState where
  fd := (load32 bytes).toInt32
  state := .ofCode (load32 (bytes.drop 4))
  buffer := fit buffSize nul (bytes.drop 8)

@[simp] theorem ClientState.toBytes_length (client : ClientState)
    : client.toBytes.length = clientSize := by
  simp [ClientState.toBytes, buffSize]

@[simp] theorem ClientState.ofBytes_toBytes (client : ClientState)
    : ClientState.ofBytes client.toBytes = client := by
  have state : client.toBytes.drop 4
      = leBytes 4 client.state.code.toNat ++ client.buffer.toList := by
    rw [ClientState.toBytes, List.append_assoc]
    exact List.drop_left' (leBytes_length 4 _)
  have buffer : client.toBytes.drop 8 = client.buffer.toList := by
    rw [← List.drop_drop (i := 4) (j := 4), state]
    exact List.drop_left' (leBytes_length 4 _)
  rw [ClientState.ofBytes, buffer, state, ClientState.toBytes, List.append_assoc]
  simp only [load32_leBytes_append, Int32.toInt32_toUInt32, StateE.ofCode_code, fit_toList]

/-- The memory of the slots behind `slot`. -/
def Clients.following (states : Clients) (slot : Slot) : List UInt8 :=
  ((List.finRange maxClients).drop (slot + 1)).flatMap fun other => (states other).toBytes

/-- The memory from `&client_states[slot].buffer[offset]` to the end of the table. -/
def Clients.memoryFrom (states : Clients) (slot : Slot) (offset : Nat) : List UInt8 :=
  (states slot).buffer.toList.drop offset ++ states.following slot

/-- The table after the memory from `&client_states[slot].buffer[offset]` was changed. -/
def Clients.storeFrom (states : Clients) (slot : Slot) (offset : Nat) (memory : List UInt8)
    : Clients := fun other =>
  if other < slot then states other
  else if other = slot then
    let buffer := (states slot).buffer.toList.take offset ++ memory
    { states slot with buffer := fit buffSize nul buffer }
  else
    let start := (buffSize - offset) + (other - slot - 1) * clientSize
    .ofBytes (slice start clientSize memory)

/-- The slots behind `slot` are found in their memory. -/
theorem Clients.ofBytes_following (states : Clients) {slot other : Slot}
    (behind : slot < other)
    : ClientState.ofBytes
        (slice ((other - slot - 1) * clientSize) clientSize (states.following slot))
      = states other := by
  have place : ((other : Nat) - slot - 1)
      < ((List.finRange maxClients).drop (slot + 1)).length := by
    have order : (slot : Nat) < other := behind
    have bound := other.isLt
    simp only [maxClients] at bound
    simp only [List.length_drop, List.length_finRange, maxClients]
    omega
  have found : ((List.finRange maxClients).drop (slot + 1))[(other : Nat) - slot - 1]
      = other := by
    have index : (slot : Nat) + 1 + (other - slot - 1) = other := by
      have order : (slot : Nat) < other := behind
      omega
    simp [index]
  rw [Clients.following,
    slice_flatMap (fun client => (states client).toBytes_length) _ _ place, found,
    ClientState.ofBytes_toBytes]

/-- The slots behind `slot` do not include it. -/
theorem Clients.following_update (states : Clients) (slot : Slot) (client : ClientState)
    : Clients.following (Function.update states slot client) slot = states.following slot := by
  refine List.flatMap_congr fun other member => ?_
  have differs : other ≠ slot := by
    rintro rfl
    obtain ⟨i, inside, found⟩ := List.mem_iff_getElem.mp member
    have index := congrArg Fin.val found
    simp only [List.getElem_drop, List.getElem_finRange, Fin.cast_mk] at index
    omega
  rw [Function.update_of_ne differs]

/-- Changing only a client's own part of the memory changes only its own buffer. -/
theorem Clients.storeFrom_own (states : Clients) (slot : Slot) {offset : Nat}
    {own : List UInt8} (size : own.length = buffSize - offset)
    : states.storeFrom slot offset (own ++ states.following slot)
      = Function.update states slot
          { states slot with
            buffer := fit buffSize nul ((states slot).buffer.toList.take offset ++ own) } := by
  funext other
  rw [Clients.storeFrom]
  split_ifs with before same
  · rw [Function.update_of_ne (ne_of_lt before)]
  · have whole : buffSize
        ≤ ((states slot).buffer.toList.take offset ++ own).length := by
      simp only [List.length_append, List.length_take, List.Vector.toList_length, size]
      omega
    subst same
    simp only [Function.update_self, ← List.append_assoc, fit_append_of_le whole]
  · have behind : slot < other := lt_of_le_of_ne (not_lt.mp before) (Ne.symm same)
    rw [Function.update_of_ne same, ← states.ofBytes_following behind]
    simp only [slice, ← size, ← List.drop_drop, List.drop_left]

end LowlevelAcademy.Server
