import LowlevelAcademy.Foundations.Descriptors
import LowlevelAcademy.Server.Consistency

/-! The open descriptors of the server process: what each step does with them, and that it is
always possible.
-/

namespace LowlevelAcademy.Server

open LowlevelAcademy.Foundations

/-- What an action does with the descriptors of the clients and of the database file. A refused
connection is closed at once.
-/
def Action.uses (dbfd : Nat) (clients : Clients) : Action → List (DescriptorUse Int32)
  | .accepted _ fd => [.opens fd]
  | .refused fd => [.opens fd, .closes fd]
  | .disconnected slot => [.reads (clients slot).fd, .closes (clients slot).fd]
  | .handled slot _ _ => [.reads (clients slot).fd]
  | .added _ _ _ => []
  | .sent slot _ => [.writes (clients slot).fd]
  | .saved _ _ => [.writes (Int32.ofNat dbfd)]

/-- `accept` fails or returns a descriptor that the process has not open. -/
def KernelAccepts (opened : Finset Int32) (env : Env) : Prop :=
  env.accept = -1 ∨ env.accept ∉ opened

/-- A step of the server with its effect on the open descriptors. -/
def DescriptorStep (dbfd : Nat) (process : State × Finset Int32) (actions : List Action)
    (next : State × Finset Int32)
    : Prop :=
  ∃ env,
    KernelAccepts process.2 env
    ∧ PolledPollin process.1 env
    ∧ EndedAdds process.1 env
    ∧ pollLoopStep env dbfd process.1 = .ok (next.1, actions)
    ∧ applyUses process.2 (actions.flatMap (Action.uses dbfd process.1.world.clients))
      = some next.2

/-- The descriptor in each slot of the table. -/
def Clients.fds (states : Clients) (slot : Slot) : Int32 := (states slot).fd

/-- The invariant: the server is consistent, and its table balances with what is open. -/
structure Balanced (base : Finset Int32) (process : State × Finset Int32) : Prop where
  consistent : process.1.Consistent
  balance : Balance (-1) base process.1.world.clients.fds process.2

variable {states states' : Clients} {slot : Slot} {fd : Int32} {base opened : Finset Int32}

/-- The descriptors after a client was replaced. -/
theorem Clients.fds_update (states : Clients) (slot : Slot) (client : ClientState)
    : Clients.fds (Function.update states slot client)
      = Function.update states.fds slot client.fd :=
  funext fun other => Function.apply_update (fun _ => ClientState.fd) states slot client other

-----------------------------------------------------------------------------------------
-- Every step keeps the balance
-----------------------------------------------------------------------------------------

variable {env : Env} {dbfd : Nat} {server next : State} {actions : List Action}

/-- The uses of a step that handles a message are on its client's descriptor and on the database
file.
-/
theorem Handled.uses_kept {world after : World} {later : List Action}
    (handled : Handled env dbfd world slot after later) (own : (states slot).fd ∈ opened)
    (file : Int32.ofNat dbfd ∈ opened)
    : ∀ use ∈ later.flatMap (Action.uses dbfd states), use.apply opened = some opened := by
  intro use member
  obtain ⟨action, inside, uses⟩ := List.mem_flatMap.mp member
  rcases handled.own action inside with ⟨request, status, rfl⟩ | ⟨bytes, rfl⟩ | ⟨written, rfl⟩
  · cases uses
  · obtain rfl := List.mem_singleton.mp uses
    exact if_pos own
  · obtain rfl := List.mem_singleton.mp uses
    exact if_pos file

/-- What `accept` returns is not open, whether or not it is a descriptor. -/
theorem Balanced.accept_notMem (balanced : Balanced base (server, opened))
    (accepts : KernelAccepts opened env)
    : env.accept ∉ opened := by
  rcases accepts with failed | fresh
  · rw [failed]
    exact balanced.balance.free_notMem
  · exact fresh

/-- A step of the server uses its descriptors as it may, and keeps the balance. -/
theorem Balanced.step (balanced : Balanced base (server, opened)) (file : Int32.ofNat dbfd ∈ base)
    (accepts : KernelAccepts opened env) (ready : PolledPollin server env)
    (ended : EndedAdds server env)
    (result : pollLoopStep env dbfd server = .ok (next, actions))
    : ∃ opened',
        applyUses opened (actions.flatMap (Action.uses dbfd server.world.clients)) = some opened'
        ∧ Balanced base (next, opened') := by
  have balance : Balance (-1) base server.world.clients.fds opened := balanced.balance
  have unused := balanced.accept_notMem accepts
  have fresh : FreshAccept server env := by
    intro slot valid taken
    rw [← taken] at valid unused
    exact unused (balance.mem_opened valid)
  have kept : next.Consistent := by
    obtain ⟨polled, consistent⟩ := State.Consistent.at balanced.consistent
    exact (consistent.step fresh ready ended result).consistent
  have connected {slot : Slot} (reading : server.reading = some slot)
      : server.world.clients.fds slot ≠ -1 := by
    obtain ⟨polled, consistent⟩ := State.Consistent.at balanced.consistent
    exact (consistent.visits_of_reading reading).1
  have balances (fds : next.world.clients.fds = server.world.clients.fds)
      : Balanced base (next, opened) :=
    ⟨kept, by rw [fds]; exact balance⟩
  have turn := pollLoopStep_turn result
  generalize after : next.world = world at turn
  cases turn with
  | idle => exact ⟨opened, rfl, balances (by rw [after])⟩
  | refused =>
      refine ⟨opened, ?_, balances (by rw [after])⟩
      simp [applyUses, Action.uses, DescriptorUse.apply, unused]
  | @accepted slot free valid =>
      refine ⟨insert env.accept opened, ?_, kept, ?_⟩
      · simp [applyUses, Action.uses, DescriptorUse.apply, unused]
      · rw [after, World.connect, Clients.fds_update]
        exact balance.connect (findFreeSlot_some free) valid unused
  | @disconnected slot reading _ =>
      have owned : (server.world.clients slot).fd ∈ opened := balance.mem_opened (connected reading)
      refine ⟨opened.erase (server.world.clients slot).fd, ?_, kept, ?_⟩
      · simp [applyUses, Action.uses, DescriptorUse.apply, owned]
      · rw [after, World.disconnect, Clients.fds_update]
        exact balance.disconnect (connected reading)
  | @handled slot chunk _ later reading received outcome =>
      have own : (server.world.clients slot).fd ∈ opened := balance.mem_opened (connected reading)
      have stored : Int32.ofNat dbfd ∈ opened := by
        rw [balance.opened]
        exact Finset.mem_union_left _ file
      obtain ⟨state, buffer, moved, -⟩ := outcome.clients (ended slot reading chunk received)
      refine ⟨opened, applyUses_kept ?_, balances ?_⟩
      · simp only [List.flatMap_cons, Action.uses, List.singleton_append, List.mem_cons]
        rintro use (rfl | member)
        · exact if_pos own
        · exact outcome.uses_kept own stored use member
      · rw [after, moved, World.receive_setClient]
        funext other
        by_cases self : other = slot
        · rw [self, Clients.fds, World.setClient_self, Clients.fds]
        · rw [Clients.fds, World.setClient_other self, Clients.fds]

end LowlevelAcademy.Server
