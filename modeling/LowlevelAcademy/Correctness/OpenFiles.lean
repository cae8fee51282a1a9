import LowlevelAcademy.Server.Descriptors
import LowlevelAcademy.Server.Progress

/-! The descriptors of the server over whole runs: none is leaked, closed twice or used after it
was closed, so the system never returns one that a client still has.
-/

namespace LowlevelAcademy.Correctness

open LowlevelAcademy.Foundations
open LowlevelAcademy.Database
open LowlevelAcademy.Server

/-- Whatever was open when the server began to listen, the database file among it, after every
run on a system whose `accept` returns no open descriptor the process has open just that and one
descriptor for each of at most 256 clients, as long as polled entries that are ready have
`POLLIN` set and all add strings end inside their buffers. Whatever the next step of that kind
does, it reads, writes and closes open descriptors only.
-/
theorem descriptors_balance {dbfd : Nat} {db : Db} {file : OpenFile UInt8} {listenFd : Int32}
    {base opened : Finset Int32} {server : State} {history : List (List Action)}
    (valid : -1 ∉ base) (stored : Int32.ofNat dbfd ∈ base)
    (run : Run (DescriptorStep dbfd) (startServer db file listenFd, base) history (server, opened))
    : opened = base ∪ descriptorsIn (-1) server.world.clients.fds
      ∧ opened.card = base.card + server.world.clients.connected.length
      ∧ server.world.clients.connected.length ≤ maxClients
      ∧ ∀ env actions next,
          KernelAccepts opened env
          → PolledPollin server env
          → EndedAdds server env
          → pollLoopStep env dbfd server = .ok (next, actions)
          → ∃ after,
              DescriptorStep dbfd (server, opened) actions (next, after) := by
  have balanced : Balanced base (server, opened) := by
    refine run.stateInvariant (motive := Balanced base) ?_ ?_
    · exact ⟨startServer_consistent db file listenFd, balance_start valid⟩
    · rintro ⟨state, before⟩ actions ⟨next, after⟩ kept ⟨env, accepts, ready, ended, result, uses⟩
      obtain ⟨other, same, balances⟩ := kept.step stored accepts ready ended result
      obtain rfl := Option.some.inj (same.symm.trans uses)
      exact balances
  refine ⟨balanced.balance.opened, ?_, Clients.connected_length_le _, ?_⟩
  · rw [Clients.connected_length]
    exact balanced.balance.card
  · intro env actions next accepts ready ended result
    obtain ⟨after, uses, -⟩ := balanced.step stored accepts ready ended result
    exact ⟨after, env, accepts, ready, ended, result, uses⟩

/-- A first client connects with descriptor 5; 0 to 4 were open. -/
theorem descriptors_balance_first
    : ∃ history server opened,
        Run (DescriptorStep 3)
          (startServer ⟨headerOf 0, some []⟩ (.opened []) 4, ({0, 1, 2, 3, 4} : Finset Int32))
          history (server, opened)
        ∧ opened = insert 5 {0, 1, 2, 3, 4}
        ∧ opened.card = 5 + server.world.clients.connected.length := by
  let start := startServer ⟨headerOf 0, some []⟩ (.opened []) 4
  have consistent : start.Consistent := startServer_consistent _ _ _
  have free : findFreeSlot start.world.clients = some 0 :=
    findFreeSlot_first rfl fun other below => absurd below (Fin.not_lt_zero other)
  obtain ⟨fds, result⟩ := consistent.accept_step 3 rfl free (show (5 : Int32) ≠ -1 by decide)
  have step : DescriptorStep 3 (start, {0, 1, 2, 3, 4}) [.accepted 0 5]
      (⟨start.world.connect 0 5, fds, start.nfds + 1, .scan 1 0⟩, insert 5 {0, 1, 2, 3, 4}) := by
    refine ⟨pollEnv 0 5, Or.inr ?_, ?_, ?_, result, ?_⟩
    · change (5 : Int32) ∉ _
      decide
    · rintro _ ⟨⟩ j -
      by_cases same : j = 0 <;> simp [onlyReady, same, pollin]
    · rintro slot _ _ ⟨⟩
    · rfl
  have run : Run (DescriptorStep 3) (start, {0, 1, 2, 3, 4}) [[.accepted 0 5]] _ := .single step
  exact ⟨_, _, _, run, rfl, (descriptors_balance (by decide) (by decide) run).2.1⟩

end LowlevelAcademy.Correctness
