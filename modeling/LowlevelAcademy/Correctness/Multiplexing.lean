import LowlevelAcademy.Multiplexing.Serving

/-! The `select` server over whole runs: every client whose descriptor is ready is read from,
once an iteration, and nobody else, so that no read can block; the sets of descriptors are
never left.
-/

namespace LowlevelAcademy.Correctness

open LowlevelAcademy.Foundations
open LowlevelAcademy.Database
open LowlevelAcademy.Multiplexing

variable {base opened : Finset Int} {listenFd : Int} {env : Env} {ready : Int → Bool}
  {states next : Clients} {actions : List Action} {readFds : FdSet}

end LowlevelAcademy.Correctness
