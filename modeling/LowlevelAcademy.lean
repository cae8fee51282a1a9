import LowlevelAcademy.Correctness.Appending
import LowlevelAcademy.Correctness.Framing
import LowlevelAcademy.Correctness.Handshake
import LowlevelAcademy.Correctness.Leftovers
import LowlevelAcademy.Correctness.Persistence
import LowlevelAcademy.Correctness.Restart
import LowlevelAcademy.Correctness.RoundTrip
import LowlevelAcademy.Correctness.SlotTable
import LowlevelAcademy.Correctness.Startup
import LowlevelAcademy.Correctness.TaskQueue
import LowlevelAcademy.Correctness.ClientReports
import LowlevelAcademy.Correctness.ListDecoding
import LowlevelAcademy.Correctness.TornSaves
import LowlevelAcademy.Correctness.Acknowledgement
import LowlevelAcademy.Correctness.FreshEntries
import LowlevelAcademy.Correctness.Counter
import LowlevelAcademy.Correctness.Replies
import LowlevelAcademy.Correctness.Isolation
import LowlevelAcademy.Correctness.AddStrings
import LowlevelAcademy.Correctness.WakeUps
import LowlevelAcademy.Correctness.Shutdown
import LowlevelAcademy.Correctness.StoredText
import LowlevelAcademy.Correctness.Scanning
import LowlevelAcademy.Correctness.ViewerRuns
import LowlevelAcademy.Correctness.EndToEnd
import LowlevelAcademy.Correctness.Sessions
import LowlevelAcademy.Correctness.Waiting
import LowlevelAcademy.Correctness.Stopping
import LowlevelAcademy.Correctness.OpenFiles
import LowlevelAcademy.Locks.Counter
import LowlevelAcademy.Correctness.Draining
import LowlevelAcademy.Correctness.MainProgram
import LowlevelAcademy.Correctness.Multiplexing
import LowlevelAcademy.Correctness.LostServer
import LowlevelAcademy.Correctness.FileSessions
