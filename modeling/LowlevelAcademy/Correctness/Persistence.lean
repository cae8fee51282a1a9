import LowlevelAcademy.Server.Disk
import LowlevelAcademy.Server.Progress

/-! Disk and memory over whole runs: the file keeps storing the live records under a header
with its own size, and a restart loads them. The size field of the live header is byte-swapped
by the first save.
-/

namespace LowlevelAcademy.Correctness

open LowlevelAcademy.Foundations
open LowlevelAcademy.Database
open LowlevelAcademy.Server

variable {dbfd : Nat} {server next : State} {roster : Roster}

/-- The database of a roster as it is loaded from its file. -/
def loadedDb (roster : Roster) : Db := ⟨headerOf roster.records.length, some roster.records⟩

theorem loadedDb_represents (roster : Roster) : (loadedDb roster).Represents roster :=
  ⟨⟨rfl, headerOf_count roster.bound⟩, rfl, rfl⟩

/-- The size field of a live header, before and after the first save. -/
def liveFilesize (count : Nat) (accepted : List (List UInt8)) : UInt32 :=
  if accepted = [] then (headerOf count).filesize else ntohl (headerOf count).filesize

/-- What a run with complete writes keeps: the file stores the live roster, which has one more
record for each accepted add request.
-/
private def Kept (initial : Nat) (accepted : List (List UInt8)) (world : World) : Prop :=
  ∃ current : Roster,
    world.Stores current []
    ∧ current.records.length = initial + accepted.length
    ∧ world.db.header.filesize = liveFilesize current.records.length accepted

/-- One step keeps it. -/
private theorem kept_step {initial : Nat} {accepted : List (List UInt8)} {actions : List Action}
    (kept : Kept initial accepted server.world)
    (step : Step dbfd WritesComplete server actions next)
    : Kept initial (accepted ++ acceptedRequests actions) next.world := by
  obtain ⟨current, stores, count, filesize⟩ := kept
  obtain ⟨env, complete, result⟩ := step
  rcases (pollLoopStep_turn result).stores stores.live complete with
      ⟨sameDb, sameFile, none⟩
      | ⟨extended, ⟨employee, records⟩, ⟨request, one⟩, swapped, stored⟩
  · rw [none, List.append_nil]
    exact ⟨current, ⟨sameDb ▸ stores.live, sameFile ▸ stores.content⟩, count,
      by rw [sameDb, filesize]⟩
  · rw [stores.covered records] at stored
    refine ⟨extended, stored, ?_, ?_⟩
    · rw [records, one, List.length_append, List.length_append, count]
      simp [Nat.add_assoc]
    · rw [swapped, liveFilesize, if_neg (by simp [one])]

/-- Every run keeps it. -/
private theorem kept_run {history : List (List Action)}
    (live : server.world.db = loadedDb roster)
    (agrees : server.world.file.content = server.world.db.encode)
    (run : Run (Step dbfd WritesComplete) server history next)
    : Kept roster.records.length (acceptedRequests history.flatten) next.world := by
  refine run.invariant
    (motive := fun history server =>
      Kept roster.records.length (acceptedRequests history.flatten) server.world) ?_ ?_
  · have represents : server.world.db.Represents roster := live ▸ loadedDb_represents roster
    have encoded := represents.encode_eq_iff.mpr (by rw [live]; rfl)
    exact ⟨roster, ⟨represents, by rw [agrees, encoded, List.append_nil]⟩, rfl,
      by rw [live]; rfl⟩
  · rintro history state actions after kept step
    rw [List.flatten_append, List.flatten_singleton, acceptedRequests_append]
    exact kept_step kept step

/-- Where it holds, the file has the bytes of the live database exactly when nothing was saved
since the start or the size reads the same in both byte orders.
-/
private theorem Kept.encode_iff {initial : Nat} {accepted : List (List UInt8)} {world : World}
    (kept : Kept initial accepted world)
    : world.file.content = world.db.encode
      ↔ accepted = [] ∨ initial + accepted.length = 765 ∨ initial + accepted.length = 17213 := by
  obtain ⟨current, stores, count, filesize⟩ := kept
  rw [stores.content, List.append_nil, eq_comm, stores.live.encode_eq_iff, filesize,
    liveFilesize, ← count, ← swap32_headerOf_filesize current.bound]
  split_ifs with none <;> simp [none]

/-- A server with a loaded database whose file has exactly its bytes: after every run with
complete writes, whatever the clients send, the file stores exactly the live records, a restart
loads them, and the next step changes the file only when it accepts an add request. The file
has exactly the bytes of the live database, size field included, if and only if no add request
was accepted in the run or the number of records is 765 or 17213.
-/
theorem disk_agrees_iff {history : List (List Action)}
    (live : server.world.db = loadedDb roster)
    (agrees : server.world.file.content = server.world.db.encode)
    (run : Run (Step dbfd WritesComplete) server history next)
    : let accepted := acceptedRequests history.flatten
      let count := roster.records.length + accepted.length
      (next.world.file.content = next.world.db.encode
          ↔ accepted = [] ∨ count = 765 ∨ count = 17213)
        ∧ (∃ current : Roster, next.world.Stores current [] ∧ current.records.length = count)
        ∧ next.world.Reloads
        ∧ ∀ env actions after,
            WritesComplete next env
            → pollLoopStep env dbfd next = .ok (after, actions)
            → after.world.file.content ≠ next.world.file.content
            → acceptedRequests actions ≠ [] := by
  have kept := kept_run live agrees run
  have encode := kept.encode_iff
  obtain ⟨current, stores, count, -⟩ := kept
  refine ⟨encode, ⟨current, stores, count⟩, stores.reloads_iff.mpr rfl, ?_⟩
  intro env actions after complete result changed none
  rcases (pollLoopStep_turn result).stores stores.live complete with
      ⟨-, sameFile, -⟩ | ⟨-, -, ⟨request, some⟩, -, -⟩
  · exact changed (by rw [sameFile])
  · rw [some] at none
    cases none

/-- A loaded database with its own file, on a server without clients. -/
private theorem startServer_agrees (roster : Roster) (listenFd : Int32)
    : let server := startServer (loadedDb roster) (.opened roster.encode) listenFd
      server.world.file.content = server.world.db.encode :=
  ((loadedDb_represents roster).encode_eq_iff.mpr rfl).symm

/-- Adding one record to 764 leaves the file with the bytes of the live database. -/
theorem disk_agrees_765
    : ∃ roster history next,
        Run (Step 3 WritesComplete)
          (startServer (loadedDb roster) (.opened roster.encode) 4) history next
        ∧ acceptedRequests history.flatten = [[97, 44, 98, 44, 49]]
        ∧ next.world.file.content = next.world.db.encode := by
  let roster : Roster :=
    ⟨List.replicate 764 (employeeOf []), by rw [List.length_replicate]; decide⟩
  have count : roster.records.length = 764 := List.length_replicate
  obtain ⟨history, next, -, -, run, one, -⟩ := first_add_run 3 (.opened roster.encode) 4
    (loadedDb_represents roster).holds (by rw [count]; decide)
    (show nul ∉ [97, 44, 98, 44, 49] by decide) (by decide) (by decide)
  have complete := run_of_orderly (fun _ _ orderly => orderly.complete) run
  have agrees := (disk_agrees_iff rfl (startServer_agrees roster 4) complete).1
  rw [one, count] at agrees
  exact ⟨roster, history, next, complete, one, agrees.mpr (Or.inr (Or.inl rfl))⟩

/-- Adding one record to an empty database, by a terminated add request, leaves a live header
whose size field does not have the bytes of the file.
-/
theorem disk_disagrees
    : ∃ roster history next,
        (startServer (loadedDb roster) (.opened roster.encode) 4).world.file.content
          = (startServer (loadedDb roster) (.opened roster.encode) 4).world.db.encode
        ∧ Run (Step 3 Orderly)
          (startServer (loadedDb roster) (.opened roster.encode) 4) history next
        ∧ acceptedRequests history.flatten = [[97, 44, 98, 44, 49]]
        ∧ next.world.file.content ≠ next.world.db.encode := by
  let roster : Roster := ⟨[], by simp⟩
  have agrees := startServer_agrees roster 4
  obtain ⟨history, next, -, -, run, one, -⟩ := first_add_run 3 (.opened roster.encode) 4
    (loadedDb_represents roster).holds (by decide)
    (show nul ∉ [97, 44, 98, 44, 49] by decide) (by decide) (by decide)
  have complete := run_of_orderly (fun _ _ orderly => orderly.complete) run
  refine ⟨roster, history, next, agrees, run, one, fun encoded => ?_⟩
  have condition := (kept_run rfl agrees complete).encode_iff.mp encoded
  rw [one] at condition
  exact absurd condition (by decide)

end LowlevelAcademy.Correctness
