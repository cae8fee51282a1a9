import LowlevelAcademy.Server.Startup

/-! Start-up on an existing file: when the records that the poll loop gets are the ones that
its header counts.
-/

namespace LowlevelAcademy.Correctness

open LowlevelAcademy.Foundations
open LowlevelAcademy.Database
open LowlevelAcademy.Server

/-- The array has exactly the records that the header counts, as the file stores them; NULL is
an array without records.
-/
def HoldsStored (content : List UInt8) (db : Db) : Prop :=
  (db.employees.getD []).length = db.header.count.toNat
  ∧ db.employees.getD [] = storedEmployees db.header.count.toNat content

/-- Whenever the server gets from this file into the poll loop, it has the stored records. -/
def StartupAgrees (env : StartEnv) (dbfd : Nat) (content : List UInt8) : Prop :=
  ∀ db file, main false env dbfd (some content) = some (db, file) → HoldsStored content db

/-- A started server has the stored records when it could read them or there are none. -/
theorem holdsStored_iff (allocated : Bool) (content : List UInt8)
    : HoldsStored content ⟨storedHeader content, startedEmployees allocated content⟩
      ↔ (storedHeader content).count = 0
        ∨ allocated
          ∧ headerSize + employeeSize * (storedHeader content).count.toNat
            ≤ content.length := by
  have size : (storedEmployees (storedHeader content).count.toNat content).length
      = (storedHeader content).count.toNat := by
    simp [storedEmployees]
  simp only [HoldsStored, startedEmployees]
  split_ifs with readable
  · exact iff_of_true ⟨size, rfl⟩ (Or.inr readable)
  · rw [or_iff_left readable]
    constructor
    · rintro ⟨empty, -⟩
      exact UInt16.toNat_inj.mp (by simpa using empty.symm)
    · intro zero
      simp [zero, storedEmployees, employeesOfBytes]

/-- The server agrees with its file at start-up exactly when it does not get into the poll
loop, when the file counts no records, or when memory is available and the file has all the
bytes of the records that it counts. The check of the file's size does not look at the counter.
-/
theorem startup_agrees_iff (env : StartEnv) (dbfd : Nat) (content : List UInt8)
    : StartupAgrees env dbfd content
      ↔ ¬ (env.permitted ∧ env.headerAllocated ∧ ValidHeader content)
        ∨ (storedHeader content).count = 0
        ∨ env.employeesAllocated
          ∧ headerSize + employeeSize * (storedHeader content).count.toNat
            ≤ content.length := by
  rw [← holdsStored_iff]
  constructor
  · intro agrees
    by_cases enters : env.permitted ∧ env.headerAllocated ∧ ValidHeader content
    · obtain ⟨file, started⟩ := (@main_existing_iff env dbfd content _).mpr ⟨enters, rfl⟩
      exact Or.inr (agrees _ file started)
    · exact Or.inl enters
  · rintro (stays | holds) db file started
    · exact absurd (main_existing_iff.mp ⟨file, started⟩).1 stays
    · rwa [(main_existing_iff.mp ⟨file, started⟩).2]

/-- A file that is only a header, which counts one record and gives the right file size. -/
def countedHeader : List UInt8 := [76, 76, 65, 68, 0, 1, 0, 1, 0, 0, 0, 12]

/-- The server starts on that file with a counter of one and no records. -/
theorem startup_disagrees : ¬ StartupAgrees .granted 3 countedHeader := by
  intro agrees
  have accepted : ValidHeader countedHeader :=
    ⟨by decide, by decide, by decide, by decide⟩
  obtain ⟨file, started⟩ := (@main_existing_iff .granted 3 countedHeader _).mpr
    ⟨⟨rfl, rfl, accepted⟩, rfl⟩
  have holds := (holdsStored_iff _ _).mp (agrees _ file started)
  exact absurd holds (by decide)

end LowlevelAcademy.Correctness
