import LowlevelAcademy.Viewer.Program

/-! Runs of the viewer on an existing file: which of those that only look at it leave it as it is,
and what a run with an add string makes of it.
-/

namespace LowlevelAcademy.Correctness

open LowlevelAcademy.Foundations
open LowlevelAcademy.Database
open LowlevelAcademy.Viewer

variable {content : List UInt8}

/-- The size of a file with as many records as its header counts. -/
abbrev countedSize (content : List UInt8) : Nat :=
  headerSize + employeeSize * (storedHeader content).count.toNat

/-- The system grants a run all that it asks for, but `realloc` does as told. -/
def granting (resize : Resize) (behind : List UInt8) : Env where
  permitted := true
  headerAllocated := true
  employeesAllocated := true
  resize := resize
  behind := behind
  outcomes _ := .complete

/-- A run without `-n` and `-a`. -/
def viewing (list : Bool) : Args where
  pathGiven := true
  newfile := false
  addString := none
  list := list

/-- Behind a valid header saving leaves the header of the counted records, whatever is loaded. -/
theorem outputFileLeft_loaded (valid : ValidHeader content) (allocated : Bool)
    {outcomes : Nat → WriteOutcome} (complete : ∀ i, outcomes i = .complete)
    {file : OpenFile UInt8} (same : file.content = content)
    : ∃ rest,
        (outputFileLeft outcomes file (openedDb allocated content)).content
          = encodeHeader (storedHeader content).count.toNat ++ rest
        ∧ (content.length = countedSize content → rest = content.drop headerSize) := by
  cases loaded : (openedDb allocated content).employees with
  | none =>
      refine ⟨content.drop headerSize, ?_, fun _ => rfl⟩
      have null : openedDb allocated content = ⟨storedHeader content, none⟩ := by
        rw [← loaded]
        rfl
      rw [null, outputFileLeft_null _ _ valid.version valid.magic, complete,
        OpenFile.rewind_write_content, encodeHeader_length, same]
  | some employees =>
      have stored : employees = storedEmployees (storedHeader content).count.toNat content := by
        rw [openedDb] at loaded
        split_ifs at loaded
        exact (Option.some.inj loaded).symm
      have holds : (openedDb allocated content).Holds employees :=
        ⟨loaded, by rw [stored]; simp [openedDb, storedEmployees]⟩
      have live : (openedDb allocated content).Represents holds.roster :=
        ⟨holds, valid.version, valid.magic⟩
      have count : employees.length = (storedHeader content).count.toNat := holds.count.symm
      refine ⟨employees.flatMap encodeEmployee ++ content.drop holds.roster.encode.length, ?_, ?_⟩
      · rw [outputFileLeft_live file live complete, same, ← count, ← List.append_assoc]
        rfl
      · intro exact
        have nothing : content.drop holds.roster.encode.length = [] := by
          apply List.drop_eq_nil_of_le
          rw [Roster.encode_length, exact, countedSize, ← count]
          exact Nat.le_refl _
        rw [nothing, List.append_nil, stored, flatMap_storedEmployees exact]

/-- When a run that gets all memory, with a terminator behind the records, keeps a valid file whose
listing has an end, then the counted records are all there is.
-/
private theorem countedSize_of_kept (valid : ValidHeader content) {list : Bool} (dbfd : Nat)
    (enough : list → ¬ content.length < countedSize content)
    (kept : (main (viewing list) (granting .failed [nul]) dbfd (some content)).file = some content)
    : content.length = countedSize content := by
  let env := granting .failed [nul]
  obtain ⟨file, same, run⟩ : ∃ file,
      file.content = content
      ∧ main (viewing list) env dbfd (some content)
        = listAndSave list env dbfd file (openedDb true content) :=
    main_valid rfl rfl rfl rfl valid
  have ends (listed : list)
      : ∃ shown, Database.listEmployees env.behind (openedDb true content) = .ok shown := by
    have holds : (openedDb true content).Holds
        (storedEmployees (storedHeader content).count.toNat content) :=
      ⟨by simp [openedDb, enough listed], by simp [openedDb, storedEmployees]⟩
    exact (listEmployees_ok_iff holds).mpr (listingEnds_of_mem (by simp [env, granting]) _)
  have complete (i : Nat) : env.outcomes i = .complete := rfl
  obtain ⟨rest, left, -⟩ := outputFileLeft_loaded valid true complete same
  rw [run, listAndSave_file ends, Option.some.injEq, left] at kept
  have bound := Nat.le_of_lt_succ (storedHeader content).count.toNat_lt
  have size := valid.filesize
  rw [← kept, storedHeader_encodeHeader bound, headerOf_filesize bound, kept] at size
  exact size.symm

/-- A listing of missing records goes through NULL. -/
private theorem listing_halts (valid : ValidHeader content)
    (short : content.length < countedSize content) (allocated : Bool) (behind : List UInt8)
    : ¬ ∃ shown, Database.listEmployees behind (openedDb allocated content) = .ok shown := by
  rintro ⟨shown, listing⟩
  have null : (openedDb allocated content).employees = none := by simp [openedDb, short]
  have counted : (openedDb allocated content).header.count.toNat ≠ 0 := by
    intro zero
    have long := valid.long
    rw [countedSize, show (storedHeader content).count.toNat = 0 from zero] at short
    omega
  rw [listEmployees_null null counted] at listing
  cases listing

/-- Looking at a file leaves it as it is in every run whose writes are complete exactly when the
header is not valid, when the records that it counts are all there is, or when they are missing
and a listing is asked for, which then halts before anything is saved.
-/
theorem view_keeps_file_iff (content : List UInt8) (list : Bool) (dbfd : Nat)
    : (∀ env : Env,
        (∀ i, env.outcomes i = .complete)
        → (main (viewing list) env dbfd (some content)).file = some content)
      ↔ ¬ ValidHeader content
        ∨ content.length = countedSize content
        ∨ (list ∧ content.length < countedSize content) := by
  constructor
  · intro keeps
    by_cases valid : ValidHeader content
    swap
    · exact Or.inl valid
    by_cases short : list ∧ content.length < countedSize content
    · exact Or.inr (Or.inr short)
    · exact Or.inr (Or.inl (countedSize_of_kept valid dbfd (fun listed less => short ⟨listed, less⟩)
        (keeps _ fun _ => rfl)))
  · intro condition env complete
    have runs : main (viewing list) env dbfd (some content)
          = ⟨some content, .returned (-1), []⟩
        ∨ ValidHeader content
          ∧ ∃ file,
              file.content = content
              ∧ main (viewing list) env dbfd (some content)
                = listAndSave list env dbfd file (openedDb env.employeesAllocated content) :=
      main_existing rfl rfl
    rcases runs with stopped | ⟨valid, file, same, run⟩
    · rw [stopped]
    rw [run]
    let db := openedDb env.employeesAllocated content
    by_cases ends : list → ∃ shown, Database.listEmployees env.behind db = .ok shown
    · have exact : content.length = countedSize content := by
        rcases condition with invalid | exact | ⟨listed, short⟩
        · exact absurd valid invalid
        · exact exact
        · exact absurd (ends listed) (listing_halts valid short _ _)
      obtain ⟨rest, left, tail⟩ :=
        outputFileLeft_loaded valid env.employeesAllocated complete same
      rw [listAndSave_file ends, left, tail exact, valid.encodeHeader_eq exact,
        List.take_append_drop]
    · obtain ⟨listed, halts⟩
          : list ∧ ¬ ∃ shown, Database.listEmployees env.behind db = .ok shown := by
        simpa using ends
      obtain rfl : list = true := listed
      cases listing : Database.listEmployees env.behind db with
      | ok shown => exact absurd ⟨shown, listing⟩ halts
      | error halt => rw [listAndSave_halted listing, same]

/-- A file without records, one byte longer than its header, and the run that only opens it. -/
def trailingByte : List UInt8 := [76, 76, 65, 68, 0, 1, 0, 0, 0, 0, 0, 13, 7]

/-- Looking at it rewrites the size in its header, and the viewer then takes the file for corrupted.
-/
theorem view_changes_file
    : main (viewing false) (granting .failed []) 3 (some trailingByte)
        = ⟨some [76, 76, 65, 68, 0, 1, 0, 0, 0, 0, 0, 12, 7], .returned 0, []⟩
      ∧ some [76, 76, 65, 68, 0, 1, 0, 0, 0, 0, 0, 12, 7] ≠ some trailingByte
      ∧ ValidHeader trailingByte
      ∧ ¬ ValidHeader [76, 76, 65, 68, 0, 1, 0, 0, 0, 0, 0, 12, 7] := by
  refine ⟨rfl, by decide, ⟨by decide, by decide, by decide, by decide⟩, ?_⟩
  exact fun valid => absurd valid.filesize (by decide)

-----------------------------------------------------------------------------------------
-- Adding
-----------------------------------------------------------------------------------------

/-- A run with `-a`. -/
def adding (text : List UInt8) (list : Bool) : Args where
  pathGiven := true
  newfile := false
  addString := some text
  list := list

/-- The records that a file stores. -/
abbrev oldRecords (content : List UInt8) : List Employee :=
  storedEmployees (storedHeader content).count.toNat content

/-- `validate_db_header` and `read_employees` accept the file, which ends with its records and has
room for one more, and all writes are complete.
-/
structure Accepted (env : Env) (content : List UInt8) : Prop where
  permitted : env.permitted
  headerAllocated : env.headerAllocated
  employeesAllocated : env.employeesAllocated
  header : ValidHeader content
  ended : content.length = countedSize content
  room : (storedHeader content).count.toNat < 65535
  complete : ∀ i, env.outcomes i = .complete

/-- One more record can be counted. -/
theorem Accepted.count {env : Env} (accepted : Accepted env content)
    : ((storedHeader content).count + 1).toNat = (oldRecords content).length + 1 := by
  have old : (oldRecords content).length = (storedHeader content).count.toNat := by
    simp [oldRecords, storedEmployees]
  have one : (1 : UInt16).toNat = 1 := rfl
  have room := accepted.room
  rw [old, UInt16.toNat_add, one]
  exact Nat.mod_eq_of_lt (by omega)

/-- A run succeeds and leaves a file that is loaded with one more record, made of the fields of the
string, or it fails and leaves the file as it is.
-/
def AppendsOrKeeps (content text : List UInt8) (run : Finished) : Prop :=
  (run.ending = .returned 0
    ∧ 3 ≤ (fields text).length
    ∧ ∃ file db last,
        run.file = some file
        ∧ loadDatabase 0 file = .ok (db, last)
        ∧ db.employees = some (oldRecords content ++ [employeeOf text]))
  ∨ (run.ending = .returned (-1) ∧ run.file = some content)

/-- A run that does not return does neither. -/
theorem not_appendsOrKeeps {text : List UInt8} {run : Finished}
    (ends : ∀ code, run.ending ≠ .returned code)
    : ¬ AppendsOrKeeps content text run := by
  rintro (⟨success, -⟩ | ⟨failure, -⟩)
  · exact ends _ success
  · exact ends _ failure

/-- A roster's file is loaded with its records. -/
theorem loadDatabase_encode (roster : Roster)
    : ∃ db last,
        loadDatabase 0 roster.encode = .ok (db, last)
        ∧ db.employees = some roster.records := by
  have loadable : Loadable roster.encode := by
    have alone := (loadable_encode_append roster []).mpr rfl
    rwa [List.append_nil] at alone
  obtain ⟨last, loaded⟩ := (loadDatabase_ok_iff (Int.le_refl 0) _ _).mpr ⟨loadable, rfl⟩
  have stored := storedDb_encode_append roster []
  rw [List.append_nil] at stored
  exact ⟨_, last, loaded, by rw [stored]⟩

/-- After the three fields were stored in place, the rest of `main` appends the record exactly when
the listing ends.
-/
theorem appends_of_stored {env : Env} {text : List UInt8} (accepted : Accepted env content)
    (three : 3 ≤ (fields text).length) (list : Bool) (dbfd : Nat) {file : OpenFile UInt8}
    (same : file.content = content) {header : DbHeader}
    (counted : header = { storedHeader content with count := (storedHeader content).count + 1 })
    : AppendsOrKeeps content text
        (listAndSave list env dbfd file ⟨header, some (oldRecords content ++ [employeeOf text])⟩)
      ↔ (list → ListingEnds env.behind (oldRecords content ++ [employeeOf text])) := by
  have count : header.count.toNat = (oldRecords content ++ [employeeOf text]).length := by
    rw [counted, List.length_append, List.length_singleton, accepted.count]
  have holds : Db.Holds ⟨header, some (oldRecords content ++ [employeeOf text])⟩
      (oldRecords content ++ [employeeOf text]) :=
    ⟨rfl, count⟩
  have live : Db.Represents ⟨header, some (oldRecords content ++ [employeeOf text])⟩
      holds.roster :=
    ⟨holds, by rw [counted]; exact accepted.header.version,
      by rw [counted]; exact accepted.header.magic⟩
  by_cases ends : list → ListingEnds env.behind (oldRecords content ++ [employeeOf text])
  · refine iff_of_true ?_ ends
    obtain ⟨printed, saved⟩ := listAndSave_live dbfd file live accepted.complete ends
    have nothing : file.content.drop holds.roster.encode.length = [] := by
      apply List.drop_eq_nil_of_le
      have more : (storedHeader content).count.toNat ≤ holds.roster.records.length := by
        simp [Db.Holds.roster, storedEmployees]
      rw [same, accepted.ended, Roster.encode_length]
      exact Nat.add_le_add_left (Nat.mul_le_mul_left _ more) _
    rw [saved, nothing, List.append_nil]
    obtain ⟨db, last, loaded, records⟩ := loadDatabase_encode holds.roster
    exact Or.inl ⟨rfl, three, _, db, last, rfl, loaded, records⟩
  · refine iff_of_false ?_ ends
    obtain ⟨listed, runsOn⟩
        : list ∧ ¬ ListingEnds env.behind (oldRecords content ++ [employeeOf text]) := by
      simpa using ends
    obtain rfl : list = true := listed
    rw [← listEmployees_ok_iff holds] at runsOn
    cases listing : Database.listEmployees env.behind
        ⟨header, some (oldRecords content ++ [employeeOf text])⟩ with
    | ok shown => exact absurd ⟨shown, listing⟩ runsOn
    | error halt =>
        rw [listAndSave_halted listing]
        exact not_appendsOrKeeps (by simp)

/-- Adding to an accepted file appends one record or keeps the file exactly when `realloc` fails,
or when it grows the block in place and the string has three fields. A listing must also end.
-/
theorem add_appends_iff {env : Env} {text : List UInt8} (accepted : Accepted env content)
    (clean : nul ∉ text) (list : Bool) (dbfd : Nat)
    : AppendsOrKeeps content text (main (adding text list) env dbfd (some content))
      ↔ env.resize = .failed
        ∨ (∃ fresh, env.resize = .inPlace fresh)
          ∧ 3 ≤ (fields text).length
          ∧ (list → ListingEnds env.behind (oldRecords content ++ [employeeOf text])) := by
  have loaded : openedDb env.employeesAllocated content
      = ⟨storedHeader content, some (oldRecords content)⟩ := by
    simp [openedDb, accepted.employeesAllocated, accepted.ended]
  obtain ⟨file, same, run⟩ : ∃ file,
      file.content = content
      ∧ main (adding text list) env dbfd (some content)
        = afterLoading (adding text list) env dbfd file
            ⟨storedHeader content, some (oldRecords content)⟩ := by
    rw [← loaded]
    exact main_valid rfl rfl accepted.permitted accepted.headerAllocated accepted.header
  have asked : (adding text list).addString = some text := rfl
  rw [run]
  cases resize : env.resize with
  | failed =>
      have failed : addArgument env.resize ⟨storedHeader content, some (oldRecords content)⟩ text
          = .error (.returned (-1)) := by
        simp [addArgument, resized, resize]
      rw [afterLoading_failed asked failed]
      exact iff_of_true (Or.inr ⟨rfl, by rw [same]⟩) (Or.inl rfl)
  | moved =>
      -- nothing is left at the old address
      have empty : resized env.resize (some (oldRecords content))
          ((storedHeader content).count + 1).toNat
          = some (some []) := by
        simp [resized, resize, accepted.count]
      obtain ⟨ending, added, halts⟩ := addResult_empty
        { storedHeader content with count := (storedHeader content).count + 1 } text
      have failed := (addArgument_resized
        ⟨storedHeader content, some (oldRecords content)⟩ clean empty).trans added
      rw [afterLoading_failed asked failed]
      exact iff_of_false (not_appendsOrKeeps halts) (by simp)
  | inPlace fresh =>
      have grown : resized env.resize (some (oldRecords content))
          ((storedHeader content).count + 1).toNat
          = some (some (oldRecords content ++ [fresh (oldRecords content).length])) := by
        rw [resize, accepted.count, resized_succ]
      have added := (addArgument_resized
        ⟨storedHeader content, some (oldRecords content)⟩ clean grown).trans
          (addResult_grown accepted.count text)
      split_ifs at added with few
      · rw [afterLoading_failed asked added]
        exact iff_of_false (not_appendsOrKeeps (by simp)) (by simp [Nat.not_le.mpr few])
      · have three : 3 ≤ (fields text).length := Nat.le_of_not_lt few
        rw [afterLoading_added asked added]
        have appends := appends_of_stored accepted three list dbfd same rfl
        refine appends.trans ?_
        simp [three]

/-- The file of an empty database. -/
def emptyFile : List UInt8 := [76, 76, 65, 68, 0, 1, 0, 0, 0, 0, 0, 12]

private theorem emptyFile_accepted (resize : Resize) : Accepted (granting resize []) emptyFile where
  permitted := rfl
  headerAllocated := rfl
  employeesAllocated := rfl
  header := ⟨by decide, by decide, by decide, by decide⟩
  ended := by decide
  room := by decide
  complete _ := rfl

/-- Adding `a,b` to it uses hours that were not found, and adding `a,b,1` after the block was moved
writes to where no record is left.
-/
theorem add_uses_missing
    : (main (adding [97, 44, 98] false) (granting (.inPlace fun _ => employeeOf []) []) 3
          (some emptyFile)).ending
        = .missingField
      ∧ (main (adding [97, 44, 98, 44, 49] false) (granting .moved []) 3 (some emptyFile)).ending
        = .halted .outOfBounds
      ∧ Accepted (granting (.inPlace fun _ => employeeOf []) []) emptyFile
      ∧ Accepted (granting .moved []) emptyFile
      ∧ ¬ AppendsOrKeeps emptyFile [97, 44, 98]
          (main (adding [97, 44, 98] false) (granting (.inPlace fun _ => employeeOf []) []) 3
            (some emptyFile)) := by
  have missing : (main (adding [97, 44, 98] false)
      (granting (.inPlace fun _ => employeeOf []) []) 3 (some emptyFile)).ending
      = .missingField := by
    rfl
  exact ⟨missing, rfl, emptyFile_accepted _, emptyFile_accepted _,
    not_appendsOrKeeps (by simp [missing])⟩

/-- Adding `a,b,1` to it while the block grows in place. -/
theorem add_appends_iff_one
    : AppendsOrKeeps emptyFile [97, 44, 98, 44, 49]
        (main (adding [97, 44, 98, 44, 49] false)
          (granting (.inPlace fun _ => employeeOf []) []) 3 (some emptyFile)) :=
  (add_appends_iff (emptyFile_accepted _) (by decide) false 3).mpr
    (Or.inr ⟨⟨_, rfl⟩, by decide, by simp⟩)

end LowlevelAcademy.Correctness
