import LowlevelAcademy.Database.Format

/-! Adding a record: the server splits the add string in place, grows the array by one and
fills the last record. The outcome is related to the comma-separated fields of the string.
-/

namespace LowlevelAcademy.Database

open LowlevelAcademy.Foundations

/-- The record that the two `strncpy` calls and `atoi` put into the last element; every byte
of it is overwritten.
-/
def newEmployee (name address hours : List UInt8) : Employee where
  name := strncpy nul 256 name
  address := strncpy nul 256 address
  hours := (atoi (cString nul hours)).toUInt32

/-- The part of `add_employee` after the fields were found: the counter is incremented first,
then the array is reallocated and the caller's pointer overwritten. The result is not tested
(the source tests the pointer's address), so a NULL array is written through.
-/
def appendEmployee (fresh : Option (Nat → Employee)) (db : Db) (employee : Employee)
    : Except Halt Db :=
  let header := { db.header with count := db.header.count + 1 }
  match realloc fresh db.employees header.count.toNat with
  | none => .error .nullArray
  | some employees =>
      let last := header.count.toNat - 1
      if last < employees.length then .ok ⟨header, some (employees.set last employee)⟩
      else .error .outOfBounds

/-- What `add_employee` leaves behind, with the memory of the add string it edited. -/
structure Added where
  status : Status
  db : Db
  memory : List UInt8

/-- `add_employee` of the server. `memory` is the memory from the add string on; a scan that
leaves it has no defined result. `fresh` is the outcome of `realloc`.
-/
def addEmployee (fresh : Option (Nat → Employee)) (db : Db) (memory : List UInt8)
    : Except Halt Added :=
  match strtok nul comma memory 0 with
  | none => .error .overrun
  | some ⟨memory, _, none⟩ => .ok ⟨.error, db, memory⟩
  | some ⟨memory, save, some name⟩ =>
      match strtok nul comma memory save with
      | none => .error .overrun
      | some ⟨memory, _, none⟩ => .ok ⟨.error, db, memory⟩
      | some ⟨memory, save, some address⟩ =>
          match strtok nul comma memory save with
          | none => .error .overrun
          | some ⟨memory, _, none⟩ => .ok ⟨.error, db, memory⟩
          | some ⟨memory, _, some hours⟩ =>
              if atoi (cString nul (memory.drop hours)) = 0 then .ok ⟨.error, db, memory⟩
              else
                match appendEmployee fresh db
                    (newEmployee (memory.drop name) (memory.drop address)
                      (memory.drop hours)) with
                | .error halt => .error halt
                | .ok db => .ok ⟨.success, db, memory⟩

/-- Appending to a held database keeps every record and adds one. Witness: `realloc` returns
no block when the counter wraps to zero, so the new counter is one larger.
-/
theorem appendEmployee_holds {fresh : Option (Nat → Employee)} {db next : Db}
    {records : List Employee} {employee : Employee} (holds : db.Holds records)
    (appended : appendEmployee fresh db employee = .ok next)
    : next.Holds (records ++ [employee])
      ∧ next.header = { db.header with count := db.header.count + 1 } := by
  have added : (db.header.count + 1).toNat = (records.length + 1) % 2 ^ 16 := by
    rw [UInt16.toNat_add, holds.count]
    rfl
  have bound := holds.bound
  by_cases wraps : records.length = 65535
  · have zero : (db.header.count + 1).toNat = 0 := by omega
    simp [appendEmployee, realloc, zero] at appended
  · have count : (db.header.count + 1).toNat = records.length + 1 := by omega
    cases fresh with
    | none => simp [appendEmployee, realloc] at appended
    | some contents =>
        simp only [appendEmployee, holds.employees, count, realloc_succ,
          Nat.add_sub_cancel] at appended
        rw [if_pos (by simp)] at appended
        obtain rfl := Except.ok.inj appended
        have stored : (records ++ [contents records.length]).set records.length employee
            = records ++ [employee] := by
          rw [List.set_append_right _ _ (Nat.le_refl _)]
          simp
        exact ⟨⟨by simp [stored], by simp [count]⟩, rfl⟩

/-- Whatever the array was before, appending leaves one with as many records as the counter
says, the new record last.
-/
theorem appendEmployee_last {fresh : Option (Nat → Employee)} {db next : Db}
    {employee : Employee} (appended : appendEmployee fresh db employee = .ok next)
    : ∃ earlier,
        next.Holds (earlier ++ [employee])
        ∧ next.header = { db.header with count := db.header.count + 1 } := by
  simp only [appendEmployee] at appended
  split at appended
  · cases appended
  next grown allocated =>
  split_ifs at appended with inside
  obtain rfl := Except.ok.inj appended
  have size := realloc_length allocated
  have last : grown.set ((db.header.count + 1).toNat - 1) employee
      = grown.take ((db.header.count + 1).toNat - 1) ++ [employee] := by
    rw [List.set_eq_take_append_cons_drop, if_pos inside, List.drop_eq_nil_of_le (by omega)]
  refine ⟨_, ⟨congrArg some last, ?_⟩, rfl⟩
  rw [List.length_append, List.length_take, List.length_singleton]
  simp only
  omega

/-- Appending succeeds exactly when memory is available and the counter does not wrap. -/
theorem appendEmployee_ok_iff {fresh : Option (Nat → Employee)} {db : Db} (employee : Employee)
    : (∃ next, appendEmployee fresh db employee = .ok next)
      ↔ fresh ≠ none ∧ db.header.count.toNat < 65535 := by
  have added : (db.header.count + 1).toNat = (db.header.count.toNat + 1) % 2 ^ 16 := by
    rw [UInt16.toNat_add]
    rfl
  have bound := db.header.count.toNat_lt
  cases fresh with
  | none => simp [appendEmployee, realloc]
  | some contents =>
      by_cases wraps : (db.header.count + 1).toNat = 0
      · have full : ¬ db.header.count.toNat < 65535 := by omega
        simp [appendEmployee, realloc, wraps, full]
      · have room : db.header.count.toNat < 65535 := by omega
        obtain ⟨grown, allocated⟩ : ∃ grown,
            realloc (some contents) db.employees (db.header.count + 1).toNat = some grown := by
          rw [realloc, if_neg wraps]
          exact ⟨_, rfl⟩
        have inside : (db.header.count + 1).toNat - 1 < grown.length := by
          rw [realloc_length allocated]
          omega
        simp only [appendEmployee, allocated, if_pos inside]
        simp [room]

/-- While the counter does not wrap and memory is available, appending succeeds. -/
theorem appendEmployee_ok (contents : Nat → Employee) {db : Db} {records : List Employee}
    (employee : Employee) (holds : db.Holds records) (room : records.length < 65535)
    : ∃ next, appendEmployee (some contents) db employee = .ok next :=
  (appendEmployee_ok_iff employee).mpr ⟨by simp, by rwa [holds.count]⟩

/-- A rejected add string leaves the database as it is; an accepted one appends one record.
-/
theorem addEmployee_cases {fresh : Option (Nat → Employee)} {db : Db} {memory : List UInt8}
    {added : Added} (result : addEmployee fresh db memory = .ok added)
    : (added.status = .error ∧ added.db = db)
      ∨ added.status = .success
        ∧ ∃ employee, appendEmployee fresh db employee = .ok added.db := by
  simp only [addEmployee] at result
  split at result
  · cases result
  · exact Or.inl (by obtain rfl := Except.ok.inj result; exact ⟨rfl, rfl⟩)
  split at result
  · cases result
  · exact Or.inl (by obtain rfl := Except.ok.inj result; exact ⟨rfl, rfl⟩)
  split at result
  · cases result
  · exact Or.inl (by obtain rfl := Except.ok.inj result; exact ⟨rfl, rfl⟩)
  split at result
  · exact Or.inl (by obtain rfl := Except.ok.inj result; exact ⟨rfl, rfl⟩)
  split at result
  · cases result
  · next appended =>
      obtain rfl := Except.ok.inj result
      exact Or.inr ⟨rfl, _, appended⟩

-----------------------------------------------------------------------------------------
-- Terminated add strings, by their comma-separated fields
-----------------------------------------------------------------------------------------

/-- The nonempty fields of an add string. -/
abbrev fields (request : List UInt8) : List (List UInt8) := tokens comma request

/-- An add string is accepted when it has three fields and the third converts to a nonzero
number.
-/
def acceptable (request : List UInt8) : Bool :=
  match fields request with
  | _ :: _ :: hours :: _ => atoi hours != 0
  | _ => false

/-- The record that an accepted add string describes. -/
def employeeOf (request : List UInt8) : Employee :=
  match fields request with
  | name :: address :: hours :: _ => newEmployee name address hours
  | _ => newEmployee [] [] []

/-- A record depends on its source memory only through the strings found there. -/
theorem newEmployee_congr {name address hours name' address' hours' : List UInt8}
    (sameName : cString nul name = cString nul name')
    (sameAddress : cString nul address = cString nul address')
    (sameHours : cString nul hours = cString nul hours')
    : newEmployee name address hours = newEmployee name' address' hours' := by
  simp only [newEmployee, strncpy, sameName, sameAddress, sameHours]

/-- The record of three fields found in memory is the one that the add string describes. -/
theorem newEmployee_of_fields {request memory piece1 piece2 piece3 : List UInt8}
    {more : List (List UInt8)} {start1 start2 start3 : Nat} (clean : nul ∉ request)
    (pieces : fields request = piece1 :: piece2 :: piece3 :: more)
    (read1 : cString nul (memory.drop start1) = piece1)
    (read2 : cString nul (memory.drop start2) = piece2)
    (read3 : cString nul (memory.drop start3) = piece3)
    : newEmployee (memory.drop start1) (memory.drop start2) (memory.drop start3)
      = employeeOf request := by
  have cleanPiece : ∀ piece ∈ fields request, nul ∉ piece :=
    fun piece member inside => clean (mem_of_mem_tokens member inside)
  rw [employeeOf, pieces]
  apply newEmployee_congr
  · rw [read1, cString_of_clean (cleanPiece piece1 (by simp [pieces]))]
  · rw [read2, cString_of_clean (cleanPiece piece2 (by simp [pieces]))]
  · rw [read3, cString_of_clean (cleanPiece piece3 (by simp [pieces]))]

/-- The outcome of adding for a terminated string. -/
def addResult (fresh : Option (Nat → Employee)) (db : Db) (request memory : List UInt8)
    : Except Halt Added :=
  if acceptable request then
    match appendEmployee fresh db (employeeOf request) with
    | .error halt => .error halt
    | .ok db => .ok ⟨.success, db, memory⟩
  else .ok ⟨.error, db, memory⟩

/-- On a terminated add string the three tokenizer calls find its first three fields. What
lies behind the terminator is neither used nor changed.
-/
theorem addEmployee_terminated (fresh : Option (Nat → Employee)) (db : Db)
    {request : List UInt8} (clean : nul ∉ request) (rest : List UInt8)
    : ∃ edited,
        edited.length = request.length
        ∧ addEmployee fresh db (request ++ nul :: rest)
          = addResult fresh db request (edited ++ nul :: rest) := by
  obtain ⟨memory1, save1, first, memory2, save2, second, edited, save3, third, call1, call2, call3,
    size, kept1, kept2, name, address, hours⟩ :=
    strtok_three (by decide : nul ≠ comma) clean rest
  refine ⟨edited, size, ?_⟩
  rcases pieces : fields request with _ | ⟨piece1, _ | ⟨piece2, _ | ⟨piece3, more⟩⟩⟩
  · obtain rfl : first = none := by simpa [pieces] using name
    simp [addEmployee, call1, addResult, acceptable, pieces, kept1]
  · obtain ⟨start1, rfl, -⟩ : ∃ start, first = some start ∧ _ := by simpa [pieces] using name
    obtain rfl : second = none := by simpa [pieces] using address
    simp [addEmployee, call1, call2, addResult, acceptable, pieces, kept2]
  · obtain ⟨start1, rfl, -⟩ : ∃ start, first = some start ∧ _ := by simpa [pieces] using name
    obtain ⟨start2, rfl, -⟩ : ∃ start, second = some start ∧ _ := by simpa [pieces] using address
    obtain rfl : third = none := by simpa [pieces] using hours
    simp [addEmployee, call1, call2, call3, addResult, acceptable, pieces]
  · obtain ⟨start1, rfl, read1⟩ : ∃ start, first = some start ∧ _ := by
      simpa [pieces] using name
    obtain ⟨start2, rfl, read2⟩ : ∃ start, second = some start ∧ _ := by
      simpa [pieces] using address
    obtain ⟨start3, rfl, read3⟩ : ∃ start, third = some start ∧ _ := by
      simpa [pieces] using hours
    have employee := newEmployee_of_fields clean pieces read1 read2 read3
    have accepted : acceptable request = (atoi piece3 != 0) := by
      simp only [acceptable, pieces]
    simp only [addEmployee, call1, call2, call3, addResult, accepted, read3, employee]
    by_cases zero : atoi piece3 = 0
    · simp [zero]
    · simp [zero]

/-- The add string for a name, an address and a number of hours. -/
def addText (name address : List UInt8) (hours : Nat) : List UInt8 :=
  name ++ comma :: (address ++ comma :: decimalText hours)

/-- An add string is made of these three fields: none empty, only the commas between them, and
hours that an `int` can hold.
-/
structure MadeOf (request name address : List UInt8) (hours : Nat) : Prop where
  text : request = addText name address hours
  name : comma ∉ name ∧ name ≠ []
  address : comma ∉ address ∧ address ≠ []
  hours : 0 < hours ∧ hours ≤ 2147483647

/-- Such an add string has these fields and no others. -/
theorem MadeOf.fields {request name address : List UInt8} {hours : Nat}
    (made : MadeOf request name address hours)
    : fields request = [name, address, decimalText hours] := by
  have noComma : comma ∉ decimalText hours :=
    fun member => absurd (isDigit_of_mem_decimalText member) (by decide)
  rw [made.text, Database.fields, addText, tokens_more made.name.1 made.name.2,
    tokens_more made.address.1 made.address.2,
    tokens_single noComma (decimalText_ne_nil made.hours.1)]

/-- The hours of such an add string are read as they were meant. -/
theorem MadeOf.atoi_hours {request name address : List UInt8} {hours : Nat}
    (made : MadeOf request name address hours)
    : (atoi (decimalText hours)).toInt = hours ∧ 0 < atoi (decimalText hours) := by
  have bounds := made.hours
  have value : (atoi (decimalText hours)).toInt = hours := by
    rw [atoi_decimalText bounds.1 (by omega), Int32.toInt_ofNat_of_lt (by omega)]
  refine ⟨value, Int32.lt_iff_toInt_lt.mpr ?_⟩
  rw [value, Int32.toInt_zero]
  exact_mod_cast bounds.1

/-- Such an add string is accepted. -/
theorem MadeOf.acceptable {request name address : List UInt8} {hours : Nat}
    (made : MadeOf request name address hours)
    : acceptable request := by
  simp [Database.acceptable, made.fields, (Int32.ne_of_lt made.atoi_hours.2).symm]

-----------------------------------------------------------------------------------------
-- Add strings that end inside their own memory
-----------------------------------------------------------------------------------------

/-- Appending never leaves the add string's memory, since it does not look at it. -/
theorem appendEmployee_ne_overrun (fresh : Option (Nat → Employee)) (db : Db)
    (employee : Employee)
    : appendEmployee fresh db employee ≠ .error .overrun := by
  simp only [appendEmployee]
  split
  · simp
  · split_ifs <;> simp

/-- The add string ends inside its memory: at a terminator, or since three fields are each
ended by a comma and no further one is looked for.
-/
def EndsInside (memory : List UInt8) : Prop :=
  nul ∈ memory ∨ 3 ≤ (completed comma memory).length

instance (memory : List UInt8) : Decidable (EndsInside memory) :=
  inferInstanceAs (Decidable (_ ∨ _))

/-- An add string that ends inside its memory does so in a longer memory. -/
theorem EndsInside.append {memory : List UInt8} (ends : EndsInside memory)
    (rest : List UInt8)
    : EndsInside (memory ++ rest) :=
  ends.imp (List.mem_append_left rest) fun three => three.trans (completed_append comma memory rest)

/-- A string read at a position that a terminator follows is the same in a longer memory. -/
private theorem cString_drop_append {memory : List UInt8} {start : Nat}
    (terminated : nul ∈ memory.drop start) (rest : List UInt8)
    : cString nul ((memory ++ rest).drop start) = cString nul (memory.drop start) := by
  have inside : start ≤ memory.length := by
    by_contra beyond
    rw [List.drop_eq_nil_of_le (by omega)] at terminated
    simp at terminated
  rw [List.drop_append_of_le_length inside, cString_append_of_mem terminated]

/-- An add string that is scanned without leaving its memory has the same outcome in a longer
memory, whose added part stays as it is.
-/
theorem addEmployee_append {fresh : Option (Nat → Employee)} {db : Db}
    {memory : List UInt8} (stays : addEmployee fresh db memory ≠ .error .overrun)
    (rest : List UInt8)
    : addEmployee fresh db (memory ++ rest)
      = (addEmployee fresh db memory).map fun added =>
          { added with memory := added.memory ++ rest } := by
  cases call1 : strtok nul comma memory 0 with
  | none => simp [addEmployee, call1] at stays
  | some scan1 =>
  obtain ⟨memory1, save1, _ | name⟩ := scan1
  · simp [addEmployee, call1, strtok_append call1 rest, Except.map]
  have longer1 := strtok_append call1 rest
  have named := strtok_terminated call1 rfl
  cases call2 : strtok nul comma memory1 save1 with
  | none => simp [addEmployee, call1, call2] at stays
  | some scan2 =>
  obtain ⟨memory2, save2, _ | address⟩ := scan2
  · simp [addEmployee, call1, longer1, call2, strtok_append call2 rest, Except.map]
  have longer2 := strtok_append call2 rest
  have addressed := strtok_terminated call2 rfl
  cases call3 : strtok nul comma memory2 save2 with
  | none => simp [addEmployee, call1, call2, call3] at stays
  | some scan3 =>
  obtain ⟨memory3, save3, _ | hours⟩ := scan3
  · simp [addEmployee, call1, longer1, call2, longer2, call3, strtok_append call3 rest,
      Except.map]
  have longer3 := strtok_append call3 rest
  -- all three tokens are terminated in the memory that is left in the end
  have sameHours := cString_drop_append (strtok_terminated call3 rfl) rest
  have sameEmployee : newEmployee ((memory3 ++ rest).drop name)
      ((memory3 ++ rest).drop address) ((memory3 ++ rest).drop hours)
      = newEmployee (memory3.drop name) (memory3.drop address) (memory3.drop hours) :=
    newEmployee_congr
      (cString_drop_append (strtok_keeps call3 (strtok_keeps call2 named)) rest)
      (cString_drop_append (strtok_keeps call3 addressed) rest) sameHours
  dsimp only at sameHours
  simp only [addEmployee, call1, longer1, call2, longer2, call3, longer3, sameHours,
    sameEmployee]
  split_ifs
  · rfl
  · cases appendEmployee fresh db _ <;> rfl

/-- Only the memory it leaves depends on the memory that an outcome is given. -/
theorem addResult_memory (fresh : Option (Nat → Employee)) (db : Db)
    (request memory other : List UInt8)
    : (addResult fresh db request memory).map (fun added => { added with memory := other })
      = addResult fresh db request other := by
  simp only [addResult]
  split_ifs
  · cases appendEmployee fresh db (employeeOf request) <;> rfl
  · rfl

/-- The outcome of adding depends only on the string that is read from the memory, as long as
the scan does not leave it.
-/
theorem addEmployee_request {fresh : Option (Nat → Employee)} {db : Db}
    {memory : List UInt8} (stays : addEmployee fresh db memory ≠ .error .overrun)
    : ∃ edited,
        addEmployee fresh db memory = addResult fresh db (cString nul memory) edited := by
  -- a terminator behind the memory changes neither the outcome nor the string
  have longer := addEmployee_append stays [nul]
  have member : nul ∈ memory ++ [nul] := by simp
  obtain ⟨rest, split⟩ := cString_split member
  have same : cString nul (memory ++ [nul]) = cString nul memory := by
    by_cases terminated : nul ∈ memory
    · exact cString_append_of_mem terminated [nul]
    · rw [cString_append terminated, cString_of_clean terminated]
  have clean := nul_not_mem_cString nul (memory ++ [nul])
  rw [same] at split clean
  obtain ⟨edited, -, outcome⟩ := addEmployee_terminated fresh db clean rest
  rw [← split, longer] at outcome
  obtain ⟨final, restored⟩ : ∃ final, addEmployee fresh db memory
      = ((addEmployee fresh db memory).map fun added =>
          { added with memory := added.memory ++ [nul] }).map
            fun added => { added with memory := final } := by
    cases addEmployee fresh db memory with
    | error halt => exact ⟨[], rfl⟩
    | ok added => exact ⟨added.memory, rfl⟩
  exact ⟨final, by rw [restored, outcome, addResult_memory]⟩

/-- The two ways of an add request are told apart by its string. -/
theorem acceptable_of_added {fresh : Option (Nat → Employee)} {memory edited : List UInt8}
    {status : Status} {next : Db}
    (scanned : addEmployee fresh db memory = .ok ⟨status, next, edited⟩)
    : (status = .success ↔ acceptable (cString nul memory))
      ∧ (acceptable (cString nul memory) → fresh ≠ none ∧ db.header.count.toNat < 65535) := by
  obtain ⟨final, outcome⟩ := addEmployee_request (by rw [scanned]; simp)
  rw [scanned, addResult] at outcome
  split_ifs at outcome with accepted
  · split at outcome
    · cases outcome
    next appended =>
    cases outcome
    exact ⟨by simp [accepted], fun _ => (appendEmployee_ok_iff _).mp ⟨_, appended⟩⟩
  · cases outcome
    exact ⟨by simp [accepted], fun impossible => absurd impossible accepted⟩

/-- What adding makes of its memory, and whether it accepts, does not depend on the database. -/
theorem addEmployee_agrees {fresh fresh' : Option (Nat → Employee)} {db db' : Db}
    {memory : List UInt8} {added added' : Added}
    (result : addEmployee fresh db memory = .ok added)
    (other : addEmployee fresh' db' memory = .ok added')
    : added.status = added'.status ∧ added.memory = added'.memory := by
  simp only [addEmployee] at result other
  split at result
  · cases result
  · next call1 =>
      simp only [call1] at other
      cases result
      cases other
      exact ⟨rfl, rfl⟩
  next call1 =>
  simp only [call1] at other
  split at result
  · cases result
  · next call2 =>
      simp only [call2] at other
      cases result
      cases other
      exact ⟨rfl, rfl⟩
  next call2 =>
  simp only [call2] at other
  split at result
  · cases result
  · next call3 =>
      simp only [call3] at other
      cases result
      cases other
      exact ⟨rfl, rfl⟩
  next call3 =>
  simp only [call3] at other
  split_ifs at result other
  · cases result
    cases other
    exact ⟨rfl, rfl⟩
  · split at result
    · cases result
    split at other
    · cases other
    cases result
    cases other
    exact ⟨rfl, rfl⟩

/-- Adding edits the add string in place, so the size of its memory stays. -/
theorem addEmployee_length {fresh : Option (Nat → Employee)} {db : Db}
    {memory : List UInt8} {added : Added} (result : addEmployee fresh db memory = .ok added)
    : added.memory.length = memory.length := by
  simp only [addEmployee] at result
  split at result
  · cases result
  · next call1 =>
      obtain rfl := Except.ok.inj result
      exact strtok_length call1
  next call1 =>
  have length1 := strtok_length call1
  split at result
  · cases result
  · next call2 =>
      obtain rfl := Except.ok.inj result
      exact (strtok_length call2).trans length1
  next call2 =>
  have length2 := (strtok_length call2).trans length1
  split at result
  · cases result
  · next call3 =>
      obtain rfl := Except.ok.inj result
      exact (strtok_length call3).trans length2
  next call3 =>
  have length3 := (strtok_length call3).trans length2
  split at result
  · obtain rfl := Except.ok.inj result
    exact length3
  split at result
  · cases result
  · obtain rfl := Except.ok.inj result
    exact length3

/-- An add string that ends inside its memory is scanned without leaving it. -/
theorem addEmployee_endsInside (fresh : Option (Nat → Employee)) (db : Db)
    {memory : List UInt8} (ends : EndsInside memory)
    : addEmployee fresh db memory ≠ .error .overrun := by
  by_cases terminated : nul ∈ memory
  · obtain ⟨rest, split⟩ := cString_split terminated
    obtain ⟨edited, -, result⟩ :=
      addEmployee_terminated fresh db (nul_not_mem_cString nul memory) rest
    rw [split, result, addResult]
    split_ifs
    · split
      · next halt appended =>
          rintro ⟨⟩
          exact appendEmployee_ne_overrun _ _ _ appended
      · simp
    · simp
  · have three := ends.resolve_left terminated
    have distinct : nul ≠ comma := by decide
    obtain ⟨first, second, third, later, found⟩ : ∃ first second third later,
        completed comma memory = first :: second :: third :: later := by
      rcases pieces : completed comma memory with _ | ⟨first, _ | ⟨second, _ | ⟨third, later⟩⟩⟩
      · simp [pieces] at three
      · simp [pieces] at three
      · simp [pieces] at three
      · exact ⟨first, second, third, later, rfl⟩
    obtain ⟨piece1, remaining1, name, call1, clean1, two⟩ :=
      strtok_completed distinct [] terminated found
    obtain ⟨piece2, remaining2, address, call2, clean2, one⟩ :=
      strtok_completed distinct piece1 clean1 two
    obtain ⟨piece3, remaining3, hours, call3, -, -⟩ :=
      strtok_completed distinct (piece1 ++ piece2) clean2 one
    simp only [List.nil_append, List.length_nil] at call1
    simp only [addEmployee, call1, call2, call3]
    split_ifs
    · simp
    · split
      · next halt appended =>
          rintro ⟨⟩
          exact appendEmployee_ne_overrun _ _ _ appended
      · simp

/-- An add string is scanned beyond its memory exactly when it does not end inside. -/
theorem addEmployee_overrun_iff (fresh : Option (Nat → Employee)) (db : Db)
    (memory : List UInt8)
    : addEmployee fresh db memory = .error .overrun ↔ ¬ EndsInside memory := by
  constructor
  · exact fun overrun ends => addEmployee_endsInside fresh db ends overrun
  · intro runsOn
    obtain ⟨clean, few⟩ := not_or.mp runsOn
    have distinct : nul ≠ comma := by decide
    rcases pieces : completed comma memory with _ | ⟨first, _ | ⟨second, _ | ⟨third, later⟩⟩⟩
    · have call := strtok_leaves [] clean pieces
      simp only [List.nil_append, List.length_nil] at call
      simp only [addEmployee, call]
    · obtain ⟨piece, remaining, name, call1, clean1, none⟩ :=
        strtok_completed distinct [] clean pieces
      have call2 := strtok_leaves piece clean1 none
      simp only [List.nil_append, List.length_nil] at call1
      simp only [addEmployee, call1, call2]
    · obtain ⟨piece1, remaining1, name, call1, clean1, one⟩ :=
        strtok_completed distinct [] clean pieces
      obtain ⟨piece2, remaining2, address, call2, clean2, none⟩ :=
        strtok_completed distinct piece1 clean1 one
      have call3 := strtok_leaves (piece1 ++ piece2) clean2 none
      simp only [List.nil_append, List.length_nil] at call1
      simp only [addEmployee, call1, call2, call3]
    · rw [pieces] at few
      exact absurd (by simp) few

end LowlevelAcademy.Database
