import LowlevelAcademy.Database.Adding

/-! Add strings as the server reads them: what a string makes of the database, which strings
are accepted, and what is left when one fails.
-/

namespace LowlevelAcademy.Correctness

open LowlevelAcademy.Foundations
open LowlevelAcademy.Database

/-- The record that an add string asks for, from the nonempty pieces of the string between
commas: the first two cut or padded with zeros to 256 bytes, the third as a number modulo
`2^32`. There is none without three pieces or when the number is zero.
-/
def addReference (request : List UInt8) : Option Employee :=
  match (request.splitOn comma).filter (fun piece => !piece.isEmpty) with
  | name :: address :: hours :: _ =>
      if atoi hours = 0 then none
      else some ⟨fit 256 0 name, fit 256 0 address, UInt32.ofInt (atoi hours).toInt⟩
  | _ => none

/-- Cutting or padding a piece without a terminator is what `strncpy` does. -/
theorem strncpy_of_clean {piece : List UInt8} (clean : nul ∉ piece)
    : strncpy nul 256 piece = fit 256 0 piece := by
  rw [strncpy, cString_of_clean clean]
  refine List.Vector.eq _ _ ?_
  rcases Nat.le_total piece.length 256 with short | long
  · rw [List.take_of_length_le short]
  · have front : 256 ≤ (piece.take 256).length := by
      rw [List.length_take]
      omega
    have split : fit 256 nul (piece.take 256 ++ piece.drop 256) = fit 256 nul (piece.take 256) :=
      fit_append_of_le front (piece.drop 256)
    rw [List.take_append_drop] at split
    exact congrArg List.Vector.toList split.symm

/-- Storing a signed number in an unsigned field keeps it modulo `2^32`. -/
theorem toUInt32_eq_ofInt (x : Int32) : x.toUInt32 = UInt32.ofInt x.toInt := by
  have residue : x.toInt % (2 ^ 32 : Nat) = x.toUInt32.toNat := by
    rw [← Int32.toInt_toBitVec, BitVec.toInt_eq_toNat_bmod, ← Int32.toNat_toBitVec,
      Int.bmod_emod]
    have bound := x.toBitVec.isLt
    exact Int.emod_eq_of_lt (by omega) (by omega)
  have stored : UInt32.ofInt x.toInt = UInt32.ofNat (x.toInt % (2 ^ 32 : Nat)).toNat := rfl
  rw [stored, residue, Int.toNat_natCast, UInt32.ofNat_toNat]

/-- Accepted add strings are those with a reference record, and it is the record they add. -/
theorem addReference_eq {request : List UInt8} (clean : nul ∉ request)
    : addReference request
      = if acceptable request then some (employeeOf request) else none := by
  have pieces : (request.splitOn comma).filter (fun piece => !piece.isEmpty) = fields request :=
    rfl
  have cleanPiece : ∀ piece ∈ fields request, nul ∉ piece :=
    fun piece member inside => clean (mem_of_mem_tokens member inside)
  rw [addReference, acceptable, employeeOf, pieces]
  rcases found : fields request with _ | ⟨name, _ | ⟨address, _ | ⟨hours, more⟩⟩⟩
  · rfl
  · rfl
  · rfl
  · have record : newEmployee name address hours
        = ⟨fit 256 0 name, fit 256 0 address, UInt32.ofInt (atoi hours).toInt⟩ := by
      rw [newEmployee, strncpy_of_clean (cleanPiece name (by simp [found])),
        strncpy_of_clean (cleanPiece address (by simp [found])),
        cString_of_clean (cleanPiece hours (by simp [found])), toUInt32_eq_ofInt]
    by_cases zero : atoi hours = 0
    · simp [zero]
    · simp [zero, record]

variable {db : Db} {records : List Employee} {request : List UInt8}

/-- With memory available a terminated add string is rejected and changes nothing, or its
record is appended.
-/
theorem addEmployee_outcome (contents : Nat → Employee) (holds : db.Holds records)
    (room : records.length < 65535) (clean : nul ∉ request) (rest : List UInt8)
    : ∃ added,
        addEmployee (some contents) db (request ++ nul :: rest) = .ok added
        ∧ if acceptable request then
            added.status = .success ∧ added.db.Holds (records ++ [employeeOf request])
          else added.status = .error ∧ added.db = db := by
  obtain ⟨edited, -, outcome⟩ := addEmployee_terminated (some contents) db clean rest
  rw [outcome, addResult]
  split_ifs
  · obtain ⟨next, appended⟩ := appendEmployee_ok contents (employeeOf request) holds room
    rw [appended]
    exact ⟨_, rfl, rfl, (appendEmployee_holds holds appended).1⟩
  · exact ⟨_, rfl, rfl, rfl⟩

/-- Adding a terminated string computes the reference: it succeeds exactly when there is a
reference record, and then that record comes last and the others stay, whatever the memory
behind them held before.
-/
theorem add_employee_computes_reference (contents : Nat → Employee) (holds : db.Holds records)
    (room : records.length < 65535) (clean : nul ∉ request) (rest : List UInt8)
    : ∃ added,
        addEmployee (some contents) db (request ++ nul :: rest) = .ok added
        ∧ (added.status = .success ↔ (addReference request).isSome)
        ∧ ∀ employee ∈ addReference request, added.db.Holds (records ++ [employee]) := by
  obtain ⟨added, outcome, result⟩ := addEmployee_outcome contents holds room clean rest
  refine ⟨added, outcome, ?_⟩
  rw [addReference_eq clean]
  split_ifs at result ⊢
  · exact ⟨by simp [result.1], by simpa using result.2⟩
  · exact ⟨by simp [result.1], by simp⟩

/-- The string `,ab,,c,7` on an empty database. -/
theorem add_employee_computes_reference_one
    : ∃ added,
        addEmployee (some fun _ => employeeOf []) ⟨headerOf 0, some []⟩
            ([44, 97, 98, 44, 44, 99, 44, 55] ++ [nul])
          = .ok added
        ∧ added.status = .success
        ∧ added.db.Holds [⟨fit 256 0 [97, 98], fit 256 0 [99], 7⟩] := by
  have holds : Db.Holds ⟨headerOf 0, some []⟩ [] := ⟨rfl, rfl⟩
  have clean : nul ∉ ([44, 97, 98, 44, 44, 99, 44, 55] : List UInt8) := by decide
  obtain ⟨added, outcome, status, record⟩ :=
    add_employee_computes_reference (fun _ => employeeOf []) holds (by decide) clean []
  have reference : addReference [44, 97, 98, 44, 44, 99, 44, 55]
      = some ⟨fit 256 0 [97, 98], fit 256 0 [99], 7⟩ := by
    have hours : atoi [55] = 7 := by decide
    have pieces : ([44, 97, 98, 44, 44, 99, 44, 55] : List UInt8).splitOn comma
        = [[], [97, 98], [], [99], [55]] := by decide
    rw [addReference, pieces]
    simp only [List.isEmpty_nil, List.isEmpty_cons, List.filter_cons, Bool.not_true,
      Bool.not_false, Bool.false_eq_true, if_false, if_true, List.filter_nil, hours]
    rfl
  rw [reference] at status record
  exact ⟨added, outcome, status.mpr rfl, record _ rfl⟩

-----------------------------------------------------------------------------------------
-- Failed adds
-----------------------------------------------------------------------------------------

/-- The result of adding is all or nothing: one more record with success, or the database as it
was with an error.
-/
def AllOrNothing (db : Db) (records : List Employee) (result : Except Halt Added) : Prop :=
  ∃ added,
    result = .ok added
    ∧ (added.status = .success ∧ (∃ employee, added.db.Holds (records ++ [employee]))
      ∨ added.status = .error ∧ added.db = db)

/-- Adding a terminated string is all or nothing exactly when memory is available or the string
is rejected before any is asked for. Otherwise a NULL array is written through.
-/
theorem add_employee_atomic_iff (fresh : Option (Nat → Employee)) (holds : db.Holds records)
    (room : records.length < 65535) (clean : nul ∉ request) (rest : List UInt8)
    : AllOrNothing db records (addEmployee fresh db (request ++ nul :: rest))
      ↔ fresh ≠ none ∨ acceptable request = false := by
  cases fresh with
  | some contents =>
      obtain ⟨added, outcome, result⟩ := addEmployee_outcome contents holds room clean rest
      rw [outcome]
      refine iff_of_true ⟨added, rfl, ?_⟩ (Or.inl (by simp))
      split_ifs at result
      · exact Or.inl ⟨result.1, _, result.2⟩
      · exact Or.inr result
  | none =>
      obtain ⟨edited, -, outcome⟩ := addEmployee_terminated none db clean rest
      rw [outcome, addResult]
      cases accepted : acceptable request with
      | true =>
          have halts : appendEmployee none db (employeeOf request) = .error .nullArray := by
            simp [appendEmployee, realloc]
          simp [AllOrNothing, halts]
      | false => simp [AllOrNothing]

/-- Without memory the string `a,b,1` is rejected by no test and the record is written through
NULL.
-/
theorem add_employee_not_atomic
    : addEmployee none ⟨headerOf 0, some []⟩ [97, 44, 98, 44, 49, 0] = .error .nullArray
      ∧ ¬ AllOrNothing ⟨headerOf 0, some []⟩ []
          (addEmployee none ⟨headerOf 0, some []⟩ [97, 44, 98, 44, 49, 0]) := by
  have halts : addEmployee none ⟨headerOf 0, some []⟩ [97, 44, 98, 44, 49, 0]
      = .error .nullArray := by
    rfl
  rw [halts]
  exact ⟨rfl, by simp [AllOrNothing]⟩

/-- The string `a,b` without memory, on an empty database. -/
theorem add_employee_atomic_iff_short
    : AllOrNothing ⟨headerOf 0, some []⟩ []
        (addEmployee none ⟨headerOf 0, some []⟩ ([97, 44, 98] ++ [nul])) :=
  (add_employee_atomic_iff none ⟨rfl, rfl⟩ (by decide) (by decide) []).mpr
    (Or.inr (by decide))

-----------------------------------------------------------------------------------------
-- The accepted strings
-----------------------------------------------------------------------------------------

/-- Three nonempty pieces between commas, of which the third converts to a nonzero number.
Empty pieces are skipped and further ones ignored.
-/
def ThreeFields (request : List UInt8) (hours : Int32) : Prop :=
  (∃ name address text more,
    fields request = name :: address :: text :: more ∧ atoi text = hours)
  ∧ hours ≠ 0

/-- The strings with three such pieces are the acceptable ones. -/
theorem acceptable_iff (request : List UInt8)
    : acceptable request ↔ ∃ hours, ThreeFields request hours := by
  rw [acceptable]
  split
  next name address text more found =>
    constructor
    · intro nonzero
      exact ⟨_, ⟨name, address, text, more, found, rfl⟩, by simpa using nonzero⟩
    · rintro ⟨hours, ⟨_, _, _, _, found', rfl⟩, nonzero⟩
      obtain ⟨rfl, rfl, rfl, rfl⟩ : _ ∧ _ ∧ _ ∧ _ := by simpa [found] using found'
      simpa using nonzero
  next few =>
    refine iff_of_false (by simp) ?_
    rintro ⟨hours, ⟨name, address, text, more, found, -⟩, -⟩
    exact few _ _ _ _ found

/-- The record of such a string has these hours. -/
theorem ThreeFields.hours {hours : Int32} (three : ThreeFields request hours)
    (clean : nul ∉ request)
    : (employeeOf request).hours = hours.toUInt32 := by
  obtain ⟨⟨name, address, text, more, found, converted⟩, -⟩ := three
  have member : text ∈ fields request := by simp [found]
  have textClean : nul ∉ text := fun inside => clean (mem_of_mem_tokens member inside)
  rw [employeeOf, found]
  simp only [newEmployee, cString_of_clean textClean, converted]

/-- A terminated string is accepted exactly when it has three nonempty pieces between commas
and the third converts to a nonzero number; a positive one is stored. The strings made of a
name, an address and hours that an `int` can hold are among them. Every other string is
rejected without changes, also without memory.
-/
theorem add_employee_accepts_iff (contents : Nat → Employee) (holds : db.Holds records)
    (room : records.length < 65535) (clean : nul ∉ request) (rest : List UInt8)
    : (∃ added,
        addEmployee (some contents) db (request ++ nul :: rest) = .ok added
        ∧ (added.status = .success ↔ ∃ hours, ThreeFields request hours)
        ∧ (∀ hours,
          ThreeFields request hours
          → ∃ last,
              added.db.Holds (records ++ [last])
              ∧ (0 < hours → last.hours.toNat = hours.toInt)))
      ∧ (∀ name address hours,
        MadeOf request name address hours
        → ∃ stored, ThreeFields request stored ∧ 0 < stored ∧ stored.toInt = hours)
      ∧ ∀ fresh,
          (¬ ∃ hours, ThreeFields request hours)
          → ∃ edited,
              addEmployee fresh db (request ++ nul :: rest) = .ok ⟨.error, db, edited⟩ := by
  refine ⟨?_, ?_, ?_⟩
  · obtain ⟨added, outcome, result⟩ := addEmployee_outcome contents holds room clean rest
    refine ⟨added, outcome, ?_, fun hours three => ?_⟩
    · rw [← acceptable_iff]
      split_ifs at result <;> simp_all
    · rw [if_pos ((acceptable_iff request).mpr ⟨hours, three⟩)] at result
      refine ⟨_, result.2, fun positive => ?_⟩
      rw [three.hours clean, Int32.toNat_toUInt32_of_le (Int32.le_of_lt positive)]
      exact Int32.cast_toNatClampNeg _ (Int32.le_of_lt positive)
  · intro name address hours made
    obtain ⟨value, positive⟩ := made.atoi_hours
    have three : ThreeFields request (atoi (decimalText hours)) :=
      ⟨⟨_, _, _, _, made.fields, rfl⟩, (Int32.ne_of_lt positive).symm⟩
    exact ⟨_, three, positive, value⟩
  · intro fresh none
    obtain ⟨edited, -, outcome⟩ := addEmployee_terminated fresh db clean rest
    rw [← acceptable_iff] at none
    exact ⟨_, by rw [outcome, addResult, if_neg none]⟩

/-- The string `a,b,1x` is accepted on an empty database, although it is not made of a name, an
address and hours.
-/
theorem add_employee_accepts_more
    : (∃ db edited,
        addEmployee (some fun _ => employeeOf []) ⟨headerOf 0, some []⟩
            [97, 44, 98, 44, 49, 120, 0]
          = .ok ⟨.success, db, edited⟩)
      ∧ ¬ ∃ name address hours, MadeOf [97, 44, 98, 44, 49, 120] name address hours := by
  constructor
  · exact ⟨_, _, rfl⟩
  · rintro ⟨name, address, hours, made⟩
    have found : fields [97, 44, 98, 44, 49, 120] = [[97], [98], [49, 120]] := by decide
    have text : decimalText hours = [49, 120] := by
      have pieces := made.fields
      simp only [found, List.cons.injEq] at pieces
      exact pieces.2.2.1.symm
    have letter : 120 ∈ decimalText hours := by simp [text]
    exact absurd (isDigit_of_mem_decimalText letter) (by decide)

/-- The string `a,b,1` on an empty database. -/
theorem add_employee_accepts_iff_one
    : ∃ added last,
        addEmployee (some fun _ => employeeOf []) ⟨headerOf 0, some []⟩
            ([97, 44, 98, 44, 49] ++ [nul])
          = .ok added
        ∧ added.status = .success
        ∧ added.db.Holds [last]
        ∧ last.hours.toNat = 1 := by
  have made : MadeOf [97, 44, 98, 44, 49] [97] [98] 1 :=
    ⟨by decide, by decide, by decide, by decide⟩
  have holds : Db.Holds ⟨headerOf 0, some []⟩ [] := ⟨rfl, rfl⟩
  have clean : nul ∉ ([97, 44, 98, 44, 49] : List UInt8) := by decide
  obtain ⟨⟨added, outcome, status, stores⟩, makes, -⟩ :=
    add_employee_accepts_iff (fun _ => employeeOf []) holds (by decide) clean []
  obtain ⟨hours, three, positive, value⟩ := makes _ _ _ made
  obtain ⟨last, holds, stored⟩ := stores hours three
  have one := stored positive
  rw [value] at one
  exact ⟨added, last, outcome, status.mpr ⟨hours, three⟩, holds, by exact_mod_cast one⟩

end LowlevelAcademy.Correctness
