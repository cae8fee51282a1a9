import LowlevelAcademy.Database.Adding
import LowlevelAcademy.Correctness.Persistence

/-! Saves that are cut off: the new file is written over the old one from its start, and a file
that is part new and part old is refused or loaded as one of the two databases.
-/

namespace LowlevelAcademy.Correctness

open LowlevelAcademy.Foundations
open LowlevelAcademy.Database

/-- The part of a file's header that does not depend on the number of records. -/
private def headerFront : List UInt8 := beBytes 4 headerMagic.toNat ++ beBytes 2 1

/-- The size of the file, as its header stores it. -/
private abbrev sizeBytes (count : Nat) : List UInt8 :=
  beBytes 4 (headerSize + employeeSize * count)

private theorem encodeHeader_split (count : Nat)
    : encodeHeader count = headerFront ++ (beBytes 2 count ++ sizeBytes count) := by
  simp only [encodeHeader, headerFront, List.append_assoc]

/-- The two bytes of a counter, high byte first. -/
private theorem beBytes_two (count : Nat)
    : beBytes 2 count = [UInt8.ofNat (count / 256), UInt8.ofNat count] :=
  rfl

/-- A header that starts as the one for a further record and goes on as the old one is the old
one, or it counts too many records. The counter's two bytes are the only place where this
needs the digits: half of it may be new when the addition carries.
-/
private theorem torn_header {count cut : Nat} (room : count < 65535) (inside : cut < headerSize)
    : (encodeHeader (count + 1)).take cut ++ (encodeHeader count).drop cut = encodeHeader count
      ∨ ∃ counted size,
          count < counted
          ∧ counted ≤ 65535
          ∧ size.length = 4
          ∧ (encodeHeader (count + 1)).take cut ++ (encodeHeader count).drop cut
            = headerFront ++ (beBytes 2 counted ++ size) := by
  have front : headerFront.length = 6 := rfl
  rcases Nat.lt_or_ge cut 7 with low | high
  · -- nothing of the counter is new
    have same : (encodeHeader (count + 1)).take cut = (encodeHeader count).take cut := by
      rw [encodeHeader_split, encodeHeader_split, List.take_append_of_le_length (by omega),
        List.take_append_of_le_length (by omega)]
    left
    rw [same, List.take_append_drop]
  · rcases Nat.eq_or_lt_of_le high with rfl | behind
    · -- the high byte of the counter is new
      have torn : (encodeHeader (count + 1)).take 7 ++ (encodeHeader count).drop 7
          = headerFront ++ ([UInt8.ofNat ((count + 1) / 256), UInt8.ofNat count]
            ++ sizeBytes count) := by
        rw [encodeHeader_split, encodeHeader_split]
        rfl
      rw [torn, encodeHeader_split, beBytes_two]
      by_cases carry : (count + 1) / 256 = count / 256
      · left
        rw [carry]
      · right
        have high : (count + 256) / 256 = (count + 1) / 256 := by omega
        have low : UInt8.ofNat (count + 256) = UInt8.ofNat count := by
          apply UInt8.toNat_inj.mp
          simp only [UInt8.toNat_ofNat']
          omega
        exact ⟨count + 256, sizeBytes count, by omega, by omega, beBytes_length 4 _,
          by rw [beBytes_two, high, low]⟩
    · right
      refine ⟨count + 1, (sizeBytes (count + 1)).take (cut - 8) ++ (sizeBytes count).drop (cut - 8),
        by omega, by omega, ?_, ?_⟩
      · simp only [headerSize] at inside
        simp only [List.length_append, List.length_take, List.length_drop, beBytes_length]
        omega
      · have place : (headerFront ++ beBytes 2 (count + 1)).length = 8 := by simp [front]
        have place' : (headerFront ++ beBytes 2 count).length = 8 := by simp [front]
        rw [encodeHeader_split, encodeHeader_split, ← List.append_assoc, ← List.append_assoc,
          List.take_append, List.drop_append, List.take_of_length_le (by omega),
          List.drop_eq_nil_of_le (by omega), place, place', List.nil_append]
        simp only [List.append_assoc]

/-- A header's counter is read back from its two bytes. -/
private theorem storedHeader_count {count : Nat} (bound : count ≤ 65535) {size : List UInt8}
    (length : size.length = 4) (rest : List UInt8)
    : (storedHeader (headerFront ++ (beBytes 2 count ++ size) ++ rest)).count.toNat
      = count := by
  have whole : (headerFront ++ (beBytes 2 count ++ size)).length = headerSize := by
    rw [List.length_append, List.length_append, beBytes_length, length]
    rfl
  have front : headerFront.length = 6 := rfl
  have stored : beBytes 2 count = leBytes 2 (swap16 (UInt16.ofNat count)).toNat := by
    rw [leBytes_swap16, UInt16.toNat_ofNat', Nat.mod_eq_of_lt (by omega)]
  rw [storedHeader, List.take_left' whole, DbHeader.toHost, DbHeader.ofBytes]
  simp only [List.drop_left' front]
  rw [stored, load16_leBytes_append]
  change (swap16 (swap16 (UInt16.ofNat count))).toNat = count
  rw [swap16_swap16, UInt16.toNat_ofNat', Nat.mod_eq_of_lt (by omega)]

variable {roster extended : Roster} {employee : Employee}

/-- A file that is part new and part old is loadable only as a whole one. The cases follow the
cut: in the header, behind it, or not at all.
-/
theorem torn_loadable (records : extended.records = roster.records ++ [employee])
    {written : List UInt8} (torn : written <+: extended.encode)
    (loadable : Loadable (written ++ roster.encode.drop written.length))
    : written ++ roster.encode.drop written.length = roster.encode
      ∨ written ++ roster.encode.drop written.length = extended.encode := by
  have longer := Roster.encode_length_append records
  have count : extended.records.length = roster.records.length + 1 := by
    rw [records, List.length_append, List.length_singleton]
  have bound := extended.bound
  have size := roster.encode_length
  have most := torn.length_le
  have start := List.prefix_iff_eq_take.mp torn
  rcases Nat.lt_or_ge written.length headerSize with inHeader | behind
  · have newPart : written = (encodeHeader (roster.records.length + 1)).take written.length :=
      calc written
          = extended.encode.take written.length := start
        _ = (encodeHeader (roster.records.length + 1)).take written.length := by
            rw [Roster.encode, count,
              List.take_append_of_le_length (by rw [encodeHeader_length]; exact inHeader.le)]
    have room : roster.records.length < 65535 := by omega
    have oldPart : roster.encode.drop written.length
        = (encodeHeader roster.records.length).drop written.length
          ++ roster.records.flatMap encodeEmployee := by
      rw [Roster.encode, List.drop_append_of_le_length (by
        rw [encodeHeader_length]
        exact inHeader.le)]
    rw [oldPart, ← List.append_assoc] at loadable ⊢
    nth_rewrite 1 [newPart]
    nth_rewrite 1 [newPart] at loadable
    rcases torn_header room inHeader with same | ⟨counted, stored, more, small, four, mixed⟩
    · left
      rw [same, Roster.encode]
    · exfalso
      rw [mixed] at loadable
      have long := loadable.long
      rw [storedHeader_count small four] at long
      simp only [List.length_append, beBytes_length, four, flatMap_encodeEmployee_length] at long
      have front : headerFront.length = 6 := rfl
      simp only [headerSize, employeeSize] at long
      omega
  · rcases Nat.lt_or_eq_of_le most with less | whole
    · exfalso
      have newHeader : written ++ roster.encode.drop written.length
          = encodeHeader extended.records.length
            ++ (written.drop headerSize ++ roster.encode.drop written.length) := by
        have front : written.take headerSize = encodeHeader extended.records.length := by
          rw [start, List.take_take, min_eq_left behind, Roster.encode]
          exact List.take_left' (encodeHeader_length _)
        rw [← front, ← List.append_assoc, List.take_append_drop]
      have filesize := loadable.header.filesize
      rw [newHeader, storedHeader_encodeHeader bound, headerOf_filesize bound, ← newHeader,
        List.length_append, List.length_drop, ← extended.encode_length] at filesize
      have positive : 0 < employeeSize := by decide
      omega
    · right
      have same : written = extended.encode := torn.eq_of_length whole
      rw [List.drop_eq_nil_of_le (by omega), List.append_nil, same]

/-- Both loading steps get through only on loadable files, and with the stored database. -/
private theorem loaded_of_steps {fd : Int} {first second : Bool} {content : List UInt8}
    {header : DbHeader} {middle last : OpenFile UInt8} {employees : List Employee}
    (validated : validateDbHeader fd first (.opened content) = .ok (header, middle))
    (read : readEmployees fd second middle header = .ok (employees, last))
    : Loadable content ∧ ⟨header, some employees⟩ = storedDb content := by
  have valid : 0 ≤ fd := by
    by_contra bad
    rw [validateDbHeader, if_pos (by omega)] at validated
    cases validated
  have notBad : ¬ fd < 0 := by omega
  cases first with
  | false => simp [validateDbHeader, notBad] at validated
  | true =>
      cases second with
      | false => simp [readEmployees, notBad] at read
      | true =>
          refine (loadDatabase_ok_iff valid content _).mp ⟨last, ?_⟩
          simp only [loadDatabase, loadWith, validated, read]

/-- Saving an accepted add may be cut off after any byte of what it writes: loading the file
that is left fails, or gives exactly the old database or exactly the new one.
-/
theorem torn_save_loads {db next : Db} {file : OpenFile UInt8}
    {fresh : Option (Nat → Employee)} {memory edited : List UInt8} {dbfd : Int}
    {outcomes : Nat → WriteOutcome} {saved : Saved}
    (live : db.Represents roster) (current : file.content = roster.encode)
    (added : addEmployee fresh db memory = .ok ⟨.success, next, edited⟩) (valid : 0 ≤ dbfd)
    (saving : outputFile outcomes dbfd file next = .ok saved)
    : ∃ extended : Roster,
        (∃ employee, extended.records = roster.records ++ [employee])
        ∧ next.Represents extended
        ∧ ∀ written fd first second header middle employees last,
            written <+: (saved.written.map Prod.fst).flatten
            → validateDbHeader fd first (.opened (splice 0 written file.content))
              = .ok (header, middle)
            → readEmployees fd second middle header = .ok (employees, last)
            → ⟨header, some employees⟩ = loadedDb roster
              ∨ ⟨header, some employees⟩ = loadedDb extended := by
  rcases addEmployee_cases added with ⟨impossible, -⟩ | ⟨-, employee, appended⟩
  · cases impossible
  obtain ⟨holds, header⟩ := appendEmployee_holds live.holds appended
  have represents : next.Represents holds.roster :=
    ⟨holds, by rw [header]; exact live.version, by rw [header]; exact live.magic⟩
  refine ⟨holds.roster, ⟨employee, rfl⟩, represents, ?_⟩
  intro written fd first second header middle employees last torn validated read
  obtain ⟨loadable, loaded⟩ := loaded_of_steps validated read
  rw [outputFile_written valid represents saving] at torn
  have content : splice 0 written file.content
      = written ++ roster.encode.drop written.length := by
    simp [splice, current]
  rw [content] at loadable loaded
  rw [loaded]
  rcases torn_loadable rfl torn loadable with old | new
  · left
    rw [old, ← List.append_nil roster.encode, storedDb_encode_append, loadedDb]
  · right
    rw [new, ← List.append_nil holds.roster.encode, storedDb_encode_append, loadedDb]

/-- The database without records. -/
def noRecords : Roster := ⟨[], Nat.zero_le _⟩

/-- The record `a,b,1` is added to an empty database and the save is cut off after 7 bytes. -/
theorem torn_save_loads_seven
    : ∃ next edited saved,
        addEmployee (some fun _ => employeeOf []) (loadedDb noRecords) [97, 44, 98, 44, 49, 0]
          = .ok ⟨.success, next, edited⟩
        ∧ outputFile (fun _ => .complete) 3 (.opened noRecords.encode) next = .ok saved
        ∧ ∃ extended,
          next.Represents extended
          ∧ ∀ header middle employees last,
              validateDbHeader 3 true (.opened (splice 0
                ((saved.written.map Prod.fst).flatten.take 7) noRecords.encode))
                = .ok (header, middle)
              → readEmployees 3 true middle header = .ok (employees, last)
              → ⟨header, some employees⟩ = loadedDb noRecords
                ∨ ⟨header, some employees⟩ = loadedDb extended := by
  have live := loadedDb_represents noRecords
  have request : ([97, 44, 98, 44, 49, 0] : List UInt8) = [97, 44, 98, 44, 49] ++ nul :: [] := rfl
  obtain ⟨edited, -, scanned⟩ := addEmployee_terminated (some fun _ => employeeOf [])
    (loadedDb noRecords) (show nul ∉ [97, 44, 98, 44, 49] by decide) []
  obtain ⟨next, appended⟩ := appendEmployee_ok (fun _ => employeeOf [])
    (employeeOf [97, 44, 98, 44, 49]) live.holds (by decide)
  obtain ⟨saved, saving, -⟩ := outputFile_ok (fun _ => .complete) (show (0 : Int) ≤ 3 by decide)
    (.opened noRecords.encode) (appendEmployee_holds live.holds appended).1
  rw [← request, addResult, if_pos (by decide), appended] at scanned
  obtain ⟨extended, -, represents, loads⟩ :=
    torn_save_loads live rfl scanned (show (0 : Int) ≤ 3 by decide) saving
  refine ⟨next, _, saved, scanned, saving, extended, represents, ?_⟩
  intro header middle employees last
  exact loads _ 3 true true header middle employees last (List.take_prefix 7 _)

end LowlevelAcademy.Correctness
