import LowlevelAcademy.Foundations.Strings

/-! How far string functions look: the part of the memory that each of them examines, and that
a terminator keeps them in front of it.
-/

namespace LowlevelAcademy.Foundations

variable {α : Type*}

/-- A part of the memory that a function examines: `reach` elements from `start` on. A function
that finds no end in the memory reaches behind it.
-/
structure Scan where
  start : Nat
  reach : Nat
  deriving DecidableEq

/-- The position behind the last element that is examined. -/
def Scan.stop (scan : Scan) : Nat := scan.start + scan.reach

/-- The same part in a memory with `offset` more elements in front. -/
def Scan.shift (offset : Nat) (scan : Scan) : Scan := ⟨offset + scan.start, scan.reach⟩

/-- A scan that goes on as long as elements have a property; it also examines the one that ends
it.
-/
def scanWhile (stays : α → Bool) (memory : List α) (start : Nat) : Scan :=
  ⟨start, ((memory.drop start).takeWhile stays).length + 1⟩

/-- A scan that some position in the memory stops does not look behind it. -/
theorem scanWhile_stop_le (stays : α → Bool) {memory : List α} {start last : Nat}
    {element : α} (found : memory[last]? = some element) (stops : stays element = false)
    (before : start ≤ last)
    : (scanWhile stays memory start).stop ≤ last + 1 := by
  have inside : ((memory.drop start).takeWhile stays).length ≤ last - start := by
    by_contra beyond
    have kept : ((memory.drop start).takeWhile stays)[last - start]? = some element := by
      obtain ⟨rest, whole⟩ := List.takeWhile_prefix stays (l := memory.drop start)
      have front : (((memory.drop start).takeWhile stays) ++ rest)[last - start]?
          = ((memory.drop start).takeWhile stays)[last - start]? :=
        List.getElem?_append_left (by omega)
      rw [← front, whole, List.getElem?_drop, Nat.add_sub_cancel' before, found]
    have stays' := List.mem_takeWhile_imp (List.mem_of_getElem? kept)
    rw [stops] at stays'
    cases stays'
  simp only [Scan.stop, scanWhile]
  omega

variable [DecidableEq α]

/-- `printf` with `%s`, or any other function that looks for the end of a string. -/
def stringScan (nul : α) (memory : List α) (start : Nat) : Scan :=
  scanWhile (· != nul) memory start

/-- `strncpy` into an array of `size` elements, as far as it examines its source. -/
def strncpyScan (nul : α) (size : Nat) (memory : List α) (start : Nat) : Scan :=
  ⟨start, min size (stringScan nul memory start).reach⟩

/-- One call of `strtok`: over the delimiters and, unless the string ends there, over the token
behind them. The element that it overwrites is the last one it examines.
-/
def strtokScans (nul delim : α) (memory : List α) (cursor : Nat) : List Scan :=
  let start := cursor + ((memory.drop cursor).takeWhile (· == delim)).length
  scanWhile (· == delim) memory cursor
    :: match memory[start]? with
      | none => []
      | some first =>
          if first = nul then []
          else [scanWhile (fun c => c != delim && c != nul) memory start]

/-- `strtol`: over the spaces, then behind an optional sign over the digits. -/
def strtolScans (memory : List UInt8) (start : Nat) : List Scan :=
  let sign := start + ((memory.drop start).takeWhile isSpace).length
  let digits := if memory[sign]? = some 45 ∨ memory[sign]? = some 43 then sign + 1 else sign
  [scanWhile isSpace memory start, scanWhile isDigit memory digits]

-----------------------------------------------------------------------------------------
-- What a terminator stops
-----------------------------------------------------------------------------------------

variable {nul delim : α} {memory : List α} {start last : Nat}

/-- A string ends inside a part of the memory exactly when there is a terminator behind its
start.
-/
theorem stringScan_inside_iff {own : List α} (rest : List α) (inside : start ≤ own.length)
    : (stringScan nul (own ++ rest) start).stop ≤ own.length ↔ nul ∈ own.drop start := by
  have scanned : (stringScan nul (own ++ rest) start).stop
      = start + ((cString nul (own.drop start ++ rest)).length + 1) := by
    rw [stringScan, scanWhile, Scan.stop, List.drop_append_of_le_length inside, cString]
  have length : (own.drop start).length = own.length - start := List.length_drop
  rw [scanned]
  constructor
  · intro bounded
    by_contra clean
    have kept : ∀ c ∈ own.drop start, (c != nul) = true := by
      intro c member
      simpa using fun same : c = nul => clean (same ▸ member)
    rw [cString, List.takeWhile_append_of_pos kept, List.length_append] at bounded
    omega
  · intro terminated
    have shorter := cString_length_lt terminated
    rw [cString_append_of_mem terminated]
    omega

/-- A terminator stops the search for the end of a string. -/
theorem stringScan_stop_le (ended : memory[last]? = some nul) (before : start ≤ last)
    : (stringScan nul memory start).stop ≤ last + 1 :=
  scanWhile_stop_le _ ended (by simp) before

theorem strncpyScan_stop_le {size : Nat} (ended : memory[last]? = some nul)
    (before : start ≤ last)
    : (strncpyScan nul size memory start).stop ≤ last + 1 :=
  (Nat.add_le_add_left (Nat.min_le_right _ _) _).trans (stringScan_stop_le ended before)

/-- A terminator stops the tokenizer. -/
theorem strtokScans_stop_le (distinct : nul ≠ delim) (ended : memory[last]? = some nul)
    (before : start ≤ last)
    : ∀ scan ∈ strtokScans nul delim memory start, scan.stop ≤ last + 1 := by
  have first := scanWhile_stop_le (· == delim) ended (by simpa using distinct) before
  intro scan member
  rw [strtokScans] at member
  rcases List.mem_cons.mp member with rfl | behind
  · exact first
  · simp only [scanWhile, Scan.stop] at first
    split at behind
    · cases behind
    split_ifs at behind
    · cases behind
    · obtain rfl := List.mem_singleton.mp behind
      exact scanWhile_stop_le _ ended (by simp) (by omega)

/-- A terminator stops the conversion of a number. -/
theorem strtolScans_stop_le {memory : List UInt8} (ended : memory[last]? = some 0)
    (before : start ≤ last)
    : ∀ scan ∈ strtolScans memory start, scan.stop ≤ last + 1 := by
  have spaces := scanWhile_stop_le isSpace ended (by decide) before
  intro scan member
  rw [strtolScans] at member
  rcases List.mem_cons.mp member with rfl | behind
  · exact spaces
  · simp only [scanWhile, Scan.stop] at spaces
    obtain rfl := List.mem_singleton.mp behind
    refine scanWhile_stop_le _ ended (by decide) ?_
    split_ifs with signed
    · -- a sign is no terminator, so it lies in front of it
      have differs : start + ((memory.drop start).takeWhile isSpace).length ≠ last := by
        intro same
        rw [same, ended] at signed
        simp at signed
      omega
    · omega

/-- A call of `strtok` in front of a terminator leaves it where it is, and continues and finds
its token in front of it.
-/
theorem strtok_before (distinct : nul ≠ delim) {scan : TokenScan α}
    (call : strtok nul delim memory start = some scan) (ended : memory[last]? = some nul)
    (before : start ≤ last)
    : scan.memory[last]? = some nul
      ∧ scan.save ≤ last
      ∧ ∀ token ∈ scan.token, token ≤ last := by
  have first := scanWhile_stop_le (· == delim) ended (by simpa using distinct) before
  simp only [scanWhile, Scan.stop] at first
  simp only [strtok] at call
  generalize begin : start + ((memory.drop start).takeWhile (· == delim)).length = token at *
  have beginBefore : token ≤ last := by omega
  have second :=
    scanWhile_stop_le (fun c => c != delim && c != nul) ended (by simp) beginBefore
  simp only [scanWhile, Scan.stop] at second
  generalize stopped : token + ((memory.drop token).takeWhile
    (fun c => c != delim && c != nul)).length = stop at *
  have stopBefore : stop ≤ last := by omega
  split at call
  · cases call
  split_ifs at call
  · obtain rfl := Option.some.inj call
    exact ⟨ended, beginBefore, by simp⟩
  split at call
  · cases call
  next found =>
  split_ifs at call with terminated
  · obtain rfl := Option.some.inj call
    exact ⟨ended, stopBefore, by simpa using beginBefore⟩
  · obtain rfl := Option.some.inj call
    -- the delimiter that ends the token is not the terminator, so it lies in front of it
    have differs : stop ≠ last := by
      rintro rfl
      rw [found] at ended
      exact terminated (Option.some.inj ended)
    refine ⟨?_, by simp only; omega, by simpa using beginBefore⟩
    rw [List.getElem?_set_ne differs, ended]

end LowlevelAcademy.Foundations
