import LowlevelAcademy.Foundations.Memory

/-! Terminated strings in memory: copying, in-place tokenizing with a saved cursor, and
decimal conversion. Tokenizing is related to the nonempty pieces between delimiters.
-/

namespace LowlevelAcademy.Foundations

variable {α : Type*} [DecidableEq α]

/-- The string at the start of `memory`: the elements before the first terminator. -/
def cString (nul : α) (memory : List α) : List α := memory.takeWhile (· != nul)

/-- `strncpy` into an array of `size` elements: at most `size` elements of the source string,
the rest of the array filled with terminators.
-/
def strncpy (nul : α) (size : Nat) (source : List α) : List.Vector α size :=
  fit size nul ((cString nul source).take size)

/-- Text before a terminator is the string, whatever follows. -/
theorem cString_append {nul : α} {text rest : List α} (clean : nul ∉ text)
    : cString nul (text ++ nul :: rest) = text := by
  have kept : ∀ c ∈ text, (c != nul) = true := by
    intro c member
    simpa using fun same : c = nul => clean (same ▸ member)
  simp [cString, List.takeWhile_append_of_pos kept]

/-- Memory without a terminator is all string. -/
theorem cString_of_clean {nul : α} {text : List α} (clean : nul ∉ text)
    : cString nul text = text := by
  apply List.takeWhile_eq_self_iff.mpr
  intro c member
  simpa using fun same : c = nul => clean (same ▸ member)

/-- A string contains no terminator. -/
theorem nul_not_mem_cString (nul : α) (memory : List α) : nul ∉ cString nul memory := by
  intro member
  simpa using List.mem_takeWhile_imp member

/-- A memory with a terminator splits at the end of its string. -/
theorem cString_split {nul : α} {memory : List α} (terminated : nul ∈ memory)
    : ∃ rest, memory = cString nul memory ++ nul :: rest := by
  obtain ⟨text, rest, split, clean⟩ := List.eq_append_cons_of_mem terminated
  refine ⟨rest, ?_⟩
  rw [split, cString_append clean]

/-- The string of a terminated memory is shorter than the memory. -/
theorem cString_length_lt {nul : α} {memory : List α} (terminated : nul ∈ memory)
    : (cString nul memory).length < memory.length := by
  obtain ⟨rest, split⟩ := cString_split terminated
  have size := congrArg List.length split
  rw [List.length_append, List.length_cons] at size
  omega

/-- What lies behind a terminated part of memory does not affect the string. -/
theorem cString_append_of_mem {nul : α} {front : List α} (terminated : nul ∈ front)
    (rest : List α)
    : cString nul (front ++ rest) = cString nul front := by
  obtain ⟨tail, split⟩ := cString_split terminated
  have clean := nul_not_mem_cString nul front
  generalize cString nul front = text at split clean ⊢
  rw [split, List.append_assoc, List.cons_append, cString_append clean]

/-- A bounded copy keeps the source string up to the array's size. -/
theorem cString_strncpy (nul : α) (size : Nat) (source : List α)
    : cString nul (strncpy nul size source).toList = (cString nul source).take size := by
  have clean : nul ∉ (cString nul source).take size :=
    fun member => nul_not_mem_cString nul source (List.mem_of_mem_take member)
  have short : ((cString nul source).take size).length ≤ size := by simp
  rw [strncpy, fit_toList_of_le short]
  cases gap : size - ((cString nul source).take size).length with
  | zero => simpa using cString_of_clean clean
  | succ gap => exact cString_append clean

/-- A copied string that is shorter than the array is terminated there. -/
theorem nul_mem_strncpy {nul : α} {size : Nat} {source : List α}
    (short : (cString nul source).length < size)
    : nul ∈ (strncpy nul size source).toList := by
  rw [strncpy, List.take_of_length_le short.le, fit_toList_of_le short.le]
  exact List.mem_append_right _ (List.mem_replicate.mpr ⟨by omega, rfl⟩)

/-- A copied string is terminated in the array exactly when it is shorter than the array. -/
theorem nul_mem_strncpy_iff {nul : α} {size : Nat} {source : List α}
    : nul ∈ (strncpy nul size source).toList ↔ (cString nul source).length < size := by
  refine ⟨fun terminated => ?_, nul_mem_strncpy⟩
  have shorter := cString_length_lt terminated
  rw [cString_strncpy, List.length_take, List.Vector.toList_length] at shorter
  omega

-----------------------------------------------------------------------------------------
-- Tokenizing in place
-----------------------------------------------------------------------------------------

/-- What one `strtok` call leaves behind: the memory, the saved cursor for the next call, and
the position of the token it returned, if any.
-/
structure TokenScan (α : Type*) where
  memory : List α
  save : Nat
  token : Option Nat

/-- `strtok` with one delimiter character, continuing at `cursor`. It skips delimiters, takes
everything up to the next delimiter or terminator, and terminates the token in place when it
ended at a delimiter. There is no result when the scan leaves the known memory.
-/
def strtok (nul delim : α) (memory : List α) (cursor : Nat) : Option (TokenScan α) :=
  let start := cursor + ((memory.drop cursor).takeWhile (· == delim)).length
  match memory[start]? with
  | none => none
  | some first =>
      if first = nul then some ⟨memory, start, none⟩
      else
        let stop :=
          start + ((memory.drop start).takeWhile (fun c => c != delim && c != nul)).length
        match memory[stop]? with
        | none => none
        | some last =>
            if last = nul then some ⟨memory, stop, some start⟩
            else some ⟨memory.set stop nul, stop + 1, some start⟩

/-- The nonempty pieces of `text` between delimiters. -/
def tokens (delim : α) (text : List α) : List (List α) :=
  (text.splitOn delim).filter (fun piece => !piece.isEmpty)

/-- Leading delimiters contribute no token, by induction over them. -/
theorem tokens_skip {delim : α} {seps : List α} (delims : ∀ c ∈ seps, c = delim)
    (text : List α)
    : tokens delim (seps ++ text) = tokens delim text := by
  induction seps with
  | nil => rfl
  | cons c rest ih =>
      have same := delims c (by simp)
      subst same
      have later := ih (fun d member => delims d (by simp [member]))
      simpa [tokens, List.splitOn_cons_eq_if_modifyHead] using later

/-- Text without delimiters is a single token unless it is empty. -/
theorem tokens_single {delim : α} {token : List α} (clean : delim ∉ token)
    (nonempty : token ≠ [])
    : tokens delim token = [token] := by
  simp [tokens, List.splitOn_eq_singleton clean, nonempty]

/-- A token ended by a delimiter comes before the tokens of the remaining text. -/
theorem tokens_more {delim : α} {token : List α} (clean : delim ∉ token)
    (nonempty : token ≠ []) (more : List α)
    : tokens delim (token ++ delim :: more) = token :: tokens delim more := by
  simp [tokens, List.splitOn_append_cons_self_of_not_mem clean, nonempty]

/-- Splitting invents nothing: what is in a piece is in the text, by induction over the text. -/
private theorem mem_of_mem_splitOn {delim c : α} {text piece : List α}
    (member : piece ∈ text.splitOn delim) (inside : c ∈ piece)
    : c ∈ text := by
  induction text generalizing piece with
  | nil =>
      obtain rfl : piece = [] := by simpa using member
      cases inside
  | cons first rest ih =>
      rw [List.splitOn_cons_eq_if_modifyHead] at member
      split_ifs at member
      · rcases List.mem_cons.mp member with rfl | later
        · cases inside
        · exact List.mem_cons_of_mem _ (ih later inside)
      · obtain ⟨head, tail, split⟩ := List.exists_cons_of_ne_nil (List.splitOn_ne_nil delim rest)
        rw [split] at member ih
        rcases List.mem_cons.mp member with rfl | later
        · rcases List.mem_cons.mp inside with rfl | inHead
          · exact List.mem_cons_self
          · exact List.mem_cons_of_mem _ (ih List.mem_cons_self inHead)
        · exact List.mem_cons_of_mem _ (ih (List.mem_cons_of_mem _ later) inside)

/-- The tokens of a text consist of its elements. -/
theorem mem_of_mem_tokens {delim c : α} {text token : List α}
    (member : token ∈ tokens delim text) (inside : c ∈ token)
    : c ∈ text :=
  mem_of_mem_splitOn (List.mem_filter.mp member).1 inside

/-- Text splits into leading delimiters, at most one token, and what follows it. These are
the three ways a tokenizer call can end.
-/
theorem tokens_cases (delim : α) (text : List α)
    : ((∀ c ∈ text, c = delim) ∧ tokens delim text = [])
      ∨ (∃ seps token,
          text = seps ++ token
          ∧ (∀ c ∈ seps, c = delim)
          ∧ delim ∉ token
          ∧ token ≠ []
          ∧ tokens delim text = [token])
      ∨ ∃ seps token more,
          text = seps ++ token ++ delim :: more
          ∧ (∀ c ∈ seps, c = delim)
          ∧ delim ∉ token
          ∧ token ≠ []
          ∧ tokens delim text = token :: tokens delim more := by
  have delims : ∀ c ∈ text.takeWhile (· == delim), c = delim := by
    intro c member
    simpa using List.mem_takeWhile_imp member
  have split := List.takeWhile_append_dropWhile (p := (· == delim)) (l := text)
  generalize text.takeWhile (· == delim) = seps at delims split
  cases core : text.dropWhile (· == delim) with
  | nil =>
      have all : text = seps := by simpa [core] using split.symm
      refine Or.inl ⟨all ▸ delims, ?_⟩
      simpa [all, tokens] using tokens_skip delims []
  | cons first rest =>
      have differs : first ≠ delim := by
        have head := List.head?_dropWhile_not (· == delim) text
        simpa [core] using head
      rw [core] at split
      by_cases member : delim ∈ first :: rest
      · obtain ⟨token, more, ended, clean⟩ := List.eq_append_cons_of_mem member
        have nonempty : token ≠ [] := by
          rintro rfl
          exact differs (List.cons.inj ended).1
        refine Or.inr (Or.inr ⟨seps, token, more, ?_, delims, clean, nonempty, ?_⟩)
        · rw [← split, ended, List.append_assoc]
        · rw [← split, ended, tokens_skip delims, tokens_more clean nonempty]
      · refine Or.inr (Or.inl ⟨seps, first :: rest, split.symm, delims, member, by simp, ?_⟩)
        rw [← split, tokens_skip delims, tokens_single member (by simp)]

/-- At the cursor the first call sees delimiters, then an element that is none. -/
private theorem strtok_start {delim : α} (front rest : List α) {seps : List α} {first : α}
    (delims : ∀ c ∈ seps, c = delim) (differs : first ≠ delim)
    : (((front ++ (seps ++ first :: rest)).drop front.length).takeWhile (· == delim)).length
      = seps.length := by
  have kept : ∀ c ∈ seps, (c == delim) = true := fun c member => by simp [delims c member]
  rw [List.drop_left, List.takeWhile_append_of_pos kept]
  simp [differs]

/-- From the start of a token the scan runs to the element that ends it. -/
private theorem strtok_stop {nul delim : α} (front rest : List α) {token : List α} {last : α}
    (clean : nul ∉ token) (inside : delim ∉ token) (ended : last = nul ∨ last = delim)
    : (((front ++ (token ++ last :: rest)).drop front.length).takeWhile
        (fun c => c != delim && c != nul)).length
      = token.length := by
  have kept : ∀ c ∈ token, (c != delim && c != nul) = true := by
    intro c member
    simp only [Bool.and_eq_true, bne_iff_ne]
    exact ⟨fun same => inside (same ▸ member), fun same => clean (same ▸ member)⟩
  rw [List.drop_left, List.takeWhile_append_of_pos kept]
  rcases ended with rfl | rfl <;> simp

/-- Only delimiters before the terminator: no token, and the cursor stays on the terminator.
-/
theorem strtok_none {nul delim : α} (front rest : List α) {seps : List α}
    (distinct : nul ≠ delim) (delims : ∀ c ∈ seps, c = delim)
    : strtok nul delim (front ++ (seps ++ nul :: rest)) front.length
      = some ⟨front ++ (seps ++ nul :: rest), front.length + seps.length, none⟩ := by
  have found : (front ++ (seps ++ nul :: rest))[front.length + seps.length]? = some nul := by
    rw [← List.append_assoc, ← List.length_append]
    simp
  simp only [strtok, strtok_start _ _ delims distinct, found, if_true]

/-- A token runs up to the element that ends it; a delimiter there is overwritten. -/
private theorem strtok_token {nul delim : α} {front seps token rest : List α} {last : α}
    (delims : ∀ c ∈ seps, c = delim) (nonempty : token ≠ []) (clean : nul ∉ token)
    (inside : delim ∉ token) (ended : last = nul ∨ last = delim)
    : strtok nul delim (front ++ (seps ++ (token ++ last :: rest))) front.length
      = (let start := front.length + seps.length
        let stop := start + token.length
        if last = nul then
          some ⟨front ++ (seps ++ (token ++ last :: rest)), stop, some start⟩
        else
          some ⟨front ++ (seps ++ (token ++ nul :: rest)), stop + 1, some start⟩) := by
  obtain ⟨first, tail, rfl⟩ := List.exists_cons_of_ne_nil nonempty
  have firstNeDelim : first ≠ delim := fun same => inside (by simp [same])
  have firstNeNul : first ≠ nul := fun same => clean (by simp [same])
  have started := strtok_start front (tail ++ last :: rest) delims firstNeDelim
  have stopped := strtok_stop (front ++ seps) rest clean inside ended
  have grouped : front ++ (seps ++ (first :: tail ++ last :: rest))
      = (front ++ seps) ++ (first :: tail ++ last :: rest) := by simp
  have foundFirst : (front ++ (seps ++ (first :: tail ++ last :: rest)))[
      front.length + seps.length]? = some first := by
    rw [grouped, ← List.length_append]
    simp
  have foundLast : (front ++ (seps ++ (first :: tail ++ last :: rest)))[
      front.length + seps.length + (first :: tail).length]? = some last := by
    rw [grouped, ← List.append_assoc, ← List.length_append, ← List.length_append]
    simp
  have overwritten : (front ++ (seps ++ (first :: tail ++ last :: rest))).set
      (front.length + seps.length + (first :: tail).length) nul
      = front ++ (seps ++ (first :: tail ++ nul :: rest)) := by
    rw [grouped, ← List.append_assoc, ← List.length_append, ← List.length_append,
      List.set_append_right _ _ (Nat.le_refl _)]
    simp
  rw [← grouped, List.length_append] at stopped
  simp only [List.cons_append] at *
  simp only [strtok, started, foundFirst, firstNeNul, if_false, stopped, foundLast,
    overwritten]

/-- A token that the terminator ends: the memory stays as it is. -/
theorem strtok_last {nul delim : α} (front rest : List α) {seps token : List α}
    (delims : ∀ c ∈ seps, c = delim) (nonempty : token ≠ []) (clean : nul ∉ token)
    (inside : delim ∉ token)
    : strtok nul delim (front ++ (seps ++ (token ++ nul :: rest))) front.length
      = some ⟨
          front ++ (seps ++ (token ++ nul :: rest)),
          front.length + seps.length + token.length,
          some (front.length + seps.length)
        ⟩ := by
  simp [strtok_token delims nonempty clean inside (Or.inl rfl)]

/-- A token that a delimiter ends: the delimiter becomes a terminator and the cursor moves
behind it.
-/
theorem strtok_more {nul delim : α} (front rest : List α) {seps token : List α}
    (distinct : nul ≠ delim) (delims : ∀ c ∈ seps, c = delim) (nonempty : token ≠ [])
    (clean : nul ∉ token) (inside : delim ∉ token)
    : strtok nul delim (front ++ (seps ++ (token ++ delim :: rest))) front.length
      = some ⟨
          front ++ (seps ++ (token ++ nul :: rest)),
          front.length + seps.length + token.length + 1,
          some (front.length + seps.length)
        ⟩ := by
  simp [strtok_token delims nonempty clean inside (Or.inr rfl), distinct.symm]

/-- One call over terminated text, by the tokens of the text. It splits the text into a piece that
is done with and a remaining text with the later tokens. The returned position reads as the
first token as long as the piece stays, and, for the last token, what lies behind it. Witness:
the three ways of `tokens_cases`.
-/
theorem strtok_next {nul delim : α} (distinct : nul ≠ delim) (front : List α)
    {text : List α} (clean : nul ∉ text) (rest : List α)
    : ∃ piece remaining token,
        strtok nul delim (front ++ (text ++ nul :: rest)) front.length
          = some ⟨
              front ++ piece ++ (remaining ++ nul :: rest),
              (front ++ piece).length,
              token
            ⟩
        ∧ nul ∉ remaining
        ∧ piece.length + remaining.length = text.length
        ∧ tokens delim remaining = (tokens delim text).tail
        ∧ (token = none → piece ++ remaining = text)
        ∧ ∀ tail,
            (tokens delim text).tail ≠ [] ∨ tail = remaining ++ nul :: rest
            → token.map (fun start => cString nul ((front ++ piece ++ tail).drop start))
              = (tokens delim text).head? := by
  have atToken (seps token tail : List α)
      : (front ++ (seps ++ token) ++ tail).drop (front.length + seps.length)
        = token ++ tail := by
    rw [← List.append_assoc, ← List.length_append, List.append_assoc, List.drop_left]
  rcases tokens_cases delim text with
    ⟨delims, empty⟩ | ⟨seps, token, rfl, delims, inside, nonempty, only⟩
    | ⟨seps, token, more, rfl, delims, inside, nonempty, found⟩
  · refine ⟨text, [], none, ?_, by simp, by simp, by rw [empty]; rfl, by simp,
      fun _ _ => by rw [empty]; rfl⟩
    simpa using strtok_none front rest distinct delims
  · have tokenClean : nul ∉ token := fun member => clean (by simp [member])
    have call := strtok_last front rest delims nonempty tokenClean inside
    refine ⟨seps ++ token, [], some (front.length + seps.length), ?_, by simp, by simp,
      by rw [only]; rfl, by simp, ?_⟩
    · simpa [Nat.add_assoc] using call
    · rw [only]
      rintro tail (impossible | rfl)
      · exact absurd rfl impossible
      · rw [Option.map_some, atToken, List.nil_append, cString_append tokenClean]
        rfl
  · have tokenClean : nul ∉ token := fun member => clean (by simp [member])
    have moreClean : nul ∉ more := fun member => clean (by simp [member])
    have call := strtok_more front (more ++ nul :: rest) distinct delims
      nonempty tokenClean inside
    refine ⟨seps ++ (token ++ [nul]), more, some (front.length + seps.length), ?_, moreClean, ?_,
      by rw [found]; rfl, by simp, ?_⟩
    · simpa [Nat.add_assoc] using call
    · simp only [List.length_append, List.length_cons, List.length_nil]
      omega
    · intro tail _
      rw [found, Option.map_some, atToken, List.append_assoc, List.singleton_append,
        cString_append tokenClean]
      rfl

/-- Three calls one after the other over terminated text find its first three tokens: each
returned position reads as the token in the memory that the last call leaves. A call returns
none when there is no further token, and from then on the memory stays.
-/
theorem strtok_three {nul delim : α} (distinct : nul ≠ delim) {text : List α}
    (clean : nul ∉ text) (rest : List α)
    : ∃ memory1 save1 first memory2 save2 second edited save3 third,
        strtok nul delim (text ++ nul :: rest) 0 = some ⟨memory1, save1, first⟩
        ∧ strtok nul delim memory1 save1 = some ⟨memory2, save2, second⟩
        ∧ strtok nul delim memory2 save2 = some ⟨edited ++ nul :: rest, save3, third⟩
        ∧ edited.length = text.length
        ∧ (first = none → memory1 = edited ++ nul :: rest)
        ∧ (second = none → memory2 = edited ++ nul :: rest)
        ∧ first.map (fun start => cString nul ((edited ++ nul :: rest).drop start))
          = (tokens delim text)[0]?
        ∧ second.map (fun start => cString nul ((edited ++ nul :: rest).drop start))
          = (tokens delim text)[1]?
        ∧ third.map (fun start => cString nul ((edited ++ nul :: rest).drop start))
          = (tokens delim text)[2]? := by
  obtain ⟨piece1, remaining1, first, call1, clean1, size1, later1, -, read1⟩ :=
    strtok_next distinct [] clean rest
  obtain ⟨piece2, remaining2, second, call2, clean2, size2, later2, none2, read2⟩ :=
    strtok_next distinct piece1 clean1 rest
  obtain ⟨piece3, remaining3, third, call3, clean3, size3, later3, none3, read3⟩ :=
    strtok_next distinct (piece1 ++ piece2) clean2 rest
  -- without a further token the later calls leave the memory as it is
  have kept3 (few : (tokens delim text).tail.tail = []) : piece3 ++ remaining3 = remaining2 := by
    have found := read3 _ (Or.inr rfl)
    rw [later2, later1, few] at found
    exact none3 (Option.map_eq_none_iff.mp found)
  have kept2 (few : (tokens delim text).tail = [])
      : piece2 ++ (piece3 ++ remaining3) = remaining1 := by
    have found := read2 _ (Or.inr rfl)
    rw [later1, few] at found
    rw [kept3 (by rw [few]; rfl)]
    exact none2 (Option.map_eq_none_iff.mp found)
  have edited : piece1 ++ piece2 ++ piece3 ++ (remaining3 ++ nul :: rest)
      = piece1 ++ piece2 ++ piece3 ++ remaining3 ++ nul :: rest := by
    simp only [List.append_assoc]
  simp only [List.nil_append, List.length_nil] at call1 read1
  rw [edited] at call3
  refine ⟨_, _, first, _, _, second, piece1 ++ piece2 ++ piece3 ++ remaining3, _, third,
    call1, call2, call3, ?_, ?_, ?_, ?_, ?_, ?_⟩
  · simp only [List.length_append]
    omega
  · rintro rfl
    have found := read1 _ (Or.inr rfl)
    have few : tokens delim text = [] := List.head?_eq_none_iff.mp found.symm
    rw [← kept2 (by rw [few]; rfl)]
    simp only [List.append_assoc]
  · rintro rfl
    have found := read2 _ (Or.inr rfl)
    rw [later1] at found
    have few : (tokens delim text).tail = [] := List.head?_eq_none_iff.mp found.symm
    rw [← kept3 (by rw [few]; rfl)]
    simp only [List.append_assoc]
  · have found := read1 (piece2 ++ (piece3 ++ remaining3) ++ nul :: rest) (by
      by_cases few : (tokens delim text).tail = []
      · exact Or.inr (by rw [kept2 few])
      · exact Or.inl few)
    rw [List.head?_eq_getElem?] at found
    simpa only [List.append_assoc] using found
  · have found := read2 (piece3 ++ remaining3 ++ nul :: rest) (by
      rw [later1]
      by_cases few : (tokens delim text).tail.tail = []
      · exact Or.inr (by rw [kept3 few])
      · exact Or.inl few)
    rw [later1, List.head?_eq_getElem?, List.getElem?_tail] at found
    simpa only [List.append_assoc] using found
  · have found := read3 _ (Or.inr rfl)
    rw [later2, later1, List.head?_eq_getElem?, List.getElem?_tail, List.getElem?_tail] at found
    simpa only [List.append_assoc] using found

-----------------------------------------------------------------------------------------
-- A tokenizer call sees the memory only up to the end of its token
-----------------------------------------------------------------------------------------

omit [DecidableEq α] in
/-- A scan that stops inside the known memory stops there whatever follows. -/
private theorem takeWhile_drop_append {stays : α → Bool} {memory : List α} {cursor : Nat}
    (inside : cursor + ((memory.drop cursor).takeWhile stays).length < memory.length)
    (rest : List α)
    : ((memory ++ rest).drop cursor).takeWhile stays
      = (memory.drop cursor).takeWhile stays := by
  have stops : ((memory.drop cursor).takeWhile stays).length ≠ (memory.drop cursor).length := by
    rw [List.length_drop]
    omega
  rw [List.drop_append_of_le_length (by omega), List.takeWhile_append, if_neg stops]

/-- What a call that stays inside the memory finds: no token, a token at the terminator, or a
token at a delimiter, which is overwritten.
-/
theorem strtok_inside {nul delim : α} {memory : List α} {cursor : Nat}
    {scan : TokenScan α} (call : strtok nul delim memory cursor = some scan)
    : ∃ stop,
        (scan.memory = memory ∨ scan.memory = memory.set stop nul)
        ∧ (∀ rest,
          strtok nul delim (memory ++ rest) cursor
            = some { scan with memory := scan.memory ++ rest })
        ∧ ∀ start ∈ scan.token, start ≤ stop ∧ scan.memory[stop]? = some nul := by
  simp only [strtok] at call
  split at call
  · cases call
  next first found =>
    have start := (List.getElem?_eq_some_iff.mp found).1
    have sameStart := takeWhile_drop_append start
    split_ifs at call with ended
    · obtain rfl := Option.some.inj call
      refine ⟨0, Or.inl rfl, fun rest => ?_, by simp⟩
      simp only [strtok, sameStart, List.getElem?_append_left start, found, if_pos ended]
    split at call
    · cases call
    next last foundLast =>
      have stop := (List.getElem?_eq_some_iff.mp foundLast).1
      have sameStop := takeWhile_drop_append stop
      split_ifs at call with terminated
      · obtain rfl := Option.some.inj call
        subst terminated
        refine ⟨_, Or.inl rfl, fun rest => ?_, fun begin same => ⟨?_, foundLast⟩⟩
        · simp only [strtok, sameStart, List.getElem?_append_left start, found, if_neg ended,
            sameStop, List.getElem?_append_left stop, foundLast, if_true]
        · obtain rfl := Option.some.inj same
          exact Nat.le_add_right _ _
      · obtain rfl := Option.some.inj call
        refine ⟨_, Or.inr rfl, fun rest => ?_, ?_⟩
        · simp only [strtok, sameStart, List.getElem?_append_left start, found, if_neg ended,
            sameStop, List.getElem?_append_left stop, foundLast, if_neg terminated,
            List.set_append_left _ _ stop]
        · rintro _ ⟨⟩
          exact ⟨Nat.le_add_right _ _, by simp [stop]⟩

/-- Such a call does the same in a longer memory and leaves the added part alone. -/
theorem strtok_append {nul delim : α} {memory : List α} {cursor : Nat} {scan : TokenScan α}
    (call : strtok nul delim memory cursor = some scan) (rest : List α)
    : strtok nul delim (memory ++ rest) cursor
      = some { scan with memory := scan.memory ++ rest } := by
  obtain ⟨-, -, longer, -⟩ := strtok_inside call
  exact longer rest

/-- Such a call keeps the size of the memory. -/
theorem strtok_length {nul delim : α} {memory : List α} {cursor : Nat} {scan : TokenScan α}
    (call : strtok nul delim memory cursor = some scan)
    : scan.memory.length = memory.length := by
  obtain ⟨stop, same | edited, -, -⟩ := strtok_inside call
  · rw [same]
  · rw [edited, List.length_set]

/-- A returned token is terminated in the memory that the call leaves. -/
theorem strtok_terminated {nul delim : α} {memory : List α} {cursor start : Nat}
    {scan : TokenScan α} (call : strtok nul delim memory cursor = some scan)
    (found : scan.token = some start)
    : nul ∈ scan.memory.drop start := by
  obtain ⟨stop, -, -, token⟩ := strtok_inside call
  obtain ⟨before, ended⟩ := token start found
  refine List.mem_of_getElem? (i := stop - start) ?_
  rw [List.getElem?_drop, Nat.add_sub_cancel' before, ended]

/-- Later calls keep what is terminated terminated: they write terminators only. -/
theorem strtok_keeps {nul delim : α} {memory : List α} {cursor start : Nat}
    {scan : TokenScan α} (call : strtok nul delim memory cursor = some scan)
    (terminated : nul ∈ memory.drop start)
    : nul ∈ scan.memory.drop start := by
  obtain ⟨stop, same | edited, -, -⟩ := strtok_inside call
  · rwa [same]
  · obtain ⟨i, found⟩ := List.mem_iff_getElem?.mp terminated
    rw [List.getElem?_drop] at found
    refine List.mem_of_getElem? (i := i) ?_
    rw [edited, List.getElem?_drop, List.getElem?_set, found]
    have inside := (List.getElem?_eq_some_iff.mp found).1
    split_ifs <;> simp_all

/-- The nonempty pieces of `text` that a delimiter ends. -/
def completed (delim : α) (text : List α) : List (List α) :=
  (text.splitOn delim).dropLast.filter (fun piece => !piece.isEmpty)

/-- Leading delimiters complete nothing, by induction over them. -/
theorem completed_skip {delim : α} {seps : List α} (delims : ∀ c ∈ seps, c = delim)
    (text : List α)
    : completed delim (seps ++ text) = completed delim text := by
  induction seps with
  | nil => rfl
  | cons c rest ih =>
      have same := delims c (by simp)
      subst same
      have later := ih (fun d member => delims d (by simp [member]))
      have split := List.splitOn_append_cons_self_of_not_mem
        (List.not_mem_nil (a := c)) (rest ++ text)
      rw [List.nil_append] at split
      rw [List.cons_append, completed, split,
        List.dropLast_cons_of_ne_nil (List.splitOn_ne_nil _ _)]
      simpa [completed] using later

/-- A piece ended by a delimiter comes before the completed pieces of the remaining text. -/
theorem completed_more {delim : α} {token : List α} (clean : delim ∉ token)
    (nonempty : token ≠ []) (more : List α)
    : completed delim (token ++ delim :: more) = token :: completed delim more := by
  rw [completed, List.splitOn_append_cons_self_of_not_mem clean,
    List.dropLast_cons_of_ne_nil (List.splitOn_ne_nil _ _)]
  simp [nonempty, completed]

/-- Text with a completed piece starts, behind delimiters, with the first one. -/
theorem completed_split {delim : α} {text token : List α} {later : List (List α)}
    (found : completed delim text = token :: later)
    : ∃ seps more,
        text = seps ++ (token ++ delim :: more)
        ∧ (∀ c ∈ seps, c = delim)
        ∧ delim ∉ token
        ∧ token ≠ []
        ∧ completed delim more = later := by
  rcases tokens_cases delim text with
    ⟨delims, -⟩ | ⟨seps, token', rfl, delims, inside, -, -⟩
    | ⟨seps, token', more, rfl, delims, inside, nonempty, -⟩
  · have none := completed_skip delims []
    rw [List.append_nil, found] at none
    simp [completed] at none
  · rw [completed_skip delims] at found
    simp [completed, List.splitOn_eq_singleton inside] at found
  · rw [List.append_assoc, completed_skip delims, completed_more inside nonempty] at found
    obtain ⟨rfl, rfl⟩ := List.cons.inj found
    exact ⟨seps, more, List.append_assoc _ _ _, delims, inside, nonempty, rfl⟩

/-- Longer text has at least as many completed pieces, by induction on the pieces. -/
theorem completed_append (delim : α) (text rest : List α)
    : (completed delim text).length ≤ (completed delim (text ++ rest)).length := by
  generalize found : completed delim text = pieces
  induction pieces generalizing text with
  | nil => exact Nat.zero_le _
  | cons token later ih =>
      obtain ⟨seps, more, rfl, delims, inside, nonempty, behind⟩ := completed_split found
      rw [List.append_assoc, List.append_assoc, List.cons_append, completed_skip delims,
        completed_more inside nonempty]
      exact Nat.succ_le_succ (ih more behind)

/-- A call on text with a completed piece finds a token without leaving the text, and the
text behind it has the later completed pieces.
-/
theorem strtok_completed {nul delim : α} (distinct : nul ≠ delim) (front : List α)
    {text token : List α} (clean : nul ∉ text) {later : List (List α)}
    (found : completed delim text = token :: later)
    : ∃ piece remaining start,
        strtok nul delim (front ++ text) front.length
          = some ⟨front ++ piece ++ remaining, (front ++ piece).length, some start⟩
        ∧ nul ∉ remaining
        ∧ completed delim remaining = later := by
  obtain ⟨seps, more, rfl, delims, inside, nonempty, behind⟩ := completed_split found
  have tokenClean : nul ∉ token := fun member => clean (by simp [member])
  have moreClean : nul ∉ more := fun member => clean (by simp [member])
  have call := strtok_more front more distinct delims nonempty tokenClean
    inside
  refine ⟨seps ++ (token ++ [nul]), more, front.length + seps.length, ?_, moreClean, behind⟩
  simpa [Nat.add_assoc] using call

/-- A call on text that completes no piece leaves the text: it scans to the end of the memory.
-/
theorem strtok_leaves {nul delim : α} (front : List α) {text : List α} (clean : nul ∉ text)
    (nothing : completed delim text = [])
    : strtok nul delim (front ++ text) front.length = none := by
  rcases tokens_cases delim text with
    ⟨delims, -⟩ | ⟨seps, token, rfl, delims, inside, nonempty, -⟩
    | ⟨seps, token, more, rfl, delims, inside, nonempty, -⟩
  · have skipped : text.takeWhile (· == delim) = text :=
      List.takeWhile_eq_self_iff.mpr fun c member => by simp [delims c member]
    have ended : (front ++ text)[front.length + text.length]? = none := by simp
    simp only [strtok, List.drop_left, skipped, ended]
  · obtain ⟨first, tail, rfl⟩ := List.exists_cons_of_ne_nil nonempty
    have firstNeDelim : first ≠ delim := fun same => inside (by simp [same])
    have firstNeNul : first ≠ nul := fun same => clean (by simp [same])
    have started := strtok_start front tail delims firstNeDelim
    have found : (front ++ (seps ++ first :: tail))[front.length + seps.length]? = some first := by
      rw [← List.append_assoc, ← List.length_append]
      simp
    have whole : (first :: tail).takeWhile (fun c => c != delim && c != nul) = first :: tail := by
      refine List.takeWhile_eq_self_iff.mpr fun c member => ?_
      simp only [Bool.and_eq_true, bne_iff_ne]
      exact ⟨fun same => inside (same ▸ member),
        fun same => clean (List.mem_append_right _ (same ▸ member))⟩
    have behind : (front ++ (seps ++ first :: tail)).drop (front.length + seps.length)
        = first :: tail := by
      rw [← List.append_assoc, ← List.length_append, List.drop_left]
    have ended : (front ++ (seps ++ first :: tail))[
        front.length + seps.length + (first :: tail).length]? = none := by
      rw [List.getElem?_eq_none_iff]
      simp only [List.length_append]
      omega
    simp only [strtok, started, found, firstNeNul, if_false, behind, whole, ended]
  · rw [List.append_assoc, completed_skip delims, completed_more inside nonempty] at nothing
    cases nothing

-----------------------------------------------------------------------------------------
-- Decimal conversion
-----------------------------------------------------------------------------------------

/-- `isspace` in the default locale. -/
def isSpace (c : UInt8) : Bool := c == 32 || (9 ≤ c && c ≤ 13)

/-- `isdigit`. -/
def isDigit (c : UInt8) : Bool := 48 ≤ c && c ≤ 57

/-- The optional sign in front of a number, as "is it negative", and the text behind it. -/
def signOf (text : List UInt8) : Bool × List UInt8 :=
  match text with
  | 45 :: rest => (true, rest)
  | 43 :: rest => (false, rest)
  | rest => (false, rest)

/-- `strtol(text, NULL, 10)` with a 64-bit `long`: spaces, an optional sign, then digits;
values out of range saturate.
-/
def strtol (text : List UInt8) : Int :=
  let (negative, rest) := signOf (text.dropWhile isSpace)
  let magnitude : Nat :=
    (rest.takeWhile isDigit).foldl (fun value c => 10 * value + (c.toNat - 48)) 0
  if negative then max (-2 ^ 63) (-(magnitude : Int)) else min (2 ^ 63 - 1) magnitude

/-- `atoi`, which is `(int) strtol`: the low 32 bits, as a signed number. -/
def atoi (text : List UInt8) : Int32 := Int32.ofInt (strtol text)

example : atoi [32, 45, 49, 50, 120] = -12 := by decide

/-- The decimal text of a positive number, without leading zeros. -/
def decimalText (n : Nat) : List UInt8 :=
  (Nat.digits 10 n).reverse.map fun digit => UInt8.ofNat (48 + digit)

example : decimalText 120 = [49, 50, 48] := by decide

/-- The characters of a decimal text are digits with the values they stand for. -/
private theorem digit_value {n digit : Nat} (member : digit ∈ Nat.digits 10 n)
    : isDigit (UInt8.ofNat (48 + digit)) ∧ (UInt8.ofNat (48 + digit)).toNat = 48 + digit := by
  have small : digit < 10 := Nat.digits_lt_base (by decide) member
  have value : (UInt8.ofNat (48 + digit)).toNat = 48 + digit := by
    rw [UInt8.toNat_ofNat']
    omega
  refine ⟨?_, value⟩
  simp only [isDigit, Bool.and_eq_true, decide_eq_true_eq, UInt8.le_iff_toNat_le, value]
  exact ⟨Nat.le_add_right 48 digit, by simp only [UInt8.reduceToNat]; omega⟩

theorem isDigit_of_mem_decimalText {n : Nat} {c : UInt8} (member : c ∈ decimalText n)
    : isDigit c := by
  obtain ⟨digit, found, rfl⟩ := List.mem_map.mp member
  exact (digit_value (List.mem_reverse.mp found)).1

theorem decimalText_ne_nil {n : Nat} (positive : 0 < n) : decimalText n ≠ [] := by
  rw [decimalText, ne_eq, List.map_eq_nil_iff, List.reverse_eq_nil_iff]
  exact Nat.digits_ne_nil_iff_ne_zero.mpr positive.ne'

/-- A number below a power of ten has no more digits than the exponent. -/
theorem decimalText_length_le {n bound : Nat} (small : n < 10 ^ bound)
    : (decimalText n).length ≤ bound := by
  rw [decimalText, List.length_map, List.length_reverse]
  exact (Nat.digits_length_le_iff (by decide) n).mpr small

/-- The value that is accumulated over digit characters, by induction from the last one. -/
private theorem foldl_digits {digits : List Nat}
    (small : ∀ digit ∈ digits, (UInt8.ofNat (48 + digit)).toNat = 48 + digit)
    : (digits.reverse.map fun digit => UInt8.ofNat (48 + digit)).foldl
        (fun value c => 10 * value + (c.toNat - 48)) 0
      = Nat.ofDigits 10 digits := by
  induction digits with
  | nil => rfl
  | cons digit later ih =>
      have value := small digit (by simp)
      have rest := ih fun other member => small other (by simp [member])
      rw [List.reverse_cons, List.map_append, List.foldl_append, rest, Nat.ofDigits_cons]
      simp only [List.map_cons, List.map_nil, List.foldl_cons, List.foldl_nil, value]
      omega

/-- A digit is neither a space nor a sign. -/
private theorem digit_plain {c : UInt8} (digit : isDigit c)
    : isSpace c = false ∧ c ≠ 45 ∧ c ≠ 43 := by
  simp only [isDigit, Bool.and_eq_true, decide_eq_true_eq, UInt8.le_iff_toNat_le] at digit
  refine ⟨?_, ?_, ?_⟩
  · simp only [isSpace, Bool.or_eq_false_iff, beq_eq_false_iff_ne, Bool.and_eq_false_iff,
      decide_eq_false_iff_not, UInt8.le_iff_toNat_le]
    exact ⟨by rintro rfl; simp at digit, Or.inr (by simp at digit ⊢; omega)⟩
  · rintro rfl
    simp at digit
  · rintro rfl
    simp at digit

/-- Decimal text that fits an `int` converts to its number. -/
theorem atoi_decimalText {n : Nat} (positive : 0 < n) (small : n < 2 ^ 31)
    : atoi (decimalText n) = Int32.ofNat n := by
  obtain ⟨first, rest, text⟩ := List.exists_cons_of_ne_nil (decimalText_ne_nil positive)
  obtain ⟨noSpace, noMinus, noPlus⟩ :=
    digit_plain (isDigit_of_mem_decimalText (n := n) (c := first) (by simp [text]))
  have start : (decimalText n).dropWhile isSpace = decimalText n := by
    rw [text, List.dropWhile_cons_of_neg (by simp [noSpace])]
  have unsigned : signOf (decimalText n) = (false, decimalText n) := by
    rw [text, signOf]
    · simpa using noMinus
    · simpa using noPlus
  have all : (decimalText n).takeWhile isDigit = decimalText n :=
    List.takeWhile_eq_self_iff.mpr fun _ member => isDigit_of_mem_decimalText member
  have value : (decimalText n).foldl (fun value c => 10 * value + (c.toNat - 48)) 0 = n := by
    rw [decimalText, foldl_digits fun _ member => (digit_value member).2, Nat.ofDigits_digits]
  rw [atoi, strtol, start, unsigned]
  simp only [all, value, Bool.false_eq_true, if_false]
  rw [min_eq_right (by omega), Int32.ofInt_eq_ofNat]

end LowlevelAcademy.Foundations
