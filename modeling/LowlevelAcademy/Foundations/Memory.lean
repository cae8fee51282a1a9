import Mathlib

/-! Memory regions as lists: reading a slice, overwriting in place, fixed-size arrays,
reallocation, and files with a current offset.
-/

namespace LowlevelAcademy.Foundations

variable {α : Type*}

/-- The elements at positions `offset` up to `offset + length`, as far as they exist. -/
def slice (offset length : Nat) (memory : List α) : List α :=
  (memory.drop offset).take length

/-- `memory` with `new` written over it from `offset` on, longer if `new` reaches past the
end.
-/
def splice (offset : Nat) (new memory : List α) : List α :=
  memory.take offset ++ new ++ memory.drop (offset + new.length)

@[simp] theorem slice_length (offset length : Nat) (memory : List α)
    : (slice offset length memory).length = min length (memory.length - offset) := by
  simp [slice]

/-- A slice inside the front part does not see what follows it. -/
theorem slice_append {offset length : Nat} {front : List α}
    (inside : offset + length ≤ front.length) (rest : List α)
    : slice offset length (front ++ rest) = slice offset length front := by
  rw [slice, slice, List.drop_append_of_le_length (by omega),
    List.take_append_of_le_length (by rw [List.length_drop]; omega)]

/-- Equally long pieces lie at the multiples of their length, by induction on the position. -/
theorem slice_flatMap {β : Type*} {piece : α → List β} {size : Nat}
    (sizes : ∀ a, (piece a).length = size) (pieces : List α) (i : Nat)
    (inside : i < pieces.length)
    : slice (i * size) size (pieces.flatMap piece) = piece pieces[i] := by
  induction pieces generalizing i with
  | nil => simp at inside
  | cons first rest ih =>
      cases i with
      | zero =>
          rw [Nat.zero_mul, slice, List.drop_zero, List.flatMap_cons]
          exact List.take_left' (sizes first)
      | succ i =>
          have later := ih i (by simpa using inside)
          have split : (i + 1) * size = (piece first).length + i * size := by
            rw [sizes]
            ring
          rw [slice] at later ⊢
          rw [split, List.flatMap_cons, List.drop_append, List.drop_eq_nil_of_le (by omega),
            List.nil_append, Nat.add_sub_cancel_left, later]
          rfl

theorem splice_length {offset : Nat} {new memory : List α}
    (start : offset ≤ memory.length)
    : (splice offset new memory).length = max memory.length (offset + new.length) := by
  simp only [splice, List.length_append, List.length_take, List.length_drop]
  omega

/-- Writing nothing changes nothing. -/
@[simp] theorem splice_nil (offset : Nat) (memory : List α)
    : splice offset [] memory = memory := by
  simp [splice]

/-- What was written is read back. -/
theorem slice_splice_self {offset length : Nat} {new memory : List α}
    (start : offset ≤ memory.length) (size : new.length = length)
    : slice offset length (splice offset new memory) = new := by
  have front : (memory.take offset).length = offset := by simp [start]
  rw [slice, splice, List.append_assoc, List.drop_left' front, ← size, List.take_left]

/-- A write leaves the elements before it alone. -/
theorem take_splice {offset bound : Nat} {new memory : List α}
    (start : offset ≤ memory.length) (below : bound ≤ offset)
    : (splice offset new memory).take bound = memory.take bound := by
  have front : bound ≤ (memory.take offset).length := by simp; omega
  rw [splice, List.append_assoc, List.take_append_of_le_length front, List.take_take,
    min_eq_left below]

/-- A write leaves the elements after it alone. -/
theorem drop_splice {offset bound : Nat} {new memory : List α}
    (start : offset ≤ memory.length) (above : offset + new.length ≤ bound)
    : (splice offset new memory).drop bound = memory.drop bound := by
  have front : (memory.take offset ++ new).length = offset + new.length := by
    simp [start]
  rw [splice, List.drop_append, List.drop_eq_nil_of_le (by omega), List.nil_append, front,
    List.drop_drop]
  congr 1
  omega

/-- A slice below a write is unchanged. -/
theorem slice_splice_below {offset start length : Nat} {new memory : List α}
    (inside : offset ≤ memory.length) (below : start + length ≤ offset)
    : slice start length (splice offset new memory) = slice start length memory := by
  rw [slice, slice, List.take_drop, List.take_drop, take_splice inside below]

/-- Two writes one after the other are one write of both contents. -/
theorem splice_splice {offset : Nat} (first second : List α) {memory : List α}
    (start : offset ≤ memory.length)
    : splice (offset + first.length) second (splice offset first memory)
      = splice offset (first ++ second) memory := by
  have front : (memory.take offset ++ first).length = offset + first.length := by
    simp [start]
  have kept : (splice offset first memory).take (offset + first.length)
      = memory.take offset ++ first := by
    rw [splice, List.take_left' front]
  rw [splice, kept, drop_splice start (by omega)]
  simp only [splice, List.append_assoc, List.length_append, Nat.add_assoc]

-----------------------------------------------------------------------------------------
-- Fixed-size arrays
-----------------------------------------------------------------------------------------

/-- The first `size` elements of `source`, filled up with `fill` when there are fewer. -/
def fit (size : Nat) (fill : α) (source : List α) : List.Vector α size :=
  ⟨source.takeD size fill, List.takeD_length size source fill⟩

/-- A source of the right size is taken as it is. -/
theorem fit_toList_of_length {size : Nat} {fill : α} {source : List α}
    (length : source.length = size)
    : (fit size fill source).toList = source := by
  change source.takeD size fill = source
  rw [List.takeD_eq_take fill (by omega), List.take_of_length_le (by omega)]

/-- Refitting an array's own contents returns the array. -/
@[simp] theorem fit_toList {size : Nat} {fill : α} (array : List.Vector α size)
    : fit size fill array.toList = array :=
  List.Vector.eq _ _ (fit_toList_of_length array.toList_length)

/-- What follows a source of at least the array's size is dropped. -/
theorem fit_append_of_le {size : Nat} {fill : α} {source : List α}
    (long : size ≤ source.length) (rest : List α)
    : fit size fill (source ++ rest) = fit size fill source := by
  refine List.Vector.eq _ _ ?_
  change (source ++ rest).takeD size fill = source.takeD size fill
  rw [List.takeD_eq_take fill (by simp; omega), List.takeD_eq_take fill long,
    List.take_append_of_le_length long]

/-- A short source is followed by fill elements. -/
theorem fit_toList_of_le {size : Nat} {fill : α} {source : List α}
    (short : source.length ≤ size)
    : (fit size fill source).toList
      = source ++ List.replicate (size - source.length) fill := by
  change source.takeD size fill = _
  induction source generalizing size with
  | nil => simp
  | cons head tail ih =>
      cases size with
      | zero => simp at short
      | succ size =>
          simp only [List.length_cons, Nat.add_le_add_iff_right] at short
          simp [ih short]

/-- `realloc` of `block` to `count` elements. It returns no block when `fresh` is absent or
the requested size is zero; otherwise it keeps the old elements and `fresh` tells what the
added memory happens to hold.
-/
def realloc (fresh : Option (Nat → α)) (block : Option (List α)) (count : Nat)
    : Option (List α) :=
  if count = 0 then none
  else fresh.map fun contents =>
    let kept := (block.getD []).take count
    kept ++ (List.range' kept.length (count - kept.length)).map contents

/-- A reallocated block has the requested size. -/
theorem realloc_length {fresh : Option (Nat → α)} {block : Option (List α)} {count : Nat}
    {grown : List α} (allocated : realloc fresh block count = some grown)
    : grown.length = count := by
  rw [realloc] at allocated
  split_ifs at allocated
  obtain ⟨contents, -, rfl⟩ := Option.map_eq_some_iff.mp allocated
  have kept : ((block.getD []).take count).length ≤ count := List.length_take_le _ _
  simp only [List.length_append, List.length_map, List.length_range']
  omega

/-- Growing a block by one element keeps it and appends one. -/
theorem realloc_succ (contents : Nat → α) (block : List α)
    : realloc (some contents) (some block) (block.length + 1)
      = some (block ++ [contents block.length]) := by
  simp [realloc]

-----------------------------------------------------------------------------------------
-- Files
-----------------------------------------------------------------------------------------

/-- An open file: its contents and the current offset, which never lies past the end. -/
@[ext] structure OpenFile (α : Type*) where
  content : List α
  offset : Nat
  within : offset ≤ content.length

/-- How one `write` call ends: everything written, only a prefix, or nothing. -/
inductive WriteOutcome where
  | complete
  | short (written : Nat)
  | failed
  deriving DecidableEq

/-- The part of the data that a `write` call with this outcome puts into the file. -/
def WriteOutcome.transferred (outcome : WriteOutcome) (data : List α) : List α :=
  match outcome with
  | .complete => data
  | .short written => data.take written
  | .failed => []

/-- A `write` call with this outcome puts data of this size into the file as a whole. -/
def WriteOutcome.Covers (outcome : WriteOutcome) (size : Nat) : Prop :=
  match outcome with
  | .complete => True
  | .short written => size ≤ written
  | .failed => size = 0

theorem WriteOutcome.transferred_length_le (outcome : WriteOutcome) (data : List α)
    : (outcome.transferred data).length ≤ data.length := by
  cases outcome with
  | complete => exact le_refl _
  | short written => exact List.length_take_le' written data
  | failed => exact Nat.zero_le _

/-- What is transferred is as long as the data only if it is the data. -/
theorem WriteOutcome.covers_iff (outcome : WriteOutcome) (data : List α)
    : outcome.Covers data.length ↔ data.length ≤ (outcome.transferred data).length := by
  cases outcome with
  | complete => simp [Covers, transferred]
  | short written => simp [Covers, transferred]
  | failed => simp [Covers, transferred]

theorem WriteOutcome.transferred_of_covers {outcome : WriteOutcome} {data : List α}
    (covers : outcome.Covers data.length)
    : outcome.transferred data = data := by
  cases outcome with
  | complete => rfl
  | short written => exact List.take_of_length_le covers
  | failed => exact (List.length_eq_zero_iff.mp covers).symm

/-- A freshly opened file is positioned at its start. -/
def OpenFile.opened (content : List α) : OpenFile α := ⟨content, 0, Nat.zero_le _⟩

/-- `lseek(fd, 0, SEEK_SET)`. -/
def OpenFile.rewind (file : OpenFile α) : OpenFile α := .opened file.content

/-- `read`: up to `length` elements from the current offset, which moves behind them. -/
def OpenFile.read (length : Nat) (file : OpenFile α) : List α × OpenFile α :=
  let data := slice file.offset length file.content
  (data, {
    content := file.content
    offset := file.offset + data.length
    within := by
      have within := file.within
      simp only [data, slice, List.length_take, List.length_drop]
      omega
  })

/-- `write`: overwrites or extends the file from the current offset, which moves behind the
transferred data.
-/
def OpenFile.write (outcome : WriteOutcome) (data : List α) (file : OpenFile α)
    : OpenFile α where
  content := splice file.offset (outcome.transferred data) file.content
  offset := file.offset + (outcome.transferred data).length
  within := by
    rw [splice_length file.within]
    exact Nat.le_max_right _ _

/-- Successive `write` calls, each with its data and the way it ends. -/
def OpenFile.writeAll (file : OpenFile α) (calls : List (List α × WriteOutcome))
    : OpenFile α :=
  calls.foldl (fun file call => file.write call.2 call.1) file

/-- Everything that successive `write` calls put into the file. -/
def transferredBy (calls : List (List α × WriteOutcome)) : List α :=
  calls.flatMap fun call => call.2.transferred call.1

/-- Every one of these `write` calls puts its data into the file as a whole. -/
def AllCover (calls : List (List α × WriteOutcome)) : Prop :=
  ∀ call ∈ calls, call.2.Covers call.1.length

@[simp] theorem OpenFile.rewind_content (file : OpenFile α)
    : file.rewind.content = file.content :=
  rfl

@[simp] theorem OpenFile.rewind_offset (file : OpenFile α) : file.rewind.offset = 0 := rfl

@[simp] theorem OpenFile.read_data (length : Nat) (file : OpenFile α)
    : (file.read length).1 = slice file.offset length file.content :=
  rfl

@[simp] theorem OpenFile.read_offset (length : Nat) (file : OpenFile α)
    : (file.read length).2.offset
      = file.offset + (slice file.offset length file.content).length :=
  rfl

/-- Writing nothing leaves the file as it is. -/
@[simp] theorem OpenFile.write_nil (file : OpenFile α) : file.write .complete [] = file :=
  OpenFile.ext (by simp [OpenFile.write, WriteOutcome.transferred])
    (by simp [OpenFile.write, WriteOutcome.transferred])

/-- A complete write of two pieces is the same as one write after the other. -/
theorem OpenFile.write_append (first second : List α) (file : OpenFile α)
    : (file.write .complete first).write .complete second
      = file.write .complete (first ++ second) := by
  simp only [OpenFile.write, WriteOutcome.transferred, splice_splice _ _ file.within,
    List.length_append, Nat.add_assoc]

/-- Completely rewriting from the start replaces the leading bytes and keeps the rest. -/
theorem OpenFile.rewind_write_content (data : List α) (file : OpenFile α)
    : (file.rewind.write .complete data).content
      = data ++ file.content.drop data.length := by
  simp [OpenFile.write, OpenFile.rewind, OpenFile.opened, WriteOutcome.transferred, splice]

/-- Successive writes have the effect of one write of what they transfer, by induction on them.
-/
theorem OpenFile.writeAll_content (file : OpenFile α) (calls : List (List α × WriteOutcome))
    : (file.writeAll calls).content = splice file.offset (transferredBy calls) file.content := by
  induction calls generalizing file with
  | nil => simp [writeAll, transferredBy]
  | cons call later ih =>
      calc (file.writeAll (call :: later)).content
          = ((file.write call.2 call.1).writeAll later).content := rfl
        _ = splice (file.offset + (call.2.transferred call.1).length) (transferredBy later)
              (splice file.offset (call.2.transferred call.1) file.content) := ih _
        _ = splice file.offset (transferredBy (call :: later)) file.content :=
            splice_splice _ _ file.within

/-- Writes transfer at most their data, and all of it exactly when each covers its own. -/
theorem transferredBy_length_le (calls : List (List α × WriteOutcome))
    : (transferredBy calls).length ≤ (calls.map Prod.fst).flatten.length := by
  induction calls with
  | nil => exact le_refl _
  | cons call later ih =>
      have first := call.2.transferred_length_le call.1
      simp only [transferredBy, List.flatMap_cons, List.map_cons, List.flatten_cons,
        List.length_append] at ih ⊢
      omega

theorem transferredBy_of_allCover {calls : List (List α × WriteOutcome)}
    (covers : AllCover calls)
    : transferredBy calls = (calls.map Prod.fst).flatten := by
  rw [transferredBy, List.flatMap_def]
  congr 1
  exact List.map_congr_left fun call member =>
    WriteOutcome.transferred_of_covers (covers call member)

theorem allCover_of_length {calls : List (List α × WriteOutcome)}
    (whole : (calls.map Prod.fst).flatten.length ≤ (transferredBy calls).length)
    : AllCover calls := by
  induction calls with
  | nil => exact fun _ member => absurd member List.not_mem_nil
  | cons call later ih =>
      have first := call.2.transferred_length_le call.1
      have others := transferredBy_length_le later
      simp only [transferredBy, List.flatMap_cons, List.map_cons, List.flatten_cons,
        List.length_append] at whole others ih
      refine List.forall_mem_cons.mpr ⟨(call.2.covers_iff call.1).mpr (by omega), ih (by omega)⟩

/-- Rewriting a file from its start by several writes. -/
theorem OpenFile.rewind_writeAll_content (file : OpenFile α)
    (calls : List (List α × WriteOutcome))
    : (file.rewind.writeAll calls).content
      = transferredBy calls ++ file.content.drop (transferredBy calls).length := by
  rw [writeAll_content]
  simp [splice]

/-- A file that is not longer than the data of the writes never becomes longer. It becomes just
as long exactly when every write covers its data, provided that it was shorter; then it
consists of the data.
-/
theorem OpenFile.rewind_writeAll_length_le {file : OpenFile α}
    {calls : List (List α × WriteOutcome)}
    (short : file.content.length ≤ (calls.map Prod.fst).flatten.length)
    : (file.rewind.writeAll calls).content.length ≤ (calls.map Prod.fst).flatten.length := by
  have most := transferredBy_length_le calls
  rw [rewind_writeAll_content, List.length_append, List.length_drop]
  omega

theorem OpenFile.rewind_writeAll_eq_iff {file : OpenFile α}
    {calls : List (List α × WriteOutcome)}
    (shorter : file.content.length < (calls.map Prod.fst).flatten.length)
    : (file.rewind.writeAll calls).content = (calls.map Prod.fst).flatten ↔ AllCover calls := by
  rw [rewind_writeAll_content]
  constructor
  · intro whole
    have length := congrArg List.length whole
    have most := transferredBy_length_le calls
    rw [List.length_append, List.length_drop] at length
    exact allCover_of_length (by omega)
  · intro covers
    rw [transferredBy_of_allCover covers, List.drop_eq_nil_of_le shorter.le, List.append_nil]

end LowlevelAcademy.Foundations
