import LowlevelAcademy.Foundations.Runs

/-! Bounded queues: the abstract one, as a list of waiting elements with a capacity, and the
ring of cells that implements it. A ring holds its elements from `front` on around the end.
-/

namespace LowlevelAcademy.Foundations

variable {α : Type*}

/-- What can happen to a bounded queue: an element is put in or turned away, or the first one
is taken out.
-/
inductive QueueOp (α : Type*) where
  | put (element : α)
  | turnedAway (element : α)
  | taken (element : α)

/-- One operation of a queue for `capacity` elements, from the waiting elements before it to
those after it.
-/
inductive BoundedQueue (capacity : Nat) : List α → QueueOp α → List α → Prop
  | put {waiting element} (room : waiting.length < capacity)
    : BoundedQueue capacity waiting (.put element) (waiting ++ [element])
  | turnedAway {waiting element} (full : waiting.length = capacity)
    : BoundedQueue capacity waiting (.turnedAway element) waiting
  | taken {waiting element}
    : BoundedQueue capacity (element :: waiting) (.taken element) waiting

/-- The elements that were put in, in order. -/
def putsOf (ops : List (QueueOp α)) : List α :=
  ops.filterMap fun
    | .put element => some element
    | _ => none

/-- The elements that were taken out, in order. -/
def takenOf (ops : List (QueueOp α)) : List α :=
  ops.filterMap fun
    | .taken element => some element
    | _ => none

/-- Along a run of a bounded queue that starts empty, the elements put in are the ones taken
out and then the waiting ones, of which there are never too many.
-/
theorem BoundedQueue.run {capacity : Nat} {ops : List (QueueOp α)} {waiting : List α}
    (run : Run (BoundedQueue capacity) [] ops waiting)
    : putsOf ops = takenOf ops ++ waiting ∧ waiting.length ≤ capacity := by
  refine run.invariant
    (motive := fun ops waiting =>
      putsOf ops = takenOf ops ++ waiting ∧ waiting.length ≤ capacity)
    ⟨rfl, Nat.zero_le _⟩ ?_
  intro history waiting label next kept step
  obtain ⟨order, bound⟩ := kept
  cases step with
  | put room =>
      constructor
      · simp [putsOf, takenOf] at order ⊢
        rw [order, List.append_assoc]
      · rw [List.length_append]
        exact room
  | turnedAway => simpa [putsOf, takenOf] using And.intro order bound
  | taken =>
      constructor
      · simp [putsOf, takenOf] at order ⊢
        exact order
      · rw [List.length_cons] at bound
        omega

-----------------------------------------------------------------------------------------
-- Rings
-----------------------------------------------------------------------------------------

/-- A ring of `size` cells, `count` of which are in use. -/
structure Ring (size : Nat) (α : Type*) where
  cells : Fin size → α
  front : Fin size
  count : Nat
  bound : count ≤ size

namespace Ring

variable {size : Nat}

/-- The cell at a distance behind `start`, around the end. -/
def wrap (start : Fin size) (distance : Nat) : Fin size :=
  ⟨(start + distance) % size, Nat.mod_lt _ start.pos⟩

/-- The cell behind the ones in use. -/
def back (ring : Ring size α) : Fin size := wrap ring.front ring.count

/-- The elements in use, from the front on. -/
def contents (ring : Ring size α) : List α :=
  (List.range ring.count).map fun distance => ring.cells (wrap ring.front distance)

/-- A new element in the cell behind the ones in use. -/
def push (ring : Ring size α) (element : α) (room : ring.count < size) : Ring size α where
  cells := Function.update ring.cells ring.back element
  front := ring.front
  count := ring.count + 1
  bound := room

/-- The ring without its front element, whose cell keeps what it held. -/
def pop (ring : Ring size α) : Ring size α where
  cells := ring.cells
  front := wrap ring.front 1
  count := ring.count - 1
  bound := (Nat.sub_le _ _).trans ring.bound

@[simp] theorem wrap_zero (start : Fin size) : wrap start 0 = start :=
  Fin.ext (Nat.mod_eq_of_lt start.isLt)

/-- Distances add up. -/
theorem wrap_wrap (start : Fin size) (first second : Nat)
    : wrap (wrap start first) second = wrap start (first + second) := by
  apply Fin.ext
  simp only [wrap, Nat.mod_add_mod, Nat.add_assoc]

/-- Within one round, different distances lead to different cells. -/
theorem wrap_inj {start : Fin size} {first second : Nat} (firstInside : first < size)
    (secondInside : second < size) (same : wrap start first = wrap start second)
    : first = second := by
  have residues : (start.val + first) ≡ (start.val + second) [MOD size] :=
    congrArg Fin.val same
  have distances := Nat.ModEq.add_left_cancel' start.val residues
  rwa [Nat.ModEq, Nat.mod_eq_of_lt firstInside, Nat.mod_eq_of_lt secondInside] at distances

@[simp] theorem contents_length (ring : Ring size α)
    : ring.contents.length = ring.count := by
  simp [contents]

/-- The `i`-th element lies at distance `i` behind the front. -/
theorem contents_getElem? (ring : Ring size α) {i : Nat} (inside : i < ring.count)
    : ring.contents[i]? = some (ring.cells (wrap ring.front i)) := by
  simp [contents, inside]

/-- A pushed element comes last. -/
theorem contents_push (ring : Ring size α) (element : α) (room : ring.count < size)
    : (ring.push element room).contents = ring.contents ++ [element] := by
  have others : ∀ distance ∈ List.range ring.count,
      (ring.push element room).cells (wrap ring.front distance)
        = ring.cells (wrap ring.front distance) := by
    intro distance member
    have inside := List.mem_range.mp member
    apply Function.update_of_ne
    intro same
    have equal := wrap_inj (inside.trans room) room same
    omega
  calc (ring.push element room).contents
      = (List.range (ring.count + 1)).map fun distance =>
          (ring.push element room).cells (wrap ring.front distance) := rfl
    _ = ring.contents ++ [(ring.push element room).cells ring.back] := by
        rw [List.range_succ, List.map_append, List.map_congr_left others]
        rfl
    _ = ring.contents ++ [element] := by
        simp only [push, Function.update_self]

/-- Popping takes the front element. -/
theorem contents_pop (ring : Ring size α) (used : 0 < ring.count)
    : ring.contents = ring.cells ring.front :: ring.pop.contents := by
  obtain ⟨count, more⟩ : ∃ count, ring.count = count + 1 := ⟨ring.count - 1, by omega⟩
  have shifted (distance : Nat)
      : wrap (wrap ring.front 1) distance = wrap ring.front (distance + 1) := by
    rw [wrap_wrap, Nat.add_comm]
  simp [contents, pop, more, List.range_succ_eq_map, shifted, Function.comp_def]

/-- A push moves the back by one cell. -/
theorem back_push (ring : Ring size α) (element : α) (room : ring.count < size)
    : (ring.push element room).back = wrap ring.back 1 := by
  rw [back, back, wrap_wrap]
  rfl

/-- A pop leaves the back where it is. -/
theorem back_pop (ring : Ring size α) (used : 0 < ring.count)
    : ring.pop.back = ring.back := by
  have count : 1 + (ring.count - 1) = ring.count := by omega
  rw [back, pop, wrap_wrap, count, back]

end Ring

end LowlevelAcademy.Foundations
