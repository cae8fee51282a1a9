import Mathlib

/-! The open descriptors of a process: which uses of a descriptor are possible, and what the
system returns when it opens the lowest one that is free.
-/

namespace LowlevelAcademy.Foundations

variable {δ : Type*}

/-- What a step does with a descriptor. -/
inductive DescriptorUse (δ : Type*) where
  | opens (fd : δ)
  | reads (fd : δ)
  | writes (fd : δ)
  | closes (fd : δ)

variable [DecidableEq δ]

/-- The open descriptors after a use. Only descriptors that are open are read from, written to
and closed, and only others are opened.
-/
def DescriptorUse.apply (opened : Finset δ) : DescriptorUse δ → Option (Finset δ)
  | .opens fd => if fd ∈ opened then none else some (insert fd opened)
  | .reads fd | .writes fd => if fd ∈ opened then some opened else none
  | .closes fd => if fd ∈ opened then some (opened.erase fd) else none

/-- The open descriptors after several uses. -/
def applyUses (opened : Finset δ) (uses : List (DescriptorUse δ)) : Option (Finset δ) :=
  uses.foldlM DescriptorUse.apply opened

variable {opened : Finset δ}

/-- Uses compose. -/
theorem applyUses_append {between : Finset δ} {uses more : List (DescriptorUse δ)}
    (first : applyUses opened uses = some between)
    : applyUses opened (uses ++ more) = applyUses between more := by
  rw [applyUses, List.foldlM_append, ← applyUses, first]
  rfl

/-- Reading and writing open descriptors changes none of them. -/
theorem applyUses_kept {uses : List (DescriptorUse δ)}
    (kept : ∀ use ∈ uses, use.apply opened = some opened)
    : applyUses opened uses = some opened := by
  induction uses with
  | nil => rfl
  | cons first rest ih =>
      rw [applyUses, List.foldlM_cons, kept first (by simp)]
      exact ih fun use member => kept use (by simp [member])

/-- The lowest descriptor that is free is at most the number of open ones: those below it are
all open.
-/
theorem lowest_free_le {opened : Finset Int} {fd : Int}
    (lowest : IsLeast { fd | 0 ≤ fd ∧ fd ∉ opened } fd)
    : fd ≤ opened.card := by
  have below : (Finset.range fd.toNat).image (fun n : Nat => (n : Int)) ⊆ opened := by
    intro other member
    obtain ⟨n, inside, rfl⟩ := Finset.mem_image.mp member
    by_contra free
    have reached := lowest.2 ⟨Int.natCast_nonneg n, free⟩
    have inside := Finset.mem_range.mp inside
    omega
  have few := Finset.card_le_card below
  rw [Finset.card_image_of_injective _ Nat.cast_injective, Finset.card_range] at few
  have positive : 0 ≤ fd := lowest.1.1
  omega

-----------------------------------------------------------------------------------------
-- Tables of descriptors
-----------------------------------------------------------------------------------------

variable {ι : Type*} [Fintype ι]

/-- The descriptors in a table; `free` marks the entries without one. -/
def descriptorsIn (free : δ) (fds : ι → δ) : Finset δ :=
  (Finset.univ.filter fun entry => fds entry ≠ free).image fds

/-- The balance of a process: what is open is what was open at first and the descriptors in the
table, each in one entry.
-/
structure Balance (free : δ) (base : Finset δ) (fds : ι → δ) (opened : Finset δ) : Prop where
  valid : free ∉ base
  distinct : ∀ {entry other}, fds entry ≠ free → fds other = fds entry → other = entry
  opened : opened = base ∪ descriptorsIn free fds
  apart : Disjoint base (descriptorsIn free fds)

variable {free fd : δ} {base : Finset δ} {fds : ι → δ} {entry : ι}

theorem mem_descriptorsIn
    : fd ∈ descriptorsIn free fds ↔ ∃ entry, fds entry ≠ free ∧ fds entry = fd := by
  simp [descriptorsIn]

/-- An empty table needs nothing but what is open at first. -/
theorem balance_start (valid : free ∉ base) : Balance free base (fun _ : ι => free) base where
  valid := valid
  distinct := by simp
  opened := by simp [descriptorsIn]
  apart := by simp [descriptorsIn]

/-- A descriptor in the table is open. -/
theorem Balance.mem_opened (balance : Balance free base fds opened) (used : fds entry ≠ free)
    : fds entry ∈ opened := by
  rw [balance.opened]
  exact Finset.mem_union_right _ (mem_descriptorsIn.mpr ⟨entry, used, rfl⟩)

/-- The mark of a free entry is never open. -/
theorem Balance.free_notMem (balance : Balance free base fds opened) : free ∉ opened := by
  rw [balance.opened, Finset.mem_union, not_or, mem_descriptorsIn]
  exact ⟨balance.valid, fun ⟨entry, used, same⟩ => used same⟩

/-- A process has as many descriptors open as it had at first and as its table holds. -/
theorem Balance.card (balance : Balance free base fds opened)
    : opened.card = base.card + (Finset.univ.filter fun entry => fds entry ≠ free).card := by
  rw [balance.opened, Finset.card_union_of_disjoint balance.apart, descriptorsIn,
    Finset.card_image_of_injOn]
  intro entry used other _ same
  exact (balance.distinct (by simpa using used) same.symm).symm

variable [DecidableEq ι]

/-- Entering a descriptor that was opened keeps the balance. -/
theorem Balance.connect (balance : Balance free base fds opened) (unused : fds entry = free)
    (valid : fd ≠ free) (fresh : fd ∉ opened)
    : Balance free base (Function.update fds entry fd) (insert fd opened) := by
  have added : descriptorsIn free (Function.update fds entry fd)
      = insert fd (descriptorsIn free fds) := by
    ext other
    simp only [mem_descriptorsIn, Finset.mem_insert]
    constructor
    · rintro ⟨owner, used, rfl⟩
      by_cases same : owner = entry
      · exact Or.inl (by rw [same, Function.update_self])
      · rw [Function.update_of_ne same] at used ⊢
        exact Or.inr ⟨owner, used, rfl⟩
    · rintro (rfl | ⟨owner, used, rfl⟩)
      · exact ⟨entry, by rwa [Function.update_self], Function.update_self ..⟩
      · have others : owner ≠ entry := fun same => used (same ▸ unused)
        exact ⟨owner, by rwa [Function.update_of_ne others], Function.update_of_ne others ..⟩
  refine ⟨balance.valid, ?_, ?_, ?_⟩
  · intro first second used same
    by_cases isFirst : first = entry <;> by_cases isSecond : second = entry
    · rw [isFirst, isSecond]
    · subst isFirst
      rw [Function.update_self, Function.update_of_ne isSecond] at same
      rw [Function.update_self] at used
      exact absurd (same ▸ balance.mem_opened (same ▸ used)) fresh
    · subst isSecond
      rw [Function.update_self, Function.update_of_ne isFirst] at same
      rw [Function.update_of_ne isFirst] at used
      exact absurd (same ▸ balance.mem_opened used) fresh
    · rw [Function.update_of_ne isFirst] at used same
      rw [Function.update_of_ne isSecond] at same
      exact balance.distinct used same
  · rw [added, balance.opened, Finset.union_insert]
  · rw [added, Finset.disjoint_insert_right]
    refine ⟨fun member => fresh ?_, balance.apart⟩
    rw [balance.opened]
    exact Finset.mem_union_left _ member

/-- So does closing the descriptor of an entry and freeing it. -/
theorem Balance.disconnect (balance : Balance free base fds opened) (used : fds entry ≠ free)
    : Balance free base (Function.update fds entry free) (opened.erase (fds entry)) := by
  have removed : descriptorsIn free (Function.update fds entry free)
      = (descriptorsIn free fds).erase (fds entry) := by
    ext other
    simp only [mem_descriptorsIn, Finset.mem_erase]
    constructor
    · rintro ⟨owner, stays, rfl⟩
      have others : owner ≠ entry := by
        rintro rfl
        simp at stays
      rw [Function.update_of_ne others] at stays ⊢
      exact ⟨fun same => others (balance.distinct used same), owner, stays, rfl⟩
    · rintro ⟨differs, owner, stays, rfl⟩
      have others : owner ≠ entry := fun same => differs (same ▸ rfl)
      exact ⟨owner, by rwa [Function.update_of_ne others], Function.update_of_ne others ..⟩
  have outside : fds entry ∉ base :=
    Finset.disjoint_right.mp balance.apart (mem_descriptorsIn.mpr ⟨entry, used, rfl⟩)
  refine ⟨balance.valid, ?_, ?_, ?_⟩
  · intro first second stays same
    have others : first ≠ entry := by
      rintro rfl
      simp at stays
    rw [Function.update_of_ne others] at stays same
    by_cases isSecond : second = entry
    · subst isSecond
      rw [Function.update_self] at same
      exact absurd same.symm stays
    · rw [Function.update_of_ne isSecond] at same
      exact balance.distinct stays same
  · rw [removed, balance.opened, Finset.erase_union_distrib, Finset.erase_eq_of_notMem outside]
  · rw [removed]
    exact balance.apart.mono_right (Finset.erase_subset _ _)

end LowlevelAcademy.Foundations
