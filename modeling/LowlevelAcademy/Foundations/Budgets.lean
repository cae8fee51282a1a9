import LowlevelAcademy.Foundations.Runs

/-! Budgets of runs: when every step pays for what it spends out of a measure of the state, a
run spends no more than the measure had at its start and gained on the way.
-/

namespace LowlevelAcademy.Foundations

variable {σ α : Type*} {step : σ → α → σ → Prop} {start state : σ} {history : List α}

/-- The budget rule: where every step from a good state lowers the measure by what it spends,
up to what it gains, so does every run.
-/
theorem Run.budget (good : σ → Prop) (measure : σ → Nat) (spent gained : α → Nat)
    (kept : ∀ state label next, good state → step state label next → good next)
    (pays
      : ∀ state label next,
          good state
          → step state label next
          → measure next + spent label ≤ measure state + gained label)
    (begins : good start) (run : Run step start history state)
    : measure state + (history.map spent).sum ≤ measure start + (history.map gained).sum := by
  suffices paid : good state
      ∧ measure state + (history.map spent).sum ≤ measure start + (history.map gained).sum from
    paid.2
  refine run.invariant
    (motive := fun history state =>
      good state
      ∧ measure state + (history.map spent).sum ≤ measure start + (history.map gained).sum)
    ⟨begins, le_refl _⟩ ?_
  rintro history state label next ⟨well, before⟩ last
  have now := pays state label next well last
  refine ⟨kept state label next well last, ?_⟩
  simp only [List.map_append, List.sum_append, List.map_cons, List.map_nil, List.sum_singleton]
  omega

/-- A member of a family that changes exchanges its share of the sum for the new one. -/
theorem sum_update {ι β M : Type*} [Fintype ι] [DecidableEq ι] [AddCommMonoid M] (share : β → M)
    (members : ι → β) (member : ι) (value : β)
    : ∑ other, share (Function.update members member value other) + share (members member)
      = ∑ other, share (members other) + share value := by
  have moved (other : ι)
      : share (Function.update members member value other)
        = Function.update (fun other => share (members other)) member (share value) other :=
    Function.apply_update (fun _ => share) members member value other
  have present := Finset.mem_univ member
  simp only [moved, Finset.sum_update_of_mem present]
  rw [Finset.sum_eq_add_sum_sdiff_singleton_of_mem present fun other => share (members other)]
  abel

end LowlevelAcademy.Foundations
