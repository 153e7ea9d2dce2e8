import Mathlib.Data.Set.Function
import Mathlib.Order.Lattice

/-!
# Joins seen through a rank

The values of interest are ranked in a join semilattice.  An operation that takes the join
of the ranks is itself a join on every set of values that the rank tells apart, whatever
else the values carry.
-/

namespace Convergence

/-- On these values the operation takes the join of the ranks, which tell them apart. -/
structure JoinsOn [SemilatticeSup κ] (rank : ν -> κ) (values : Set ν) (join : ν -> ν -> ν) :
    Prop where
  mem : ∀ first ∈ values, ∀ second ∈ values, join first second ∈ values
  rank_join : ∀ first ∈ values, ∀ second ∈ values,
    rank (join first second) = rank first ⊔ rank second
  injOn : Set.InjOn rank values

namespace JoinsOn

variable [SemilatticeSup κ] {rank : ν -> κ} {values : Set ν} {join : ν -> ν -> ν}
  {first second third : ν}

section

variable (joins : JoinsOn rank values join)

include joins

theorem comm
    (firstMem : first ∈ values)
    (secondMem : second ∈ values) : join first second = join second first := by
  apply joins.injOn (joins.mem _ firstMem _ secondMem) (joins.mem _ secondMem _ firstMem)
  rw [joins.rank_join _ firstMem _ secondMem, joins.rank_join _ secondMem _ firstMem, sup_comm]

theorem assoc
    (firstMem : first ∈ values) (secondMem : second ∈ values)
    (thirdMem : third ∈ values) :
    join (join first second) third = join first (join second third) := by
  have leftMem := joins.mem _ firstMem _ secondMem
  have rightMem := joins.mem _ secondMem _ thirdMem
  apply joins.injOn (joins.mem _ leftMem _ thirdMem) (joins.mem _ firstMem _ rightMem)
  rw [joins.rank_join _ leftMem _ thirdMem, joins.rank_join _ firstMem _ rightMem,
    joins.rank_join _ firstMem _ secondMem, joins.rank_join _ secondMem _ thirdMem, sup_assoc]

theorem idem
    (firstMem : first ∈ values) : join first first = first := by
  apply joins.injOn (joins.mem _ firstMem _ firstMem) firstMem
  rw [joins.rank_join _ firstMem _ firstMem, sup_idem]

/-- The join is not below its parts. -/
theorem le
    (firstMem : first ∈ values) (secondMem : second ∈ values) :
    rank first ≤ rank (join first second) ∧ rank second ≤ rank (join first second) := by
  rw [joins.rank_join _ firstMem _ secondMem]
  exact ⟨le_sup_left, le_sup_right⟩

end

end JoinsOn

end Convergence
