/-
Instances of the numerals that the coefficients of the methods use, each under a name of its own. A numeral such as
`(2 : ℝ)` carries a proof that 2 is at least two; with these instances that proof is the same constant in every module.
-/
import Mathlib.Tactic

namespace OdeClientServer

instance atLeastTwo_two : Nat.AtLeastTwo 2 := ⟨by decide⟩

instance atLeastTwo_three : Nat.AtLeastTwo 3 := ⟨by decide⟩

instance atLeastTwo_four : Nat.AtLeastTwo 4 := ⟨by decide⟩

instance atLeastTwo_six : Nat.AtLeastTwo 6 := ⟨by decide⟩

instance atLeastTwo_eight : Nat.AtLeastTwo 8 := ⟨by decide⟩

instance atLeastTwo_nine : Nat.AtLeastTwo 9 := ⟨by decide⟩

instance atLeastTwo_thirtyTwo : Nat.AtLeastTwo 32 := ⟨by decide⟩

/-- the components of VanDerPol -/
instance neZero_two : NeZero 2 := ⟨by decide⟩

/-- the six points of `solveTaskDISPF` -/
instance neZero_six : NeZero 6 := ⟨by decide⟩

end OdeClientServer
