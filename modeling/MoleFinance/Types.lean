import MoleFinance.MoleMath

/-! Enums shared by the clearing crates, and the conversion of math errors. -/
namespace MoleFinance
open MoleMath Call

inductive Direction where
  | long
  | short
deriving DecidableEq, Repr

namespace Direction

def sign : Direction → Int
  | .long => 1
  | .short => -1

def opposite : Direction → Direction
  | .long => .short
  | .short => .long

@[simp] theorem opposite_opposite (d : Direction) : d.opposite.opposite = d := by
  cases d <;> rfl

theorem opposite_ne (d : Direction) : d.opposite ≠ d := by cases d <;> decide

theorem ne_iff {d e : Direction} : e ≠ d ↔ e = d.opposite := by
  cases d <;> cases e <;> decide

end Direction

/-- How a sync pushes recovery allocations into the dormant stores. -/
inductive DistributeMode where
  | eager
  | lazy
deriving DecidableEq, Repr

inductive ClearingError where
  | mathOverflow
  | divByZero
  | signOverflow
  | marketPaused
  | frozenNewPosition
  | invalidSubPool
  | directionMismatch
  | marginBelowMinimum
  | marginAboveMaximum
  | totalPrincipalCapExceeded
  | totalNotionalCapExceeded
  | oraclePriceZero
  | oracleConfidenceTooWide
  | oracleStale
  | priceProtectionFailed
  | priceMoveTooLarge
  | sharesMintedTooSmall
  | dilutionRiskTooHigh
  | positionNotOpen
  | positionIsDormant
  | withdrawableZero
  | forfeitAcknowledgementRequired
  | vaultInsufficient
  | dormantBucketCapExceeded
  | dormantPendingBudgetExceeded
  | dormantBucketMissing
  | ledgerCapacityExceeded
  | subPoolStale
  | schemaVersionMismatch
  | invariant (reason : String)
  -- no variant of the source: an `expect`, a slice bound or an overflow check aborts the call
  | panic
deriving DecidableEq, Repr

def ClearingError.ofMath : MathError → ClearingError
  | .overflow => .mathOverflow
  | .divByZero => .divByZero
  | .signOverflow => .signOverflow

/-- The `?` operator on a math primitive. -/
def math {α : Type} : Except MathError α → Except ClearingError α
  | .ok a => .ok a
  | .error e => .error (.ofMath e)

@[simp] theorem math_ok {α : Type} {x : Except MathError α} {a : α} :
    math x = .ok a ↔ x = .ok a := by
  cases x <;> simp [math]

@[simp] theorem math_ok_eq {α : Type} (a : α) :
    math (.ok a : Except MathError α) = .ok a := rfl

theorem math_add_ok {a b c : Nat} :
    math (checkedAdd a b) = .ok c ↔ a + b < u128Size ∧ c = a + b := by
  rw [math_ok, checkedAdd_ok]

theorem math_sub_ok {a b c : Nat} : math (checkedSub a b) = .ok c ↔ b ≤ a ∧ c = a - b := by
  rw [math_ok, checkedSub_ok]

theorem math_add_of {a b : Nat} (h : a + b < u128Size) : math (checkedAdd a b) = .ok (a + b) :=
  math_add_ok.mpr ⟨h, rfl⟩

theorem math_add_not {a b : Nat} (h : ¬ a + b < u128Size) :
    math (checkedAdd a b) = .error .mathOverflow := by
  simp [checkedAdd, h, math, ClearingError.ofMath]

theorem math_sub_of {a b : Nat} (h : b ≤ a) : math (checkedSub a b) = .ok (a - b) :=
  math_sub_ok.mpr ⟨h, rfl⟩

end MoleFinance
