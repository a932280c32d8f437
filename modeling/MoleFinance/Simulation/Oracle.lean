import MoleFinance.Types
import MoleFinance.MoleMath
import MoleFinance.Lib.Call
import MoleFinance.Lib.ProRata

/-! The per-position clearing oracle: every settlement books the profit and the loss of each
position on its own. A failed call leaves nothing behind that its callers use. -/
namespace MoleFinance
open MoleMath Call

namespace Simulation

inductive OracleError where
  | mathOverflow
  | divByZero
  | invariant (reason : String)
deriving DecidableEq, Repr

def OracleError.ofMath : MathError → OracleError
  | .overflow => .mathOverflow
  | .divByZero => .divByZero
  | .signOverflow => .mathOverflow

def orOracle {α : Type} : Except MathError α → Except OracleError α
  | .ok a => .ok a
  | .error e => .error (.ofMath e)

structure OraclePosition where
  id : Nat
  direction : Direction
  principal : Nat
  notional : Nat
  resetPrice : Nat
  lockedLoss : Nat
  realizedProfitBalance : Nat
  closed : Bool
deriving DecidableEq, Repr

namespace OraclePosition

def new (id : Nat) (direction : Direction) (principal leverageBps entryPrice : Nat) :
    Except OracleError OraclePosition := do
  let notional ← orOracle (mulDivFloor principal leverageBps bpsScale)
  return ⟨id, direction, principal, notional, entryPrice, 0, 0, false⟩

def remainingMargin (pos : OraclePosition) : Nat := pos.principal - pos.lockedLoss

def equity (pos : OraclePosition) : Nat :=
  pos.principal - pos.lockedLoss + pos.realizedProfitBalance

end OraclePosition

structure SettleSummary where
  totalProfit : Nat
  totalRealizableLoss : Nat
  actualTransfer : Nat
deriving DecidableEq, Repr

/-- What the first loop collects: the increments with the index of their position. -/
structure Increments where
  profits : List (Nat × Nat)
  losses : List (Nat × Nat)
  totalProfit : Nat
  totalRealizableLoss : Nat

/-- Steps 1 and 2, from the position with index `idx` on. -/
def collect (pNow : Nat) : Nat → List OraclePosition → Increments → Except OracleError Increments
  | _, [], acc => return acc
  | idx, pos :: rest, acc =>
    if pos.closed = true ∨ pos.notional = 0 then collect pNow (idx + 1) rest acc
    else do
      let delta ← orOracle
        (signedPnlIncrement pos.direction.sign pos.notional pos.resetPrice pNow)
      if 0 < delta then
        let total ← orOracle (checkedAdd acc.totalProfit delta.toNat)
        collect pNow (idx + 1) rest
          { acc with profits := acc.profits ++ [(idx, delta.toNat)], totalProfit := total }
      else if 0 < min (-delta).toNat pos.remainingMargin then
        let realizable := min (-delta).toNat pos.remainingMargin
        let total ← orOracle (checkedAdd acc.totalRealizableLoss realizable)
        collect pNow (idx + 1) rest
          { acc with losses := acc.losses ++ [(idx, realizable)], totalRealizableLoss := total }
      else collect pNow (idx + 1) rest acc

/-- A write to one position; an index behind the end panics. -/
def updateAt {α : Type} (f : OraclePosition → Except OracleError (OraclePosition × α)) :
    Nat → List OraclePosition → Except OracleError (List OraclePosition × α)
  | _, [] => .error (.invariant "index out of bounds")
  | 0, pos :: rest => do
    let (pos, a) ← f pos
    return (pos :: rest, a)
  | idx + 1, pos :: rest => do
    let (rest, a) ← updateAt f idx rest
    return (pos :: rest, a)

/-- A loop of step 4: the increments one by one, and what was allocated. -/
def distribute (f : Nat → OraclePosition → Except OracleError (OraclePosition × Nat)) :
    List (Nat × Nat) → Nat → List OraclePosition → Except OracleError (List OraclePosition × Nat)
  | [], allocated, ps => return (ps, allocated)
  | (idx, inc) :: rest, allocated, ps => do
    let (ps, amount) ← updateAt (f inc) idx ps
    let allocated ← orOracle (checkedAdd allocated amount)
    distribute f rest allocated ps

/-- The share of a profit, and its position. -/
def credit (transfer total inc : Nat) (pos : OraclePosition) :
    Except OracleError (OraclePosition × Nat) := do
  let share ← orOracle (mulDivFloor transfer inc total)
  let balance ← orOracle (checkedAdd pos.realizedProfitBalance share)
  return ({ pos with realizedProfitBalance := balance }, share)

/-- The share of a loss: the realized profit pays first, the margin caps the rest. -/
def charge (transfer total realizable : Nat) (pos : OraclePosition) :
    Except OracleError (OraclePosition × Nat) := do
  let share ← orOracle (mulDivFloor transfer realizable total)
  let creditUsed := min pos.realizedProfitBalance share
  let balance ← orOracle (checkedSub pos.realizedProfitBalance creditUsed)
  let lockInc ← orOracle (checkedSub share creditUsed)
  let actualLock := min lockInc pos.remainingMargin
  let lockedLoss ← orOracle (checkedAdd pos.lockedLoss actualLock)
  return ({ pos with realizedProfitBalance := balance, lockedLoss := lockedLoss },
    actualLock + creditUsed)

def roll (pNow : Nat) (pos : OraclePosition) : OraclePosition :=
  if pos.closed = true then pos else { pos with resetPrice := pNow }

def settle (ps : List OraclePosition) (pNow : Nat) :
    Except OracleError (List OraclePosition × SettleSummary) := do
  ensure (pNow ≠ 0) OracleError.divByZero
  let inc ← collect pNow 0 ps ⟨[], [], 0, 0⟩
  let actualTransfer := min inc.totalProfit inc.totalRealizableLoss
  let summary := ⟨inc.totalProfit, inc.totalRealizableLoss, actualTransfer⟩
  if actualTransfer = 0 then return (ps.map (roll pNow), summary)
  else
    let (ps, _) ← distribute (credit actualTransfer inc.totalProfit) inc.profits 0 ps
    let (ps, _) ← distribute (charge actualTransfer inc.totalRealizableLoss) inc.losses 0 ps
    return (ps.map (roll pNow), summary)

/-- The withdrawable amount, and the position closed. -/
def close (ps : List OraclePosition) (idx pNow : Nat) :
    Except OracleError (List OraclePosition × Nat) := do
  let (ps, _) ← settle ps pNow
  match ps[idx]? with
  | none => .error (.invariant "idx out of range")
  | some pos =>
    if pos.closed = true then return (ps, 0)
    else
      let gone := { pos with
        closed := true, realizedProfitBalance := 0, lockedLoss := pos.principal }
      return (ps.set idx gone, pos.equity)

end Simulation

end MoleFinance
