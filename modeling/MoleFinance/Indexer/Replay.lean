import MoleFinance.Indexer.State
import MoleFinance.Dormant.Store

/-! Replay of engine events into the indexer. A failed event keeps the writes made before it. -/
namespace MoleFinance
open MoleMath Call

namespace Indexer

abbrev IndexM (α : Type) := EStateM IndexerError IndexerState α

/-- The view of a sub-pool, created when it is new. -/
def subPoolMut (id : Nat) : IndexM SubPoolView := fun x =>
  match x.subPools.get? id with
  | some view => .ok view x
  | none => .ok .default { x with subPools := x.subPools.insert id .default }

def putSubPool (id : Nat) (view : SubPoolView) : IndexM Unit := fun x =>
  .ok () { x with subPools := x.subPools.insert id view }

def putPosition (pos : PositionView) (id : Nat) : IndexM Unit := fun x =>
  .ok () { x with positions := x.positions.insert id pos }

def putBucket (key : BucketKey) (bucket : BucketView) : IndexM Unit := fun x =>
  .ok () { x with buckets := x.buckets.insert key bucket }

def eraseBucket (key : BucketKey) : IndexM Unit := fun x =>
  .ok () { x with buckets := x.buckets.erase key }

def updateEach (f : PositionView → Except IndexerError PositionView) :
    List (Nat × PositionView) → IndexM Unit
  | [] => return ()
  | (id, pos) :: rest => do
    let pos ← orFail (f pos)
    putPosition pos id
    updateEach f rest

/-- `for pos in self.positions.values_mut()` over the positions that are not skipped. -/
def forPositions (selects : PositionView → Bool)
    (f : PositionView → Except IndexerError PositionView) : IndexM Unit := do
  let x ← get
  updateEach f (x.positions.entries.filter (fun e => selects e.2))

def activeIn (subPoolId : Nat) (direction : Direction) (generation : Nat) (pos : PositionView) :
    Bool :=
  ¬ (pos.closed = true ∨ pos.subPoolId ≠ subPoolId ∨ pos.direction ≠ direction ∨
    pos.activeShares = 0 ∨ pos.activeGeneration ≠ generation)

def dormantIn (key : BucketKey) (pos : PositionView) : Bool :=
  ¬ (pos.closed = true ∨ pos.subPoolId ≠ key.subPoolId ∨ pos.direction ≠ key.direction ∨
    pos.recoveryBucketTick ≠ some key.tick ∨ pos.recoveryShares = 0)

/-- A share of what the sync moved goes to, or comes from, every active holder of a side. -/
def forActive (reason : String) (f : PositionView → Except IndexerError PositionView)
    (subPoolId : Nat) (direction : Direction) (totalActiveSharesBefore : Nat) : IndexM Unit := do
  orFail (ensure (totalActiveSharesBefore ≠ 0) (.stateMismatch reason))
  let view ← subPoolMut subPoolId
  forPositions (activeIn subPoolId direction (view.series direction).activeGeneration) f

def gain (amount shares total : Nat) (pos : PositionView) : Except IndexerError PositionView := do
  let share ← orIndexer (mulDivFloor amount shares total)
  let balance ← orIndexer (checkedAdd pos.realizedProfitBalance share)
  return { pos with realizedProfitBalance := balance }

def distributeActiveProfit (subPoolId : Nat) (direction : Direction)
    (inflow totalActiveSharesBefore : Nat) : IndexM Unit :=
  forActive "pool sync inflow with zero active shares before"
    (fun pos => gain inflow pos.activeShares totalActiveSharesBefore pos)
    subPoolId direction totalActiveSharesBefore

/-- The realized profit pays first; only the first step can fail. -/
def lose (outflow total : Nat) (pos : PositionView) : Except IndexerError PositionView := do
  let share ← orIndexer (mulDivFloor outflow pos.activeShares total)
  let creditUsed := min pos.realizedProfitBalance share
  let balance ← orIndexer (checkedSub pos.realizedProfitBalance creditUsed)
  let lockInc ← orIndexer (checkedSub share creditUsed)
  let actualLock := min lockInc pos.remainingMargin
  let lockedLoss ← orIndexer (checkedAdd pos.lockedLoss actualLock)
  return { pos with realizedProfitBalance := balance, lockedLoss := lockedLoss }

def distributeActiveLoss (subPoolId : Nat) (direction : Direction)
    (outflow totalActiveSharesBefore : Nat) : IndexM Unit :=
  forActive "pool sync outflow with zero active shares before"
    (lose outflow totalActiveSharesBefore) subPoolId direction totalActiveSharesBefore

def collectOutstanding (direction : Direction) (pNow : Nat) :
    List (BucketKey × BucketView) → Nat → Except IndexerError (List (BucketKey × Nat) × Nat)
  | [], total => return ([], total)
  | (key, bucket) :: rest, total =>
    if activated direction pNow bucket.anchorPrice = true then do
      let outstanding ← bucket.outstandingAt pNow
      if outstanding = 0 then collectOutstanding direction pNow rest total
      else
        let total ← orIndexer (checkedAdd total outstanding)
        let (outstandings, total) ← collectOutstanding direction pNow rest total
        return ((key, outstanding) :: outstandings, total)
    else collectOutstanding direction pNow rest total

def creditView (bucketShare : Nat) (key : BucketKey) : Option BucketView → IndexM Unit
  | none => throw (.bucketMismatch "bucket vanished")
  | some bucket =>
    if bucket.totalRecoveryShares = 0 then return ()
    else do
      forPositions (dormantIn key)
        (fun pos => gain bucketShare pos.recoveryShares bucket.totalRecoveryShares pos)
      let accrued ← orFail (orIndexer (checkedAdd bucket.accruedValue bucketShare))
      putBucket key { bucket with accruedValue := accrued }

def creditBucket (toRecoveryTotal totalOutstanding : Nat) (key : BucketKey) (outstanding : Nat) :
    IndexM Unit := do
  let share ← orFail (orIndexer (mulDivFloor toRecoveryTotal outstanding totalOutstanding))
  if min share outstanding = 0 then return ()
  else
    let x ← get
    creditView (min share outstanding) key (x.buckets.get? key)

def creditBuckets (toRecoveryTotal totalOutstanding : Nat) :
    List (BucketKey × Nat) → IndexM Unit
  | [] => return ()
  | (key, outstanding) :: rest => do
    creditBucket toRecoveryTotal totalOutstanding key outstanding
    creditBuckets toRecoveryTotal totalOutstanding rest

def distributeRecoveryProfit (subPoolId : Nat) (direction : Direction)
    (toRecoveryTotal pNow : Nat) : IndexM Unit := do
  let x ← get
  let outstandings ← orFail (collectOutstanding direction pNow
    (x.buckets.entries.filter
      (fun e => e.1.subPoolId = subPoolId ∧ e.1.direction = direction)) 0)
  if outstandings.2 = 0 then return ()
  else creditBuckets toRecoveryTotal outstandings.2 outstandings.1

def applyOpen (ev : PositionOpenedEvent) : IndexM Unit := do
  putPosition {
    positionId := ev.positionId
    subPoolId := ev.subPoolId
    direction := ev.direction
    principal := ev.principal
    notional := ev.notional
    activeShares := ev.sharesMinted
    recoveryShares := 0
    recoveryBucketTick := none
    activeGeneration := ev.activeGeneration
    lockedLoss := 0
    realizedProfitBalance := 0
    closed := false } ev.positionId
  let view ← subPoolMut ev.subPoolId
  let series := view.series ev.direction
  if series.activeGeneration < ev.activeGeneration then
    putSubPool ev.subPoolId
      (view.setSeries ev.direction { series with activeGeneration := ev.activeGeneration })
  else return ()

def syncActive (subPoolId : Nat) (direction : Direction) (inflow before : Nat) : IndexM Unit :=
  if 0 < inflow then distributeActiveProfit subPoolId direction inflow before else return ()

def syncRecovery (subPoolId : Nat) (direction : Direction) (toRecovery residual pNow : Nat) :
    IndexM Unit :=
  if 0 < toRecovery ∨ 0 < residual then do
    -- the numerator is what the sync offered, before the caps
    let toRecoveryTotal ← orFail (orIndexer (checkedAdd toRecovery residual))
    distributeRecoveryProfit subPoolId direction toRecoveryTotal pNow
  else return ()

def syncLoss (subPoolId : Nat) (direction : Direction) (outflow before : Nat) : IndexM Unit :=
  if 0 < outflow then distributeActiveLoss subPoolId direction outflow before else return ()

def totalOutflow (inflow : Inflow) : Except IndexerError Nat := do
  ensure (inflow.toPool + inflow.toRecovery + inflow.residualToDust < u128Size) .panic
  return inflow.toPool + inflow.toRecovery + inflow.residualToDust

def applyPoolSync (ev : PoolSyncEvent) : IndexM Unit := do
  syncActive ev.subPoolId .long ev.long.toPool ev.longBefore.activeShares
  syncRecovery ev.subPoolId .long ev.long.toRecovery ev.long.residualToDust ev.pNow
  syncActive ev.subPoolId .short ev.short.toPool ev.shortBefore.activeShares
  syncRecovery ev.subPoolId .short ev.short.toRecovery ev.short.residualToDust ev.pNow
  -- the losing side pays what the winner received
  let longTotalOutflow ← orFail (totalOutflow ev.long)
  let shortTotalOutflow ← orFail (totalOutflow ev.short)
  syncLoss ev.subPoolId .short longTotalOutflow ev.shortBefore.activeShares
  syncLoss ev.subPoolId .long shortTotalOutflow ev.longBefore.activeShares

def migrateView (tick : Int) (generation : Nat) (pos : PositionView) :
    Except IndexerError PositionView := do
  let recoveryShares ← orIndexer (checkedAdd pos.recoveryShares pos.activeShares)
  return { pos with
    recoveryShares := recoveryShares
    recoveryBucketTick := some tick
    activeShares := 0
    activeGeneration := generation }

def joinView (key : BucketKey) (shares notional : Nat) (bucket : BucketView) : IndexM Unit := do
  putBucket key bucket
  let totalShares ← orFail (orIndexer (checkedAdd bucket.totalRecoveryShares shares))
  putBucket key { bucket with totalRecoveryShares := totalShares }
  let totalNotional ← orFail (orIndexer (checkedAdd bucket.totalRecoveryNotional notional))
  putBucket key { bucket with
    totalRecoveryShares := totalShares
    totalRecoveryNotional := totalNotional }

def joinBucket (key : BucketKey) (fresh : BucketView) (shares notional : Nat) : IndexM Unit := do
  let x ← get
  joinView key shares notional ((x.buckets.get? key).getD fresh)

def applyRotate (ev : ActiveRotatedToRecoveryEvent) : IndexM Unit := do
  let view ← subPoolMut ev.subPoolId
  let series := view.series ev.direction
  let logged := { series with
    rotateLog := series.rotateLog ++ [(ev.generationJustEnded, ev.bucketTick)] }
  putSubPool ev.subPoolId (view.setSeries ev.direction logged)
  orFail (ensure (series.activeGeneration + 1 < u64Size)
    (.stateMismatch "active generation overflow"))
  putSubPool ev.subPoolId (view.setSeries ev.direction
    { logged with activeGeneration := series.activeGeneration + 1 })
  forPositions (activeIn ev.subPoolId ev.direction ev.generationJustEnded)
    (migrateView ev.bucketTick (series.activeGeneration + 1))
  joinBucket (bucketKey ev.subPoolId ev.direction ev.bucketTick)
    ⟨ev.direction, ev.anchorPrice, 0, 0, 0⟩ ev.migratedShares ev.migratedNotional

def burnView (key : BucketKey) (sharesBurned notionalBurned valueDrained : Nat) :
    Option BucketView → IndexM Unit
  | none => throw (.bucketMismatch "missing bucket")
  | some bucket => do
    let shares ← orFail (orIndexer (checkedSub bucket.totalRecoveryShares sharesBurned))
    -- the other two saturate
    if shares = 0 ∧ bucket.accruedValue - valueDrained = 0 then eraseBucket key
    else putBucket key { bucket with
      totalRecoveryShares := shares
      totalRecoveryNotional := bucket.totalRecoveryNotional - notionalBurned
      accruedValue := bucket.accruedValue - valueDrained }

def burnFromBucket (key : BucketKey) (sharesBurned notionalBurned valueDrained : Nat) :
    IndexM Unit := do
  let x ← get
  burnView key sharesBurned notionalBurned valueDrained (x.buckets.get? key)

def openView (positionId : Nat) (reason : String) : Option PositionView → IndexM PositionView
  | none => throw (.unknownPosition positionId)
  | some pos => do
    orFail (ensure (pos.closed = false) (.stateMismatch reason))
    return pos

def openPositionOf (positionId : Nat) (reason : String) : IndexM PositionView := do
  let x ← get
  openView positionId reason (x.positions.get? positionId)

/-- The recovery part of a close: the shares leave the bucket the indexer has for the position. -/
def burnRecovery (subPoolId : Nat) (direction : Direction) (tick : Option Int) (reason : String)
    (sharesBurned notionalBurned valueDrained : Nat) : IndexM Unit :=
  if 0 < sharesBurned then
    match tick with
    | none => throw (.bucketMismatch reason)
    | some tick =>
      burnFromBucket (bucketKey subPoolId direction tick) sharesBurned notionalBurned valueDrained
  else return ()

def closeView (positionId : Nat) (pos : PositionView) (activeBurned recoveryBurned : Nat) :
    IndexM Unit := do
  let active ← orFail (orIndexer (checkedSub pos.activeShares activeBurned))
  putPosition { pos with activeShares := active } positionId
  let recovery ← orFail (orIndexer (checkedSub pos.recoveryShares recoveryBurned))
  putPosition { pos with
    activeShares := active
    recoveryShares := recovery
    recoveryBucketTick := if recovery = 0 then none else pos.recoveryBucketTick
    closed := true } positionId

def applyClose (ev : PositionClosedEvent) : IndexM Unit := do
  let pos ← openPositionOf ev.positionId "close on closed position"
  burnRecovery ev.subPoolId ev.direction pos.recoveryBucketTick "close recovery without tick"
    ev.recoverySharesBurned ev.recoveryNotionalBurned ev.recoveryValue
  closeView ev.positionId pos ev.activeSharesBurned ev.recoverySharesBurned

def applyForceClose (ev : PositionForceClosedEvent) : IndexM Unit := do
  let pos ← openPositionOf ev.positionId "force_close on closed position"
  burnRecovery ev.subPoolId ev.direction pos.recoveryBucketTick "force_close recovery without tick"
    ev.recoverySharesBurned ev.recoveryNotionalBurned ev.forfeitedRecoveryValue
  closeView ev.positionId pos ev.activeSharesBurned ev.recoverySharesBurned

def applyClaimRecovery (ev : DormantRecoveryClaimedEvent) : IndexM Unit := do
  let pos ← openPositionOf ev.positionId "claim on closed position"
  burnFromBucket (bucketKey ev.subPoolId ev.direction ev.bucketTick) ev.recoverySharesBurned
    ev.recoveryNotionalBurned ev.redeemable
  let recovery ← orFail (orIndexer (checkedSub pos.recoveryShares ev.recoverySharesBurned))
  putPosition { pos with
    recoveryShares := recovery
    recoveryBucketTick := if recovery = 0 then none else pos.recoveryBucketTick
    realizedProfitBalance := pos.realizedProfitBalance - ev.redeemable } ev.positionId

def apply : EngineEvent → IndexM Unit
  | .positionOpened ev => applyOpen ev
  | .poolSync ev => applyPoolSync ev
  | .activeRotatedToRecovery ev => applyRotate ev
  | .positionClosed ev => applyClose ev
  | .positionForceClosed ev => applyForceClose ev
  | .dormantRecoveryClaimed ev => applyClaimRecovery ev
  | .dustHarvested _ => return ()
  | .dormantBucketPendingApplied _ => return ()

/-- Replay a batch, up to the first error. -/
def applyAll : List EngineEvent → IndexM Unit
  | [] => return ()
  | event :: events => do
    apply event
    applyAll events

end Indexer
end MoleFinance
