import MoleFinance.Dormant.Store

/-! Market parameters, the state of a sub-pool, positions, and the events the engine emits.
The two directions of a sub-pool carry the same fields, so each is one `Side`. -/
namespace MoleFinance
open MoleMath Call

def schemaVersionCurrent : Nat := 1

def assertSchemaVersion (found : Nat) : Except ClearingError Unit :=
  ensure (found = schemaVersionCurrent) .schemaVersionMismatch

structure MarketParams where
  leverageBps : Nat
  minMargin : Nat
  maxMarginPerPosition : Nat
  openFeeBps : Nat
  maxPriceMoveBpsPerSync : Nat
  priceTick : Nat
  tickAggregationFactor : Nat
  maxDormantBucketCountPerDirection : Nat
  dormantDistributeMode : DistributeMode
  maxPendingApplyPerTx : Nat
  maxDistributionLedgerSize : Nat
  dilutionSafetyBps : Nat
  schemaVersion : Nat
  paused : Bool
  frozenNewPosition : Bool
deriving DecidableEq

namespace MarketParams

def sample : MarketParams where
  leverageBps := 100000
  minMargin := 10000000
  maxMarginPerPosition := 1000000000000
  openFeeBps := 0
  maxPriceMoveBpsPerSync := 2000
  priceTick := 1
  tickAggregationFactor := 1
  maxDormantBucketCountPerDirection := 1024
  dormantDistributeMode := .eager
  maxPendingApplyPerTx := 4096
  maxDistributionLedgerSize := 1024
  dilutionSafetyBps := 1
  schemaVersion := schemaVersionCurrent
  paused := false
  frozenNewPosition := false

end MarketParams

structure RotateRecord where
  generationJustEnded : Nat
  bucketTick : Int
  anchorPrice : Nat
deriving DecidableEq, Repr

structure Side where
  poolEquity : Nat
  activeShares : Nat
  recoveryShares : Nat
  activeNotional : Nat
  dormant : DormantStore
  dust : Nat
  dormantBucketCount : Nat
  activeGeneration : Nat
  rotateLog : List RotateRecord
deriving DecidableEq

def Side.new (direction : Direction) : Side where
  poolEquity := 0
  activeShares := 0
  recoveryShares := 0
  activeNotional := 0
  dormant := .new direction
  dust := 0
  dormantBucketCount := 0
  activeGeneration := 0
  rotateLog := []

structure SubPool where
  subPoolId : Nat
  long : Side
  short : Side
  lastPrice : Nat
  lastSyncSlot : Nat
deriving DecidableEq

namespace SubPool

def new (subPoolId lastPrice lastSyncSlot : Nat) : SubPool where
  subPoolId := subPoolId
  long := .new .long
  short := .new .short
  lastPrice := lastPrice
  lastSyncSlot := lastSyncSlot

def side (s : SubPool) : Direction → Side
  | .long => s.long
  | .short => s.short

def setSide (s : SubPool) (direction : Direction) (side : Side) : SubPool :=
  match direction with
  | .long => { s with long := side }
  | .short => { s with short := side }

@[simp] theorem side_setSide (s : SubPool) (d : Direction) (x : Side) :
    (s.setSide d x).side d = x := by cases d <;> rfl

@[simp] theorem side_setSide_opposite (s : SubPool) (d : Direction) (x : Side) :
    (s.setSide d x).side d.opposite = s.side d.opposite := by cases d <;> rfl

@[simp] theorem side_setSide_both (s : SubPool) (d : Direction) (x y : Side) :
    ((s.setSide d x).setSide d.opposite y).side d = x := by cases d <;> rfl

theorem side_setSide_of_ne (s : SubPool) {d e : Direction} (x : Side) (h : e ≠ d) :
    (s.setSide d x).side e = s.side e := by
  rw [Direction.ne_iff.mp h, side_setSide_opposite]

theorem side_setSide_eq (s : SubPool) (d e : Direction) (x : Side) :
    (s.setSide d x).side e = if e = d then x else s.side e := by
  split_ifs with h
  · rw [h, side_setSide]
  · exact side_setSide_of_ne s x h

@[simp] theorem setSide_lastPrice (s : SubPool) (d : Direction) (x : Side) :
    (s.setSide d x).lastPrice = s.lastPrice := by cases d <;> rfl

@[simp] theorem setSide_lastSyncSlot (s : SubPool) (d : Direction) (x : Side) :
    (s.setSide d x).lastSyncSlot = s.lastSyncSlot := by cases d <;> rfl

@[simp] theorem setSide_subPoolId (s : SubPool) (d : Direction) (x : Side) :
    (s.setSide d x).subPoolId = s.subPoolId := by cases d <;> rfl

@[simp] theorem side_new (id price slot : Nat) (d : Direction) :
    (new id price slot).side d = .new d := by cases d <;> rfl

end SubPool

namespace Side

def findRotateRecord (x : Side) (generationJustEnded : Nat) : Option RotateRecord :=
  x.rotateLog.find? (fun r => r.generationJustEnded = generationJustEnded)

def pushRotateRecord (x : Side) (record : RotateRecord) : Except ClearingError Side := do
  -- `checked_add(1).expect("active generation overflow")`
  ensure (x.activeGeneration + 1 < u64Size) .panic
  return { x with
    rotateLog := x.rotateLog ++ [record]
    activeGeneration := x.activeGeneration + 1 }

end Side

inductive PositionStatus where
  | open
  | dormant
  | closed
deriving DecidableEq, Repr

structure Position where
  subPoolId : Nat
  positionId : Nat
  direction : Direction
  status : PositionStatus
  principal : Nat
  notional : Nat
  activeShares : Nat
  recoveryShares : Nat
  recoveryBucketTick : Option Int
  zeroPrice : Nat
  entryPrice : Nat
  lastSyncSlot : Nat
  openedAtSlot : Nat
  updatedAtSlot : Nat
  closedAtSlot : Nat
  schemaVersion : Nat
  activeGeneration : Nat
deriving DecidableEq, Repr

/-- The fields of one direction that `PoolSyncEvent` snapshots before a sync. -/
structure SideSnapshot where
  activeShares : Nat
  activeNotional : Nat
  poolEquity : Nat
deriving DecidableEq, Repr

def Side.snapshot (x : Side) : SideSnapshot where
  activeShares := x.activeShares
  activeNotional := x.activeNotional
  poolEquity := x.poolEquity

structure Inflow where
  toPool : Nat
  toRecovery : Nat
  residualToDust : Nat
deriving DecidableEq, Repr

def Inflow.zero : Inflow := ⟨0, 0, 0⟩

structure PoolSyncEvent where
  subPoolId : Nat
  pLast : Nat
  pNow : Nat
  slot : Nat
  longBefore : SideSnapshot
  shortBefore : SideSnapshot
  long : Inflow
  short : Inflow
deriving DecidableEq, Repr

structure PositionOpenedEvent where
  positionId : Nat
  subPoolId : Nat
  direction : Direction
  principal : Nat
  notional : Nat
  sharesMinted : Nat
  principalIntoPool : Nat
  dust : Nat
  openFee : Nat
  entryPrice : Nat
  activeGeneration : Nat
  slot : Nat
deriving DecidableEq, Repr

structure PositionClosedEvent where
  positionId : Nat
  subPoolId : Nat
  direction : Direction
  activeSharesBurned : Nat
  recoverySharesBurned : Nat
  recoveryNotionalBurned : Nat
  activeValue : Nat
  recoveryValue : Nat
  withdrawable : Nat
  notionalRemoved : Nat
  slot : Nat
deriving DecidableEq, Repr

structure PositionForceClosedEvent where
  positionId : Nat
  subPoolId : Nat
  direction : Direction
  activeSharesBurned : Nat
  recoverySharesBurned : Nat
  recoveryNotionalBurned : Nat
  forfeitedRecoveryValue : Nat
  notionalRemoved : Nat
  slot : Nat
deriving DecidableEq, Repr

structure DormantRecoveryClaimedEvent where
  positionId : Nat
  subPoolId : Nat
  direction : Direction
  bucketTick : Int
  recoverySharesBurned : Nat
  recoveryNotionalBurned : Nat
  redeemable : Nat
  slot : Nat
deriving DecidableEq, Repr

structure ActiveRotatedToRecoveryEvent where
  subPoolId : Nat
  direction : Direction
  bucketTick : Int
  anchorPrice : Nat
  migratedShares : Nat
  migratedNotional : Nat
  generationJustEnded : Nat
  slot : Nat
deriving DecidableEq, Repr

structure DormantBucketPendingAppliedEvent where
  subPoolId : Nat
  direction : Direction
  bucketTick : Int
  eventsApplied : Nat
  preAccruedValue : Nat
  postAccruedValue : Nat
  lastAppliedIndex : Nat
  slot : Nat
deriving DecidableEq, Repr

structure DustHarvestedEvent where
  subPoolId : Nat
  direction : Direction
  amount : Nat
deriving DecidableEq, Repr

inductive EngineEvent where
  | poolSync (event : PoolSyncEvent)
  | positionOpened (event : PositionOpenedEvent)
  | positionClosed (event : PositionClosedEvent)
  | positionForceClosed (event : PositionForceClosedEvent)
  | dormantRecoveryClaimed (event : DormantRecoveryClaimedEvent)
  | activeRotatedToRecovery (event : ActiveRotatedToRecoveryEvent)
  | dustHarvested (event : DustHarvestedEvent)
  | dormantBucketPendingApplied (event : DormantBucketPendingAppliedEvent)
deriving DecidableEq, Repr

/-- Quoted oracle price passed by a caller, with the caller's own bounds on it. -/
structure PriceEnvelope where
  pNow : Nat
  slot : Nat
  expectedMin : Nat
  expectedMax : Nat
  pNow_lt : pNow < u64Size := by decide
deriving DecidableEq

end MoleFinance
