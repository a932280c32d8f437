import MoleFinance.Engine.Sync

/-! The user-facing engine calls. Each returns the new sub-pool (and position); on failure the
caller keeps what it had. -/
namespace MoleFinance
open MoleMath Call

structure OpenOutcome where
  sharesMinted : Nat
  principalIntoPool : Nat
  notionalAdded : Nat
  dust : Nat
  openFee : Nat
  events : List EngineEvent
deriving DecidableEq

structure CloseOutcome where
  activeValue : Nat
  recoveryValue : Nat
  withdrawable : Nat
  notionalRemoved : Nat
  events : List EngineEvent
deriving DecidableEq

structure ForceCloseOutcome where
  activeSharesBurned : Nat
  recoverySharesBurned : Nat
  notionalRemoved : Nat
  events : List EngineEvent
deriving DecidableEq

structure ClaimRecoveryOutcome where
  redeemable : Nat
  recoverySharesBurned : Nat
  events : List EngineEvent
deriving DecidableEq

structure PreSyncOutcome where
  eventsApplied : Nat
  preAccruedValue : Nat
  postAccruedValue : Nat
  lastAppliedIndex : Nat
  pendingRemaining : Nat
  events : List EngineEvent
deriving DecidableEq

structure HarvestOutcome where
  amount : Nat
  events : List EngineEvent
deriving DecidableEq

/-- Lazily migrate a position whose active series has been rotated out; tells whether it did. -/
def lazyMigratePosition (s : SubPool) (position : Position) :
    Except ClearingError (Position × Bool) := do
  let x := s.side position.direction
  if position.activeShares = 0 then
    return ({ position with activeGeneration := x.activeGeneration }, false)
  else if position.activeGeneration = x.activeGeneration then return (position, false)
  else match x.findRotateRecord position.activeGeneration with
    | none => .error (.invariant "missing rotate record")
    | some record => do
      let recoveryShares ← math (checkedAdd position.recoveryShares position.activeShares)
      return ({ position with
        recoveryShares := recoveryShares
        recoveryBucketTick := some record.bucketTick
        zeroPrice := record.anchorPrice
        activeShares := 0
        notional := 0
        status := .dormant
        activeGeneration := x.activeGeneration }, true)

/-- `next_event_index.checked_sub(bucket.last_applied_index)`. -/
def backlog (store : DormantStore) (bucket : DormantBucket) (reason : String) :
    Except ClearingError Nat := do
  ensure (bucket.lastAppliedIndex ≤ store.nextEventIndex) (.invariant reason)
  return store.nextEventIndex - bucket.lastAppliedIndex

def getBucket (store : DormantStore) (tick : Int) : Except ClearingError DormantBucket :=
  match store.get tick with
  | none => .error .dormantBucketMissing
  | some bucket => .ok bucket

/-- Apply the pending ledger entries of one bucket, within the per-call budget. -/
def preSyncDormantBucket (market : MarketParams) (s : SubPool) (direction : Direction)
    (bucketTick : Int) (slot : Nat) : Except ClearingError (SubPool × PreSyncOutcome) := do
  assertSchemaVersion market.schemaVersion
  ensure (market.paused = false) .marketPaused
  let x := s.side direction
  let before ← getBucket x.dormant bucketTick
  let pending ← backlog x.dormant before "bucket.last_applied_index ahead of ledger"
  ensure (pending ≤ market.maxPendingApplyPerTx) .dormantPendingBudgetExceeded
  let (dormant, eventsApplied) ← commit (DormantStore.applyPendingToBucket bucketTick) x.dormant
  let after ← getBucket dormant bucketTick
  let remaining ← backlog dormant after "bucket.last_applied_index ahead of ledger after apply"
  let s := s.setSide direction { x with dormant := dormant }
  checkSubpoolInvariants s
  return (s, {
    eventsApplied := eventsApplied
    preAccruedValue := before.accruedValue
    postAccruedValue := after.accruedValue
    lastAppliedIndex := after.lastAppliedIndex
    pendingRemaining := remaining
    events := [.dormantBucketPendingApplied {
      subPoolId := s.subPoolId
      direction := direction
      bucketTick := bucketTick
      eventsApplied := eventsApplied
      preAccruedValue := before.accruedValue
      postAccruedValue := after.accruedValue
      lastAppliedIndex := after.lastAppliedIndex
      slot := slot }] })

/-- The fee is rounded up; what is left of the deposit is the principal. -/
def takeFee (market : MarketParams) (grossAmount : Nat) : Except ClearingError (Nat × Nat) := do
  ensure (grossAmount ≠ 0) .marginBelowMinimum
  let openFee ← math (mulDivCeil grossAmount market.openFeeBps bpsScale)
  ensure (openFee < u64Size) .mathOverflow
  ensure (openFee ≤ grossAmount) .mathOverflow
  let principal := grossAmount - openFee
  ensure (market.minMargin ≤ principal) .marginBelowMinimum
  ensure (principal ≤ market.maxMarginPerPosition) .marginAboveMaximum
  return (openFee, principal)

/-- Shares for a deposit, the principal they account for, and the rest. -/
def mintShares (market : MarketParams) (x : Side) (principal : Nat) :
    Except ClearingError (Nat × Nat × Nat) := do
  if x.poolEquity = 0 then
    ensure (x.activeShares = 0)
      (ClearingError.invariant "active shares non-zero with zero pool equity")
    return (principal, principal, 0)
  else
    let lhs ← math (checkedMul x.poolEquity bpsScale)
    let rhs ← math (checkedMul x.activeShares market.dilutionSafetyBps)
    ensure (rhs ≤ lhs) .dilutionRiskTooHigh
    let sharesMinted ← math (mulDivFloor principal x.activeShares x.poolEquity)
    ensure (sharesMinted ≠ 0) .sharesMintedTooSmall
    let accounted ← math (mulDivFloor sharesMinted x.poolEquity x.activeShares)
    let dust ← math (checkedSub principal accounted)
    return (sharesMinted, accounted, dust)

def openPosition (market : MarketParams) (s : SubPool) (envelope : PriceEnvelope)
    (direction : Direction) (grossAmount positionId : Nat) :
    Except ClearingError (SubPool × Position × OpenOutcome) := do
  assertSchemaVersion market.schemaVersion
  ensure (market.frozenNewPosition = false) .frozenNewPosition
  let (s, sync) ← syncPool market s envelope
  let (openFee, principal) ← takeFee market grossAmount
  let x := s.side direction
  let (sharesMinted, principalIntoPool, dust) ← mintShares market x principal
  let notionalAdded ← math (mulDivFloor principal market.leverageBps bpsScale)
  let poolEquity ← math (checkedAdd x.poolEquity principalIntoPool)
  let activeShares ← math (checkedAdd x.activeShares sharesMinted)
  let activeNotional ← math (checkedAdd x.activeNotional notionalAdded)
  let dustTotal ← math (checkedAdd x.dust dust)
  let s := s.setSide direction { x with
    poolEquity := poolEquity
    activeShares := activeShares
    activeNotional := activeNotional
    dust := dustTotal }
  let position : Position := {
    subPoolId := s.subPoolId
    positionId := positionId
    direction := direction
    status := .open
    principal := principal
    notional := notionalAdded
    activeShares := sharesMinted
    recoveryShares := 0
    recoveryBucketTick := none
    zeroPrice := 0
    entryPrice := envelope.pNow
    lastSyncSlot := envelope.slot
    openedAtSlot := envelope.slot
    updatedAtSlot := envelope.slot
    closedAtSlot := 0
    schemaVersion := market.schemaVersion
    activeGeneration := x.activeGeneration }
  checkSubpoolInvariants s
  return (s, position, {
    sharesMinted := sharesMinted
    principalIntoPool := principalIntoPool
    notionalAdded := notionalAdded
    dust := dust
    openFee := openFee
    events := sync.events ++ [.positionOpened {
      positionId := positionId
      subPoolId := s.subPoolId
      direction := direction
      principal := principal
      notional := notionalAdded
      sharesMinted := sharesMinted
      principalIntoPool := principalIntoPool
      dust := dust
      openFee := openFee
      entryPrice := envelope.pNow
      activeGeneration := x.activeGeneration
      slot := envelope.slot }] })

def redeemRecovery (s : SubPool) (position : Position) :
    Except ClearingError (SubPool × Position × Int × RedeemReceipt) := do
  match position.recoveryBucketTick with
  | none => .error (.invariant "recovery shares without bucket")
  | some tick => do
    let x := s.side position.direction
    let (dormant, receipt) ← commit (DormantStore.redeem tick position.recoveryShares) x.dormant
    let recoveryShares ← math (checkedSub x.recoveryShares receipt.burnedShares)
    return (s.setSide position.direction
        { x with dormant := dormant, recoveryShares := recoveryShares },
      { position with recoveryShares := 0, recoveryBucketTick := none }, tick, receipt)

/-- The part of a close or force-close that touches recovery shares. -/
def settleRecovery (s : SubPool) (position : Position) :
    Except ClearingError (SubPool × Position × RedeemReceipt) := do
  if position.recoveryShares = 0 then return (s, position, ⟨0, 0, 0⟩)
  else
    let (s, position, _, receipt) ← redeemRecovery s position
    return (s, position, receipt)

def burnActive (s : SubPool) (position : Position) (value : Nat) :
    Except ClearingError (SubPool × Position) := do
  let x := s.side position.direction
  let poolEquity ← math (checkedSub x.poolEquity value)
  let activeShares ← math (checkedSub x.activeShares position.activeShares)
  let activeNotional ← math (checkedSub x.activeNotional position.notional)
  return (s.setSide position.direction { x with
      poolEquity := poolEquity
      activeShares := activeShares
      activeNotional := activeNotional },
    { position with activeShares := 0 })

/-- The active part of a close; a worthless position keeps its shares. -/
def redeemActive (s : SubPool) (position : Position) :
    Except ClearingError (SubPool × Position × Nat) := do
  let x := s.side position.direction
  if position.activeShares = 0 ∨ x.activeShares = 0 ∨ x.poolEquity = 0 then
    return (s, position, 0)
  else
    let value ← math (mulDivFloor x.poolEquity position.activeShares x.activeShares)
    let (s, position) ← burnActive s position value
    return (s, position, value)

def finishPosition (position : Position) (slot : Nat) : Position :=
  { position with notional := 0, status := .closed, closedAtSlot := slot, updatedAtSlot := slot }

def closePosition (market : MarketParams) (s : SubPool) (envelope : PriceEnvelope)
    (position : Position) : Except ClearingError (SubPool × Position × CloseOutcome) := do
  assertSchemaVersion market.schemaVersion
  ensure (position.schemaVersion = market.schemaVersion) .schemaVersionMismatch
  ensure (position.status = .open ∨ position.status = .dormant) .positionNotOpen
  let (s, sync) ← syncPool market s envelope
  let (migrated, _) ← lazyMigratePosition s position
  let (s, position, activeValue) ← redeemActive s migrated
  let (s, position, receipt) ← settleRecovery s position
  let withdrawable ← math (checkedAdd activeValue receipt.redeemable)
  ensure (withdrawable ≠ 0) .withdrawableZero
  checkSubpoolInvariants s
  return (s, finishPosition position envelope.slot, {
    activeValue := activeValue
    recoveryValue := receipt.redeemable
    withdrawable := withdrawable
    notionalRemoved := position.notional
    events := sync.events ++ [.positionClosed {
      positionId := position.positionId
      subPoolId := s.subPoolId
      direction := position.direction
      activeSharesBurned := migrated.activeShares
      recoverySharesBurned := receipt.burnedShares
      recoveryNotionalBurned := receipt.burnedNotional
      activeValue := activeValue
      recoveryValue := receipt.redeemable
      withdrawable := withdrawable
      notionalRemoved := position.notional
      slot := envelope.slot }] })

def activeValue (x : Side) (shares : Nat) : Except ClearingError Nat :=
  if 0 < x.activeShares ∧ 0 < x.poolEquity then
    math (mulDivFloor x.poolEquity shares x.activeShares)
  else .ok 0

/-- The active part of a force-close: the shares must be worth nothing. Returns the position,
    the shares burned and the notional removed. -/
def forfeitActive (s : SubPool) (position : Position) :
    Except ClearingError (SubPool × Position × Nat × Nat) := do
  if position.activeShares = 0 then return (s, position, 0, 0)
  else
    let value ← activeValue (s.side position.direction) position.activeShares
    ensure (value = 0)
      (ClearingError.invariant "force_close called on active position with positive value")
    let (s, burned) ← burnActive s position 0
    return (s, burned, position.activeShares, position.notional)

def addDust (s : SubPool) (direction : Direction) (amount : Nat) :
    Except ClearingError SubPool := do
  let x := s.side direction
  let dust ← addShare x.dust amount
  return s.setSide direction { x with dust := dust }

def forceCloseZeroValuePosition (market : MarketParams) (s : SubPool) (envelope : PriceEnvelope)
    (position : Position) (acknowledgeForfeit : Bool) :
    Except ClearingError (SubPool × Position × ForceCloseOutcome) := do
  assertSchemaVersion market.schemaVersion
  ensure (position.schemaVersion = market.schemaVersion) .schemaVersionMismatch
  ensure (acknowledgeForfeit = true) .forfeitAcknowledgementRequired
  ensure (position.status ≠ .closed) .positionNotOpen
  let (s, sync) ← syncPool market s envelope
  let (position, _) ← lazyMigratePosition s position
  let (s, position, activeBurned, notionalRemoved) ← forfeitActive s position
  let (s, position, receipt) ← settleRecovery s position
  let s ← addDust s position.direction receipt.redeemable
  checkSubpoolInvariants s
  return (s, finishPosition position envelope.slot, {
    activeSharesBurned := activeBurned
    recoverySharesBurned := receipt.burnedShares
    notionalRemoved := notionalRemoved
    events := sync.events ++ [.positionForceClosed {
      positionId := position.positionId
      subPoolId := s.subPoolId
      direction := position.direction
      activeSharesBurned := activeBurned
      recoverySharesBurned := receipt.burnedShares
      recoveryNotionalBurned := receipt.burnedNotional
      forfeitedRecoveryValue := receipt.redeemable
      notionalRemoved := notionalRemoved
      slot := envelope.slot }] })

def claimDormantRecovery (market : MarketParams) (s : SubPool) (envelope : PriceEnvelope)
    (position : Position) : Except ClearingError (SubPool × Position × ClaimRecoveryOutcome) := do
  assertSchemaVersion market.schemaVersion
  ensure (position.schemaVersion = market.schemaVersion) .schemaVersionMismatch
  let (s, sync) ← syncPool market s envelope
  let (position, _) ← lazyMigratePosition s position
  ensure (position.recoveryShares ≠ 0) .positionNotOpen
  let (s, position, tick, receipt) ← redeemRecovery s position
  checkSubpoolInvariants s
  return (s, { position with updatedAtSlot := envelope.slot }, {
    redeemable := receipt.redeemable
    recoverySharesBurned := receipt.burnedShares
    events := sync.events ++ [.dormantRecoveryClaimed {
      positionId := position.positionId
      subPoolId := s.subPoolId
      direction := position.direction
      bucketTick := tick
      recoverySharesBurned := receipt.burnedShares
      recoveryNotionalBurned := receipt.burnedNotional
      redeemable := receipt.redeemable
      slot := envelope.slot }] })

def harvestDust (market : MarketParams) (s : SubPool) (direction : Direction) :
    Except ClearingError (SubPool × HarvestOutcome) := do
  assertSchemaVersion market.schemaVersion
  ensure (market.paused = false) .marketPaused
  let x := s.side direction
  let s := s.setSide direction { x with dust := 0 }
  checkSubpoolInvariants s
  return (s, {
    amount := x.dust
    events := [.dustHarvested {
      subPoolId := s.subPoolId
      direction := direction
      amount := x.dust }] })

end MoleFinance
