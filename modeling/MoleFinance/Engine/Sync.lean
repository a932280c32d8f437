import MoleFinance.Market

/-! Price synchronisation of a sub-pool. An engine call returns the new sub-pool, and its
caller keeps the old one when the call fails. -/
namespace MoleFinance
open MoleMath Call

structure SyncOutcome where
  long : Inflow
  short : Inflow
  longRotatedToRecovery : Bool
  shortRotatedToRecovery : Bool
  events : List EngineEvent
deriving DecidableEq

def SyncOutcome.default : SyncOutcome := ⟨.zero, .zero, false, false, []⟩

/-- Inv2: no active shares exactly when the pool is empty. -/
def checkZeroIff (x : Side) (reason : String) : Except ClearingError Unit :=
  ensure (x.poolEquity = 0 ↔ x.activeShares = 0) (.invariant reason)

def checkRecoveryShares (x : Side) (reason : String) : Except ClearingError Unit := do
  -- the sum over the buckets aborts on overflow
  ensure (x.dormant.totalRecoveryShares < u128Size) .panic
  ensure (x.dormant.totalRecoveryShares = x.recoveryShares) (.invariant reason)

def checkSubpoolInvariants (s : SubPool) : Except ClearingError Unit := do
  checkZeroIff s.long "long pool equity / active shares zero-iff invariant"
  checkZeroIff s.short "short pool equity / active shares zero-iff invariant"
  checkRecoveryShares s.long "long recovery_shares does not equal sum of bucket recovery shares"
  checkRecoveryShares s.short "short recovery_shares does not equal sum of bucket recovery shares"
  s.long.dormant.checkInvariants
  s.short.dormant.checkInvariants

def bucketTickOf (market : MarketParams) (price : Nat) : Except ClearingError Int := do
  ensure (¬ (market.priceTick = 0 ∨ market.tickAggregationFactor = 0))
    (ClearingError.invariant "price_tick / aggregation == 0")
  -- `as i64` wraps
  return ((price / (market.priceTick * market.tickAggregationFactor) : Nat) : Int).bmod (2 ^ 64)

/-- Move all active shares of a direction into the dormant bucket of the current price. -/
def rotateActiveToRecovery (market : MarketParams) (s : SubPool) (direction : Direction)
    (pNow : Nat) : Except ClearingError SubPool := do
  let x := s.side direction
  if x.activeShares = 0 then return s
  else
    let tick ← bucketTickOf market pNow
    let (dormant, _) ← commit (DormantStore.insertOrMerge tick pNow x.activeShares
      x.activeNotional 1 market.maxDormantBucketCountPerDirection) x.dormant
    let recoveryShares ← math (checkedAdd x.recoveryShares x.activeShares)
    let x ← { x with
      dormant := dormant
      recoveryShares := recoveryShares
      activeShares := 0
      activeNotional := 0 : Side }.pushRotateRecord ⟨x.activeGeneration, tick, pNow⟩
    return s.setSide direction x

/-- Rotation at the end of a sync, when the pool of a direction went to zero. -/
def rotateIfDrained (market : MarketParams) (s : SubPool) (envelope : PriceEnvelope)
    (direction : Direction) :
    Except ClearingError (SubPool × Option ActiveRotatedToRecoveryEvent) := do
  let x := s.side direction
  if x.poolEquity = 0 ∧ 0 < x.activeShares then
    let tick ← bucketTickOf market envelope.pNow
    let rotated ← rotateActiveToRecovery market s direction envelope.pNow
    return (rotated, some {
      subPoolId := s.subPoolId
      direction := direction
      bucketTick := tick
      anchorPrice := envelope.pNow
      migratedShares := x.activeShares
      migratedNotional := x.activeNotional
      generationJustEnded := x.activeGeneration
      slot := envelope.slot })
  else return (s, none)

/-- Demand of one direction: the non-negative part of its active pnl, and the total with the
    increase of its dormant claims. -/
structure Demand where
  active : Nat
  total : Nat
deriving DecidableEq, Repr

/-- Demands of both directions when the price moves from `last_price` to `pNow`, from the
    buckets as they stand. -/
def syncDemands (s : SubPool) (pNow : Nat) : Except ClearingError (Demand × Demand) := do
  let pLast := s.lastPrice
  let preLong ← s.long.dormant.totalOutstandingClaimAt pLast
  let preShort ← s.short.dormant.totalOutstandingClaimAt pLast
  let longPnl ← math (signedPnlIncrement Direction.long.sign s.long.activeNotional pLast pNow)
  let shortPnl ← math (signedPnlIncrement Direction.short.sign s.short.activeNotional pLast pNow)
  let postLong ← s.long.dormant.totalOutstandingClaimAt pNow
  let postShort ← s.short.dormant.totalOutstandingClaimAt pNow
  let longTotal ← math (checkedAdd longPnl.toNat (postLong - preLong))
  let shortTotal ← math (checkedAdd shortPnl.toNat (postShort - preShort))
  return (⟨longPnl.toNat, longTotal⟩, ⟨shortPnl.toNat, shortTotal⟩)

/-- Recovery part of a transfer: it goes to the winner's buckets, what they cannot take to dust. -/
def transferToRecovery (market : MarketParams) (pNow toRecovery : Nat) (x : Side) :
    Except ClearingError (Side × Nat × Nat) := do
  if toRecovery = 0 then return (x, 0, 0)
  else
    let (dormant, receipt) ← commit (DormantStore.distributeBy market.dormantDistributeMode pNow
      toRecovery market.maxDistributionLedgerSize) x.dormant
    let dust ← addShare x.dust receipt.residual
    let inflow ← math (checkedSub toRecovery receipt.residual)
    return ({ x with dormant := dormant, dust := dust }, inflow, receipt.residual)

/-- The losing direction pays the demand of the winner, as far as its pool goes. -/
def transferTo (market : MarketParams) (s : SubPool) (pNow : Nat) (winner : Direction)
    (demand : Demand) : Except ClearingError (SubPool × Inflow) := do
  let x := s.side winner
  let loser := s.side winner.opposite
  let transfer := min demand.total loser.poolEquity
  if transfer = 0 then return (s, .zero)
  else
    let toActive ← math (mulDivFloor transfer demand.active demand.total)
    let toRecovery ← math (checkedSub transfer toActive)
    let equity ← math (checkedAdd x.poolEquity toActive)
    let loserEquity ← math (checkedSub loser.poolEquity transfer)
    let (x, inflow, residual) ← transferToRecovery market pNow toRecovery
      { x with poolEquity := equity }
    return ((s.setSide winner x).setSide winner.opposite { loser with poolEquity := loserEquity },
      ⟨toActive, inflow, residual⟩)

def settleDemands (market : MarketParams) (s : SubPool) (pNow : Nat)
    (demands : Demand × Demand) : Except ClearingError (SubPool × Inflow × Inflow) := do
  if 0 < demands.1.total then
    let (s, inflow) ← transferTo market s pNow .long demands.1
    return (s, inflow, .zero)
  else if 0 < demands.2.total then
    let (s, inflow) ← transferTo market s pNow .short demands.2
    return (s, .zero, inflow)
  else return (s, .zero, .zero)

def SubPool.atPrice (s : SubPool) (envelope : PriceEnvelope) : SubPool :=
  { s with lastPrice := envelope.pNow, lastSyncSlot := envelope.slot }

@[simp] theorem SubPool.side_atPrice (s : SubPool) (envelope : PriceEnvelope) (d : Direction) :
    (s.atPrice envelope).side d = s.side d := by cases d <;> rfl

def poolSyncEvent (s : SubPool) (envelope : PriceEnvelope) (long short : Inflow) :
    PoolSyncEvent where
  subPoolId := s.subPoolId
  pLast := s.lastPrice
  pNow := envelope.pNow
  slot := envelope.slot
  longBefore := s.long.snapshot
  shortBefore := s.short.snapshot
  long := long
  short := short

/-- `sync_pool` at a price other than the last one. -/
def movePrice (market : MarketParams) (s : SubPool) (envelope : PriceEnvelope) :
    Except ClearingError (SubPool × SyncOutcome) := do
  let moveBps ← math (priceMoveBps s.lastPrice envelope.pNow)
  ensure (moveBps ≤ market.maxPriceMoveBpsPerSync) .priceMoveTooLarge
  let demands ← syncDemands s envelope.pNow
  let (s1, long, short) ← settleDemands market s envelope.pNow demands
  -- the sync event comes before any rotation
  let event := EngineEvent.poolSync (poolSyncEvent s envelope long short)
  let (s2, longRotated) ← rotateIfDrained market (s1.atPrice envelope) envelope .long
  let (s3, shortRotated) ← rotateIfDrained market s2 envelope .short
  checkSubpoolInvariants s3
  return (s3, {
    long := long
    short := short
    longRotatedToRecovery := longRotated.isSome
    shortRotatedToRecovery := shortRotated.isSome
    events := event :: (longRotated.toList ++ shortRotated.toList).map .activeRotatedToRecovery })

def syncGuards (market : MarketParams) (envelope : PriceEnvelope) : Except ClearingError Unit := do
  assertSchemaVersion market.schemaVersion
  ensure (market.paused = false) .marketPaused
  ensure (envelope.pNow ≠ 0) .oraclePriceZero
  ensure (envelope.expectedMin ≤ envelope.pNow ∧ envelope.pNow ≤ envelope.expectedMax)
    .priceProtectionFailed

def syncPool (market : MarketParams) (s : SubPool) (envelope : PriceEnvelope) :
    Except ClearingError (SubPool × SyncOutcome) := do
  syncGuards market envelope
  if s.lastPrice = 0 then
    -- the first price of a pristine pool
    checkSubpoolInvariants (s.atPrice envelope)
    return (s.atPrice envelope, .default)
  else if envelope.pNow = s.lastPrice then
    let s := { s with lastSyncSlot := envelope.slot }
    checkSubpoolInvariants s
    return (s, .default)
  else movePrice market s envelope

end MoleFinance
