import MoleFinance.Types
import MoleFinance.Lib.OrdMap

/-! Dormant bucket store: per-tick buckets, the distribution ledger, and the
eager and lazy paths that feed it. A store call keeps the writes it made before
it failed; its callers restore a snapshot. -/
namespace MoleFinance
open MoleMath Call

structure DormantBucket where
  direction : Direction
  zeroPriceTick : Int
  anchorPrice : Nat
  totalRecoveryShares : Nat
  totalRecoveryNotional : Nat
  accruedValue : Nat
  positionCount : Nat
  lastAppliedIndex : Nat
deriving DecidableEq, Repr

structure DistEntry where
  eventIndex : Nat
  pAtEvent : Nat
  totalOutstandingAtEvent : Nat
  totalAllocInput : Nat
  allocatedSumObserved : Nat
deriving DecidableEq, Repr

structure DistributionReceipt where
  allocated : Nat
  residual : Nat
deriving DecidableEq, Repr

structure RedeemReceipt where
  redeemable : Nat
  burnedShares : Nat
  burnedNotional : Nat
deriving DecidableEq, Repr

/-- A long bucket is activated above its anchor, a short one below. -/
def activated (direction : Direction) (pNow anchorPrice : Nat) : Bool :=
  match direction with
  | .long => decide (anchorPrice < pNow)
  | .short => decide (pNow < anchorPrice)

def computeIntrinsic (direction : Direction) (bucket : DormantBucket) (pNow : Nat) :
    Except ClearingError Nat :=
  if bucket.anchorPrice = 0 ∨ bucket.totalRecoveryNotional = 0 then .ok 0
  else match direction with
    | .long =>
      if pNow ≤ bucket.anchorPrice then .ok 0
      else math (mulDivFloor bucket.totalRecoveryNotional (pNow - bucket.anchorPrice)
        bucket.anchorPrice)
    | .short =>
      if bucket.anchorPrice ≤ pNow then .ok 0
      else math (mulDivFloor bucket.totalRecoveryNotional (bucket.anchorPrice - pNow)
        bucket.anchorPrice)

def DormantBucket.intrinsicClaimAt (bucket : DormantBucket) (pNow : Nat) :
    Except ClearingError Nat :=
  computeIntrinsic bucket.direction bucket pNow

def DormantBucket.outstandingClaimAt (bucket : DormantBucket) (pNow : Nat) :
    Except ClearingError Nat := do
  let intrinsic ← bucket.intrinsicClaimAt pNow
  return intrinsic - bucket.accruedValue

/-- Slice of one distribution that falls to a bucket with the given outstanding claim. -/
def distributionShare (totalAlloc outstanding totalOutstanding : Nat) :
    Except ClearingError Nat := do
  if outstanding = 0 then return 0
  else
    let share ← math (mulDivFloor totalAlloc outstanding totalOutstanding)
    return min share outstanding

/-- `total = checked_add(total, share)`, skipped for an empty share. -/
def addShare (total share : Nat) : Except ClearingError Nat :=
  if share = 0 then .ok total else math (checkedAdd total share)

/-- `index + 1` on a `u64`, with overflow checks on. -/
def nextIndex (index : Nat) : Except ClearingError Nat :=
  if index + 1 < u64Size then .ok (index + 1) else .error .panic

/-- What a ledger entry gives to a bucket that has accrued `accrued` so far. -/
def replayShare (direction : Direction) (bucket : DormantBucket) (accrued : Nat)
    (entry : DistEntry) : Except ClearingError Nat := do
  if entry.totalOutstandingAtEvent = 0 then return 0
  else if activated direction entry.pAtEvent bucket.anchorPrice = true
      ∧ 0 < bucket.totalRecoveryNotional ∧ 0 < bucket.anchorPrice then
    let intrinsic ← computeIntrinsic direction bucket entry.pAtEvent
    distributionShare entry.totalAllocInput (intrinsic - accrued) entry.totalOutstandingAtEvent
  else return 0

/-- One turn of the replay loop; the bucket is written through a mutable borrow. -/
def replayEntry (direction : Direction) (delta : Nat) (entry : DistEntry) :
    EStateM ClearingError DormantBucket Nat := do
  let bucket ← get
  let share ← orFail (replayShare direction bucket bucket.accruedValue entry)
  let accrued ← orFail (addShare bucket.accruedValue share)
  set { bucket with accruedValue := accrued }
  let delta ← orFail (addShare delta share)
  let index ← orFail (nextIndex entry.eventIndex)
  set { bucket with accruedValue := accrued, lastAppliedIndex := index }
  return delta

def replayEntries (direction : Direction) :
    Nat → List DistEntry → EStateM ClearingError DormantBucket Nat
  | delta, [] => return delta
  | delta, entry :: entries => do
    let delta ← replayEntry direction delta entry
    replayEntries direction delta entries

/-- The same trail on a simulated copy of `accrued_value`. -/
def simulateEntries (direction : Direction) (bucket : DormantBucket) :
    Nat → Nat → List DistEntry → Except ClearingError Nat
  | _, delta, [] => .ok delta
  | simAccrued, delta, entry :: entries => do
    let share ← replayShare direction bucket simAccrued entry
    let simAccrued ← addShare simAccrued share
    let delta ← addShare delta share
    simulateEntries direction bucket simAccrued delta entries

/-- Merge arm of `insert_or_merge`, writing field by field. -/
def mergeBucket (addedShares addedNotional addedPositionCount : Nat) :
    EStateM ClearingError DormantBucket Unit := do
  let bucket ← get
  let shares ← orFail (math (checkedAdd bucket.totalRecoveryShares addedShares))
  let bucket := { bucket with totalRecoveryShares := shares }
  set bucket
  let notional ← orFail (math (checkedAdd bucket.totalRecoveryNotional addedNotional))
  let bucket := { bucket with totalRecoveryNotional := notional }
  set bucket
  let _ ← orFail (ensure (bucket.positionCount + addedPositionCount < u64Size)
    ClearingError.mathOverflow)
  set { bucket with positionCount := bucket.positionCount + addedPositionCount }

/-- Arithmetic of `redeem`. A floor never exceeds what it is taken from, so no write of the
    source comes before a failure. -/
def burnShares (sharesToBurn : Nat) (bucket : DormantBucket) :
    Except ClearingError (RedeemReceipt × DormantBucket) := do
  let redeemable ← math (mulDivFloor bucket.accruedValue sharesToBurn bucket.totalRecoveryShares)
  let notionalShare ← math (mulDivFloor bucket.totalRecoveryNotional sharesToBurn
    bucket.totalRecoveryShares)
  let accrued ← math (checkedSub bucket.accruedValue redeemable)
  let shares ← math (checkedSub bucket.totalRecoveryShares sharesToBurn)
  let notional ← math (checkedSub bucket.totalRecoveryNotional notionalShare)
  return (⟨redeemable, sharesToBurn, notionalShare⟩, { bucket with
    accruedValue := accrued
    totalRecoveryShares := shares
    totalRecoveryNotional := notional
    -- saturating_sub
    positionCount := bucket.positionCount - 1 })

abbrev BucketMap := OrdMap Int DormantBucket

def replaceBucket (buckets : BucketMap) (tick : Int) (bucket : DormantBucket) : BucketMap :=
  if bucket.totalRecoveryShares = 0 ∧ bucket.accruedValue = 0 then buckets.erase tick
  else buckets.insert tick bucket

def activatedKeys (direction : Direction) (buckets : BucketMap) (pNow : Nat) : List Int :=
  (buckets.entries.filter (fun e => activated direction pNow e.2.anchorPrice)).map Prod.fst

/-- `total = checked_add(total, bucket.outstanding_claim_at(p_now)?)` for the bucket at `key`. -/
def addOutstanding (buckets : BucketMap) (pNow total : Nat) (key : Int) :
    Except ClearingError Nat :=
  match buckets.get? key with
  | none => .error .panic
  | some bucket => do
    let outstanding ← bucket.outstandingClaimAt pNow
    math (checkedAdd total outstanding)

def sumOutstanding (buckets : BucketMap) (pNow : Nat) :
    Nat → List Int → Except ClearingError Nat
  | total, [] => .ok total
  | total, key :: keys => do
    let total ← addOutstanding buckets pNow total key
    sumOutstanding buckets pNow total keys

/-- One turn of the lazy allocation loop: the share is summed, not attributed. -/
def quoteShare (buckets : BucketMap) (pNow totalAlloc totalOutstanding allocatedSum : Nat)
    (key : Int) : Except ClearingError Nat :=
  match buckets.get? key with
  | none => .error .panic
  | some bucket => do
    let outstanding ← bucket.outstandingClaimAt pNow
    let share ← distributionShare totalAlloc outstanding totalOutstanding
    addShare allocatedSum share

def quoteShares (buckets : BucketMap) (pNow totalAlloc totalOutstanding : Nat) :
    Nat → List Int → Except ClearingError Nat
  | allocatedSum, [] => .ok allocatedSum
  | allocatedSum, key :: keys => do
    let allocatedSum ← quoteShare buckets pNow totalAlloc totalOutstanding allocatedSum key
    quoteShares buckets pNow totalAlloc totalOutstanding allocatedSum keys

structure DormantStore where
  direction : Direction
  buckets : BucketMap
  accruedValueTotal : Nat
  ledger : List DistEntry
  ledgerGcOffset : Nat
  nextEventIndex : Nat
  pendingDistributionTotal : Nat
deriving DecidableEq

abbrev StoreM := EStateM ClearingError DormantStore

namespace DormantStore

def new (direction : Direction) : DormantStore where
  direction := direction
  buckets := .empty
  accruedValueTotal := 0
  ledger := []
  ledgerGcOffset := 0
  nextEventIndex := 0
  pendingDistributionTotal := 0

def get (s : DormantStore) (tick : Int) : Option DormantBucket := s.buckets.get? tick

def bucketCount (s : DormantStore) : Nat := s.buckets.size % 2 ^ 32

def bucketTicks (s : DormantStore) : List Int := s.buckets.keys

def totalRecoveryShares (s : DormantStore) : Nat :=
  s.buckets.sum (fun _ b => b.totalRecoveryShares)

def setBucket (s : DormantStore) (tick : Int) (bucket : DormantBucket) : DormantStore :=
  { s with buckets := s.buckets.insert tick bucket }

/-- Replay every entry the bucket at `tick` has not applied yet; returns how many. -/
def applyPendingToBucket (tick : Int) : StoreM Nat := fun s =>
  match s.buckets.get? tick with
  | none => .ok 0 s
  | some bucket =>
    if s.nextEventIndex ≤ bucket.lastAppliedIndex then .ok 0 s
    else if bucket.lastAppliedIndex < s.ledgerGcOffset then
      .error (.invariant "bucket.last_applied_index points into a GC'd ledger window") s
    else
      let startInVec := bucket.lastAppliedIndex - s.ledgerGcOffset
      if s.ledger.length < startInVec then .error .panic s
      else
        let entries := s.ledger.drop startInVec
        match replayEntries s.direction 0 entries bucket with
        | .error e bucket => .error e (s.setBucket tick bucket)
        | .ok netAccruedDelta bucket =>
          let s := s.setBucket tick bucket
          if netAccruedDelta = 0 then .ok entries.length s
          else match math (checkedAdd s.accruedValueTotal netAccruedDelta) with
            | .error e => .error e s
            | .ok total =>
              -- saturating_sub
              .ok entries.length { s with
                accruedValueTotal := total
                pendingDistributionTotal := s.pendingDistributionTotal - netAccruedDelta }

def pendingForBucket (s : DormantStore) (tick : Int) : Except ClearingError Nat :=
  match s.buckets.get? tick with
  | none => .ok 0
  | some bucket =>
    if s.nextEventIndex ≤ bucket.lastAppliedIndex then .ok 0
    else if bucket.lastAppliedIndex < s.ledgerGcOffset then
      .error (.invariant "bucket.last_applied_index points into a GC'd ledger window")
    else
      let startInVec := bucket.lastAppliedIndex - s.ledgerGcOffset
      if s.ledger.length < startInVec then .error .panic
      else simulateEntries s.direction bucket bucket.accruedValue 0 (s.ledger.drop startInVec)

/-- Bring the listed buckets up to the ledger head. The `u64` count cannot overflow:
    there are fewer than `2 ^ 32` buckets and ring entries. -/
def applyPendingToTicks : Nat → List Int → StoreM Nat
  | total, [] => return total
  | total, tick :: ticks => do
    let applied ← applyPendingToBucket tick
    applyPendingToTicks (total + applied) ticks

def applyPendingToAll : StoreM Nat := do
  let s ← MonadState.get
  applyPendingToTicks 0 s.bucketTicks

/-- Writes through `buckets.get_mut(&tick).expect("just checked")`. -/
def onBucket {α : Type} (tick : Int) (call : EStateM ClearingError DormantBucket α) :
    StoreM α := fun s =>
  match s.buckets.get? tick with
  | none => .error .panic s
  | some bucket =>
    match call bucket with
    | .ok a bucket => .ok a (s.setBucket tick bucket)
    | .error e bucket => .error e (s.setBucket tick bucket)

def freshBucket (direction : Direction) (tick : Int) (anchorPrice addedShares addedNotional
    addedPositionCount lastAppliedIndex : Nat) : DormantBucket where
  direction := direction
  zeroPriceTick := tick
  anchorPrice := anchorPrice
  totalRecoveryShares := addedShares
  totalRecoveryNotional := addedNotional
  accruedValue := 0
  positionCount := addedPositionCount
  lastAppliedIndex := lastAppliedIndex

def insertOrMerge (tick : Int) (anchorPrice addedShares addedNotional addedPositionCount
    maxBucketCount : Nat) : StoreM Unit := do
  let s ← MonadState.get
  if s.buckets.contains tick = true then
    let _ ← applyPendingToBucket tick
    onBucket tick (mergeBucket addedShares addedNotional addedPositionCount)
  else if maxBucketCount ≤ s.bucketCount then
    throw .dormantBucketCapExceeded
  else
    -- a new bucket skips past events
    set (s.setBucket tick (freshBucket s.direction tick anchorPrice addedShares addedNotional
      addedPositionCount s.nextEventIndex))

def totalOutstandingClaimAt (s : DormantStore) (pNow : Nat) : Except ClearingError Nat :=
  sumOutstanding s.buckets pNow 0 (activatedKeys s.direction s.buckets pNow)

/-- Drop the ledger prefix every live bucket has applied; returns how many entries. -/
def compactLedger : StoreM Nat := fun s =>
  let watermark := (s.buckets.values.map (·.lastAppliedIndex)).min?.getD s.nextEventIndex
  if watermark ≤ s.ledgerGcOffset then .ok 0 s
  else
    let drop := min (watermark - s.ledgerGcOffset) s.ledger.length
    .ok drop { s with
      ledger := s.ledger.drop drop
      ledgerGcOffset := s.ledgerGcOffset + drop }

/-- Capacity back-pressure before an append. -/
def reserveEntry (maxLedgerSize : Nat) : StoreM Unit := do
  let s ← MonadState.get
  if maxLedgerSize ≤ s.ledger.length then
    let _ ← compactLedger
    let s ← MonadState.get
    if maxLedgerSize ≤ s.ledger.length then throw .ledgerCapacityExceeded

/-- One turn of the eager allocation loop. -/
def attributeShare (pNow totalAlloc totalOutstanding eventIndex allocatedSum : Nat)
    (key : Int) : StoreM Nat := do
  let s ← MonadState.get
  match s.buckets.get? key with
  | none => throw .panic
  | some bucket =>
    let outstanding ← orFail (bucket.outstandingClaimAt pNow)
    let share ← orFail (distributionShare totalAlloc outstanding totalOutstanding)
    let accrued ← orFail (addShare bucket.accruedValue share)
    set (s.setBucket key { bucket with accruedValue := accrued })
    let allocatedSum ← orFail (addShare allocatedSum share)
    let index ← orFail (nextIndex eventIndex)
    set (s.setBucket key { bucket with accruedValue := accrued, lastAppliedIndex := index })
    return allocatedSum

def attributeShares (pNow totalAlloc totalOutstanding eventIndex : Nat) :
    Nat → List Int → StoreM Nat
  | allocatedSum, [] => return allocatedSum
  | allocatedSum, key :: keys => do
    let allocatedSum ←
      attributeShare pNow totalAlloc totalOutstanding eventIndex allocatedSum key
    attributeShares pNow totalAlloc totalOutstanding eventIndex allocatedSum keys

def pushEntry (entry : DistEntry) : StoreM Unit := do
  let s ← MonadState.get
  set { s with ledger := s.ledger ++ [entry] }
  let _ ← orFail (ensure (entry.eventIndex + 1 < u64Size) ClearingError.mathOverflow)
  set { s with ledger := s.ledger ++ [entry], nextEventIndex := entry.eventIndex + 1 }

def drainBuckets : List Int → StoreM Unit
  | [] => return
  | key :: keys => do
    let _ ← applyPendingToBucket key
    drainBuckets keys

/-- Tail of the eager path: the activated buckets receive their shares of the event. -/
def attributeEvent (pNow totalAlloc totalOutstanding : Nat) (keys : List Int) :
    StoreM DistributionReceipt := do
  let s ← MonadState.get
  let eventIndex := s.nextEventIndex
  let allocatedSum ← attributeShares pNow totalAlloc totalOutstanding eventIndex 0 keys
  let s ← MonadState.get
  let total ← orFail (math (checkedAdd s.accruedValueTotal allocatedSum))
  set { s with accruedValueTotal := total }
  let residual ← orFail (math (checkedSub totalAlloc allocatedSum))
  pushEntry ⟨eventIndex, pNow, totalOutstanding, totalAlloc, allocatedSum⟩
  return ⟨allocatedSum, residual⟩

/-- Eager path: every activated bucket receives its share now. -/
def distribute (pNow totalAlloc maxLedgerSize : Nat) : StoreM DistributionReceipt := do
  if totalAlloc = 0 then return ⟨0, 0⟩
  else
    let s ← MonadState.get
    let keys := activatedKeys s.direction s.buckets pNow
    reserveEntry maxLedgerSize
    drainBuckets keys
    let s ← MonadState.get
    let totalOutstanding ← orFail (sumOutstanding s.buckets pNow 0 keys)
    if totalOutstanding = 0 then return ⟨0, totalAlloc⟩
    else attributeEvent pNow totalAlloc totalOutstanding keys

/-- Replay each activated bucket and add up the outstanding claims. -/
def drainAndSum (pNow : Nat) : Nat → List Int → StoreM Nat
  | total, [] => return total
  | total, key :: keys => do
    let _ ← applyPendingToBucket key
    let s ← MonadState.get
    let total ← orFail (addOutstanding s.buckets pNow total key)
    drainAndSum pNow total keys

/-- Tail of the lazy path: the shares of the event are only summed. -/
def deferEvent (pNow totalAlloc totalOutstanding : Nat) (keys : List Int) :
    StoreM DistributionReceipt := do
  let s ← MonadState.get
  let allocatedSum ← orFail (quoteShares s.buckets pNow totalAlloc totalOutstanding 0 keys)
  let residual ← orFail (math (checkedSub totalAlloc allocatedSum))
  pushEntry ⟨s.nextEventIndex, pNow, totalOutstanding, totalAlloc, allocatedSum⟩
  let s ← MonadState.get
  let pending ← orFail (math (checkedAdd s.pendingDistributionTotal allocatedSum))
  set { s with pendingDistributionTotal := pending }
  return ⟨allocatedSum, residual⟩

/-- Lazy path: the shares stay in the ledger entry until a bucket is touched. -/
def distributeLazy (pNow totalAlloc maxLedgerSize : Nat) : StoreM DistributionReceipt := do
  if totalAlloc = 0 then return ⟨0, 0⟩
  else
    reserveEntry maxLedgerSize
    let s ← MonadState.get
    let keys := activatedKeys s.direction s.buckets pNow
    let totalOutstanding ← drainAndSum pNow 0 keys
    if totalOutstanding = 0 then return ⟨0, totalAlloc⟩
    else deferEvent pNow totalAlloc totalOutstanding keys

def distributeBy (mode : DistributeMode) (pNow totalAlloc maxLedgerSize : Nat) :
    StoreM DistributionReceipt :=
  match mode with
  | .eager => distribute pNow totalAlloc maxLedgerSize
  | .lazy => distributeLazy pNow totalAlloc maxLedgerSize

/-- Burn `sharesToBurn` of the bucket at `tick`, releasing their part of its funds. -/
def redeem (tick : Int) (sharesToBurn : Nat) : StoreM RedeemReceipt := do
  let _ ← applyPendingToBucket tick
  let s ← MonadState.get
  match s.buckets.get? tick with
  | none => throw (.invariant "redeem from missing bucket")
  | some bucket =>
    if sharesToBurn = 0 then return ⟨0, 0, 0⟩
    else if bucket.totalRecoveryShares < sharesToBurn then
      throw (.invariant "redeem shares exceed bucket total")
    else
      let burned ← orFail (burnShares sharesToBurn bucket)
      set { s with buckets := replaceBucket s.buckets tick burned.2 }
      let total ← orFail (math (checkedSub s.accruedValueTotal burned.1.redeemable))
      set { s with
        buckets := replaceBucket s.buckets tick burned.2
        accruedValueTotal := total }
      return burned.1

/-- `checked_add` over `allocated_sum_observed` of the live window. -/
def sumAllocInWindow : Nat → List DistEntry → Except ClearingError Nat
  | total, [] => .ok total
  | total, entry :: entries => do
    let total ← math (checkedAdd total entry.allocatedSumObserved)
    sumAllocInWindow total entries

def checkBuckets (s : DormantStore) : Nat → List DormantBucket → Except ClearingError Nat
  | sumAccrued, [] => .ok sumAccrued
  | sumAccrued, bucket :: buckets => do
    let sumAccrued ← math (checkedAdd sumAccrued bucket.accruedValue)
    ensure (bucket.lastAppliedIndex ≤ s.nextEventIndex)
      (ClearingError.invariant "bucket.last_applied_index ahead of ledger")
    ensure (s.ledgerGcOffset ≤ bucket.lastAppliedIndex)
      (ClearingError.invariant "bucket.last_applied_index inside GC'd window")
    s.checkBuckets sumAccrued buckets

def checkInvariants (s : DormantStore) : Except ClearingError Unit := do
  let sumAccrued ← s.checkBuckets 0 s.buckets.values
  ensure (sumAccrued = s.accruedValueTotal) (ClearingError.invariant "accrued_value_total drift")
  ensure (s.ledgerGcOffset + s.ledger.length = s.nextEventIndex)
    (ClearingError.invariant "ledger_gc_offset + ledger.len() != next_event_index")
  let sumAlloc ← sumAllocInWindow 0 s.ledger
  ensure (s.pendingDistributionTotal ≤ sumAlloc) (ClearingError.invariant
    "pending_distribution_total > Σ allocated_sum_observed in live window")

/-- The bucket loop of `from_onchain_parts`, building the map and the accrued sum. -/
def loadBuckets (direction : Direction) (ledgerGcOffset nextEventIndex : Nat) :
    Nat → BucketMap → List (Int × DormantBucket) → Except ClearingError (Nat × BucketMap)
  | sumAccrued, map, [] => .ok (sumAccrued, map)
  | sumAccrued, map, (tick, bucket) :: buckets => do
    ensure (bucket.direction = direction)
      (ClearingError.invariant "bucket direction does not match store direction")
    ensure (ledgerGcOffset ≤ bucket.lastAppliedIndex)
      (ClearingError.invariant "bucket.last_applied_index inside GC'd window")
    ensure (bucket.lastAppliedIndex ≤ nextEventIndex)
      (ClearingError.invariant "bucket.last_applied_index ahead of ledger head")
    let sumAccrued ← math (checkedAdd sumAccrued bucket.accruedValue)
    ensure (map.contains tick = false) (ClearingError.invariant "duplicate tick in unpack")
    loadBuckets direction ledgerGcOffset nextEventIndex sumAccrued (map.insert tick bucket) buckets

def fromOnchainParts (direction : Direction) (buckets : List (Int × DormantBucket))
    (ledger : List DistEntry) (ledgerGcOffset nextEventIndex accruedValueTotal
    pendingDistributionTotal : Nat) : Except ClearingError DormantStore := do
  ensure (ledgerGcOffset + ledger.length < u64Size) ClearingError.mathOverflow
  ensure (ledgerGcOffset + ledger.length = nextEventIndex)
    (ClearingError.invariant "next_event_index != ledger_gc_offset + ledger.len()")
  let loaded ← loadBuckets direction ledgerGcOffset nextEventIndex 0 .empty buckets
  ensure (loaded.1 = accruedValueTotal) (ClearingError.invariant "accrued_value_total mismatch")
  let sumAlloc ← sumAllocInWindow 0 ledger
  ensure (pendingDistributionTotal ≤ sumAlloc) (ClearingError.invariant
    "pending_distribution_total exceeds live-window allocated_sum")
  return {
    direction := direction
    buckets := loaded.2
    accruedValueTotal := accruedValueTotal
    ledger := ledger
    ledgerGcOffset := ledgerGcOffset
    nextEventIndex := nextEventIndex
    pendingDistributionTotal := pendingDistributionTotal }

end DormantStore
end MoleFinance
