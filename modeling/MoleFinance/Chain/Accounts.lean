import MoleFinance.Engine.Operations

/-! Accounts of the on-chain program and the records the engine's stores are packed into. The
three kinds of ledger entry carry the same fields and are copied one by one, so they are one
type here. -/
namespace MoleFinance
open MoleMath Call

def u32Size : Nat := 2 ^ 32

abbrev U32 := Fin u32Size

abbrev Pubkey := Nat

inductive ProgramError where
  | mathOverflow
  | divByZero
  | signOverflow
  | marketPaused
  | frozenNewPosition
  | invalidSubPool
  | directionMismatch
  | marginBelowMinimum
  | marginAboveMaximum
  | totalPrincipalCapExceeded
  | totalNotionalCapExceeded
  | oraclePriceZero
  | oracleConfidenceTooWide
  | oracleStale
  | priceProtectionFailed
  | priceMoveTooLarge
  | sharesMintedTooSmall
  | dilutionRiskTooHigh
  | positionNotOpen
  | positionIsDormant
  | withdrawableZero
  | forfeitAcknowledgementRequired
  | vaultInsufficient
  | dormantBucketCapExceeded
  | subPoolStale
  | schemaVersionMismatch
  | invariant
  | oracleValidationFailed
  | oraclePriceOutsideEnvelope
  | dormantPendingBudgetExceeded
  | dormantBucketMissing
  | dormantBridgeAccountMismatch
  | dormantBridgeBucketSlotExhausted
  | ledgerCapacityExceeded
  | dormantBucketStillLive
  | dormantBucketHasPendingApply
  | invalidParameter
  | schemaBumpMustIncrease
  | schemaMigrationNoop
  | schemaMigrationPathMissing
  | keeperLeaderHeldByOther
  | keeperLeaderClockSkew
  | keeperLeaderNotHolder
  | keeperLeaderNotHeld
  | keeperLeaderAcquireWhileFresh
  -- no code of the program: a missing or repeated account, a failed transfer, an aborted call
  | accountNotFound
  | accountInUse
  | insufficientFunds
  | panic
deriving DecidableEq, Repr

/-- `From<ClearingError>`; the reason of an invariant violation is dropped. -/
def mapErr : ClearingError → ProgramError
  | .mathOverflow => .mathOverflow
  | .divByZero => .divByZero
  | .signOverflow => .signOverflow
  | .marketPaused => .marketPaused
  | .frozenNewPosition => .frozenNewPosition
  | .invalidSubPool => .invalidSubPool
  | .directionMismatch => .directionMismatch
  | .marginBelowMinimum => .marginBelowMinimum
  | .marginAboveMaximum => .marginAboveMaximum
  | .totalPrincipalCapExceeded => .totalPrincipalCapExceeded
  | .totalNotionalCapExceeded => .totalNotionalCapExceeded
  | .oraclePriceZero => .oraclePriceZero
  | .oracleConfidenceTooWide => .oracleConfidenceTooWide
  | .oracleStale => .oracleStale
  | .priceProtectionFailed => .priceProtectionFailed
  | .priceMoveTooLarge => .priceMoveTooLarge
  | .sharesMintedTooSmall => .sharesMintedTooSmall
  | .dilutionRiskTooHigh => .dilutionRiskTooHigh
  | .positionNotOpen => .positionNotOpen
  | .positionIsDormant => .positionIsDormant
  | .withdrawableZero => .withdrawableZero
  | .forfeitAcknowledgementRequired => .forfeitAcknowledgementRequired
  | .vaultInsufficient => .vaultInsufficient
  | .dormantBucketCapExceeded => .dormantBucketCapExceeded
  | .dormantPendingBudgetExceeded => .dormantPendingBudgetExceeded
  | .dormantBucketMissing => .dormantBucketMissing
  | .ledgerCapacityExceeded => .ledgerCapacityExceeded
  | .subPoolStale => .subPoolStale
  | .schemaVersionMismatch => .schemaVersionMismatch
  | .invariant _ => .invariant
  | .panic => .panic

def engine {α : Type} : Except ClearingError α → Except ProgramError α
  | .ok a => .ok a
  | .error e => .error (mapErr e)

theorem engine_ok {α : Type} {x : Except ClearingError α} {a : α} :
    engine x = .ok a ↔ x = .ok a := by
  cases x <;> simp [engine]

def Direction.isLong : Direction → Bool
  | .long => true
  | .short => false

def Direction.ofIsLong (isLong : Bool) : Direction := if isLong = true then .long else .short

def Direction.byte : Direction → Nat
  | .long => 0
  | .short => 1

structure OnChainBucketRecord where
  direction : Nat
  zeroPriceTick : Int
  anchorPrice : Nat
  totalRecoveryShares : Nat
  totalRecoveryNotional : Nat
  accruedValue : Nat
  positionCount : Nat
  lastAppliedIndex : Nat
deriving DecidableEq, Repr

def OnChainBucketRecord.isDead (r : OnChainBucketRecord) : Bool :=
  r.totalRecoveryShares == 0 && r.totalRecoveryNotional == 0 && r.accruedValue == 0
    && r.positionCount == 0

structure OnChainLedger where
  direction : Nat
  maxEntries : Nat
  gcOffset : Nat
  nextEventIndex : Nat
  accruedValueTotal : Nat
  pendingDistributionTotal : Nat
  entryCount : Nat
  entries : List DistEntry
deriving DecidableEq, Repr

namespace DormantStore

def packBucket (direction : Nat) (tick : Int) (b : DormantBucket) : OnChainBucketRecord where
  direction := direction
  zeroPriceTick := tick
  anchorPrice := b.anchorPrice
  totalRecoveryShares := b.totalRecoveryShares
  totalRecoveryNotional := b.totalRecoveryNotional
  accruedValue := b.accruedValue
  positionCount := b.positionCount
  lastAppliedIndex := b.lastAppliedIndex

def records (s : DormantStore) : List OnChainBucketRecord :=
  s.buckets.entries.map (fun e => packBucket s.direction.byte e.1 e.2)

end DormantStore

def packDormantStore (store : DormantStore) (maxBuckets maxLedger : Nat) :
    Except ClearingError (List OnChainBucketRecord × OnChainLedger) := do
  ensure (store.bucketCount ≤ maxBuckets) ClearingError.dormantBucketCapExceeded
  ensure (store.ledger.length ≤ maxLedger) ClearingError.ledgerCapacityExceeded
  return (store.records, {
    direction := store.direction.byte
    maxEntries := maxLedger
    gcOffset := store.ledgerGcOffset
    nextEventIndex := store.nextEventIndex
    accruedValueTotal := store.accruedValueTotal
    pendingDistributionTotal := store.pendingDistributionTotal
    -- `as u32` wraps
    entryCount := store.ledger.length % u32Size
    entries := store.ledger })

/-- The entries must be a contiguous window starting at `gc_offset`. -/
def checkEntries (gcOffset : Nat) : Nat → List DistEntry → Except ClearingError Unit
  | _, [] => .ok ()
  | i, e :: es => do
    ensure (gcOffset + i < u64Size) ClearingError.mathOverflow
    ensure (e.eventIndex = gcOffset + i)
      (ClearingError.invariant "ledger.entries[i].event_index != gc_offset + i")
    checkEntries gcOffset (i + 1) es

/-- The bucket of a record, under its tick. -/
def unpackBucket (direction : Direction) (r : OnChainBucketRecord) : Int × DormantBucket :=
  (r.zeroPriceTick, {
    direction := direction
    zeroPriceTick := r.zeroPriceTick
    anchorPrice := r.anchorPrice
    totalRecoveryShares := r.totalRecoveryShares
    totalRecoveryNotional := r.totalRecoveryNotional
    accruedValue := r.accruedValue
    positionCount := r.positionCount
    lastAppliedIndex := r.lastAppliedIndex })

def unpackBuckets (direction : Direction) (directionByte : Nat) :
    List OnChainBucketRecord → Except ClearingError (List (Int × DormantBucket))
  | [] => .ok []
  | r :: rs => do
    ensure (r.direction = directionByte)
      (ClearingError.invariant "bucket direction != ledger direction")
    let pairs ← unpackBuckets direction directionByte rs
    return if r.isDead = true then pairs else unpackBucket direction r :: pairs

def directionOfByte : Nat → Except ClearingError Direction
  | 0 => .ok .long
  | 1 => .ok .short
  | _ => .error (.invariant "invalid direction byte")

def unpackDormantStore (buckets : List OnChainBucketRecord) (ledger : OnChainLedger) :
    Except ClearingError DormantStore := do
  let direction ← directionOfByte ledger.direction
  ensure (ledger.entryCount = ledger.entries.length)
    (ClearingError.invariant "entry_count != entries.len()")
  ensure (ledger.entryCount ≤ ledger.maxEntries)
    (ClearingError.invariant "entry_count > max_entries")
  checkEntries ledger.gcOffset 0 ledger.entries
  let pairs ← unpackBuckets direction ledger.direction buckets
  DormantStore.fromOnchainParts direction pairs ledger.entries ledger.gcOffset
    ledger.nextEventIndex ledger.accruedValueTotal ledger.pendingDistributionTotal

/-- What the address of a bucket account is derived from. -/
structure BucketSeeds where
  subPool : Pubkey
  directionIsLong : Bool
  zeroPriceTick : Int
deriving DecidableEq, Repr

/-- A `DormantBucket` account; no instruction writes its address. -/
structure BucketAccount where
  seeds : BucketSeeds
  subPool : Pubkey
  directionIsLong : Bool
  zeroPriceTick : Int
  anchorPrice : Nat
  totalRecoveryShares : Nat
  totalRecoveryNotional : Nat
  accruedValue : Nat
  positionCount : Nat
  lastAppliedIndex : Nat
deriving DecidableEq, Repr

structure LedgerAccount where
  subPool : Pubkey
  directionIsLong : Bool
  maxEntries : U32
  gcOffset : Nat
  nextEventIndex : Nat
  accruedValueTotal : Nat
  pendingDistributionTotal : Nat
  entryCount : Nat
  entries : List DistEntry
deriving DecidableEq

/-- `initialize_dormant_bucket`: empty, at the address of its tick. -/
def BucketAccount.init (subPool : Pubkey) (directionIsLong : Bool) (zeroPriceTick : Int) :
    BucketAccount where
  seeds := ⟨subPool, directionIsLong, zeroPriceTick⟩
  subPool := subPool
  directionIsLong := directionIsLong
  zeroPriceTick := zeroPriceTick
  anchorPrice := 0
  totalRecoveryShares := 0
  totalRecoveryNotional := 0
  accruedValue := 0
  positionCount := 0
  lastAppliedIndex := 0

def LedgerAccount.init (subPool : Pubkey) (directionIsLong : Bool) (maxEntries : U32) :
    LedgerAccount where
  subPool := subPool
  directionIsLong := directionIsLong
  maxEntries := maxEntries
  gcOffset := 0
  nextEventIndex := 0
  accruedValueTotal := 0
  pendingDistributionTotal := 0
  entryCount := 0
  entries := []

end MoleFinance
