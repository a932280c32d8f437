import MoleFinance.Chain.Accounts
import MoleFinance.Lib.Slots

/-! The bridge between the engine's dormant stores and the accounts that hold them. The list
`available_slots` of account indices is the `available` flag of each slot. -/
namespace MoleFinance
open MoleMath Call

def recordIsDead (b : BucketAccount) : Bool :=
  b.totalRecoveryShares == 0 && b.totalRecoveryNotional == 0 && b.accruedValue == 0
    && b.positionCount == 0

def BucketAccount.record (b : BucketAccount) (directionByte : Nat) : OnChainBucketRecord where
  direction := directionByte
  zeroPriceTick := b.zeroPriceTick
  anchorPrice := b.anchorPrice
  totalRecoveryShares := b.totalRecoveryShares
  totalRecoveryNotional := b.totalRecoveryNotional
  accruedValue := b.accruedValue
  positionCount := b.positionCount
  lastAppliedIndex := b.lastAppliedIndex

/-- Dead accounts are skipped, after their owner was checked. -/
def collectRecords (subPoolKey : Pubkey) (direction : Direction) :
    List BucketAccount → Except ProgramError (List OnChainBucketRecord)
  | [] => .ok []
  | b :: bs => do
    ensure (b.subPool = subPoolKey) .dormantBridgeAccountMismatch
    ensure (b.directionIsLong = direction.isLong) .dormantBridgeAccountMismatch
    let records ← collectRecords subPoolKey direction bs
    return if recordIsDead b = true then records else b.record direction.byte :: records

def unpackDirection (ledger : LedgerAccount) (bucketAccounts : List BucketAccount)
    (subPoolKey : Pubkey) (direction : Direction) : Except ProgramError DormantStore := do
  ensure (ledger.subPool = subPoolKey) .dormantBridgeAccountMismatch
  ensure (ledger.directionIsLong = direction.isLong) .dormantBridgeAccountMismatch
  let records ← collectRecords subPoolKey direction bucketAccounts
  let store ← engine (unpackDormantStore records {
    direction := direction.byte
    maxEntries := ledger.maxEntries
    gcOffset := ledger.gcOffset
    nextEventIndex := ledger.nextEventIndex
    accruedValueTotal := ledger.accruedValueTotal
    pendingDistributionTotal := ledger.pendingDistributionTotal
    entryCount := ledger.entryCount
    entries := ledger.entries })
  engine store.checkInvariants
  return store

def applyRecord (subPoolKey : Pubkey) (r : OnChainBucketRecord) (b : BucketAccount) :
    BucketAccount :=
  { b with
    subPool := subPoolKey
    directionIsLong := r.direction == 0
    zeroPriceTick := r.zeroPriceTick
    anchorPrice := r.anchorPrice
    totalRecoveryShares := r.totalRecoveryShares
    totalRecoveryNotional := r.totalRecoveryNotional
    accruedValue := r.accruedValue
    positionCount := r.positionCount
    lastAppliedIndex := r.lastAppliedIndex }

def matchesRecord (direction : Direction) (r : OnChainBucketRecord) (b : BucketAccount) : Bool :=
  !recordIsDead b && b.zeroPriceTick == r.zeroPriceTick && b.directionIsLong == direction.isLong

/-- Pass 1: each record goes to the live account of its tick, if there is one. -/
def reuseSlots (subPoolKey : Pubkey) (direction : Direction) :
    List OnChainBucketRecord → List (Slot BucketAccount) × Nat → List (Slot BucketAccount) × Nat
  | [], st => st
  | r :: rs, (slots, written) =>
    match Slot.fillFirst (matchesRecord direction r) (applyRecord subPoolKey r) slots with
    | some slots => reuseSlots subPoolKey direction rs (slots, written + 1)
    | none => reuseSlots subPoolKey direction rs (slots, written)

/-- The guess that a record has landed already. -/
def sameIdentity (r : OnChainBucketRecord) (b : BucketAccount) : Bool :=
  b.zeroPriceTick == r.zeroPriceTick && b.anchorPrice == r.anchorPrice
    && b.lastAppliedIndex == r.lastAppliedIndex

/-- Pass 2: the other records go to the dead slots, in order. -/
def placeNew (subPoolKey : Pubkey) :
    List OnChainBucketRecord → List (Slot BucketAccount) × Nat →
      Except ProgramError (List (Slot BucketAccount) × Nat)
  | [], st => .ok st
  | r :: rs, (slots, written) =>
    if (Slot.items slots).any (sameIdentity r) = true then placeNew subPoolKey rs (slots, written)
    else match Slot.fillFirst recordIsDead (applyRecord subPoolKey r) slots with
      | some slots => placeNew subPoolKey rs (slots, written + 1)
      | none => .error .dormantBridgeBucketSlotExhausted

/-- Reset of an account whose bucket the engine deleted; its identity stays. -/
def resetBucket (nextEventIndex : Nat) (b : BucketAccount) : BucketAccount :=
  { b with
    totalRecoveryShares := 0
    totalRecoveryNotional := 0
    accruedValue := 0
    positionCount := 0
    lastAppliedIndex := nextEventIndex }

/-- Pass 3: a live account nobody took is reset. -/
def resetLeftover (nextEventIndex : Nat) (s : Slot BucketAccount) : BucketAccount :=
  if s.available = true ∧ recordIsDead s.item = false then resetBucket nextEventIndex s.item
  else s.item

structure PackOutcome where
  removedIndices : List Nat
  writtenCount : Nat
deriving DecidableEq

def LedgerAccount.flush (ledger : LedgerAccount) (l : OnChainLedger) : LedgerAccount :=
  { ledger with
    gcOffset := l.gcOffset
    nextEventIndex := l.nextEventIndex
    accruedValueTotal := l.accruedValueTotal
    pendingDistributionTotal := l.pendingDistributionTotal
    entryCount := l.entryCount
    entries := l.entries }

def packDirection (ledger : LedgerAccount) (bucketAccounts : List BucketAccount)
    (subPoolKey : Pubkey) (direction : Direction) (store : DormantStore)
    (maxBuckets maxLedger : Nat) :
    Except ProgramError (PackOutcome × LedgerAccount × List BucketAccount) := do
  let (records, onChainLedger) ← engine (packDormantStore store maxBuckets maxLedger)
  ensure (records.length ≤ bucketAccounts.length) .dormantBridgeBucketSlotExhausted
  let reused := reuseSlots subPoolKey direction records (Slot.ofList bucketAccounts, 0)
  let (slots, written) ← placeNew subPoolKey records reused
  let left := slots.zipIdx.filter (fun e => e.1.available && !recordIsDead e.1.item)
  return (⟨left.map Prod.snd, written⟩, ledger.flush onChainLedger,
    slots.map (resetLeftover onChainLedger.nextEventIndex))

end MoleFinance
