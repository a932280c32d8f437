import MoleFinance.Chain.Accounts
import MoleFinance.Engine.World
import MoleFinance.Indexer.State

/-! The account runtime: every engine call is run on a sub-pool read from its accounts and
written back to them. In loose mode bucket accounts come and go with the buckets; in strict mode
an account is there from its initialisation to its closing, dead while it has no bucket. -/
namespace MoleFinance
open MoleMath Call

namespace Runtime

inductive MirrorError where
  | clearing (error : ClearingError)
  | subPoolNotFound (subPoolId : Nat)
  | positionNotFound (positionId : Nat)
  | bucketNotInitialized (subPool : Nat) (direction : Direction) (tick : Int)
  | bucketSlotExhausted (subPool : Nat) (direction : Direction)
  | bucketLifecycleViolation (subPool : Nat) (direction : Direction) (tick : Int)
      (reason : String)
  | invariant (reason : String)
  -- no variant of the source: an `unwrap` or an overflow check aborts the call
  | panic
deriving DecidableEq

def MirrorError.Returned (e : MirrorError) : Prop := e ≠ .panic ∧ e ≠ .clearing .panic

def clearing {α : Type} : Except ClearingError α → Except MirrorError α
  | .ok a => .ok a
  | .error e => .error (.clearing e)

theorem clearing_ok {α : Type} {x : Except ClearingError α} {a : α} :
    clearing x = .ok a ↔ x = .ok a := by
  cases x <;> simp [clearing]

/-- A `Market` account; the ring size is a `u32`. -/
structure MarketAccount where
  params : MarketParams
  ledger_lt : params.maxDistributionLedgerSize < u32Size

structure RotateRecordAccount where
  generationJustEnded : Nat
  bucketTick : Int
  anchorPrice : Nat
deriving DecidableEq

def RotateRecordAccount.record (r : RotateRecordAccount) : RotateRecord :=
  ⟨r.generationJustEnded, r.bucketTick, r.anchorPrice⟩

def RotateRecordAccount.of (r : RotateRecord) : RotateRecordAccount :=
  ⟨r.generationJustEnded, r.bucketTick, r.anchorPrice⟩

structure SideAccount where
  poolEquity : Nat
  activeShares : Nat
  recoveryShares : Nat
  activeNotional : Nat
  dust : Nat
  dormantBucketCount : Nat
  activeGeneration : Nat
  rotateLog : List RotateRecordAccount
deriving DecidableEq

def SideAccount.zero : SideAccount := ⟨0, 0, 0, 0, 0, 0, 0, []⟩

def SideAccount.view (x : SideAccount) (dormant : DormantStore) : Side where
  poolEquity := x.poolEquity
  activeShares := x.activeShares
  recoveryShares := x.recoveryShares
  activeNotional := x.activeNotional
  dormant := dormant
  dust := x.dust
  dormantBucketCount := x.dormantBucketCount
  activeGeneration := x.activeGeneration
  rotateLog := x.rotateLog.map (·.record)

def SideAccount.of (x : Side) : SideAccount where
  poolEquity := x.poolEquity
  activeShares := x.activeShares
  recoveryShares := x.recoveryShares
  activeNotional := x.activeNotional
  dust := x.dust
  dormantBucketCount := x.dormantBucketCount
  activeGeneration := x.activeGeneration
  rotateLog := x.rotateLog.map .of

structure SubPoolAccount where
  subPoolId : Nat
  long : SideAccount
  short : SideAccount
  lastPrice : Nat
  lastSyncSlot : Nat
deriving DecidableEq

namespace SubPoolAccount

def new (subPoolId initPrice initSlot : Nat) : SubPoolAccount :=
  ⟨subPoolId, .zero, .zero, initPrice, initSlot⟩

/-- Write-back of the scalar fields; the id stays. -/
def writeBack (account : SubPoolAccount) (core : SubPool) : SubPoolAccount where
  subPoolId := account.subPoolId
  long := .of core.long
  short := .of core.short
  lastPrice := core.lastPrice
  lastSyncSlot := core.lastSyncSlot

end SubPoolAccount

structure DormantBucketAccount where
  subPoolId : Nat
  record : OnChainBucketRecord
deriving DecidableEq

structure DistributionLedgerAccount where
  subPoolId : Nat
  ledger : OnChainLedger
deriving DecidableEq

structure PositionAccount where
  subPoolId : Nat
  position : Position
deriving DecidableEq

/-- An initialised record no bucket uses. -/
def deadRecord (direction : Direction) (zeroPriceTick : Int) : OnChainBucketRecord where
  direction := direction.byte
  zeroPriceTick := zeroPriceTick
  anchorPrice := 0
  totalRecoveryShares := 0
  totalRecoveryNotional := 0
  accruedValue := 0
  positionCount := 0
  lastAppliedIndex := 0

def emptyLedger (direction : Direction) (maxEntries : Nat) : OnChainLedger where
  direction := direction.byte
  maxEntries := maxEntries
  gcOffset := 0
  nextEventIndex := 0
  accruedValueTotal := 0
  pendingDistributionTotal := 0
  entryCount := 0
  entries := []

abbrev LedgerKey := Nat ×ₗ Direction

def ledgerKey (subPoolId : Nat) (direction : Direction) : LedgerKey :=
  toLex (subPoolId, direction)

structure ChainRuntime where
  market : MarketAccount
  subPools : OrdMap Nat SubPoolAccount
  buckets : OrdMap BucketKey DormantBucketAccount
  ledgers : OrdMap LedgerKey DistributionLedgerAccount
  positions : OrdMap Nat PositionAccount
  vaultBalance : Nat
  feeVaultBalance : Nat
  totalDeposits : Nat
  totalWithdrawals : Nat
  nextPositionId : Nat
  strictPdaLifecycle : Bool
  keyed : ∀ id account, subPools.get? id = some account → account.subPoolId = id

structure SubPoolSnapshot where
  subPool : SubPoolAccount
  buckets : OrdMap BucketKey DormantBucketAccount
  ledgers : OrdMap LedgerKey DistributionLedgerAccount

structure OpenSummary where
  positionId : Nat
  sharesMinted : Nat
  openFee : Nat
  events : List EngineEvent
deriving DecidableEq

structure CloseSummary where
  withdrawable : Nat
  outcome : CloseOutcome
deriving DecidableEq

abbrev MirrorM (α : Type) := EStateM MirrorError ChainRuntime α

/-- `a += b` on a balance: overflow aborts. -/
def plus (a b : Nat) : Except MirrorError Nat := do
  ensure (a + b < u128Size) .panic
  return a + b

theorem keyed_empty : ∀ id account,
    (OrdMap.empty : OrdMap Nat SubPoolAccount).get? id = some account → account.subPoolId = id :=
  fun _ _ h => nomatch h

namespace ChainRuntime
variable {α β : Type}

def new (market : MarketAccount) (strict : Bool) : ChainRuntime where
  market := market
  subPools := .empty
  buckets := .empty
  ledgers := .empty
  positions := .empty
  vaultBalance := 0
  feeVaultBalance := 0
  totalDeposits := 0
  totalWithdrawals := 0
  nextPositionId := 1
  strictPdaLifecycle := strict
  keyed := keyed_empty

def putSubPool (x : ChainRuntime) (account : SubPoolAccount) : ChainRuntime :=
  { x with
    subPools := x.subPools.insert account.subPoolId account
    keyed := by
      intro id a ha
      rw [OrdMap.get?_insert] at ha
      split_ifs at ha with hid
      · cases ha
        exact hid.symm
      · exact x.keyed id a ha }

def addSubPool (x : ChainRuntime) (subPoolId : Nat) (initPrice : U64) (initSlot : Nat) :
    ChainRuntime :=
  let maxLedger := x.market.params.maxDistributionLedgerSize
  { x.putSubPool (.new subPoolId initPrice initSlot) with
    ledgers := (x.ledgers.insert (ledgerKey subPoolId .long)
        ⟨subPoolId, emptyLedger .long maxLedger⟩).insert (ledgerKey subPoolId .short)
        ⟨subPoolId, emptyLedger .short maxLedger⟩ }

def preInitDormantBucket (subPoolId : Nat) (direction : Direction) (tick : Int) :
    MirrorM Unit := do
  let x ← get
  orFail (ensure (x.subPools.contains subPoolId = true) (.subPoolNotFound subPoolId))
  orFail (ensure (x.buckets.contains (bucketKey subPoolId direction tick) = false)
    (.bucketLifecycleViolation subPoolId direction tick "pda already initialised"))
  set { x with
    buckets := x.buckets.insert (bucketKey subPoolId direction tick)
      ⟨subPoolId, deadRecord direction tick⟩ }

def closeDormantBucket (subPoolId : Nat) (direction : Direction) (tick : Int) :
    MirrorM Unit := do
  let x ← get
  match x.buckets.get? (bucketKey subPoolId direction tick) with
  | none => throw (.bucketNotInitialized subPoolId direction tick)
  | some bucket => do
    orFail (ensure (bucket.record.isDead = true)
      (.bucketLifecycleViolation subPoolId direction tick "bucket still live"))
    match x.ledgers.get? (ledgerKey subPoolId direction) with
    | none => throw (.invariant "ledger missing on close_dormant_bucket")
    | some ledger => do
      orFail (ensure (ledger.ledger.nextEventIndex ≤ bucket.record.lastAppliedIndex)
        (.bucketLifecycleViolation subPoolId direction tick
          "bucket has pending lazy distributions"))
      set { x with buckets := x.buckets.erase (bucketKey subPoolId direction tick) }

def bucketsOf (x : ChainRuntime) (subPoolId : Nat) (direction : Direction) :
    OrdMap BucketKey DormantBucketAccount :=
  x.buckets.filter (fun key _ => key.subPoolId = subPoolId ∧ key.direction = direction)

def unpackDormant (x : ChainRuntime) (subPoolId : Nat) (direction : Direction) :
    Except MirrorError DormantStore :=
  match x.ledgers.get? (ledgerKey subPoolId direction) with
  | none => .error (.invariant "ledger account missing — must init sub_pool first")
  | some ledger => clearing (unpackDormantStore
      ((x.bucketsOf subPoolId direction).values.map (·.record)) ledger.ledger)

def buildCoreSubPool (x : ChainRuntime) (subPoolId : Nat) : Except MirrorError SubPool :=
  match x.subPools.get? subPoolId with
  | none => .error (.subPoolNotFound subPoolId)
  | some account => do
    let long ← x.unpackDormant subPoolId .long
    let short ← x.unpackDormant subPoolId .short
    return {
      subPoolId := account.subPoolId
      long := account.long.view long
      short := account.short.view short
      lastPrice := account.lastPrice
      lastSyncSlot := account.lastSyncSlot }

/-- Loose mode: accounts without a record go, the others are written or created. -/
def writeBucketsLoose (x : ChainRuntime) (subPoolId : Nat) (direction : Direction)
    (records : List OnChainBucketRecord) : ChainRuntime :=
  { x with
    buckets := (x.buckets.filter (fun key _ => !(key.subPoolId = subPoolId ∧
      key.direction = direction ∧ key.tick ∉ records.map (·.zeroPriceTick)))).insertAll
        (records.map (fun r => (bucketKey subPoolId direction r.zeroPriceTick, ⟨subPoolId, r⟩))) }

/-- Passes 1 and 2 of strict mode: every record needs an account at its tick. -/
def placeRecords (subPoolId : Nat) (direction : Direction) :
    List OnChainBucketRecord → MirrorM Unit
  | [] => return ()
  | r :: rs => do
    let x ← get
    match x.buckets.get? (bucketKey subPoolId direction r.zeroPriceTick) with
    | none => throw (.bucketSlotExhausted subPoolId direction)
    | some slot => do
      set { x with
        buckets := x.buckets.insert (bucketKey subPoolId direction r.zeroPriceTick)
          { slot with record := r } }
      placeRecords subPoolId direction rs

/-- A record whose bucket is gone; tick, anchor and index stay. -/
def zeroRecord (r : OnChainBucketRecord) : OnChainBucketRecord :=
  if r.isDead = true then r
  else { r with
    totalRecoveryShares := 0
    totalRecoveryNotional := 0
    accruedValue := 0
    positionCount := 0 }

def zeroLeftovers (x : ChainRuntime) (subPoolId : Nat) (direction : Direction)
    (placed : List Int) : ChainRuntime :=
  { x with
    buckets := x.buckets.mapVal (fun key account =>
      if key.subPoolId = subPoolId ∧ key.direction = direction ∧ key.tick ∉ placed then
        { account with record := zeroRecord account.record }
      else account) }

def writeBucketsStrict (subPoolId : Nat) (direction : Direction)
    (records : List OnChainBucketRecord) : MirrorM Unit := do
  placeRecords subPoolId direction records
  modify (·.zeroLeftovers subPoolId direction (records.map (·.zeroPriceTick)))

def writeDirection (subPoolId : Nat) (direction : Direction) (store : DormantStore) :
    MirrorM Unit := do
  let x ← get
  let (records, ledger) ← orFail (clearing (packDormantStore store
    x.market.params.maxDormantBucketCountPerDirection
    x.market.params.maxDistributionLedgerSize))
  match x.ledgers.get? (ledgerKey subPoolId direction) with
  | none => throw (.invariant "ledger account missing on write-back")
  | some account => do
    set { x with
      ledgers := x.ledgers.insert (ledgerKey subPoolId direction)
        { account with ledger := ledger } }
    if x.strictPdaLifecycle = true then writeBucketsStrict subPoolId direction records
    else modify (·.writeBucketsLoose subPoolId direction records)

def writeCoreSubPool (subPoolId : Nat) (core : SubPool) : MirrorM Unit := do
  writeDirection subPoolId .long core.long.dormant
  writeDirection subPoolId .short core.short.dormant
  let x ← get
  match x.subPools.get? subPoolId with
  | none => throw (.subPoolNotFound subPoolId)
  | some account => set (x.putSubPool (account.writeBack core))

/-- The accounts a call on the sub-pool may write; a missing one is an `unwrap` that aborts. -/
def snapshotSubPool (x : ChainRuntime) (subPoolId : Nat) : Option SubPoolSnapshot := do
  let long ← x.ledgers.get? (ledgerKey subPoolId .long)
  let short ← x.ledgers.get? (ledgerKey subPoolId .short)
  let account ← x.subPools.get? subPoolId
  return {
    subPool := account
    buckets := x.buckets.filter (fun key _ => key.subPoolId = subPoolId)
    ledgers := (OrdMap.empty.insert (ledgerKey subPoolId .long) long).insert
      (ledgerKey subPoolId .short) short }

def restoreSubPool (snap : SubPoolSnapshot) (x : ChainRuntime) : ChainRuntime :=
  { x.putSubPool snap.subPool with
    buckets := (x.buckets.filter (fun key _ => !(key.subPoolId = snap.subPool.subPoolId))).insertAll
      snap.buckets.entries
    ledgers := x.ledgers.insertAll snap.ledgers.entries }

/-- Run a step whose failure is undone before it is handed on. -/
def undoing (undo : ChainRuntime → ChainRuntime) (step : MirrorM α) : MirrorM α := fun x =>
  match step x with
  | .ok a x' => .ok a x'
  | .error e x' => .error e (undo x')

def orAbort (x : Option α) : MirrorM α :=
  match x with
  | none => throw .panic
  | some a => return a

/-- A failed write-back is handed on as it is. -/
def sync (subPoolId : Nat) (envelope : PriceEnvelope) : MirrorM SyncOutcome := do
  let x ← get
  let snap ← orAbort (x.snapshotSubPool subPoolId)
  let core ← orFail (x.buildCoreSubPool subPoolId)
  match syncPool x.market.params core envelope with
  | .ok (core', out) => do
    writeCoreSubPool subPoolId core'
    return out
  | .error e => do
    modify (restoreSubPool snap)
    throw (.clearing e)

/-- Principal and dust go to the vault, the fee to the fee vault. -/
def bookDeposit (grossAmount : Nat) (out : OpenOutcome) : MirrorM Unit := do
  let x ← get
  orFail (ensure (out.principalIntoPool + out.dust < u128Size)
    (.invariant "open: principal+dust overflow"))
  let vault ← orFail (plus x.vaultBalance (out.principalIntoPool + out.dust))
  let feeVault ← orFail (plus x.feeVaultBalance out.openFee)
  let deposits ← orFail (plus x.totalDeposits grossAmount)
  set { x with vaultBalance := vault, feeVaultBalance := feeVault, totalDeposits := deposits }

def «open» (subPoolId : Nat) (direction : Direction) (grossAmount : U64)
    (envelope : PriceEnvelope) : MirrorM OpenSummary := do
  let x ← get
  let snap ← orAbort (x.snapshotSubPool subPoolId)
  let positionId := x.nextPositionId
  orFail (ensure (positionId + 1 < u64Size) .panic)
  set { x with nextPositionId := positionId + 1 }
  let core ← orFail (x.buildCoreSubPool subPoolId)
  match openPosition x.market.params core envelope direction grossAmount positionId with
  | .ok (core', position, out) => do
    undoing (fun y => { restoreSubPool snap y with nextPositionId := y.nextPositionId - 1 })
      (writeCoreSubPool subPoolId core')
    modify (fun y => { y with
      positions := y.positions.insert positionId
        ⟨subPoolId, { position with subPoolId := subPoolId }⟩ })
    bookDeposit grossAmount out
    return ⟨positionId, out.sharesMinted, out.openFee, out.events⟩
  | .error e => do
    modify (fun y => { restoreSubPool snap y with nextPositionId := y.nextPositionId - 1 })
    throw (.clearing e)

/-- An engine call on a position. The position is out of the map during the call, and a failure
    of the engine or of the write-back puts everything back. -/
def onPosition (positionId : Nat)
    (call : MarketParams → SubPool → Position → Except ClearingError (SubPool × Position × α))
    (pay : α → MirrorM Unit) (result : α → β) : MirrorM β := do
  let x ← get
  match x.positions.get? positionId with
  | none => throw (.positionNotFound positionId)
  | some account => do
    let subPoolId := account.subPoolId
    let snap ← orAbort (x.snapshotSubPool subPoolId)
    let core ← orFail (x.buildCoreSubPool subPoolId)
    modify (fun y => { y with positions := y.positions.erase positionId })
    let undo := fun y : ChainRuntime =>
      { restoreSubPool snap y with positions := y.positions.insert positionId account }
    match call x.market.params core account.position with
    | .error e => do
      modify undo
      throw (.clearing e)
    | .ok (core', position, out) => do
      undoing undo (writeCoreSubPool subPoolId core')
      modify (fun y => { y with
        positions := y.positions.insert positionId ⟨subPoolId, position⟩ })
      pay out
      return result out

def payOut (reason : String) (amount : Nat) : MirrorM Unit := do
  let x ← get
  orFail (ensure (amount ≤ x.vaultBalance) (.invariant reason))
  let withdrawals ← orFail (plus x.totalWithdrawals amount)
  set { x with vaultBalance := x.vaultBalance - amount, totalWithdrawals := withdrawals }

def close (positionId : Nat) (envelope : PriceEnvelope) : MirrorM CloseSummary :=
  onPosition positionId (closePosition · · envelope ·)
    (fun out => payOut "close: vault underflow" out.withdrawable)
    (fun out => ⟨out.withdrawable, out⟩)

def forceClose (positionId : Nat) (envelope : PriceEnvelope) (acknowledgeForfeit : Bool) :
    MirrorM ForceCloseOutcome :=
  onPosition positionId (forceCloseZeroValuePosition · · envelope · acknowledgeForfeit)
    (fun _ => pure ()) id

def claimRecovery (positionId : Nat) (envelope : PriceEnvelope) : MirrorM ClaimRecoveryOutcome :=
  onPosition positionId (claimDormantRecovery · · envelope ·)
    (fun out => payOut "claim: vault underflow" out.redeemable) id

/-- An engine call on a sub-pool, put back when the engine or the write-back fails. -/
def onSubPool (subPoolId : Nat)
    (call : MarketParams → SubPool → Except ClearingError (SubPool × α))
    (pay : α → MirrorM Unit) : MirrorM α := do
  let x ← get
  let snap ← orAbort (x.snapshotSubPool subPoolId)
  let core ← orFail (x.buildCoreSubPool subPoolId)
  match call x.market.params core with
  | .error e => do
    modify (restoreSubPool snap)
    throw (.clearing e)
  | .ok (core', out) => do
    undoing (restoreSubPool snap) (writeCoreSubPool subPoolId core')
    pay out
    return out

def sweep (amount : Nat) : MirrorM Unit := do
  let x ← get
  orFail (ensure (amount ≤ x.vaultBalance) (.invariant "harvest: vault underflow"))
  let feeVault ← orFail (plus x.feeVaultBalance amount)
  set { x with vaultBalance := x.vaultBalance - amount, feeVaultBalance := feeVault }

def harvestDust (subPoolId : Nat) (direction : Direction) : MirrorM HarvestOutcome :=
  onSubPool subPoolId (MoleFinance.harvestDust · · direction) (fun out => sweep out.amount)

def preSyncBucket (subPoolId : Nat) (direction : Direction) (bucketTick : Int) (slot : Nat) :
    MirrorM PreSyncOutcome := do
  let x ← get
  orFail (ensure (x.buckets.contains (bucketKey subPoolId direction bucketTick) = true)
    (.bucketNotInitialized subPoolId direction bucketTick))
  onSubPool subPoolId (preSyncDormantBucket · · direction bucketTick slot) (fun _ => pure ())

end ChainRuntime

inductive MirrorOp where
  | open (subPoolId : Nat) (direction : Direction) (grossAmount : U64) (envelope : PriceEnvelope)
  | close (positionId : Nat) (envelope : PriceEnvelope)
  | forceClose (positionId : Nat) (envelope : PriceEnvelope) (acknowledgeForfeit : Bool)
  | claimRecovery (positionId : Nat) (envelope : PriceEnvelope)
  | sync (subPoolId : Nat) (envelope : PriceEnvelope)
  | preSyncBucket (subPoolId : Nat) (direction : Direction) (bucketTick : Int) (slot : Nat)
  | harvestDust (subPoolId : Nat) (direction : Direction)

inductive MirrorReply where
  | opened (out : OpenSummary)
  | closed (out : CloseSummary)
  | forceClosed (out : ForceCloseOutcome)
  | claimed (out : ClaimRecoveryOutcome)
  | synced (out : SyncOutcome)
  | preSynced (out : PreSyncOutcome)
  | harvested (out : HarvestOutcome)
deriving DecidableEq

namespace MirrorOp

def call : MirrorOp → MirrorM MirrorReply
  | .open subPoolId direction gross envelope => do
    return .opened (← ChainRuntime.open subPoolId direction gross envelope)
  | .close positionId envelope => do return .closed (← ChainRuntime.close positionId envelope)
  | .forceClose positionId envelope ack => do
    return .forceClosed (← ChainRuntime.forceClose positionId envelope ack)
  | .claimRecovery positionId envelope => do
    return .claimed (← ChainRuntime.claimRecovery positionId envelope)
  | .sync subPoolId envelope => do return .synced (← ChainRuntime.sync subPoolId envelope)
  | .preSyncBucket subPoolId direction tick slot => do
    return .preSynced (← ChainRuntime.preSyncBucket subPoolId direction tick slot)
  | .harvestDust subPoolId direction => do
    return .harvested (← ChainRuntime.harvestDust subPoolId direction)

def step (op : MirrorOp) (x : ChainRuntime) : Except MirrorError MirrorReply × ChainRuntime :=
  (Trace.answer (op.call x), Trace.final (op.call x))

end MirrorOp
end Runtime
end MoleFinance
