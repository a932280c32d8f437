import MoleFinance.Engine.World

/-! The host harness: the engine, a simulated vault and an indexer fed with every event. The
vault backs what users hold, the fee vault is protocol revenue. The indexer is a parameter. -/
namespace MoleFinance
open MoleMath Call

/-- What the harness uses of the indexer. -/
structure IndexerView (ι ε : Type) where
  applyAll : List EngineEvent → EStateM ε ι Unit
  equity : ι → Nat → Nat

inductive HarnessError (ε : Type) where
  | subPoolNotFound (subPoolId : Nat)
  | positionNotFound (positionId : Nat)
  | duplicatePositionId (positionId : Nat)
  | clearing (error : ClearingError)
  | indexer (error : ε)
  | invariant (reason : String)

structure Harness (ι : Type) where
  market : MarketParams
  subPools : OrdMap Nat SubPool
  positions : OrdMap Nat Position
  nextPositionId : Nat
  vaultBalance : Nat
  feeVaultBalance : Nat
  indexer : ι
  totalDeposits : Nat
  totalWithdrawals : Nat
  feesCollected : Nat
  dustSwept : Nat

structure StateSummary where
  totalDeposits : Nat
  totalWithdrawals : Nat
  vaultBalance : Nat
  feeVaultBalance : Nat
  poolEquityTotal : Nat
  dormantAccruedTotal : Nat
  dormantPendingTotal : Nat
  dustTotal : Nat
  subPoolCount : Nat
  positionCount : Nat

structure OpenSummary where
  positionId : Nat
  sharesMinted : Nat
  openFee : Nat

structure CloseSummary where
  withdrawable : Nat
  indexerPreEquity : Nat

/-- `a += b` on a balance: overflow aborts. -/
def plus {ε : Type} (a b : Nat) : Except (HarnessError ε) Nat := do
  ensure (a + b < u128Size) (.clearing .panic)
  return a + b

namespace Harness
variable {ι ε α β : Type}

abbrev Run (ι ε α : Type) := EStateM (HarnessError ε) (Harness ι) α

def new (market : MarketParams) (indexer : ι) : Harness ι where
  market := market
  subPools := .empty
  positions := .empty
  nextPositionId := 1
  vaultBalance := 0
  feeVaultBalance := 0
  indexer := indexer
  totalDeposits := 0
  totalWithdrawals := 0
  feesCollected := 0
  dustSwept := 0

def summary (h : Harness ι) : StateSummary where
  totalDeposits := h.totalDeposits
  totalWithdrawals := h.totalWithdrawals
  vaultBalance := h.vaultBalance
  feeVaultBalance := h.feeVaultBalance
  poolEquityTotal := h.subPools.sum (fun _ s => s.long.poolEquity + s.short.poolEquity)
  dormantAccruedTotal := h.subPools.sum
    (fun _ s => s.long.dormant.accruedValueTotal + s.short.dormant.accruedValueTotal)
  dormantPendingTotal := h.subPools.sum
    (fun _ s => s.long.dormant.pendingDistributionTotal + s.short.dormant.pendingDistributionTotal)
  dustTotal := h.subPools.sum (fun _ s => s.long.dust + s.short.dust)
  subPoolCount := h.subPools.size
  positionCount := h.positions.size

def addSubPool (h : Harness ι) (subPoolId : Nat) (initPrice : U64) (initSlot : Nat) :
    Harness ι :=
  { h with subPools := h.subPools.insert subPoolId (.new subPoolId initPrice initSlot) }

def applyEvents (view : IndexerView ι ε) (events : List EngineEvent) : Run ι ε Unit := do
  let h ← get
  match view.applyAll events h.indexer with
  | .ok _ indexer => set { h with indexer := indexer }
  | .error e indexer => do
    set { h with indexer := indexer }
    throw (.indexer e)

/-- Book a deposit: the principal and its dust back users, the fee is revenue. -/
def deposit (grossAmount : Nat) (out : OpenOutcome) : Run ι ε Unit := do
  let h ← get
  orFail (ensure (out.principalIntoPool + out.dust < u128Size)
    (.invariant "open principal + dust overflow"))
  orFail (ensure (out.principalIntoPool + out.dust + out.openFee < u128Size)
    (.invariant "open total overflow"))
  orFail (ensure (out.principalIntoPool + out.dust + out.openFee = grossAmount)
    (.invariant "open accounting: principal + dust + open_fee != gross_amount"))
  let vault ← orFail (plus h.vaultBalance (out.principalIntoPool + out.dust))
  let feeVault ← orFail (plus h.feeVaultBalance out.openFee)
  let fees ← orFail (plus h.feesCollected out.openFee)
  let deposits ← orFail (plus h.totalDeposits grossAmount)
  set { h with
    vaultBalance := vault
    feeVaultBalance := feeVault
    feesCollected := fees
    totalDeposits := deposits }

def withdraw (reason : String) (amount : Nat) : Run ι ε Unit := do
  let h ← get
  orFail (ensure (amount ≤ h.vaultBalance) (.invariant reason))
  let withdrawals ← orFail (plus h.totalWithdrawals amount)
  set { h with vaultBalance := h.vaultBalance - amount, totalWithdrawals := withdrawals }

def sweep (amount : Nat) : Run ι ε Unit := do
  let h ← get
  orFail (ensure (amount ≤ h.vaultBalance) (.invariant "harvest drained vault below zero"))
  let feeVault ← orFail (plus h.feeVaultBalance amount)
  let fees ← orFail (plus h.feesCollected amount)
  let swept ← orFail (plus h.dustSwept amount)
  set { h with
    vaultBalance := h.vaultBalance - amount
    feeVaultBalance := feeVault
    feesCollected := fees
    dustSwept := swept }

/-- A failed engine call is rolled back, and so is the id it took. -/
def «open» (view : IndexerView ι ε) (subPoolId : Nat) (direction : Direction)
    (grossAmount : Nat) (envelope : PriceEnvelope) : Run ι ε OpenSummary := do
  let h ← get
  match h.subPools.get? subPoolId with
  | none => throw (.subPoolNotFound subPoolId)
  | some s => do
    let positionId := h.nextPositionId
    orFail (ensure (positionId + 1 < u64Size) (.clearing .panic))
    if h.positions.contains positionId = true then
      set { h with nextPositionId := positionId + 1 }
      throw (.duplicatePositionId positionId)
    else match openPosition h.market s envelope direction grossAmount positionId with
    | .error e => throw (.clearing e)
    | .ok (s', position, out) => do
      set { h with
        nextPositionId := positionId + 1
        subPools := h.subPools.insert subPoolId s'
        positions := h.positions.insert positionId { position with subPoolId := subPoolId } }
      deposit grossAmount out
      applyEvents view out.events
      return ⟨positionId, out.sharesMinted, out.openFee⟩

/-- An engine call on a tracked position. The position is out of the map until the funds have
    moved; a failed engine call puts it and the sub-pool back. -/
def onPosition (view : IndexerView ι ε) (positionId : Nat)
    (call : MarketParams → SubPool → Position → Except ClearingError (SubPool × Position × α))
    (pay : α → Run ι ε Unit) (events : α → List EngineEvent) (result : α → Nat → β) :
    Run ι ε β := do
  let h ← get
  match h.positions.get? positionId with
  | none => throw (.positionNotFound positionId)
  | some position =>
    match h.subPools.get? position.subPoolId with
    | none => do
      set { h with positions := h.positions.erase positionId }
      throw (.subPoolNotFound position.subPoolId)
    | some s =>
      match call h.market s position with
      | .error e => throw (.clearing e)
      | .ok (s', position', out) => do
        set { h with
          subPools := h.subPools.insert position.subPoolId s'
          positions := h.positions.erase positionId }
        pay out
        modify (fun h' => { h' with positions := h'.positions.insert positionId position' })
        applyEvents view (events out)
        return result out (view.equity h.indexer positionId)

def close (view : IndexerView ι ε) (positionId : Nat) (envelope : PriceEnvelope) :
    Run ι ε CloseSummary :=
  onPosition view positionId (closePosition · · envelope ·)
    (fun out => withdraw "close drained vault below zero" out.withdrawable) (·.events)
    (fun out preEquity => ⟨out.withdrawable, preEquity⟩)

def forceClose (view : IndexerView ι ε) (positionId : Nat) (envelope : PriceEnvelope)
    (acknowledgeForfeit : Bool) : Run ι ε Unit :=
  onPosition view positionId (forceCloseZeroValuePosition · · envelope · acknowledgeForfeit)
    (fun _ => pure ()) (·.events) (fun _ _ => ())

def claimRecovery (view : IndexerView ι ε) (positionId : Nat) (envelope : PriceEnvelope) :
    Run ι ε CloseSummary :=
  onPosition view positionId (claimDormantRecovery · · envelope ·)
    (fun out => withdraw "claim drained vault below zero" out.redeemable) (·.events)
    (fun out preEquity => ⟨out.redeemable, preEquity⟩)

def onSubPool (view : IndexerView ι ε) (subPoolId : Nat)
    (call : MarketParams → SubPool → Except ClearingError (SubPool × α))
    (pay : α → Run ι ε Unit) (events : α → List EngineEvent) (result : α → β) : Run ι ε β := do
  let h ← get
  match h.subPools.get? subPoolId with
  | none => throw (.subPoolNotFound subPoolId)
  | some s =>
    match call h.market s with
    | .error e => throw (.clearing e)
    | .ok (s', out) => do
      set { h with subPools := h.subPools.insert subPoolId s' }
      pay out
      applyEvents view (events out)
      return result out

def sync (view : IndexerView ι ε) (subPoolId : Nat) (envelope : PriceEnvelope) :
    Run ι ε Unit :=
  onSubPool view subPoolId (syncPool · · envelope) (fun _ => pure ()) (·.events) (fun _ => ())

def preSyncBucket (view : IndexerView ι ε) (subPoolId : Nat) (direction : Direction)
    (bucketTick : Int) (slot : Nat) : Run ι ε PreSyncOutcome :=
  onSubPool view subPoolId (preSyncDormantBucket · · direction bucketTick slot)
    (fun _ => pure ()) (·.events) id

def harvestDust (view : IndexerView ι ε) (subPoolId : Nat) (direction : Direction) :
    Run ι ε Nat :=
  onSubPool view subPoolId (MoleFinance.harvestDust · · direction)
    (fun out => sweep out.amount) (·.events) (·.amount)

/-- Every bucket of a sub-pool, long ones first. -/
def allTicks (s : SubPool) : List (Direction × Int) :=
  s.long.dormant.buckets.keys.map (.long, ·) ++ s.short.dormant.buckets.keys.map (.short, ·)

/-- A bucket that is gone by its turn is skipped. The total saturates. -/
def drainTicks (view : IndexerView ι ε) (subPoolId slot : Nat) :
    List (Direction × Int) → Nat → Run ι ε Nat
  | [], total => return total
  | (direction, tick) :: ticks, total => fun h =>
    match preSyncBucket view subPoolId direction tick slot h with
    | .ok out h' => drainTicks view subPoolId slot ticks
        (min (total + out.eventsApplied) (u64Size - 1)) h'
    | .error (.clearing .dormantBucketMissing) h' => drainTicks view subPoolId slot ticks total h'
    | .error e h' => .error e h'

def drainAllBuckets (view : IndexerView ι ε) (subPoolId slot : Nat) : Run ι ε Nat := do
  let h ← get
  match h.subPools.get? subPoolId with
  | none => throw (.subPoolNotFound subPoolId)
  | some s => drainTicks view subPoolId slot (allTicks s) 0

end Harness

inductive HarnessOp where
  | open (subPoolId : Nat) (direction : Direction) (grossAmount : U64) (envelope : PriceEnvelope)
  | close (positionId : Nat) (envelope : PriceEnvelope)
  | forceClose (positionId : Nat) (envelope : PriceEnvelope) (acknowledgeForfeit : Bool)
  | claimRecovery (positionId : Nat) (envelope : PriceEnvelope)
  | sync (subPoolId : Nat) (envelope : PriceEnvelope)
  | preSyncBucket (subPoolId : Nat) (direction : Direction) (bucketTick : Int) (slot : Nat)
  | drainAllBuckets (subPoolId slot : Nat)
  | harvestDust (subPoolId : Nat) (direction : Direction)

inductive HarnessReply where
  | opened (out : OpenSummary)
  | closed (out : CloseSummary)
  | forceClosed
  | claimed (out : CloseSummary)
  | synced
  | preSynced (out : PreSyncOutcome)
  | drained (total : Nat)
  | harvested (amount : Nat)

namespace HarnessOp
variable {ι ε : Type}

def call (view : IndexerView ι ε) : HarnessOp → Harness.Run ι ε HarnessReply
  | .open subPoolId direction gross envelope => do
    return .opened (← Harness.open view subPoolId direction gross envelope)
  | .close positionId envelope => do return .closed (← Harness.close view positionId envelope)
  | .forceClose positionId envelope ack => do
    Harness.forceClose view positionId envelope ack
    return .forceClosed
  | .claimRecovery positionId envelope => do
    return .claimed (← Harness.claimRecovery view positionId envelope)
  | .sync subPoolId envelope => do
    Harness.sync view subPoolId envelope
    return .synced
  | .preSyncBucket subPoolId direction tick slot => do
    return .preSynced (← Harness.preSyncBucket view subPoolId direction tick slot)
  | .drainAllBuckets subPoolId slot => do
    return .drained (← Harness.drainAllBuckets view subPoolId slot)
  | .harvestDust subPoolId direction => do
    return .harvested (← Harness.harvestDust view subPoolId direction)

def step (view : IndexerView ι ε) (op : HarnessOp) (h : Harness ι) :
    Except (HarnessError ε) HarnessReply × Harness ι :=
  (Trace.answer (op.call view h), Trace.final (op.call view h))

end HarnessOp

end MoleFinance
