import MoleFinance.Keeper.Snapshot
import MoleFinance.Chain.Accounts

/-! The host-side scheduler: from a view of the chain to the actions the keeper should take. -/
namespace MoleFinance

inductive KeeperError where
  | bucketAheadOfLedger (subPool : Nat) (direction : Direction) (tick : Int) (applied head : Nat)
  | missingLedger (subPool : Nat) (direction : Direction)
deriving DecidableEq

structure BucketSnapshot where
  subPoolId : Nat
  direction : Direction
  tick : Int
  anchorPrice : Nat
  totalRecoveryShares : Nat
  totalRecoveryNotional : Nat
  accruedValue : Nat
  positionCount : Nat
  lastAppliedIndex : Nat
deriving DecidableEq

def BucketSnapshot.isDead (b : BucketSnapshot) : Bool :=
  b.totalRecoveryShares == 0 && b.totalRecoveryNotional == 0 && b.accruedValue == 0
    && b.positionCount == 0

structure LedgerSnapshot where
  subPoolId : Nat
  direction : Direction
  nextEventIndex : Nat
  bucketCountHint : Nat
deriving DecidableEq

structure KeeperChainView where
  subPoolIds : List Nat
  buckets : Nat → List BucketSnapshot
  ledger : Nat → Direction → Option LedgerSnapshot

inductive InitRationale where
  | rotateRiskHorizon
  | explicit
deriving DecidableEq

inductive KeeperAction where
  | preSyncDormantBucket (subPoolId : Nat) (direction : Direction) (tick : Int) (pending : Nat)
  | closeDormantBucket (subPoolId : Nat) (direction : Direction) (tick : Int)
  | initDormantBucket (subPoolId : Nat) (direction : Direction) (tick : Int)
      (rationale : InitRationale)
deriving DecidableEq

def KeeperAction.priority : KeeperAction → Nat
  | .initDormantBucket .. => 1000000000
  | .preSyncDormantBucket _ _ _ pending => min (10000000 + pending) (MoleMath.u64Size - 1)
  | .closeDormantBucket .. => 1

structure SchedulerConfig where
  minPendingForPreSync : Nat
  maxActionsPerPlan : Nat
  closeDeadBuckets : Bool
deriving DecidableEq

def SchedulerConfig.default : SchedulerConfig := ⟨1, 0, true⟩

structure Scheduler where
  config : SchedulerConfig
  initHints : OrdMap BucketKey InitRationale

/-- The order in which a hash map hands out the hints. -/
structure HintOrder where
  arrange : List (BucketKey × InitRationale) → List (BucketKey × InitRationale)
  perm : ∀ hints, (arrange hints).Perm hints

def HintOrder.byKey : HintOrder := ⟨id, fun _ => .refl _⟩

namespace Scheduler

def new (config : SchedulerConfig) : Scheduler := ⟨config, .empty⟩

def recordInitHint (s : Scheduler) (subPoolId : Nat) (direction : Direction) (tick : Int)
    (rationale : InitRationale) : Scheduler :=
  { s with initHints := s.initHints.insert (bucketKey subPoolId direction tick) rationale }

def cancelInitHint (s : Scheduler) (subPoolId : Nat) (direction : Direction) (tick : Int) :
    Scheduler :=
  { s with initHints := s.initHints.erase (bucketKey subPoolId direction tick) }

/-- What one bucket calls for: its backlog first, then its rent. -/
def planBucket (config : SchedulerConfig) (ledger : Option LedgerSnapshot) (b : BucketSnapshot) :
    Except KeeperError (List KeeperAction) :=
  match ledger with
  | none => .error (.missingLedger b.subPoolId b.direction)
  | some l =>
    if l.nextEventIndex < b.lastAppliedIndex then
      .error (.bucketAheadOfLedger b.subPoolId b.direction b.tick b.lastAppliedIndex
        l.nextEventIndex)
    else
      let pending := l.nextEventIndex - b.lastAppliedIndex
      if config.minPendingForPreSync ≤ pending ∧ 0 < pending then
        .ok [.preSyncDormantBucket b.subPoolId b.direction b.tick pending]
      else if config.closeDeadBuckets = true ∧ b.isDead = true ∧
          l.nextEventIndex ≤ b.lastAppliedIndex then
        .ok [.closeDormantBucket b.subPoolId b.direction b.tick]
      else .ok []

def planBuckets (config : SchedulerConfig) (ledger : Direction → Option LedgerSnapshot) :
    List BucketSnapshot → Except KeeperError (List KeeperAction)
  | [] => .ok []
  | b :: bs => do
    let actions ← planBucket config (ledger b.direction) b
    let rest ← planBuckets config ledger bs
    return actions ++ rest

def planSubPools (config : SchedulerConfig) (view : KeeperChainView) :
    List Nat → Except KeeperError (List KeeperAction)
  | [] => .ok []
  | id :: ids => do
    let actions ← planBuckets config (view.ledger id) (view.buckets id)
    let rest ← planSubPools config view ids
    return actions ++ rest

def hintsToEmit (s : Scheduler) (order : HintOrder) (view : KeeperChainView) :
    List (BucketKey × InitRationale) :=
  (order.arrange s.initHints.entries).filter fun h => (view.buckets h.1.subPoolId).all fun b =>
    !(b.direction == h.1.direction && b.tick == h.1.tick)

/-- The actions, most urgent first, and the scheduler without the hints it acted on. -/
def plan (s : Scheduler) (order : HintOrder) (view : KeeperChainView) :
    Except KeeperError (List KeeperAction × Scheduler) := do
  let actions ← planSubPools s.config view view.subPoolIds
  let toEmit := s.hintsToEmit order view
  let actions := actions ++ toEmit.map fun h =>
    .initDormantBucket h.1.subPoolId h.1.direction h.1.tick h.2
  let actions := actions.mergeSort fun a b => decide (b.priority ≤ a.priority)
  let actions := if 0 < s.config.maxActionsPerPlan
    then actions.take s.config.maxActionsPerPlan else actions
  return (actions, { s with
    initHints := toEmit.foldl (fun hints h => hints.erase h.1) s.initHints })

end Scheduler

def Decoder.OnchainDormantBucket.snapshot (subPoolId : Nat) (b : Decoder.OnchainDormantBucket) :
    BucketSnapshot where
  subPoolId := subPoolId
  direction := .ofIsLong b.directionIsLong
  tick := b.zeroPriceTick.toInt
  anchorPrice := b.anchorPrice.toNat
  totalRecoveryShares := b.totalRecoveryShares.toNat
  totalRecoveryNotional := b.totalRecoveryNotional.toNat
  accruedValue := b.accruedValue.toNat
  positionCount := b.positionCount.toNat
  lastAppliedIndex := b.lastAppliedIndex.toNat

/-- The count the keeper believes the program keeps. -/
def Decoder.OnchainSubPool.bucketCount (sp : Decoder.OnchainSubPool) : Direction → BitVec 32
  | .long => sp.longDormantBucketCount
  | .short => sp.shortDormantBucketCount

namespace ChainSnapshot

def ledger (snap : ChainSnapshot) (subPoolId : Nat) (direction : Direction) :
    Option LedgerSnapshot := do
  let lg ← snap.ledgers.get? (sideKey subPoolId direction)
  let sp ← snap.subPools.get? subPoolId
  return {
    subPoolId := subPoolId
    direction := direction
    nextEventIndex := lg.nextEventIndex.toNat
    bucketCountHint := (sp.bucketCount direction).toNat }

/-- The keys of an ordered map are sorted. -/
def view (snap : ChainSnapshot) : KeeperChainView where
  subPoolIds := snap.subPools.keys
  buckets id := ((snap.buckets.get? id).getD []).map (·.snapshot id)
  ledger := snap.ledger

def ledgerPubkey (snap : ChainSnapshot) (subPoolId : Nat) (direction : Direction) :
    Option Decoder.Pubkey32 :=
  snap.ledgerPubkeys.get? (sideKey subPoolId direction)

def bucketPubkey (snap : ChainSnapshot) (subPoolId : Nat) (direction : Direction) (tick : Int) :
    Option Decoder.Pubkey32 :=
  snap.bucketPubkeys.get? (bucketKey subPoolId direction tick)

end ChainSnapshot

end MoleFinance
