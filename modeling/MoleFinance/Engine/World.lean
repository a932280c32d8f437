import MoleFinance.Engine.Accounting
import MoleFinance.Lib.Trace

/-! Runs of the engine: a sub-pool with all positions ever opened in it. A failed call is
rolled back by its caller; position ids are unique within the sub-pool. -/
namespace MoleFinance
open MoleMath Call Trace

abbrev U64 := Fin u64Size

structure World where
  subPool : SubPool
  positions : OrdMap Nat Position
deriving DecidableEq

def World.new (id : Nat) (price : U64) (slot : Nat) : World := ⟨.new id price slot, .empty⟩

inductive EngineOp where
  | sync (envelope : PriceEnvelope)
  | open (envelope : PriceEnvelope) (direction : Direction) (grossAmount positionId : U64)
  | close (envelope : PriceEnvelope) (positionId : Nat)
  | forceClose (envelope : PriceEnvelope) (positionId : Nat) (acknowledgeForfeit : Bool)
  | claim (envelope : PriceEnvelope) (positionId : Nat)
  | harvest (direction : Direction)
  | preSync (direction : Direction) (bucketTick : Int) (slot : Nat)

inductive Reply where
  | synced (out : SyncOutcome)
  | opened (position : Position) (out : OpenOutcome)
  | closed (position : Position) (out : CloseOutcome)
  | forceClosed (position : Position) (out : ForceCloseOutcome)
  | claimed (position : Position) (out : ClaimRecoveryOutcome)
  | harvested (out : HarvestOutcome)
  | preSynced (out : PreSyncOutcome)
deriving DecidableEq

/-- The result a caller sees; a caller without the position makes no call. -/
inductive Answer where
  | done (reply : Reply)
  | failed (error : ClearingError)
  | notCalled
deriving DecidableEq

namespace World

/-- A successful call on a position, written back under its id. -/
def withPosition {α : Type} (w : World) (id : Nat) (reply : Position → α → Reply)
    (r : SubPool × Position × α) : World × Reply :=
  (⟨r.1, w.positions.insert id r.2.1⟩, reply r.2.1 r.2.2)

def withSubPool {α : Type} (w : World) (reply : α → Reply) (r : SubPool × α) : World × Reply :=
  ({ w with subPool := r.1 }, reply r.2)

end World

namespace EngineOp

def call (market : MarketParams) (w : World) :
    EngineOp → Option (Except ClearingError (World × Reply))
  | .sync envelope => some (w.withSubPool .synced <$> syncPool market w.subPool envelope)
  | .open envelope direction gross id =>
    if w.positions.contains id = true then none
    else some (w.withPosition id .opened <$>
      openPosition market w.subPool envelope direction gross id)
  | .close envelope id => (w.positions.get? id).map fun p =>
      w.withPosition id .closed <$> closePosition market w.subPool envelope p
  | .forceClose envelope id ack => (w.positions.get? id).map fun p =>
      w.withPosition id .forceClosed <$>
        forceCloseZeroValuePosition market w.subPool envelope p ack
  | .claim envelope id => (w.positions.get? id).map fun p =>
      w.withPosition id .claimed <$> claimDormantRecovery market w.subPool envelope p
  | .harvest direction => some (w.withSubPool .harvested <$> harvestDust market w.subPool direction)
  | .preSync direction tick slot =>
    some (w.withSubPool .preSynced <$>
      preSyncDormantBucket market w.subPool direction tick slot)

def step (op : MarketParams × EngineOp) (w : World) : Answer × World :=
  match op.2.call op.1 w with
  | none => (.notCalled, w)
  | some (.error e) => (.failed e, w)
  | some (.ok (w', reply)) => (.done reply, w')

end EngineOp

namespace World

def Reached (w : World) : Prop :=
  ∃ id price slot ops, (run EngineOp.step ops (World.new id price slot)).2 = w

theorem Reached.induct {I : World → Prop} (hnew : ∀ id price slot, I (.new id price slot))
    (hstep : ∀ market op w w' reply, I w → EngineOp.call market w op = some (.ok (w', reply)) →
      I w') {w : World} (h : w.Reached) : I w := by
  obtain ⟨id, price, slot, ops, rfl⟩ := h
  refine run_preserves ?_ (hnew id price slot)
  rintro ⟨market, op⟩ w hw
  unfold EngineOp.step
  cases hc : EngineOp.call market w op with
  | none => exact hw
  | some r =>
    cases r with
    | error e => exact hw
    | ok wr => exact hstep market op w wr.1 wr.2 hw hc

end World

def smallMarket (mode : DistributeMode) : MarketParams :=
  { MarketParams.sample with minMargin := 1, dormantDistributeMode := mode }

def quote (price : Nat) (h : price < u64Size := by decide) : PriceEnvelope :=
  ⟨price, 1, 0, 1000, h⟩

def amount (n : Nat) : U64 := ⟨n % u64Size, Nat.mod_lt _ (Nat.two_pow_pos 64)⟩

def quoteAt (price : U64) : PriceEnvelope := ⟨price, 1, 0, 1000, price.2⟩

def smallRun (mode : DistributeMode) (ops : List EngineOp) : List Answer × World :=
  run EngineOp.step (ops.map (smallMarket mode, ·)) (.new 0 ⟨0, by decide⟩ 0)

theorem smallRun_reached (mode : DistributeMode) (ops : List EngineOp) :
    (smallRun mode ops).2.Reached := ⟨0, _, 0, _, rfl⟩

end MoleFinance
