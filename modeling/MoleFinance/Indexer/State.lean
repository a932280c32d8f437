import MoleFinance.Market
import Mathlib.Data.Prod.Lex

/-! The state of the off-chain indexer: positions, bucket views and sub-pool views, each in a map
under its own key. The maps of the source are hash maps; here an iteration goes by key. -/
namespace MoleFinance
open MoleMath Call

inductive IndexerError where
  | mathOverflow
  | divByZero
  | signOverflow
  | unknownPosition (positionId : Nat)
  | stateMismatch (reason : String)
  | bucketMismatch (reason : String)
  /-- an unchecked addition that overflowed -/
  | panic
deriving DecidableEq

def IndexerError.ofMath : MathError → IndexerError
  | .overflow => .mathOverflow
  | .divByZero => .divByZero
  | .signOverflow => .signOverflow

def orIndexer {α : Type} : Except MathError α → Except IndexerError α
  | .ok a => .ok a
  | .error e => .error (.ofMath e)

@[simp] theorem orIndexer_ok {α : Type} (a : α) : orIndexer (.ok a) = .ok a := rfl

structure PositionView where
  positionId : Nat
  subPoolId : Nat
  direction : Direction
  principal : Nat
  notional : Nat
  activeShares : Nat
  recoveryShares : Nat
  recoveryBucketTick : Option Int
  activeGeneration : Nat
  lockedLoss : Nat
  realizedProfitBalance : Nat
  closed : Bool
deriving DecidableEq

namespace PositionView

/-- `principal - locked_loss`, saturating. -/
def remainingMargin (pos : PositionView) : Nat := pos.principal - pos.lockedLoss

/-- `saturating_add` of the profit to the remaining margin. -/
def equity (pos : PositionView) : Nat :=
  min (pos.remainingMargin + pos.realizedProfitBalance) (u128Size - 1)

end PositionView

structure BucketView where
  direction : Direction
  anchorPrice : Nat
  totalRecoveryShares : Nat
  totalRecoveryNotional : Nat
  accruedValue : Nat
deriving DecidableEq

namespace BucketView

def intrinsicAt (bucket : BucketView) (pNow : Nat) : Except IndexerError Nat :=
  if bucket.anchorPrice = 0 ∨ bucket.totalRecoveryNotional = 0 then .ok 0
  else match bucket.direction with
    | .long =>
      if pNow ≤ bucket.anchorPrice then .ok 0
      else orIndexer (mulDivFloor bucket.totalRecoveryNotional (pNow - bucket.anchorPrice)
        bucket.anchorPrice)
    | .short =>
      if bucket.anchorPrice ≤ pNow then .ok 0
      else orIndexer (mulDivFloor bucket.totalRecoveryNotional (bucket.anchorPrice - pNow)
        bucket.anchorPrice)

def outstandingAt (bucket : BucketView) (pNow : Nat) : Except IndexerError Nat := do
  let intrinsic ← bucket.intrinsicAt pNow
  return intrinsic - bucket.accruedValue

end BucketView

structure SeriesView where
  activeGeneration : Nat
  rotateLog : List (Nat × Int)
deriving DecidableEq

structure SubPoolView where
  long : SeriesView
  short : SeriesView
deriving DecidableEq

namespace SubPoolView

def default : SubPoolView := ⟨⟨0, []⟩, ⟨0, []⟩⟩

def series (v : SubPoolView) : Direction → SeriesView
  | .long => v.long
  | .short => v.short

def setSeries (v : SubPoolView) (direction : Direction) (series : SeriesView) : SubPoolView :=
  match direction with
  | .long => { v with long := series }
  | .short => { v with short := series }

theorem series_setSeries (v : SubPoolView) (d e : Direction) (x : SeriesView) :
    (v.setSeries d x).series e = if e = d then x else v.series e := by
  cases d <;> cases e <;> rfl

end SubPoolView

instance : LinearOrder Direction :=
  .lift' (fun | .long => 0 | .short => 1 : Direction → Nat) (fun a b h => by
    cases a <;> cases b <;> simp_all)

abbrev BucketKey := Nat ×ₗ Direction ×ₗ Int

def bucketKey (subPoolId : Nat) (direction : Direction) (tick : Int) : BucketKey :=
  toLex (subPoolId, toLex (direction, tick))

namespace BucketKey

def subPoolId (key : BucketKey) : Nat := (ofLex key).1

def direction (key : BucketKey) : Direction := (ofLex (ofLex key).2).1

def tick (key : BucketKey) : Int := (ofLex (ofLex key).2).2

@[simp] theorem subPoolId_bucketKey (sp : Nat) (d : Direction) (t : Int) :
    subPoolId (bucketKey sp d t) = sp := by
  simp only [subPoolId, bucketKey, ofLex_toLex]

@[simp] theorem direction_bucketKey (sp : Nat) (d : Direction) (t : Int) :
    direction (bucketKey sp d t) = d := by
  simp only [direction, bucketKey, ofLex_toLex]

@[simp] theorem tick_bucketKey (sp : Nat) (d : Direction) (t : Int) :
    tick (bucketKey sp d t) = t := by
  simp only [tick, bucketKey, ofLex_toLex]

theorem bucketKey_eta (key : BucketKey) :
    bucketKey (subPoolId key) (direction key) (tick key) = key := rfl

theorem bucketKey_inj {sp sp' : Nat} {d d' : Direction} {t t' : Int} :
    bucketKey sp d t = bucketKey sp' d' t' ↔ sp = sp' ∧ d = d' ∧ t = t' := by
  constructor
  · intro h
    exact ⟨congrArg subPoolId h, congrArg direction h, congrArg tick h⟩
  · rintro ⟨rfl, rfl, rfl⟩
    rfl

end BucketKey

structure IndexerState where
  positions : OrdMap Nat PositionView
  buckets : OrdMap BucketKey BucketView
  subPools : OrdMap Nat SubPoolView
deriving DecidableEq

def IndexerState.new : IndexerState := ⟨.empty, .empty, .empty⟩

end MoleFinance
