import MoleFinance.Dormant.Book

/-! Eager and lazy runs of a store. Two fresh stores are driven by the same client calls, one
through `distribute` and one through `distribute_lazy`, with replay and compaction inserted
anywhere; a failed call keeps its partial writes. -/
namespace MoleFinance
open MoleMath Call Trace

abbrev U128 := Fin u128Size

inductive ClientOp where
  | insertOrMerge (tick : Int) (anchorPrice addedShares addedNotional addedPositionCount
      maxBucketCount : Nat)
  | redeem (tick : Int) (sharesToBurn : Nat)
  | distribute (pNow : Nat) (totalAlloc : U128)

/-- Calls that only move funds from the ledger to the buckets, or drop history. -/
inductive Maintenance where
  | applyPendingToBucket (tick : Int)
  | applyPendingToAll
  | compactLedger

inductive Receipt where
  | done
  | distribution (receipt : DistributionReceipt)
  | redeem (receipt : RedeemReceipt)
deriving DecidableEq

abbrev Observation := Except ClearingError Receipt × Nat

namespace ClientOp

def call (mode : DistributeMode) (ring : Nat) : ClientOp → StoreM Receipt
  | .insertOrMerge tick anchorPrice addedShares addedNotional addedPositionCount maxBucketCount =>
    do
      DormantStore.insertOrMerge tick anchorPrice addedShares addedNotional addedPositionCount
        maxBucketCount
      return .done
  | .redeem tick sharesToBurn => do
    let receipt ← DormantStore.redeem tick sharesToBurn
    return .redeem receipt
  | .distribute pNow totalAlloc => do
    let receipt ← DormantStore.distributeBy mode pNow totalAlloc ring
    return .distribution receipt

def step (mode : DistributeMode) (ring : Nat) (op : ClientOp) (s : DormantStore) :
    Observation × DormantStore :=
  let r := op.call mode ring s
  ((answer r, (final r).nextEventIndex), final r)

def bookCall : ClientOp → EStateM ClearingError Book Receipt
  | .insertOrMerge tick anchorPrice addedShares addedNotional addedPositionCount maxBucketCount =>
    do
      Book.insertOrMerge tick anchorPrice addedShares addedNotional addedPositionCount
        maxBucketCount
      return .done
  | .redeem tick sharesToBurn => do
    let receipt ← Book.redeem tick sharesToBurn
    return .redeem receipt
  | .distribute pNow totalAlloc => do
    let receipt ← Book.distribute pNow totalAlloc
    return .distribution receipt

def bookStep (op : ClientOp) (v : Book) : Observation × Book :=
  let r := op.bookCall v
  ((answer r, (final r).nextEventIndex), final r)

end ClientOp

def Maintenance.call : Maintenance → StoreM Nat
  | .applyPendingToBucket tick => DormantStore.applyPendingToBucket tick
  | .applyPendingToAll => DormantStore.applyPendingToAll
  | .compactLedger => DormantStore.compactLedger

def Maintenance.after (m : Maintenance) (s : DormantStore) : DormantStore := final (m.call s)

def storeRun (mode : DistributeMode) (ring : Nat) (ops : List (ClientOp ⊕ Maintenance))
    (direction : Direction) : List Observation × DormantStore :=
  trace (ClientOp.step mode ring) Maintenance.after ops (DormantStore.new direction)

def RingNeverBinds (obs : List Observation) : Prop :=
  ∀ o ∈ obs, o.1 ≠ .error .ledgerCapacityExceeded

instance (obs : List Observation) : Decidable (RingNeverBinds obs) :=
  inferInstanceAs (Decidable (∀ o ∈ obs, o.1 ≠ .error .ledgerCapacityExceeded))

namespace DormantStore

/-- The shares a distribution is about to attribute fit `accrued_value_total`, and its entry
    fits the event index. -/
def AccruedFits (s : DormantStore) (pNow totalAlloc : Nat) : Prop :=
  match sumOutstanding s.buckets pNow 0 (activatedKeys s.direction s.buckets pNow) with
  | .error _ => True
  | .ok t =>
    match quoteShares s.buckets pNow totalAlloc t 0
      (activatedKeys s.direction s.buckets pNow) with
    | .error _ => True
    | .ok total => t = 0 ∨
      s.accruedValueTotal + total < u128Size ∧ s.nextEventIndex + 1 < u64Size

instance (s : DormantStore) (pNow totalAlloc : Nat) :
    Decidable (s.AccruedFits pNow totalAlloc) :=
  match h : sumOutstanding s.buckets pNow 0 (activatedKeys s.direction s.buckets pNow) with
  | .error _ => isTrue (by simp [AccruedFits, h])
  | .ok t =>
    match h' : quoteShares s.buckets pNow totalAlloc t 0
      (activatedKeys s.direction s.buckets pNow) with
    | .error _ => isTrue (by simp [AccruedFits, h, h'])
    | .ok total => decidable_of_iff (t = 0 ∨
        s.accruedValueTotal + total < u128Size ∧ s.nextEventIndex + 1 < u64Size)
        (by simp [AccruedFits, h, h'])

end DormantStore

def ClientOp.Fits : ClientOp → DormantStore → Prop
  | .distribute pNow totalAlloc, s => s.AccruedFits pNow totalAlloc
  | _, _ => True

instance (op : ClientOp) (s : DormantStore) : Decidable (op.Fits s) :=
  match op with
  | .distribute pNow totalAlloc => inferInstanceAs (Decidable (s.AccruedFits pNow totalAlloc))
  | .insertOrMerge .. => isTrue trivial
  | .redeem .. => isTrue trivial

/-- No distribution of a run overflows `accrued_value_total` or the event index. -/
def NoOverflow (mode : DistributeMode) (ring : Nat) (ops : List (ClientOp ⊕ Maintenance))
    (direction : Direction) : Prop :=
  Along (ClientOp.step mode ring) Maintenance.after ClientOp.Fits ops (DormantStore.new direction)

instance (mode : DistributeMode) (ring : Nat) (ops : List (ClientOp ⊕ Maintenance))
    (direction : Direction) : Decidable (NoOverflow mode ring ops direction) :=
  decidableAlong _ _ _ ops (DormantStore.new direction)

namespace DormantStore

theorem Upkeep.pending_le {s s' : DormantStore} (h : s.Upkeep s') :
    s'.pendingDistributionTotal ≤ s.pendingDistributionTotal := by
  have := h.funds_eq
  have := h.accrued_le
  omega

theorem eager_pending_le {s : DormantStore} {v : Book} (h : s.Rep v) (ring : Nat) (op : ClientOp)
    (hf : ∀ p a, op = .distribute p a → s.Fits p a) :
    (final (op.call .eager ring s)).pendingDistributionTotal ≤ s.pendingDistributionTotal := by
  cases op with
  | insertOrMerge tick anchor shares notional count cap =>
    have hd := insertOrMerge_cases h.inv tick anchor shares notional count cap
    simp only [ClientOp.call, bind, EStateM.bind]
    revert hd
    generalize insertOrMerge tick anchor shares notional count cap s = r
    intro hd
    cases hd with
    | merged s1 b b' hu hc hb hm => exact hu.pending_le
    | mergeFailed s1 b b' e hu hc hb hm => exact hu.pending_le
    | inserted hb hn => exact le_rfl
    | capped hb hn => exact le_rfl
    | tooMuch s' hb => exact absurd h.bounded hb
  | redeem tick shares =>
    have hd := redeem_cases h.inv tick shares
    simp only [ClientOp.call, bind, EStateM.bind]
    revert hd
    generalize redeem tick shares s = r
    intro hd
    cases hd with
    | burned s1 b b' r hu hc hb h0 hle hm => exact hu.pending_le
    | nothing s1 b hu hc hb h0 => exact hu.pending_le
    | missing hb => exact le_rfl
    | exceeds s1 b hu hc hb h0 hlt => exact hu.pending_le
    | failed s1 b e hu hc hb h0 hle hm => exact hu.pending_le
    | tooMuch s' hb => exact absurd h.bounded hb
  | distribute p a =>
    have hd := distributeBy_cases h.inv .eager p a ring
    simp only [ClientOp.call, bind, EStateM.bind]
    revert hd
    generalize distributeBy .eager p a ring s = r
    intro hd
    cases hd with
    | idle s' hu h0 => exact hu.pending_le
    | recorded s1 t total ha ht hrec => exact hrec.upkeep.pending_le
    | full s' ha hu => exact hu.pending_le
    | claims e s' ha hu he => exact hu.pending_le
    | tooMuch e s' hno => exact (hno.elim (absurd h.bounded) (absurd (hf p a rfl)))

theorem Inv.settled_of_pending {s : DormantStore} (h : s.Inv)
    (h0 : s.pendingDistributionTotal = 0) (tick : Int) : s.Settled tick := by
  intro b hb
  have := h.owed_le hb
  omega

/-- In an eager store the shares about to be attributed are those of the book. -/
theorem Rep.room_of_accruedFits {s : DormantStore} {v : Book} (h : s.Rep v)
    (h0 : s.pendingDistributionTotal = 0) {p a : Nat} (ha : a < u128Size)
    (hf : s.AccruedFits p a) : v.Room p a := by
  obtain ⟨hi, -, rfl⟩ := h
  intro t hs ht0
  have hset : ∀ k ∈ activatedKeys s.direction s.buckets p, s.Settled k :=
    fun k _ => hi.settled_of_pending h0 k
  have hs' : sumOutstanding s.view p 0 (activatedKeys s.direction s.view p) = .ok t := hs
  have ht := (sumOutstanding_bounds hs').2 (by norm_num [u128Size])
  obtain ⟨total, hq, -⟩ := quoteShares_of ha ht0 ht (Nat.zero_mul t).le hs' le_rfl
  have hal := quoteShares_allocated hq
  rw [activatedKeys_view, ← sumOutstanding_view hset] at hs'
  rw [activatedKeys_view, ← quoteShares_view hset] at hq
  unfold AccruedFits at hf
  simp only [hs', hq] at hf
  rw [hi.book_funds, h0, ← hal]
  exact hf.resolve_left ht0

theorem call_agrees {s : DormantStore} {v : Book} (h : s.Rep v) (mode : DistributeMode)
    {ring : Nat} (op : ClientOp) (hr : ∀ p a, op = .distribute p a → v.Room p a)
    (hc : answer (op.call mode ring s) ≠ .error .ledgerCapacityExceeded) :
    Agrees Rep (op.call mode ring s) (op.bookCall v) := by
  cases op with
  | insertOrMerge tick anchor shares notional count cap =>
    exact (insertOrMerge_agrees h tick anchor shares notional count cap).map (fun _ => Receipt.done)
  | redeem tick shares => exact (redeem_agrees h tick shares).map Receipt.redeem
  | distribute p a =>
    refine (distributeBy_agrees h mode a.isLt (hr p a rfl) ?_).map
      Receipt.distribution
    intro s' hs
    apply hc
    rw [ClientOp.call, bind_of_error hs]
    rfl

theorem Agrees_observation {s : DormantStore} {v : Book} {mode : DistributeMode} {ring : Nat}
    {op : ClientOp} (h : Agrees Rep (op.call mode ring s) (op.bookCall v)) :
    (op.step mode ring s).1 = (op.bookStep v).1 ∧
      (op.step mode ring s).2.Rep (op.bookStep v).2 := by
  have hn : (final (op.call mode ring s)).nextEventIndex
      = (final (op.bookCall v)).nextEventIndex := by
    rw [← h.final_rel.book_eq]
    rfl
  exact ⟨Prod.ext h.answer_eq hn, h.final_rel⟩

theorem maintenance_rep {s : DormantStore} {v : Book} (h : s.Rep v) (m : Maintenance) :
    (m.after s).Rep v ∧
      (m.after s).pendingDistributionTotal ≤ s.pendingDistributionTotal := by
  cases m with
  | applyPendingToBucket tick =>
    rcases applyPendingToBucket_cases h.inv tick with ⟨n, hn⟩ | ⟨-, hb⟩
    · have hu := settle_upkeep h.inv tick
      simp only [Maintenance.after, Maintenance.call, hn, final]
      exact ⟨h.upkeep hu, hu.pending_le⟩
    · exact absurd h.bounded hb
  | applyPendingToAll =>
    rcases applyPendingToAll_cases h.inv with ⟨n, s', hn, hu, -⟩ | ⟨-, hb⟩
    · simp only [Maintenance.after, Maintenance.call, hn, final]
      exact ⟨h.upkeep hu, hu.pending_le⟩
    · exact absurd h.bounded hb
  | compactLedger =>
    obtain ⟨n, s', hn, hu⟩ := compactLedger_run h.inv
    simp only [Maintenance.after, Maintenance.call, hn, final]
    exact ⟨h.upkeep hu, hu.pending_le⟩

end DormantStore

open DormantStore

/-- Without overflow in the eager run, the book has room for every distribution. -/
theorem room_along {ring : Nat} {ops : List (ClientOp ⊕ Maintenance)} {direction : Direction}
    (hring : RingNeverBinds (storeRun .eager ring ops direction).1)
    (hf : NoOverflow .eager ring ops direction) :
    AlongRun ClientOp.bookStep (fun op v => ∀ p a, op = .distribute p a → v.Room p a)
      (visible ops) ⟨direction, .empty, 0⟩ := by
  refine along_abstract (R := fun s v => s.Rep v ∧ s.pendingDistributionTotal = 0) ?_ ?_
    ⟨new_rep direction, rfl⟩ (hf.and (along_of_answers hring))
  · rintro op s v ⟨hrep, h0⟩ ⟨hfit, hcap⟩
    have hroom : ∀ p a, op = .distribute p a → v.Room p a :=
      fun p a hop => hrep.room_of_accruedFits h0 a.isLt (by rwa [hop] at hfit)
    have hfits : ∀ p a, op = .distribute p a → s.Fits p a := by
      intro p a hop
      have := hroom p a hop
      rw [← hrep.book_eq] at this
      exact hrep.inv.fits_of_room a.isLt this
    have hle := eager_pending_le hrep ring op hfits
    refine ⟨hroom, (Agrees_observation (call_agrees hrep .eager op hroom hcap)).2, ?_⟩
    simp only [ClientOp.step]
    omega
  · rintro m s v ⟨hrep, h0⟩
    obtain ⟨hrep', hle⟩ := maintenance_rep hrep m
    exact ⟨hrep', by omega⟩

theorem storeRun_refines (mode : DistributeMode) {ring : Nat}
    {ops : List (ClientOp ⊕ Maintenance)} {direction : Direction}
    (hring : RingNeverBinds (storeRun mode ring ops direction).1)
    (hroom : AlongRun ClientOp.bookStep (fun op v => ∀ p a, op = .distribute p a → v.Room p a)
      (visible ops) ⟨direction, .empty, 0⟩) :
    (storeRun mode ring ops direction).1
        = (run ClientOp.bookStep (visible ops) ⟨direction, .empty, 0⟩).1 ∧
      (storeRun mode ring ops direction).2.Rep
        (run ClientOp.bookStep (visible ops) ⟨direction, .empty, 0⟩).2 := by
  refine trace_refines ?_ ?_ (new_rep direction) (along_of_answers hring) hroom
  · intro op s v hrep hcap hr
    exact Agrees_observation (call_agrees hrep mode op hr hcap)
  · intro m s v hrep
    exact (maintenance_rep hrep m).1

/-- Eager and lazy stores are observably equivalent as long as the eager run never overflows
    its accrued total. -/
theorem eager_lazy_equivalent (direction : Direction) (ringEager ringLazy : Nat)
    (eager lazy : List (ClientOp ⊕ Maintenance)) (hops : visible eager = visible lazy)
    (hE : RingNeverBinds (storeRun .eager ringEager eager direction).1)
    (hL : RingNeverBinds (storeRun .lazy ringLazy lazy direction).1)
    (hfit : NoOverflow .eager ringEager eager direction) :
    (storeRun .eager ringEager eager direction).1 = (storeRun .lazy ringLazy lazy direction).1 ∧
    ∃ n m e l,
      applyPendingToAll (storeRun .eager ringEager eager direction).2 = .ok n e ∧
      applyPendingToAll (storeRun .lazy ringLazy lazy direction).2 = .ok m l ∧
      e.buckets.mapVal (fun _ b => b.forget) = l.buckets.mapVal (fun _ b => b.forget) := by
  have hroom := room_along hE hfit
  obtain ⟨hobsE, hrepE⟩ := storeRun_refines .eager hE hroom
  rw [hops] at hroom hobsE hrepE
  obtain ⟨hobsL, hrepL⟩ := storeRun_refines .lazy hL hroom
  obtain ⟨n, e, hne, hre, hce⟩ := applyPendingToAll_rep hrepE
  obtain ⟨m, l, hml, hrl, hcl⟩ := applyPendingToAll_rep hrepL
  exact ⟨hobsE.trans hobsL.symm, n, m, e, l, hne, hml,
    (hre.buckets_eq hce).trans (hrl.buckets_eq hcl).symm⟩

/-- The attributed part of the first event leaves no room for the second one. -/
def overflowOps : List (ClientOp ⊕ Maintenance) :=
  [.inl (.insertOrMerge 2 2 1 (2 ^ 128 - 2) 1 10),
    .inl (.distribute 3 ⟨2 ^ 127 - 1, by norm_num [u128Size]⟩),
    .inl (.insertOrMerge 1 1 1 (2 ^ 127 + 5) 1 10),
    .inl (.distribute 2 ⟨2 ^ 127 + 5, by norm_num [u128Size]⟩)]

/-- The eager store refuses a distribution that the lazy store takes. -/
theorem eager_lazy_differ_at_overflow :
    RingNeverBinds (storeRun .eager 10 overflowOps .long).1 ∧
    RingNeverBinds (storeRun .lazy 10
      (overflowOps.take 3 ++ [.inr (.applyPendingToBucket 2)] ++ overflowOps.drop 3) .long).1 ∧
    visible overflowOps = visible
      (overflowOps.take 3 ++ [.inr (.applyPendingToBucket 2)] ++ overflowOps.drop 3) ∧
    (storeRun .eager 10 overflowOps .long).1[3]? = some (.error .mathOverflow, 1) ∧
    (storeRun .lazy 10
      (overflowOps.take 3 ++ [.inr (.applyPendingToBucket 2)] ++ overflowOps.drop 3) .long).1[3]?
      = some (.ok (.distribution ⟨2 ^ 127 + 5, 0⟩), 2) := by
  refine ⟨?_, ?_, rfl, ?_, ?_⟩ <;> decide +kernel

/-- An up-down-up price path with compaction in one run and a replay in the other. -/
def upDownUp : List ClientOp :=
  [.insertOrMerge 80 80 100 1000 1 10, .distribute 88 ⟨60, by norm_num [u128Size]⟩,
    .insertOrMerge 80 80 50 500 1 10, .distribute 88 ⟨60, by norm_num [u128Size]⟩,
    .redeem 80 30]

theorem eager_lazy_equivalent_upDownUp :
    (storeRun .eager 10 (upDownUp.map .inl ++ [.inr .compactLedger]) .long).1
      = (storeRun .lazy 10 (.inr .applyPendingToAll :: upDownUp.map .inl) .long).1 := by
  refine (eager_lazy_equivalent .long 10 10 _ _ rfl ?_ ?_ ?_).1 <;> decide +kernel

end MoleFinance
