import MoleFinance.Engine.Frame
import MoleFinance.Engine.Exit

/-! The ledger ring. A distribution is turned away exactly when the ring is full and some bucket
has applied none of its entries, and no other part of an engine call reports a full ring. -/
namespace MoleFinance
open MoleMath Call Trace

/-! Everything but the reservation of an entry spares the capacity error. -/

section Spared

@[simp] theorem math_spares {α : Type} (x : Except MathError α) :
    Spares .ledgerCapacityExceeded (math x) := by
  cases x with
  | ok a => exact .ok a
  | error e => cases e <;> simp [math, ClearingError.ofMath]

@[simp] theorem addShare_spares (a b : Nat) : Spares .ledgerCapacityExceeded (addShare a b) := by
  simp [addShare]

@[simp] theorem nextIndex_spares (i : Nat) : Spares .ledgerCapacityExceeded (nextIndex i) := by
  simp [nextIndex]

@[simp] theorem computeIntrinsic_spares (d : Direction) (b : DormantBucket) (p : Nat) :
    Spares .ledgerCapacityExceeded (computeIntrinsic d b p) := by
  cases d with
  | long => simp [computeIntrinsic]
  | short => simp [computeIntrinsic]

@[simp] theorem outstandingClaimAt_spares (b : DormantBucket) (p : Nat) :
    Spares .ledgerCapacityExceeded (b.outstandingClaimAt p) := by
  simp [DormantBucket.outstandingClaimAt, DormantBucket.intrinsicClaimAt]

@[simp] theorem distributionShare_spares (a o t : Nat) :
    Spares .ledgerCapacityExceeded (distributionShare a o t) := by
  simp [distributionShare]

@[simp] theorem replayShare_spares (d : Direction) (b : DormantBucket) (a : Nat)
    (e : DistEntry) : Spares .ledgerCapacityExceeded (replayShare d b a e) := by
  simp [replayShare]

@[simp] theorem replayEntries_spares (d : Direction) (n : Nat) (es : List DistEntry)
    (b : DormantBucket) : SparesAt .ledgerCapacityExceeded (replayEntries d n es) b := by
  induction es generalizing n b with
  | nil => exact .pure n
  | cons e es ih => simp [replayEntries, replayEntry, ih]

@[simp] theorem mergeBucket_spares (shares notional count : Nat) (b : DormantBucket) :
    SparesAt .ledgerCapacityExceeded (mergeBucket shares notional count) b := by
  simp [mergeBucket]

@[simp] theorem burnShares_spares (shares : Nat) (b : DormantBucket) :
    Spares .ledgerCapacityExceeded (burnShares shares b) := by
  simp [burnShares]

@[simp] theorem addOutstanding_spares (buckets : BucketMap) (p t : Nat) (k : Int) :
    Spares .ledgerCapacityExceeded (addOutstanding buckets p t k) := by
  unfold addOutstanding
  cases buckets.get? k with
  | none => simp
  | some b => simp

@[simp] theorem sumOutstanding_spares (buckets : BucketMap) (p t : Nat) (keys : List Int) :
    Spares .ledgerCapacityExceeded (sumOutstanding buckets p t keys) := by
  induction keys generalizing t with
  | nil => exact .ok t
  | cons k keys ih => simp [sumOutstanding, ih]

@[simp] theorem quoteShares_spares (buckets : BucketMap) (p a t c : Nat) (keys : List Int) :
    Spares .ledgerCapacityExceeded (quoteShares buckets p a t c keys) := by
  induction keys generalizing c with
  | nil => exact .ok c
  | cons k keys ih =>
    unfold quoteShares quoteShare
    cases buckets.get? k with
    | none => simp
    | some b => simp [ih]

namespace DormantStore

@[simp] theorem applyPendingToBucket_spares (tick : Int) (s : DormantStore) :
    SparesAt .ledgerCapacityExceeded (applyPendingToBucket tick) s := by
  intro s' h
  unfold applyPendingToBucket at h
  cases hb : s.buckets.get? tick with
  | none => simp [hb] at h
  | some b =>
    simp only [hb] at h
    split_ifs at h
    · cases h
    · cases h
    cases hr : replayEntries s.direction 0
      (s.ledger.drop (b.lastAppliedIndex - s.ledgerGcOffset)) b with
    | error e b' =>
      rw [hr] at h
      cases h
      exact replayEntries_spares _ _ _ _ _ hr
    | ok delta b' =>
      rw [hr] at h
      simp only at h
      split_ifs at h
      cases hm : math (checkedAdd (s.setBucket tick b').accruedValueTotal delta) with
      | error e =>
        rw [hm] at h
        cases h
        exact math_spares _ hm
      | ok total =>
        rw [hm] at h
        cases h

@[simp] theorem onBucket_spares {α : Type} (tick : Int)
    {call : EStateM ClearingError DormantBucket α}
    (hc : ∀ b, SparesAt .ledgerCapacityExceeded call b) (s : DormantStore) :
    SparesAt .ledgerCapacityExceeded (onBucket tick call) s := by
  intro s' h
  unfold onBucket at h
  cases hb : s.buckets.get? tick with
  | none => simp [hb] at h
  | some b =>
    simp only [hb] at h
    cases hr : call b with
    | ok a b' => simp [hr] at h
    | error e b' =>
      rw [hr] at h
      cases h
      exact hc b b' hr

@[simp] theorem insertOrMerge_spares (tick : Int) (anchor shares notional count cap : Nat)
    (s : DormantStore) : SparesAt .ledgerCapacityExceeded
      (insertOrMerge tick anchor shares notional count cap) s := by
  simp [insertOrMerge]

@[simp] theorem drainBuckets_spares (keys : List Int) (s : DormantStore) :
    SparesAt .ledgerCapacityExceeded (drainBuckets keys) s := by
  induction keys generalizing s with
  | nil => exact .pure ()
  | cons k keys ih => simp [drainBuckets, ih]

@[simp] theorem drainAndSum_spares (p t : Nat) (keys : List Int) (s : DormantStore) :
    SparesAt .ledgerCapacityExceeded (drainAndSum p t keys) s := by
  induction keys generalizing t s with
  | nil => exact .pure t
  | cons k keys ih => simp [drainAndSum, ih]

@[simp] theorem attributeShares_spares (p a t index c : Nat) (keys : List Int)
    (s : DormantStore) :
    SparesAt .ledgerCapacityExceeded (attributeShares p a t index c keys) s := by
  induction keys generalizing c s with
  | nil => exact .pure c
  | cons k keys ih =>
    rw [attributeShares, SparesAt.bind_iff]
    refine ⟨?_, fun c' s' _ => ih c' s'⟩
    rw [attributeShare, SparesAt.bind_iff]
    refine ⟨.get, fun s' _ _ => ?_⟩
    cases s'.buckets.get? k with
    | none => simp
    | some b => simp

@[simp] theorem eventBy_spares (mode : DistributeMode) (p a t : Nat) (keys : List Int)
    (s : DormantStore) : SparesAt .ledgerCapacityExceeded (eventBy mode p a t keys) s := by
  cases mode with
  | eager => simp [eventBy, attributeEvent, pushEntry]
  | lazy => simp [eventBy, deferEvent, pushEntry]

@[simp] theorem redeem_spares (tick : Int) (shares : Nat) (s : DormantStore) :
    SparesAt .ledgerCapacityExceeded (redeem tick shares) s := by
  rw [redeem, SparesAt.bind_iff]
  refine ⟨applyPendingToBucket_spares tick s, fun _ s1 _ => ?_⟩
  rw [SparesAt.bind_iff]
  refine ⟨.get, fun s2 _ _ => ?_⟩
  cases s2.buckets.get? tick with
  | none => simp
  | some b => simp

@[simp] theorem sumAllocInWindow_spares (t : Nat) (es : List DistEntry) :
    Spares .ledgerCapacityExceeded (sumAllocInWindow t es) := by
  induction es generalizing t with
  | nil => exact .ok t
  | cons e es ih => simp [sumAllocInWindow, ih]

@[simp] theorem checkBuckets_spares (s : DormantStore) (t : Nat) (bs : List DormantBucket) :
    Spares .ledgerCapacityExceeded (s.checkBuckets t bs) := by
  induction bs generalizing t with
  | nil => exact .ok t
  | cons b bs ih => simp [checkBuckets, ih]

@[simp] theorem checkInvariants_spares (s : DormantStore) :
    Spares .ledgerCapacityExceeded s.checkInvariants := by
  simp [checkInvariants]

end DormantStore

@[simp] theorem checkSubpoolInvariants_spares (s : SubPool) :
    Spares .ledgerCapacityExceeded (checkSubpoolInvariants s) := by
  simp [checkSubpoolInvariants, checkZeroIff, checkRecoveryShares]

@[simp] theorem rotateIfDrained_spares (market : MarketParams) (s : SubPool)
    (envelope : PriceEnvelope) (d : Direction) :
    Spares .ledgerCapacityExceeded (rotateIfDrained market s envelope d) := by
  simp [rotateIfDrained, rotateActiveToRecovery, bucketTickOf, Side.pushRotateRecord]

@[simp] theorem syncDemands_spares (s : SubPool) (p : Nat) :
    Spares .ledgerCapacityExceeded (syncDemands s p) := by
  simp [syncDemands, DormantStore.totalOutstandingClaimAt]

@[simp] theorem syncGuards_spares (market : MarketParams) (envelope : PriceEnvelope) :
    Spares .ledgerCapacityExceeded (syncGuards market envelope) := by
  simp [syncGuards, assertSchemaVersion]

@[simp] theorem lazyMigratePosition_spares (s : SubPool) (p : Position) :
    Spares .ledgerCapacityExceeded (lazyMigratePosition s p) := by
  unfold lazyMigratePosition
  cases hr : (s.side p.direction).findRotateRecord p.activeGeneration with
  | none => simp [hr]
  | some r => simp [hr]

@[simp] theorem redeemRecovery_spares (s : SubPool) (p : Position) :
    Spares .ledgerCapacityExceeded (redeemRecovery s p) := by
  unfold redeemRecovery
  cases p.recoveryBucketTick with
  | none => simp
  | some tick => simp

@[simp] theorem settleRecovery_spares (s : SubPool) (p : Position) :
    Spares .ledgerCapacityExceeded (settleRecovery s p) := by
  simp [settleRecovery]

@[simp] theorem redeemActive_spares (s : SubPool) (p : Position) :
    Spares .ledgerCapacityExceeded (redeemActive s p) := by
  simp [redeemActive, burnActive]

@[simp] theorem forfeitActive_spares (s : SubPool) (p : Position) :
    Spares .ledgerCapacityExceeded (forfeitActive s p) := by
  simp [forfeitActive, burnActive, activeValue]

@[simp] theorem takeFee_spares (market : MarketParams) (gross : Nat) :
    Spares .ledgerCapacityExceeded (takeFee market gross) := by
  simp [takeFee]

@[simp] theorem mintShares_spares (market : MarketParams) (x : Side) (principal : Nat) :
    Spares .ledgerCapacityExceeded (mintShares market x principal) := by
  simp [mintShares]

end Spared

namespace DormantStore

/-- The ring is full and some bucket has applied none of its entries. -/
structure Stuck (m : Nat) (s : DormantStore) : Prop where
  full : m ≤ s.ledger.length
  behind : ∃ tick b, s.buckets.get? tick = some b ∧ b.lastAppliedIndex ≤ s.ledgerGcOffset

/-- Compaction frees nothing exactly when some bucket is still at the start of the window. -/
theorem watermark_le_iff {s : DormantStore} (h : s.Inv) (h0 : 0 < s.ledger.length) :
    (s.buckets.values.map (·.lastAppliedIndex)).min?.getD s.nextEventIndex ≤ s.ledgerGcOffset ↔
      ∃ tick b, s.buckets.get? tick = some b ∧ b.lastAppliedIndex ≤ s.ledgerGcOffset := by
  have hw := h.window
  cases hmin : (s.buckets.values.map (·.lastAppliedIndex)).min? with
  | none =>
    simp only [Option.getD_none]
    constructor
    · intro hle
      omega
    · rintro ⟨tick, b, hb, -⟩
      have hm : b.lastAppliedIndex ∈ s.buckets.values.map (·.lastAppliedIndex) :=
        List.mem_map_of_mem (List.mem_map.mpr ⟨(tick, b), OrdMap.get?_eq_some.mp hb, rfl⟩)
      simp [List.min?_eq_none_iff.mp hmin] at hm
  | some i =>
    obtain ⟨hi, hle⟩ := List.min?_eq_some_iff.mp hmin
    simp only [Option.getD_some]
    constructor
    · intro hg
      obtain ⟨b, hb, rfl⟩ := List.mem_map.mp hi
      obtain ⟨e, he, rfl⟩ := List.mem_map.mp hb
      exact ⟨e.1, e.2, OrdMap.get?_eq_some.mpr he, hg⟩
    · rintro ⟨tick, b, hb, hg⟩
      have hm : b.lastAppliedIndex ∈ s.buckets.values.map (·.lastAppliedIndex) :=
        List.mem_map_of_mem (List.mem_map.mpr ⟨(tick, b), OrdMap.get?_eq_some.mp hb, rfl⟩)
      exact (hle _ hm).trans hg

theorem reserveEntry_full_iff {s : DormantStore} {m : Nat} (h : s.Inv) (hm : 0 < m)
    (hl : s.ledger.length ≤ m) :
    (∃ s', reserveEntry m s = .error .ledgerCapacityExceeded s') ↔ s.Stuck m := by
  rw [reserveEntry, get_bind]
  by_cases hfull : m ≤ s.ledger.length
  · have hwater := watermark_le_iff h (hm.trans_le hfull)
    rw [if_pos hfull]
    by_cases hg : (s.buckets.values.map (·.lastAppliedIndex)).min?.getD s.nextEventIndex
        ≤ s.ledgerGcOffset
    · have hc : compactLedger s = .ok 0 s := by
        unfold compactLedger
        simp only [if_pos hg]
      rw [bind_of_ok hc, get_bind, if_pos hfull]
      exact ⟨fun _ => ⟨hfull, hwater.mp hg⟩, fun _ => ⟨s, rfl⟩⟩
    · obtain ⟨n, s1, hc, hlt⟩ : ∃ n s1, compactLedger s = .ok n s1 ∧ ¬ m ≤ s1.ledger.length := by
        unfold compactLedger
        simp only [if_neg hg]
        refine ⟨_, _, rfl, ?_⟩
        simp only [List.length_drop]
        omega
      rw [bind_of_ok hc, get_bind, if_neg hlt]
      refine ⟨fun he => ?_, fun hs => absurd (hwater.mpr hs.behind) hg⟩
      obtain ⟨_, he⟩ := he
      cases he
  · rw [if_neg hfull]
    refine ⟨fun he => ?_, fun hs => absurd hs.full hfull⟩
    obtain ⟨_, he⟩ := he
    cases he

theorem distributeBy_full_iff {mode : DistributeMode} {s : DormantStore} {p a m : Nat}
    (h : s.Inv) (hm : 0 < m) (hl : s.ledger.length ≤ m) :
    (∃ s', distributeBy mode p a m s = .error .ledgerCapacityExceeded s') ↔
      a ≠ 0 ∧ s.Stuck m := by
  have hreserve := reserveEntry_full_iff h hm hl
  have hpass : ∀ tail : StoreM DistributionReceipt,
      (∀ s1, SparesAt .ledgerCapacityExceeded tail s1) →
      ((∃ s', (reserveEntry m >>= fun _ => tail) s = .error .ledgerCapacityExceeded s') ↔
        s.Stuck m) := by
    intro tail ht
    rw [← hreserve]
    cases hr : reserveEntry m s with
    | ok u s1 =>
      rw [bind_of_ok hr]
      refine ⟨fun he => ?_, fun he => ?_⟩
      · obtain ⟨s', he⟩ := he
        exact absurd he (ht s1 s')
      · obtain ⟨s', he⟩ := he
        cases he
    | error e s1 =>
      rw [bind_of_error hr]
      simp
  by_cases ha : a = 0
  · have hok : distributeBy mode p a m s = .ok ⟨0, 0⟩ s := by
      cases mode with
      | eager => rw [distributeBy, distribute, if_pos ha]; rfl
      | lazy => rw [distributeBy, distributeLazy, if_pos ha]; rfl
    rw [hok]
    simp [ha]
  simp only [ne_eq, ha, not_false_eq_true, true_and]
  cases mode with
  | eager =>
    rw [distributeBy, distribute, if_neg ha, get_bind]
    have he : ∀ keys t s1, SparesAt .ledgerCapacityExceeded (attributeEvent p a t keys) s1 :=
      fun keys t s1 => eventBy_spares .eager p a t keys s1
    exact hpass _ (fun s1 => by simp [he])
  | lazy =>
    rw [distributeBy, distributeLazy, if_neg ha]
    have he : ∀ keys t s1, SparesAt .ledgerCapacityExceeded (deferEvent p a t keys) s1 :=
      fun keys t s1 => eventBy_spares .lazy p a t keys s1
    exact hpass _ (fun s1 => by simp [he])

end DormantStore

def Demand.recoveryPart (demand : Demand) (loserEquity : Nat) : Nat :=
  let transfer := min demand.total loserEquity
  transfer - transfer * demand.active / demand.total

theorem syncDemands_ok {s : SubPool} {p : Nat} {demands : Demand × Demand}
    (h : syncDemands s p = .ok demands) :
    (demands.1.active ≤ demands.1.total ∧ demands.1.total < u128Size) ∧
      demands.2.active ≤ demands.2.total ∧ demands.2.total < u128Size := by
  unfold syncDemands at h
  simp only [except_bind_ok] at h
  obtain ⟨_, -, _, -, _, -, _, -, _, -, _, -, l, hl, r, hr, h⟩ := h
  cases h
  obtain ⟨hlt, rfl⟩ := math_add_ok.mp hl
  obtain ⟨hrt, rfl⟩ := math_add_ok.mp hr
  exact ⟨⟨Nat.le_add_right _ _, hlt⟩, Nat.le_add_right _ _, hrt⟩

theorem transferToRecovery_full_iff {market : MarketParams} {p a : Nat} {x : Side}
    (h : x.dormant.Inv) (hm : 0 < market.maxDistributionLedgerSize)
    (hl : x.dormant.ledger.length ≤ market.maxDistributionLedgerSize) :
    transferToRecovery market p a x = .error .ledgerCapacityExceeded ↔
      a ≠ 0 ∧ x.dormant.Stuck market.maxDistributionLedgerSize := by
  unfold transferToRecovery
  by_cases ha : a = 0
  · rw [if_pos ha]
    simp [ha, pure, Except.pure]
  rw [if_neg ha, except_bind_error, commit_error, DormantStore.distributeBy_full_iff h hm hl]
  refine ⟨fun he => he.resolve_right ?_, .inl⟩
  rintro ⟨⟨dormant, r⟩, -, he⟩
  have hs : Spares .ledgerCapacityExceeded (do
      let dust ← addShare x.dust r.residual
      let inflow ← math (checkedSub a r.residual)
      return ({ x with dormant := dormant, dust := dust }, inflow, r.residual)) := by
    simp
  exact hs he

section Sync
variable {w : World} {market : MarketParams}

def SubPool.Within (m : Nat) (s : SubPool) : Prop := ∀ d, (s.side d).dormant.ledger.length ≤ m

theorem transferTo_full_iff {p : Nat} {d : Direction} {demand : Demand} (h : w.Inv)
    (hm : 0 < market.maxDistributionLedgerSize)
    (hl : w.subPool.Within market.maxDistributionLedgerSize)
    (ha : demand.active ≤ demand.total) (ht : demand.total < u128Size) :
    transferTo market w.subPool p d demand = .error .ledgerCapacityExceeded ↔
      demand.recoveryPart (w.subPool.side d.opposite).poolEquity ≠ 0 ∧
        (w.subPool.side d).dormant.Stuck market.maxDistributionLedgerSize := by
  unfold transferTo Demand.recoveryPart
  simp only
  generalize htr : min demand.total (w.subPool.side d.opposite).poolEquity = transfer
  by_cases h0 : transfer = 0
  · rw [if_pos h0]
    simp [h0, pure, Except.pure]
  have hle : transfer ≤ demand.total := htr ▸ Nat.min_le_left _ _
  have hloser : transfer ≤ (w.subPool.side d.opposite).poolEquity := htr ▸ Nat.min_le_right _ _
  have hpos : 0 < demand.total := by omega
  have hpart : transfer * demand.active / demand.total ≤ transfer := by
    rw [Nat.div_le_iff_le_mul_add_pred hpos]
    nlinarith
  have hval := h.value_lt
  have hsum : (w.subPool.side d).poolEquity + (w.subPool.side d.opposite).poolEquity
      ≤ w.subPool.value := by
    cases d <;> simp only [SubPool.side, Direction.opposite, SubPool.value, Side.value] <;> omega
  rw [if_neg h0, mulDivFloor_le ht ha hpos (by omega), math_ok_eq, ok_bind, math_sub_of hpart,
    ok_bind, math_add_of (by omega), ok_bind, math_sub_of hloser, ok_bind, except_bind_error]
  generalize hX : { w.subPool.side d with
    poolEquity := (w.subPool.side d).poolEquity + transfer * demand.active / demand.total } = x
  have hd : x.dormant = (w.subPool.side d).dormant := by rw [← hX]
  rw [transferToRecovery_full_iff (hd ▸ (h.sound d).1) hm (hd ▸ hl d), hd]
  refine ⟨fun he => he.resolve_right ?_, .inl⟩
  rintro ⟨⟨x, i, res⟩, -, he⟩
  cases he

structure StuckSync (market : MarketParams) (s : SubPool) (envelope : PriceEnvelope) : Prop where
  guards : syncGuards market envelope = .ok ()
  priced : s.lastPrice ≠ 0
  moves : envelope.pNow ≠ s.lastPrice
  near : ∃ bps, priceMoveBps s.lastPrice envelope.pNow = .ok bps ∧
    bps ≤ market.maxPriceMoveBpsPerSync
  stuck : ∃ demands, syncDemands s envelope.pNow = .ok demands ∧
    (demands.1.recoveryPart s.short.poolEquity ≠ 0 ∧
        s.long.dormant.Stuck market.maxDistributionLedgerSize ∨
      demands.1.total = 0 ∧ demands.2.recoveryPart s.long.poolEquity ≠ 0 ∧
        s.short.dormant.Stuck market.maxDistributionLedgerSize)

theorem settleDemands_full_iff {p : Nat} {demands : Demand × Demand} (h : w.Inv)
    (hm : 0 < market.maxDistributionLedgerSize)
    (hl : w.subPool.Within market.maxDistributionLedgerSize)
    (hd : syncDemands w.subPool p = .ok demands) :
    settleDemands market w.subPool p demands = .error .ledgerCapacityExceeded ↔
      demands.1.recoveryPart w.subPool.short.poolEquity ≠ 0 ∧
          w.subPool.long.dormant.Stuck market.maxDistributionLedgerSize ∨
        demands.1.total = 0 ∧ demands.2.recoveryPart w.subPool.long.poolEquity ≠ 0 ∧
          w.subPool.short.dormant.Stuck market.maxDistributionLedgerSize := by
  obtain ⟨⟨hla, hlt⟩, hsa, hst⟩ := syncDemands_ok hd
  have hlong := transferTo_full_iff (p := p) (d := .long) h hm hl hla hlt
  have hshort := transferTo_full_iff (p := p) (d := .short) h hm hl hsa hst
  have hzero : ∀ (x : Demand) e, x.total = 0 → x.recoveryPart e = 0 := by
    intro x e hx
    simp [Demand.recoveryPart, hx]
  unfold settleDemands
  by_cases h1 : 0 < demands.1.total
  · rw [if_pos h1, except_bind_error, hlong]
    constructor
    · intro he
      refine he.elim .inl fun he => ?_
      obtain ⟨⟨s, i⟩, -, he⟩ := he
      cases he
    · intro he
      exact .inl (he.resolve_right fun he => absurd he.1 (by omega))
  · have h1' : demands.1.total = 0 := by omega
    rw [if_neg h1]
    have hnot : ¬ (demands.1.recoveryPart w.subPool.short.poolEquity ≠ 0 ∧
        w.subPool.long.dormant.Stuck market.maxDistributionLedgerSize) :=
      fun hs => hs.1 (hzero _ _ h1')
    by_cases h2 : 0 < demands.2.total
    · rw [if_pos h2, except_bind_error, hshort]
      constructor
      · intro he
        refine .inr ⟨h1', he.elim id fun he => ?_⟩
        obtain ⟨⟨s, i⟩, -, he⟩ := he
        cases he
      · intro he
        exact .inl (he.resolve_left hnot).2
    · rw [if_neg h2]
      constructor
      · intro he
        cases he
      · intro he
        exact absurd (hzero _ _ (by omega)) (he.resolve_left hnot).2.1

theorem syncPool_full_iff {envelope : PriceEnvelope} (h : w.Inv)
    (hm : 0 < market.maxDistributionLedgerSize)
    (hl : w.subPool.Within market.maxDistributionLedgerSize) :
    syncPool market w.subPool envelope = .error .ledgerCapacityExceeded ↔
      StuckSync market w.subPool envelope := by
  unfold syncPool
  rw [except_bind_error]
  constructor
  · intro he
    obtain ⟨_, hg, he⟩ := he.resolve_left (syncGuards_spares market envelope)
    split_ifs at he with h0 hp
    · have hs : Spares .ledgerCapacityExceeded (do
          checkSubpoolInvariants (w.subPool.atPrice envelope)
          return (w.subPool.atPrice envelope, SyncOutcome.default)) := by simp
      exact absurd he hs
    · have hs : ∀ s : SubPool, Spares .ledgerCapacityExceeded (do
          checkSubpoolInvariants s
          return (s, SyncOutcome.default)) := by simp
      exact absurd he (hs _)
    · unfold movePrice at he
      obtain ⟨bps, hb, he⟩ := (except_bind_error.mp he).resolve_left (math_spares _)
      obtain ⟨_, hle, he⟩ := (except_bind_error.mp he).resolve_left
        (Spares.ensure_iff.mpr fun _ => by simp)
      obtain ⟨demands, hd, he⟩ := (except_bind_error.mp he).resolve_left (syncDemands_spares _ _)
      refine ⟨hg, h0, hp, ⟨bps, math_ok.mp hb, ensure_ok.mp hle⟩, demands, hd, ?_⟩
      refine (settleDemands_full_iff h hm hl hd).mp ((except_bind_error.mp he).resolve_right ?_)
      rintro ⟨⟨s1, l, r⟩, -, he⟩
      revert he
      change Spares ClearingError.ledgerCapacityExceeded _
      simp
  · rintro ⟨hg, h0, hp, ⟨bps, hb, hle⟩, demands, hd, hs⟩
    refine .inr ⟨(), hg, ?_⟩
    rw [if_neg h0, if_neg hp, movePrice, hb, math_ok_eq, ok_bind, ensure_of hle, ok_bind, hd,
      ok_bind, (settleDemands_full_iff h hm hl hd).mpr hs]
    rfl

end Sync

section Calls
variable {market : MarketParams} {s : SubPool} {envelope : PriceEnvelope} {p : Position}

theorem bind_full_iff {α β : Type} {x : Except ClearingError α} {f : α → Except ClearingError β}
    (hf : ∀ a, Spares .ledgerCapacityExceeded (f a)) :
    (x >>= f) = .error .ledgerCapacityExceeded ↔ x = .error .ledgerCapacityExceeded := by
  rw [except_bind_error]
  refine ⟨fun he => he.resolve_right ?_, .inl⟩
  rintro ⟨a, -, he⟩
  exact hf a he

theorem ensure_full_iff {α : Type} {c : Prop} [Decidable c] {e : ClearingError}
    {f : Unit → Except ClearingError α} (he : e ≠ .ledgerCapacityExceeded) :
    (ensure c e >>= f) = .error .ledgerCapacityExceeded ↔
      c ∧ f () = .error .ledgerCapacityExceeded := by
  by_cases hc : c
  · rw [ensure_of hc]
    simp [hc]
  · rw [ensure_not hc]
    simp [hc, he]

theorem syncPool_full_schema
    (h : syncPool market s envelope = .error .ledgerCapacityExceeded) :
    market.schemaVersion = schemaVersionCurrent := by
  unfold syncPool at h
  obtain ⟨_, hg, -⟩ := (except_bind_error.mp h).resolve_left (syncGuards_spares market envelope)
  obtain ⟨_, hg, -⟩ := except_bind_ok.mp hg
  exact ensure_ok.mp hg

theorem openPosition_full_iff {d : Direction} {gross id : Nat} :
    openPosition market s envelope d gross id = .error .ledgerCapacityExceeded ↔
      market.frozenNewPosition = false ∧
        syncPool market s envelope = .error .ledgerCapacityExceeded := by
  unfold openPosition assertSchemaVersion
  rw [ensure_full_iff (by simp), ensure_full_iff (by simp), bind_full_iff (fun r => by simp)]
  exact ⟨And.right, fun h => ⟨syncPool_full_schema h.2, h⟩⟩

theorem closePosition_full_iff :
    closePosition market s envelope p = .error .ledgerCapacityExceeded ↔
      p.schemaVersion = market.schemaVersion ∧ (p.status = .open ∨ p.status = .dormant) ∧
        syncPool market s envelope = .error .ledgerCapacityExceeded := by
  unfold closePosition assertSchemaVersion
  rw [ensure_full_iff (by simp), ensure_full_iff (by simp), ensure_full_iff (by simp),
    bind_full_iff (fun r => by simp)]
  exact ⟨And.right, fun h => ⟨syncPool_full_schema h.2.2, h⟩⟩

theorem forceClose_full_iff {ack : Bool} :
    forceCloseZeroValuePosition market s envelope p ack = .error .ledgerCapacityExceeded ↔
      p.schemaVersion = market.schemaVersion ∧ ack = true ∧ p.status ≠ .closed ∧
        syncPool market s envelope = .error .ledgerCapacityExceeded := by
  unfold forceCloseZeroValuePosition assertSchemaVersion
  rw [ensure_full_iff (by simp), ensure_full_iff (by simp), ensure_full_iff (by simp),
    ensure_full_iff (by simp), bind_full_iff (fun r => by simp [addDust])]
  exact ⟨And.right, fun h => ⟨syncPool_full_schema h.2.2.2, h⟩⟩

theorem claim_full_iff :
    claimDormantRecovery market s envelope p = .error .ledgerCapacityExceeded ↔
      p.schemaVersion = market.schemaVersion ∧
        syncPool market s envelope = .error .ledgerCapacityExceeded := by
  unfold claimDormantRecovery assertSchemaVersion
  rw [ensure_full_iff (by simp), ensure_full_iff (by simp), bind_full_iff (fun r => by simp)]
  exact ⟨And.right, fun h => ⟨syncPool_full_schema h.2, h⟩⟩

theorem harvest_spares (d : Direction) :
    Spares .ledgerCapacityExceeded (harvestDust market s d) := by
  simp [harvestDust, assertSchemaVersion]

theorem preSync_spares (d : Direction) (tick : Int) (slot : Nat) :
    Spares .ledgerCapacityExceeded (preSyncDormantBucket market s d tick slot) := by
  have hget : ∀ store : DormantStore, Spares .ledgerCapacityExceeded (getBucket store tick) := by
    intro store
    unfold getBucket
    cases store.get tick with
    | none => simp
    | some b => simp
  simp [preSyncDormantBucket, assertSchemaVersion, backlog, hget]

end Calls

namespace EngineOp

def quote? (market : MarketParams) (w : World) : EngineOp → Option PriceEnvelope
  | .sync envelope => some envelope
  | .open envelope _ _ id =>
    if w.positions.contains id = true ∨ market.frozenNewPosition = true then none
    else some envelope
  | .close envelope id => (w.positions.get? id).bind fun p =>
    if p.schemaVersion = market.schemaVersion ∧ (p.status = .open ∨ p.status = .dormant)
    then some envelope else none
  | .forceClose envelope id acknowledgeForfeit => (w.positions.get? id).bind fun p =>
    if p.schemaVersion = market.schemaVersion ∧ acknowledgeForfeit = true ∧ p.status ≠ .closed
    then some envelope else none
  | .claim envelope id => (w.positions.get? id).bind fun p =>
    if p.schemaVersion = market.schemaVersion then some envelope else none
  | .harvest _ => none
  | .preSync _ _ _ => none

def Stuck (market : MarketParams) (op : EngineOp) (w : World) : Prop :=
  ∃ envelope, op.quote? market w = some envelope ∧ StuckSync market w.subPool envelope

theorem call_full_iff {market : MarketParams} {op : EngineOp} {w : World} (h : w.Inv)
    (hm : 0 < market.maxDistributionLedgerSize)
    (hl : w.subPool.Within market.maxDistributionLedgerSize) :
    op.call market w = some (.error .ledgerCapacityExceeded) ↔ op.Stuck market w := by
  have hsync : ∀ envelope,
      syncPool market w.subPool envelope = .error .ledgerCapacityExceeded ↔
        StuckSync market w.subPool envelope := fun _ => syncPool_full_iff h hm hl
  have hcond : ∀ (c : Prop) [Decidable c] (envelope : PriceEnvelope),
      (∃ e, (if c then some envelope else none) = some e ∧ StuckSync market w.subPool e) ↔
        c ∧ StuckSync market w.subPool envelope := by
    intro c _ envelope
    by_cases hc : c
    · simp [hc]
    · simp [hc]
  cases op with
  | sync envelope =>
    simp [EngineOp.call, Stuck, quote?, except_map_error, hsync]
  | «open» envelope d gross id =>
    by_cases hk : w.positions.contains id = true
    · simp [EngineOp.call, Stuck, quote?, hk]
    · simp only [EngineOp.call, Stuck, quote?, if_neg hk, Option.some.injEq, except_map_error,
        openPosition_full_iff, hsync]
      cases hf : market.frozenNewPosition with
      | false => simp [hk]
      | true => simp
  | close envelope id =>
    cases hp : w.positions.get? id with
    | none => simp [EngineOp.call, Stuck, quote?, hp]
    | some p =>
      simp only [EngineOp.call, Stuck, quote?, hp, Option.map_some, Option.some.injEq,
        except_map_error, closePosition_full_iff, hsync, Option.bind_some, hcond, and_assoc]
  | forceClose envelope id ack =>
    cases hp : w.positions.get? id with
    | none => simp [EngineOp.call, Stuck, quote?, hp]
    | some p =>
      simp only [EngineOp.call, Stuck, quote?, hp, Option.map_some, Option.some.injEq,
        except_map_error, forceClose_full_iff, hsync, Option.bind_some, hcond, and_assoc]
  | claim envelope id =>
    cases hp : w.positions.get? id with
    | none => simp [EngineOp.call, Stuck, quote?, hp]
    | some p =>
      simp only [EngineOp.call, Stuck, quote?, hp, Option.map_some, Option.some.injEq,
        except_map_error, claim_full_iff, hsync, Option.bind_some, hcond]
  | harvest d =>
    have hs : ¬ harvestDust market w.subPool d = .error .ledgerCapacityExceeded := harvest_spares d
    simp only [EngineOp.call, Stuck, quote?, except_map_error, Option.some.injEq]
    simpa using hs
  | preSync d tick slot =>
    have hs : ¬ preSyncDormantBucket market w.subPool d tick slot
        = .error .ledgerCapacityExceeded := preSync_spares d tick slot
    simp only [EngineOp.call, Stuck, quote?, except_map_error, Option.some.injEq]
    simpa using hs

theorem call_framed {market : MarketParams} {op : EngineOp} {w w' : World} {reply : Reply}
    (hr : op.call market w = some (.ok (w', reply))) :
    w.subPool.Framed market.maxDistributionLedgerSize w'.subPool := by
  cases op with
  | sync envelope =>
    obtain ⟨⟨s, out⟩, hs, he⟩ := except_map_ok.mp (Option.some.inj hr)
    cases he
    exact syncPool_framed hs
  | «open» envelope d gross id =>
    simp only [EngineOp.call] at hr
    split_ifs at hr with hk
    obtain ⟨⟨s, p, out⟩, hs, he⟩ := except_map_ok.mp (Option.some.inj hr)
    cases he
    exact openPosition_framed hs
  | close envelope k =>
    obtain ⟨p, hk, hr⟩ := Option.map_eq_some_iff.mp hr
    obtain ⟨⟨s, p', out⟩, hs, he⟩ := except_map_ok.mp hr
    cases he
    exact closePosition_framed hs
  | forceClose envelope k ack =>
    obtain ⟨p, hk, hr⟩ := Option.map_eq_some_iff.mp hr
    obtain ⟨⟨s, p', out⟩, hs, he⟩ := except_map_ok.mp hr
    cases he
    exact forceClose_framed hs
  | claim envelope k =>
    obtain ⟨p, hk, hr⟩ := Option.map_eq_some_iff.mp hr
    obtain ⟨⟨s, p', out⟩, hs, he⟩ := except_map_ok.mp hr
    cases he
    exact claim_framed hs
  | harvest d =>
    obtain ⟨⟨s, out⟩, hs, he⟩ := except_map_ok.mp (Option.some.inj hr)
    cases he
    exact harvest_framed hs
  | preSync d tick slot =>
    obtain ⟨⟨s, out⟩, hs, he⟩ := except_map_ok.mp (Option.some.inj hr)
    cases he
    exact preSync_framed hs

end EngineOp

/-- What holds along the run of one market: the engine invariant, and room in both rings. -/
structure World.InRing (market : MarketParams) (w : World) : Prop where
  inv : w.Inv
  within : w.subPool.Within market.maxDistributionLedgerSize

theorem World.InRing.step {market : MarketParams} {w : World} (h : w.InRing market)
    (op : EngineOp) : (EngineOp.step (market, op) w).2.InRing market := by
  unfold EngineOp.step
  cases hc : op.call market w with
  | none => exact h
  | some r =>
    cases r with
    | error e => exact h
    | ok wr =>
      exact ⟨World.step_inv h.inv hc,
        fun d => ((EngineOp.call_framed hc).sides d).length_le (h.within d)⟩

theorem World.new_inRing (market : MarketParams) (id : Nat) (price : U64) (slot : Nat) :
    (World.new id price slot).InRing market := by
  refine ⟨World.new_inv id price slot, fun d => ?_⟩
  simp [World.new, Side.new, DormantStore.new]

theorem step_full_iff {market : MarketParams} {op : EngineOp} {w : World}
    (hm : 0 < market.maxDistributionLedgerSize) (h : w.InRing market) :
    (EngineOp.step (market, op) w).1 = .failed .ledgerCapacityExceeded ↔ op.Stuck market w := by
  rw [← EngineOp.call_full_iff h.inv hm h.within, EngineOp.step]
  cases hc : op.call market w with
  | none => simp
  | some r =>
    cases r with
    | error e => simp
    | ok wr => simp

/-- A run of one market, in either mode, is free of capacity errors exactly when no call of it
    reaches a stuck sync. -/
theorem no_capacity_error_iff (market : MarketParams) (hm : 1 ≤ market.maxDistributionLedgerSize)
    (id : Nat) (price : U64) (slot : Nat) (ops : List EngineOp) :
    (∀ answer ∈ (run (fun op => EngineOp.step (market, op)) ops (World.new id price slot)).1,
      answer ≠ .failed .ledgerCapacityExceeded) ↔
    AlongRun (fun op => EngineOp.step (market, op)) (fun op w => ¬ op.Stuck market w) ops
      (World.new id price slot) := by
  rw [answers_iff_along]
  refine alongRun_congr (I := (World.InRing market)) ?_ ?_ (World.new_inRing market id price slot)
  · intro op w h
    exact h.step op
  · intro op w h
    rw [ne_eq, step_full_iff hm h]

def tinyRing : MarketParams := { smallMarket .eager with maxDistributionLedgerSize := 1 }

/-- Two long buckets; the price recovers twice between their anchors and never activates the
    upper one. -/
def skippedBucket : List EngineOp :=
  [.open (quoteAt (amount 100)) .long (amount 100) (amount 1),
    .open (quoteAt (amount 100)) .short (amount 300) (amount 2), .sync (quoteAt (amount 90)),
    .open (quoteAt (amount 90)) .long (amount 100) (amount 3), .sync (quoteAt (amount 80)),
    .sync (quoteAt (amount 84)), .sync (quoteAt (amount 88))]

theorem skippedBucket_first_calls :
    AlongRun (fun op => EngineOp.step (tinyRing, op)) (fun op w => ¬ op.Stuck tinyRing w)
      (skippedBucket.take 6) (World.new 0 (amount 0) 0) :=
  (no_capacity_error_iff tinyRing (by decide) 0 (amount 0) 0 (skippedBucket.take 6)).mp
    (by decide +kernel)

theorem skippedBucket_fills_ring :
    tinyRing.dormantDistributeMode = .eager ∧ 1 ≤ tinyRing.maxDistributionLedgerSize ∧
    (∀ op ∈ skippedBucket, ∀ d tick slot, op ≠ .preSync d tick slot) ∧
    ¬ ∀ answer ∈ (run (fun op => EngineOp.step (tinyRing, op)) skippedBucket
        (World.new 0 (amount 0) 0)).1, answer ≠ .failed .ledgerCapacityExceeded :=
  ⟨rfl, by decide, by simp [skippedBucket], by decide +kernel⟩

end MoleFinance
