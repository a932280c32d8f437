import MoleFinance.Engine.Ring
import MoleFinance.Dormant.Claims

/-! Syncs that cannot fail inside. On a reached sub-pool whose figures fit their words, a sync at
an admissible price returns, or is turned away by one of the two capacity limits. -/
namespace MoleFinance
open MoleMath Call

theorem World.Reached.anchored {w : World} (h : w.Reached) (d : Direction) :
    (w.subPool.side d).dormant.Anchored := by
  refine World.Reached.induct (I := fun w => ∀ d, (w.subPool.side d).dormant.Anchored) ?_ ?_ h d
  · intro id price slot d tick b hb
    simp only [World.new, SubPool.side_new] at hb
    cases hb
  · intro market op w w' reply hw hc d
    exact ((EngineOp.call_framed hc).sides d).anchored (hw d)

def priceDistance (pLast pNow : Nat) : Nat := if pLast ≤ pNow then pNow - pLast else pLast - pNow

def DormantStore.AllBuckets (s : DormantStore) (P : DormantBucket → Prop) : Prop :=
  ∀ tick b, s.get tick = some b → P b

instance (s : DormantStore) (P : DormantBucket → Prop) [DecidablePred P] :
    Decidable (s.AllBuckets P) :=
  decidable_of_iff (∀ e ∈ s.buckets.entries, P e.2)
    ⟨fun h tick b hb => h (tick, b) (OrdMap.get?_eq_some.mp hb),
      fun h e he => h e.1 e.2 (OrdMap.get?_eq_some.mpr he)⟩

/-- The figures of a sub-pool fit their words at the last price and at the price of a quote. -/
structure SyncBounds (s : SubPool) (pNow : Nat) : Prop where
  notional : ∀ d, ∀ p ∈ [s.lastPrice, pNow], (s.side d).activeNotional * p < u128Size
  bucketNotional : ∀ d, ∀ p ∈ [s.lastPrice, pNow],
    (s.side d).dormant.AllBuckets (fun b => b.totalRecoveryNotional * p < u128Size)
  activeClaim : ∀ d,
    (s.side d).activeNotional * priceDistance s.lastPrice pNow / s.lastPrice < i128Bound
  claims : ∀ d, ∀ p ∈ [s.lastPrice, pNow], (s.side d).dormant.claims p < i128Bound
  shares : ∀ d, (s.side d).activeShares + (s.side d).recoveryShares < u128Size
  generation : ∀ d, (s.side d).activeGeneration < u64Size - 1
  eventIndex : ∀ d, (s.side d).dormant.nextEventIndex < u64Size - 1
  positionCount : ∀ d, (s.side d).dormant.AllBuckets (fun b => b.positionCount < u64Size - 1)

theorem i128_add_lt {a b : Nat} (ha : a < i128Bound) (hb : b < i128Bound) : a + b < u128Size := by
  unfold i128Bound at ha hb
  unfold u128Size
  omega

theorem i128_lt {a : Nat} (ha : a < i128Bound) : a < u128Size := by
  have := i128_add_lt ha ha
  omega

theorem signedPnlIncrement_of {d : Direction} {n pLast pNow : Nat} (hp : pLast ≠ 0)
    (hl : pLast < u64Size) (hc : n * priceDistance pLast pNow / pLast < i128Bound) :
    ∃ pnl, signedPnlIncrement d.sign n pLast pNow = .ok pnl ∧
      pnl.toNat ≤ n * priceDistance pLast pNow / pLast := by
  have hlt : pLast < u128Size := by
    unfold u64Size at hl
    unfold u128Size
    omega
  have hmul : mulDivFloor n (priceDistance pLast pNow) pLast
      = .ok (n * priceDistance pLast pNow / pLast) := by
    rw [mulDivFloor_eq hlt, if_neg hp, if_pos (i128_lt hc)]
  unfold signedPnlIncrement
  rw [ensure_of hp, ok_bind]
  unfold priceDistance at hmul hc ⊢
  simp only
  rw [hmul, ok_bind, ensure_of hc, ok_bind]
  generalize n * (if pLast ≤ pNow then pNow - pLast else pLast - pNow) / pLast = claim
  generalize (if pLast ≤ pNow then (1 : Int) else -1) * d.sign = sign
  by_cases h0 : sign = 0 ∨ claim = 0
  · exact ⟨0, if_pos h0, Nat.zero_le _⟩
  rw [if_neg h0]
  by_cases hpos : 0 < sign
  · exact ⟨claim, if_pos hpos, by simp⟩
  · exact ⟨-claim, if_neg hpos, by simp⟩

section Sync
variable {w : World} {market : MarketParams} {s : SubPool}

theorem syncDemands_of {pNow : Nat} (ha : ∀ d, (s.side d).dormant.Anchored)
    (hb : SyncBounds s pNow) (hp : s.lastPrice ≠ 0) (hl : s.lastPrice < u64Size) :
    ∃ demands, syncDemands s pNow = .ok demands := by
  have hmem : s.lastPrice ∈ [s.lastPrice, pNow] := List.mem_cons_self
  have hmem' : pNow ∈ [s.lastPrice, pNow] := List.mem_cons_of_mem _ List.mem_cons_self
  have hpre := fun d => DormantStore.totalOutstandingClaimAt_of (ha d)
    (i128_lt (hb.claims d _ hmem))
  have hpost := fun d => DormantStore.totalOutstandingClaimAt_of (ha d)
    (i128_lt (hb.claims d _ hmem'))
  have hpnl := fun d => signedPnlIncrement_of (d := d) hp hl (hb.activeClaim d)
  obtain ⟨preLong, h1, -⟩ := hpre .long
  obtain ⟨preShort, h2, -⟩ := hpre .short
  obtain ⟨longPnl, h3, hle3⟩ := hpnl .long
  obtain ⟨shortPnl, h4, hle4⟩ := hpnl .short
  obtain ⟨postLong, h5, hle5⟩ := hpost .long
  obtain ⟨postShort, h6, hle6⟩ := hpost .short
  have hlong : longPnl.toNat + (postLong - preLong) < u128Size := by
    have hc := i128_add_lt (hb.activeClaim .long) (hb.claims .long _ hmem')
    omega
  have hshort : shortPnl.toNat + (postShort - preShort) < u128Size := by
    have hc := i128_add_lt (hb.activeClaim .short) (hb.claims .short _ hmem')
    omega
  simp only [SubPool.side] at h1 h2 h3 h4 h5 h6
  unfold syncDemands
  simp only
  rw [h1, ok_bind, h2, ok_bind, h3, math_ok_eq, ok_bind, h4, math_ok_eq, ok_bind, h5, ok_bind,
    h6, ok_bind, math_add_of hlong, ok_bind, math_add_of hshort, ok_bind]
  exact ⟨_, rfl⟩

structure SyncReady (w : World) (pNow : Nat) : Prop where
  inv : w.Inv
  anchored : ∀ d, (w.subPool.side d).dormant.Anchored
  bounds : SyncBounds w.subPool pNow

theorem transferTo_of (market : MarketParams) {p : Nat} {d : Direction} {demand : Demand}
    (h : SyncReady w p)
    (ha : demand.active ≤ demand.total) (ht : demand.total < u128Size) :
    (∃ s i, transferTo market w.subPool p d demand = .ok (s, i)) ∨
      transferTo market w.subPool p d demand = .error .ledgerCapacityExceeded := by
  unfold transferTo
  simp only
  generalize htr : min demand.total (w.subPool.side d.opposite).poolEquity = transfer
  by_cases h0 : transfer = 0
  · rw [if_pos h0]
    exact .inl ⟨_, _, rfl⟩
  have hle : transfer ≤ demand.total := htr ▸ Nat.min_le_left _ _
  have hloser : transfer ≤ (w.subPool.side d.opposite).poolEquity := htr ▸ Nat.min_le_right _ _
  have hpos : 0 < demand.total := by omega
  have hpart : transfer * demand.active / demand.total ≤ transfer := by
    rw [Nat.div_le_iff_le_mul_add_pred hpos]
    nlinarith
  have hval := h.inv.value_lt
  have hsum : (w.subPool.side d).value + (w.subPool.side d.opposite).poolEquity
      ≤ w.subPool.value := by
    cases d <;> simp only [SubPool.side, Direction.opposite, SubPool.value, Side.value] <;> omega
  simp only [Side.value, DormantStore.funds] at hsum
  rw [if_neg h0, mulDivFloor_le ht ha hpos (by omega), math_ok_eq, ok_bind, math_sub_of hpart,
    ok_bind, math_add_of (by omega), ok_bind, math_sub_of hloser, ok_bind]
  generalize transfer * demand.active / demand.total = toActive at *
  unfold transferToRecovery
  by_cases hr : transfer - toActive = 0
  · rw [if_pos hr]
    exact .inl ⟨_, _, rfl⟩
  rw [if_neg hr]
  have hmem : p ∈ [w.subPool.lastPrice, p] := List.mem_cons_of_mem _ List.mem_cons_self
  have hnext := h.bounds.eventIndex d
  have hroom : (w.subPool.side d).dormant.accruedValueTotal
      + (w.subPool.side d).dormant.pendingDistributionTotal + (transfer - toActive) < u128Size := by
    omega
  obtain ⟨r, store, hd, hres⟩ | ⟨store, hd⟩ := DormantStore.distributeBy_of
    market.dormantDistributeMode market.maxDistributionLedgerSize
    (h.inv.sound d).1 (h.anchored d) (i128_lt (h.bounds.claims d p hmem)) hroom (by omega)
  · refine .inl ?_
    rw [commit_ok.mpr hd, ok_bind]
    simp only
    rw [addShare_of (.inr (by omega)), ok_bind, math_sub_of hres, ok_bind]
    exact ⟨_, _, rfl⟩
  · refine .inr ?_
    rw [commit_error.mpr ⟨store, hd⟩]
    rfl

theorem settleDemands_of (market : MarketParams) {p : Nat} {demands : Demand × Demand}
    (h : SyncReady w p)
    (hd : syncDemands w.subPool p = .ok demands) :
    (∃ s l r, settleDemands market w.subPool p demands = .ok (s, l, r)) ∨
      settleDemands market w.subPool p demands = .error .ledgerCapacityExceeded := by
  obtain ⟨⟨hla, hlt⟩, hsa, hst⟩ := syncDemands_ok hd
  unfold settleDemands
  split_ifs
  · obtain ⟨s, i, ht⟩ | ht := transferTo_of market (d := .long) h hla hlt
    · rw [ht]
      exact .inl ⟨_, _, _, rfl⟩
    · rw [ht]
      exact .inr rfl
  · obtain ⟨s, i, ht⟩ | ht := transferTo_of market (d := .short) h hsa hst
    · rw [ht]
      exact .inl ⟨_, _, _, rfl⟩
    · rw [ht]
      exact .inr rfl
  · exact .inl ⟨_, _, _, rfl⟩

end Sync

theorem mergeBucket_of (shares notional count : Nat) {b : DormantBucket}
    (hs : b.totalRecoveryShares + shares < u128Size)
    (hn : b.totalRecoveryNotional + notional < u128Size)
    (hc : b.positionCount + count < u64Size) :
    ∃ b', mergeBucket shares notional count b = .ok () b' := by
  rw [mergeBucket, get_bind, math_add_of hs, orFail_ok_bind, set_bind, math_add_of hn,
    orFail_ok_bind, set_bind, ensure_of hc]
  exact ⟨_, rfl⟩

namespace DormantStore

theorem Upkeep.profiles_eq {s s' : DormantStore} (h : s.Upkeep s') :
    s'.profiles = s.profiles := by
  have hh : ∀ t : DormantStore, t.view.mapVal (fun _ b => b.profile) = t.profiles := by
    intro t
    apply OrdMap.ext_get?
    intro k
    simp only [view, profiles, OrdMap.get?_mapVal, Option.map_map]
    rfl
  rw [← hh s', h.view_eq, hh s]

theorem get_of_profiles {s s' : DormantStore} {tick : Int} {b : DormantBucket}
    (h : s'.profiles = s.profiles) (hb : s'.get tick = some b) :
    ∃ b0, s.get tick = some b0 ∧ b.profile = b0.profile := by
  have hp := congrArg (fun m : BucketMap => m.get? tick) h
  simp only [profiles_get?] at hp
  rw [show s'.buckets.get? tick = some b from hb, Option.map_some] at hp
  obtain ⟨b0, hb0, he⟩ := Option.map_eq_some_iff.mp hp.symm
  exact ⟨b0, hb0, he.symm⟩

theorem insertOrMerge_of {s : DormantStore} {tick : Int} {shares notional count : Nat}
    (anchor cap : Nat)
    (hi : s.Inv) (hf : s.Bounded) (hs : s.holdings.total + shares < u128Size)
    (hn : ∀ b, s.get tick = some b → b.totalRecoveryNotional + notional < u128Size)
    (hc : ∀ b, s.get tick = some b → b.positionCount + count < u64Size) :
    (∃ s', insertOrMerge tick anchor shares notional count cap s = .ok () s') ∨
      ∃ s', insertOrMerge tick anchor shares notional count cap s
        = .error .dormantBucketCapExceeded s' := by
  have hd := insertOrMerge_cases hi tick anchor shares notional count cap
  cases hr : insertOrMerge tick anchor shares notional count cap s with
  | ok u s' => exact .inl ⟨s', rfl⟩
  | error e s' =>
    rw [hr] at hd
    cases hd with
    | capped _ _ => exact .inr ⟨_, rfl⟩
    | tooMuch _ hb => exact absurd hf hb
    | mergeFailed s1 b b' _ hu _ hb hm =>
      exfalso
      obtain ⟨b0, hb0, he⟩ := get_of_profiles hu.profiles_eq hb
      have h1 := congrArg DormantBucket.totalRecoveryShares he
      have h2 := congrArg DormantBucket.totalRecoveryNotional he
      have h3 := congrArg DormantBucket.positionCount he
      simp only [DormantBucket.profile] at h1 h2 h3
      have hle := Holdings.sharesAt_le_total s.holdings tick
      have hg : s.holdings.get? tick = some b0.holding := by
        rw [holdings_get?, show s.buckets.get? tick = some b0 from hb0]
        rfl
      rw [Holdings.sharesAt_some hg] at hle
      simp only [DormantBucket.holding] at hle
      have hn0 := hn b0 hb0
      have hc0 := hc b0 hb0
      obtain ⟨b'', hok⟩ := mergeBucket_of shares notional count (b := b)
        (by omega) (by omega) (by omega)
      rw [hok] at hm
      cases hm

end DormantStore

structure Side.CanRotate (x : Side) : Prop where
  inv : x.dormant.Inv
  bounded : x.dormant.Bounded
  total : x.recoveryShares = x.dormant.holdings.total
  shares : x.recoveryShares + x.activeShares < u128Size
  generation : x.activeGeneration + 1 < u64Size
  notional : ∀ tick b, x.dormant.get tick = some b →
    b.totalRecoveryNotional + x.activeNotional < u128Size
  positionCount : ∀ tick b, x.dormant.get tick = some b → b.positionCount + 1 < u64Size

theorem rotateIfDrained_of {market : MarketParams} {s : SubPool} (envelope : PriceEnvelope)
    {d : Direction} (htick : 0 < market.priceTick) (hfactor : 0 < market.tickAggregationFactor)
    (h : (s.side d).CanRotate) :
    (∃ s' ev, rotateIfDrained market s envelope d = .ok (s', ev)) ∨
      rotateIfDrained market s envelope d = .error .dormantBucketCapExceeded := by
  have ht : ¬ (market.priceTick = 0 ∨ market.tickAggregationFactor = 0) := by omega
  have htick : ∃ tick, bucketTickOf market envelope.pNow = .ok tick := by
    rw [bucketTickOf, ensure_of ht]
    exact ⟨_, rfl⟩
  obtain ⟨tick, htick⟩ := htick
  unfold rotateIfDrained rotateActiveToRecovery
  simp only
  by_cases hc : (s.side d).poolEquity = 0 ∧ 0 < (s.side d).activeShares
  · rw [if_pos hc, if_neg hc.2.ne', htick, ok_bind, ok_bind]
    have htot := h.total
    have hsh := h.shares
    obtain ⟨store, hi⟩ | ⟨store, hi⟩ := DormantStore.insertOrMerge_of envelope.pNow
      market.maxDormantBucketCountPerDirection h.inv h.bounded
      (show (s.side d).dormant.holdings.total + (s.side d).activeShares < u128Size by omega)
      (h.notional tick) (h.positionCount tick)
    · rw [commit_ok.mpr hi, ok_bind]
      simp only
      rw [math_add_of hsh, ok_bind, Side.pushRotateRecord]
      simp only
      rw [ensure_of h.generation]
      exact .inl ⟨_, _, rfl⟩
    · rw [commit_error.mpr ⟨store, hi⟩]
      exact .inr rfl
  · rw [if_neg hc]
    exact .inl ⟨_, _, rfl⟩

/-! The state between the transfer and the rotations. -/

/-- A transfer leaves shares, notionals and bucket profiles alone, and an empty side empty. -/
structure Side.Settled (x x' : Side) : Prop where
  same : SameShares x x'
  profiles : x'.dormant.profiles = x.dormant.profiles
  empty : x.activeShares = 0 → x'.poolEquity = 0

theorem Attributed.notional_of_no_shares {d : Direction} {x : Side} {ps : Positions}
    (h : Attributed d x ps) (h0 : x.activeShares = 0) : x.activeNotional = 0 := by
  rw [h.notional]
  refine sumOn_zero fun k p hk hd => ?_
  have hle := le_sumOn x.activeOf hk hd
  rw [← h.shares, h0] at hle
  refine if_neg fun hc => ?_
  rw [Side.activeOf, if_pos hc.1] at hle
  exact hc.2 (Nat.le_zero.mp hle)

theorem syncDemands_no_notional {s : SubPool} {p : Nat} {demands : Demand × Demand}
    (h : syncDemands s p = .ok demands) (hl : s.lastPrice ≠ 0) :
    (s.long.activeNotional = 0 → demands.1.active = 0) ∧
      (s.short.activeNotional = 0 → demands.2.active = 0) := by
  have hzero : ∀ d n pnl, signedPnlIncrement d n s.lastPrice p = .ok pnl → n = 0 →
      pnl.toNat = 0 := by
    intro d n pnl hp hn
    unfold signedPnlIncrement at hp
    rw [ensure_of hl, ok_bind, hn] at hp
    simp only [mulDivFloor_zero (Nat.pos_of_ne_zero hl), ok_bind] at hp
    obtain ⟨_, -, hp⟩ := except_bind_ok.mp hp
    rw [if_pos (by simp)] at hp
    cases hp
    rfl
  unfold syncDemands at h
  simp only [except_bind_ok, math_ok] at h
  obtain ⟨_, -, _, -, l, hl', r, hr', _, -, _, -, _, -, _, -, h⟩ := h
  cases h
  exact ⟨hzero _ _ l hl', hzero _ _ r hr'⟩

section Settle
variable {w : World} {market : MarketParams} {s : SubPool}

theorem transferToRecovery_profiles {p a inflow residual : Nat} {x x' : Side}
    (h : transferToRecovery market p a x = .ok (x', inflow, residual)) :
    x'.dormant.profiles = x.dormant.profiles := by
  cases transferToRecovery_ok h with
  | inl h =>
    obtain ⟨-, rfl, -, -⟩ := h
    rfl
  | inr h =>
    obtain ⟨dormant, r, -, hr, rfl, -, -⟩ := h
    exact (DormantStore.distributeBy_framed hr).profiles_eq

theorem transferTo_settled {p : Nat} {d : Direction} {demand : Demand} {inflow : Inflow}
    (h : w.Inv) (hd : (w.subPool.side d).activeShares = 0 → demand.active = 0)
    (hr : transferTo market w.subPool p d demand = .ok (s, inflow)) (e : Direction) :
    (w.subPool.side e).Settled (s.side e) := by
  have hz := h.zeroIff
  cases transferTo_ok hr with
  | inl hr =>
    obtain ⟨-, rfl, -⟩ := hr
    exact ⟨.refl _, rfl, (hz e).mpr⟩
  | inr hr =>
    obtain ⟨t, a, x, ht, ht0, ha, -, -, hx, -, rfl⟩ := hr
    have hxs := transferToRecovery_same hx (h.sound d).1
    have hsame : SameShares (w.subPool.side d) x :=
      ⟨hxs.log, hxs.generation, hxs.shares, hxs.notional, hxs.recovery, hxs.holdings⟩
    have hprof := transferToRecovery_profiles hx
    have hequity : x.poolEquity = (w.subPool.side d).poolEquity + a :=
      (transferToRecovery_effect hx (h.sound d).1).2.2.1
    by_cases he : e = d
    · rw [he, SubPool.side_setSide_of_ne _ _ (Direction.opposite_ne d).symm,
        SubPool.side_setSide]
      have hempty : (w.subPool.side d).activeShares = 0 → x.poolEquity = 0 := by
        intro h0
        rw [hd h0] at ha
        unfold mulDivFloor fullMulDiv at ha
        split_ifs at ha
        · cases ha
          rw [hequity, (hz d).mpr h0]
        · simp_all
      exact ⟨hsame, hprof, hempty⟩
    · rw [Direction.ne_iff.mp he, SubPool.side_setSide]
      refine ⟨⟨rfl, rfl, rfl, rfl, rfl, rfl⟩, rfl, fun h0 => ?_⟩
      simp only [(hz _).mpr h0, Nat.zero_sub]

theorem settleDemands_settled {p : Nat} {demands : Demand × Demand} {l r : Inflow}
    (h : w.Inv) (hl : w.subPool.lastPrice ≠ 0) (hd : syncDemands w.subPool p = .ok demands)
    (hr : settleDemands market w.subPool p demands = .ok (s, l, r)) (e : Direction) :
    (w.subPool.side e).Settled (s.side e) := by
  obtain ⟨hlong, hshort⟩ := syncDemands_no_notional hd hl
  unfold settleDemands at hr
  split_ifs at hr
  · obtain ⟨⟨t, i⟩, ht, hr⟩ := except_bind_ok.mp hr
    cases hr
    exact transferTo_settled (d := .long) h
      (fun h0 => hlong ((h.shared .long).notional_of_no_shares h0)) ht e
  · obtain ⟨⟨t, i⟩, ht, hr⟩ := except_bind_ok.mp hr
    cases hr
    exact transferTo_settled (d := .short) h
      (fun h0 => hshort ((h.shared .short).notional_of_no_shares h0)) ht e
  · cases hr
    exact ⟨.refl _, rfl, (h.zeroIff e).mpr⟩

theorem add_lt_of_prices {n m p q : Nat} (hp : 0 < p) (hq : 0 < q) (hne : q ≠ p)
    (hn : ∀ r ∈ [p, q], n * r < u128Size) (hm : ∀ r ∈ [p, q], m * r < u128Size) :
    n + m < u128Size := by
  -- one of the prices is at least two
  have htwo : ∃ r ∈ [p, q], 2 ≤ r := by
    by_cases h : 2 ≤ p
    · exact ⟨p, List.mem_cons_self, h⟩
    · exact ⟨q, List.mem_cons_of_mem _ List.mem_cons_self, by omega⟩
  obtain ⟨r, hr, h2⟩ := htwo
  have h1 := Nat.mul_le_mul_left n h2
  have h3 := Nat.mul_le_mul_left m h2
  have := hn r hr
  have := hm r hr
  omega

theorem Side.Settled.canRotate {p : Nat} {d : Direction} (h : SyncReady w p) (hp : 0 < p)
    (hl : w.subPool.lastPrice ≠ 0) (hne : p ≠ w.subPool.lastPrice)
    (hs : (w.subPool.side d).Settled (s.side d)) (hsound : s.Sound) (hv : s.value < u128Size) :
    (s.side d).CanRotate := by
  have hb : ∀ tick b, (s.side d).dormant.get tick = some b →
      ∃ b0, (w.subPool.side d).dormant.get tick = some b0 ∧
        b.totalRecoveryNotional = b0.totalRecoveryNotional ∧
        b.positionCount = b0.positionCount := by
    intro tick b hb
    obtain ⟨b0, hb0, he⟩ := DormantStore.get_of_profiles hs.profiles hb
    have h1 := congrArg DormantBucket.totalRecoveryNotional he
    have h2 := congrArg DormantBucket.positionCount he
    simp only [DormantBucket.profile] at h1 h2
    exact ⟨b0, hb0, h1, h2⟩
  refine ⟨(hsound d).1, bounded_of_value hv d, ?_, ?_, ?_, ?_, ?_⟩
  · rw [hs.same.recovery, hs.same.holdings]
    exact (h.inv.shared d).total
  · have := h.bounds.shares d
    rw [hs.same.recovery, hs.same.shares]
    omega
  · have := h.bounds.generation d
    rw [hs.same.generation]
    omega
  · intro tick b hg
    obtain ⟨b0, hb0, hn, -⟩ := hb tick b hg
    rw [hn, hs.same.notional]
    exact add_lt_of_prices (Nat.pos_of_ne_zero hl) hp hne
      (fun q hq => h.bounds.bucketNotional d q hq tick b0 hb0) (h.bounds.notional d)
  · intro tick b hg
    obtain ⟨b0, hb0, -, hc⟩ := hb tick b hg
    have := h.bounds.positionCount d tick b0 hb0
    omega

theorem rotateIfDrained_zeroIff {s' : SubPool} {envelope : PriceEnvelope} {d : Direction}
    {ev : Option ActiveRotatedToRecoveryEvent}
    (h : rotateIfDrained market s envelope d = .ok (s', ev))
    (h0 : (s.side d).activeShares = 0 → (s.side d).poolEquity = 0) :
    ((s'.side d).poolEquity = 0 ↔ (s'.side d).activeShares = 0) ∧
      s'.side d.opposite = s.side d.opposite := by
  cases rotateIfDrained_ok h with
  | inl h =>
    obtain ⟨hc, rfl, -⟩ := h
    exact ⟨⟨fun he => by omega, h0⟩, rfl⟩
  | inr h =>
    obtain ⟨he, -, x, ⟨tick, dormant, -, -, -, -, rfl⟩, rfl⟩ := h
    rw [SubPool.side_setSide, SubPool.side_setSide_opposite]
    exact ⟨⟨fun _ => rfl, fun _ => he⟩, rfl⟩

end Settle

section Total
variable {w : World} {market : MarketParams}

def MarketParams.Allows (market : MarketParams) (pLast pNow : Nat) : Prop :=
  priceDistance pLast pNow * bpsScale / pLast ≤ market.maxPriceMoveBpsPerSync

instance (market : MarketParams) (pLast pNow : Nat) : Decidable (market.Allows pLast pNow) :=
  inferInstanceAs (Decidable (_ ≤ _))

theorem priceMoveBps_of {pLast pNow : Nat} (h0 : pLast ≠ 0) (hl : pLast < u64Size)
    (hm : market.maxPriceMoveBpsPerSync < 2 ^ 32) (h : market.Allows pLast pNow) :
    priceMoveBps pLast pNow = .ok (priceDistance pLast pNow * bpsScale / pLast) := by
  have hlt : pLast < u128Size := by
    unfold u64Size at hl
    unfold u128Size
    omega
  have hfit : priceDistance pLast pNow * bpsScale / pLast < u64Size := by
    unfold MarketParams.Allows at h
    unfold u64Size
    omega
  have hwide : priceDistance pLast pNow * bpsScale / pLast < u128Size :=
    hfit.trans (by norm_num [u64Size, u128Size])
  unfold priceMoveBps
  rw [ensure_of h0, ok_bind]
  show (mulDivFloor (priceDistance pLast pNow) bpsScale pLast >>= _) = _
  rw [mulDivFloor_eq hlt, if_neg h0, if_pos hwide, ok_bind, ensure_of hfit]
  rfl

/-- What a call may answer when only the two capacity limits can stop it. -/
def CapacityOnly {α : Type} (r : Except ClearingError α) : Prop :=
  (∃ x, r = .ok x) ∨ r = .error .dormantBucketCapExceeded ∨ r = .error .ledgerCapacityExceeded

theorem movePrice_of {envelope : PriceEnvelope} (h : SyncReady w envelope.pNow)
    (htick : 0 < market.priceTick) (hfactor : 0 < market.tickAggregationFactor)
    (hm : market.maxPriceMoveBpsPerSync < 2 ^ 32) (hpos : 0 < envelope.pNow)
    (hl : w.subPool.lastPrice ≠ 0) (hne : envelope.pNow ≠ w.subPool.lastPrice)
    (hmove : market.Allows w.subPool.lastPrice envelope.pNow) :
    CapacityOnly (movePrice market w.subPool envelope) := by
  have hprice := h.inv.price_lt
  obtain ⟨demands, hd⟩ := syncDemands_of h.anchored h.bounds hl hprice
  unfold movePrice
  have hwithin : priceDistance w.subPool.lastPrice envelope.pNow * bpsScale / w.subPool.lastPrice
      ≤ market.maxPriceMoveBpsPerSync := hmove
  rw [priceMoveBps_of hl hprice hm hmove, math_ok_eq, ok_bind, ensure_of hwithin, ok_bind, hd,
    ok_bind]
  obtain ⟨s1, long, short, hs⟩ | hs := settleDemands_of market h hd
  swap
  · rw [hs]
    exact .inr (.inr rfl)
  rw [hs, ok_bind]
  simp only
  have hset := settleDemands_settled h.inv hl hd hs
  have hm1 := settleDemands_moved h.inv.sound hs
  have hm2 := hm1.after (atPrice_moved hm1.sound envelope)
  have hsh2 := atPrice_shared (settleDemands_shared h.inv.sound h.inv.shared hs) envelope
  have hv2 : (s1.atPrice envelope).value < u128Size := by
    have := hm2.value_eq
    have := h.inv.value_lt
    omega
  have hcan : ∀ d, ((s1.atPrice envelope).side d).CanRotate := by
    intro d
    refine Side.Settled.canRotate h hpos hl hne ?_ hm2.sound hv2
    rw [SubPool.side_atPrice]
    exact hset d
  have hzero : ∀ d, ((s1.atPrice envelope).side d).activeShares = 0 →
      ((s1.atPrice envelope).side d).poolEquity = 0 := by
    intro d h0
    rw [SubPool.side_atPrice] at h0 ⊢
    exact (hset d).empty ((hset d).same.shares ▸ h0)
  generalize s1.atPrice envelope = s2 at *
  obtain ⟨s3, longRotated, hlong⟩ | hlong :=
    rotateIfDrained_of envelope htick hfactor (hcan .long)
  swap
  · rw [hlong]
    exact .inr (.inl rfl)
  rw [hlong, ok_bind]
  simp only
  obtain ⟨hz3, hside⟩ := rotateIfDrained_zeroIff hlong (hzero .long)
  have hm3 := hm2.after (rotateIfDrained_moved hm2.sound hlong)
  have hsh3 := rotateIfDrained_shared hm2.sound hsh2 hlong
  obtain ⟨s4, shortRotated, hshort⟩ | hshort :=
    rotateIfDrained_of envelope (s := s3) (d := .short) htick hfactor
      (hside ▸ hcan .short)
  swap
  · rw [hshort]
    exact .inr (.inl rfl)
  rw [hshort, ok_bind]
  simp only
  obtain ⟨hz4, hside4⟩ := rotateIfDrained_zeroIff hshort (hside ▸ hzero .short)
  have hm4 := hm3.after (rotateIfDrained_moved hm3.sound hshort)
  have hsh4 := rotateIfDrained_shared hm3.sound hsh3 hshort
  have hc : checkSubpoolInvariants s4 = .ok () := by
    refine check_of hm4.sound hsh4 ?_ ?_ ?_
    · intro d
      cases d with
      | long => exact hside4 ▸ hz3
      | short => exact hz4
    · have := hm4.value_eq
      have := h.inv.value_lt
      omega
    · exact hm4.reserve_le.trans_lt h.inv.reserve_lt
  rw [hc]
  exact .inl ⟨_, rfl⟩

/-- On a reached, unpaused sub-pool whose figures fit, a sync at an admissible price returns or
    meets one of the two capacity limits. -/
theorem sync_never_fails_inside {w : World} {market : MarketParams} {envelope : PriceEnvelope}
    (h : w.Reached) (hschema : market.schemaVersion = schemaVersionCurrent)
    (hpaused : market.paused = false) (htick : 0 < market.priceTick)
    (hfactor : 0 < market.tickAggregationFactor)
    (hbps : market.maxPriceMoveBpsPerSync < 2 ^ 32) (hpos : 0 < envelope.pNow)
    (hrange : envelope.expectedMin ≤ envelope.pNow ∧ envelope.pNow ≤ envelope.expectedMax)
    (hmove : w.subPool.lastPrice ≠ 0 → market.Allows w.subPool.lastPrice envelope.pNow)
    (hbounds : SyncBounds w.subPool envelope.pNow) :
    (∃ s out, syncPool market w.subPool envelope = .ok (s, out)) ∨
      syncPool market w.subPool envelope = .error .dormantBucketCapExceeded ∨
      syncPool market w.subPool envelope = .error .ledgerCapacityExceeded := by
  have hi := h.inv
  have hg : syncGuards market envelope = .ok () := by
    rw [syncGuards, assertSchemaVersion, ensure_of hschema, ok_bind, ensure_of hpaused, ok_bind,
      ensure_of hpos.ne', ok_bind, ensure_of hrange]
  have hcheck : ∀ s : SubPool, (∀ d, s.side d = w.subPool.side d) →
      checkSubpoolInvariants s = .ok () := by
    intro s hs
    have hval : s.value = w.subPool.value := by
      have h1 := hs .long
      have h2 := hs .short
      simp only [SubPool.side] at h1 h2
      rw [SubPool.value, SubPool.value, h1, h2]
    have hres : s.reserve = w.subPool.reserve := by
      have h1 := hs .long
      have h2 := hs .short
      simp only [SubPool.side] at h1 h2
      rw [SubPool.reserve, SubPool.reserve, h1, h2]
    refine check_of (hi.sound.of_sides hs) (hi.shared.of_sides fun d => hs d ▸ .refl _)
      (fun d => ?_)
      (hval ▸ hi.value_lt) (hres ▸ hi.reserve_lt)
    rw [hs]
    exact hi.zeroIff d
  unfold syncPool
  rw [hg, ok_bind]
  by_cases h0 : w.subPool.lastPrice = 0
  · rw [if_pos h0, hcheck _ (w.subPool.side_atPrice envelope)]
    exact .inl ⟨_, _, rfl⟩
  rw [if_neg h0]
  by_cases hp : envelope.pNow = w.subPool.lastPrice
  · rw [if_pos hp]
    simp only
    rw [hcheck _ (fun d => by cases d <;> rfl)]
    exact .inl ⟨_, _, rfl⟩
  rw [if_neg hp]
  obtain ⟨⟨s, out⟩, hok⟩ | hcap := movePrice_of ⟨hi, h.anchored, hbounds⟩ htick hfactor hbps hpos
    h0 hp (hmove h0)
  · exact .inl ⟨s, out, hok⟩
  · exact .inr hcap

end Total

def recoveringRun : List EngineOp :=
  [.open (quoteAt (amount 100)) .long (amount 100) (amount 1),
    .open (quoteAt (amount 100)) .short (amount 300) (amount 2), .sync (quoteAt (amount 80)),
    .sync (quoteAt (amount 84))]

def recoveringWorld : World := (smallRun .lazy recoveringRun).2

theorem recoveringWorld_bounds : SyncBounds recoveringWorld.subPool 88 := by
  constructor <;> intro d <;> cases d <;> decide +kernel

theorem recoveringWorld_syncs :
    recoveringWorld.subPool.long.recoveryShares ≠ 0 ∧
    ((∃ s out, syncPool (smallMarket .lazy) recoveringWorld.subPool (quoteAt (amount 88))
        = .ok (s, out)) ∨
      syncPool (smallMarket .lazy) recoveringWorld.subPool (quoteAt (amount 88))
        = .error .dormantBucketCapExceeded ∨
      syncPool (smallMarket .lazy) recoveringWorld.subPool (quoteAt (amount 88))
        = .error .ledgerCapacityExceeded) :=
  ⟨by decide +kernel, sync_never_fails_inside ⟨0, amount 0, 0, _, rfl⟩ rfl rfl (by decide)
    (by decide) (by decide) (by decide) (by decide) (fun _ => by decide +kernel)
    recoveringWorld_bounds⟩

end MoleFinance
