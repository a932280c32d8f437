import MoleFinance.Engine.Accounting

/-! Buckets without shares never stay. Unlike the aggregates this needs no positions behind the
shares, so it holds of every sub-pool whose stores keep their invariant. -/
namespace MoleFinance
open MoleMath Call

/-- Every bucket holds shares, which are the recovery shares of the side; all fits the word. -/
structure Side.Stocked (x : Side) : Prop where
  buckets : x.dormant.holdings.Stocked
  total_eq : x.recoveryShares = x.dormant.holdings.total
  recovery_lt : x.recoveryShares < u128Size
  notional_lt : x.activeNotional < u128Size

def SubPool.Stocked (s : SubPool) : Prop := ∀ d, (s.side d).Stocked

theorem Side.Stocked.of_same {x x' : Side} (h : x.Stocked)
    (hb : x'.dormant.holdings = x.dormant.holdings) (hr : x'.recoveryShares = x.recoveryShares)
    (hn : x'.activeNotional ≤ x.activeNotional) : x'.Stocked :=
  ⟨hb ▸ h.buckets, by rw [hr, hb, h.total_eq], hr ▸ h.recovery_lt, hn.trans_lt h.notional_lt⟩

theorem SubPool.Stocked.setSide {s : SubPool} (h : s.Stocked) {d : Direction} {x : Side}
    (hx : x.Stocked) : (s.setSide d x).Stocked := by
  intro e
  rw [side_setSide_eq]
  split_ifs
  · exact hx
  · exact h e

theorem SubPool.Stocked.of_sides {s t : SubPool} (h : s.Stocked) (hs : ∀ d, t.side d = s.side d) :
    t.Stocked := fun d => hs d ▸ h d

section Sync
variable {market : MarketParams} {s s' : SubPool} {envelope : PriceEnvelope} {d : Direction}

theorem transferToRecovery_stocked {p a inflow residual : Nat} {x x' : Side}
    (hi : x.dormant.Inv) (hx : x.Stocked)
    (h : transferToRecovery market p a x = .ok (x', inflow, residual)) : x'.Stocked := by
  cases transferToRecovery_ok h with
  | inl h => exact h.2.1 ▸ hx
  | inr h =>
    obtain ⟨dormant, r, -, hr, rfl, -, -⟩ := h
    exact hx.of_same (DormantStore.distributeBy_effect hi hr).holdings_eq rfl le_rfl

theorem transferTo_stocked {p : Nat} {demand : Demand} {inflow : Inflow} (hs : s.Sound)
    (hst : s.Stocked) (h : transferTo market s p d demand = .ok (s', inflow)) : s'.Stocked := by
  cases transferTo_ok h with
  | inl h => exact h.2.1 ▸ hst
  | inr h =>
    obtain ⟨t, a, x, -, -, -, -, -, hx, -, rfl⟩ := h
    have hpaid : Side.Stocked { s.side d with poolEquity := (s.side d).poolEquity + a } :=
      (hst d).of_same rfl rfl le_rfl
    have hw : x.Stocked := by
      refine transferToRecovery_stocked ?_ hpaid hx
      exact (hs d).1
    exact (hst.setSide hw).setSide ((hst d.opposite).of_same rfl rfl le_rfl)

theorem settleDemands_stocked {p : Nat} {demands : Demand × Demand} {long short : Inflow}
    (hs : s.Sound) (hst : s.Stocked)
    (h : settleDemands market s p demands = .ok (s', long, short)) : s'.Stocked := by
  unfold settleDemands at h
  split_ifs at h with h1 h2
  · obtain ⟨⟨t, i⟩, ht, h⟩ := except_bind_ok.mp h
    cases h
    exact transferTo_stocked hs hst ht
  · obtain ⟨⟨t, i⟩, ht, h⟩ := except_bind_ok.mp h
    cases h
    exact transferTo_stocked hs hst ht
  · cases h
    exact hst

theorem rotateIfDrained_stocked {ev : Option ActiveRotatedToRecoveryEvent} (hs : s.Sound)
    (hst : s.Stocked) (h : rotateIfDrained market s envelope d = .ok (s', ev)) : s'.Stocked := by
  cases rotateIfDrained_ok h with
  | inl h => exact h.2.1 ▸ hst
  | inr h =>
    obtain ⟨-, h0, x, ⟨tick, dormant, -, hd, hlt, -, rfl⟩, rfl⟩ := h
    have hj := DormantStore.insertOrMerge_effect (hs d).1 hd
    refine hst.setSide ⟨?_, ?_, hlt, Nat.zero_lt_of_lt (hst d).notional_lt⟩
    · have hn := hj.notional_lt (hst d).notional_lt
      simp only [hj.holdings_eq] at hn ⊢
      exact Holdings.stocked_join (hst d).buckets h0 hn
    · simp only [hj.holdings_eq, Holdings.total_join, (hst d).total_eq]

theorem syncPool_stocked {out : SyncOutcome} (hs : s.Sound) (hst : s.Stocked)
    (h : syncPool market s envelope = .ok (s', out)) : s'.Stocked := by
  cases (syncPool_ok h).2.1 with
  | seeded h0 => exact hst.of_sides (s.side_atPrice envelope)
  | still h0 hp => exact hst.of_sides (fun d => by cases d <;> rfl)
  | moved demands s1 s2 _ long short lr sr _ h0 hp hdem hset hl hsh =>
    have m1 := settleDemands_moved hs hset
    have m2 := atPrice_moved m1.sound envelope
    have m3 := rotateIfDrained_moved m2.sound hl
    have h1 := (settleDemands_stocked hs hst hset).of_sides (s1.side_atPrice envelope)
    exact rotateIfDrained_stocked m3.sound (rotateIfDrained_stocked m2.sound h1 hl) hsh

end Sync

section Parts
variable {s s' : SubPool} {p p' : Position}

theorem burnActive_stocked {value : Nat} (hst : s.Stocked)
    (h : burnActive s p value = .ok (s', p')) : s'.Stocked := by
  obtain ⟨-, -, -, rfl, -⟩ := burnActive_ok h
  exact hst.setSide ((hst _).of_same rfl rfl (Nat.sub_le _ _))

theorem redeemActive_stocked {value : Nat} (hst : s.Stocked)
    (h : redeemActive s p = .ok (s', p', value)) : s'.Stocked := by
  cases redeemActive_ok h with
  | inl h => exact h.2.1 ▸ hst
  | inr h => exact burnActive_stocked hst h.2.2.2.2

theorem forfeitActive_stocked {burned removed : Nat} (hst : s.Stocked)
    (h : forfeitActive s p = .ok (s', p', burned, removed)) : s'.Stocked := by
  cases forfeitActive_ok h with
  | inl h => exact h.2.1 ▸ hst
  | inr h => exact burnActive_stocked hst h.2.1

theorem redeemRecovery_stocked {tick : Int} {r : RedeemReceipt} (hs : s.Sound) (hst : s.Stocked)
    (h0 : p.recoveryShares ≠ 0) (h : redeemRecovery s p = .ok (s', p', tick, r)) :
    s'.Stocked := by
  obtain ⟨-, dormant, hd, -, rfl, -⟩ := redeemRecovery_ok h
  have he := DormantStore.redeem_effect (hs _).1 h0 hd
  have htotal := (hst p.direction).total_eq
  have hlt := (hst p.direction).recovery_lt
  have hold := he.holdings_eq (by rw [DormantStore.totalRecoveryShares_eq, ← htotal]; exact hlt)
  have hle := Holdings.total_leave r.burnedNotional he.shares_le
  have hburned := he.burned_eq
  refine hst.setSide ⟨?_, ?_, (Nat.sub_le _ _).trans_lt hlt, (hst p.direction).notional_lt⟩
  · simp only [hold]
    exact Holdings.stocked_leave (hst p.direction).buckets _ he.shares_le
  · simp only [hold]
    omega

theorem settleRecovery_stocked {r : RedeemReceipt} (hs : s.Sound) (hst : s.Stocked)
    (h : settleRecovery s p = .ok (s', p', r)) : s'.Stocked := by
  cases settleRecovery_ok h with
  | inl h => exact h.2.1 ▸ hst
  | inr h =>
    obtain ⟨h0, tick, h⟩ := h
    exact redeemRecovery_stocked hs hst h0 h

end Parts

section Calls
variable {market : MarketParams} {s s' : SubPool} {envelope : PriceEnvelope} {p p' : Position}
  {d : Direction}

theorem openPosition_stocked {gross id : Nat} {out : OpenOutcome} (hs : s.Sound) (hst : s.Stocked)
    (h : openPosition market s envelope d gross id = .ok (s', p, out)) : s'.Stocked := by
  obtain ⟨s1, sync, ho⟩ := openPosition_ok h
  have h1 := syncPool_stocked hs hst ho.synced
  rw [ho.state]
  exact h1.setSide ⟨(h1 d).buckets, (h1 d).total_eq, (h1 d).recovery_lt, ho.notional_lt⟩

theorem closePosition_stocked {out : CloseOutcome} (hs : s.Sound) (hst : s.Stocked)
    (h : closePosition market s envelope p = .ok (s', p', out)) : s'.Stocked := by
  obtain ⟨s1, s2, sync, p1, p2, p3, b, r, hc⟩ := closePosition_ok h
  have m1 := syncPool_moved hs hc.synced
  have m2 := redeemActive_moved m1.sound hc.active
  have h2 := redeemActive_stocked (syncPool_stocked hs hst hc.synced) hc.active
  exact settleRecovery_stocked m2.sound h2 hc.recovery

theorem forceClose_stocked {ack : Bool} {out : ForceCloseOutcome} (hs : s.Sound)
    (hst : s.Stocked) (h : forceCloseZeroValuePosition market s envelope p ack
      = .ok (s', p', out)) : s'.Stocked := by
  obtain ⟨s1, s2, s3, sync, p1, p2, p3, b, burned, removed, r, hc⟩ := forceClose_ok h
  have m1 := syncPool_moved hs hc.synced
  have m2 := forfeitActive_moved m1.sound hc.active
  have h2 := forfeitActive_stocked (syncPool_stocked hs hst hc.synced) hc.active
  have h3 := settleRecovery_stocked m2.sound h2 hc.recovery
  rw [addDust_ok hc.dust]
  exact h3.setSide ((h3 _).of_same rfl rfl le_rfl)

theorem claim_stocked {out : ClaimRecoveryOutcome} (hs : s.Sound) (hst : s.Stocked)
    (h : claimDormantRecovery market s envelope p = .ok (s', p', out)) : s'.Stocked := by
  obtain ⟨s1, sync, p1, p2, b, tick, r, hc⟩ := claim_ok h
  have m1 := syncPool_moved hs hc.synced
  exact redeemRecovery_stocked m1.sound (syncPool_stocked hs hst hc.synced) hc.shares hc.recovery

theorem preSync_stocked {tick : Int} {slot : Nat} {out : PreSyncOutcome} (hs : s.Sound)
    (hst : s.Stocked) (h : preSyncDormantBucket market s d tick slot = .ok (s', out)) :
    s'.Stocked := by
  obtain ⟨n, dormant, hd, rfl, -⟩ := preSync_ok h
  have hu := DormantStore.applyPendingToBucket_upkeep (hs d).1 hd
  exact hst.setSide ((hst d).of_same hu.holdings_eq rfl le_rfl)

end Calls

end MoleFinance
