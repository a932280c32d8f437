import MoleFinance.Chain.Intact

/-! The bucket counts of a sub-pool account. They are written back after every call, but no
call of the engine changes them. -/
namespace MoleFinance
open MoleMath Call

def SubPool.bucketCounts (s : SubPool) : Nat × Nat :=
  (s.long.dormantBucketCount, s.short.dormantBucketCount)

def SubPoolAccount.bucketCounts (a : SubPoolAccount) : Nat × Nat :=
  (a.long.dormantBucketCount, a.short.dormantBucketCount)

theorem SubPool.setSide_bucketCounts {s : SubPool} {d : Direction} {x : Side}
    (h : x.dormantBucketCount = (s.side d).dormantBucketCount) :
    (s.setSide d x).bucketCounts = s.bucketCounts := by
  cases d with
  | long => exact congrArg (·, s.short.dormantBucketCount) h
  | short => exact congrArg (s.long.dormantBucketCount, ·) h

section Calls
variable {market : MarketParams} {s s' : SubPool} {envelope : PriceEnvelope} {p p' : Position}
  {d : Direction}

theorem transferToRecovery_bucketCount {price a inflow residual : Nat} {x x' : Side}
    (h : transferToRecovery market price a x = .ok (x', inflow, residual)) :
    x'.dormantBucketCount = x.dormantBucketCount := by
  cases transferToRecovery_ok h with
  | inl h => rw [h.2.1]
  | inr h =>
    obtain ⟨dormant, r, -, -, rfl, -⟩ := h
    rfl

theorem transferTo_bucketCounts {price : Nat} {demand : Demand} {inflow : Inflow}
    (h : transferTo market s price d demand = .ok (s', inflow)) :
    s'.bucketCounts = s.bucketCounts := by
  cases transferTo_ok h with
  | inl h => rw [h.2.1]
  | inr h =>
    obtain ⟨t, a, x, -, -, -, -, -, hx, -, rfl⟩ := h
    have hcount := transferToRecovery_bucketCount hx
    calc _ = (s.setSide d x).bucketCounts := by
          refine SubPool.setSide_bucketCounts ?_
          rw [SubPool.side_setSide_opposite]
      _ = s.bucketCounts := SubPool.setSide_bucketCounts hcount

theorem settleDemands_bucketCounts {price : Nat} {demands : Demand × Demand}
    {long short : Inflow} (h : settleDemands market s price demands = .ok (s', long, short)) :
    s'.bucketCounts = s.bucketCounts := by
  unfold settleDemands at h
  split_ifs at h with hl hs
  · obtain ⟨⟨t, inflow⟩, ht, h⟩ := except_bind_ok.mp h
    cases h
    exact transferTo_bucketCounts ht
  · obtain ⟨⟨t, inflow⟩, ht, h⟩ := except_bind_ok.mp h
    cases h
    exact transferTo_bucketCounts ht
  · cases h
    rfl

theorem rotateIfDrained_bucketCounts {ev : Option ActiveRotatedToRecoveryEvent}
    (h : rotateIfDrained market s envelope d = .ok (s', ev)) :
    s'.bucketCounts = s.bucketCounts := by
  cases rotateIfDrained_ok h with
  | inl h => rw [h.2.1]
  | inr h =>
    obtain ⟨-, -, x, ⟨tick, dormant, -, -, -, -, rfl⟩, rfl⟩ := h
    exact SubPool.setSide_bucketCounts rfl

theorem syncPool_bucketCounts {out : SyncOutcome}
    (h : syncPool market s envelope = .ok (s', out)) : s'.bucketCounts = s.bucketCounts := by
  cases (syncPool_ok h).2.1 with
  | seeded h0 => rfl
  | still h0 hp => rfl
  | moved demands s1 s2 _ long short lr sr _ h0 hp hdem hset hl hshort =>
    calc s'.bucketCounts = s2.bucketCounts := rotateIfDrained_bucketCounts hshort
      _ = (s1.atPrice envelope).bucketCounts := rotateIfDrained_bucketCounts hl
      _ = s1.bucketCounts := rfl
      _ = s.bucketCounts := settleDemands_bucketCounts hset

theorem burnActive_bucketCounts {value : Nat} (h : burnActive s p value = .ok (s', p')) :
    s'.bucketCounts = s.bucketCounts := by
  obtain ⟨-, -, -, rfl, -⟩ := burnActive_ok h
  exact SubPool.setSide_bucketCounts rfl

theorem redeemActive_bucketCounts {value : Nat} (h : redeemActive s p = .ok (s', p', value)) :
    s'.bucketCounts = s.bucketCounts := by
  cases redeemActive_ok h with
  | inl h => rw [h.2.1]
  | inr h => exact burnActive_bucketCounts h.2.2.2.2

theorem forfeitActive_bucketCounts {burned removed : Nat}
    (h : forfeitActive s p = .ok (s', p', burned, removed)) :
    s'.bucketCounts = s.bucketCounts := by
  cases forfeitActive_ok h with
  | inl h => rw [h.2.1]
  | inr h => exact burnActive_bucketCounts h.2.1

theorem redeemRecovery_bucketCounts {tick : Int} {r : RedeemReceipt}
    (h : redeemRecovery s p = .ok (s', p', tick, r)) : s'.bucketCounts = s.bucketCounts := by
  obtain ⟨-, dormant, -, -, rfl, -⟩ := redeemRecovery_ok h
  exact SubPool.setSide_bucketCounts rfl

theorem settleRecovery_bucketCounts {r : RedeemReceipt}
    (h : settleRecovery s p = .ok (s', p', r)) : s'.bucketCounts = s.bucketCounts := by
  cases settleRecovery_ok h with
  | inl h => rw [h.2.1]
  | inr h =>
    obtain ⟨-, tick, h⟩ := h
    exact redeemRecovery_bucketCounts h

theorem BridgedCall.run_bucketCounts {params : MarketParams} {call : BridgedCall}
    {outcome : BridgedOutcome} (h : call.run params s = .ok (s', outcome)) :
    s'.bucketCounts = s.bucketCounts := by
  cases call with
  | sync e =>
    obtain ⟨⟨t, out⟩, hs, h⟩ := except_bind_ok.mp h
    cases h
    exact syncPool_bucketCounts hs
  | close e q =>
    obtain ⟨⟨t, q', out⟩, hs, h⟩ := except_bind_ok.mp h
    cases h
    obtain ⟨s1, s2, sync, p1, p2, p3, b, r, hc⟩ := closePosition_ok hs
    calc s'.bucketCounts = s2.bucketCounts := settleRecovery_bucketCounts hc.recovery
      _ = s1.bucketCounts := redeemActive_bucketCounts hc.active
      _ = s.bucketCounts := syncPool_bucketCounts hc.synced
  | forceClose e q ack =>
    obtain ⟨⟨t, q', out⟩, hs, h⟩ := except_bind_ok.mp h
    cases h
    obtain ⟨s1, s2, s3, sync, p1, p2, p3, b, burned, removed, r, hc⟩ := forceClose_ok hs
    calc s'.bucketCounts = s3.bucketCounts := by
          rw [addDust_ok hc.dust]
          exact SubPool.setSide_bucketCounts rfl
      _ = s2.bucketCounts := settleRecovery_bucketCounts hc.recovery
      _ = s1.bucketCounts := forfeitActive_bucketCounts hc.active
      _ = s.bucketCounts := syncPool_bucketCounts hc.synced
  | claim e q =>
    obtain ⟨⟨t, q', out⟩, hs, h⟩ := except_bind_ok.mp h
    cases h
    obtain ⟨s1, sync, p1, p2, b, tick, r, hc⟩ := claim_ok hs
    calc s'.bucketCounts = s1.bucketCounts := redeemRecovery_bucketCounts hc.recovery
      _ = s.bucketCounts := syncPool_bucketCounts hc.synced
  | preSync d tick slot =>
    obtain ⟨⟨t, out⟩, hs, h⟩ := except_bind_ok.mp h
    cases h
    obtain ⟨n, dormant, -, rfl, -⟩ := preSync_ok hs
    exact SubPool.setSide_bucketCounts rfl

theorem openPosition_bucketCounts {gross id : Nat} {out : OpenOutcome}
    (h : openPosition market s envelope d gross id = .ok (s', p, out)) :
    s'.bucketCounts = s.bucketCounts := by
  obtain ⟨s1, sync, ho⟩ := openPosition_ok h
  calc s'.bucketCounts = s1.bucketCounts := by
        rw [ho.state]
        exact SubPool.setSide_bucketCounts rfl
    _ = s.bucketCounts := syncPool_bucketCounts ho.synced

theorem harvest_bucketCounts {out : HarvestOutcome}
    (h : harvestDust market s d = .ok (s', out)) : s'.bucketCounts = s.bucketCounts := by
  obtain ⟨-, rfl, -⟩ := harvest_ok h
  exact SubPool.setSide_bucketCounts rfl

end Calls

theorem hydrate_bucketCounts {account : SubPoolAccount} {long short : BridgedSide}
    {view : SubPool} (h : Program.hydrate account long short = .ok view) :
    view.bucketCounts = account.bucketCounts := by
  unfold Program.hydrate at h
  obtain ⟨l, -, h⟩ := except_bind_ok.mp h
  obtain ⟨s, -, h⟩ := except_bind_ok.mp h
  cases h
  rfl

namespace Program

def Uncounted (st : Program) : Prop :=
  ∀ id s, st.subPools.get? id = some s → s.account.bucketCounts = (0, 0)

theorem Uncounted.insert {st : Program} {id : Nat} {t : SubPoolState} (h : st.Uncounted)
    (ht : t.account.bucketCounts = (0, 0)) :
    Uncounted { st with subPools := st.subPools.insert id t } := by
  intro k u hu
  simp only [OrdMap.get?_insert] at hu
  split_ifs at hu with hk
  · cases hu
    exact ht
  · exact h k u hu

theorem Uncounted.effect {token : TokenProgram} {st st' : Program} {reads : Bool}
    {o : Option DirectCall} (hst : st.Sane) (h : st.Uncounted)
    (he : Effect token st reads o st') : st'.Uncounted := by
  have written : ∀ {id remaining call st1 outcome}, st.runBridged id remaining call
      = .ok (st1, outcome) → st1.Uncounted := by
    intro id remaining call st1 outcome hr
    obtain ⟨s, t, view, long, short, long', short', hc⟩ := hst.bridged hr
    rw [hc.state]
    refine h.insert ?_
    calc view.bucketCounts = t.bucketCounts := BridgedCall.run_bucketCounts hc.ran
      _ = s.account.bucketCounts := hydrate_bucketCounts hc.hydrated
      _ = (0, 0) := h id s hc.found
  cases he with
  | outside slot feed tokens hslot hv hf => exact h
  | governed config market hm => exact h
  | created id hnone => exact h.insert rfl
  | arranged id s s' hs ha => exact h.insert (ha.account_eq ▸ h id s hs)
  | engaged he =>
    cases he with
    | bridged id remaining call st' outcome hp hn hr => exact written hr
    | settled id key remaining p call st1 outcome tokens hk hs hp hc hr hpay =>
      have hw := written hr
      exact hw
    | opened id owner wallet params s view pos out tokens hs hk ho hpay =>
      exact h.insert ((openPosition_bucketCounts ho).trans (h id s hs))
    | harvested id d s view out tokens hs hh hpay =>
      exact h.insert ((harvest_bucketCounts hh).trans (h id s hs))

theorem Reached.uncounted {token : TokenProgram} {st : Program} (h : st.Reached token) :
    st.Uncounted := by
  refine (Reached.induct (I := fun st => st.Sane ∧ st.Uncounted) (fun st hf => ?_) ?_ h).2
  · refine ⟨fun id s hs => ?_, fun id s hs => ?_⟩
    · rw [hf.subPools] at hs
      cases hs
    · rw [hf.subPools] at hs
      cases hs
  · rintro st reads o st' ⟨hs, hu⟩ he
    exact ⟨hs.effect he, hu.effect hs he⟩

end Program

end MoleFinance
