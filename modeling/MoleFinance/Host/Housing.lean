import MoleFinance.Engine.BothModes
import MoleFinance.Engine.Stores
import MoleFinance.Host.Conservation

/-! The sub-pools of a harness are worlds of the engine, each with the positions opened in it:
the calls of the harness are engine calls, and keep the limits of the one market. -/
namespace MoleFinance
open MoleMath Call Trace

section SubPoolId
variable {market : MarketParams} {s s' : SubPool} {envelope : PriceEnvelope} {p p' : Position}

theorem lazyMigratePosition_subPoolId {b : Bool} (h : lazyMigratePosition s p = .ok (p', b)) :
    p'.subPoolId = p.subPoolId := by
  cases lazyMigratePosition_ok h <;> rfl

theorem burnActive_subPoolId {value : Nat} (h : burnActive s p value = .ok (s', p')) :
    p'.subPoolId = p.subPoolId := by
  obtain ⟨-, -, -, -, rfl⟩ := burnActive_ok h
  rfl

theorem redeemActive_subPoolId {value : Nat} (h : redeemActive s p = .ok (s', p', value)) :
    p'.subPoolId = p.subPoolId := by
  cases redeemActive_ok h with
  | inl h => rw [h.2.2.1]
  | inr h => exact burnActive_subPoolId h.2.2.2.2

theorem forfeitActive_subPoolId {burned removed : Nat}
    (h : forfeitActive s p = .ok (s', p', burned, removed)) : p'.subPoolId = p.subPoolId := by
  cases forfeitActive_ok h with
  | inl h => rw [h.2.2.1]
  | inr h => exact burnActive_subPoolId h.2.1

theorem redeemRecovery_subPoolId {tick : Int} {r : RedeemReceipt}
    (h : redeemRecovery s p = .ok (s', p', tick, r)) : p'.subPoolId = p.subPoolId := by
  obtain ⟨-, dormant, -, -, -, rfl⟩ := redeemRecovery_ok h
  rfl

theorem settleRecovery_subPoolId {r : RedeemReceipt}
    (h : settleRecovery s p = .ok (s', p', r)) : p'.subPoolId = p.subPoolId := by
  cases settleRecovery_ok h with
  | inl h => rw [h.2.2.1]
  | inr h =>
    obtain ⟨-, tick, h⟩ := h
    exact redeemRecovery_subPoolId h

theorem closePosition_subPoolId {out : CloseOutcome}
    (h : closePosition market s envelope p = .ok (s', p', out)) : p'.subPoolId = p.subPoolId := by
  obtain ⟨s1, s2, sync, p1, p2, p3, b, r, hc⟩ := closePosition_ok h
  calc p'.subPoolId = p3.subPoolId := by rw [hc.state, finishPosition]
    _ = p2.subPoolId := settleRecovery_subPoolId hc.recovery
    _ = p1.subPoolId := redeemActive_subPoolId hc.active
    _ = p.subPoolId := lazyMigratePosition_subPoolId hc.migrated

theorem forceClose_subPoolId {ack : Bool} {out : ForceCloseOutcome}
    (h : forceCloseZeroValuePosition market s envelope p ack = .ok (s', p', out)) :
    p'.subPoolId = p.subPoolId := by
  obtain ⟨s1, s2, s3, sync, p1, p2, p3, b, burned, removed, r, hc⟩ := forceClose_ok h
  calc p'.subPoolId = p3.subPoolId := by rw [hc.state, finishPosition]
    _ = p2.subPoolId := settleRecovery_subPoolId hc.recovery
    _ = p1.subPoolId := forfeitActive_subPoolId hc.active
    _ = p.subPoolId := lazyMigratePosition_subPoolId hc.migrated

theorem claim_subPoolId {out : ClaimRecoveryOutcome}
    (h : claimDormantRecovery market s envelope p = .ok (s', p', out)) :
    p'.subPoolId = p.subPoolId := by
  obtain ⟨s1, sync, p1, p2, b, tick, r, hc⟩ := claim_ok h
  calc p'.subPoolId = p2.subPoolId := by rw [hc.state]
    _ = p1.subPoolId := redeemRecovery_subPoolId hc.recovery
    _ = p.subPoolId := lazyMigratePosition_subPoolId hc.migrated

theorem openPosition_subPoolId {d : Direction} {gross id : Nat} {out : OpenOutcome}
    (h : openPosition market s envelope d gross id = .ok (s', p, out)) :
    p.subPoolId = s.subPoolId := by
  obtain ⟨s1, sync, ho⟩ := openPosition_ok h
  rw [ho.position]
  exact (syncPool_framed ho.synced).id_eq

end SubPoolId

namespace World
variable {market : MarketParams} {id : Nat} {w w' : World} {op : EngineOp} {reply : Reply}

structure Housed (market : MarketParams) (id : Nat) (w : World) : Prop where
  reached : w.Reached
  id_eq : w.subPool.subPoolId = id
  within : w.subPool.Within market.maxDistributionLedgerSize
  counted : w.subPool.Stores (fun s => market.maxDormantBucketCountPerDirection < 2 ^ 32 →
    s.buckets.size ≤ market.maxDormantBucketCountPerDirection)

theorem count_kept (market : MarketParams) :
    DormantStore.Kept market (fun s => market.maxDormantBucketCountPerDirection < 2 ^ 32 →
      s.buckets.size ≤ market.maxDormantBucketCountPerDirection) where
  distributed h hp hr hcap := (DormantStore.size_kept market hcap).distributed h (hp hcap) hr
  joined h hp hr hcap := (DormantStore.size_kept market hcap).joined h (hp hcap) hr
  redeemed h hp hr hcap := (DormantStore.size_kept market hcap).redeemed h (hp hcap) hr
  applied h hp hr hcap := (DormantStore.size_kept market hcap).applied h (hp hcap) hr

theorem new_housed (market : MarketParams) (id : Nat) (price : U64) (slot : Nat) :
    (new id price slot).Housed market id where
  reached := ⟨id, price, slot, [], rfl⟩
  id_eq := rfl
  within := (new_inRing market id price slot).within
  counted := by
    intro d _
    rw [new, SubPool.side_new]
    exact Nat.zero_le _

theorem Housed.call (h : w.Housed market id) (hr : op.call market w = some (.ok (w', reply))) :
    w'.Housed market id := by
  have hframe := EngineOp.call_framed hr
  have hstep : (EngineOp.step (market, op) w).2 = w' := by
    simp only [EngineOp.step, hr]
  exact {
    reached := hstep ▸ h.reached.step (market, op)
    id_eq := hframe.id_eq.trans h.id_eq
    within := fun d => (hframe.sides d).length_le (h.within d)
    counted := EngineOp.call_stores (count_kept market) h.reached.inv hr h.counted }

theorem Housed.bucketCount_le (h : w.Housed market id) (d : Direction) :
    (w.subPool.side d).dormant.bucketCount ≤ market.maxDormantBucketCountPerDirection := by
  unfold DormantStore.bucketCount
  by_cases hcap : market.maxDormantBucketCountPerDirection < 2 ^ 32
  · exact (Nat.mod_le _ _).trans (h.counted d hcap)
  · have hlt := Nat.mod_lt (w.subPool.side d).dormant.buckets.size (Nat.two_pow_pos 32)
    omega

end World

namespace Harness
variable {ι : Type} {h g : Harness ι} {ids : List Nat} {id k : Nat} {s s' : SubPool}
  {p p' : Position} {op : EngineOp} {reply : Reply}

def world (h : Harness ι) (id : Nat) (s : SubPool) : World :=
  ⟨s, h.positions.filter (fun _ p => p.subPoolId = id)⟩

/-- The harness hosts engine worlds, one for each of these sub-pools. -/
structure Hosting (ids : List Nat) (h : Harness ι) : Prop where
  listed : ∀ id ∈ ids, ∃ s, h.subPools.get? id = some s
  housed : ∀ id s, h.subPools.get? id = some s → (h.world id s).Housed h.market id
  lodged : ∀ k p, h.positions.get? k = some p → ∃ s, h.subPools.get? p.subPoolId = some s
  fresh : ∀ k p, h.positions.get? k = some p → k < h.nextPositionId

theorem world_get? (hk : h.positions.get? k = some p) (s : SubPool) :
    (h.world p.subPoolId s).positions.get? k = some p := by
  simp [world, OrdMap.get?_filter, hk]

theorem get?_insert_subPool (h : Harness ι) (id : Nat) (s' : SubPool) {i : Nat} {t : SubPool}
    (ht : h.subPools.get? i = some t) : ∃ t', (h.subPools.insert id s').get? i = some t' := by
  rw [OrdMap.get?_insert]
  split_ifs
  · exact ⟨s', rfl⟩
  · exact ⟨t, ht⟩

namespace Hosting

theorem withSubPool (hh : Hosting ids h) (hs : h.subPools.get? id = some s)
    (hc : op.call h.market (h.world id s) = some (.ok ({ h.world id s with subPool := s' }, reply)))
    (hm : g.market = h.market) (hsub : g.subPools = h.subPools.insert id s')
    (hpos : g.positions = h.positions) (hn : g.nextPositionId = h.nextPositionId) :
    Hosting ids g where
  listed := by
    intro i hi
    obtain ⟨t, ht⟩ := hh.listed i hi
    exact hsub ▸ get?_insert_subPool h id s' ht
  housed := by
    intro i t ht
    rw [hsub, OrdMap.get?_insert] at ht
    rw [hm, world, hpos]
    split_ifs at ht with hi
    · cases ht
      subst hi
      exact (hh.housed i s hs).call hc
    · exact hh.housed i t ht
  lodged := by
    intro k p hk
    obtain ⟨t, ht⟩ := hh.lodged k p (hpos ▸ hk)
    exact hsub ▸ get?_insert_subPool h id s' ht
  fresh := by
    intro k p hk
    rw [hn]
    exact hh.fresh k p (hpos ▸ hk)

theorem withPosition (hh : Hosting ids h) (hs : h.subPools.get? id = some s)
    (hc : op.call h.market (h.world id s)
      = some (.ok (⟨s', (h.world id s).positions.insert k p'⟩, reply)))
    (hp' : p'.subPoolId = id) (hk : ∀ p, h.positions.get? k = some p → p.subPoolId = id)
    (hm : g.market = h.market) (hsub : g.subPools = h.subPools.insert id s')
    (hpos : g.positions = h.positions.insert k p') (hle : h.nextPositionId ≤ g.nextPositionId)
    (hlt : k < g.nextPositionId) : Hosting ids g where
  listed := by
    intro i hi
    obtain ⟨t, ht⟩ := hh.listed i hi
    exact hsub ▸ get?_insert_subPool h id s' ht
  housed := by
    intro i t ht
    rw [hsub, OrdMap.get?_insert] at ht
    rw [hm, world, hpos]
    split_ifs at ht with hi
    · cases ht
      subst hi
      rw [OrdMap.filter_insert (by simp [hp'])]
      exact (hh.housed i s hs).call hc
    · have hother : ∀ q : Position, q.subPoolId = id → decide (q.subPoolId = i) = false := by
        rintro q rfl
        simpa [eq_comm] using hi
      have hfilter : (h.positions.insert k p').filter (fun _ q => decide (q.subPoolId = i))
          = h.positions.filter (fun _ q => decide (q.subPoolId = i)) :=
        OrdMap.filter_insert_other (hother p' hp') fun w hw => hother w (hk w hw)
      rw [hfilter]
      exact hh.housed i t ht
  lodged := by
    intro j q hq
    rw [hpos, OrdMap.get?_insert] at hq
    split_ifs at hq with hj
    · cases hq
      exact hsub ▸ get?_insert_subPool h id s' (hp' ▸ hs)
    · obtain ⟨t, ht⟩ := hh.lodged j q hq
      exact hsub ▸ get?_insert_subPool h id s' ht
  fresh := by
    intro j q hq
    rw [hpos, OrdMap.get?_insert] at hq
    split_ifs at hq with hj
    · exact hj ▸ hlt
    · exact (hh.fresh j q hq).trans_le hle

theorem of_pools (hh : Hosting ids h) (hm : g.market = h.market) (hs : g.subPools = h.subPools)
    (hp : g.positions = h.positions) (hn : g.nextPositionId = h.nextPositionId) :
    Hosting ids g := by
  obtain ⟨h1, h2, h3, h4⟩ := hh
  refine ⟨?_, ?_, ?_, ?_⟩
  · rwa [hs]
  · simp only [world, hs, hm, hp]
    exact h2
  · rwa [hs, hp]
  · rwa [hp, hn]

end Hosting
end Harness
end MoleFinance
