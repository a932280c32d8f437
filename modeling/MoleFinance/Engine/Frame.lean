import MoleFinance.Engine.Accounting
import MoleFinance.Dormant.Frame

/-! What every engine call leaves alone, whatever stores it is given: the gap between the
recovery shares of a side and those of its buckets, and the room in the ledger rings. -/
namespace MoleFinance
open MoleMath Call

namespace Side

/-- A step on one direction; `m` is the size of the ledger ring. -/
structure Framed (m : Nat) (x x' : Side) : Prop where
  direction_eq : x'.dormant.direction = x.dormant.direction
  gap_eq : x'.dormant.totalRecoveryShares + x.recoveryShares
    = x.dormant.totalRecoveryShares + x'.recoveryShares
  length_le : x.dormant.ledger.length ≤ m → x'.dormant.ledger.length ≤ m
  anchored : x.dormant.Anchored → x'.dormant.Anchored

namespace Framed
variable {m : Nat} {x x' x'' : Side}

theorem refl (x : Side) : Framed m x x := ⟨rfl, rfl, id, id⟩

theorem of_same (hd : x'.dormant = x.dormant) (hr : x'.recoveryShares = x.recoveryShares) :
    Framed m x x' := by
  refine ⟨by rw [hd], by rw [hd, hr], fun hl => by rw [hd]; exact hl, fun ha => ?_⟩
  rw [hd]
  exact ha

theorem trans (h : Framed m x x') (h' : Framed m x' x'') : Framed m x x'' := by
  refine ⟨h'.direction_eq.trans h.direction_eq, ?_, fun hl => h'.length_le (h.length_le hl),
    fun ha => h'.anchored (h.anchored ha)⟩
  have := h.gap_eq
  have := h'.gap_eq
  omega

theorem distributed {mode : DistributeMode} {p a : Nat} {r : DistributionReceipt}
    {dormant : DormantStore} (hr : x'.recoveryShares = x.recoveryShares)
    (hx : x'.dormant = dormant)
    (h : DormantStore.distributeBy mode p a m x.dormant = .ok r dormant) : Framed m x x' := by
  have hf := DormantStore.distributeBy_framed h
  subst hx
  refine ⟨hf.direction_eq, ?_, hf.length_le, DormantStore.anchored_of_profiles hf.profiles_eq⟩
  rw [hr, DormantStore.totalRecoveryShares_eq, DormantStore.totalRecoveryShares_eq,
    DormantStore.holdings_of_profiles hf.profiles_eq]

theorem shifted {dormant : DormantStore} {joined left : Nat} (hx : x'.dormant = dormant)
    (hs : x.dormant.Shifted dormant joined left)
    (hr : x'.recoveryShares + left = x.recoveryShares + joined) : Framed m x x' := by
  subst hx
  refine ⟨hs.direction_eq, ?_, fun hl => by rw [hs.ledger_eq]; exact hl, hs.anchored⟩
  have ht := hs.total_eq
  rw [DormantStore.totalRecoveryShares_eq, DormantStore.totalRecoveryShares_eq]
  omega

theorem upkeep {dormant : DormantStore} (hr : x'.recoveryShares = x.recoveryShares)
    (hx : x'.dormant = dormant) (h : x.dormant.Framed dormant) : Framed m x x' := by
  subst hx
  refine ⟨h.direction_eq, ?_, fun hl => by rw [h.ledger_eq]; exact hl,
    DormantStore.anchored_of_profiles h.profiles_eq⟩
  rw [hr, DormantStore.totalRecoveryShares_eq, DormantStore.totalRecoveryShares_eq,
    h.holdings_eq]

end Framed
end Side

namespace SubPool

structure Framed (m : Nat) (s s' : SubPool) : Prop where
  id_eq : s'.subPoolId = s.subPoolId
  sides : ∀ d, (s.side d).Framed m (s'.side d)

namespace Framed
variable {m : Nat} {s s' s'' : SubPool}

theorem refl (s : SubPool) : Framed m s s := ⟨rfl, fun d => .refl (s.side d)⟩

theorem trans (h : Framed m s s') (h' : Framed m s' s'') : Framed m s s'' :=
  ⟨h'.id_eq.trans h.id_eq, fun d => (h.sides d).trans (h'.sides d)⟩

theorem of_sides (hid : s'.subPoolId = s.subPoolId) (hs : ∀ d, s'.side d = s.side d) :
    Framed m s s' :=
  ⟨hid, fun d => .of_same (by rw [hs]) (by rw [hs])⟩

theorem setSide {d : Direction} {x : Side} (h : (s.side d).Framed m x) :
    Framed m s (s.setSide d x) := by
  refine ⟨s.setSide_subPoolId d x, fun e => ?_⟩
  rw [side_setSide_eq]
  split_ifs with he
  · rw [he]
    exact h
  · exact .refl _

end Framed
end SubPool

section Sync
variable {market : MarketParams} {s s' : SubPool}

theorem transferToRecovery_framed {p a inflow residual : Nat} {x x' : Side}
    (h : transferToRecovery market p a x = .ok (x', inflow, residual)) :
    x.Framed market.maxDistributionLedgerSize x' := by
  cases transferToRecovery_ok h with
  | inl h =>
    obtain ⟨-, rfl, -, -⟩ := h
    exact .refl _
  | inr h =>
    obtain ⟨dormant, r, -, hr, rfl, -, -⟩ := h
    exact .distributed rfl rfl hr

theorem transferTo_framed {p : Nat} {w : Direction} {demand : Demand} {inflow : Inflow}
    (h : transferTo market s p w demand = .ok (s', inflow)) :
    s.Framed market.maxDistributionLedgerSize s' := by
  cases transferTo_ok h with
  | inl h =>
    obtain ⟨-, rfl, -⟩ := h
    exact .refl _
  | inr h =>
    obtain ⟨t, a, x, -, -, -, -, -, hx, -, rfl⟩ := h
    have hw : (s.side w).Framed market.maxDistributionLedgerSize x := by
      refine Side.Framed.trans ?_ (transferToRecovery_framed hx)
      exact .of_same rfl rfl
    refine (SubPool.Framed.setSide hw).trans (.setSide ?_)
    rw [SubPool.side_setSide_opposite]
    exact .of_same rfl rfl

theorem settleDemands_framed {p : Nat} {demands : Demand × Demand} {long short : Inflow}
    (h : settleDemands market s p demands = .ok (s', long, short)) :
    s.Framed market.maxDistributionLedgerSize s' := by
  unfold settleDemands at h
  split_ifs at h with h1 h2
  · obtain ⟨⟨t, i⟩, ht, h⟩ := except_bind_ok.mp h
    cases h
    exact transferTo_framed ht
  · obtain ⟨⟨t, i⟩, ht, h⟩ := except_bind_ok.mp h
    cases h
    exact transferTo_framed ht
  · cases h
    exact .refl _

theorem rotateIfDrained_framed {m : Nat} {envelope : PriceEnvelope} {d : Direction}
    {ev : Option ActiveRotatedToRecoveryEvent}
    (h : rotateIfDrained market s envelope d = .ok (s', ev)) : s.Framed m s' := by
  cases rotateIfDrained_ok h with
  | inl h =>
    obtain ⟨-, rfl, -⟩ := h
    exact .refl _
  | inr h =>
    obtain ⟨-, -, x, ⟨tick, dormant, -, hd, -, -, rfl⟩, rfl⟩ := h
    exact .setSide (.shifted rfl (DormantStore.insertOrMerge_shifted envelope.pNow_lt hd) rfl)

theorem syncPool_framed {envelope : PriceEnvelope} {out : SyncOutcome}
    (h : syncPool market s envelope = .ok (s', out)) :
    s.Framed market.maxDistributionLedgerSize s' := by
  obtain ⟨-, hsync, -⟩ := syncPool_ok h
  cases hsync with
  | seeded h0 => exact .of_sides rfl (s.side_atPrice envelope)
  | still h0 hp => exact .of_sides rfl (fun d => by cases d <;> rfl)
  | moved demands s1 s2 _ long short lr sr _ h0 hp hdem hset hl hsh =>
    have h1 := settleDemands_framed hset
    have h2 : s1.Framed market.maxDistributionLedgerSize (s1.atPrice envelope) :=
      .of_sides rfl (s1.side_atPrice envelope)
    exact h1.trans (h2.trans ((rotateIfDrained_framed hl).trans (rotateIfDrained_framed hsh)))

end Sync

section Parts
variable {m : Nat} {s s' : SubPool} {p p' : Position}

theorem burnActive_framed {value : Nat} (h : burnActive s p value = .ok (s', p')) :
    s.Framed m s' := by
  obtain ⟨-, -, -, rfl, -⟩ := burnActive_ok h
  exact .setSide (.of_same rfl rfl)

theorem redeemActive_framed {value : Nat} (h : redeemActive s p = .ok (s', p', value)) :
    s.Framed m s' := by
  cases redeemActive_ok h with
  | inl h =>
    obtain ⟨-, rfl, -, -⟩ := h
    exact .refl _
  | inr h => exact burnActive_framed h.2.2.2.2

theorem forfeitActive_framed {burned removed : Nat}
    (h : forfeitActive s p = .ok (s', p', burned, removed)) : s.Framed m s' := by
  cases forfeitActive_ok h with
  | inl h =>
    obtain ⟨-, rfl, -⟩ := h
    exact .refl _
  | inr h => exact burnActive_framed h.2.1

theorem redeemRecovery_framed {tick : Int} {r : RedeemReceipt}
    (h : redeemRecovery s p = .ok (s', p', tick, r)) : s.Framed m s' := by
  obtain ⟨-, dormant, hd, hle, rfl, -⟩ := redeemRecovery_ok h
  exact .setSide (.shifted rfl (DormantStore.redeem_shifted hd) (Nat.sub_add_cancel hle))

theorem settleRecovery_framed {r : RedeemReceipt}
    (h : settleRecovery s p = .ok (s', p', r)) : s.Framed m s' := by
  cases settleRecovery_ok h with
  | inl h =>
    obtain ⟨-, rfl, -, -⟩ := h
    exact .refl _
  | inr h =>
    obtain ⟨-, tick, h⟩ := h
    exact redeemRecovery_framed h

theorem addDust_framed {d : Direction} {a : Nat} (h : addDust s d a = .ok s') :
    s.Framed m s' := by
  rw [addDust_ok h]
  exact .setSide (.of_same rfl rfl)

end Parts

section Calls
variable {market : MarketParams} {s s' : SubPool} {envelope : PriceEnvelope} {p p' : Position}
  {d : Direction}

theorem openPosition_framed {gross id : Nat} {out : OpenOutcome}
    (h : openPosition market s envelope d gross id = .ok (s', p, out)) :
    s.Framed market.maxDistributionLedgerSize s' := by
  obtain ⟨s1, sync, ho⟩ := openPosition_ok h
  rw [ho.state]
  exact (syncPool_framed ho.synced).trans (.setSide (.of_same rfl rfl))

theorem closePosition_framed {out : CloseOutcome}
    (h : closePosition market s envelope p = .ok (s', p', out)) :
    s.Framed market.maxDistributionLedgerSize s' := by
  obtain ⟨s1, s2, sync, p1, p2, p3, b, r, hc⟩ := closePosition_ok h
  have h2 := (syncPool_framed hc.synced).trans (redeemActive_framed hc.active)
  exact h2.trans (settleRecovery_framed hc.recovery)

theorem forceClose_framed {ack : Bool} {out : ForceCloseOutcome}
    (h : forceCloseZeroValuePosition market s envelope p ack = .ok (s', p', out)) :
    s.Framed market.maxDistributionLedgerSize s' := by
  obtain ⟨s1, s2, s3, sync, p1, p2, p3, b, burned, removed, r, hc⟩ := forceClose_ok h
  have h2 := (syncPool_framed hc.synced).trans (forfeitActive_framed hc.active)
  have h3 := h2.trans (settleRecovery_framed hc.recovery)
  exact h3.trans (addDust_framed hc.dust)

theorem claim_framed {out : ClaimRecoveryOutcome}
    (h : claimDormantRecovery market s envelope p = .ok (s', p', out)) :
    s.Framed market.maxDistributionLedgerSize s' := by
  obtain ⟨s1, sync, p1, p2, b, tick, r, hc⟩ := claim_ok h
  exact (syncPool_framed hc.synced).trans (redeemRecovery_framed hc.recovery)

theorem harvest_framed {m : Nat} {out : HarvestOutcome}
    (h : harvestDust market s d = .ok (s', out)) : s.Framed m s' := by
  obtain ⟨-, rfl, -⟩ := harvest_ok h
  exact .setSide (.of_same rfl rfl)

theorem preSync_framed {m : Nat} {tick : Int} {slot : Nat} {out : PreSyncOutcome}
    (h : preSyncDormantBucket market s d tick slot = .ok (s', out)) : s.Framed m s' := by
  obtain ⟨n, dormant, hd, rfl, -⟩ := preSync_ok h
  exact .setSide (.upkeep rfl rfl (DormantStore.applyPendingToBucket_framed hd))

end Calls

end MoleFinance
