import MoleFinance.Dormant.Fairness
import MoleFinance.Dormant.Equivalence
import MoleFinance.Dormant.Claims

/-! A store with nothing in flight: what it reads as its outstanding claims is what its buckets
claim, and the claims follow the price. -/
namespace MoleFinance
open MoleMath Call

def Direction.Favours : Direction → Nat → Nat → Prop
  | .long, p, p' => p ≤ p'
  | .short, p, p' => p' ≤ p

theorem Direction.Favours.opposite {d : Direction} {p p' : Nat} (h : d.Favours p p') :
    d.opposite.Favours p' p := by
  cases d <;> exact h

theorem DormantBucket.intrinsicClaimAt_mono {b : DormantBucket} {p p' i i' : Nat}
    (hd : b.direction.Favours p p') (ha : b.anchorPrice < u128Size)
    (h : b.intrinsicClaimAt p = .ok i) (h' : b.intrinsicClaimAt p' = .ok i') : i ≤ i' := by
  unfold DormantBucket.intrinsicClaimAt computeIntrinsic at h h'
  by_cases hz : b.anchorPrice = 0 ∨ b.totalRecoveryNotional = 0
  · rw [if_pos hz] at h
    cases h
    exact Nat.zero_le _
  rw [if_neg hz] at h h'
  cases hdir : b.direction with
  | long =>
    rw [hdir] at hd
    simp only [hdir] at h h'
    simp only [Direction.Favours] at hd
    by_cases hp : p ≤ b.anchorPrice
    · rw [if_pos hp] at h
      cases h
      exact Nat.zero_le _
    · rw [if_neg hp] at h
      rw [if_neg (by omega)] at h'
      rw [(mulDivFloor_ok ha (math_ok.mp h)).2, (mulDivFloor_ok ha (math_ok.mp h')).2]
      exact Nat.div_le_div_right (Nat.mul_le_mul_left _ (Nat.sub_le_sub_right hd _))
  | short =>
    rw [hdir] at hd
    simp only [hdir] at h h'
    simp only [Direction.Favours] at hd
    by_cases hp : b.anchorPrice ≤ p
    · rw [if_pos hp] at h
      cases h
      exact Nat.zero_le _
    · rw [if_neg hp] at h
      rw [if_neg (by omega)] at h'
      rw [(mulDivFloor_ok ha (math_ok.mp h)).2, (mulDivFloor_ok ha (math_ok.mp h')).2]
      exact Nat.div_le_div_right (Nat.mul_le_mul_left _ (Nat.sub_le_sub_left hd _))

namespace DormantStore
variable {s s' : DormantStore} {p p' a m : Nat} {tick : Int}

theorem distribute_pending_le {r : DistributionReceipt} (h : s.Inv)
    (hr : distributeBy .eager p a m s = .ok r s') :
    s'.pendingDistributionTotal ≤ s.pendingDistributionTotal := by
  have hd := distributeBy_cases h .eager p a m
  rw [hr] at hd
  cases hd with
  | idle _ hu _ => exact hu.pending_le
  | recorded s1 t total ha ht hrec => exact hrec.upkeep.pending_le

theorem insertOrMerge_pending_le {anchor shares notional count cap : Nat} {u : Unit} (h : s.Inv)
    (hr : insertOrMerge tick anchor shares notional count cap s = .ok u s') :
    s'.pendingDistributionTotal ≤ s.pendingDistributionTotal := by
  have hd := insertOrMerge_cases h tick anchor shares notional count cap
  rw [hr] at hd
  cases hd with
  | merged s1 b b' hu hc hb hm => exact hu.pending_le
  | inserted hb hn => exact le_rfl

theorem redeem_pending_le {shares : Nat} {r : RedeemReceipt} (h : s.Inv)
    (hr : redeem tick shares s = .ok r s') :
    s'.pendingDistributionTotal ≤ s.pendingDistributionTotal := by
  have hd := redeem_cases h tick shares
  rw [hr] at hd
  cases hd with
  | burned s1 b b' _ hu hc hb h0 hle hm => exact hu.pending_le
  | nothing _ b hu hc hb h0 => exact hu.pending_le

theorem totalOutstanding_clear (h : s.Inv) (h0 : s.pendingDistributionTotal = 0) {t : Nat}
    (ht : s.totalOutstandingClaimAt p = .ok t) :
    t = s.outstandingTotal p ∧
      ∀ k b, s.buckets.get? k = some b → ∃ i, b.intrinsicClaimAt p = .ok i := by
  have hset : ∀ k ∈ activatedKeys s.direction s.buckets p, s.Settled k :=
    fun k _ => h.settled_of_pending h0 k
  have hbook : s.book.totalOutstanding p = .ok t := by
    rw [totalOutstandingClaimAt, sumOutstanding_view hset, ← activatedKeys_view] at ht
    exact ht
  refine ⟨?_, fun k b hb => h.intrinsic_of hbook hb⟩
  rw [h.outstandingTotal_eq]
  exact Book.totalOutstanding_eq h.book_sided hbook

theorem outstandingTotal_mono (h : s.Inv) (ha : s.Anchored) (hd : s.direction.Favours p p')
    (hi : ∀ k b, s.buckets.get? k = some b → ∃ i, b.intrinsicClaimAt p = .ok i)
    (hi' : ∀ k b, s.buckets.get? k = some b → ∃ i, b.intrinsicClaimAt p' = .ok i) :
    s.outstandingTotal p ≤ s.outstandingTotal p' := by
  refine OrdMap.sum_le_sum fun k b hb => Nat.sub_le_sub_right ?_ _
  obtain ⟨i, h1⟩ := hi k b hb
  obtain ⟨i', h2⟩ := hi' k b hb
  rw [intrinsicAt, intrinsicAt, hb]
  simp only [h1, h2, valueOr0_ok]
  rw [← (h.bucketOk k b hb).direction_eq] at hd
  exact DormantBucket.intrinsicClaimAt_mono hd (ha.u128 k b hb) h1 h2

structure Enlarged (s s' : DormantStore) (tick : Int) (anchor shares notional count : Nat) :
    Prop where
  others : ∀ j, j ≠ tick → s'.buckets.get? j = s.buckets.get? j
  joined : (s.buckets.get? tick = none ∧ s'.buckets.get? tick = some
      (freshBucket s.direction tick anchor shares notional count s.nextEventIndex)) ∨
    ∃ b, s.buckets.get? tick = some b ∧ s'.buckets.get? tick = some { b with
      totalRecoveryShares := b.totalRecoveryShares + shares
      totalRecoveryNotional := b.totalRecoveryNotional + notional
      positionCount := b.positionCount + count
      lastAppliedIndex := s.nextEventIndex }

theorem insertOrMerge_enlarged {anchor shares notional count cap : Nat} {u : Unit} (h : s.Inv)
    (h0 : s.pendingDistributionTotal = 0)
    (hr : insertOrMerge tick anchor shares notional count cap s = .ok u s') :
    s.Enlarged s' tick anchor shares notional count := by
  unfold insertOrMerge at hr
  rw [get_bind] at hr
  split_ifs at hr with hc hn
  · obtain ⟨n, s1, h1, hr⟩ := bind_ok.mp hr
    obtain rfl := applyPendingToBucket_ok h h1
    obtain ⟨b, hb⟩ := OrdMap.contains_iff.mp hc
    have hsb : (s.settle tick).buckets.get? tick = some (s.replayed b) := by
      rw [settle_get?, if_pos rfl, hb]
      rfl
    have ho : s.owed b = 0 := by
      have := h.owed_le hb
      omega
    unfold onBucket at hr
    simp only [hsb] at hr
    cases hm : mergeBucket shares notional count (s.replayed b) with
    | error e b' =>
      simp only [hm] at hr
      cases hr
    | ok u b' =>
      simp only [hm] at hr
      cases hr
      obtain ⟨-, -, -, rfl⟩ := mergeBucket_ok hm
      refine ⟨fun j hj => ?_, .inr ⟨b, hb, ?_⟩⟩
      · rw [setBucket, OrdMap.get?_insert_ne _ _ hj, settle_get?, if_neg hj]
      · rw [setBucket, OrdMap.get?_insert_self]
        simp only [replayed, ho, Nat.add_zero]
  · cases hr
  · cases hr
    have hb : s.buckets.get? tick = none := by
      simpa [OrdMap.contains] using hc
    exact ⟨fun j hj => OrdMap.get?_insert_ne _ _ hj, .inl ⟨hb, OrdMap.get?_insert_self _ _ _⟩⟩

end DormantStore
end MoleFinance
