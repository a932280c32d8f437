import MoleFinance.Dormant.Frame
import MoleFinance.Dormant.Book

/-! Sums of claims. When the claims of a store fit the word, its outstanding total is computed
and a distribution that finds room in the ring returns. -/
namespace MoleFinance
open MoleMath Call

/-- What a bucket claims at a price, funds already accrued not deducted. -/
def DormantBucket.claimAt (b : DormantBucket) (p : Nat) : Nat :=
  match b.direction with
  | .long => b.totalRecoveryNotional * (p - b.anchorPrice) / b.anchorPrice
  | .short => b.totalRecoveryNotional * (b.anchorPrice - p) / b.anchorPrice

theorem intrinsicClaimAt_of {b : DormantBucket} {p : Nat} (ha : b.anchorPrice < u128Size)
    (hc : b.claimAt p < u128Size) : b.intrinsicClaimAt p = .ok (b.claimAt p) := by
  unfold DormantBucket.intrinsicClaimAt computeIntrinsic
  by_cases hz : b.anchorPrice = 0 ∨ b.totalRecoveryNotional = 0
  · have h0 : b.claimAt p = 0 := by
      unfold DormantBucket.claimAt
      rcases hz with hz | hz <;> cases b.direction <;> simp [hz]
    rw [if_pos hz, h0]
  · rw [if_neg hz]
    rw [not_or] at hz
    unfold DormantBucket.claimAt at hc ⊢
    cases hd : b.direction with
    | long =>
      simp only [hd] at hc ⊢
      by_cases hp : p ≤ b.anchorPrice
      · rw [if_pos hp, Nat.sub_eq_zero_of_le hp, Nat.mul_zero, Nat.zero_div]
      · rw [if_neg hp, mulDivFloor_eq ha, if_neg hz.1, if_pos hc, math_ok_eq]
    | short =>
      simp only [hd] at hc ⊢
      by_cases hp : b.anchorPrice ≤ p
      · rw [if_pos hp, Nat.sub_eq_zero_of_le hp, Nat.mul_zero, Nat.zero_div]
      · rw [if_neg hp, mulDivFloor_eq ha, if_neg hz.1, if_pos hc, math_ok_eq]

theorem outstandingClaimAt_of {b : DormantBucket} {p : Nat} (ha : b.anchorPrice < u128Size)
    (hc : b.claimAt p < u128Size) :
    b.outstandingClaimAt p = .ok (b.claimAt p - b.accruedValue) := by
  rw [DormantBucket.outstandingClaimAt, intrinsicClaimAt_of ha hc]
  rfl

theorem outstandingClaimAt_error {b : DormantBucket} {p : Nat} {e : ClearingError}
    (hb : b.anchorPrice < u128Size) (h : b.outstandingClaimAt p = .error e) :
    e = .mathOverflow := by
  have hmath : ∀ q, b.anchorPrice ≠ 0 →
      math (mulDivFloor b.totalRecoveryNotional q b.anchorPrice) = .error e →
      e = .mathOverflow := by
    intro q h0 h
    rw [mulDivFloor_eq hb, if_neg h0] at h
    split_ifs at h
    · cases h
    · cases h
      rfl
  obtain h | ⟨_, -, h⟩ := except_bind_error.mp h
  swap
  · cases h
  unfold DormantBucket.intrinsicClaimAt computeIntrinsic at h
  by_cases h0 : b.anchorPrice = 0 ∨ b.totalRecoveryNotional = 0
  · rw [if_pos h0] at h
    cases h
  rw [if_neg h0] at h
  rw [not_or] at h0
  cases hd : b.direction with
  | long =>
    simp only [hd] at h
    by_cases hp : p ≤ b.anchorPrice
    · rw [if_pos hp] at h
      cases h
    · rw [if_neg hp] at h
      exact hmath _ h0.1 h
  | short =>
    simp only [hd] at h
    by_cases hp : b.anchorPrice ≤ p
    · rw [if_pos hp] at h
      cases h
    · rw [if_neg hp] at h
      exact hmath _ h0.1 h

def claimsOf (buckets : BucketMap) (p : Nat) : Nat := buckets.sum (fun _ b => b.claimAt p)

theorem sumOutstanding_of {buckets : BucketMap} {p : Nat} {keys : List Int} {total : Nat}
    (hn : keys.Nodup) (hk : ∀ k ∈ keys, ∃ b, buckets.get? k = some b)
    (ha : ∀ k b, buckets.get? k = some b → b.anchorPrice < u128Size)
    (ht : total + buckets.sum (fun k b => if k ∈ keys then b.claimAt p else 0) < u128Size) :
    ∃ t, sumOutstanding buckets p total keys = .ok t ∧
      t ≤ total + buckets.sum (fun k b => if k ∈ keys then b.claimAt p else 0) := by
  induction keys generalizing total with
  | nil => exact ⟨total, rfl, Nat.le_add_right _ _⟩
  | cons key keys ih =>
    obtain ⟨hkey, hn⟩ := List.nodup_cons.mp hn
    obtain ⟨b, hb⟩ := hk key List.mem_cons_self
    rw [OrdMap.sum_adjust_cons (fun _ b => b.claimAt p) hb hkey] at ht ⊢
    have hstep : addOutstanding buckets p total key
        = .ok (total + (b.claimAt p - b.accruedValue)) := by
      unfold addOutstanding
      simp only [hb]
      rw [outstandingClaimAt_of (ha key b hb) (by omega), ok_bind, math_add_of (by omega)]
    obtain ⟨t, h, hle⟩ := ih hn
      (fun k hm => hk k (List.mem_cons_of_mem key hm))
      (show total + (b.claimAt p - b.accruedValue) + _ < u128Size by omega)
    refine ⟨t, ?_, by omega⟩
    rw [sumOutstanding, hstep, ok_bind, h]

theorem sumOutstanding_error {buckets : BucketMap} {keys : List Int} {p total : Nat}
    {e : ClearingError} (hk : ∀ k ∈ keys, ∃ b, buckets.get? k = some b)
    (ha : ∀ k b, buckets.get? k = some b → b.anchorPrice < u128Size)
    (h : sumOutstanding buckets p total keys = .error e) : e = .mathOverflow := by
  induction keys generalizing total with
  | nil => cases h
  | cons key keys ih =>
    rw [sumOutstanding] at h
    obtain h | ⟨next, -, h⟩ := except_bind_error.mp h
    · obtain ⟨b, hb⟩ := hk key List.mem_cons_self
      unfold addOutstanding at h
      simp only [hb] at h
      obtain h | ⟨o, -, h⟩ := except_bind_error.mp h
      · exact outstandingClaimAt_error (ha key b hb) h
      · by_cases hlt : total + o < u128Size
        · rw [math_add_of hlt] at h
          cases h
        · rw [math_add_not hlt] at h
          cases h
          rfl
    · exact ih (fun k hm => hk k (List.mem_cons_of_mem key hm)) h

namespace DormantStore

def claims (s : DormantStore) (p : Nat) : Nat := claimsOf s.buckets p

theorem claims_view (s : DormantStore) (p : Nat) : claimsOf s.view p = s.claims p :=
  OrdMap.sum_mapVal _ _ _

theorem sumOutstanding_activated {direction : Direction} {buckets : BucketMap} {p : Nat}
    (ha : ∀ k b, buckets.get? k = some b → b.anchorPrice < u128Size)
    (hc : claimsOf buckets p < u128Size) :
    ∃ t, sumOutstanding buckets p 0 (activatedKeys direction buckets p) = .ok t ∧
      t ≤ claimsOf buckets p := by
  have hle : buckets.sum (fun k b =>
      if k ∈ activatedKeys direction buckets p then b.claimAt p else 0) ≤ claimsOf buckets p := by
    apply OrdMap.sum_le_sum
    intro k b _
    split_ifs
    · exact le_rfl
    · exact Nat.zero_le _
  have ht0 := (Nat.zero_add _).trans_lt (hle.trans_lt hc)
  obtain ⟨t, h, ht⟩ := sumOutstanding_of (activatedKeys_nodup direction buckets p)
    (fun k hk => (mem_activatedKeys.mp hk).imp fun _ h => h.1) ha ht0
  exact ⟨t, h, by omega⟩

theorem Anchored.u128 {s : DormantStore} (h : s.Anchored) :
    ∀ k b, s.buckets.get? k = some b → b.anchorPrice < u128Size := by
  intro k b hb
  have := h k b hb
  unfold u64Size at this
  unfold u128Size
  omega

theorem Anchored.view {s : DormantStore} (h : s.Anchored) :
    ∀ k b, s.view.get? k = some b → b.anchorPrice < u128Size := by
  intro k b hb
  rw [DormantStore.view, OrdMap.get?_mapVal] at hb
  obtain ⟨b0, hb0, rfl⟩ := Option.map_eq_some_iff.mp hb
  exact h.u128 k b0 hb0

theorem totalOutstanding_error {s : DormantStore} {p : Nat} {e : ClearingError} (ha : s.Anchored)
    (h : s.totalOutstandingClaimAt p = .error e) : e = .mathOverflow :=
  sumOutstanding_error (fun _ hk => (mem_activatedKeys.mp hk).imp fun _ h => h.1) ha.u128 h

theorem totalOutstandingClaimAt_of {s : DormantStore} {p : Nat} (h : s.Anchored)
    (hc : s.claims p < u128Size) :
    ∃ t, s.totalOutstandingClaimAt p = .ok t ∧ t ≤ s.claims p :=
  sumOutstanding_activated h.u128 hc

theorem sumOutstanding_view_of {s : DormantStore} {p : Nat} (h : s.Anchored)
    (hc : s.claims p < u128Size) :
    ∃ t, sumOutstanding s.view p 0 (activatedKeys s.direction s.view p) = .ok t ∧
      t ≤ s.claims p := by
  rw [← claims_view] at hc ⊢
  exact sumOutstanding_activated h.view hc

theorem fits_of {s : DormantStore} {p a : Nat} (h : s.Anchored) (hc : s.claims p < u128Size)
    (ha : s.accruedValueTotal + s.pendingDistributionTotal + a < u128Size)
    (hn : s.nextEventIndex + 1 < u64Size) : s.Fits p a := by
  intro t ht h0
  obtain ⟨t', h', hle⟩ := sumOutstanding_view_of h hc
  rw [ht] at h'
  obtain rfl := Except.ok.inj h'
  have ha' : a < u128Size := by omega
  obtain ⟨total, hq, hle'⟩ := quoteShares_of ha' h0 (by omega) (Nat.zero_mul t).le ht le_rfl
  have htot := Nat.le_of_mul_le_mul_right hle' (Nat.pos_of_ne_zero h0)
  exact ⟨total, hq, htot, by omega, hn⟩

theorem distributeBy_of (mode : DistributeMode) (m : Nat) {s : DormantStore} {p a : Nat}
    (hi : s.Inv)
    (h : s.Anchored) (hc : s.claims p < u128Size)
    (ha : s.accruedValueTotal + s.pendingDistributionTotal + a < u128Size)
    (hn : s.nextEventIndex + 1 < u64Size) :
    (∃ r s', distributeBy mode p a m s = .ok r s' ∧ r.residual ≤ a) ∨
      ∃ s', distributeBy mode p a m s = .error .ledgerCapacityExceeded s' := by
  have hd := distributeBy_cases hi mode p a m
  cases hr : distributeBy mode p a m s with
  | ok r s' =>
    have hsplit := (distributeBy_effect hi hr).split
    exact .inl ⟨r, s', rfl, by omega⟩
  | error e s' =>
    rw [hr] at hd
    cases hd with
    | full _ _ _ => exact .inr ⟨s', rfl⟩
    | claims _ _ _ _ he =>
      obtain ⟨t, ht, -⟩ := sumOutstanding_view_of h hc
      rw [ht] at he
      cases he
    | tooMuch _ _ hb =>
      refine (hb.elim (fun hb => hb ?_) (fun hf => hf (fits_of h hc ha hn))).elim
      unfold Bounded
      omega

end DormantStore
end MoleFinance
