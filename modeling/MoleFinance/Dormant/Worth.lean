import MoleFinance.Dormant.Book
import MoleFinance.Dormant.Holdings
import MoleFinance.Lib.ProRata

/-! What recovery shares are worth. A distribution adds to a bucket, a redemption by someone
else leaves the rest what it had; only shares merged into a bucket with funds take some away. -/
namespace MoleFinance
open MoleMath Call

namespace Book
variable {v v' : Book} {tick j : Int}

def worthAt (v : Book) (tick : Int) (part : Nat) : Nat :=
  match v.buckets.get? tick with
  | none => 0
  | some b => proRata b.accruedValue b.totalRecoveryShares part

theorem worthAt_some {b : DormantBucket} (h : v.buckets.get? tick = some b) (part : Nat) :
    v.worthAt tick part = proRata b.accruedValue b.totalRecoveryShares part := by
  rw [worthAt, h]

theorem worthAt_none (h : v.buckets.get? tick = none) (part : Nat) : v.worthAt tick part = 0 := by
  rw [worthAt, h]

theorem worthAt_congr (h : v'.buckets.get? tick = v.buckets.get? tick) (part : Nat) :
    v'.worthAt tick part = v.worthAt tick part := by
  rw [worthAt, worthAt, h]

theorem credit_worthAt (v : Book) (p a t : Nat) (tick : Int) (part : Nat) :
    v.worthAt tick part ≤ (v.credit p a t).worthAt tick part := by
  cases hb : v.buckets.get? tick with
  | none =>
    rw [worthAt_none hb]
    exact Nat.zero_le _
  | some b =>
    have hb' : (v.credit p a t).buckets.get? tick
        = some { b with accruedValue := b.accruedValue + v.share p a t b } := by
      simp only [credit, OrdMap.get?_mapVal, hb, Option.map_some]
    rw [worthAt_some hb, worthAt_some hb']
    exact proRata_mono (Nat.le_add_right _ _)

theorem distribute_ok {p a : Nat} {r : DistributionReceipt}
    (h : distribute p a v = .ok r v') : v' = v ∨ ∃ t, v' = v.credit p a t := by
  unfold distribute at h
  split at h
  · cases h
    exact .inl rfl
  · split at h
    · cases h
    · split at h
      · cases h
        exact .inl rfl
      · cases h
        exact .inr ⟨_, rfl⟩

theorem insertOrMerge_ok {anchor shares notional count cap : Nat} {u : Unit}
    (h : insertOrMerge tick anchor shares notional count cap v = .ok u v') :
    (∃ b b', v.buckets.get? tick = some b ∧ mergeBucket shares notional count b = .ok () b' ∧
      v' = { v with buckets := v.buckets.insert tick b' }) ∨
    (v.buckets.get? tick = none ∧ v' = { v with
      buckets := v.buckets.insert tick
        (DormantStore.freshBucket v.direction tick anchor shares notional count 0) }) := by
  unfold insertOrMerge at h
  cases hb : v.buckets.get? tick with
  | some b =>
    simp only [hb] at h
    cases hm : mergeBucket shares notional count b with
    | ok u b' =>
      simp only [hm] at h
      cases h
      exact .inl ⟨b, b', rfl, hm, rfl⟩
    | error e b' =>
      simp only [hm] at h
      cases h
  | none =>
    simp only [hb] at h
    split_ifs at h
    cases h
    exact .inr ⟨rfl, rfl⟩

/-- Shares of another bucket, or ones that were worth nothing, lose nothing to a merge. -/
theorem insertOrMerge_worthAt {anchor shares notional count cap : Nat} {u : Unit}
    (h : insertOrMerge tick anchor shares notional count cap v = .ok u v') {part : Nat}
    (hj : j ≠ tick ∨ v.worthAt j part = 0) : v.worthAt j part ≤ v'.worthAt j part := by
  cases hj with
  | inl hj =>
    refine (worthAt_congr ?_ part).ge
    cases insertOrMerge_ok h with
    | inl h =>
      obtain ⟨b, b', -, -, rfl⟩ := h
      exact OrdMap.get?_insert_ne _ _ hj
    | inr h =>
      obtain ⟨-, rfl⟩ := h
      exact OrdMap.get?_insert_ne _ _ hj
  | inr hj =>
    rw [hj]
    exact Nat.zero_le _

theorem redeem_ok {shares : Nat} {r : RedeemReceipt} (h0 : shares ≠ 0)
    (h : redeem tick shares v = .ok r v') :
    ∃ b b', v.buckets.get? tick = some b ∧ shares ≤ b.totalRecoveryShares ∧
      burnShares shares b = .ok (r, b') ∧
      v' = { v with buckets := replaceBucket v.buckets tick b' } := by
  unfold redeem at h
  cases hb : v.buckets.get? tick with
  | none =>
    simp only [hb] at h
    cases h
  | some b =>
    simp only [hb, if_neg h0] at h
    split_ifs at h with hlt
    cases hm : burnShares shares b with
    | error e =>
      simp only [hm] at h
      cases h
    | ok rb =>
      simp only [hm] at h
      cases h
      exact ⟨b, rb.2, rfl, not_lt.mp hlt, hm, rfl⟩

theorem redeem_pays {shares : Nat} {r : RedeemReceipt} (h0 : shares ≠ 0)
    (hlt : ∀ b, v.buckets.get? tick = some b → b.totalRecoveryShares < u128Size)
    (h : redeem tick shares v = .ok r v') : r.redeemable = v.worthAt tick shares := by
  obtain ⟨b, b', hb, -, hm, -⟩ := redeem_ok h0 h
  rw [worthAt_some hb]
  exact (mulDivFloor_ok (hlt b hb) (burnShares_ok hm).1).2

theorem get?_replaceBucket_ne (m : BucketMap) {b : DormantBucket} (hj : j ≠ tick) :
    (replaceBucket m tick b).get? j = m.get? j := by
  unfold replaceBucket
  split_ifs
  · rw [OrdMap.get?_erase, if_neg hj]
  · exact OrdMap.get?_insert_ne _ _ hj

theorem redeem_worthAt {shares part : Nat} {r : RedeemReceipt} (h0 : shares ≠ 0)
    (hlt : ∀ b, v.buckets.get? tick = some b → b.totalRecoveryShares < u128Size)
    (h : redeem tick shares v = .ok r v')
    (hj : j = tick → ∀ b, v.buckets.get? tick = some b → shares + part ≤ b.totalRecoveryShares) :
    v.worthAt j part ≤ v'.worthAt j part := by
  have hpays := redeem_pays h0 hlt h
  obtain ⟨b, b', hb, hle, hm, rfl⟩ := redeem_ok h0 h
  by_cases hjt : j = tick
  · subst hjt
    have hsum := hj rfl b hb
    obtain ⟨-, -, -, -, -, -, hb'⟩ := burnShares_ok hm
    by_cases hp : part = 0
    · simp [worthAt_some hb, hp]
    have hlive : ¬ (b'.totalRecoveryShares = 0 ∧ b'.accruedValue = 0) := by
      rw [hb']
      simp only
      omega
    have hget : (replaceBucket v.buckets j b').get? j = some b' := by
      rw [replaceBucket, if_neg hlive, OrdMap.get?_insert_self]
    rw [worthAt_some hb,
      worthAt_some (v := { v with buckets := replaceBucket v.buckets j b' }) hget]
    rw [worthAt_some hb] at hpays
    rw [hb']
    simp only [hpays]
    exact proRata_leave hsum
  · exact (worthAt_congr (get?_replaceBucket_ne v.buckets hjt) part).ge

end Book

namespace DormantStore

theorem sharesAt_of_book {s : DormantStore} {tick : Int} {b : DormantBucket}
    (h : s.book.buckets.get? tick = some b) :
    s.holdings.sharesAt tick = b.totalRecoveryShares := by
  have hv : (s.buckets.get? tick).map (fun c => { c with
      accruedValue := c.accruedValue + s.owed c, lastAppliedIndex := 0 }) = some b :=
    (OrdMap.get?_mapVal _ s.buckets tick).symm.trans h
  obtain ⟨c, hc, rfl⟩ := Option.map_eq_some_iff.mp hv
  rw [Holdings.sharesAt, holdings_get?, hc]
  rfl

end DormantStore
end MoleFinance
