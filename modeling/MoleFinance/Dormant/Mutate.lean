import MoleFinance.Dormant.Distribute

/-! Structural mutations of a store: merging into a bucket, burning shares, adding and
removing buckets. Each works on a bucket at the ledger head, whose trail is empty. -/
namespace MoleFinance
open MoleMath Call

structure SameTrail (b b' : DormantBucket) : Prop where
  direction_eq : b'.direction = b.direction
  tick_eq : b'.zeroPriceTick = b.zeroPriceTick
  anchor_eq : b'.anchorPrice = b.anchorPrice
  index_eq : b'.lastAppliedIndex = b.lastAppliedIndex

theorem mergeBucket_frame (shares notional count : Nat) (b : DormantBucket) :
    (∃ b', mergeBucket shares notional count b = .ok () b' ∧ SameTrail b b' ∧
      b'.accruedValue = b.accruedValue) ∨
    (∃ e b', mergeBucket shares notional count b = .error e b' ∧ SameTrail b b' ∧
      b'.accruedValue = b.accruedValue) := by
  rw [mergeBucket, get_bind]
  cases math (checkedAdd b.totalRecoveryShares shares) with
  | error e => exact .inr ⟨e, b, rfl, ⟨rfl, rfl, rfl, rfl⟩, rfl⟩
  | ok sh =>
    rw [orFail_ok_bind, set_bind]
    cases math (checkedAdd b.totalRecoveryNotional notional) with
    | error e => exact .inr ⟨e, _, rfl, ⟨rfl, rfl, rfl, rfl⟩, rfl⟩
    | ok n =>
      rw [orFail_ok_bind, set_bind]
      by_cases hc : b.positionCount + count < u64Size
      · rw [ensure_of hc]
        exact .inl ⟨_, rfl, ⟨rfl, rfl, rfl, rfl⟩, rfl⟩
      · rw [ensure_not hc]
        exact .inr ⟨_, _, rfl, ⟨rfl, rfl, rfl, rfl⟩, rfl⟩

theorem mergeBucket_ok {shares notional count : Nat} {b b' : DormantBucket} {u : Unit}
    (h : mergeBucket shares notional count b = .ok u b') :
    b.totalRecoveryShares + shares < u128Size ∧ b.totalRecoveryNotional + notional < u128Size ∧
    b.positionCount + count < u64Size ∧
    b' = { b with
      totalRecoveryShares := b.totalRecoveryShares + shares
      totalRecoveryNotional := b.totalRecoveryNotional + notional
      positionCount := b.positionCount + count } := by
  rw [mergeBucket, get_bind, orFail_bind_run_ok] at h
  obtain ⟨sh, hsh, h⟩ := h
  obtain ⟨hs, rfl⟩ := math_add_ok.mp hsh
  rw [set_bind, orFail_bind_run_ok] at h
  obtain ⟨n, hno, h⟩ := h
  obtain ⟨hn, rfl⟩ := math_add_ok.mp hno
  rw [set_bind, orFail_bind_run_ok] at h
  obtain ⟨_, hc, h⟩ := h
  cases h
  exact ⟨hs, hn, ensure_ok.mp hc, rfl⟩

theorem burnShares_ok {shares : Nat} {b b' : DormantBucket} {r : RedeemReceipt}
    (h : burnShares shares b = .ok (r, b')) :
    mulDivFloor b.accruedValue shares b.totalRecoveryShares = .ok r.redeemable ∧
    mulDivFloor b.totalRecoveryNotional shares b.totalRecoveryShares = .ok r.burnedNotional ∧
    r.burnedShares = shares ∧ r.redeemable ≤ b.accruedValue ∧
    r.burnedNotional ≤ b.totalRecoveryNotional ∧ shares ≤ b.totalRecoveryShares ∧
    b' = { b with
      accruedValue := b.accruedValue - r.redeemable
      totalRecoveryShares := b.totalRecoveryShares - shares
      totalRecoveryNotional := b.totalRecoveryNotional - r.burnedNotional
      positionCount := b.positionCount - 1 } := by
  simp only [burnShares, except_bind_ok, math_ok, checkedSub_ok] at h
  obtain ⟨red, hr, n, hn, _, ⟨hra, rfl⟩, _, ⟨hs, rfl⟩, _, ⟨hnn, rfl⟩, h⟩ := h
  cases h
  exact ⟨hr, hn, rfl, hra, hnn, hs, rfl⟩

namespace DormantStore

/-- Buckets at the head may come, go and change: the ledger owes them nothing, so only the
    accrued total has to follow. -/
theorem withBuckets_inv {s : DormantStore} (h : s.Inv) (buckets : BucketMap) {total : Nat}
    (hb : ∀ tick b, buckets.get? tick = some b → s.buckets.get? tick = some b ∨
      b.lastAppliedIndex = s.nextEventIndex ∧ b.direction = s.direction ∧ b.zeroPriceTick = tick)
    (ha : total = buckets.sum (fun _ b => b.accruedValue))
    (hs : ∀ f : DormantBucket → Nat, (∀ b, b.lastAppliedIndex = s.nextEventIndex → f b = 0) →
      buckets.sum (fun _ b => f b) = s.buckets.sum (fun _ b => f b)) :
    Inv { s with buckets := buckets, accruedValueTotal := total } := by
  have hw := h.window
  refine ⟨h.window, h.next_lt, h.indexed, ?_, ha, ?_, ?_⟩
  · intro tick b hb'
    rcases hb tick b hb' with hold | ⟨hn, hd, ht⟩
    · have hok := h.bucketOk tick b hold
      exact ⟨hok.direction_eq, hok.tick_eq, hok.gc_le, hok.le_next, hok.quiet⟩
    · refine ⟨hd, ht, ?_, hn.le, ?_⟩
      · simp only
        omega
      · change Quiet s.direction b (s.suffix b)
        rw [h.suffix_head hn]
        trivial
  · exact h.pending_eq.trans (hs s.owed (fun b hn => h.owed_head hn)).symm
  · intro k
    have hsum := hs (fun b => if s.ledgerGcOffset + k ≤ b.lastAppliedIndex then s.owed b else 0)
      (fun b hn => by rw [h.owed_head hn, ite_self])
    exact hsum.trans_le (h.covered k)

/-- A bucket at the head is replaced, together with its part of the accrued total. -/
theorem setBucket_inv {s : DormantStore} (h : s.Inv) {tick : Int} {b b' : DormantBucket}
    (hb : s.buckets.get? tick = some b) (hc : s.CaughtUp tick) (ht : SameTrail b b')
    {total : Nat} (hs : total + b.accruedValue = s.accruedValueTotal + b'.accruedValue) :
    Inv { s.setBucket tick b' with accruedValueTotal := total } := by
  have hok := h.bucketOk tick b hb
  have hn : b'.lastAppliedIndex = s.nextEventIndex := ht.index_eq.trans (hc b hb)
  refine withBuckets_inv h (s.buckets.insert tick b') ?_ ?_ ?_
  · intro j c hj
    rw [OrdMap.get?_insert] at hj
    split_ifs at hj with hjt
    · obtain rfl : b' = c := Option.some.inj hj
      exact .inr ⟨hn, ht.direction_eq.trans hok.direction_eq,
        ht.tick_eq.trans (hok.tick_eq.trans hjt.symm)⟩
    · exact .inl hj
  · have hsum := OrdMap.sum_insert_old (fun _ c => c.accruedValue) b' hb
    have ha := h.accrued_eq
    omega
  · intro f hf
    have hsum := OrdMap.sum_insert_old (fun _ c => f c) b' hb
    have h0 := hf b (hc b hb)
    have h0' := hf b' hn
    omega

theorem setBucket_inv_same {s : DormantStore} (h : s.Inv) {tick : Int} {b b' : DormantBucket}
    (hb : s.buckets.get? tick = some b) (hc : s.CaughtUp tick) (ht : SameTrail b b')
    (ha : b'.accruedValue = b.accruedValue) : (s.setBucket tick b').Inv :=
  setBucket_inv h hb hc ht (by rw [ha])

theorem eraseBucket_inv {s : DormantStore} (h : s.Inv) {tick : Int} {b : DormantBucket}
    (hb : s.buckets.get? tick = some b) (hc : s.CaughtUp tick) {total : Nat}
    (hs : total + b.accruedValue = s.accruedValueTotal) :
    Inv { s with buckets := s.buckets.erase tick, accruedValueTotal := total } := by
  refine withBuckets_inv h (s.buckets.erase tick) ?_ ?_ ?_
  · intro j c hj
    rw [OrdMap.get?_erase] at hj
    split_ifs at hj
    exact .inl hj
  · have hsum := OrdMap.sum_erase (fun _ c => c.accruedValue) hb
    have ha := h.accrued_eq
    omega
  · intro f hf
    have hsum := OrdMap.sum_erase (fun _ c => f c) hb
    have h0 := hf b (hc b hb)
    omega

theorem insertBucket_inv {s : DormantStore} (h : s.Inv) {tick : Int}
    (hb : s.buckets.get? tick = none) (anchor shares notional count : Nat) :
    (s.setBucket tick (freshBucket s.direction tick anchor shares notional count
      s.nextEventIndex)).Inv := by
  refine withBuckets_inv h (s.buckets.insert tick _) ?_ ?_ ?_
  · intro j c hj
    rw [OrdMap.get?_insert] at hj
    split_ifs at hj with hjt
    · obtain rfl := Option.some.inj hj
      exact .inr ⟨rfl, rfl, hjt.symm⟩
    · exact .inl hj
  · rw [OrdMap.sum_insert_new _ _ hb]
    exact h.accrued_eq
  · intro f hf
    rw [OrdMap.sum_insert_new (fun _ c => f c) _ hb, hf _ rfl, Nat.add_zero]

/-- Everything `insert_or_merge` can do. -/
inductive Merged (s : DormantStore) (tick : Int) (anchor shares notional count cap : Nat) :
    EStateM.Result ClearingError DormantStore Unit → Prop where
  | merged (s1 : DormantStore) (b b' : DormantBucket) (hu : s.Upkeep s1)
      (hc : s1.CaughtUp tick) (hb : s1.buckets.get? tick = some b)
      (hm : mergeBucket shares notional count b = .ok () b') :
      Merged s tick anchor shares notional count cap (.ok () (s1.setBucket tick b'))
  | mergeFailed (s1 : DormantStore) (b b' : DormantBucket) (e : ClearingError) (hu : s.Upkeep s1)
      (hc : s1.CaughtUp tick) (hb : s1.buckets.get? tick = some b)
      (hm : mergeBucket shares notional count b = .error e b') :
      Merged s tick anchor shares notional count cap (.error e (s1.setBucket tick b'))
  | inserted (hb : s.buckets.get? tick = none) (hn : s.bucketCount < cap) :
      Merged s tick anchor shares notional count cap (.ok ()
        (s.setBucket tick (freshBucket s.direction tick anchor shares notional count
          s.nextEventIndex)))
  | capped (hb : s.buckets.get? tick = none) (hn : cap ≤ s.bucketCount) :
      Merged s tick anchor shares notional count cap (.error .dormantBucketCapExceeded s)
  | tooMuch (s' : DormantStore) (hb : ¬ s.Bounded) :
      Merged s tick anchor shares notional count cap (.error .mathOverflow s')

theorem insertOrMerge_cases {s : DormantStore} (h : s.Inv) (tick : Int)
    (anchor shares notional count cap : Nat) :
    Merged s tick anchor shares notional count cap
      (insertOrMerge tick anchor shares notional count cap s) := by
  rw [insertOrMerge, get_bind]
  by_cases hk : s.buckets.contains tick = true
  · rw [if_pos hk]
    rcases applyPendingToBucket_cases h tick with ⟨n, hn⟩ | ⟨⟨s', hs'⟩, hb⟩
    · have hu := settle_upkeep h tick
      have hc := settle_caughtUp s tick
      obtain ⟨b0, hb0⟩ := OrdMap.contains_iff.mp hk
      have hb : (s.settle tick).buckets.get? tick = some (s.replayed b0) := by
        rw [settle_get?, if_pos rfl, hb0]
        rfl
      rw [bind_of_ok hn, onBucket]
      simp only [hb]
      cases hm : mergeBucket shares notional count (s.replayed b0) with
      | ok u b' => exact .merged _ _ b' hu hc hb hm
      | error e b' => exact .mergeFailed _ _ b' e hu hc hb hm
    · rw [bind_of_error hs']
      exact .tooMuch s' hb
  · rw [if_neg hk]
    have hb : s.buckets.get? tick = none := by
      simpa [OrdMap.contains] using hk
    by_cases hn : cap ≤ s.bucketCount
    · rw [if_pos hn]
      exact .capped hb hn
    · rw [if_neg hn]
      exact .inserted hb (not_le.mp hn)

inductive Redeemed (s : DormantStore) (tick : Int) (shares : Nat) :
    EStateM.Result ClearingError DormantStore RedeemReceipt → Prop where
  | burned (s1 : DormantStore) (b b' : DormantBucket) (r : RedeemReceipt) (hu : s.Upkeep s1)
      (hc : s1.CaughtUp tick) (hb : s1.buckets.get? tick = some b) (h0 : shares ≠ 0)
      (hle : shares ≤ b.totalRecoveryShares) (hm : burnShares shares b = .ok (r, b')) :
      Redeemed s tick shares (.ok r { s1 with
        buckets := replaceBucket s1.buckets tick b'
        accruedValueTotal := s1.accruedValueTotal - r.redeemable })
  | nothing (s1 : DormantStore) (b : DormantBucket) (hu : s.Upkeep s1) (hc : s1.CaughtUp tick)
      (hb : s1.buckets.get? tick = some b) (h0 : shares = 0) :
      Redeemed s tick shares (.ok ⟨0, 0, 0⟩ s1)
  | missing (hb : s.buckets.get? tick = none) :
      Redeemed s tick shares (.error (.invariant "redeem from missing bucket") s)
  | exceeds (s1 : DormantStore) (b : DormantBucket) (hu : s.Upkeep s1) (hc : s1.CaughtUp tick)
      (hb : s1.buckets.get? tick = some b) (h0 : shares ≠ 0)
      (hlt : b.totalRecoveryShares < shares) :
      Redeemed s tick shares (.error (.invariant "redeem shares exceed bucket total") s1)
  | failed (s1 : DormantStore) (b : DormantBucket) (e : ClearingError) (hu : s.Upkeep s1)
      (hc : s1.CaughtUp tick) (hb : s1.buckets.get? tick = some b) (h0 : shares ≠ 0)
      (hle : shares ≤ b.totalRecoveryShares) (hm : burnShares shares b = .error e) :
      Redeemed s tick shares (.error e s1)
  | tooMuch (s' : DormantStore) (hb : ¬ s.Bounded) :
      Redeemed s tick shares (.error .mathOverflow s')

theorem redeem_cases {s : DormantStore} (h : s.Inv) (tick : Int) (shares : Nat) :
    Redeemed s tick shares (redeem tick shares s) := by
  unfold redeem
  rcases applyPendingToBucket_cases h tick with ⟨n, hn⟩ | ⟨⟨s', hs'⟩, hb⟩
  · have hu := settle_upkeep h tick
    have hc := settle_caughtUp s tick
    rw [bind_of_ok hn, get_bind]
    cases hb : (s.settle tick).buckets.get? tick with
    | none =>
      have hb0 : s.buckets.get? tick = none := by
        rw [settle_get?, if_pos rfl] at hb
        simpa using hb
      have hs : s.settle tick = s := by simp [settle, hb0]
      rw [hs]
      exact .missing hb0
    | some b =>
      simp only
      by_cases h0 : shares = 0
      · rw [if_pos h0]
        exact .nothing _ b hu hc hb h0
      rw [if_neg h0]
      by_cases hlt : b.totalRecoveryShares < shares
      · rw [if_pos hlt]
        exact .exceeds _ b hu hc hb h0 hlt
      rw [if_neg hlt]
      have hle := not_lt.mp hlt
      cases hm : burnShares shares b with
      | error e => exact .failed _ b e hu hc hb h0 hle hm
      | ok rb =>
        obtain ⟨r, b'⟩ := rb
        obtain ⟨-, -, -, hred, -⟩ := burnShares_ok hm
        have hacc := hu.inv.accrued_le hb
        rw [orFail_ok_bind, set_bind, math_sub_of (hred.trans hacc), orFail_ok_bind, set_bind]
        exact .burned _ b b' r hu hc hb h0 hle hm
  · rw [bind_of_error hs']
    exact .tooMuch s' hb

/-- Burning shares of a bucket at the head keeps the invariant, removal included. -/
theorem burned_inv {s : DormantStore} (h : s.Inv) {tick : Int} {b b' : DormantBucket}
    (hb : s.buckets.get? tick = some b) (hc : s.CaughtUp tick) {shares : Nat} {r : RedeemReceipt}
    (hm : burnShares shares b = .ok (r, b')) :
    Inv { s with
      buckets := replaceBucket s.buckets tick b'
      accruedValueTotal := s.accruedValueTotal - r.redeemable } := by
  obtain ⟨-, -, -, hred, -, -, hb'⟩ := burnShares_ok hm
  have hacc := h.accrued_le hb
  have hval : b'.accruedValue = b.accruedValue - r.redeemable := by rw [hb']
  unfold replaceBucket
  split_ifs with he
  · exact eraseBucket_inv h hb hc (by omega)
  · have ht : SameTrail b b' := by
      rw [hb']
      exact ⟨rfl, rfl, rfl, rfl⟩
    exact setBucket_inv h hb hc ht (by omega)

end DormantStore
end MoleFinance
