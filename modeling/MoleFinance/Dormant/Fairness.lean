import MoleFinance.Dormant.Book
import MoleFinance.Lib.ProRata

/-! A distribution is a fair split: every activated bucket takes its proportional part, capped
by what it still claims, and the rounding leaves less than one unit for each claimant. -/
namespace MoleFinance
open MoleMath Call

def DormantBucket.outstanding (b : DormantBucket) (pNow : Nat) : Nat :=
  valueOr0 (b.intrinsicClaimAt pNow) - b.accruedValue

theorem DormantBucket.outstandingClaimAt_ok {b : DormantBucket} {p o : Nat}
    (h : b.outstandingClaimAt p = .ok o) :
    o = b.outstanding p ∧ ∃ i, b.intrinsicClaimAt p = .ok i := by
  obtain ⟨i, hi, ho⟩ := except_bind_ok.mp h
  cases ho
  exact ⟨by rw [DormantBucket.outstanding, hi, valueOr0_ok], i, hi⟩

theorem DormantBucket.intrinsicClaimAt_inactive {b : DormantBucket} {p : Nat}
    (h : activated b.direction p b.anchorPrice = false) : b.intrinsicClaimAt p = .ok 0 := by
  unfold DormantBucket.intrinsicClaimAt computeIntrinsic
  unfold activated at h
  by_cases hz : b.anchorPrice = 0 ∨ b.totalRecoveryNotional = 0
  · exact if_pos hz
  rw [if_neg hz]
  cases hd : b.direction with
  | long =>
    simp only [hd, decide_eq_false_iff_not, not_lt] at h
    exact if_pos h
  | short =>
    simp only [hd, decide_eq_false_iff_not, not_lt] at h
    exact if_pos h

theorem bucketShare_ok {b : DormantBucket} {p a t share : Nat} (ht : t < u128Size)
    (h : bucketShare p a t b = .ok share) :
    share = min (proRata a t (b.outstanding p)) (b.outstanding p) := by
  obtain ⟨o, ho, h⟩ := except_bind_ok.mp h
  obtain ⟨rfl, -⟩ := DormantBucket.outstandingClaimAt_ok ho
  unfold distributionShare at h
  split_ifs at h with h0
  · cases h
    simp [h0]
  · obtain ⟨q, hq, h⟩ := except_bind_ok.mp h
    cases h
    rw [(mulDivFloor_ok ht (math_ok.mp hq)).2]
    rfl

theorem sumOutstanding_eq {buckets : BucketMap} {p : Nat} {keys : List Int} {sofar total : Nat}
    (hn : keys.Nodup) (h : sumOutstanding buckets p sofar keys = .ok total) :
    total = sofar + buckets.sum (fun k b => if k ∈ keys then b.outstanding p else 0) := by
  induction keys generalizing sofar with
  | nil =>
    cases h
    simp [OrdMap.sum]
  | cons key keys ih =>
    obtain ⟨hk, hn⟩ := List.nodup_cons.mp hn
    rw [sumOutstanding, except_bind_ok] at h
    obtain ⟨next, hs, h⟩ := h
    unfold addOutstanding at hs
    cases hb : buckets.get? key with
    | none => simp [hb] at hs
    | some b =>
      simp only [hb] at hs
      obtain ⟨o, ho, hs⟩ := except_bind_ok.mp hs
      obtain ⟨rfl, -⟩ := DormantBucket.outstandingClaimAt_ok ho
      obtain ⟨-, rfl⟩ := math_add_ok.mp hs
      rw [ih hn h, OrdMap.sum_adjust_cons (fun _ b => b.outstanding p) hb hk]
      omega

namespace Book
variable {v : Book} {p a t : Nat}

def Sided (v : Book) : Prop := ∀ k b, v.buckets.get? k = some b → b.direction = v.direction

def claims (v : Book) (pNow : Nat) : Nat := v.buckets.sum (fun _ b => b.outstanding pNow)

theorem Sided.outstanding_inactive (hv : v.Sided) {k : Int} {b : DormantBucket}
    (hb : v.buckets.get? k = some b) (hi : activated v.direction p b.anchorPrice = false) :
    b.outstanding p = 0 := by
  rw [← hv k b hb] at hi
  rw [DormantBucket.outstanding, DormantBucket.intrinsicClaimAt_inactive hi, valueOr0_ok,
    Nat.zero_sub]

theorem totalOutstanding_eq (hv : v.Sided) (h : v.totalOutstanding p = .ok t) : t = v.claims p := by
  rw [sumOutstanding_eq (activatedKeys_nodup _ _ _) h, Nat.zero_add]
  apply OrdMap.sum_congr
  intro k b hb
  simp only [mem_activatedKeys_of _ _ hb]
  by_cases ha : activated v.direction p b.anchorPrice = true
  · rw [if_pos ha]
  · rw [if_neg ha, hv.outstanding_inactive hb (Bool.eq_false_of_not_eq_true ha)]

theorem totalOutstanding_lt (h : v.totalOutstanding p = .ok t) : t < u128Size :=
  (sumOutstanding_bounds h).2 (by norm_num [u128Size])

theorem totalOutstanding_intrinsic (hv : v.Sided) (h : v.totalOutstanding p = .ok t) {k : Int}
    {b : DormantBucket} (hb : v.buckets.get? k = some b) : ∃ i, b.intrinsicClaimAt p = .ok i := by
  by_cases ha : activated v.direction p b.anchorPrice = true
  · obtain ⟨o, ho, -⟩ := sumOutstanding_mem h ((mem_activatedKeys_of _ p hb).mpr ha) hb
    exact (DormantBucket.outstandingClaimAt_ok ho).2
  · rw [← hv k b hb] at ha
    exact ⟨0, DormantBucket.intrinsicClaimAt_inactive (Bool.eq_false_of_not_eq_true ha)⟩

/-- What an event that is quoted gives to a bucket: the proportional part, capped by the claim. -/
theorem share_eq (hv : v.Sided) (h : v.totalOutstanding p = .ok t) {total : Nat}
    (hq : quoteShares v.buckets p a t 0 (activatedKeys v.direction v.buckets p) = .ok total)
    {k : Int} {b : DormantBucket} (hb : v.buckets.get? k = some b) :
    v.share p a t b = min (proRata a t (b.outstanding p)) (b.outstanding p) := by
  unfold share
  split_ifs with ha
  · obtain ⟨b', share, hb', hs⟩ := quoteShares_mem hq ((mem_activatedKeys_of _ p hb).mpr ha)
    rw [hb] at hb'
    cases hb'
    rw [shareOf, hs, valueOr0_ok]
    exact bucketShare_ok (totalOutstanding_lt h) hs
  · rw [hv.outstanding_inactive hb (Bool.eq_false_of_not_eq_true ha), Nat.min_zero]

def valueAt (v : Book) (tick : Int) : Nat :=
  match v.buckets.get? tick with
  | none => 0
  | some b => b.accruedValue

theorem credit_funds (v : Book) (p a t : Nat) :
    (v.credit p a t).funds = v.funds + v.allocated p a t := by
  rw [funds, credit, OrdMap.sum_mapVal, OrdMap.sum_add]
  rfl

end Book

namespace DormantStore
variable {s s' : DormantStore} {p a : Nat} {tick : Int} {b : DormantBucket}

/-- `accrued_value + pending_for_bucket` of the bucket at a tick. -/
def valueAt (s : DormantStore) (tick : Int) : Nat :=
  match s.buckets.get? tick with
  | none => 0
  | some b => b.accruedValue + valueOr0 (s.pendingForBucket tick)

def intrinsicAt (s : DormantStore) (pNow : Nat) (tick : Int) : Nat :=
  match s.buckets.get? tick with
  | none => 0
  | some b => valueOr0 (b.intrinsicClaimAt pNow)

def outstandingAt (s : DormantStore) (pNow : Nat) (tick : Int) : Nat :=
  s.intrinsicAt pNow tick - s.valueAt tick

def ActivatedAt (s : DormantStore) (pNow : Nat) (tick : Int) : Prop :=
  ∃ b, s.buckets.get? tick = some b ∧ activated s.direction pNow b.anchorPrice = true

def values (s : DormantStore) : Nat := s.buckets.sum (fun tick _ => s.valueAt tick)

def outstandingTotal (s : DormantStore) (pNow : Nat) : Nat :=
  s.buckets.sum (fun tick _ => s.outstandingAt pNow tick)

def claimants (s : DormantStore) (pNow : Nat) : Nat :=
  s.buckets.entries.countP (fun e => 0 < s.outstandingAt pNow e.1)

def gainAt (s : DormantStore) (pNow totalAlloc : Nat) (tick : Int) : Nat :=
  min (proRata totalAlloc (s.outstandingTotal pNow) (s.outstandingAt pNow tick))
    (s.outstandingAt pNow tick)

def viewed (s : DormantStore) (b : DormantBucket) : DormantBucket :=
  { b with accruedValue := b.accruedValue + s.owed b, lastAppliedIndex := 0 }

theorem book_of (hb : s.buckets.get? tick = some b) :
    s.book.buckets.get? tick = some (s.viewed b) := by
  rw [book, view, OrdMap.get?_mapVal, hb]
  rfl

theorem Inv.valueAt_eq (h : s.Inv) (hb : s.buckets.get? tick = some b) :
    s.valueAt tick = (s.viewed b).accruedValue := by
  rw [valueAt, hb]
  simp only [pendingForBucket_eq h hb, valueOr0_ok, viewed]

theorem Inv.outstandingAt_eq (h : s.Inv) (hb : s.buckets.get? tick = some b) :
    s.outstandingAt p tick = (s.viewed b).outstanding p := by
  rw [outstandingAt, h.valueAt_eq hb, intrinsicAt, hb]
  rfl

theorem outstandingAt_none (hb : s.buckets.get? tick = none) : s.outstandingAt p tick = 0 := by
  rw [outstandingAt, intrinsicAt, hb]
  exact Nat.zero_sub _

theorem valueAt_none (hb : s.buckets.get? tick = none) : s.valueAt tick = 0 := by
  rw [valueAt, hb]

theorem Inv.values_eq (h : s.Inv) : s.values = s.book.funds := by
  refine (OrdMap.sum_congr fun k b hb => h.valueAt_eq hb).trans ?_
  exact (OrdMap.sum_mapVal (fun _ (b : DormantBucket) => b.accruedValue) _ s.buckets).symm

theorem Inv.outstandingTotal_eq (h : s.Inv) : s.outstandingTotal p = s.book.claims p := by
  refine (OrdMap.sum_congr fun k b hb => h.outstandingAt_eq hb).trans ?_
  exact (OrdMap.sum_mapVal (fun _ (b : DormantBucket) => b.outstanding p) _ s.buckets).symm

theorem Inv.book_sided (h : s.Inv) : s.book.Sided := by
  intro k b hb
  obtain ⟨c, hc, rfl⟩ := Option.map_eq_some_iff.mp
    ((OrdMap.get?_mapVal _ s.buckets k).symm.trans hb)
  exact (h.bucketOk k c hc).direction_eq

theorem Inv.intrinsic_of (h : s.Inv) {t : Nat} (ht : s.book.totalOutstanding p = .ok t)
    (hb : s.buckets.get? tick = some b) : ∃ i, b.intrinsicClaimAt p = .ok i := by
  have hi := Book.totalOutstanding_intrinsic h.book_sided ht (book_of hb)
  exact hi

theorem gainAt_nothing (h : a = 0 ∨ s.outstandingTotal p = 0) : s.gainAt p a tick = 0 := by
  unfold gainAt
  cases h with
  | inl h => rw [h, proRata_zero_fund, Nat.zero_min]
  | inr h => rw [h, proRata, Nat.div_zero, Nat.zero_min]

theorem Inv.valueAt_book (h : s.Inv) (tick : Int) : s.valueAt tick = s.book.valueAt tick := by
  unfold Book.valueAt
  cases hb : s.buckets.get? tick with
  | none =>
    have hv : s.book.buckets.get? tick = none := view_none hb
    rw [valueAt_none hb, hv]
  | some b =>
    have hv := book_of hb
    rw [h.valueAt_eq hb, hv]

theorem Recorded.gain {s1 : DormantStore} {t total : Nat} (h : s.Inv)
    (hrec : s.Recorded s1 p a t total) (tick : Int) :
    (s.book.credit p a t).valueAt tick = s.valueAt tick + s.gainAt p a tick := by
  have ht : t = s.outstandingTotal p :=
    (Book.totalOutstanding_eq h.book_sided hrec.outstanding).trans h.outstandingTotal_eq.symm
  unfold Book.valueAt
  cases hb : s.buckets.get? tick with
  | none =>
    have hv : s.view.get? tick = none := view_none hb
    simp [Book.credit, book, OrdMap.get?_mapVal, hv, valueAt_none hb, gainAt,
      outstandingAt_none hb]
  | some b =>
    have hv := book_of hb
    have hs := Book.share_eq h.book_sided hrec.outstanding hrec.quoted hv
    rw [ht] at hs ⊢
    simp only [Book.credit, OrdMap.get?_mapVal, hv, Option.map_some, hs, h.valueAt_eq hb, gainAt,
      h.outstandingAt_eq hb]

structure Gained (s s' : DormantStore) (p a : Nat) (r : DistributionReceipt) : Prop where
  inv : s'.Inv
  value_eq : ∀ tick, s'.valueAt tick = s.valueAt tick + s.gainAt p a tick
  allocated_eq : r.allocated = s.buckets.sum (fun tick _ => s.gainAt p a tick)
  values_eq : s'.values = s.values + r.allocated
  split : r.allocated + r.residual = a
  intrinsic : a ≠ 0 → ∀ tick b, s.buckets.get? tick = some b → ∃ i, b.intrinsicClaimAt p = .ok i

theorem distributeBy_gained (h : s.Inv) {mode : DistributeMode} {m : Nat}
    {r : DistributionReceipt} (hr : distributeBy mode p a m s = .ok r s') :
    s.Gained s' p a r := by
  have hi' := (distributeBy_keeps mode h hr).inv
  have hd := distributeBy_cases h mode p a m
  rw [hr] at hd
  have hsided := h.book_sided
  cases hd with
  | idle _ hu h0 =>
    have h0' : a = 0 ∨ s.outstandingTotal p = 0 := by
      refine h0.imp_right fun ht => ?_
      rw [h.outstandingTotal_eq]
      exact (Book.totalOutstanding_eq hsided ht).symm
    have hg : ∀ tick, s.gainAt p a tick = 0 := fun tick => gainAt_nothing h0'
    refine ⟨hi', fun tick => ?_, ?_, ?_, Nat.zero_add a, fun ha tick b hb => ?_⟩
    · rw [hi'.valueAt_book, hu.book_eq, ← h.valueAt_book, hg, Nat.add_zero]
    · exact (OrdMap.sum_zero_iff.mpr fun tick _ _ => hg tick).symm
    · rw [hi'.values_eq, hu.book_eq, ← h.values_eq, Nat.add_zero]
    · exact h.intrinsic_of (h0.resolve_left ha) hb
  | recorded s1 t total ha ht hrec =>
    have hbook := hrec.book_eq mode
    have ht' := Book.totalOutstanding_eq hsided hrec.outstanding
    have hgain := hrec.gain h
    refine ⟨hi', fun tick => ?_, ?_, ?_, Nat.add_sub_cancel' hrec.le, fun _ tick b hb => ?_⟩
    · rw [hi'.valueAt_book, hbook, hgain]
    · change total = _
      rw [quoteShares_allocated hrec.quoted]
      refine (OrdMap.sum_mapVal (fun _ c => s.book.share p a t c) _ s.buckets).trans ?_
      refine OrdMap.sum_congr fun tick b hb => ?_
      have hs := Book.share_eq hsided hrec.outstanding hrec.quoted (book_of hb)
      rw [gainAt, h.outstandingAt_eq hb, h.outstandingTotal_eq, ← ht']
      exact hs
    · rw [hi'.values_eq, hbook, Book.credit_funds, ← quoteShares_allocated hrec.quoted,
        h.values_eq]
    · exact h.intrinsic_of hrec.outstanding hb

theorem gainAt_le_claim : s.gainAt p a tick ≤ s.outstandingAt p tick := Nat.min_le_right _ _

theorem gainAt_mono {tick' : Int} (h : s.outstandingAt p tick ≤ s.outstandingAt p tick') :
    s.gainAt p a tick ≤ s.gainAt p a tick' :=
  Nat.le_min.mpr ⟨(Nat.min_le_left _ _).trans (proRata_mono_part h), (Nat.min_le_right _ _).trans h⟩

theorem Inv.outstandingAt_inactive (h : s.Inv) (hn : ¬ s.ActivatedAt p tick) :
    s.outstandingAt p tick = 0 := by
  cases hb : s.buckets.get? tick with
  | none => exact outstandingAt_none hb
  | some b =>
    have ha : activated s.direction p b.anchorPrice = false :=
      Bool.eq_false_of_not_eq_true fun ha => hn ⟨b, hb, ha⟩
    rw [h.outstandingAt_eq hb]
    exact h.book_sided.outstanding_inactive (book_of hb) ha

theorem gainAt_eq (ha : a ≤ s.outstandingTotal p) :
    s.gainAt p a tick = proRata a (s.outstandingTotal p) (s.outstandingAt p tick) :=
  Nat.min_eq_left (proRata_le_part ha)

theorem residual_lt (ha : 0 < a) (hle : a ≤ s.outstandingTotal p) :
    a - s.buckets.sum (fun tick _ => s.gainAt p a tick) < s.claimants p := by
  have hclaims : s.outstandingTotal p
      = (s.buckets.entries.map fun e => s.outstandingAt p e.1).sum := rfl
  have hsplit := split_residual_lt a (hclaims ▸ ha.trans_le hle)
  rw [← hclaims, List.map_map, List.countP_map] at hsplit
  simp only [gainAt_eq hle]
  exact hsplit

theorem Gained.grows {r : DistributionReceipt} (h : s.Gained s' p a r) (tick : Int) :
    s'.valueAt tick - s.valueAt tick = s.gainAt p a tick := by
  rw [h.value_eq, Nat.add_sub_cancel_left]

/-- A successful distribution, by either path, is a fair and bounded split. -/
theorem distribution_fair (direction : Direction) (s : DormantStore) (h : Reached direction s)
    (mode : DistributeMode) (pNow totalAlloc maxLedgerSize : Nat) (r : DistributionReceipt)
    (s' : DormantStore) (hr : distributeBy mode pNow totalAlloc maxLedgerSize s = .ok r s') :
    r.allocated + r.residual = totalAlloc ∧
    s'.values = s.values + r.allocated ∧
    r.allocated ≤ min totalAlloc (s.outstandingTotal pNow) ∧
    (∀ tick, s.ActivatedAt pNow tick → s.valueAt tick ≤ s'.valueAt tick ∧
      s'.valueAt tick - s.valueAt tick ≤ s.outstandingAt pNow tick ∧
      s'.valueAt tick ≤ max (s.valueAt tick) (s.intrinsicAt pNow tick)) ∧
    (∀ tick tick', s.ActivatedAt pNow tick → s.ActivatedAt pNow tick' →
      s.outstandingAt pNow tick ≤ s.outstandingAt pNow tick' →
      s'.valueAt tick - s.valueAt tick ≤ s'.valueAt tick' - s.valueAt tick') ∧
    (∀ tick, ¬ s.ActivatedAt pNow tick → s'.valueAt tick = s.valueAt tick) ∧
    (0 < totalAlloc → totalAlloc ≤ s.outstandingTotal pNow → r.residual < s.claimants pNow) ∧
    (∀ tick b, s.buckets.get? tick = some b →
      (∃ n, s.pendingForBucket tick = .ok n) ∧
      (totalAlloc ≠ 0 → ∃ i, b.intrinsicClaimAt pNow = .ok i)) ∧
    (∀ tick b, s'.buckets.get? tick = some b → ∃ n, s'.pendingForBucket tick = .ok n) := by
  have hi := reached_inv h
  have hg := distributeBy_gained hi hr
  have hsplit := hg.split
  refine ⟨hsplit, hg.values_eq, Nat.le_min.mpr ⟨by omega, ?_⟩, fun tick _ => ?_,
    fun tick tick' _ _ hle => ?_, fun tick hn => ?_, fun ha hle => ?_, fun tick b hb => ?_,
    fun tick b hb => ?_⟩
  · rw [hg.allocated_eq]
    exact OrdMap.sum_le_sum fun tick _ _ => gainAt_le_claim
  · have hle : s.gainAt pNow totalAlloc tick ≤ s.outstandingAt pNow tick := gainAt_le_claim
    rw [hg.value_eq]
    refine ⟨Nat.le_add_right _ _, by omega, ?_⟩
    unfold outstandingAt at hle
    omega
  · rw [hg.grows, hg.grows]
    exact gainAt_mono hle
  · have hz := hi.outstandingAt_inactive hn
    have hle : s.gainAt pNow totalAlloc tick ≤ s.outstandingAt pNow tick := gainAt_le_claim
    rw [hg.value_eq]
    omega
  · have hlt := residual_lt ha hle
    rw [← hg.allocated_eq] at hlt
    omega
  · exact ⟨⟨_, pendingForBucket_eq hi hb⟩, fun ha => hg.intrinsic ha tick b hb⟩
  · exact ⟨_, pendingForBucket_eq hg.inv hb⟩

/-- Forty units at 95 over two buckets, one of them with a lazy part still in flight. -/
theorem lazyEvent_split_fair : ∃ s',
    distributeBy .eager 95 40 10 (StoreOp.after lazyEvent (new .long)) = .ok ⟨39, 1⟩ s' ∧
    s'.values = 49 + 39 ∧ 1 < (StoreOp.after lazyEvent (new .long)).claimants 95 := by
  have hs : StoreOp.runAll lazyEvent (new .long) = .ok () (StoreOp.after lazyEvent (new .long)) :=
    rfl
  have hv : (StoreOp.after lazyEvent (new .long)).values = 49 := by decide +kernel
  have hle : 40 ≤ (StoreOp.after lazyEvent (new .long)).outstandingTotal 95 := by decide +kernel
  have hrun : (match distributeBy .eager 95 40 10 (StoreOp.after lazyEvent (new .long)) with
      | .ok r _ => some r
      | .error _ _ => none) = some ⟨39, 1⟩ := by decide +kernel
  cases hr : distributeBy .eager 95 40 10 (StoreOp.after lazyEvent (new .long)) with
  | error e s' =>
    rw [hr] at hrun
    cases hrun
  | ok r s' =>
    rw [hr] at hrun
    cases hrun
    have hfair := distribution_fair .long _ (reached_of_runAll hs) .eager 95 40 10 _ s' hr
    exact ⟨s', rfl, hv ▸ hfair.2.1, hfair.2.2.2.2.2.2.1 (by decide) hle⟩

end DormantStore
end MoleFinance
