import MoleFinance.Dormant.Pending
import MoleFinance.Lib.Trace

/-! The abstract store: an account book in which a distribution is attributed at once, with
no ledger, no indices and no funds in flight. Both distribution paths refine it. -/
namespace MoleFinance
open MoleMath Call Trace

structure Book where
  direction : Direction
  buckets : BucketMap
  nextEventIndex : Nat
deriving DecidableEq

def DormantBucket.forget (b : DormantBucket) : DormantBucket := { b with lastAppliedIndex := 0 }

namespace Book

def funds (v : Book) : Nat := v.buckets.sum (fun _ b => b.accruedValue)

def totalOutstanding (v : Book) (pNow : Nat) : Except ClearingError Nat :=
  sumOutstanding v.buckets pNow 0 (activatedKeys v.direction v.buckets pNow)

def share (v : Book) (pNow totalAlloc t : Nat) (b : DormantBucket) : Nat :=
  if activated v.direction pNow b.anchorPrice = true then shareOf pNow totalAlloc t b else 0

def allocated (v : Book) (pNow totalAlloc t : Nat) : Nat :=
  v.buckets.sum (fun _ b => v.share pNow totalAlloc t b)

def credit (v : Book) (pNow totalAlloc t : Nat) : Book :=
  { v with
    buckets := v.buckets.mapVal (fun _ b =>
      { b with accruedValue := b.accruedValue + v.share pNow totalAlloc t b })
    nextEventIndex := v.nextEventIndex + 1 }

def distribute (pNow totalAlloc : Nat) : EStateM ClearingError Book DistributionReceipt := fun v =>
  if totalAlloc = 0 then .ok ⟨0, 0⟩ v
  else match v.totalOutstanding pNow with
    | .error e => .error e v
    | .ok t =>
      if t = 0 then .ok ⟨0, totalAlloc⟩ v
      else .ok ⟨v.allocated pNow totalAlloc t, totalAlloc - v.allocated pNow totalAlloc t⟩
        (v.credit pNow totalAlloc t)

def insertOrMerge (tick : Int) (anchorPrice addedShares addedNotional addedPositionCount
    maxBucketCount : Nat) : EStateM ClearingError Book Unit := fun v =>
  match v.buckets.get? tick with
  | some b =>
    match mergeBucket addedShares addedNotional addedPositionCount b with
    | .ok u b => .ok u { v with buckets := v.buckets.insert tick b }
    | .error e b => .error e { v with buckets := v.buckets.insert tick b }
  | none =>
    if maxBucketCount ≤ v.buckets.size % 2 ^ 32 then .error .dormantBucketCapExceeded v
    else
      let b := DormantStore.freshBucket v.direction tick anchorPrice addedShares addedNotional
        addedPositionCount 0
      .ok () { v with buckets := v.buckets.insert tick b }

def redeem (tick : Int) (sharesToBurn : Nat) : EStateM ClearingError Book RedeemReceipt := fun v =>
  match v.buckets.get? tick with
  | none => .error (.invariant "redeem from missing bucket") v
  | some b =>
    if sharesToBurn = 0 then .ok ⟨0, 0, 0⟩ v
    else if b.totalRecoveryShares < sharesToBurn then
      .error (.invariant "redeem shares exceed bucket total") v
    else match burnShares sharesToBurn b with
      | .error e => .error e v
      | .ok (r, b) => .ok r { v with buckets := replaceBucket v.buckets tick b }

def Room (v : Book) (pNow totalAlloc : Nat) : Prop :=
  ∀ t, v.totalOutstanding pNow = .ok t → t ≠ 0 →
    v.funds + v.allocated pNow totalAlloc t < u128Size ∧ v.nextEventIndex + 1 < u64Size

end Book

/-! Shares of an event never exceed what is distributed. -/

theorem distributionShare_of {a o t : Nat} (ha : a < u128Size) (ho : o ≤ t) (ht0 : t ≠ 0)
    (ht : t < u128Size) :
    ∃ share, distributionShare a o t = .ok share ∧ share * t ≤ a * o := by
  unfold distributionShare
  split_ifs with h0
  · exact ⟨0, rfl, by simp⟩
  · rw [mulDivFloor_le ht ho (Nat.pos_of_ne_zero ht0) ha]
    refine ⟨_, rfl, ?_⟩
    calc min (a * o / t) o * t ≤ a * o / t * t := Nat.mul_le_mul_right t (Nat.min_le_left _ _)
      _ ≤ a * o := Nat.div_mul_le_self _ _

theorem sumOutstanding_bounds {buckets : BucketMap} {p : Nat} {keys : List Int} {sofar total : Nat}
    (h : sumOutstanding buckets p sofar keys = .ok total) :
    sofar ≤ total ∧ (sofar < u128Size → total < u128Size) := by
  induction keys generalizing sofar with
  | nil =>
    cases h
    exact ⟨le_rfl, id⟩
  | cons key keys ih =>
    rw [sumOutstanding, except_bind_ok] at h
    obtain ⟨next, hn, h⟩ := h
    obtain ⟨hle, hlt⟩ := ih h
    unfold addOutstanding at hn
    cases hb : buckets.get? key with
    | none => simp [hb] at hn
    | some b =>
      simp only [hb] at hn
      obtain ⟨o, -, hn⟩ := except_bind_ok.mp hn
      obtain ⟨hsum, rfl⟩ := math_add_ok.mp hn
      exact ⟨by omega, fun _ => hlt hsum⟩

theorem sumOutstanding_mem {buckets : BucketMap} {p : Nat} {keys : List Int} {sofar total : Nat}
    (h : sumOutstanding buckets p sofar keys = .ok total) {key : Int} (hk : key ∈ keys)
    {b : DormantBucket} (hb : buckets.get? key = some b) :
    ∃ o, b.outstandingClaimAt p = .ok o ∧ o ≤ total := by
  induction keys generalizing sofar with
  | nil => cases hk
  | cons first keys ih =>
    rw [sumOutstanding, except_bind_ok] at h
    obtain ⟨next, hn, h⟩ := h
    cases hk with
    | head =>
      unfold addOutstanding at hn
      simp only [hb] at hn
      obtain ⟨o, ho, hn⟩ := except_bind_ok.mp hn
      obtain ⟨-, rfl⟩ := math_add_ok.mp hn
      have := (sumOutstanding_bounds h).1
      exact ⟨o, ho, by omega⟩
    | tail _ hk => exact ih h hk

/-- The loop invariant of the quote: its running total is at most the proportional part. -/
theorem quoteShares_of {buckets : BucketMap} {p a t : Nat} (ha : a < u128Size) (ht0 : t ≠ 0)
    (ht : t < u128Size) {keys : List Int} {acc sofar total : Nat}
    (hacc : acc * t ≤ a * sofar)
    (hs : sumOutstanding buckets p sofar keys = .ok total) (htot : total ≤ t) :
    ∃ allocated, quoteShares buckets p a t acc keys = .ok allocated ∧
      allocated * t ≤ a * total := by
  induction keys generalizing acc sofar with
  | nil =>
    cases hs
    exact ⟨acc, rfl, hacc⟩
  | cons key keys ih =>
    rw [sumOutstanding, except_bind_ok] at hs
    obtain ⟨next, hn, hs⟩ := hs
    have hle : next ≤ total := (sumOutstanding_bounds hs).1
    unfold addOutstanding at hn
    cases hb : buckets.get? key with
    | none => simp [hb] at hn
    | some b =>
      simp only [hb] at hn
      obtain ⟨o, ho, hn⟩ := except_bind_ok.mp hn
      obtain ⟨-, rfl⟩ := math_add_ok.mp hn
      obtain ⟨share, hsh, hle'⟩ := distributionShare_of ha (by omega : o ≤ t) ht0 ht
      have hacc' : (acc + share) * t ≤ a * (sofar + o) := by
        rw [add_mul, mul_add]
        exact Nat.add_le_add hacc hle'
      have hfit : acc + share < u128Size := by
        have h1 : (acc + share) * t ≤ a * t := hacc'.trans (Nat.mul_le_mul_left a (by omega))
        exact (Nat.le_of_mul_le_mul_right h1 (Nat.pos_of_ne_zero ht0)).trans_lt ha
      obtain ⟨allocated, hq, hal⟩ := ih hacc' hs
      refine ⟨allocated, ?_, hal⟩
      rw [quoteShares, quoteShare]
      simp only [hb, ho, ok_bind, hsh, addShare_of (.inr hfit)]
      exact hq

namespace DormantStore

def book (s : DormantStore) : Book := ⟨s.direction, s.view, s.nextEventIndex⟩

theorem Upkeep.book_eq {s s' : DormantStore} (h : s.Upkeep s') : s'.book = s.book := by
  simp only [book, h.direction_eq, h.view_eq, h.next_eq]

theorem Inv.book_funds {s : DormantStore} (h : s.Inv) :
    s.book.funds = s.accruedValueTotal + s.pendingDistributionTotal := by
  rw [h.accrued_eq, h.pending_eq, ← OrdMap.sum_add]
  exact OrdMap.sum_mapVal (fun _ (b : DormantBucket) => b.accruedValue) _ s.buckets

theorem quoteShares_allocated {s : DormantStore} {p a t total : Nat}
    (h : quoteShares s.view p a t 0 (activatedKeys s.direction s.view p) = .ok total) :
    total = s.book.allocated p a t := by
  rw [quoteShares_eq (activatedKeys_nodup _ _ _) h, Nat.zero_add]
  apply OrdMap.sum_congr
  intro tick b hb
  simp only [mem_activatedKeys_of _ _ hb, Book.share]
  rfl

theorem Inv.fits_of_room {s : DormantStore} (h : s.Inv) {p a : Nat} (ha : a < u128Size)
    (hr : s.book.Room p a) : s.Fits p a := by
  intro t hs ht0
  obtain ⟨hfunds, hn⟩ := hr t hs ht0
  have ht := (sumOutstanding_bounds hs).2 (by norm_num [u128Size])
  obtain ⟨total, hq, hle⟩ := quoteShares_of ha ht0 ht (Nat.zero_mul t).le hs le_rfl
  rw [← quoteShares_allocated hq, h.book_funds] at hfunds
  exact ⟨total, hq, Nat.le_of_mul_le_mul_right hle (Nat.pos_of_ne_zero ht0), hfunds, hn⟩

theorem Recorded.book_eq {s s1 : DormantStore} {p a t total : Nat} (mode : DistributeMode)
    (h : s.Recorded s1 p a t total) :
    (s1.recordBy mode (s1.entryOf p a t total)).book = s.book.credit p a t := by
  have hi := h.upkeep.inv
  rw [← h.upkeep.book_eq, (recordBy_upkeep mode hi h.event).book_eq]
  simp only [book, Book.credit, Book.mk.injEq]
  refine ⟨rfl, ?_, rfl⟩
  apply OrdMap.ext_get?
  intro tick
  simp only [view, OrdMap.get?_mapVal, Option.map_map]
  have hb : (s1.recordLazy (s1.entryOf p a t total)).buckets = s1.buckets := rfl
  rw [hb]
  cases hg : s1.buckets.get? tick with
  | none => rfl
  | some b =>
    have hm := mem_activatedKeys_of s1.direction p hg
    have ho : (s1.recordLazy (s1.entryOf p a t total)).owed b = s1.owed b +
        if tick ∈ activatedKeys s1.direction s1.buckets p then shareOf p a t b else 0 :=
      recordLazy_owed hi h.event hg
    simp only [Option.map_some, Function.comp_def, ho, hm, Book.share]
    split_ifs with ha
    · have h0 := hi.owed_head (h.event.caughtUp tick (hm.mpr ha) b hg)
      simp only [h0, Nat.add_zero, Nat.zero_add]
      rfl
    · rfl

/-- A store stands for a book: its invariant holds and its funds fit the word. -/
structure Rep (s : DormantStore) (v : Book) : Prop where
  inv : s.Inv
  bounded : s.Bounded
  book_eq : s.book = v

theorem new_rep (direction : Direction) :
    (new direction).Rep ⟨direction, .empty, 0⟩ where
  inv := new_inv direction
  bounded := by simp [Bounded, new, u128Size]
  book_eq := by
    simp only [book, Book.mk.injEq]
    exact ⟨rfl, OrdMap.ext_get? (fun k => by simp [view, new]), rfl⟩

theorem Rep.upkeep {s s' : DormantStore} {v : Book} (h : s.Rep v) (hu : s.Upkeep s') : s'.Rep v :=
  ⟨hu.inv, hu.bounded.mpr h.bounded, hu.book_eq.trans h.book_eq⟩

/-- Either distribution path refines the book, unless the ledger is full. -/
theorem distributeBy_agrees {s : DormantStore} {v : Book} (h : s.Rep v) (mode : DistributeMode)
    {p a m : Nat} (ha : a < u128Size) (hr : v.Room p a)
    (hc : ∀ s', distributeBy mode p a m s ≠ .error .ledgerCapacityExceeded s') :
    Agrees Rep (distributeBy mode p a m s) (Book.distribute p a v) := by
  obtain ⟨hi, hb, rfl⟩ := h
  have hf := hi.fits_of_room ha hr
  have hd := distributeBy_cases hi mode p a m
  unfold Book.distribute
  revert hd hc
  generalize distributeBy mode p a m s = r
  intro hc hd
  cases hd with
  | idle s' hu h0 =>
    have hrep : s'.Rep s.book := (Rep.mk hi hb rfl).upkeep hu
    by_cases hz : a = 0
    · rw [if_pos hz, hz]
      exact ⟨rfl, hrep⟩
    · have ht : s.book.totalOutstanding p = .ok 0 := h0.resolve_left hz
      rw [if_neg hz, ht]
      exact ⟨rfl, hrep⟩
  | recorded s1 t total hz ht hrec =>
    have hto : s.book.totalOutstanding p = .ok t := hrec.outstanding
    rw [if_neg hz, hto]
    simp only [ht, if_false]
    obtain ⟨total', hq, -, hfit, -⟩ := hf t hrec.outstanding ht
    have hq' := hrec.quoted
    rw [hq] at hq'
    cases hq'
    rw [← quoteShares_allocated hrec.quoted]
    have hi1 := hrec.upkeep.inv
    refine ⟨rfl, ⟨(recordBy_upkeep mode hi1 hrec.event).inv, ?_, hrec.book_eq mode⟩⟩
    rw [(recordBy_upkeep mode hi1 hrec.event).bounded]
    have := hrec.upkeep.funds_eq
    simp only [Bounded, recordLazy, entryOf]
    omega
  | full s' hz hu => exact absurd rfl (hc s')
  | claims e s' hz hu he =>
    have hto : s.book.totalOutstanding p = .error e := he
    rw [if_neg hz, hto]
    exact ⟨rfl, (Rep.mk hi hb rfl).upkeep hu⟩
  | tooMuch e s' hno =>
    rcases hno with hno | hno
    · exact absurd hb hno
    · exact absurd hf hno

theorem mergeBucket_forget (shares notional count : Nat) (b : DormantBucket) :
    Agrees (fun b b' => b.forget = b') (mergeBucket shares notional count b)
      (mergeBucket shares notional count b.forget) := by
  unfold mergeBucket
  rw [get_bind, get_bind]
  change Agrees _ _ ((orFail (math (checkedAdd b.totalRecoveryShares shares)) >>= _) b.forget)
  cases math (checkedAdd b.totalRecoveryShares shares) with
  | error e => exact ⟨rfl, rfl⟩
  | ok sh =>
    rw [orFail_ok_bind, orFail_ok_bind, set_bind, set_bind]
    change Agrees _ _ ((orFail (math (checkedAdd b.totalRecoveryNotional notional)) >>= _) _)
    cases math (checkedAdd b.totalRecoveryNotional notional) with
    | error e => exact ⟨rfl, rfl⟩
    | ok n =>
      rw [orFail_ok_bind, orFail_ok_bind, set_bind, set_bind]
      change Agrees _ _ ((orFail (ensure (b.positionCount + count < u64Size) _) >>= _) _)
      by_cases hc : b.positionCount + count < u64Size
      · rw [ensure_of hc]
        exact ⟨rfl, rfl⟩
      · rw [ensure_not hc]
        exact ⟨rfl, rfl⟩

theorem burnShares_forget (shares : Nat) (b : DormantBucket) :
    burnShares shares b.forget = (fun rb => (rb.1, rb.2.forget)) <$> burnShares shares b := by
  unfold burnShares
  simp only [DormantBucket.forget]
  cases math (mulDivFloor b.accruedValue shares b.totalRecoveryShares) with
  | error e => rfl
  | ok red =>
    simp only [ok_bind]
    cases math (mulDivFloor b.totalRecoveryNotional shares b.totalRecoveryShares) with
    | error e => rfl
    | ok n =>
      simp only [ok_bind]
      cases math (checkedSub b.accruedValue red) with
      | error e => rfl
      | ok acc =>
        simp only [ok_bind]
        cases math (checkedSub b.totalRecoveryShares shares) with
        | error e => rfl
        | ok sh =>
          simp only [ok_bind]
          cases math (checkedSub b.totalRecoveryNotional n) with
          | error e => rfl
          | ok nn => rfl

theorem Inv.view_some {s : DormantStore} (h : s.Inv) {tick : Int} {b : DormantBucket}
    (hc : s.CaughtUp tick) (hb : s.buckets.get? tick = some b) :
    s.view.get? tick = some b.forget := by
  rw [(hc.settled h).view_get?, hb]
  rfl

theorem view_none {s : DormantStore} {tick : Int} (hb : s.buckets.get? tick = none) :
    s.view.get? tick = none := by
  rw [view, OrdMap.get?_mapVal, hb]
  rfl

theorem view_insert {s : DormantStore} (h : s.Inv) (tick : Int) {b : DormantBucket}
    (hn : b.lastAppliedIndex = s.nextEventIndex) :
    (s.setBucket tick b).view = s.view.insert tick b.forget := by
  have hv : (s.setBucket tick b).view = (s.buckets.insert tick b).mapVal (fun _ b =>
      { b with accruedValue := b.accruedValue + s.owed b, lastAppliedIndex := 0 }) := rfl
  rw [hv, OrdMap.mapVal_insert, h.owed_head hn]
  rfl

theorem setBucket_rep {s : DormantStore} {v : Book} (h : s.Rep v) {tick : Int}
    {b b' : DormantBucket} (hb : s.buckets.get? tick = some b) (hc : s.CaughtUp tick)
    (ht : SameTrail b b') (ha : b'.accruedValue = b.accruedValue) :
    (s.setBucket tick b').Rep { v with buckets := v.buckets.insert tick b'.forget } := by
  obtain ⟨hi, hbd, rfl⟩ := h
  refine ⟨setBucket_inv_same hi hb hc ht ha, hbd, ?_⟩
  have hv := view_insert hi tick (ht.index_eq.trans (hc b hb))
  simp only [book, hv]
  rfl

theorem insertOrMerge_agrees {s : DormantStore} {v : Book} (h : s.Rep v) (tick : Int)
    (anchor shares notional count cap : Nat) :
    Agrees Rep (insertOrMerge tick anchor shares notional count cap s)
      (Book.insertOrMerge tick anchor shares notional count cap v) := by
  have hd := insertOrMerge_cases h.inv tick anchor shares notional count cap
  unfold Book.insertOrMerge
  revert hd
  generalize insertOrMerge tick anchor shares notional count cap s = r
  intro hd
  cases hd with
  | merged s1 b b' hu hc hb hm =>
    have hrep := h.upkeep hu
    have hv : v.buckets.get? tick = some b.forget := by
      rw [← hrep.book_eq]
      exact hrep.inv.view_some hc hb
    have hf := mergeBucket_forget shares notional count b
    obtain ⟨-, -, -, hb'⟩ := mergeBucket_ok hm
    have ht : SameTrail b b' := by
      rw [hb']
      exact ⟨rfl, rfl, rfl, rfl⟩
    have hrep' := setBucket_rep hrep hb hc ht (by rw [hb'])
    rw [hm] at hf
    simp only [hv]
    cases hm' : mergeBucket shares notional count b.forget with
    | ok u c =>
      rw [hm'] at hf
      obtain ⟨-, rfl⟩ := hf
      exact ⟨rfl, hrep'⟩
    | error e c =>
      rw [hm'] at hf
      exact hf.elim
  | mergeFailed s1 b b' e hu hc hb hm =>
    have hrep := h.upkeep hu
    have hv : v.buckets.get? tick = some b.forget := by
      rw [← hrep.book_eq]
      exact hrep.inv.view_some hc hb
    have hf := mergeBucket_forget shares notional count b
    have hfr := mergeBucket_frame shares notional count b
    rw [hm] at hf hfr
    obtain ⟨ht, ha⟩ : SameTrail b b' ∧ b'.accruedValue = b.accruedValue := by
      rcases hfr with ⟨_, h, -⟩ | ⟨_, _, h, ht, ha⟩
      · cases h
      · cases h
        exact ⟨ht, ha⟩
    have hrep' := setBucket_rep hrep hb hc ht ha
    simp only [hv]
    cases hm' : mergeBucket shares notional count b.forget with
    | ok u c =>
      rw [hm'] at hf
      exact hf.elim
    | error e' c =>
      rw [hm'] at hf
      obtain ⟨rfl, rfl⟩ := hf
      exact ⟨rfl, hrep'⟩
  | inserted hb hn =>
    obtain ⟨hi, hbd, rfl⟩ := h
    have hv : s.book.buckets.get? tick = none := view_none hb
    have hs : s.book.buckets.size = s.buckets.size := OrdMap.size_mapVal _ _
    simp only [hv, hs]
    unfold bucketCount at hn
    rw [if_neg (not_le.mpr hn)]
    refine ⟨rfl, insertBucket_inv hi hb _ _ _ _, hbd, ?_⟩
    have hins := view_insert (b := freshBucket s.direction tick anchor shares notional count
      s.nextEventIndex) hi tick rfl
    simp only [book, hins]
    rfl
  | capped hb hn =>
    have hv : v.buckets.get? tick = none := by
      rw [← h.book_eq]
      exact view_none hb
    have hs : v.buckets.size = s.buckets.size := by
      rw [← h.book_eq]
      exact OrdMap.size_mapVal _ _
    unfold bucketCount at hn
    simp only [hv, hs]
    rw [if_pos hn]
    exact ⟨rfl, h⟩
  | tooMuch s' hb => exact absurd h.bounded hb

theorem view_replace {s : DormantStore} (h : s.Inv) (tick : Int) {b : DormantBucket}
    (hn : b.lastAppliedIndex = s.nextEventIndex) :
    view { s with buckets := replaceBucket s.buckets tick b }
      = replaceBucket s.view tick b.forget := by
  unfold replaceBucket
  by_cases he : b.totalRecoveryShares = 0 ∧ b.accruedValue = 0
  · have he' : b.forget.totalRecoveryShares = 0 ∧ b.forget.accruedValue = 0 := he
    rw [if_pos he, if_pos he']
    exact OrdMap.mapVal_erase _ s.buckets tick
  · have he' : ¬ (b.forget.totalRecoveryShares = 0 ∧ b.forget.accruedValue = 0) := he
    rw [if_neg he, if_neg he']
    exact view_insert h tick hn

theorem redeem_agrees {s : DormantStore} {v : Book} (h : s.Rep v) (tick : Int) (shares : Nat) :
    Agrees Rep (redeem tick shares s) (Book.redeem tick shares v) := by
  have hd := redeem_cases h.inv tick shares
  unfold Book.redeem
  revert hd
  generalize redeem tick shares s = r
  have hview : ∀ {s1 : DormantStore} {b : DormantBucket}, s.Upkeep s1 → s1.CaughtUp tick →
      s1.buckets.get? tick = some b → v.buckets.get? tick = some b.forget := by
    intro s1 b hu hc hb
    rw [← (h.upkeep hu).book_eq]
    exact hu.inv.view_some hc hb
  intro hd
  cases hd with
  | burned s1 b b' r hu hc hb h0 hle hm =>
    have hv := hview hu hc hb
    have hrep := h.upkeep hu
    obtain ⟨-, -, -, hred, -, -, hb'⟩ := burnShares_ok hm
    have hlt : ¬ b.forget.totalRecoveryShares < shares := not_lt.mpr hle
    simp only [hv]
    rw [if_neg h0, if_neg hlt, burnShares_forget, hm]
    refine ⟨rfl, burned_inv hrep.inv hb hc hm, ?_, ?_⟩
    · have := hrep.bounded
      simp only [Bounded] at this ⊢
      omega
    · have hn : b'.lastAppliedIndex = s1.nextEventIndex := by
        rw [hb']
        exact hc b hb
      have hvr := view_replace hrep.inv tick hn
      rw [← hrep.book_eq]
      simp only [book, Book.mk.injEq]
      exact ⟨trivial, hvr, trivial⟩
  | nothing s1 b hu hc hb h0 =>
    have hv := hview hu hc hb
    simp only [hv]
    rw [if_pos h0]
    exact ⟨rfl, h.upkeep hu⟩
  | missing hb =>
    have hv : v.buckets.get? tick = none := by
      rw [← h.book_eq]
      exact view_none hb
    simp only [hv]
    exact ⟨rfl, h⟩
  | exceeds s1 b hu hc hb h0 hlt =>
    have hv := hview hu hc hb
    have hlt' : b.forget.totalRecoveryShares < shares := hlt
    simp only [hv]
    rw [if_neg h0, if_pos hlt']
    exact ⟨rfl, h.upkeep hu⟩
  | failed s1 b e hu hc hb h0 hle hm =>
    have hv := hview hu hc hb
    have hlt : ¬ b.forget.totalRecoveryShares < shares := not_lt.mpr hle
    simp only [hv]
    rw [if_neg h0, if_neg hlt, burnShares_forget, hm]
    exact ⟨rfl, h.upkeep hu⟩
  | tooMuch s' hb => exact absurd h.bounded hb

theorem distributeBy_book {mode : DistributeMode} {s s' : DormantStore} {p a m : Nat}
    {r : DistributionReceipt} (h : s.Inv) (hr : distributeBy mode p a m s = .ok r s') :
    Book.distribute p a s.book = .ok r s'.book := by
  have hd := distributeBy_cases h mode p a m
  rw [hr] at hd
  unfold Book.distribute
  cases hd with
  | idle _ hu h0 =>
    rw [hu.book_eq]
    by_cases hz : a = 0
    · rw [if_pos hz, hz]
    · have ht : s.book.totalOutstanding p = .ok 0 := h0.resolve_left hz
      rw [if_neg hz, ht]
      rfl
  | recorded s1 t total hz ht hrec =>
    have hto : s.book.totalOutstanding p = .ok t := hrec.outstanding
    rw [if_neg hz, hto]
    simp only [ht, if_false]
    rw [← quoteShares_allocated hrec.quoted, hrec.book_eq mode]

theorem insertOrMerge_book {s s' : DormantStore} {tick : Int}
    {anchor shares notional count cap : Nat} {u : Unit} (h : s.Inv) (hb : s.Bounded)
    (hr : insertOrMerge tick anchor shares notional count cap s = .ok u s') :
    Book.insertOrMerge tick anchor shares notional count cap s.book = .ok u s'.book := by
  have ha := insertOrMerge_agrees (Rep.mk h hb rfl) tick anchor shares notional count cap
  rw [hr] at ha
  cases hv : Book.insertOrMerge tick anchor shares notional count cap s.book with
  | ok u' v =>
    rw [hv] at ha
    rw [ha.2.book_eq]
  | error e v =>
    rw [hv] at ha
    exact ha.elim

theorem redeem_book {s s' : DormantStore} {tick : Int} {shares : Nat} {r : RedeemReceipt}
    (h : s.Inv) (hb : s.Bounded) (hr : redeem tick shares s = .ok r s') :
    Book.redeem tick shares s.book = .ok r s'.book := by
  have ha := redeem_agrees (Rep.mk h hb rfl) tick shares
  rw [hr] at ha
  cases hv : Book.redeem tick shares s.book with
  | ok r' v =>
    rw [hv] at ha
    obtain ⟨rfl, hrep⟩ := ha
    rw [hrep.book_eq]
  | error e v =>
    rw [hv] at ha
    exact ha.elim

theorem applyPendingToAll_rep {s : DormantStore} {v : Book} (h : s.Rep v) :
    ∃ n s', applyPendingToAll s = .ok n s' ∧ s'.Rep v ∧ ∀ k, s'.CaughtUp k := by
  rcases applyPendingToAll_cases h.inv with ⟨n, s', hn, hu, hc⟩ | ⟨-, hb⟩
  · exact ⟨n, s', hn, h.upkeep hu, hc⟩
  · exact absurd h.bounded hb

/-- Once every trail is applied, the buckets are the book's, up to their indices. -/
theorem Rep.buckets_eq {s : DormantStore} {v : Book} (h : s.Rep v) (hc : ∀ k, s.CaughtUp k) :
    s.buckets.mapVal (fun _ b => b.forget) = v.buckets := by
  rw [← h.book_eq]
  apply OrdMap.ext_get?
  intro k
  change _ = s.view.get? k
  rw [((hc k).settled h.inv).view_get?, OrdMap.get?_mapVal]
  rfl

end DormantStore
end MoleFinance
