import MoleFinance.Dormant.Replay

/-! The two distribution paths. Both bring every activated bucket to the ledger head
and append one entry; they differ in where the shares of that entry stand. -/
namespace MoleFinance
open MoleMath Call

/-- Share of a bucket that has applied everything before the event. -/
def bucketShare (pNow totalAlloc totalOutstanding : Nat) (bucket : DormantBucket) :
    Except ClearingError Nat := do
  let outstanding ← bucket.outstandingClaimAt pNow
  distributionShare totalAlloc outstanding totalOutstanding

def shareOf (pNow totalAlloc totalOutstanding : Nat) (bucket : DormantBucket) : Nat :=
  valueOr0 (bucketShare pNow totalAlloc totalOutstanding bucket)

def credited (pNow totalAlloc totalOutstanding index : Nat) (bucket : DormantBucket) :
    DormantBucket :=
  { bucket with
    accruedValue := bucket.accruedValue + shareOf pNow totalAlloc totalOutstanding bucket
    lastAppliedIndex := index }

theorem mem_activatedKeys {direction : Direction} {buckets : BucketMap} {pNow : Nat} {tick : Int} :
    tick ∈ activatedKeys direction buckets pNow ↔
      ∃ b, buckets.get? tick = some b ∧ activated direction pNow b.anchorPrice = true := by
  simp [activatedKeys, OrdMap.get?_eq_some]

theorem mem_activatedKeys_of (direction : Direction) {buckets : BucketMap} (pNow : Nat)
    {tick : Int} {b : DormantBucket} (hb : buckets.get? tick = some b) :
    tick ∈ activatedKeys direction buckets pNow ↔
      activated direction pNow b.anchorPrice = true := by
  rw [mem_activatedKeys, hb]
  simp

theorem activatedKeys_nodup (direction : Direction) (buckets : BucketMap) (pNow : Nat) :
    (activatedKeys direction buckets pNow).Nodup :=
  (buckets.keys_nodup).sublist (List.filter_sublist.map _)

theorem activatedKeys_mapVal {f : Int → DormantBucket → DormantBucket} (direction : Direction)
    (buckets : BucketMap) (pNow : Nat) (hf : ∀ k b, (f k b).anchorPrice = b.anchorPrice) :
    activatedKeys direction (buckets.mapVal f) pNow = activatedKeys direction buckets pNow := by
  simp only [activatedKeys, OrdMap.mapVal, List.filter_map, List.map_map]
  congr 1
  apply List.filter_congr
  intro e _
  simp [hf]

/-- A ledger entry gives an activated, caught-up bucket the share its event computed. -/
theorem replayShare_event {direction : Direction} {bucket : DormantBucket} {entry : DistEntry}
    (hd : bucket.direction = direction) (ht : entry.totalOutstandingAtEvent ≠ 0)
    (ha : activated direction entry.pAtEvent bucket.anchorPrice = true) :
    replayShare direction bucket bucket.accruedValue entry
      = bucketShare entry.pAtEvent entry.totalAllocInput entry.totalOutstandingAtEvent bucket := by
  subst hd
  unfold replayShare bucketShare DormantBucket.outstandingClaimAt DormantBucket.intrinsicClaimAt
  rw [if_neg ht]
  by_cases hz : bucket.anchorPrice = 0 ∨ bucket.totalRecoveryNotional = 0
  · have hn : ¬ (activated bucket.direction entry.pAtEvent bucket.anchorPrice = true
        ∧ 0 < bucket.totalRecoveryNotional ∧ 0 < bucket.anchorPrice) := by omega
    have hi : computeIntrinsic bucket.direction bucket entry.pAtEvent = .ok 0 := by
      simp [computeIntrinsic, hz]
    rw [if_neg hn, hi]
    simp [pure, Except.pure, distributionShare]
  · have hp : activated bucket.direction entry.pAtEvent bucket.anchorPrice = true
        ∧ 0 < bucket.totalRecoveryNotional ∧ 0 < bucket.anchorPrice := ⟨ha, by omega⟩
    rw [if_pos hp]
    cases computeIntrinsic bucket.direction bucket entry.pAtEvent with
    | error e => rfl
    | ok i => rfl

/-! The loops over the activated keys, on a map of buckets. -/

theorem quoteShare_ok {buckets : BucketMap} {p a t acc c : Nat} {key : Int} :
    quoteShare buckets p a t acc key = .ok c ↔
      ∃ b share, buckets.get? key = some b ∧ bucketShare p a t b = .ok share ∧
        addShare acc share = .ok c := by
  unfold quoteShare bucketShare
  cases buckets.get? key with
  | none => simp
  | some b =>
    simp only [except_bind_ok, Option.some.injEq]
    constructor
    · rintro ⟨o, ho, share, hs, hc⟩
      exact ⟨b, share, rfl, ⟨o, ho, hs⟩, hc⟩
    · rintro ⟨_, share, rfl, ⟨o, ho, hs⟩, hc⟩
      exact ⟨o, ho, share, hs, hc⟩

theorem quoteShares_eq {buckets : BucketMap} {p a t : Nat} {keys : List Int} {acc total : Nat}
    (hn : keys.Nodup) (h : quoteShares buckets p a t acc keys = .ok total) :
    total = acc + buckets.sum (fun k b => if k ∈ keys then shareOf p a t b else 0) := by
  induction keys generalizing acc with
  | nil =>
    rw [quoteShares] at h
    injection h with h
    simp [OrdMap.sum, h]
  | cons key keys ih =>
    obtain ⟨hk, hn⟩ := List.nodup_cons.mp hn
    rw [quoteShares, except_bind_ok] at h
    obtain ⟨c, hq, h⟩ := h
    obtain ⟨b, share, hb, hs, hc⟩ := quoteShare_ok.mp hq
    rw [ih hn h, OrdMap.sum_adjust_cons (fun _ b => shareOf p a t b) hb hk, addShare_ok hc]
    simp only [shareOf, hs, valueOr0_ok]
    ring

theorem quoteShares_mem {buckets : BucketMap} {p a t : Nat} {keys : List Int} {acc total : Nat}
    (h : quoteShares buckets p a t acc keys = .ok total) {key : Int} (hk : key ∈ keys) :
    ∃ b share, buckets.get? key = some b ∧ bucketShare p a t b = .ok share := by
  induction keys generalizing acc with
  | nil => simp at hk
  | cons k keys ih =>
    rw [quoteShares, except_bind_ok] at h
    obtain ⟨c, hq, h⟩ := h
    rcases List.mem_cons.mp hk with rfl | hk
    · obtain ⟨b, share, hb, hs, -⟩ := quoteShare_ok.mp hq
      exact ⟨b, share, hb, hs⟩
    · exact ih h hk

theorem quoteShares_insert {buckets : BucketMap} {p a t : Nat} {keys : List Int} {acc : Nat}
    {key : Int} (b : DormantBucket) (hk : key ∉ keys) :
    quoteShares (buckets.insert key b) p a t acc keys = quoteShares buckets p a t acc keys := by
  induction keys generalizing acc with
  | nil => rfl
  | cons k keys ih =>
    rw [List.mem_cons, not_or] at hk
    obtain ⟨hne, hk⟩ := hk
    have hq : ∀ acc, quoteShare (buckets.insert key b) p a t acc k
        = quoteShare buckets p a t acc k := by
      intro acc
      unfold quoteShare
      rw [OrdMap.get?_insert_ne _ _ (Ne.symm hne)]
    simp only [quoteShares, hq, ih hk]

namespace DormantStore

theorem attributeShare_of {s : DormantStore} {p a t index acc c : Nat} {key : Int}
    {b : DormantBucket} (hb : s.buckets.get? key = some b)
    (hq : quoteShare s.buckets p a t acc key = .ok c)
    (ha : b.accruedValue + shareOf p a t b < u128Size) (hi : index + 1 < u64Size) :
    attributeShare p a t index acc key s
      = .ok c (s.setBucket key (credited p a t (index + 1) b)) := by
  obtain ⟨b', share, hb', hs, hc⟩ := quoteShare_ok.mp hq
  obtain rfl : b = b' := Option.some.inj (hb.symm.trans hb')
  obtain ⟨o, ho, hd⟩ := except_bind_ok.mp hs
  have hv : shareOf p a t b = share := by rw [shareOf, hs, valueOr0_ok]
  rw [hv] at ha
  simp [attributeShare, hb, ho, hd, addShare_of (.inr ha), hc, nextIndex_of hi, credited, hv]

theorem attributeShare_ok {s s' : DormantStore} {p a t index acc c : Nat} {key : Int}
    (h : attributeShare p a t index acc key s = .ok c s') :
    ∃ b, s.buckets.get? key = some b ∧ quoteShare s.buckets p a t acc key = .ok c ∧
      index + 1 < u64Size ∧ s' = s.setBucket key (credited p a t (index + 1) b) := by
  rw [attributeShare, get_bind] at h
  cases hb : s.buckets.get? key with
  | none => simp [hb] at h
  | some b =>
    simp only [hb, bind_ok, orFail_run_ok] at h
    obtain ⟨o, _, ⟨ho, rfl⟩, share, _, ⟨hd, rfl⟩, accrued, _, ⟨ha, rfl⟩, h⟩ := h
    obtain ⟨_, s1, h1, c', _, ⟨hc, rfl⟩, i, _, ⟨hi, rfl⟩, _, s2, h2, h3⟩ := h
    cases h1
    cases h2
    cases h3
    have hs : bucketShare p a t b = .ok share := except_bind_ok.mpr ⟨o, ho, hd⟩
    have hn : index + 1 < u64Size ∧ i = index + 1 := by
      unfold nextIndex at hi
      split_ifs at hi with hlt
      exact ⟨hlt, (Except.ok.inj hi).symm⟩
    refine ⟨b, rfl, quoteShare_ok.mpr ⟨b, share, hb, hs, hc⟩, hn.1, ?_⟩
    simp [credited, shareOf, hs, addShare_ok ha, hn.2]

theorem attributeShares_ok {s s' : DormantStore} {p a t index : Nat} {keys : List Int}
    {acc total : Nat} (hn : keys.Nodup)
    (h : attributeShares p a t index acc keys s = .ok total s') :
    quoteShares s.buckets p a t acc keys = .ok total ∧
      s' = { s with buckets := s.buckets.adjust keys (credited p a t (index + 1)) } := by
  induction keys generalizing s acc with
  | nil =>
    cases h
    exact ⟨rfl, by simp⟩
  | cons key keys ih =>
    obtain ⟨hk, hn⟩ := List.nodup_cons.mp hn
    rw [attributeShares, bind_ok] at h
    obtain ⟨c, s1, h1, h⟩ := h
    obtain ⟨b, hb, hq, -, rfl⟩ := attributeShare_ok h1
    obtain ⟨hqs, rfl⟩ := ih hn h
    simp only [setBucket] at hqs ⊢
    rw [quoteShares_insert _ hk] at hqs
    rw [OrdMap.adjust_cons _ hb hk]
    exact ⟨by rw [quoteShares, hq]; exact hqs, rfl⟩

theorem attributeShares_of {s : DormantStore} {p a t index : Nat} {keys : List Int}
    {acc total : Nat} (hn : keys.Nodup) (hq : quoteShares s.buckets p a t acc keys = .ok total)
    (hi : index + 1 < u64Size)
    (hf : ∀ k ∈ keys, ∀ b, s.buckets.get? k = some b →
      b.accruedValue + shareOf p a t b < u128Size) :
    attributeShares p a t index acc keys s = .ok total
      { s with buckets := s.buckets.adjust keys (credited p a t (index + 1)) } := by
  induction keys generalizing s acc with
  | nil =>
    rw [quoteShares] at hq
    cases hq
    simp [attributeShares]
  | cons key keys ih =>
    obtain ⟨hk, hn⟩ := List.nodup_cons.mp hn
    rw [quoteShares, except_bind_ok] at hq
    obtain ⟨c, h1, hq⟩ := hq
    obtain ⟨b, share, hb, -, -⟩ := quoteShare_ok.mp h1
    have ha := hf key List.mem_cons_self b hb
    rw [attributeShares, bind_of_ok (attributeShare_of hb h1 ha hi)]
    rw [ih (s := s.setBucket key (credited p a t (index + 1) b)) hn]
    · simp only [setBucket, OrdMap.adjust_cons _ hb hk]
    · simpa only [setBucket, quoteShares_insert _ hk] using hq
    · intro k hm b' hb'
      have hne : k ≠ key := fun he => hk (he ▸ hm)
      rw [setBucket, OrdMap.get?_insert_ne _ _ hne] at hb'
      exact hf k (List.mem_cons_of_mem key hm) b' hb'

/-! Bringing the activated buckets to the ledger head. -/

theorem drainBuckets_cases {s : DormantStore} (h : s.Inv) (keys : List Int) :
    (∃ s', drainBuckets keys s = .ok () s' ∧ s.Upkeep s' ∧ ∀ k ∈ keys, s'.CaughtUp k) ∨
    (∃ s', drainBuckets keys s = .error .mathOverflow s') ∧ ¬ s.Bounded := by
  induction keys generalizing s with
  | nil => exact .inl ⟨s, rfl, .refl h, by simp⟩
  | cons key keys ih =>
    rcases applyPendingToBucket_cases h key with ⟨n, hn⟩ | ⟨⟨s', hs'⟩, hb⟩
    · have hu := settle_upkeep h key
      rw [drainBuckets, bind_of_ok hn]
      rcases ih hu.inv with ⟨s', hr, hu', hc⟩ | ⟨hr, hb⟩
      · refine .inl ⟨s', hr, hu.trans hu', ?_⟩
        intro k hk
        rcases List.mem_cons.mp hk with rfl | hk
        · exact hu'.caughtUp (settle_caughtUp s k)
        · exact hc k hk
      · exact .inr ⟨hr, fun hs => hb (hu.bounded.mpr hs)⟩
    · rw [drainBuckets, bind_of_error hs']
      exact .inr ⟨⟨s', rfl⟩, hb⟩

theorem applyPendingToTicks_cases {s : DormantStore} (h : s.Inv) (total : Nat)
    (ticks : List Int) :
    (∃ n s', applyPendingToTicks total ticks s = .ok n s' ∧ s.Upkeep s' ∧
      ∀ k ∈ ticks, s'.CaughtUp k) ∨
    (∃ s', applyPendingToTicks total ticks s = .error .mathOverflow s') ∧ ¬ s.Bounded := by
  induction ticks generalizing s total with
  | nil => exact .inl ⟨total, s, rfl, .refl h, by simp⟩
  | cons tick ticks ih =>
    rcases applyPendingToBucket_cases h tick with ⟨n, hn⟩ | ⟨⟨s', hs'⟩, hb⟩
    · have hu := settle_upkeep h tick
      rw [applyPendingToTicks, bind_of_ok hn]
      rcases ih hu.inv (total + n) with ⟨m, s', hr, hu', hc⟩ | ⟨hr, hb⟩
      · refine .inl ⟨m, s', hr, hu.trans hu', ?_⟩
        intro k hk
        rcases List.mem_cons.mp hk with rfl | hk
        · exact hu'.caughtUp (settle_caughtUp s k)
        · exact hc k hk
      · exact .inr ⟨hr, fun hs => hb (hu.bounded.mpr hs)⟩
    · rw [applyPendingToTicks, bind_of_error hs']
      exact .inr ⟨⟨s', rfl⟩, hb⟩

theorem applyPendingToAll_cases {s : DormantStore} (h : s.Inv) :
    (∃ n s', applyPendingToAll s = .ok n s' ∧ s.Upkeep s' ∧ ∀ k, s'.CaughtUp k) ∨
    (∃ s', applyPendingToAll s = .error .mathOverflow s') ∧ ¬ s.Bounded := by
  have hall : applyPendingToAll s = applyPendingToTicks 0 s.bucketTicks s := rfl
  rw [hall]
  rcases applyPendingToTicks_cases h 0 s.bucketTicks with ⟨n, s', hr, hu, hc⟩ | he
  · refine .inl ⟨n, s', hr, hu, ?_⟩
    intro k b hb
    have hk : k ∈ s'.buckets.keys := OrdMap.mem_keys.mpr ⟨b, hb⟩
    rw [hu.keys_eq] at hk
    exact hc k hk b hb
  · exact .inr he

/-! What the loops read is the view of the store. -/

theorem activatedKeys_view (s : DormantStore) (p : Nat) :
    activatedKeys s.direction s.view p = activatedKeys s.direction s.buckets p :=
  activatedKeys_mapVal s.direction s.buckets p (fun _ _ => rfl)

theorem Upkeep.activatedKeys_eq {s s' : DormantStore} (h : s.Upkeep s') (p : Nat) :
    activatedKeys s'.direction s'.buckets p = activatedKeys s.direction s.buckets p := by
  rw [← activatedKeys_view, ← activatedKeys_view, h.view_eq, h.direction_eq]

/-- The ledger owes nothing to the bucket at `tick`, if any. -/
def Settled (s : DormantStore) (tick : Int) : Prop :=
  ∀ b, s.buckets.get? tick = some b → s.owed b = 0

theorem CaughtUp.settled {s : DormantStore} (h : s.Inv) {tick : Int} (hc : s.CaughtUp tick) :
    s.Settled tick := fun b hb => h.owed_head (hc b hb)

theorem CaughtUp.all_settled {s : DormantStore} (h : s.Inv) {keys : List Int}
    (hc : ∀ k ∈ keys, s.CaughtUp k) : ∀ k ∈ keys, s.Settled k :=
  fun k hk => (hc k hk).settled h

theorem Settled.view_get? {s : DormantStore} {tick : Int} (hs : s.Settled tick) :
    s.view.get? tick
      = (s.buckets.get? tick).map (fun b => { b with lastAppliedIndex := 0 }) := by
  rw [view, OrdMap.get?_mapVal]
  cases hb : s.buckets.get? tick with
  | none => rfl
  | some b => simp [hs b hb]

theorem Settled.addOutstanding_view {s : DormantStore} {tick : Int} (hs : s.Settled tick)
    (p total : Nat) :
    addOutstanding s.buckets p total tick = addOutstanding s.view p total tick := by
  unfold addOutstanding
  rw [hs.view_get?]
  cases s.buckets.get? tick with
  | none => rfl
  | some b => rfl

theorem sumOutstanding_view {s : DormantStore} {keys : List Int} (hs : ∀ k ∈ keys, s.Settled k)
    (p total : Nat) :
    sumOutstanding s.buckets p total keys = sumOutstanding s.view p total keys := by
  induction keys generalizing total with
  | nil => rfl
  | cons key keys ih =>
    have ih' := fun t => ih (fun k hk => hs k (List.mem_cons_of_mem key hk)) t
    simp only [sumOutstanding, (hs key List.mem_cons_self).addOutstanding_view, ih']

theorem quoteShares_view {s : DormantStore} {keys : List Int} (hs : ∀ k ∈ keys, s.Settled k)
    (p a t acc : Nat) :
    quoteShares s.buckets p a t acc keys = quoteShares s.view p a t acc keys := by
  induction keys generalizing acc with
  | nil => rfl
  | cons key keys ih =>
    have ih' := fun acc => ih (fun k hk => hs k (List.mem_cons_of_mem key hk)) acc
    have hq : quoteShare s.buckets p a t acc key = quoteShare s.view p a t acc key := by
      unfold quoteShare
      rw [(hs key List.mem_cons_self).view_get?]
      cases s.buckets.get? key with
      | none => rfl
      | some b => rfl
    simp only [quoteShares, hq, ih']

theorem drainAndSum_cases {s : DormantStore} (h : s.Inv) (p total : Nat) (keys : List Int) :
    (∃ t s', drainAndSum p total keys s = .ok t s' ∧ s.Upkeep s' ∧
      (∀ k ∈ keys, s'.CaughtUp k) ∧ sumOutstanding s.view p total keys = .ok t) ∨
    (∃ e s', drainAndSum p total keys s = .error e s' ∧ s.Upkeep s' ∧
      sumOutstanding s.view p total keys = .error e) ∨
    (∃ s', drainAndSum p total keys s = .error .mathOverflow s') ∧ ¬ s.Bounded := by
  induction keys generalizing s total with
  | nil => exact .inl ⟨total, s, rfl, .refl h, by simp, rfl⟩
  | cons key keys ih =>
    rcases applyPendingToBucket_cases h key with ⟨n, hn⟩ | ⟨⟨s', hs'⟩, hb⟩
    · have hu := settle_upkeep h key
      have hc := settle_caughtUp s key
      have hadd := (hc.settled hu.inv).addOutstanding_view p total
      rw [hu.view_eq] at hadd
      rw [drainAndSum, bind_of_ok hn, get_bind, hadd, sumOutstanding]
      cases hx : addOutstanding s.view p total key with
      | error e => exact .inr (.inl ⟨e, _, rfl, hu, rfl⟩)
      | ok t =>
        rw [orFail_ok_bind, ok_bind]
        have := ih hu.inv t
        rw [hu.view_eq] at this
        rcases this with ⟨t', s', hr, hu', hc', ht'⟩ | ⟨e, s', hr, hu', he⟩ | ⟨hr, hb⟩
        · refine .inl ⟨t', s', hr, hu.trans hu', ?_, ht'⟩
          intro k hk
          rcases List.mem_cons.mp hk with rfl | hk
          · exact hu'.caughtUp hc
          · exact hc' k hk
        · exact .inr (.inl ⟨e, s', hr, hu.trans hu', he⟩)
        · exact .inr (.inr ⟨hr, fun hs => hb (hu.bounded.mpr hs)⟩)
    · rw [drainAndSum, bind_of_error hs']
      exact .inr (.inr ⟨⟨s', rfl⟩, hb⟩)

theorem reserveEntry_cases {s : DormantStore} (h : s.Inv) (maxLedgerSize : Nat) :
    ∃ s', s.Upkeep s' ∧ (reserveEntry maxLedgerSize s = .ok () s' ∨
      reserveEntry maxLedgerSize s = .error .ledgerCapacityExceeded s') := by
  obtain ⟨n, s', hr, hu⟩ := compactLedger_run h
  unfold reserveEntry
  rw [get_bind]
  by_cases hl : maxLedgerSize ≤ s.ledger.length
  · rw [if_pos hl, bind_of_ok hr, get_bind]
    refine ⟨s', hu, ?_⟩
    by_cases hl' : maxLedgerSize ≤ s'.ledger.length
    · exact .inr (by rw [if_pos hl']; rfl)
    · exact .inl (by rw [if_neg hl']; rfl)
  · rw [if_neg hl]
    exact ⟨s, .refl h, .inl rfl⟩

/-- The lazy path leaves the shares in the ledger. -/
def recordLazy (s : DormantStore) (entry : DistEntry) : DormantStore :=
  { s with
    ledger := s.ledger ++ [entry]
    nextEventIndex := s.nextEventIndex + 1
    pendingDistributionTotal := s.pendingDistributionTotal + entry.allocatedSumObserved }

/-- The eager path hands them to the activated buckets. -/
def recordEager (s : DormantStore) (entry : DistEntry) : DormantStore :=
  { s with
    buckets := s.buckets.adjust (activatedKeys s.direction s.buckets entry.pAtEvent)
      (credited entry.pAtEvent entry.totalAllocInput entry.totalOutstandingAtEvent
        (s.nextEventIndex + 1))
    accruedValueTotal := s.accruedValueTotal + entry.allocatedSumObserved
    ledger := s.ledger ++ [entry]
    nextEventIndex := s.nextEventIndex + 1 }

/-- An event ready to be recorded: the activated buckets are at the head, and the entry
    carries the next index and the total of their shares. -/
structure Event (s : DormantStore) (entry : DistEntry) : Prop where
  index_eq : entry.eventIndex = s.nextEventIndex
  next_lt : s.nextEventIndex + 1 < u64Size
  caughtUp : ∀ k ∈ activatedKeys s.direction s.buckets entry.pAtEvent, s.CaughtUp k
  outstanding : entry.totalOutstandingAtEvent ≠ 0
  quoted : quoteShares s.buckets entry.pAtEvent entry.totalAllocInput
    entry.totalOutstandingAtEvent 0 (activatedKeys s.direction s.buckets entry.pAtEvent)
      = .ok entry.allocatedSumObserved

section Record
variable {s : DormantStore} {entry : DistEntry}

def eventShare (s : DormantStore) (entry : DistEntry) (tick : Int) (b : DormantBucket) : Nat :=
  if tick ∈ activatedKeys s.direction s.buckets entry.pAtEvent
  then shareOf entry.pAtEvent entry.totalAllocInput entry.totalOutstandingAtEvent b else 0

theorem Event.allocated_eq (he : s.Event entry) :
    entry.allocatedSumObserved = s.buckets.sum (s.eventShare entry) := by
  have := quoteShares_eq (activatedKeys_nodup _ _ _) he.quoted
  rw [this, Nat.zero_add]
  rfl

theorem recordLazy_suffix (h : s.Inv) {tick : Int} {b : DormantBucket}
    (hb : s.BucketOk tick b) : (s.recordLazy entry).suffix b = s.suffix b ++ [entry] := by
  have hw := h.window
  have hg := hb.gc_le
  have hn := hb.le_next
  have hl : b.lastAppliedIndex - s.ledgerGcOffset ≤ s.ledger.length := by omega
  exact List.drop_append_of_le_length hl

theorem windowAlloc_append (ledger : List DistEntry) (entry : DistEntry) (k : Nat)
    (hk : k ≤ ledger.length) :
    windowAlloc ((ledger ++ [entry]).drop k)
      = windowAlloc (ledger.drop k) + entry.allocatedSumObserved := by
  simp [windowAlloc, List.drop_append_of_le_length hk]

/-- The new entry owes an activated bucket its share of the event, and others nothing. -/
theorem recordLazy_owed (h : s.Inv) (he : s.Event entry) {tick : Int} {b : DormantBucket}
    (hb : s.buckets.get? tick = some b) :
    (s.recordLazy entry).owed b = s.owed b + s.eventShare entry tick b := by
  have hok := h.bucketOk tick b hb
  have hm := mem_activatedKeys_of s.direction entry.pAtEvent hb
  unfold owed eventShare
  rw [recordLazy_suffix h hok]
  split_ifs with hk
  · have ha := hm.mp hk
    rw [h.suffix_head (he.caughtUp tick hk b hb)]
    simp only [List.nil_append, headShare, Nat.zero_add, shareOf]
    exact congrArg valueOr0 (replayShare_event hok.direction_eq he.outstanding ha)
  · have ha : activated s.direction entry.pAtEvent b.anchorPrice = false := by
      simpa using mt hm.mpr hk
    exact headShare_append ha

theorem recordLazy_quiet (h : s.Inv) (he : s.Event entry) {tick : Int} {b : DormantBucket}
    (hb : s.buckets.get? tick = some b) :
    Quiet s.direction b ((s.recordLazy entry).suffix b) := by
  have hok := h.bucketOk tick b hb
  have hm := mem_activatedKeys_of s.direction entry.pAtEvent hb
  rw [recordLazy_suffix h hok]
  by_cases hk : tick ∈ activatedKeys s.direction s.buckets entry.pAtEvent
  · have ha := hm.mp hk
    obtain ⟨b', share, hb', hs⟩ := quoteShares_mem he.quoted hk
    obtain rfl : b = b' := Option.some.inj (hb.symm.trans hb')
    rw [h.suffix_head (he.caughtUp tick hk b hb)]
    refine ⟨⟨share, ?_⟩, by simp⟩
    rw [replayShare_event hok.direction_eq he.outstanding ha, hs]
  · exact hok.quiet.append (by simpa using mt hm.mpr hk)

theorem recordLazy_inv (h : s.Inv) (he : s.Event entry) : (s.recordLazy entry).Inv := by
  have hw := h.window
  have ho : (s.recordLazy entry).buckets.sum (fun _ b => (s.recordLazy entry).owed b)
      = s.buckets.sum (fun _ b => s.owed b) + entry.allocatedSumObserved := by
    rw [he.allocated_eq, ← OrdMap.sum_add]
    exact OrdMap.sum_congr (fun tick b hb => recordLazy_owed h he hb)
  refine ⟨?_, he.next_lt, ?_, ?_, h.accrued_eq, ?_, ?_⟩
  · simp only [recordLazy, List.length_append, List.length_singleton]
    omega
  · exact h.indexed.append (by rw [he.index_eq, hw])
  · intro tick b hb
    have hok := h.bucketOk tick b hb
    exact ⟨hok.direction_eq, hok.tick_eq, hok.gc_le, hok.le_next.trans (Nat.le_succ _),
      recordLazy_quiet h he hb⟩
  · rw [ho, ← h.pending_eq]
    rfl
  · intro k
    by_cases hk : k ≤ s.ledger.length
    · have hc := h.covered k
      have hsum : (s.recordLazy entry).buckets.sum (fun _ b =>
          if (s.recordLazy entry).ledgerGcOffset + k ≤ b.lastAppliedIndex
            then (s.recordLazy entry).owed b else 0)
          ≤ s.buckets.sum (fun tick b =>
            (if s.ledgerGcOffset + k ≤ b.lastAppliedIndex then s.owed b else 0)
              + s.eventShare entry tick b) := by
        apply OrdMap.sum_le_sum
        intro tick b hb
        rw [recordLazy_owed h he hb]
        by_cases hl : s.ledgerGcOffset + k ≤ b.lastAppliedIndex
        · exact (if_pos hl).trans_le (by rw [if_pos hl])
        · exact (if_neg hl).trans_le (Nat.zero_le _)
      rw [OrdMap.sum_add, ← he.allocated_eq] at hsum
      have := windowAlloc_append s.ledger entry k hk
      simp only [recordLazy] at hsum ⊢
      omega
    · -- no bucket has applied more entries than there were
      have hz : (s.recordLazy entry).buckets.sum (fun _ b =>
          if (s.recordLazy entry).ledgerGcOffset + k ≤ b.lastAppliedIndex
            then (s.recordLazy entry).owed b else 0) = 0 := by
        rw [OrdMap.sum_zero_iff]
        intro tick b hb
        have := (h.bucketOk tick b hb).le_next
        apply if_neg
        simp only [recordLazy]
        omega
      rw [hz]
      exact Nat.zero_le _

/-- Eager recording is lazy recording followed by replaying the activated buckets. -/
theorem recordEager_eq (h : s.Inv) (he : s.Event entry) :
    s.recordEager entry = (s.recordLazy entry).settleAll
      (activatedKeys s.direction s.buckets entry.pAtEvent) := by
  have hk : ∀ k ∈ activatedKeys s.direction s.buckets entry.pAtEvent,
      ∃ b, (s.recordLazy entry).buckets.get? k = some b := by
    intro k hk
    obtain ⟨b, hb, -⟩ := mem_activatedKeys.mp hk
    exact ⟨b, hb⟩
  have hsum : (s.recordLazy entry).owedOn (activatedKeys s.direction s.buckets entry.pAtEvent)
      = entry.allocatedSumObserved := by
    rw [he.allocated_eq]
    apply OrdMap.sum_congr
    intro tick b hb
    rw [recordLazy_owed h he hb, eventShare]
    split_ifs with hm
    · rw [h.owed_head (he.caughtUp tick hm b hb), Nat.zero_add]
    · rfl
  rw [settleAll_eq (recordLazy_inv h he) (activatedKeys_nodup _ _ _) hk, hsum]
  simp only [recordEager, recordLazy, DormantStore.mk.injEq, true_and, Nat.add_sub_cancel,
    and_true]
  apply OrdMap.adjust_congr
  intro tick b hm hb
  have hs := recordLazy_owed h he hb
  rw [h.owed_head (he.caughtUp tick hm b hb), eventShare, if_pos hm, Nat.zero_add] at hs
  simp only [recordLazy] at hs
  simp only [credited, replayed, hs]

theorem recordEager_upkeep (h : s.Inv) (he : s.Event entry) :
    (s.recordLazy entry).Upkeep (s.recordEager entry) := by
  rw [recordEager_eq h he]
  exact settleAll_upkeep (recordLazy_inv h he) _

end Record

def recordBy (mode : DistributeMode) (s : DormantStore) (entry : DistEntry) : DormantStore :=
  match mode with
  | .eager => s.recordEager entry
  | .lazy => s.recordLazy entry

theorem recordBy_upkeep {s : DormantStore} {entry : DistEntry} (mode : DistributeMode)
    (h : s.Inv) (he : s.Event entry) : (s.recordLazy entry).Upkeep (s.recordBy mode entry) := by
  cases mode with
  | eager => exact recordEager_upkeep h he
  | lazy => exact .refl (recordLazy_inv h he)

def entryOf (s : DormantStore) (p a t total : Nat) : DistEntry := ⟨s.nextEventIndex, p, t, a, total⟩

def eventBy (mode : DistributeMode) (p a t : Nat) (keys : List Int) :
    StoreM DistributionReceipt :=
  match mode with
  | .eager => attributeEvent p a t keys
  | .lazy => deferEvent p a t keys

theorem pushEntry_ok {s s' : DormantStore} {entry : DistEntry} {u : Unit}
    (h : pushEntry entry s = .ok u s') : entry.eventIndex + 1 < u64Size ∧
      s' = { s with ledger := s.ledger ++ [entry], nextEventIndex := entry.eventIndex + 1 } := by
  rw [pushEntry, get_bind, set_bind, orFail_bind_run_ok] at h
  obtain ⟨_, hn, h⟩ := h
  cases h
  exact ⟨ensure_ok.mp hn, rfl⟩

theorem pushEntry_of {s : DormantStore} {entry : DistEntry}
    (h : entry.eventIndex + 1 < u64Size) : pushEntry entry s = .ok ()
      { s with ledger := s.ledger ++ [entry], nextEventIndex := entry.eventIndex + 1 } := by
  simp [pushEntry, ensure_of h]

theorem eventBy_ok {mode : DistributeMode} {s s' : DormantStore} {p a t : Nat}
    {r : DistributionReceipt} (ht : t ≠ 0)
    (hc : ∀ k ∈ activatedKeys s.direction s.buckets p, s.CaughtUp k)
    (h : eventBy mode p a t (activatedKeys s.direction s.buckets p) s = .ok r s') :
    s.Event (s.entryOf p a t r.allocated) ∧ r.allocated ≤ a ∧ r.residual = a - r.allocated ∧
      s' = s.recordBy mode (s.entryOf p a t r.allocated) := by
  cases mode with
  | eager =>
    rw [eventBy, attributeEvent, get_bind, bind_ok] at h
    obtain ⟨total, s1, h1, h⟩ := h
    obtain ⟨hq, rfl⟩ := attributeShares_ok (activatedKeys_nodup _ _ _) h1
    rw [get_bind, orFail_bind_run_ok] at h
    obtain ⟨sum, hs, h⟩ := h
    obtain ⟨-, rfl⟩ := math_add_ok.mp hs
    rw [set_bind, orFail_bind_run_ok] at h
    obtain ⟨res, hr, h⟩ := h
    obtain ⟨hle, rfl⟩ := math_sub_ok.mp hr
    rw [bind_ok] at h
    obtain ⟨_, s2, hp, h⟩ := h
    obtain ⟨hn, rfl⟩ := pushEntry_ok hp
    cases h
    exact ⟨⟨rfl, hn, hc, ht, hq⟩, hle, rfl, rfl⟩
  | lazy =>
    rw [eventBy, deferEvent, get_bind, orFail_bind_run_ok] at h
    obtain ⟨total, hq, h⟩ := h
    rw [orFail_bind_run_ok] at h
    obtain ⟨res, hr, h⟩ := h
    obtain ⟨hle, rfl⟩ := math_sub_ok.mp hr
    rw [bind_ok] at h
    obtain ⟨_, s2, hp, h⟩ := h
    obtain ⟨hn, rfl⟩ := pushEntry_ok hp
    rw [get_bind, orFail_bind_run_ok] at h
    obtain ⟨pend, hs, h⟩ := h
    obtain ⟨-, rfl⟩ := math_add_ok.mp hs
    cases h
    exact ⟨⟨rfl, hn, hc, ht, hq⟩, hle, rfl, rfl⟩

/-- A tail returns when the funds and the event index have room for the event. -/
theorem eventBy_of {s : DormantStore} {p a t total : Nat} (mode : DistributeMode) (h : s.Inv)
    (he : s.Event (s.entryOf p a t total)) (hle : total ≤ a)
    (hf : s.accruedValueTotal + s.pendingDistributionTotal + total < u128Size) :
    eventBy mode p a t (activatedKeys s.direction s.buckets p) s
      = .ok ⟨total, a - total⟩ (s.recordBy mode (s.entryOf p a t total)) := by
  have hn := he.next_lt
  have hq := he.quoted
  cases mode with
  | eager =>
    have hfit : ∀ k ∈ activatedKeys s.direction s.buckets p, ∀ b, s.buckets.get? k = some b →
        b.accruedValue + shareOf p a t b < u128Size := by
      intro k hk b hb
      have hacc := h.accrued_le hb
      have hsh := OrdMap.le_sum (s.eventShare (s.entryOf p a t total)) hb
      rw [← he.allocated_eq, eventShare] at hsh
      simp only [entryOf, hk, if_true] at hsh
      omega
    have hat := attributeShares_of (activatedKeys_nodup _ _ _) hq hn hfit
    simp only [entryOf] at hat hn
    have hadd : s.accruedValueTotal + total < u128Size := by omega
    simp only [eventBy, attributeEvent, get_bind]
    rw [bind_of_ok hat]
    simp only [get_bind, math_add_of hadd, math_sub_of hle, orFail_ok_bind, set_bind]
    rw [bind_of_ok (pushEntry_of hn)]
    rfl
  | lazy =>
    have hadd : s.pendingDistributionTotal + total < u128Size := by omega
    simp only [entryOf] at hq hn
    simp only [eventBy, deferEvent, get_bind, hq, math_sub_of hle, orFail_ok_bind]
    rw [bind_of_ok (pushEntry_of hn)]
    simp only [get_bind, math_add_of hadd, orFail_ok_bind, set_bind]
    rfl

def Fits (s : DormantStore) (p a : Nat) : Prop :=
  ∀ t, sumOutstanding s.view p 0 (activatedKeys s.direction s.view p) = .ok t → t ≠ 0 →
    ∃ total, quoteShares s.view p a t 0 (activatedKeys s.direction s.view p) = .ok total ∧
      total ≤ a ∧ s.accruedValueTotal + s.pendingDistributionTotal + total < u128Size ∧
      s.nextEventIndex + 1 < u64Size

structure Recorded (s s1 : DormantStore) (p a t total : Nat) : Prop where
  upkeep : s.Upkeep s1
  event : s1.Event (s1.entryOf p a t total)
  outstanding : sumOutstanding s.view p 0 (activatedKeys s.direction s.view p) = .ok t
  quoted : quoteShares s.view p a t 0 (activatedKeys s.direction s.view p) = .ok total
  le : total ≤ a

/-- Everything one distribution can do, in either mode. -/
inductive Distributed (mode : DistributeMode) (s : DormantStore) (p a : Nat) :
    EStateM.Result ClearingError DormantStore DistributionReceipt → Prop where
  | idle (s' : DormantStore) (hu : s.Upkeep s')
      (h0 : a = 0 ∨ sumOutstanding s.view p 0 (activatedKeys s.direction s.view p) = .ok 0) :
      Distributed mode s p a (.ok ⟨0, a⟩ s')
  | recorded (s1 : DormantStore) (t total : Nat) (ha : a ≠ 0) (ht : t ≠ 0)
      (h : s.Recorded s1 p a t total) :
      Distributed mode s p a (.ok ⟨total, a - total⟩ (s1.recordBy mode (s1.entryOf p a t total)))
  | full (s' : DormantStore) (ha : a ≠ 0) (hu : s.Upkeep s') :
      Distributed mode s p a (.error .ledgerCapacityExceeded s')
  | claims (e : ClearingError) (s' : DormantStore) (ha : a ≠ 0) (hu : s.Upkeep s')
      (he : sumOutstanding s.view p 0 (activatedKeys s.direction s.view p) = .error e) :
      Distributed mode s p a (.error e s')
  | tooMuch (e : ClearingError) (s' : DormantStore) (hb : ¬ s.Bounded ∨ ¬ s.Fits p a) :
      Distributed mode s p a (.error e s')

theorem Upkeep.caughtUp_view {s s' : DormantStore} (h : s.Upkeep s') {p : Nat}
    (hc : ∀ k ∈ activatedKeys s.direction s.view p, s'.CaughtUp k) :
    ∀ k ∈ activatedKeys s'.direction s'.buckets p, s'.CaughtUp k := by
  rw [h.activatedKeys_eq, ← activatedKeys_view]
  exact hc

theorem eventBy_distributed (mode : DistributeMode) {s s1 : DormantStore} {p a t : Nat}
    (ha : a ≠ 0) (hu : s.Upkeep s1)
    (hc : ∀ k ∈ activatedKeys s.direction s.view p, s1.CaughtUp k)
    (hs : sumOutstanding s.view p 0 (activatedKeys s.direction s.view p) = .ok t) (ht : t ≠ 0) :
    Distributed mode s p a (eventBy mode p a t (activatedKeys s.direction s.view p) s1) := by
  have hk : activatedKeys s1.direction s1.buckets p = activatedKeys s.direction s.view p := by
    rw [hu.activatedKeys_eq, activatedKeys_view]
  have hc1 := hu.caughtUp_view hc
  have hq := fun acc => quoteShares_view (CaughtUp.all_settled hu.inv hc1) p a t acc
  simp only [hk, hu.view_eq] at hq
  rw [← hk]
  cases hr : eventBy mode p a t (activatedKeys s1.direction s1.buckets p) s1 with
  | ok r s' =>
    obtain ⟨he, hle, hres, rfl⟩ := eventBy_ok ht hc1 hr
    have hr' : r = ⟨r.allocated, a - r.allocated⟩ := by rw [← hres]
    have hqr := he.quoted
    simp only [entryOf, hk, hq] at hqr
    have hd : Distributed mode s p a _ :=
      .recorded s1 t r.allocated ha ht ⟨hu, he, hs, hqr, hle⟩
    rwa [← hr'] at hd
  | error e s' =>
    refine .tooMuch e s' (.inr (fun hf => ?_))
    obtain ⟨total, hqt, hle, hfit, hn⟩ := hf t hs ht
    have he : s1.Event (s1.entryOf p a t total) := by
      refine ⟨rfl, by rw [hu.next_eq]; exact hn, hc1, ht, ?_⟩
      simp only [entryOf, hk, hq]
      exact hqt
    have := eventBy_of mode hu.inv he hle (by rw [hu.funds_eq]; exact hfit)
    rw [hr] at this
    cases this

theorem distribute_cases {s : DormantStore} (h : s.Inv) (p a maxLedgerSize : Nat) :
    Distributed .eager s p a (distribute p a maxLedgerSize s) := by
  unfold distribute
  by_cases ha : a = 0
  · rw [if_pos ha, ha]
    exact .idle s (.refl h) (.inl rfl)
  rw [if_neg ha, get_bind, ← activatedKeys_view]
  obtain ⟨s0, hu0, hr | hr⟩ := reserveEntry_cases h maxLedgerSize
  · rw [bind_of_ok hr]
    rcases drainBuckets_cases hu0.inv (activatedKeys s.direction s.view p) with
      ⟨s1, hd, hu1, hc⟩ | ⟨⟨s1, hd⟩, hb⟩
    · have hu := hu0.trans hu1
      have hs := sumOutstanding_view (CaughtUp.all_settled hu.inv hc) p 0
      rw [hu.view_eq] at hs
      rw [bind_of_ok hd, get_bind, hs]
      cases ht : sumOutstanding s.view p 0 (activatedKeys s.direction s.view p) with
      | error e => exact .claims e s1 ha hu ht
      | ok t =>
        rw [orFail_ok_bind]
        by_cases h0 : t = 0
        · rw [if_pos h0]
          exact .idle s1 hu (.inr (h0 ▸ ht))
        · rw [if_neg h0]
          exact eventBy_distributed .eager ha hu hc ht h0
    · rw [bind_of_error hd]
      exact .tooMuch _ s1 (.inl (fun hs => hb (hu0.bounded.mpr hs)))
  · rw [bind_of_error hr]
    exact .full s0 ha hu0

theorem distributeLazy_cases {s : DormantStore} (h : s.Inv) (p a maxLedgerSize : Nat) :
    Distributed .lazy s p a (distributeLazy p a maxLedgerSize s) := by
  unfold distributeLazy
  by_cases ha : a = 0
  · rw [if_pos ha, ha]
    exact .idle s (.refl h) (.inl rfl)
  rw [if_neg ha]
  obtain ⟨s0, hu0, hr | hr⟩ := reserveEntry_cases h maxLedgerSize
  · rw [bind_of_ok hr, get_bind, hu0.activatedKeys_eq, ← activatedKeys_view]
    have hd := drainAndSum_cases hu0.inv p 0 (activatedKeys s.direction s.view p)
    rw [hu0.view_eq] at hd
    rcases hd with ⟨t, s1, hd, hu1, hc, ht⟩ | ⟨e, s1, hd, hu1, he⟩ | ⟨⟨s1, hd⟩, hb⟩
    · have hu := hu0.trans hu1
      rw [bind_of_ok hd]
      by_cases h0 : t = 0
      · rw [if_pos h0]
        exact .idle s1 hu (.inr (h0 ▸ ht))
      · rw [if_neg h0]
        exact eventBy_distributed .lazy ha hu hc ht h0
    · rw [bind_of_error hd]
      exact .claims e s1 ha (hu0.trans hu1) he
    · rw [bind_of_error hd]
      exact .tooMuch _ s1 (.inl (fun hs => hb (hu0.bounded.mpr hs)))
  · rw [bind_of_error hr]
    exact .full s0 ha hu0

theorem distributeBy_cases {s : DormantStore} (h : s.Inv) (mode : DistributeMode)
    (p a maxLedgerSize : Nat) :
    Distributed mode s p a (distributeBy mode p a maxLedgerSize s) := by
  cases mode with
  | eager => exact distribute_cases h p a maxLedgerSize
  | lazy => exact distributeLazy_cases h p a maxLedgerSize

end DormantStore
end MoleFinance
