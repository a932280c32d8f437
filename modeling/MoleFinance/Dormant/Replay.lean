import MoleFinance.Dormant.Store

/-! Replay of the distribution ledger. A bucket is brought up to the head before
any price that activates it is recorded, so at most the first entry of the trail
it has not applied can still owe it a share. -/
namespace MoleFinance
open MoleMath Call

def Indexed : Nat → List DistEntry → Prop
  | _, [] => True
  | start, entry :: entries => entry.eventIndex = start ∧ Indexed (start + 1) entries

theorem Indexed.drop {start : Nat} {entries : List DistEntry} (h : Indexed start entries)
    (k : Nat) (hk : k ≤ entries.length) : Indexed (start + k) (entries.drop k) := by
  induction k generalizing start entries with
  | zero => exact h
  | succ k ih =>
    cases entries with
    | nil => simp at hk
    | cons e es =>
      have := ih h.2 (by simpa using hk)
      rwa [Nat.add_right_comm] at this

theorem Indexed.append {start : Nat} {entries : List DistEntry} (h : Indexed start entries)
    {entry : DistEntry} (he : entry.eventIndex = start + entries.length) :
    Indexed start (entries ++ [entry]) := by
  induction entries generalizing start with
  | nil => exact ⟨by simpa using he, trivial⟩
  | cons e es ih =>
    refine ⟨h.1, ih h.2 ?_⟩
    simp only [List.length_cons] at he
    omega

theorem Indexed.mem {start : Nat} {entries : List DistEntry} (h : Indexed start entries)
    {entry : DistEntry} (he : entry ∈ entries) :
    start ≤ entry.eventIndex ∧ entry ∈ entries.drop (entry.eventIndex - start) := by
  induction entries generalizing start with
  | nil => simp at he
  | cons e es ih =>
    obtain ⟨h0, hes⟩ := h
    rcases List.mem_cons.mp he with rfl | he
    · exact ⟨h0.ge, by simp [h0]⟩
    · obtain ⟨hle, hm⟩ := ih hes he
      refine ⟨by omega, ?_⟩
      have hs : entry.eventIndex - start = entry.eventIndex - (start + 1) + 1 := by omega
      rw [hs, List.drop_succ_cons]
      exact hm

theorem Indexed.exists_mem {start i : Nat} {entries : List DistEntry} (h : Indexed start entries)
    (hlo : start ≤ i) (hhi : i < start + entries.length) : ∃ e ∈ entries, e.eventIndex = i := by
  induction entries generalizing start with
  | nil => simp at hhi; omega
  | cons e es ih =>
    obtain ⟨he, hes⟩ := h
    by_cases hi : i = start
    · exact ⟨e, List.mem_cons_self, he.trans hi.symm⟩
    · simp only [List.length_cons] at hhi
      obtain ⟨x, hx, hxi⟩ := ih hes (by omega) (by omega)
      exact ⟨x, List.mem_cons_of_mem e hx, hxi⟩

def valueOr0 : Except ClearingError Nat → Nat
  | .ok a => a
  | .error _ => 0

@[simp] theorem valueOr0_ok (a : Nat) : valueOr0 (.ok a) = a := rfl

def headShare (direction : Direction) (bucket : DormantBucket) : List DistEntry → Nat
  | [] => 0
  | entry :: _ => valueOr0 (replayShare direction bucket bucket.accruedValue entry)

/-- Past its first entry, the trail was written at prices that leave the bucket alone. -/
def Quiet (direction : Direction) (bucket : DormantBucket) : List DistEntry → Prop
  | [] => True
  | entry :: entries =>
    (∃ share, replayShare direction bucket bucket.accruedValue entry = .ok share) ∧
    ∀ e ∈ entries, activated direction e.pAtEvent bucket.anchorPrice = false

theorem replayShare_inactive {direction : Direction} {bucket : DormantBucket} {entry : DistEntry}
    (h : activated direction entry.pAtEvent bucket.anchorPrice = false) (accrued : Nat) :
    replayShare direction bucket accrued entry = .ok 0 := by
  simp [replayShare, h, pure, Except.pure]

theorem Quiet.append {direction : Direction} {bucket : DormantBucket} {entries : List DistEntry}
    {entry : DistEntry} (h : Quiet direction bucket entries)
    (he : activated direction entry.pAtEvent bucket.anchorPrice = false) :
    Quiet direction bucket (entries ++ [entry]) := by
  cases entries with
  | nil => exact ⟨⟨0, replayShare_inactive he _⟩, by simp⟩
  | cons e es =>
    refine ⟨h.1, fun x hx => ?_⟩
    rcases List.mem_append.mp hx with hx | hx
    · exact h.2 x hx
    · rwa [List.mem_singleton.mp hx]

theorem headShare_append {direction : Direction} {bucket : DormantBucket}
    {entries : List DistEntry} {entry : DistEntry}
    (he : activated direction entry.pAtEvent bucket.anchorPrice = false) :
    headShare direction bucket (entries ++ [entry]) = headShare direction bucket entries := by
  cases entries with
  | nil => simp [headShare, replayShare_inactive he]
  | cons e es => rfl

theorem addShare_of {a b : Nat} (h : b = 0 ∨ a + b < u128Size) :
    addShare a b = .ok (a + b) := by
  unfold addShare
  split_ifs with h0
  · simp [h0]
  · exact math_add_of (h.resolve_left h0)

theorem addShare_ok {a b c : Nat} (h : addShare a b = .ok c) : c = a + b := by
  unfold addShare at h
  split_ifs at h with h0
  · injection h with h
    omega
  · exact (math_add_ok.mp h).2

theorem nextIndex_of {i : Nat} (h : i + 1 < u64Size) : nextIndex i = .ok (i + 1) := if_pos h

theorem replayEntry_run {direction : Direction} {bucket : DormantBucket} {entry : DistEntry}
    {share : Nat} (delta : Nat)
    (hs : replayShare direction bucket bucket.accruedValue entry = .ok share)
    (ha : share = 0 ∨ bucket.accruedValue + share < u128Size)
    (hd : share = 0 ∨ delta + share < u128Size)
    (hi : entry.eventIndex + 1 < u64Size) :
    replayEntry direction delta entry bucket = .ok (delta + share)
      { bucket with
        accruedValue := bucket.accruedValue + share
        lastAppliedIndex := entry.eventIndex + 1 } := by
  simp [replayEntry, hs, addShare_of ha, addShare_of hd, nextIndex_of hi]

theorem replayEntries_inactive {direction : Direction} {bucket : DormantBucket}
    {entries : List DistEntry} {delta : Nat}
    (hi : Indexed bucket.lastAppliedIndex entries)
    (hl : bucket.lastAppliedIndex + entries.length < u64Size)
    (hq : ∀ e ∈ entries, activated direction e.pAtEvent bucket.anchorPrice = false) :
    replayEntries direction delta entries bucket = .ok delta
      { bucket with lastAppliedIndex := bucket.lastAppliedIndex + entries.length } := by
  induction entries generalizing bucket with
  | nil => simp [replayEntries]
  | cons e es ih =>
    obtain ⟨he, hes⟩ := hi
    simp only [List.length_cons] at hl ⊢
    have hs := replayShare_inactive (hq e List.mem_cons_self) bucket.accruedValue
    have hr : replayEntry direction delta e bucket = .ok delta
        { bucket with lastAppliedIndex := bucket.lastAppliedIndex + 1 } := by
      have := replayEntry_run delta hs (.inl rfl) (.inl rfl) (by omega)
      simpa [he] using this
    rw [replayEntries, bind_of_ok hr]
    generalize hb : { bucket with lastAppliedIndex := bucket.lastAppliedIndex + 1 } = b
    have hbi : b.lastAppliedIndex = bucket.lastAppliedIndex + 1 := by rw [← hb]
    have hba : b.anchorPrice = bucket.anchorPrice := by rw [← hb]
    rw [← hbi] at hes
    have := ih hes (by omega) (fun x hx => hba ▸ hq x (List.mem_cons_of_mem e hx))
    rw [this, ← hb]
    simp only [Nat.add_assoc, Nat.add_comm 1]

theorem distributionShare_le {a o t share : Nat} (h : distributionShare a o t = .ok share) :
    share ≤ o := by
  unfold distributionShare at h
  split_ifs at h with h0
  · cases h
    exact Nat.zero_le o
  · obtain ⟨q, -, h⟩ := except_bind_ok.mp h
    cases h
    exact Nat.min_le_right _ _

theorem computeIntrinsic_lt {direction : Direction} {bucket : DormantBucket} {p i : Nat}
    (h : computeIntrinsic direction bucket p = .ok i) : i < u128Size := by
  have hpos : 0 < u128Size := by norm_num [u128Size]
  unfold computeIntrinsic at h
  cases direction <;> simp only at h <;> split_ifs at h <;>
    first
    | exact mulDivFloor_lt (math_ok.mp h)
    | exact Except.ok.inj h ▸ hpos

/-- A share is capped by the claim, so it never carries a bucket past the word. -/
theorem replayShare_fits {direction : Direction} {bucket : DormantBucket} {accrued share : Nat}
    {entry : DistEntry} (h : replayShare direction bucket accrued entry = .ok share) :
    share = 0 ∨ accrued + share < u128Size := by
  unfold replayShare at h
  split_ifs at h with h0 h1
  · cases h
    exact .inl rfl
  · obtain ⟨i, hi, hs⟩ := except_bind_ok.mp h
    have := computeIntrinsic_lt hi
    have := distributionShare_le hs
    omega
  · cases h
    exact .inl rfl

theorem Quiet.fits {direction : Direction} {bucket : DormantBucket} {entries : List DistEntry}
    (hq : Quiet direction bucket entries) : headShare direction bucket entries = 0 ∨
      bucket.accruedValue + headShare direction bucket entries < u128Size := by
  cases entries with
  | nil => exact .inl rfl
  | cons e es =>
    obtain ⟨⟨share, hs⟩, -⟩ := hq
    simp only [headShare, hs, valueOr0_ok]
    exact replayShare_fits hs

theorem replayEntries_quiet {direction : Direction} {bucket : DormantBucket}
    {entries : List DistEntry} (hi : Indexed bucket.lastAppliedIndex entries)
    (hl : bucket.lastAppliedIndex + entries.length < u64Size)
    (hq : Quiet direction bucket entries) :
    replayEntries direction 0 entries bucket = .ok (headShare direction bucket entries)
      { bucket with
        accruedValue := bucket.accruedValue + headShare direction bucket entries
        lastAppliedIndex := bucket.lastAppliedIndex + entries.length } := by
  have ha := hq.fits
  cases entries with
  | nil => simp [replayEntries, headShare]
  | cons e es =>
    obtain ⟨⟨share, hs⟩, hq⟩ := hq
    obtain ⟨he, hes⟩ := hi
    simp only [headShare, hs, valueOr0_ok, List.length_cons] at ha hl ⊢
    have hd : share = 0 ∨ 0 + share < u128Size := by omega
    rw [replayEntries, bind_of_ok (replayEntry_run 0 hs ha hd (by omega)), he]
    generalize hb : { bucket with
      accruedValue := bucket.accruedValue + share
      lastAppliedIndex := bucket.lastAppliedIndex + 1 } = b
    have hbi : b.lastAppliedIndex = bucket.lastAppliedIndex + 1 := by rw [← hb]
    have hba : b.anchorPrice = bucket.anchorPrice := by rw [← hb]
    rw [← hbi] at hes
    rw [← hba] at hq
    rw [replayEntries_inactive hes (by omega) hq, ← hb]
    simp only [Nat.add_assoc, Nat.add_comm 1, Nat.zero_add]

namespace DormantStore

/-- Ledger entries the bucket has not applied yet. -/
def suffix (s : DormantStore) (bucket : DormantBucket) : List DistEntry :=
  s.ledger.drop (bucket.lastAppliedIndex - s.ledgerGcOffset)

/-- What those entries still owe the bucket. -/
def owed (s : DormantStore) (bucket : DormantBucket) : Nat :=
  headShare s.direction bucket (s.suffix bucket)

def windowAlloc (ledger : List DistEntry) : Nat :=
  (ledger.map (·.allocatedSumObserved)).sum

structure BucketOk (s : DormantStore) (tick : Int) (bucket : DormantBucket) : Prop where
  direction_eq : bucket.direction = s.direction
  tick_eq : bucket.zeroPriceTick = tick
  gc_le : s.ledgerGcOffset ≤ bucket.lastAppliedIndex
  le_next : bucket.lastAppliedIndex ≤ s.nextEventIndex
  quiet : Quiet s.direction bucket (s.suffix bucket)

/-- Invariant of a store. `covered` is the history bound: what the ledger still owes to
    buckets that have applied everything before entry `k` fits the entries from `k` on. -/
structure Inv (s : DormantStore) : Prop where
  window : s.ledgerGcOffset + s.ledger.length = s.nextEventIndex
  next_lt : s.nextEventIndex < u64Size
  indexed : Indexed s.ledgerGcOffset s.ledger
  bucketOk : ∀ tick bucket, s.buckets.get? tick = some bucket → s.BucketOk tick bucket
  accrued_eq : s.accruedValueTotal = s.buckets.sum (fun _ b => b.accruedValue)
  pending_eq : s.pendingDistributionTotal = s.buckets.sum (fun _ b => s.owed b)
  covered : ∀ k, s.buckets.sum
    (fun _ b => if s.ledgerGcOffset + k ≤ b.lastAppliedIndex then s.owed b else 0)
      ≤ windowAlloc (s.ledger.drop k)

theorem new_inv (direction : Direction) : (new direction).Inv where
  window := rfl
  next_lt := by simp [new, u64Size]
  indexed := trivial
  bucketOk := by simp [new]
  accrued_eq := rfl
  pending_eq := rfl
  covered := by simp [new]

def Bounded (s : DormantStore) : Prop :=
  s.accruedValueTotal + s.pendingDistributionTotal < u128Size

def replayed (s : DormantStore) (bucket : DormantBucket) : DormantBucket :=
  { bucket with
    accruedValue := bucket.accruedValue + s.owed bucket
    lastAppliedIndex := s.nextEventIndex }

def settle (s : DormantStore) (tick : Int) : DormantStore :=
  match s.buckets.get? tick with
  | none => s
  | some bucket => { s with
      buckets := s.buckets.insert tick (s.replayed bucket)
      accruedValueTotal := s.accruedValueTotal + s.owed bucket
      pendingDistributionTotal := s.pendingDistributionTotal - s.owed bucket }

theorem Inv.suffix_indexed {s : DormantStore} (h : s.Inv) {tick : Int} {bucket : DormantBucket}
    (hb : s.BucketOk tick bucket) : Indexed bucket.lastAppliedIndex (s.suffix bucket) := by
  have hw := h.window
  have hg := hb.gc_le
  have hn := hb.le_next
  have := h.indexed.drop (bucket.lastAppliedIndex - s.ledgerGcOffset) (by omega)
  rwa [Nat.add_sub_cancel' hg] at this

theorem Inv.suffix_length {s : DormantStore} (h : s.Inv) {tick : Int} {bucket : DormantBucket}
    (hb : s.BucketOk tick bucket) :
    bucket.lastAppliedIndex + (s.suffix bucket).length = s.nextEventIndex := by
  have hw := h.window
  have hg := hb.gc_le
  have hn := hb.le_next
  simp only [suffix, List.length_drop]
  omega

theorem Inv.suffix_head {s : DormantStore} (h : s.Inv) {bucket : DormantBucket}
    (hn : bucket.lastAppliedIndex = s.nextEventIndex) : s.suffix bucket = [] := by
  have hw := h.window
  exact List.drop_eq_nil_of_le (by omega)

theorem Inv.owed_head {s : DormantStore} (h : s.Inv) {bucket : DormantBucket}
    (hn : bucket.lastAppliedIndex = s.nextEventIndex) : s.owed bucket = 0 := by
  simp [owed, h.suffix_head hn, headShare]

theorem Inv.replayed_head {s : DormantStore} (h : s.Inv) {bucket : DormantBucket}
    (hn : bucket.lastAppliedIndex = s.nextEventIndex) : s.replayed bucket = bucket := by
  simp [replayed, h.owed_head hn, ← hn]

theorem Inv.owed_le {s : DormantStore} (h : s.Inv) {tick : Int} {bucket : DormantBucket}
    (hb : s.buckets.get? tick = some bucket) : s.owed bucket ≤ s.pendingDistributionTotal := by
  rw [h.pending_eq]
  exact OrdMap.le_sum (fun _ b => s.owed b) hb

theorem Inv.accrued_le {s : DormantStore} (h : s.Inv) {tick : Int} {bucket : DormantBucket}
    (hb : s.buckets.get? tick = some bucket) : bucket.accruedValue ≤ s.accruedValueTotal := by
  rw [h.accrued_eq]
  exact OrdMap.le_sum (fun _ b => b.accruedValue) hb

theorem Inv.replay_run {s : DormantStore} (h : s.Inv) {tick : Int} {bucket : DormantBucket}
    (hb : s.BucketOk tick bucket) :
    replayEntries s.direction 0 (s.suffix bucket) bucket
      = .ok (s.owed bucket) (s.replayed bucket) := by
  have hl := h.suffix_length hb
  have hn := h.next_lt
  have hr := replayEntries_quiet (h.suffix_indexed hb) (by omega) hb.quiet
  rw [hl] at hr
  exact hr

/-- Replaying a bucket settles it, unless the funds of the store exceed the word. -/
theorem applyPendingToBucket_cases {s : DormantStore} (h : s.Inv) (tick : Int) :
    (∃ n, applyPendingToBucket tick s = .ok n (s.settle tick)) ∨
    (∃ s', applyPendingToBucket tick s = .error .mathOverflow s') ∧ ¬ s.Bounded := by
  unfold applyPendingToBucket settle
  cases hg : s.buckets.get? tick with
  | none => exact .inl ⟨0, rfl⟩
  | some bucket =>
    have hb := h.bucketOk tick bucket hg
    have hw := h.window
    by_cases hn : s.nextEventIndex ≤ bucket.lastAppliedIndex
    · have he := le_antisymm hb.le_next hn
      simp only [hn, if_true, h.replayed_head he, h.owed_head he, OrdMap.insert_get?_self hg]
      exact .inl ⟨0, rfl⟩
    have hlen : ¬ s.ledger.length < bucket.lastAppliedIndex - s.ledgerGcOffset := by
      have := hb.le_next
      omega
    have hr := h.replay_run hb
    have hpen := h.owed_le hg
    unfold suffix at hr
    simp only [hn, if_false, not_lt.mpr hb.gc_le, hlen, hr]
    by_cases h0 : s.owed bucket = 0
    · exact .inl ⟨_, by simp [h0, setBucket]; rfl⟩
    rw [if_neg h0]
    by_cases ht : s.accruedValueTotal + s.owed bucket < u128Size
    · exact .inl ⟨_, by simp [setBucket, math_add_of ht]; rfl⟩
    · refine .inr ⟨⟨_, by simp [setBucket, math_add_not ht]; rfl⟩, ?_⟩
      unfold Bounded
      omega

/-- The buckets as their owners see them: every trail applied, indices forgotten. -/
def view (s : DormantStore) : BucketMap :=
  s.buckets.mapVal (fun _ b =>
    { b with accruedValue := b.accruedValue + s.owed b, lastAppliedIndex := 0 })

/-- What replay and compaction may do to a store: some trails are applied and a prefix of
    the ledger is dropped, but no owner sees a difference. -/
structure Upkeep (s s' : DormantStore) : Prop where
  inv : s'.Inv
  direction_eq : s'.direction = s.direction
  next_eq : s'.nextEventIndex = s.nextEventIndex
  dropped : ∃ k ≤ s.ledger.length,
    s'.ledger = s.ledger.drop k ∧ s'.ledgerGcOffset = s.ledgerGcOffset + k
  view_eq : s'.view = s.view
  funds_eq : s'.accruedValueTotal + s'.pendingDistributionTotal
    = s.accruedValueTotal + s.pendingDistributionTotal
  accrued_le : s.accruedValueTotal ≤ s'.accruedValueTotal
  bucket : ∀ tick b, s'.buckets.get? tick = some b →
    s.buckets.get? tick = some b ∨ b.lastAppliedIndex = s'.nextEventIndex

/-- The bucket at `tick`, if any, has applied the whole ledger. -/
def CaughtUp (s : DormantStore) (tick : Int) : Prop :=
  ∀ b, s.buckets.get? tick = some b → b.lastAppliedIndex = s.nextEventIndex

theorem Upkeep.refl {s : DormantStore} (h : s.Inv) : s.Upkeep s where
  inv := h
  direction_eq := rfl
  next_eq := rfl
  dropped := ⟨0, Nat.zero_le _, rfl, rfl⟩
  view_eq := rfl
  funds_eq := rfl
  accrued_le := le_rfl
  bucket := fun _ _ hb => .inl hb

theorem Upkeep.trans {s s' s'' : DormantStore} (h : s.Upkeep s') (h' : s'.Upkeep s'') :
    s.Upkeep s'' := by
  obtain ⟨k, hk, hl, hg⟩ := h.dropped
  obtain ⟨k', hk', hl', hg'⟩ := h'.dropped
  have hlen : s'.ledger.length = s.ledger.length - k := by rw [hl, List.length_drop]
  refine ⟨h'.inv, h'.direction_eq.trans h.direction_eq, h'.next_eq.trans h.next_eq,
    ⟨k + k', by omega, ?_, by omega⟩, h'.view_eq.trans h.view_eq, h'.funds_eq.trans h.funds_eq,
    h.accrued_le.trans h'.accrued_le, ?_⟩
  · rw [hl', hl, List.drop_drop]
  · intro tick b hb
    rcases h'.bucket tick b hb with hb' | hn
    · exact (h.bucket tick b hb').imp id (fun hn => hn.trans h'.next_eq.symm)
    · exact .inr hn

theorem Upkeep.caughtUp {s s' : DormantStore} (h : s.Upkeep s') {tick : Int}
    (hc : s.CaughtUp tick) : s'.CaughtUp tick := by
  intro b hb
  rcases h.bucket tick b hb with hb' | hn
  · rw [h.next_eq]
    exact hc b hb'
  · exact hn

theorem Upkeep.bounded {s s' : DormantStore} (h : s.Upkeep s') : s'.Bounded ↔ s.Bounded := by
  unfold Bounded
  rw [h.funds_eq]

theorem Upkeep.keys_eq {s s' : DormantStore} (h : s.Upkeep s') :
    s'.buckets.keys = s.buckets.keys := by
  have := congrArg OrdMap.keys h.view_eq
  simpa [view] using this

@[simp] theorem settle_direction (s : DormantStore) (tick : Int) :
    (s.settle tick).direction = s.direction := by
  unfold settle
  split <;> rfl

@[simp] theorem settle_ledger (s : DormantStore) (tick : Int) :
    (s.settle tick).ledger = s.ledger := by
  unfold settle
  split <;> rfl

@[simp] theorem settle_gc (s : DormantStore) (tick : Int) :
    (s.settle tick).ledgerGcOffset = s.ledgerGcOffset := by
  unfold settle
  split <;> rfl

@[simp] theorem settle_next (s : DormantStore) (tick : Int) :
    (s.settle tick).nextEventIndex = s.nextEventIndex := by
  unfold settle
  split <;> rfl

@[simp] theorem settle_suffix (s : DormantStore) (tick : Int) (bucket : DormantBucket) :
    (s.settle tick).suffix bucket = s.suffix bucket := by
  simp [suffix]

@[simp] theorem settle_owed (s : DormantStore) (tick : Int) (bucket : DormantBucket) :
    (s.settle tick).owed bucket = s.owed bucket := by
  simp [owed]

theorem settle_get? {s : DormantStore} (tick j : Int) :
    (s.settle tick).buckets.get? j =
      if j = tick then (s.buckets.get? tick).map s.replayed else s.buckets.get? j := by
  unfold settle
  cases h : s.buckets.get? tick with
  | none =>
    simp only [Option.map_none]
    split_ifs with hj
    · rw [hj, h]
    · rfl
  | some b => simp [OrdMap.get?_insert]

theorem Inv.owed_replayed {s : DormantStore} (h : s.Inv) (bucket : DormantBucket) :
    s.owed (s.replayed bucket) = 0 := h.owed_head rfl

theorem settle_inv {s : DormantStore} (h : s.Inv) (tick : Int) : (s.settle tick).Inv := by
  cases hg : s.buckets.get? tick with
  | none =>
    rw [show s.settle tick = s by simp [settle, hg]]
    exact h
  | some bucket =>
    have hb := h.bucketOk tick bucket hg
    have hs : (s.settle tick).buckets = s.buckets.insert tick (s.replayed bucket) := by
      simp [settle, hg]
    have h0 := h.owed_replayed bucket
    refine ⟨?_, ?_, ?_, ?_, ?_, ?_, ?_⟩
    · simpa using h.window
    · simpa using h.next_lt
    · simpa using h.indexed
    · intro j b hj
      rw [settle_get?] at hj
      split_ifs at hj with hjt
      · rw [hg] at hj
        obtain rfl : s.replayed bucket = b := by simpa using hj
        refine ⟨by simpa [replayed] using hb.direction_eq, hjt ▸ hb.tick_eq, ?_, ?_, ?_⟩
        · simpa [replayed] using hb.gc_le.trans hb.le_next
        · simp [replayed]
        · rw [settle_suffix, h.suffix_head rfl]
          trivial
      · have hb' := h.bucketOk j b hj
        exact ⟨by simpa using hb'.direction_eq, hb'.tick_eq, by simpa using hb'.gc_le,
          by simpa using hb'.le_next, by simpa using hb'.quiet⟩
    · have hsum := OrdMap.sum_insert_old (fun _ b => b.accruedValue) (s.replayed bucket) hg
      have ha := h.accrued_eq
      rw [hs]
      simp only [settle, hg]
      simp only [replayed] at hsum
      unfold replayed
      omega
    · have hsum := OrdMap.sum_insert_old (fun _ b => s.owed b) (s.replayed bucket) hg
      have hp := h.pending_eq
      simp only [settle_owed, hs]
      simp only [settle, hg]
      omega
    · intro k
      have hsum := OrdMap.sum_insert_old
        (fun _ b => if s.ledgerGcOffset + k ≤ b.lastAppliedIndex then s.owed b else 0)
        (s.replayed bucket) hg
      have hc := h.covered k
      simp only [h0, ite_self] at hsum
      simp only [settle_owed, settle_gc, settle_ledger, hs]
      omega

theorem settle_view {s : DormantStore} (h : s.Inv) (tick : Int) :
    (s.settle tick).view = s.view := by
  apply OrdMap.ext_get?
  intro j
  simp only [view, OrdMap.get?_mapVal, settle_get?, settle_owed]
  split_ifs with hj
  · subst hj
    cases hg : s.buckets.get? j with
    | none => rfl
    | some b => simp [h.owed_replayed b]; simp [replayed]
  · rfl

theorem settle_upkeep {s : DormantStore} (h : s.Inv) (tick : Int) :
    s.Upkeep (s.settle tick) := by
  refine ⟨settle_inv h tick, by simp, by simp, ⟨0, by simp, by simp, by simp⟩,
    settle_view h tick, ?_, ?_, ?_⟩
  · cases hg : s.buckets.get? tick with
    | none => simp [settle, hg]
    | some b =>
      have := h.owed_le hg
      simp only [settle, hg]
      omega
  · cases hg : s.buckets.get? tick with
    | none => simp [settle, hg]
    | some b => simp [settle, hg]
  · intro j b hb
    rw [settle_get?] at hb
    split_ifs at hb with hj
    · obtain ⟨b', -, rfl⟩ := Option.map_eq_some_iff.mp hb
      exact .inr (by simp [replayed])
    · exact .inl hb

theorem settle_caughtUp (s : DormantStore) (tick : Int) : (s.settle tick).CaughtUp tick := by
  intro b hb
  rw [settle_get?, if_pos rfl] at hb
  obtain ⟨b', -, rfl⟩ := Option.map_eq_some_iff.mp hb
  simp [replayed]

def settleAll (s : DormantStore) (ticks : List Int) : DormantStore := ticks.foldl settle s

theorem settleAll_upkeep {s : DormantStore} (h : s.Inv) (ticks : List Int) :
    s.Upkeep (s.settleAll ticks) := by
  induction ticks generalizing s with
  | nil => exact .refl h
  | cons tick ticks ih =>
    have hu := settle_upkeep h tick
    exact hu.trans (ih hu.inv)

def owedOn (s : DormantStore) (ticks : List Int) : Nat :=
  s.buckets.sum (fun tick b => if tick ∈ ticks then s.owed b else 0)

theorem settleAll_eq {s : DormantStore} (h : s.Inv) {ticks : List Int} (hn : ticks.Nodup)
    (hk : ∀ tick ∈ ticks, ∃ b, s.buckets.get? tick = some b) :
    s.settleAll ticks = { s with
      buckets := s.buckets.adjust ticks s.replayed
      accruedValueTotal := s.accruedValueTotal + s.owedOn ticks
      pendingDistributionTotal := s.pendingDistributionTotal - s.owedOn ticks } := by
  induction ticks generalizing s with
  | nil => simp [settleAll, owedOn, OrdMap.sum]
  | cons tick ticks ih =>
    obtain ⟨ht, hn⟩ := List.nodup_cons.mp hn
    obtain ⟨b, hb⟩ := hk tick List.mem_cons_self
    have hk' : ∀ t ∈ ticks, ∃ b, (s.settle tick).buckets.get? t = some b := by
      intro t hm
      have hne : t ≠ tick := fun he => ht (he ▸ hm)
      rw [settle_get?, if_neg hne]
      exact hk t (List.mem_cons_of_mem tick hm)
    have hs : (s.settle tick).buckets = s.buckets.insert tick (s.replayed b) := by
      simp [settle, hb]
    have hr : (s.settle tick).replayed = s.replayed := by
      funext b
      simp [replayed]
    have howed : (s.settle tick).owedOn ticks + s.owed b = s.owedOn (tick :: ticks) := by
      have hins := OrdMap.sum_insert_old (fun t b => if t ∈ ticks then s.owed b else 0)
        (s.replayed b) hb
      simp only [ht, if_false] at hins
      simp only [owedOn, settle_owed, hs, OrdMap.sum_adjust_cons (fun _ b => s.owed b) hb ht]
      omega
    have hsa : s.settleAll (tick :: ticks) = (s.settle tick).settleAll ticks := rfl
    rw [hsa, ih (settle_inv h tick) hn hk', hr, hs, OrdMap.adjust_cons _ hb ht, ← howed]
    simp only [settle, hb, DormantStore.mk.injEq, true_and]
    omega

theorem applyPendingToBucket_ok {s s' : DormantStore} {tick : Int} {n : Nat} (h : s.Inv)
    (hr : applyPendingToBucket tick s = .ok n s') : s' = s.settle tick := by
  rcases applyPendingToBucket_cases h tick with ⟨m, hm⟩ | ⟨⟨t, ht⟩, -⟩
  · rw [hm] at hr
    cases hr
    rfl
  · rw [ht] at hr
    cases hr

def dropPrefix (s : DormantStore) (k : Nat) : DormantStore :=
  { s with ledger := s.ledger.drop k, ledgerGcOffset := s.ledgerGcOffset + k }

theorem dropPrefix_suffix {s : DormantStore} {k : Nat} {bucket : DormantBucket}
    (h : s.ledgerGcOffset + k ≤ bucket.lastAppliedIndex) :
    (s.dropPrefix k).suffix bucket = s.suffix bucket := by
  simp only [suffix, dropPrefix, List.drop_drop]
  congr 1
  omega

theorem dropPrefix_upkeep {s : DormantStore} (h : s.Inv) {k : Nat} (hk : k ≤ s.ledger.length)
    (hl : ∀ tick b, s.buckets.get? tick = some b → s.ledgerGcOffset + k ≤ b.lastAppliedIndex) :
    s.Upkeep (s.dropPrefix k) := by
  have ho : ∀ tick b, s.buckets.get? tick = some b → (s.dropPrefix k).owed b = s.owed b := by
    intro tick b hb
    unfold owed
    rw [dropPrefix_suffix (hl tick b hb)]
    rfl
  refine ⟨⟨?_, h.next_lt, h.indexed.drop k hk, ?_, h.accrued_eq, ?_, ?_⟩, rfl, rfl,
    ⟨k, hk, rfl, rfl⟩, ?_, rfl, le_rfl, fun _ _ hb => .inl hb⟩
  · have := h.window
    simp only [dropPrefix, List.length_drop]
    omega
  · intro tick b hb
    have hok := h.bucketOk tick b hb
    refine ⟨hok.direction_eq, hok.tick_eq, hl tick b hb, hok.le_next, ?_⟩
    rw [dropPrefix_suffix (hl tick b hb)]
    exact hok.quiet
  · exact h.pending_eq.trans (OrdMap.sum_congr ho).symm
  · intro j
    have hc := h.covered (k + j)
    have hsum : (s.dropPrefix k).buckets.sum (fun _ b =>
        if (s.dropPrefix k).ledgerGcOffset + j ≤ b.lastAppliedIndex
          then (s.dropPrefix k).owed b else 0)
        = s.buckets.sum (fun _ b =>
          if s.ledgerGcOffset + (k + j) ≤ b.lastAppliedIndex then s.owed b else 0) := by
      apply OrdMap.sum_congr
      intro tick b hb
      simp only [ho tick b hb, ← Nat.add_assoc]
      rfl
    rw [hsum]
    simpa [dropPrefix, List.drop_drop] using hc
  · apply OrdMap.mapVal_congr
    intro tick b hb
    rw [ho tick b hb]

theorem compactLedger_run {s : DormantStore} (h : s.Inv) :
    ∃ n s', compactLedger s = .ok n s' ∧ s.Upkeep s' := by
  unfold compactLedger
  simp only
  generalize hw : (s.buckets.values.map (·.lastAppliedIndex)).min?.getD s.nextEventIndex
    = watermark
  have hle : ∀ tick b, s.buckets.get? tick = some b → watermark ≤ b.lastAppliedIndex := by
    intro tick b hb
    have hm : b.lastAppliedIndex ∈ s.buckets.values.map (·.lastAppliedIndex) := by
      refine List.mem_map_of_mem ?_
      exact List.mem_map.mpr ⟨(tick, b), OrdMap.get?_eq_some.mp hb, rfl⟩
    cases hmin : (s.buckets.values.map (·.lastAppliedIndex)).min? with
    | none => simp [List.min?_eq_none_iff.mp hmin] at hm
    | some m =>
      rw [← hw, hmin]
      exact (List.min?_eq_some_iff.mp hmin).2 _ hm
  split_ifs with hg
  · exact ⟨0, s, rfl, .refl h⟩
  · refine ⟨_, _, rfl, dropPrefix_upkeep h (Nat.min_le_right _ _) ?_⟩
    intro tick b hb
    have := hle tick b hb
    omega

end DormantStore
end MoleFinance
