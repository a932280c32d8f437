import MoleFinance.Indexer.Replay
import MoleFinance.Lib.Local

/-! What one event of a sub-pool can touch in the indexer. -/
namespace MoleFinance
open MoleMath Call Trace

namespace IndexerState

def only (sp : Nat) (x : IndexerState) : IndexerState where
  positions := x.positions.filter (fun _ pos => pos.subPoolId = sp)
  buckets := x.buckets.filter (fun key _ => key.subPoolId = sp)
  subPools := x.subPools.filter (fun id _ => id = sp)

def owner (x : IndexerState) (id : Nat) : Option Nat := (x.positions.get? id).map (·.subPoolId)

def Owns (sp : Nat) (x : IndexerState) (id : Nat) : Prop :=
  ∀ pos, x.positions.get? id = some pos → pos.subPoolId = sp

variable {x : IndexerState} {sp id : Nat}

theorem owner_of_get? {pos : PositionView} (h : x.positions.get? id = some pos) :
    x.owner id = some pos.subPoolId := by
  rw [owner, h]
  rfl

theorem owns_iff : Owns sp x id ↔ ∀ s, x.owner id = some s → s = sp := by
  constructor
  · intro h s hs
    obtain ⟨pos, hpos, rfl⟩ := Option.map_eq_some_iff.mp hs
    exact h pos hpos
  · intro h pos hpos
    exact h _ (owner_of_get? hpos)

theorem Owns.of_owner_eq {y : IndexerState} (h : Owns sp x id) (ho : y.owner = x.owner) :
    Owns sp y id := by
  rw [owns_iff, ho]
  exact owns_iff.mp h

theorem get?_subPools_only : (x.only sp).subPools.get? sp = x.subPools.get? sp := by
  simp only [only, OrdMap.get?_filter]
  cases x.subPools.get? sp <;> simp [Option.filter_some]

theorem get?_buckets_only {key : BucketKey} (h : key.subPoolId = sp) :
    (x.only sp).buckets.get? key = x.buckets.get? key := by
  simp only [only, OrdMap.get?_filter]
  cases x.buckets.get? key <;> simp [Option.filter_some, h]

theorem Owns.get?_only (h : Owns sp x id) :
    (x.only sp).positions.get? id = x.positions.get? id := by
  simp only [only, OrdMap.get?_filter]
  cases hp : x.positions.get? id with
  | none => rfl
  | some pos => simp [Option.filter_some, h pos hp]

theorem only_positions_entries {selects : PositionView → Bool}
    (h : ∀ pos, selects pos = true → pos.subPoolId = sp) :
    (x.only sp).positions.entries.filter (fun e => selects e.2)
      = x.positions.entries.filter (fun e => selects e.2) := by
  simp only [only, OrdMap.filter, List.filter_filter]
  apply List.filter_congr
  intro e _
  cases hs : selects e.2 with
  | false => rfl
  | true => simp [h _ hs]

theorem only_buckets_entries {selects : BucketKey → Bool}
    (h : ∀ key, selects key = true → key.subPoolId = sp) :
    (x.only sp).buckets.entries.filter (fun e => selects e.1)
      = x.buckets.entries.filter (fun e => selects e.1) := by
  simp only [only, OrdMap.filter, List.filter_filter]
  apply List.filter_congr
  intro e _
  cases hs : selects e.1 with
  | false => rfl
  | true => simp [h _ hs]

end IndexerState

namespace Indexer
open IndexerState
variable {x : IndexerState} {sp id : Nat}

abbrev Within {α : Type} (sp : Nat) (m : IndexM α) (x : IndexerState) : Prop :=
  Local IndexerState.only sp m x

theorem putSubPool_within (view : SubPoolView) : Within sp (putSubPool sp view) x := by
  refine ⟨⟨rfl, ?_⟩, fun j hj => ?_⟩
  · simp only [only, IndexerState.mk.injEq, true_and]
    exact OrdMap.filter_insert (by simp)
  · simp only [only, final, putSubPool, IndexerState.mk.injEq, true_and]
    exact OrdMap.filter_insert_other (by simp [hj.symm]) (by simp [hj.symm])

theorem subPoolMut_within : Within sp (subPoolMut sp) x := by
  have hget : (x.only sp).subPools.get? sp = x.subPools.get? sp := get?_subPools_only
  cases h : x.subPools.get? sp with
  | some view =>
    have h1 : subPoolMut sp x = .ok view x := by rw [subPoolMut, h]
    have h2 : subPoolMut sp (x.only sp) = .ok view (x.only sp) := by rw [subPoolMut, hget, h]
    refine ⟨?_, fun j hj => ?_⟩
    · rw [h1, h2]
      exact ⟨rfl, rfl⟩
    · rw [h1]
      rfl
  | none =>
    have hw : Within sp (putSubPool sp .default) x := putSubPool_within .default
    have h1 : subPoolMut sp x = .ok .default { x with
        subPools := x.subPools.insert sp .default } := by rw [subPoolMut, h]
    have h2 : subPoolMut sp (x.only sp) = .ok .default { x.only sp with
        subPools := (x.only sp).subPools.insert sp .default } := by rw [subPoolMut, hget, h]
    refine ⟨?_, fun j hj => ?_⟩
    · rw [h1, h2]
      exact ⟨rfl, hw.same.2⟩
    · rw [h1]
      exact hw.frame j hj

theorem putBucket_within {key : BucketKey} (hk : key.subPoolId = sp) (bucket : BucketView) :
    Within sp (putBucket key bucket) x := by
  refine ⟨⟨rfl, ?_⟩, fun j hj => ?_⟩
  · simp only [only, IndexerState.mk.injEq, true_and, and_true]
    exact OrdMap.filter_insert (by simp [hk])
  · simp only [only, final, putBucket, IndexerState.mk.injEq, true_and, and_true]
    exact OrdMap.filter_insert_other (by simp [hk, hj.symm]) (by simp [hk, hj.symm])

theorem eraseBucket_within {key : BucketKey} (hk : key.subPoolId = sp) :
    Within sp (eraseBucket key) x := by
  refine ⟨⟨rfl, ?_⟩, fun j hj => ?_⟩
  · simp only [only, IndexerState.mk.injEq, true_and, and_true]
    exact OrdMap.filter_erase _ _ _
  · simp only [only, final, eraseBucket, IndexerState.mk.injEq, true_and, and_true]
    exact OrdMap.filter_erase_other (by simp [hk, hj.symm])

theorem putPosition_within {pos : PositionView} (hp : pos.subPoolId = sp) (h : Owns sp x id) :
    Within sp (putPosition pos id) x := by
  refine ⟨⟨rfl, ?_⟩, fun j hj => ?_⟩
  · simp only [only, IndexerState.mk.injEq, and_true]
    exact OrdMap.filter_insert (by simp [hp])
  · simp only [only, final, putPosition, IndexerState.mk.injEq, and_true]
    refine OrdMap.filter_insert_other (by simp [hp, hj.symm]) (fun q hq => ?_)
    simp [h q hq, hj.symm]

theorem putPosition_bind {α : Type} (pos : PositionView) (id : Nat) (f : Unit → IndexM α)
    (x : IndexerState) : (putPosition pos id >>= f) x
      = f () { x with positions := x.positions.insert id pos } := rfl

def Stays (f : PositionView → Except IndexerError PositionView) : Prop :=
  ∀ pos pos', f pos = .ok pos' → pos'.subPoolId = pos.subPoolId

theorem updateEach_within {f : PositionView → Except IndexerError PositionView} (hf : Stays f)
    {es : List (Nat × PositionView)} (hes : ∀ e ∈ es, e.2.subPoolId = sp ∧ Owns sp x e.1) :
    Within sp (updateEach f es) x := by
  induction es generalizing x with
  | nil => exact .pure ()
  | cons e es ih =>
    obtain ⟨id, pos⟩ := e
    obtain ⟨hpos, hown⟩ := hes _ List.mem_cons_self
    unfold updateEach
    refine .bind (.orFail _) (fun pos' s' hr => ?_)
    obtain ⟨h', rfl⟩ := orFail_run_ok.mp hr
    have hpos' : pos'.subPoolId = sp := (hf pos pos' h').trans hpos
    refine .bind (putPosition_within hpos' hown) (fun u s' h' => ?_)
    cases h'
    refine ih (fun e he => ?_)
    obtain ⟨h1, h2⟩ := hes e (List.mem_cons_of_mem _ he)
    refine ⟨h1, fun q hq => ?_⟩
    simp only [OrdMap.get?_insert] at hq
    split_ifs at hq
    · cases hq
      exact hpos'
    · exact h2 q hq

theorem forPositions_within {selects : PositionView → Bool}
    {f : PositionView → Except IndexerError PositionView}
    (hs : ∀ pos, selects pos = true → pos.subPoolId = sp) (hf : Stays f) :
    Within sp (forPositions selects f) x := by
  unfold forPositions
  refine .read (fun x : IndexerState => x.positions.entries.filter (fun e => selects e.2))
    (only_positions_entries hs) (updateEach_within hf fun e he => ?_)
  obtain ⟨hmem, hsel⟩ := List.mem_filter.mp he
  refine ⟨hs _ hsel, fun q hq => ?_⟩
  have hget : x.positions.get? e.1 = some e.2 := OrdMap.get?_eq_some.mpr hmem
  rw [hget] at hq
  cases hq
  exact hs _ hsel

theorem activeIn_subPool {d : Direction} {g : Nat} (pos : PositionView)
    (h : activeIn sp d g pos = true) : pos.subPoolId = sp := by
  simp only [activeIn, decide_eq_true_eq, not_or, not_not] at h
  exact h.2.1

theorem dormantIn_subPool {key : BucketKey} (pos : PositionView)
    (h : dormantIn key pos = true) : pos.subPoolId = key.subPoolId := by
  simp only [dormantIn, decide_eq_true_eq, not_or, not_not] at h
  exact h.2.1

theorem gain_stays {amount shares total : Nat} {pos pos' : PositionView}
    (h : gain amount shares total pos = .ok pos') : pos'.subPoolId = pos.subPoolId := by
  unfold gain at h
  obtain ⟨_, -, h⟩ := except_bind_ok.mp h
  obtain ⟨_, -, h⟩ := except_bind_ok.mp h
  cases h
  rfl

theorem lose_stays (outflow total : Nat) : Stays (lose outflow total) := by
  intro pos pos' h
  unfold lose at h
  obtain ⟨_, -, h⟩ := except_bind_ok.mp h
  obtain ⟨_, -, h⟩ := except_bind_ok.mp h
  obtain ⟨_, -, h⟩ := except_bind_ok.mp h
  obtain ⟨_, -, h⟩ := except_bind_ok.mp h
  cases h
  rfl

theorem migrateView_stays (tick : Int) (generation : Nat) :
    Stays (migrateView tick generation) := by
  intro pos pos' h
  unfold migrateView at h
  obtain ⟨_, -, h⟩ := except_bind_ok.mp h
  cases h
  rfl

theorem forActive_within {reason : String} {f : PositionView → Except IndexerError PositionView}
    (hf : Stays f) (d : Direction) (before : Nat) : Within sp (forActive reason f sp d before) x :=
  .bind (.orFail _) (fun _ _ _ => .bind subPoolMut_within
    (fun _ _ _ => forPositions_within activeIn_subPool hf))

theorem creditView_within {key : BucketKey} (hk : key.subPoolId = sp) (share : Nat)
    (bucket : Option BucketView) : Within sp (creditView share key bucket) x := by
  cases bucket with
  | none => exact .throw _
  | some bucket =>
    refine .ite (fun _ => .pure ()) (fun _ => ?_)
    refine .bind (forPositions_within (fun pos h => (dormantIn_subPool pos h).trans hk)
      (fun _ _ h => gain_stays h)) (fun _ _ _ => ?_)
    exact .bind (.orFail _) (fun _ _ _ => putBucket_within hk _)

theorem creditBucket_within {key : BucketKey} (hk : key.subPoolId = sp)
    (total outstanding o : Nat) :
    Within sp (creditBucket total outstanding key o) x :=
  .bind (.orFail _) (fun _ _ _ => .ite (fun _ => .pure ()) (fun _ =>
    .read (fun x : IndexerState => x.buckets.get? key) (get?_buckets_only hk)
      (creditView_within hk _ _)))

theorem creditBuckets_within {os : List (BucketKey × Nat)} (ho : ∀ e ∈ os, e.1.subPoolId = sp)
    (total outstanding : Nat) : Within sp (creditBuckets total outstanding os) x := by
  induction os generalizing x with
  | nil => exact .pure ()
  | cons e os ih =>
    unfold creditBuckets
    exact .bind (creditBucket_within (ho _ List.mem_cons_self) _ _ _)
      (fun _ _ _ => ih (fun e he => ho e (List.mem_cons_of_mem _ he)))

theorem collectOutstanding_mem {d : Direction} {p : Nat} {es : List (BucketKey × BucketView)}
    {total : Nat} {r : List (BucketKey × Nat) × Nat}
    (h : collectOutstanding d p es total = .ok r) :
    ∀ e ∈ r.1, ∃ bucket, (e.1, bucket) ∈ es := by
  induction es generalizing total r with
  | nil =>
    cases h
    simp
  | cons e es ih =>
    obtain ⟨key, bucket⟩ := e
    have hskip : ∀ {total : Nat} {r : List (BucketKey × Nat) × Nat},
        collectOutstanding d p es total = .ok r →
        ∀ e ∈ r.1, ∃ b, (e.1, b) ∈ (key, bucket) :: es := by
      intro total r h e he
      obtain ⟨b, hb⟩ := ih h e he
      exact ⟨b, List.mem_cons_of_mem _ hb⟩
    unfold collectOutstanding at h
    split_ifs at h with ha
    · obtain ⟨o, -, h⟩ := except_bind_ok.mp h
      split_ifs at h with ho
      · exact hskip h
      · obtain ⟨t, -, h⟩ := except_bind_ok.mp h
        obtain ⟨⟨os, t'⟩, hr, h⟩ := except_bind_ok.mp h
        cases h
        intro e he
        cases he with
        | head => exact ⟨bucket, List.mem_cons_self⟩
        | tail _ he => exact hskip hr e he
    · exact hskip h

theorem distributeRecoveryProfit_within (d : Direction) (total p : Nat) :
    Within sp (distributeRecoveryProfit sp d total p) x := by
  unfold distributeRecoveryProfit
  have hselect (x : IndexerState) :
      (x.only sp).buckets.entries.filter (fun e => e.1.subPoolId = sp ∧ e.1.direction = d)
        = x.buckets.entries.filter (fun e => e.1.subPoolId = sp ∧ e.1.direction = d) := by
    let selects (key : BucketKey) : Bool := decide (key.subPoolId = sp ∧ key.direction = d)
    have hsp : ∀ key, selects key = true → key.subPoolId = sp :=
      fun key h => (of_decide_eq_true h).1
    exact only_buckets_entries hsp
  refine .read (f := fun es => do
      let outstandings ← orFail (collectOutstanding d p es 0)
      if outstandings.2 = 0 then return ()
      else creditBuckets total outstandings.2 outstandings.1)
    (fun x : IndexerState => x.buckets.entries.filter
      (fun e => e.1.subPoolId = sp ∧ e.1.direction = d))
    (hselect x) ?_
  refine .bind (.orFail _) (fun r x' hrun => ?_)
  obtain ⟨hr, rfl⟩ := orFail_run_ok.mp hrun
  refine .ite (fun _ => .pure ()) (fun _ => creditBuckets_within (fun e he => ?_) _ _)
  obtain ⟨b, hb⟩ := collectOutstanding_mem hr e he
  have hsel := (List.mem_filter.mp hb).2
  simp only [decide_eq_true_eq] at hsel
  exact hsel.1

theorem syncActive_within (d : Direction) (inflow before : Nat) :
    Within sp (syncActive sp d inflow before) x :=
  .ite (fun _ => forActive_within (fun _ _ h => gain_stays h) d before) (fun _ => .pure ())

theorem syncRecovery_within (d : Direction) (toRecovery residual p : Nat) :
    Within sp (syncRecovery sp d toRecovery residual p) x :=
  .ite (fun _ => .bind (.orFail _) (fun _ _ _ => distributeRecoveryProfit_within d _ p))
    (fun _ => .pure ())

theorem syncLoss_within (d : Direction) (outflow before : Nat) :
    Within sp (syncLoss sp d outflow before) x :=
  .ite (fun _ => forActive_within (lose_stays _ _) d before) (fun _ => .pure ())

theorem applyPoolSync_within (ev : PoolSyncEvent) : Within ev.subPoolId (applyPoolSync ev) x :=
  .bind (syncActive_within _ _ _) fun _ _ _ => .bind (syncRecovery_within _ _ _ _) fun _ _ _ =>
    .bind (syncActive_within _ _ _) fun _ _ _ => .bind (syncRecovery_within _ _ _ _) fun _ _ _ =>
    .bind (.orFail _) fun _ _ _ => .bind (.orFail _) fun _ _ _ =>
    .bind (syncLoss_within _ _ _) fun _ _ _ => syncLoss_within _ _ _

theorem joinView_within {key : BucketKey} (hk : key.subPoolId = sp) (shares notional : Nat)
    (bucket : BucketView) : Within sp (joinView key shares notional bucket) x :=
  .bind (putBucket_within hk _) fun _ _ _ => .bind (.orFail _) fun _ _ _ =>
    .bind (putBucket_within hk _) fun _ _ _ => .bind (.orFail _) fun _ _ _ => putBucket_within hk _

theorem joinBucket_within {key : BucketKey} (hk : key.subPoolId = sp) (fresh : BucketView)
    (shares notional : Nat) : Within sp (joinBucket key fresh shares notional) x := by
  refine .read (f := fun bucket : Option BucketView =>
    joinView key shares notional (bucket.getD fresh))
    (fun x : IndexerState => x.buckets.get? key) (get?_buckets_only hk) ?_
  exact joinView_within hk _ _ _

theorem applyRotate_within (ev : ActiveRotatedToRecoveryEvent) :
    Within ev.subPoolId (applyRotate ev) x :=
  .bind subPoolMut_within fun _ _ _ => .bind (putSubPool_within _) fun _ _ _ =>
    .bind (.orFail _) fun _ _ _ => .bind (putSubPool_within _) fun _ _ _ =>
    .bind (forPositions_within activeIn_subPool (migrateView_stays _ _)) fun _ _ _ =>
    joinBucket_within (BucketKey.subPoolId_bucketKey _ _ _) _ _ _

theorem burnFromBucket_within {key : BucketKey} (hk : key.subPoolId = sp)
    (shares notional value : Nat) :
    Within sp (burnFromBucket key shares notional value) x := by
  refine .read (f := burnView key shares notional value)
    (fun x : IndexerState => x.buckets.get? key) (get?_buckets_only hk) ?_
  cases x.buckets.get? key with
  | none => exact .throw _
  | some bucket =>
    exact .bind (.orFail _) fun _ _ _ =>
      .ite (fun _ => eraseBucket_within hk) (fun _ => putBucket_within hk _)

theorem applyOpen_within {ev : PositionOpenedEvent} (h : Owns ev.subPoolId x ev.positionId) :
    Within ev.subPoolId (applyOpen ev) x :=
  .bind (putPosition_within rfl h) fun _ _ _ => .bind subPoolMut_within fun _ _ _ =>
    .ite (fun _ => putSubPool_within _) (fun _ => .pure ())

theorem openPositionOf_within {reason : String} (h : Owns sp x id) :
    Within sp (openPositionOf id reason) x := by
  refine .read (f := openView id reason) (fun x : IndexerState => x.positions.get? id)
    h.get?_only ?_
  cases x.positions.get? id with
  | none => exact .throw _
  | some pos => exact .bind (.orFail _) fun _ _ _ => .pure _

theorem openPositionOf_ok {reason : String} {x' : IndexerState} {pos : PositionView}
    (h : openPositionOf id reason x = .ok pos x') :
    x' = x ∧ x.positions.get? id = some pos ∧ pos.closed = false := by
  unfold openPositionOf at h
  rw [get_bind] at h
  cases hp : x.positions.get? id with
  | none =>
    rw [hp] at h
    cases h
  | some q =>
    rw [hp, openView, orFail_bind_run_ok] at h
    obtain ⟨_, hc, h⟩ := h
    cases h
    exact ⟨rfl, rfl, ensure_ok.mp hc⟩

theorem closeView_within {pos : PositionView} (hp : pos.subPoolId = sp) (h : Owns sp x id)
    (active recovery : Nat) : Within sp (closeView id pos active recovery) x := by
  refine .bind (.orFail _) fun a x' ha => ?_
  obtain ⟨-, rfl⟩ := orFail_run_ok.mp ha
  refine .bind (putPosition_within hp h) fun _ x' hput => ?_
  cases hput
  refine .bind (.orFail _) fun r x' hr => ?_
  obtain ⟨-, rfl⟩ := orFail_run_ok.mp hr
  refine putPosition_within hp (fun q hq => ?_)
  simp only [OrdMap.get?_insert_self, Option.some.injEq] at hq
  exact hq ▸ hp

theorem subPoolMut_owner (sp : Nat) : Keeps owner (subPoolMut sp) := by
  intro x
  unfold subPoolMut
  cases x.subPools.get? sp <;> rfl

theorem putSubPool_owner (sp : Nat) (view : SubPoolView) : Keeps owner (putSubPool sp view) :=
  fun _ => rfl

theorem putBucket_owner (key : BucketKey) (bucket : BucketView) :
    Keeps owner (putBucket key bucket) :=
  fun _ => rfl

theorem putPosition_owner {pos : PositionView} (h : x.owner id = some pos.subPoolId) :
    (final (putPosition pos id x)).owner = x.owner := by
  funext j
  simp only [putPosition, final, owner, OrdMap.get?_insert]
  split_ifs with hj
  · rw [hj]
    exact h.symm
  · rfl

theorem updateEach_owner {f : PositionView → Except IndexerError PositionView} (hf : Stays f)
    {es : List (Nat × PositionView)} (hes : ∀ e ∈ es, x.owner e.1 = some e.2.subPoolId) :
    (final (updateEach f es x)).owner = x.owner := by
  induction es generalizing x with
  | nil => rfl
  | cons e es ih =>
    obtain ⟨id, pos⟩ := e
    unfold updateEach
    refine Keeps.bind_at (Keeps.orFail _ x) (fun pos' x' hrun => ?_)
    obtain ⟨hpos', rfl⟩ := orFail_run_ok.mp hrun
    have hput : (final (putPosition pos' id x)).owner = x.owner := by
      refine putPosition_owner ?_
      rw [hf pos pos' hpos']
      exact hes _ List.mem_cons_self
    refine Keeps.bind_at hput (fun _ x' hx' => ?_)
    cases hx'
    refine ih (fun e he => ?_)
    have hkeep : (IndexerState.mk (x.positions.insert id pos') x.buckets x.subPools).owner
      = x.owner :=
      hput
    rw [hkeep]
    exact hes e (List.mem_cons_of_mem _ he)

theorem forPositions_owner (selects : PositionView → Bool)
    {f : PositionView → Except IndexerError PositionView} (hf : Stays f) :
    Keeps owner (forPositions selects f) := by
  intro x
  unfold forPositions
  rw [get_bind]
  refine updateEach_owner hf (fun e he => ?_)
  have hget : x.positions.get? e.1 = some e.2 :=
    OrdMap.get?_eq_some.mpr (List.mem_filter.mp he).1
  rw [owner, hget]
  rfl

theorem forActive_owner (reason : String) {f : PositionView → Except IndexerError PositionView}
    (hf : Stays f) (sp : Nat) (d : Direction) (before : Nat) :
    Keeps owner (forActive reason f sp d before) :=
  .bind (.orFail _) fun _ => .bind (subPoolMut_owner _) fun _ => forPositions_owner _ hf

theorem creditView_owner (share : Nat) (key : BucketKey) (bucket : Option BucketView) :
    Keeps owner (creditView share key bucket) := by
  cases bucket with
  | none => exact .throw _
  | some bucket =>
    exact .ite (.pure ()) (.bind (forPositions_owner _ (fun _ _ h => gain_stays h)) fun _ =>
      .bind (.orFail _) fun _ => putBucket_owner _ _)

theorem creditBuckets_owner (total outstanding : Nat) (os : List (BucketKey × Nat)) :
    Keeps owner (creditBuckets total outstanding os) := by
  induction os with
  | nil => exact .pure ()
  | cons e os ih =>
    unfold creditBuckets creditBucket
    refine .bind (.bind (.orFail _) fun _ => .ite (.pure ()) fun x => ?_) fun _ => ih
    rw [get_bind]
    exact creditView_owner _ _ _ x

theorem syncRecovery_owner (sp : Nat) (d : Direction) (toRecovery residual p : Nat) :
    Keeps owner (syncRecovery sp d toRecovery residual p) := by
  refine .ite (.bind (.orFail _) fun _ x => ?_) (.pure ())
  unfold distributeRecoveryProfit
  rw [get_bind]
  exact Keeps.bind (.orFail _) (fun _ => .ite (.pure ()) (creditBuckets_owner _ _ _)) x

theorem syncActive_owner (sp : Nat) (d : Direction) (inflow before : Nat) :
    Keeps owner (syncActive sp d inflow before) :=
  .ite (forActive_owner _ (fun _ _ h => gain_stays h) _ _ _) (.pure ())

theorem syncLoss_owner (sp : Nat) (d : Direction) (outflow before : Nat) :
    Keeps owner (syncLoss sp d outflow before) :=
  .ite (forActive_owner _ (lose_stays _ _) _ _ _) (.pure ())

theorem applyPoolSync_owner (ev : PoolSyncEvent) : Keeps owner (applyPoolSync ev) :=
  .bind (syncActive_owner _ _ _ _) fun _ => .bind (syncRecovery_owner _ _ _ _ _) fun _ =>
    .bind (syncActive_owner _ _ _ _) fun _ => .bind (syncRecovery_owner _ _ _ _ _) fun _ =>
    .bind (.orFail _) fun _ => .bind (.orFail _) fun _ =>
    .bind (syncLoss_owner _ _ _ _) fun _ => syncLoss_owner _ _ _ _

theorem joinBucket_owner (key : BucketKey) (fresh : BucketView) (shares notional : Nat) :
    Keeps owner (joinBucket key fresh shares notional) := by
  intro x
  unfold joinBucket
  rw [get_bind]
  exact Keeps.bind (putBucket_owner _ _) (fun _ => .bind (.orFail _) fun _ =>
    .bind (putBucket_owner _ _) fun _ => .bind (.orFail _) fun _ => putBucket_owner _ _) x

theorem applyRotate_owner (ev : ActiveRotatedToRecoveryEvent) : Keeps owner (applyRotate ev) :=
  .bind (subPoolMut_owner _) fun _ => .bind (putSubPool_owner _ _) fun _ =>
    .bind (.orFail _) fun _ => .bind (putSubPool_owner _ _) fun _ =>
    .bind (forPositions_owner _ (migrateView_stays _ _)) fun _ => joinBucket_owner _ _ _ _

theorem burnFromBucket_owner (key : BucketKey) (shares notional value : Nat) :
    Keeps owner (burnFromBucket key shares notional value) := by
  intro x
  unfold burnFromBucket
  rw [get_bind]
  cases x.buckets.get? key with
  | none => rfl
  | some bucket =>
    exact Keeps.bind (.orFail _) (fun _ => .ite (fun _ => rfl) (putBucket_owner _ _)) x

theorem burnRecovery_owner (sp : Nat) (d : Direction) (tick : Option Int) (reason : String)
    (shares notional value : Nat) :
    Keeps owner (burnRecovery sp d tick reason shares notional value) := by
  refine .ite ?_ (.pure ())
  cases tick with
  | none => exact .throw _
  | some tick => exact burnFromBucket_owner _ _ _ _

theorem burnRecovery_within (d : Direction) (tick : Option Int) (reason : String)
    (shares notional value : Nat) :
    Within sp (burnRecovery sp d tick reason shares notional value) x := by
  refine .ite (fun _ => ?_) (fun _ => .pure ())
  cases tick with
  | none => exact .throw _
  | some tick => exact burnFromBucket_within (BucketKey.subPoolId_bucketKey _ _ _) _ _ _

theorem openPositionOf_owner (id : Nat) (reason : String) :
    Keeps owner (openPositionOf id reason) := by
  intro x
  unfold openPositionOf
  rw [get_bind]
  cases x.positions.get? id with
  | none => rfl
  | some pos => exact Keeps.bind (.orFail _) (fun _ => .pure _) x

theorem closeView_owner {pos : PositionView} (h : x.owner id = some pos.subPoolId)
    (active recovery : Nat) : (final (closeView id pos active recovery x)).owner = x.owner := by
  refine Keeps.bind_at (Keeps.orFail _ x) fun a x' ha => ?_
  obtain ⟨-, rfl⟩ := orFail_run_ok.mp ha
  have hput : (final (putPosition { pos with activeShares := a } id x)).owner = x.owner :=
    putPosition_owner h
  refine Keeps.bind_at hput fun _ x' hx' => ?_
  cases hx'
  refine Keeps.bind_at (Keeps.orFail _ _) fun r x' hr => ?_
  obtain ⟨-, rfl⟩ := orFail_run_ok.mp hr
  refine putPosition_owner ?_
  simp [owner]

end Indexer
end MoleFinance
