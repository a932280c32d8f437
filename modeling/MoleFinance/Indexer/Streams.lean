import MoleFinance.Indexer.Isolation
import MoleFinance.Engine.Stream

/-! Event streams of several sub-pools fed to one indexer. -/
namespace MoleFinance
open MoleMath Call Trace

namespace Indexer
open IndexerState
variable {x : IndexerState}

theorem close_within {sp id : Nat} (h : Owns sp x id) (d : Direction) (open? close? : String)
    (active shares notional value : Nat) :
    Within sp (do
      let pos ← openPositionOf id open?
      burnRecovery sp d pos.recoveryBucketTick close? shares notional value
      closeView id pos active shares) x := by
  refine .bind (openPositionOf_within h) fun pos x' hpos => ?_
  obtain ⟨rfl, hget, -⟩ := openPositionOf_ok hpos
  refine .bind (burnRecovery_within _ _ _ _ _ _) fun u x' hx' => ?_
  have ho := (burnRecovery_owner _ _ _ _ _ _ _).of_ok hx'
  exact closeView_within (h pos hget) (h.of_owner_eq ho) _ _

theorem close_owner (sp id : Nat) (d : Direction) (open? close? : String)
    (active shares notional value : Nat) :
    Keeps owner (do
      let pos ← openPositionOf id open?
      burnRecovery sp d pos.recoveryBucketTick close? shares notional value
      closeView id pos active shares) := by
  intro x
  refine Keeps.bind_at (openPositionOf_owner _ _ x) fun pos x' hpos => ?_
  obtain ⟨rfl, hget, -⟩ := openPositionOf_ok hpos
  refine Keeps.bind_at (burnRecovery_owner _ _ _ _ _ _ _ _) fun u x' hx' => ?_
  have ho := (burnRecovery_owner _ _ _ _ _ _ _).of_ok hx'
  rw [closeView_owner, ho]
  rw [ho]
  exact owner_of_get? hget

theorem claim_within {ev : DormantRecoveryClaimedEvent} (h : Owns ev.subPoolId x ev.positionId) :
    Within ev.subPoolId (applyClaimRecovery ev) x := by
  refine .bind (openPositionOf_within h) fun pos x' hpos => ?_
  obtain ⟨rfl, hget, -⟩ := openPositionOf_ok hpos
  refine .bind (burnFromBucket_within (BucketKey.subPoolId_bucketKey _ _ _) _ _ _)
    fun u x' hx' => ?_
  have ho := (burnFromBucket_owner _ _ _ _).of_ok hx'
  refine .bind (.orFail _) fun r x'' hr => ?_
  obtain ⟨-, rfl⟩ := orFail_run_ok.mp hr
  exact putPosition_within (h pos hget) (h.of_owner_eq ho)

theorem claim_owner (ev : DormantRecoveryClaimedEvent) : Keeps owner (applyClaimRecovery ev) := by
  intro x
  refine Keeps.bind_at (openPositionOf_owner _ _ x) fun pos x' hpos => ?_
  obtain ⟨rfl, hget, -⟩ := openPositionOf_ok hpos
  refine Keeps.bind_at (burnFromBucket_owner _ _ _ _ _) fun u x' hx' => ?_
  have ho := (burnFromBucket_owner _ _ _ _).of_ok hx'
  refine Keeps.bind_at (Keeps.orFail _ _) fun r x'' hr => ?_
  obtain ⟨-, rfl⟩ := orFail_run_ok.mp hr
  rw [putPosition_owner, ho]
  rw [ho]
  exact (owner_of_get? hget).trans rfl

/-- An event works within its sub-pool, unless another one has the position it names. -/
theorem apply_within {event : EngineEvent}
    (h : ∀ id, event.positionId = some id → Owns event.subPoolId x id) :
    Within event.subPoolId (apply event) x := by
  cases event with
  | poolSync ev => exact applyPoolSync_within ev
  | positionOpened ev => exact applyOpen_within (h _ rfl)
  | positionClosed ev => exact close_within (h _ rfl) _ _ _ _ _ _ _
  | positionForceClosed ev => exact close_within (h _ rfl) _ _ _ _ _ _ _
  | dormantRecoveryClaimed ev => exact claim_within (h _ rfl)
  | activeRotatedToRecovery ev => exact applyRotate_within ev
  | dustHarvested ev => exact .pure ()
  | dormantBucketPendingApplied ev => exact .pure ()

theorem apply_owner (event : EngineEvent) (x : IndexerState) (id : Nat) :
    (final (apply event x)).owner id
      = if event.opens = some id then some event.subPoolId else x.owner id := by
  cases event with
  | poolSync ev => exact congrFun (applyPoolSync_owner ev x) id
  | positionOpened ev =>
    have hopen : (final (applyOpen ev x)).owner = fun id =>
        if ev.positionId = id then some ev.subPoolId else x.owner id := by
      have hput : ∀ pos : PositionView, pos.subPoolId = ev.subPoolId →
          (IndexerState.mk (x.positions.insert ev.positionId pos) x.buckets x.subPools).owner
            = fun id => if ev.positionId = id then some ev.subPoolId else x.owner id := by
        intro pos hpos
        funext j
        simp only [owner, OrdMap.get?_insert]
        by_cases hj : j = ev.positionId
        · simp [hj, hpos]
        · simp [hj, Ne.symm hj]
      unfold applyOpen
      rw [putPosition_bind]
      refine Eq.trans (Keeps.bind (subPoolMut_owner _) (fun _ => .ite ?_ (.pure ())) _) (hput _ rfl)
      exact putSubPool_owner _ _
    simp only [EngineEvent.opens, EngineEvent.subPoolId, Option.some.injEq]
    exact congrFun hopen id
  | positionClosed ev => exact congrFun (close_owner _ _ _ _ _ _ _ _ _ x) id
  | positionForceClosed ev => exact congrFun (close_owner _ _ _ _ _ _ _ _ _ x) id
  | dormantRecoveryClaimed ev => exact congrFun (claim_owner ev x) id
  | activeRotatedToRecovery ev => exact congrFun (applyRotate_owner ev x) id
  | dustHarvested ev => rfl
  | dormantBucketPendingApplied ev => rfl

/-- One event at a time; an event that fails keeps what it wrote. -/
def step (event : EngineEvent) (x : IndexerState) : Except IndexerError Unit × IndexerState :=
  (answer (apply event x), final (apply event x))

def feed (events : List EngineEvent) (x : IndexerState) : IndexerState := (run step events x).2

theorem feed_cons (event : EngineEvent) (events : List EngineEvent) (x : IndexerState) :
    feed (event :: events) x = feed events (final (apply event x)) := rfl

theorem feed_keeps_owner {events : List EngineEvent} {id : Nat} (h : (x.owner id).isSome) :
    ((feed events x).owner id).isSome := by
  induction events generalizing x with
  | nil => exact h
  | cons event events ih =>
    rw [feed_cons]
    refine ih ?_
    rw [apply_owner]
    split_ifs
    · rfl
    · exact h

theorem feed_opens {events : List EngineEvent} {event : EngineEvent} (he : event ∈ events)
    {id : Nat} (ho : event.opens = some id) : ((feed events x).owner id).isSome := by
  induction events generalizing x with
  | nil => cases he
  | cons first events ih =>
    rw [feed_cons]
    cases he with
    | head =>
      refine feed_keeps_owner ?_
      rw [apply_owner, if_pos ho]
      rfl
    | tail _ he => exact ih he

theorem feed_owner {events : List EngineEvent} {id sp : Nat}
    (h : (feed events x).owner id = some sp) : x.owner id = some sp ∨
      ∃ event ∈ events, event.opens = some id ∧ event.subPoolId = sp := by
  induction events generalizing x with
  | nil => exact .inl h
  | cons event events ih =>
    rw [feed_cons] at h
    cases ih h with
    | inl h =>
      rw [apply_owner] at h
      split_ifs at h with ho
      · exact .inr ⟨event, List.mem_cons_self, ho, Option.some.inj h⟩
      · exact .inl h
    | inr h =>
      obtain ⟨event', he, h⟩ := h
      exact .inr ⟨event', List.mem_cons_of_mem _ he, h⟩

/-- When every event names positions of its own sub-pool, each part of the indexer sees its own
    events only. -/
theorem feed_only {home : Nat → Nat → Prop}
    (hone : ∀ id sp sp', home id sp → home id sp' → sp = sp') {events : List EngineEvent}
    (hnames : ∀ event ∈ events, ∀ id, event.positionId = some id → home id event.subPoolId)
    (hx : ∀ id sp, x.owner id = some sp → home id sp) (sp : Nat) :
    (feed events x).only sp = feed (events.filter (fun e => e.subPoolId = sp)) (x.only sp) := by
  induction events generalizing x with
  | nil => rfl
  | cons event events ih =>
    have hfirst := hnames event List.mem_cons_self
    have hwithin : Within event.subPoolId (apply event) x := by
      refine apply_within fun id hid => owns_iff.mpr fun s hs => ?_
      exact hone id _ _ (hx id s hs) (hfirst id hid)
    have hnext : ∀ id sp, (final (apply event x)).owner id = some sp → home id sp := by
      intro id sp hs
      rw [apply_owner] at hs
      split_ifs at hs with ho
      · cases hs
        exact hfirst id (opens_positionId ho)
      · exact hx id sp hs
    have hrest := ih (fun e he => hnames e (List.mem_cons_of_mem _ he)) hnext
    rw [feed_cons, hrest]
    by_cases hsp : event.subPoolId = sp
    · rw [List.filter_cons_of_pos (by simpa using hsp), feed_cons, ← hsp, hwithin.final_eq]
    · rw [List.filter_cons_of_neg (by simpa using hsp), hwithin.frame sp (Ne.symm hsp)]

end Indexer

section Interleaved
variable {l : List EngineEvent}

/-- Every sub-pool's part of a stream comes from a run of the engine on it. -/
def Interleaved (l : List EngineEvent) : Prop :=
  ∀ sp, ∃ (price : U64) (slot : Nat) (ops : List (MarketParams × EngineOp)),
    eventsOf ops (World.new sp price slot) = l.filter (fun e => e.subPoolId = sp)

theorem Interleaved.opened (h : Interleaved l) {e : EngineEvent} (he : e ∈ l) {id : Nat}
    (hid : e.positionId = some id) :
    ∃ e' ∈ l, e'.opens = some id ∧ e'.subPoolId = e.subPoolId := by
  obtain ⟨price, slot, ops, hops⟩ := h e.subPoolId
  have hmem : e ∈ eventsOf ops (World.new e.subPoolId price slot) := by
    rw [hops]
    exact List.mem_filter.mpr ⟨he, by simp⟩
  cases eventsOf_names (World.new_inv _ price slot) ops e hmem id hid with
  | inl hhas => simp [World.has, World.new] at hhas
  | inr hopen =>
    obtain ⟨e', he', ho⟩ := hopen
    rw [hops] at he'
    obtain ⟨hl, hsp⟩ := List.mem_filter.mp he'
    exact ⟨e', hl, ho, by simpa using hsp⟩

/-- An id opened in two sub-pools is missing from the view of one of them. -/
theorem collision_differs {e e' : EngineEvent} (he : e ∈ l) (he' : e' ∈ l) {id : Nat}
    (ho : e.opens = some id) (ho' : e'.opens = some id) (hne : e.subPoolId ≠ e'.subPoolId) :
    ∃ sp, (Indexer.feed l .new).only sp
      ≠ (Indexer.feed (l.filter (fun e => e.subPoolId = sp)) .new).only sp := by
  obtain ⟨sp, hsp⟩ := Option.isSome_iff_exists.mp (Indexer.feed_opens (x := .new) he ho)
  obtain ⟨e'', hmem, hopen, hother⟩ : ∃ e'' ∈ l, e''.opens = some id ∧ e''.subPoolId ≠ sp := by
    by_cases hc : e.subPoolId = sp
    · exact ⟨e', he', ho', fun h => hne (hc.trans h.symm)⟩
    · exact ⟨e, he, ho, hc⟩
  refine ⟨e''.subPoolId, fun heq => ?_⟩
  have hin : e'' ∈ l.filter (fun e => e.subPoolId = e''.subPoolId) :=
    List.mem_filter.mpr ⟨hmem, by simp⟩
  obtain ⟨s, hs⟩ := Option.isSome_iff_exists.mp (Indexer.feed_opens (x := .new) hin hopen)
  have hs' : s = e''.subPoolId := by
    cases Indexer.feed_owner hs with
    | inl h => cases h
    | inr h =>
      obtain ⟨o, ho, -, rfl⟩ := h
      simpa using (List.mem_filter.mp ho).2
  have hmerged := congrArg (fun x => x.owner id) heq
  simp only [IndexerState.owner, IndexerState.only, OrdMap.get?_filter] at hmerged hs hsp
  obtain ⟨p, hp, rfl⟩ := Option.map_eq_some_iff.mp hsp
  obtain ⟨q, hq, hqs⟩ := Option.map_eq_some_iff.mp hs
  rw [hp, hq] at hmerged
  simp [Option.filter_some, hqs, hs', Ne.symm hother] at hmerged

/-- Interleaved streams leave every sub-pool the view its own events give it exactly when no
    position id is opened in two of them. -/
theorem streams_independent_iff (l : List EngineEvent) (hl : Interleaved l) :
    (∀ sp, (Indexer.feed l .new).only sp
      = (Indexer.feed (l.filter (fun e => e.subPoolId = sp)) .new).only sp) ↔
    ∀ e ∈ l, ∀ e' ∈ l, ∀ id, e.opens = some id → e'.opens = some id →
      e.subPoolId = e'.subPoolId := by
  constructor
  · intro h e he e' he' id ho ho'
    by_contra hne
    obtain ⟨sp, hsp⟩ := collision_differs he he' ho ho' hne
    exact hsp (h sp)
  · intro h sp
    have hone : ∀ id s s', (∃ e ∈ l, e.opens = some id ∧ e.subPoolId = s) →
        (∃ e ∈ l, e.opens = some id ∧ e.subPoolId = s') → s = s' := by
      rintro id s s' ⟨e, he, ho, rfl⟩ ⟨e', he', ho', rfl⟩
      exact h e he e' he' id ho ho'
    have hnew : ∀ id s, IndexerState.new.owner id = some s →
        ∃ e ∈ l, e.opens = some id ∧ e.subPoolId = s := by
      intro id s hs
      cases hs
    have hnames : ∀ e ∈ l, ∀ id, e.positionId = some id →
        ∃ e' ∈ l, e'.opens = some id ∧ e'.subPoolId = e.subPoolId :=
      fun _ he _ hid => hl.opened he hid
    have hmerged := Indexer.feed_only hone hnames hnew sp
    have hfiltered : ∀ e ∈ l.filter (fun e => e.subPoolId = sp), ∀ id,
        e.positionId = some id → ∃ e' ∈ l, e'.opens = some id ∧ e'.subPoolId = e.subPoolId :=
      fun e he => hnames e (List.mem_filter.mp he).1
    have halone := Indexer.feed_only hone hfiltered hnew sp
    rw [List.filter_filter] at halone
    simp only [Bool.and_self] at halone
    rw [hmerged, halone]

theorem interleaved_append {sp sp' : Nat} (hne : sp ≠ sp') (price price' : U64) (slot slot' : Nat)
    (ops ops' : List (MarketParams × EngineOp)) :
    Interleaved (eventsOf ops (World.new sp price slot)
      ++ eventsOf ops' (World.new sp' price' slot')) := by
  have hfirst : ∀ e ∈ eventsOf ops (World.new sp price slot), e.subPoolId = sp :=
    eventsOf_subPoolId (World.new_inv sp price slot) ops
  have hsecond : ∀ e ∈ eventsOf ops' (World.new sp' price' slot'), e.subPoolId = sp' :=
    eventsOf_subPoolId (World.new_inv sp' price' slot') ops'
  have hall : ∀ {l : List EngineEvent} {n : Nat}, (∀ e ∈ l, e.subPoolId = n) →
      l.filter (fun e => e.subPoolId = n) = l :=
    fun h => List.filter_eq_self.mpr fun e he => decide_eq_true (h e he)
  have hnone : ∀ {l : List EngineEvent} {n k : Nat}, (∀ e ∈ l, e.subPoolId = n) → n ≠ k →
      l.filter (fun e => e.subPoolId = k) = [] :=
    fun h hk => List.filter_eq_nil_iff.mpr fun e he =>
      fun hd => hk ((h e he).symm.trans (of_decide_eq_true hd))
  intro k
  rw [List.filter_append]
  by_cases hk : k = sp
  · cases hk
    exact ⟨price, slot, ops, by rw [hall hfirst, hnone hsecond hne.symm, List.append_nil]⟩
  · by_cases hk' : k = sp'
    · cases hk'
      exact ⟨price', slot', ops', by rw [hnone hfirst (Ne.symm hk), hall hsecond, List.nil_append]⟩
    · refine ⟨price, slot, [], ?_⟩
      rw [hnone hfirst (Ne.symm hk), hnone hsecond (Ne.symm hk')]
      rfl

def shortStream (sp long short : Nat) : List EngineEvent :=
  eventsOf ([.open (quoteAt (amount 100)) .long (amount 100) (amount long),
    .open (quoteAt (amount 100)) .short (amount 200) (amount short), .sync (quoteAt (amount 90)),
      .sync (quoteAt (amount 99))].map
    (smallMarket .lazy, ·)) (World.new sp (amount 100) 0)

theorem shortStreams_interleaved (long long' short short' : Nat) :
    Interleaved (shortStream 1 long short ++ shortStream 2 long' short') :=
  interleaved_append (by decide) _ _ _ _ _ _

/-- With ids of their own the two sub-pools do not meet. -/
theorem shortStreams_independent :
    (Indexer.feed (shortStream 1 7 8 ++ shortStream 2 9 10) .new).only 2
      = (Indexer.feed ((shortStream 1 7 8 ++ shortStream 2 9 10).filter
          (fun e => e.subPoolId = 2)) .new).only 2 := by
  have hids : ∀ e ∈ shortStream 1 7 8 ++ shortStream 2 9 10,
      ∀ e' ∈ shortStream 1 7 8 ++ shortStream 2 9 10, e.opens = e'.opens →
        e.opens = none ∨ e.subPoolId = e'.subPoolId := by decide +kernel
  refine (streams_independent_iff _ (shortStreams_interleaved 7 9 8 10)).mpr ?_ 2
  intro e he e' he' id ho ho'
  cases hids e he e' he' (ho.trans ho'.symm) with
  | inl h => cases h.symm.trans ho
  | inr h => exact h

/-- Both sub-pools open a position 7. -/
theorem shortStreams_collide : ¬ ∀ l, Interleaved l → ∀ sp,
    (Indexer.feed l .new).only sp
      = (Indexer.feed (l.filter (fun e => e.subPoolId = sp)) .new).only sp := by
  intro h
  have hmeet : ∃ e ∈ shortStream 1 7 8 ++ shortStream 2 7 8,
      ∃ e' ∈ shortStream 1 7 8 ++ shortStream 2 7 8,
        e.opens = some 7 ∧ e'.opens = some 7 ∧ e.subPoolId ≠ e'.subPoolId := by decide +kernel
  obtain ⟨e, he, e', he', ho, ho', hne⟩ := hmeet
  obtain ⟨sp, hsp⟩ := collision_differs he he' ho ho' hne
  exact hsp (h _ (shortStreams_interleaved 7 7 8 8) sp)

end Interleaved

end MoleFinance
