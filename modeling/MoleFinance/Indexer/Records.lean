import MoleFinance.Indexer.Parity
import MoleFinance.Indexer.Streams

/-! What replay never takes back: the terms of a position, and the view of a sub-pool. -/
namespace MoleFinance
open MoleMath Call Trace

def PositionView.terms (pos : PositionView) : Nat × Nat × Nat :=
  (pos.subPoolId, pos.principal, pos.notional)

namespace IndexerState

def termsOf (x : IndexerState) (id : Nat) : Option (Nat × Nat × Nat) :=
  (x.positions.get? id).map PositionView.terms

def Viewed (x : IndexerState) (sp : Nat) : Prop := (x.subPools.get? sp).isSome

structure Onward (x x' : IndexerState) : Prop where
  terms : x'.termsOf = x.termsOf
  viewed : ∀ sp, x.Viewed sp → x'.Viewed sp

instance : Std.Refl Onward := ⟨fun _ => ⟨rfl, fun _ h => h⟩⟩

instance : IsTrans IndexerState Onward :=
  ⟨fun _ _ _ h h' => ⟨h'.terms.trans h.terms, fun sp hv => h'.viewed sp (h.viewed sp hv)⟩⟩

theorem termsOf_of_get? {x : IndexerState} {id : Nat} {pos : PositionView}
    (h : x.positions.get? id = some pos) : x.termsOf id = some pos.terms := by
  rw [termsOf, h]
  rfl

end IndexerState

namespace Indexer
open IndexerState
variable {x : IndexerState} {id : Nat}

def KeepsTerms (f : PositionView → Except IndexerError PositionView) : Prop :=
  ∀ pos pos', f pos = .ok pos' → pos'.terms = pos.terms

theorem gain_terms {amount total : Nat} (shares : PositionView → Nat) :
    KeepsTerms (fun pos => gain amount (shares pos) total pos) := by
  intro pos pos' h
  obtain ⟨_, -, h⟩ := except_bind_ok.mp h
  obtain ⟨_, -, h⟩ := except_bind_ok.mp h
  cases h
  rfl

theorem lose_terms (outflow total : Nat) : KeepsTerms (lose outflow total) := by
  intro pos pos' h
  obtain ⟨_, -, h⟩ := except_bind_ok.mp h
  obtain ⟨_, -, h⟩ := except_bind_ok.mp h
  obtain ⟨_, -, h⟩ := except_bind_ok.mp h
  obtain ⟨_, -, h⟩ := except_bind_ok.mp h
  cases h
  rfl

theorem migrateView_terms (tick : Int) (generation : Nat) :
    KeepsTerms (migrateView tick generation) := by
  intro pos pos' h
  obtain ⟨_, -, h⟩ := except_bind_ok.mp h
  cases h
  rfl

theorem viewed_insert (sp : Nat) (view : SubPoolView) {j : Nat} (h : x.Viewed j) :
    ({ x with subPools := x.subPools.insert sp view } : IndexerState).Viewed j := by
  simp only [Viewed, OrdMap.get?_insert]
  split_ifs
  · rfl
  · exact h

theorem putSubPool_onward (sp : Nat) (view : SubPoolView) : Moves Onward (putSubPool sp view) :=
  fun _ => ⟨rfl, fun _ h => viewed_insert sp view h⟩

theorem subPoolMut_onward (sp : Nat) : Moves Onward (subPoolMut sp) := by
  intro x
  unfold subPoolMut
  cases x.subPools.get? sp with
  | some view => exact refl_of Onward x
  | none => exact ⟨rfl, fun _ h => viewed_insert sp .default h⟩

theorem putBucket_onward (key : BucketKey) (bucket : BucketView) :
    Moves Onward (putBucket key bucket) := fun _ => ⟨rfl, fun _ h => h⟩

theorem eraseBucket_onward (key : BucketKey) : Moves Onward (eraseBucket key) :=
  fun _ => ⟨rfl, fun _ h => h⟩

theorem putPosition_onward {pos : PositionView} (h : x.termsOf id = some pos.terms) :
    Onward x (final (putPosition pos id x)) := by
  refine ⟨?_, fun _ h => h⟩
  funext j
  simp only [putPosition, final, termsOf, OrdMap.get?_insert]
  split_ifs with hj
  · rw [hj]
    exact h.symm
  · rfl

theorem updateEach_onward {f : PositionView → Except IndexerError PositionView}
    (hf : KeepsTerms f) {es : List (Nat × PositionView)}
    (hes : ∀ e ∈ es, x.termsOf e.1 = some e.2.terms) : Onward x (final (updateEach f es x)) := by
  induction es generalizing x with
  | nil => exact refl_of Onward x
  | cons e es ih =>
    obtain ⟨id, pos⟩ := e
    unfold updateEach
    refine Moves.bind_at (Moves.orFail _ x) (fun pos' x' hrun => ?_)
    obtain ⟨hpos', rfl⟩ := orFail_run_ok.mp hrun
    have hput : Onward x (final (putPosition pos' id x)) := by
      refine putPosition_onward ?_
      rw [hf pos pos' hpos']
      exact hes _ List.mem_cons_self
    refine Moves.bind_at hput (fun _ x' hx' => ?_)
    rw [hx'] at hput
    have hterms : x'.termsOf = x.termsOf := hput.terms
    refine ih fun e he => ?_
    rw [hterms]
    exact hes e (List.mem_cons_of_mem _ he)

theorem forPositions_onward (selects : PositionView → Bool)
    {f : PositionView → Except IndexerError PositionView} (hf : KeepsTerms f) :
    Moves Onward (forPositions selects f) := by
  intro x
  unfold forPositions
  rw [get_bind]
  exact updateEach_onward hf fun e he =>
    termsOf_of_get? (OrdMap.get?_eq_some.mpr (List.mem_filter.mp he).1)

theorem forActive_onward (reason : String) {f : PositionView → Except IndexerError PositionView}
    (hf : KeepsTerms f) (sp : Nat) (d : Direction) (before : Nat) :
    Moves Onward (forActive reason f sp d before) :=
  .bind (.orFail _) fun _ => .bind (subPoolMut_onward _) fun _ => forPositions_onward _ hf

theorem creditView_onward (share : Nat) (key : BucketKey) (bucket : Option BucketView) :
    Moves Onward (creditView share key bucket) := by
  cases bucket with
  | none => exact .throw _
  | some bucket =>
    exact .ite (.pure ()) (.bind (forPositions_onward _ (gain_terms _)) fun _ =>
      .bind (.orFail _) fun _ => putBucket_onward _ _)

theorem creditBuckets_onward (total outstanding : Nat) (os : List (BucketKey × Nat)) :
    Moves Onward (creditBuckets total outstanding os) := by
  induction os with
  | nil => exact .pure ()
  | cons e os ih =>
    unfold creditBuckets creditBucket
    refine .bind (.bind (.orFail _) fun _ => .ite (.pure ()) fun x => ?_) fun _ => ih
    rw [get_bind]
    exact creditView_onward _ _ _ x

theorem syncRecovery_onward (sp : Nat) (d : Direction) (toRecovery residual p : Nat) :
    Moves Onward (syncRecovery sp d toRecovery residual p) := by
  refine .ite (.bind (.orFail _) fun _ x => ?_) (.pure ())
  unfold distributeRecoveryProfit
  rw [get_bind]
  exact Moves.bind (.orFail _) (fun _ => .ite (.pure ()) (creditBuckets_onward _ _ _)) x

theorem syncActive_onward (sp : Nat) (d : Direction) (inflow before : Nat) :
    Moves Onward (syncActive sp d inflow before) :=
  .ite (forActive_onward _ (gain_terms _) _ _ _) (.pure ())

theorem syncLoss_onward (sp : Nat) (d : Direction) (outflow before : Nat) :
    Moves Onward (syncLoss sp d outflow before) :=
  .ite (forActive_onward _ (lose_terms _ _) _ _ _) (.pure ())

theorem applyPoolSync_onward (ev : PoolSyncEvent) : Moves Onward (applyPoolSync ev) :=
  .bind (syncActive_onward _ _ _ _) fun _ => .bind (syncRecovery_onward _ _ _ _ _) fun _ =>
    .bind (syncActive_onward _ _ _ _) fun _ => .bind (syncRecovery_onward _ _ _ _ _) fun _ =>
    .bind (.orFail _) fun _ => .bind (.orFail _) fun _ =>
    .bind (syncLoss_onward _ _ _ _) fun _ => syncLoss_onward _ _ _ _

theorem joinBucket_onward (key : BucketKey) (fresh : BucketView) (shares notional : Nat) :
    Moves Onward (joinBucket key fresh shares notional) := by
  intro x
  unfold joinBucket
  rw [get_bind]
  exact Moves.bind (putBucket_onward _ _) (fun _ => .bind (.orFail _) fun _ =>
    .bind (putBucket_onward _ _) fun _ => .bind (.orFail _) fun _ => putBucket_onward _ _) x

theorem applyRotate_onward (ev : ActiveRotatedToRecoveryEvent) : Moves Onward (applyRotate ev) :=
  .bind (subPoolMut_onward _) fun _ => .bind (putSubPool_onward _ _) fun _ =>
    .bind (.orFail _) fun _ => .bind (putSubPool_onward _ _) fun _ =>
    .bind (forPositions_onward _ (migrateView_terms _ _)) fun _ => joinBucket_onward _ _ _ _

theorem burnFromBucket_onward (key : BucketKey) (shares notional value : Nat) :
    Moves Onward (burnFromBucket key shares notional value) := by
  intro x
  unfold burnFromBucket
  rw [get_bind]
  cases x.buckets.get? key with
  | none => exact refl_of Onward x
  | some bucket =>
    exact Moves.bind (.orFail _) (fun _ => .ite (eraseBucket_onward _) (putBucket_onward _ _)) x

theorem burnRecovery_onward (sp : Nat) (d : Direction) (tick : Option Int) (reason : String)
    (shares notional value : Nat) :
    Moves Onward (burnRecovery sp d tick reason shares notional value) := by
  refine .ite ?_ (.pure ())
  cases tick with
  | none => exact .throw _
  | some tick => exact burnFromBucket_onward _ _ _ _

theorem openPositionOf_onward (id : Nat) (reason : String) :
    Moves Onward (openPositionOf id reason) := by
  intro x
  unfold openPositionOf
  rw [get_bind]
  cases x.positions.get? id with
  | none => exact refl_of Onward x
  | some pos => exact Moves.bind (.orFail _) (fun _ => .pure _) x

theorem closeView_onward {pos : PositionView} (h : x.termsOf id = some pos.terms)
    (active recovery : Nat) : Onward x (final (closeView id pos active recovery x)) := by
  refine Moves.bind_at (Moves.orFail _ x) fun a x' ha => ?_
  obtain ⟨-, rfl⟩ := orFail_run_ok.mp ha
  have hput : Onward x (final (putPosition { pos with activeShares := a } id x)) :=
    putPosition_onward h
  refine Moves.bind_at hput fun _ x' hx' => ?_
  rw [hx'] at hput
  have hterms : x'.termsOf = x.termsOf := hput.terms
  refine Moves.bind_at (Moves.orFail _ _) fun r x'' hr => ?_
  obtain ⟨-, rfl⟩ := orFail_run_ok.mp hr
  refine putPosition_onward ?_
  rw [hterms]
  exact h

theorem close_onward (sp id : Nat) (d : Direction) (open? close? : String)
    (active shares notional value : Nat) :
    Moves Onward (do
      let pos ← openPositionOf id open?
      burnRecovery sp d pos.recoveryBucketTick close? shares notional value
      closeView id pos active shares) := by
  intro x
  refine Moves.bind_at (openPositionOf_onward _ _ x) fun pos x' hpos => ?_
  obtain ⟨rfl, hget, -⟩ := openPositionOf_ok hpos
  refine Moves.bind_at (burnRecovery_onward _ _ _ _ _ _ _ _) fun u x' hx' => ?_
  refine closeView_onward ?_ _ _
  rw [((burnRecovery_onward _ _ _ _ _ _ _).of_ok hx').terms]
  exact termsOf_of_get? hget

theorem claim_onward (ev : DormantRecoveryClaimedEvent) :
    Moves Onward (applyClaimRecovery ev) := by
  intro x
  refine Moves.bind_at (openPositionOf_onward _ _ x) fun pos x' hpos => ?_
  obtain ⟨rfl, hget, -⟩ := openPositionOf_ok hpos
  refine Moves.bind_at (burnFromBucket_onward _ _ _ _ _) fun u x' hx' => ?_
  have hburn := (burnFromBucket_onward _ _ _ _).of_ok hx'
  refine Moves.bind_at (Moves.orFail _ _) fun r x'' hr => ?_
  obtain ⟨-, rfl⟩ := orFail_run_ok.mp hr
  refine putPosition_onward ?_
  rw [hburn.terms]
  exact (termsOf_of_get? hget).trans rfl

theorem applyOpen_onward (ev : PositionOpenedEvent) (x : IndexerState) :
    let x' := final (applyOpen ev x)
    (∀ id, x'.termsOf id = if id = ev.positionId then
      some (ev.subPoolId, ev.principal, ev.notional) else x.termsOf id) ∧
    x'.Viewed ev.subPoolId ∧ ∀ sp, x.Viewed sp → x'.Viewed sp := by
  intro x'
  have hput : ∀ pos : PositionView, pos.terms = (ev.subPoolId, ev.principal, ev.notional) → ∀ id,
      (IndexerState.mk (x.positions.insert ev.positionId pos) x.buckets x.subPools).termsOf id
        = if id = ev.positionId then some (ev.subPoolId, ev.principal, ev.notional)
          else x.termsOf id := by
    intro pos hpos id
    simp only [termsOf, OrdMap.get?_insert]
    split_ifs
    · exact congrArg some hpos
    · rfl
  have hseen : ∀ y : IndexerState, ∃ view y', subPoolMut ev.subPoolId y = .ok view y' ∧
      y'.Viewed ev.subPoolId := by
    intro y
    unfold subPoolMut
    cases hv : y.subPools.get? ev.subPoolId with
    | some view => exact ⟨view, y, rfl, by rw [Viewed, hv]; rfl⟩
    | none => exact ⟨.default, _, rfl, by simp [Viewed]⟩
  have hrun : ∃ y, Onward (IndexerState.mk (x.positions.insert ev.positionId {
      positionId := ev.positionId
      subPoolId := ev.subPoolId
      direction := ev.direction
      principal := ev.principal
      notional := ev.notional
      activeShares := ev.sharesMinted
      recoveryShares := 0
      recoveryBucketTick := none
      activeGeneration := ev.activeGeneration
      lockedLoss := 0
      realizedProfitBalance := 0
      closed := false }) x.buckets x.subPools) y ∧ y.Viewed ev.subPoolId ∧ Onward y x' := by
    obtain ⟨view, y, hy, hviewed⟩ := hseen _
    refine ⟨y, (subPoolMut_onward _).of_ok hy, hviewed, ?_⟩
    have hx' : x' = final ((if (view.series ev.direction).activeGeneration < ev.activeGeneration
        then putSubPool ev.subPoolId (view.setSeries ev.direction { view.series ev.direction with
          activeGeneration := ev.activeGeneration })
        else return () : IndexM Unit) y) := by
      rw [show x' = final (applyOpen ev x) from rfl, applyOpen, putPosition_bind, bind_of_ok hy]
    rw [hx']
    exact Moves.ite (putSubPool_onward _ _) (.pure ()) y
  obtain ⟨y, hfirst, hviewed, hlast⟩ := hrun
  refine ⟨fun id => ?_, hlast.viewed _ hviewed, fun sp hsp => ?_⟩
  · rw [hlast.terms, hfirst.terms]
    exact hput _ rfl id
  · exact hlast.viewed sp (hfirst.viewed sp hsp)

theorem apply_onward {event : EngineEvent} (h : event.opens = none) :
    Moves Onward (apply event) := by
  cases event with
  | poolSync ev => exact applyPoolSync_onward ev
  | positionOpened ev => cases h
  | positionClosed ev => exact close_onward _ _ _ _ _ _ _ _ _
  | positionForceClosed ev => exact close_onward _ _ _ _ _ _ _ _ _
  | dormantRecoveryClaimed ev => exact claim_onward ev
  | activeRotatedToRecovery ev => exact applyRotate_onward ev
  | dustHarvested ev => exact .pure ()
  | dormantBucketPendingApplied ev => exact .pure ()

def Listed (x : IndexerState) : Prop := ∀ id sp, x.owner id = some sp → x.Viewed sp

theorem apply_listed (event : EngineEvent) (h : Listed x) : Listed (final (apply event x)) := by
  have hviewed : (∀ sp, x.Viewed sp → (final (apply event x)).Viewed sp) ∧
      (event.opens ≠ none → (final (apply event x)).Viewed event.subPoolId) := by
    by_cases ho : event.opens = none
    · exact ⟨((apply_onward ho) x).viewed, fun hne => absurd ho hne⟩
    · cases event with
      | positionOpened ev =>
        obtain ⟨-, hnew, hold⟩ := applyOpen_onward ev x
        exact ⟨hold, fun _ => hnew⟩
      | poolSync ev => exact absurd rfl ho
      | positionClosed ev => exact absurd rfl ho
      | positionForceClosed ev => exact absurd rfl ho
      | dormantRecoveryClaimed ev => exact absurd rfl ho
      | activeRotatedToRecovery ev => exact absurd rfl ho
      | dustHarvested ev => exact absurd rfl ho
      | dormantBucketPendingApplied ev => exact absurd rfl ho
  intro id sp hid
  rw [apply_owner] at hid
  split_ifs at hid with ho
  · cases hid
    exact hviewed.2 (by simp [ho])
  · exact hviewed.1 sp (h id sp hid)

end Indexer
end MoleFinance
