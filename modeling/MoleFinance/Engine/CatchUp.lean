import MoleFinance.Engine.Exit
import MoleFinance.Engine.Ring

/-! How far a bucket lags behind its ledger, and what `pre_sync_dormant_bucket` does about it. -/
namespace MoleFinance
open MoleMath Call Trace

namespace SubPool
variable {s : SubPool} {d e : Direction} {tick j : Int} {b : DormantBucket}

/-- Ledger entries the bucket at `tick` has still to apply. -/
def lag (s : SubPool) (d : Direction) (tick : Int) : Nat :=
  match (s.side d).dormant.get tick with
  | none => 0
  | some b => (s.side d).dormant.nextEventIndex - b.lastAppliedIndex

theorem lag_of (h : (s.side d).dormant.get tick = some b) :
    s.lag d tick = (s.side d).dormant.nextEventIndex - b.lastAppliedIndex := by
  rw [lag, h]

def settled (s : SubPool) (d : Direction) (tick : Int) : SubPool :=
  s.setSide d { s.side d with dormant := (s.side d).dormant.settle tick }

theorem settled_side (s : SubPool) (d e : Direction) (tick : Int) :
    ((s.settled d tick).side e).dormant
      = if e = d then (s.side e).dormant.settle tick else (s.side e).dormant := by
  unfold settled
  rw [side_setSide_eq]
  split_ifs with he
  · rw [he]
  · rfl

theorem settled_lag (s : SubPool) (d e : Direction) (tick j : Int) :
    (s.settled d tick).lag e j = if e = d ∧ j = tick then 0 else s.lag e j := by
  unfold lag
  rw [settled_side]
  by_cases he : e = d
  · subst he
    by_cases hj : j = tick
    · subst hj
      simp only [if_true, and_self, DormantStore.get, DormantStore.settle_get?,
        DormantStore.settle_next]
      cases (s.side e).dormant.buckets.get? j with
      | none => rfl
      | some b => simp [DormantStore.replayed]
    · simp [DormantStore.get, DormantStore.settle_get?, hj]
  · simp [he]

theorem settled_get? (s : SubPool) (d e : Direction) (tick j : Int) :
    ((s.settled d tick).side e).dormant.buckets.get? j = none ↔
      (s.side e).dormant.buckets.get? j = none := by
  rw [settled_side]
  split_ifs with he
  · rw [DormantStore.settle_get?]
    split_ifs with hj
    · rw [Option.map_eq_none_iff, hj]
    · rfl
  · rfl

theorem settled_moved (h : s.Sound) (d : Direction) (tick : Int) :
    Moved s (s.settled d tick) 0 0 := by
  have hu := DormantStore.settle_upkeep (h d).1 tick
  refine .setSide h hu.inv (hu.direction_eq.trans (h d).2) ?_ ?_
  · simp only [Side.value, hu.funds_same]
  · exact Nat.add_le_add_left hu.window_le _

end SubPool

section CatchUp
variable {market : MarketParams} {w : World} {d : Direction} {tick : Int} {slot : Nat}
  {b : DormantBucket}

theorem World.Inv.settled_check (h : w.Inv) (d : Direction) (tick : Int) :
    checkSubpoolInvariants (w.subPool.settled d tick) = .ok () := by
  have hm := SubPool.settled_moved h.sound d tick
  have hu := DormantStore.settle_upkeep (h.sound d).1 tick
  have hshared : Shared (w.subPool.settled d tick) w.positions :=
    h.shared.setSide_same ⟨rfl, rfl, rfl, rfl, rfl, hu.holdings_eq⟩
  refine check_of hm.sound hshared (fun e => ?_) ?_ ?_
  · have hz := h.zeroIff e
    unfold SubPool.settled
    rw [SubPool.side_setSide_eq]
    split_ifs with he
    · exact he ▸ hz
    · exact hz
  · have hv := hm.value_eq
    have hlt := h.value_lt
    omega
  · exact (hm.reserve_le.trans (Nat.le_refl _)).trans_lt h.reserve_lt

theorem preSync_of (h : w.Inv) (hb : (w.subPool.side d).dormant.get tick = some b)
    (hschema : market.schemaVersion = schemaVersionCurrent) (hpaused : market.paused = false)
    (hbudget : w.subPool.lag d tick ≤ market.maxPendingApplyPerTx) :
    ∃ out, preSyncDormantBucket market w.subPool d tick slot
      = .ok (w.subPool.settled d tick, out) := by
  have hinv := (h.sound d).1
  have hok := hinv.bucketOk tick b hb
  have hrun : ∃ n, commit (DormantStore.applyPendingToBucket tick) (w.subPool.side d).dormant
      = .ok ((w.subPool.side d).dormant.settle tick, n) := by
    obtain ⟨n, hn⟩ | ⟨-, hbig⟩ := DormantStore.applyPendingToBucket_cases hinv tick
    · exact ⟨n, commit_ok.mpr hn⟩
    · exact absurd (bounded_of_value h.value_lt d) hbig
  obtain ⟨n, hrun⟩ := hrun
  have hafter : ((w.subPool.side d).dormant.settle tick).get tick
      = some ((w.subPool.side d).dormant.replayed b) := by
    have hb' : (w.subPool.side d).dormant.buckets.get? tick = some b := hb
    rw [DormantStore.get, DormantStore.settle_get?, if_pos rfl, hb', Option.map_some]
  have hcheck := h.settled_check d tick
  rw [SubPool.lag_of hb] at hbudget
  unfold SubPool.settled at hcheck
  unfold preSyncDormantBucket assertSchemaVersion
  rw [ensure_of hschema, ok_bind, ensure_of hpaused, ok_bind]
  simp only [getBucket, hb, ok_bind, backlog, ensure_of hok.le_next, pure_bind]
  rw [ensure_of hbudget, ok_bind, hrun, ok_bind]
  simp only [hafter, ok_bind]
  rw [ensure_of (by simp [DormantStore.replayed])]
  simp only [ok_bind, pure_bind]
  rw [hcheck, ok_bind]
  exact ⟨_, rfl⟩

theorem preSync_within {s' : SubPool} {out : PreSyncOutcome} (h : w.Inv)
    (hr : preSyncDormantBucket market w.subPool d tick slot = .ok (s', out)) :
    market.schemaVersion = schemaVersionCurrent ∧
      w.subPool.lag d tick ≤ market.maxPendingApplyPerTx ∧ s' = w.subPool.settled d tick := by
  obtain ⟨n, dormant, hd, hs', -⟩ := preSync_ok hr
  unfold preSyncDormantBucket at hr
  obtain ⟨_, hschema, hr⟩ := except_bind_ok.mp hr
  obtain ⟨_, -, hr⟩ := except_bind_ok.mp hr
  obtain ⟨before, hbefore, hr⟩ := except_bind_ok.mp hr
  obtain ⟨pending, hpending, hr⟩ := except_bind_ok.mp hr
  obtain ⟨_, hbudget, -⟩ := except_bind_ok.mp hr
  obtain ⟨_, -, hpending⟩ := except_bind_ok.mp hpending
  cases hpending
  refine ⟨ensure_ok.mp hschema, ?_, ?_⟩
  · unfold getBucket at hbefore
    unfold SubPool.lag
    cases hg : (w.subPool.side d).dormant.get tick with
    | none => exact Nat.zero_le _
    | some b =>
      rw [hg] at hbefore
      cases hbefore
      exact ensure_ok.mp hbudget
  · rw [hs', DormantStore.applyPendingToBucket_ok (h.sound d).1 hd]
    rfl

theorem lag_pos_get (h : 0 < w.subPool.lag d tick) :
    ∃ b, (w.subPool.side d).dormant.get tick = some b := by
  unfold SubPool.lag at h
  cases hg : (w.subPool.side d).dormant.get tick with
  | none =>
    rw [hg] at h
    exact absurd h (lt_irrefl 0)
  | some b => exact ⟨b, rfl⟩

theorem World.Inv.settled (h : w.Inv) (d : Direction) (tick : Int) :
    World.Inv { w with subPool := w.subPool.settled d tick } :=
  h.withSubPool (SubPool.settled_moved h.sound d tick)
    (h.shared.setSide_same ⟨rfl, rfl, rfl, rfl, rfl,
      (DormantStore.settle_upkeep (h.sound d).1 tick).holdings_eq⟩)
    (h.settled_check d tick) (.inl (SubPool.setSide_lastPrice _ _ _))

/-- One call takes the backlog down by the budget exactly when the budget covers it. -/
theorem preSync_progress_iff (h : w.Inv) (hpaused : market.paused = false)
    (hlag : 0 < w.subPool.lag d tick) :
    (∃ s' out, preSyncDormantBucket market w.subPool d tick slot = .ok (s', out) ∧
      s'.lag d tick
        = w.subPool.lag d tick - min (w.subPool.lag d tick) market.maxPendingApplyPerTx) ↔
      market.schemaVersion = schemaVersionCurrent ∧
        w.subPool.lag d tick ≤ market.maxPendingApplyPerTx := by
  constructor
  · rintro ⟨s', out, hr, -⟩
    obtain ⟨hschema, hle, -⟩ := preSync_within h hr
    exact ⟨hschema, hle⟩
  · rintro ⟨hschema, hle⟩
    obtain ⟨b, hb⟩ := lag_pos_get hlag
    obtain ⟨out, hr⟩ := preSync_of h hb hschema hpaused hle
    refine ⟨_, out, hr, ?_⟩
    rw [SubPool.settled_lag, if_pos ⟨rfl, rfl⟩, Nat.min_eq_left hle, Nat.sub_self]

def preSyncTimes (market : MarketParams) (d : Direction) (tick : Int) (slot : Nat) :
    Nat → SubPool → Except ClearingError SubPool
  | 0, s => .ok s
  | n + 1, s => do
    let (s, _) ← preSyncDormantBucket market s d tick slot
    preSyncTimes market d tick slot n s

theorem preSyncTimes_progress_iff (h : w.Inv) (hpaused : market.paused = false)
    (hbudget : 0 < market.maxPendingApplyPerTx) (hlag : 0 < w.subPool.lag d tick) :
    (∃ s', preSyncTimes market d tick slot
        ((w.subPool.lag d tick + market.maxPendingApplyPerTx - 1) / market.maxPendingApplyPerTx)
        w.subPool = .ok s' ∧ s'.lag d tick = 0) ↔
      market.schemaVersion = schemaVersionCurrent ∧
        w.subPool.lag d tick ≤ market.maxPendingApplyPerTx := by
  constructor
  · rintro ⟨s', hr, -⟩
    obtain ⟨n, hn⟩ : ∃ n, (w.subPool.lag d tick + market.maxPendingApplyPerTx - 1)
        / market.maxPendingApplyPerTx = n + 1 :=
      Nat.exists_eq_succ_of_ne_zero (Nat.div_pos (by omega) hbudget).ne'
    rw [hn] at hr
    obtain ⟨⟨s1, out⟩, hr, -⟩ := except_bind_ok.mp hr
    obtain ⟨hschema, hle, -⟩ := preSync_within h hr
    exact ⟨hschema, hle⟩
  · rintro ⟨hschema, hle⟩
    have hone : (w.subPool.lag d tick + market.maxPendingApplyPerTx - 1)
        / market.maxPendingApplyPerTx = 1 := by
      rw [Nat.div_eq_iff hbudget]
      omega
    obtain ⟨b, hb⟩ := lag_pos_get hlag
    obtain ⟨out, hr⟩ : ∃ out, preSyncDormantBucket market w.subPool d tick slot
        = .ok (w.subPool.settled d tick, out) := preSync_of h hb hschema hpaused hle
    refine ⟨w.subPool.settled d tick, ?_, ?_⟩
    · rw [hone, preSyncTimes, hr, ok_bind]
      rfl
    · rw [SubPool.settled_lag, if_pos ⟨rfl, rfl⟩]

theorem stuck_lag {m : Nat} (h : w.Inv) (hs : (w.subPool.side d).dormant.Stuck m) :
    ∃ tick, m ≤ w.subPool.lag d tick := by
  obtain ⟨tick, b, hb, hle⟩ := hs.behind
  refine ⟨tick, ?_⟩
  have hwindow := (h.sound d).1.window
  have hfull := hs.full
  rw [SubPool.lag_of hb]
  omega

def catchUpCalls (slot : Nat) (targets : List (Direction × Int)) : List EngineOp :=
  targets.map fun t => .preSync t.1 t.2 slot

theorem step_preSync (h : w.Inv) (hb : (w.subPool.side d).dormant.get tick = some b)
    (hschema : market.schemaVersion = schemaVersionCurrent) (hpaused : market.paused = false)
    (hbudget : w.subPool.lag d tick ≤ market.maxPendingApplyPerTx) :
    ∃ out, EngineOp.step (market, .preSync d tick slot) w
      = (.done (.preSynced out), { w with subPool := w.subPool.settled d tick }) := by
  obtain ⟨out, hr⟩ : ∃ out, preSyncDormantBucket market w.subPool d tick slot
      = .ok (w.subPool.settled d tick, out) := preSync_of h hb hschema hpaused hbudget
  refine ⟨out, ?_⟩
  simp only [EngineOp.step, EngineOp.call, hr]
  rfl

/-- Calls on buckets within the budget all go through, and each leaves its bucket caught up. -/
theorem catchUpCalls_run (slot : Nat) (hschema : market.schemaVersion = schemaVersionCurrent)
    (hpaused : market.paused = false) (targets : List (Direction × Int)) {w : World} (h : w.Inv)
    (hle : ∀ d tick, w.subPool.lag d tick ≤ market.maxPendingApplyPerTx)
    (hlive : ∀ t ∈ targets, (w.subPool.side t.1).dormant.buckets.get? t.2 ≠ none) :
    let r := run (fun op => EngineOp.step (market, op)) (catchUpCalls slot targets) w
    (∀ answer ∈ r.1, ∃ out, answer = .done (.preSynced out)) ∧ r.2.Inv ∧
      ∀ d tick, r.2.subPool.lag d tick
        = if (d, tick) ∈ targets then 0 else w.subPool.lag d tick := by
  induction targets generalizing w with
  | nil => exact ⟨by simp [catchUpCalls, run], h, fun d tick => by simp [catchUpCalls, run]⟩
  | cons t targets ih =>
    obtain ⟨d, tick⟩ := t
    obtain ⟨b, hb⟩ := Option.ne_none_iff_exists'.mp (hlive _ List.mem_cons_self)
    obtain ⟨out, hstep⟩ : ∃ out, EngineOp.step (market, .preSync d tick slot) w
        = (.done (.preSynced out), { w with subPool := w.subPool.settled d tick }) :=
      step_preSync h hb hschema hpaused (hle d tick)
    have hlag := w.subPool.settled_lag d
    obtain ⟨hans, hinv, hall⟩ := ih (h.settled d tick)
      (fun e j => by
        rw [hlag]
        split_ifs
        · exact Nat.zero_le _
        · exact hle e j)
      (fun t ht he => hlive t (List.mem_cons_of_mem _ ht)
        ((w.subPool.settled_get? d t.1 tick t.2).mp he))
    simp only [catchUpCalls, List.map_cons, run, hstep] at hans hinv hall ⊢
    refine ⟨?_, hinv, fun e j => ?_⟩
    · intro answer hm
      obtain rfl | hm := List.mem_cons.mp hm
      · exact ⟨out, rfl⟩
      · exact hans answer hm
    · rw [hall, hlag]
      by_cases hmem : (e, j) ∈ targets
      · simp [hmem]
      · by_cases hej : e = d ∧ j = tick
        · simp [hej]
        · simp [hmem, hej]

theorem lag_le_ledger (h : w.Inv) (d : Direction) (tick : Int) :
    w.subPool.lag d tick ≤ (w.subPool.side d).dormant.ledger.length := by
  have hinv := (h.sound d).1
  unfold SubPool.lag
  cases hg : (w.subPool.side d).dormant.get tick with
  | none => exact Nat.zero_le _
  | some b =>
    have hgc := (hinv.bucketOk tick b hg).gc_le
    have hw := hinv.window
    simp only
    omega

/-- With every bucket caught up no ring is stuck, so no call runs out of room. -/
theorem caught_up_spares (h : w.Inv) (hm : 0 < market.maxDistributionLedgerSize)
    (hl : w.subPool.Within market.maxDistributionLedgerSize)
    (hlag : ∀ d tick, w.subPool.lag d tick = 0) (op : EngineOp) :
    op.call market w ≠ some (.error .ledgerCapacityExceeded) := by
  have hfree : ∀ d, ¬ (w.subPool.side d).dormant.Stuck market.maxDistributionLedgerSize := by
    intro d hs
    obtain ⟨tick, hle⟩ := stuck_lag h hs
    rw [hlag] at hle
    omega
  rw [ne_eq, EngineOp.call_full_iff h hm hl]
  rintro ⟨envelope, -, hs⟩
  obtain ⟨demands, -, hs | hs⟩ := hs.stuck
  · exact hfree .long hs.2
  · exact hfree .short hs.2.2

def SubPool.bucketTargets (s : SubPool) : List (Direction × Int) :=
  s.long.dormant.bucketTicks.map (.long, ·) ++ s.short.dormant.bucketTicks.map (.short, ·)

theorem SubPool.mem_bucketTargets {s : SubPool} {d : Direction} {tick : Int} :
    (d, tick) ∈ s.bucketTargets ↔ (s.side d).dormant.buckets.get? tick ≠ none := by
  have hkeys : ∀ store : DormantStore, tick ∈ store.bucketTicks ↔
      store.buckets.get? tick ≠ none := by
    intro store
    rw [DormantStore.bucketTicks, OrdMap.mem_keys, Option.ne_none_iff_exists']
  unfold bucketTargets
  cases d with
  | long => simp [side, hkeys]
  | short => simp [side, hkeys]

end CatchUp

/-- Runs under markets with one ring size, whatever else governance changes. -/
theorem run_inRing {market : MarketParams} {ops : List (MarketParams × EngineOp)}
    (hops : ∀ x ∈ ops, x.1.maxDistributionLedgerSize = market.maxDistributionLedgerSize)
    {w : World} (h : w.InRing market) : (run EngineOp.step ops w).2.InRing market := by
  induction ops generalizing w with
  | nil => exact h
  | cons x ops ih =>
    refine ih (fun y hy => hops y (List.mem_cons_of_mem x hy)) ?_
    have hx := hops x List.mem_cons_self
    have hring : w.InRing x.1 := ⟨h.inv, hx ▸ h.within⟩
    obtain ⟨hinv, hwithin⟩ := hring.step x.2
    exact ⟨hinv, hx ▸ hwithin⟩

/-- Pre-syncing a lagging bucket makes the progress it should exactly when the budget covers the
    whole backlog; when it covers every backlog, one call for each bucket frees both rings. -/
theorem lagging_bucket_iff (market : MarketParams) (hpaused : market.paused = false)
    (hbudget : 0 < market.maxPendingApplyPerTx) (id : Nat) (price : U64) (start : Nat)
    (ops : List (MarketParams × EngineOp))
    (hops : ∀ x ∈ ops, x.1.maxDistributionLedgerSize = market.maxDistributionLedgerSize)
    (w : World) (hw : (run EngineOp.step ops (World.new id price start)).2 = w) (d : Direction)
    (tick : Int) (slot : Nat) (hlag : 0 < w.subPool.lag d tick) :
    ((∃ s' out, preSyncDormantBucket market w.subPool d tick slot = .ok (s', out) ∧
        s'.lag d tick
          = w.subPool.lag d tick - min (w.subPool.lag d tick) market.maxPendingApplyPerTx) ↔
      market.schemaVersion = schemaVersionCurrent ∧
        w.subPool.lag d tick ≤ market.maxPendingApplyPerTx) ∧
    ((∃ s', preSyncTimes market d tick slot
        ((w.subPool.lag d tick + market.maxPendingApplyPerTx - 1) / market.maxPendingApplyPerTx)
        w.subPool = .ok s' ∧ s'.lag d tick = 0) ↔
      market.schemaVersion = schemaVersionCurrent ∧
        w.subPool.lag d tick ≤ market.maxPendingApplyPerTx) ∧
    (market.schemaVersion = schemaVersionCurrent →
      (∀ e j, w.subPool.lag e j ≤ market.maxPendingApplyPerTx) →
      ∃ targets, let r := run (fun op => EngineOp.step (market, op)) (catchUpCalls slot targets) w
        (∀ answer ∈ r.1, ∃ out, answer = .done (.preSynced out)) ∧
        ∀ op : EngineOp, op.call market r.2 ≠ some (.error .ledgerCapacityExceeded)) := by
  have hring : w.InRing market := hw ▸ run_inRing hops (World.new_inRing market id price start)
  refine ⟨preSync_progress_iff hring.inv hpaused hlag,
    preSyncTimes_progress_iff hring.inv hpaused hbudget hlag, fun hschema hle => ?_⟩
  obtain ⟨hans, hinv, hlags⟩ := catchUpCalls_run slot hschema hpaused w.subPool.bucketTargets
    hring.inv hle fun t ht => SubPool.mem_bucketTargets.mp ht
  refine ⟨w.subPool.bucketTargets, hans, fun op => ?_⟩
  have hroom : 0 < market.maxDistributionLedgerSize := by
    have := lag_le_ledger hring.inv d tick
    have := hring.within d
    omega
  have hafter : (run (fun op => EngineOp.step (market, op))
      (catchUpCalls slot w.subPool.bucketTargets) w).2.InRing market :=
    run_preserves (I := World.InRing market) (fun op _ hi => hi.step op) hring
  refine caught_up_spares hinv hroom hafter.within (fun e j => ?_) op
  rw [hlags]
  split_ifs with hmem
  · rfl
  · have hnone : (w.subPool.side e).dormant.get j = none := by
      by_contra hne
      exact hmem (SubPool.mem_bucketTargets.mpr hne)
    rw [SubPool.lag, hnone]

def smallBudget : MarketParams := { smallMarket .lazy with maxPendingApplyPerTx := 1 }

def laggingWorld : World :=
  (run EngineOp.step (skippedBucket.map (smallBudget, ·)) (World.new 0 (amount 0) 0)).2

theorem lagging_beyond_budget :
    ¬ ∀ market : MarketParams, market.paused = false → 0 < market.maxPendingApplyPerTx →
      ∀ (ops : List (MarketParams × EngineOp)),
      (∀ x ∈ ops, x.1.maxDistributionLedgerSize = market.maxDistributionLedgerSize) →
      ∀ w, (run EngineOp.step ops (World.new 0 (amount 0) 0)).2 = w →
      ∀ d tick slot, 0 < w.subPool.lag d tick →
        ∃ s' out, preSyncDormantBucket market w.subPool d tick slot = .ok (s', out) ∧
          s'.lag d tick
            = w.subPool.lag d tick - min (w.subPool.lag d tick) market.maxPendingApplyPerTx := by
  intro h
  obtain ⟨s', out, hr, -⟩ := h smallBudget rfl (by decide) (skippedBucket.map (smallBudget, ·))
    (by simp) laggingWorld rfl .long 90 0 (by decide +kernel)
  have herr : preSyncDormantBucket smallBudget laggingWorld.subPool .long 90 0
      = .error .dormantPendingBudgetExceeded := by decide +kernel
  rw [herr] at hr
  cases hr

def pairBudget : MarketParams := { smallMarket .lazy with maxPendingApplyPerTx := 2 }

theorem laggingWorld_caught_up :
    ∃ s' out, preSyncDormantBucket pairBudget laggingWorld.subPool .long 90 0 = .ok (s', out) ∧
      s'.lag .long 90 = laggingWorld.subPool.lag .long 90
        - min (laggingWorld.subPool.lag .long 90) pairBudget.maxPendingApplyPerTx := by
  have hlag : 0 < laggingWorld.subPool.lag .long 90 := by decide +kernel
  have hle : laggingWorld.subPool.lag .long 90 ≤ pairBudget.maxPendingApplyPerTx := by
    decide +kernel
  have hops : ∀ x ∈ skippedBucket.map (smallBudget, ·),
      x.1.maxDistributionLedgerSize = pairBudget.maxDistributionLedgerSize := by
    intro x hx
    obtain ⟨op, -, rfl⟩ := List.mem_map.mp hx
    rfl
  exact (lagging_bucket_iff pairBudget rfl (by decide) 0 (amount 0) 0 _ hops laggingWorld rfl
    .long 90 0 hlag).1.mpr ⟨rfl, hle⟩

end MoleFinance
