import MoleFinance.Runtime.Upkeep
import MoleFinance.Keeper.Hints

/-! The keeper on an account runtime: what the scheduler sees of it, what each planned action does
to it, and which buckets a plan serves. -/
namespace MoleFinance
open MoleMath Call Trace

namespace Runtime

def DormantBucketAccount.snapshot (key : BucketKey) (a : DormantBucketAccount) :
    BucketSnapshot where
  subPoolId := key.subPoolId
  direction := key.direction
  tick := key.tick
  anchorPrice := a.record.anchorPrice
  totalRecoveryShares := a.record.totalRecoveryShares
  totalRecoveryNotional := a.record.totalRecoveryNotional
  accruedValue := a.record.accruedValue
  positionCount := a.record.positionCount
  lastAppliedIndex := a.record.lastAppliedIndex

namespace ChainRuntime
variable {x y : ChainRuntime} {id slot : Nat} {d : Direction} {tick : Int}

/-- Long buckets before short ones, each in tick order. -/
def view (x : ChainRuntime) : KeeperChainView where
  subPoolIds := x.subPools.keys
  buckets id := (x.bucketsOf id .long).entries.map (fun e => e.2.snapshot e.1) ++
    (x.bucketsOf id .short).entries.map (fun e => e.2.snapshot e.1)
  ledger id d := (x.ledgers.get? (ledgerKey id d)).map (fun a =>
    ⟨id, d, a.ledger.nextEventIndex, 0⟩)

theorem mem_view {b : BucketSnapshot} : b ∈ x.view.buckets id ↔ ∃ d tick a,
    x.buckets.get? (bucketKey id d tick) = some a ∧ a.snapshot (bucketKey id d tick) = b := by
  have hside : ∀ d, b ∈ (x.bucketsOf id d).entries.map (fun e => e.2.snapshot e.1) ↔ ∃ tick a,
      x.buckets.get? (bucketKey id d tick) = some a ∧ a.snapshot (bucketKey id d tick) = b := by
    intro d
    simp only [List.mem_map, Prod.exists, ← OrdMap.get?_eq_some, bucketsOf, OrdMap.get?_filter,
      Option.filter_eq_some_iff, decide_eq_true_eq]
    constructor
    · rintro ⟨key, a, ⟨ha, rfl, rfl⟩, rfl⟩
      exact ⟨BucketKey.tick key, a, ha, rfl⟩
    · rintro ⟨tick, a, ha, rfl⟩
      exact ⟨_, a, ⟨ha, rfl, rfl⟩, rfl⟩
  simp only [view, List.mem_append, hside]
  constructor
  · rintro (h | h)
    · exact ⟨.long, h⟩
    · exact ⟨.short, h⟩
  · rintro ⟨d, h⟩
    cases d with
    | long => exact .inl h
    | short => exact .inr h

theorem view_shows (x : ChainRuntime) (key : BucketKey) :
    x.view.shows key = x.buckets.contains key := by
  rw [Bool.eq_iff_iff, KeeperChainView.shows, List.any_eq_true, OrdMap.contains_iff]
  constructor
  · rintro ⟨b, hb, hmatch⟩
    obtain ⟨d, tick, a, ha, rfl⟩ := mem_view.mp hb
    simp only [Bool.and_eq_true, beq_iff_eq] at hmatch
    refine ⟨a, ?_⟩
    have hkey : bucketKey (BucketKey.subPoolId key) d tick = key :=
      congrArg₂ (bucketKey _) hmatch.1 hmatch.2
    exact hkey ▸ ha
  · rintro ⟨a, ha⟩
    refine ⟨a.snapshot key, mem_view.mpr ⟨BucketKey.direction key, BucketKey.tick key, a, ha, rfl⟩,
      ?_⟩
    simp [DormantBucketAccount.snapshot]

theorem Indexed.not_faulty (h : x.Indexed) : ¬ x.view.Faulty := by
  rintro ⟨id, -, b, hb, hfaulty⟩
  obtain ⟨d, tick, a, ha, rfl⟩ := mem_view.mp hb
  obtain ⟨ledger, hl, hle⟩ := h.behind id d tick a ha
  have hview : x.view.ledger id d = some ⟨id, d, ledger.ledger.nextEventIndex, 0⟩ := by
    simp only [view, hl, Option.map_some]
  simp only [BucketSnapshot.isFaulty] at hfaulty
  have hd : (a.snapshot (bucketKey id d tick)).direction = d := rfl
  rw [hd, hview] at hfaulty
  exact absurd hle (Nat.not_le.mpr (of_decide_eq_true hfaulty))

end ChainRuntime
end Runtime

namespace Scheduler
variable {config : SchedulerConfig} {view : KeeperChainView} {s : Scheduler} {a : KeeperAction}

theorem mem_planBuckets {ledger : Direction → Option LedgerSnapshot} {bs : List BucketSnapshot}
    {actions : List KeeperAction} (h : planBuckets config ledger bs = .ok actions) :
    a ∈ actions ↔
      ∃ b ∈ bs, ∃ own, planBucket config (ledger b.direction) b = .ok own ∧ a ∈ own := by
  induction bs generalizing actions with
  | nil =>
    cases h
    simp
  | cons b bs ih =>
    obtain ⟨own, hown, h⟩ := except_bind_ok.mp h
    obtain ⟨rest, hrest, h⟩ := except_bind_ok.mp h
    cases h
    rw [List.mem_append, ih hrest, List.exists_mem_cons_iff, hown]
    simp

theorem mem_planSubPools {ids : List Nat} {actions : List KeeperAction}
    (h : planSubPools config view ids = .ok actions) :
    a ∈ actions ↔ ∃ id ∈ ids, ∃ b ∈ view.buckets id, ∃ own,
      planBucket config (view.ledger id b.direction) b = .ok own ∧ a ∈ own := by
  induction ids generalizing actions with
  | nil =>
    cases h
    simp
  | cons id ids ih =>
    obtain ⟨own, hown, h⟩ := except_bind_ok.mp h
    obtain ⟨rest, hrest, h⟩ := except_bind_ok.mp h
    cases h
    rw [List.mem_append, ih hrest, List.exists_mem_cons_iff, mem_planBuckets hown]

def Calls (config : SchedulerConfig) (view : KeeperChainView) (a : KeeperAction) : Prop :=
  ∃ id ∈ view.subPoolIds, ∃ b ∈ view.buckets id, ∃ own,
    planBucket config (view.ledger id b.direction) b = .ok own ∧ a ∈ own

theorem capped_sublist (config : SchedulerConfig) (actions : List KeeperAction) :
    (capped config actions).Sublist actions := by
  unfold capped
  split_ifs
  · exact List.take_sublist _ _
  · exact List.Sublist.refl _

theorem capped_eq_nil {actions : List KeeperAction} :
    capped config actions = [] ↔ actions = [] := by
  unfold capped
  split_ifs with hcap
  · rw [List.take_eq_nil_iff]
    exact or_iff_right hcap.ne'
  · rfl

theorem plan_of (hf : ¬ view.Faulty) (order : HintOrder) : ∃ actions,
    s.plan order view = .ok (actions, s.withoutEmitted view) ∧
      (∀ a ∈ actions, a ∈ s.emitted order view ∨ Calls s.config view a) ∧
      actions.countP (fun a => a.initKey.isSome) ≤ (s.emitted order view).length ∧
      (actions = [] ↔ s.emitted order view = [] ∧ ∀ a, ¬ Calls s.config view a) := by
  cases planSubPools_cases s.config view view.subPoolIds with
  | inl h => exact absurd h.1 hf
  | inr h =>
    obtain ⟨-, base, hbase, hroutine, -⟩ := h
    have hcalls : ∀ a, a ∈ base ↔ Calls s.config view a := fun a => mem_planSubPools hbase
    have hperm := List.mergeSort_perm (base ++ s.emitted order view)
      (fun a b => decide (b.priority ≤ a.priority))
    refine ⟨capped s.config ((base ++ s.emitted order view).mergeSort
      (fun a b => decide (b.priority ≤ a.priority))), ?_, fun a ha => ?_, ?_, ?_⟩
    · simp only [plan, hbase, ok_bind, foldl_erase_emitted]
      rfl
    · have hmem := hperm.mem_iff.mp ((capped_sublist s.config _).subset ha)
      rw [List.mem_append, hcalls] at hmem
      exact hmem.symm
    · refine ((capped_sublist s.config _).countP_le).trans ?_
      have hnone : base.countP (fun a => a.initKey.isSome) = 0 :=
        List.countP_eq_zero.mpr fun a ha => by simp [hroutine a ha]
      rw [hperm.countP_eq, List.countP_append, hnone, Nat.zero_add]
      exact List.countP_le_length
    · refine capped_eq_nil.trans ?_
      have hnil : ∀ as : List KeeperAction,
        as.mergeSort (fun a b => decide (b.priority ≤ a.priority))
          = [] ↔ as = [] := fun as =>
        ⟨fun h => (List.Perm.nil_eq (h ▸ List.mergeSort_perm as _)).symm,
          fun h => by rw [h, List.mergeSort_nil]⟩
      refine (hnil _).trans (List.append_eq_nil_iff.trans (and_comm.trans ?_))
      refine and_congr_right fun _ => ?_
      simp only [← hcalls]
      exact List.eq_nil_iff_forall_not_mem

end Scheduler
end MoleFinance
