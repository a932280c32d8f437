import MoleFinance.Keeper.Scheduler
import MoleFinance.Lib.Queue
import MoleFinance.Lib.Trace

/-! The life of an init hint: recorded, cancelled, or taken by a plan. -/
namespace MoleFinance
open Call Trace Queue

def KeeperChainView.shows (view : KeeperChainView) (key : BucketKey) : Bool :=
  (view.buckets key.subPoolId).any fun b => b.direction == key.direction && b.tick == key.tick

def KeeperAction.initKey : KeeperAction → Option BucketKey
  | .initDormantBucket subPoolId direction tick _ => some (bucketKey subPoolId direction tick)
  | _ => none

def initAction (key : BucketKey) (rationale : InitRationale) : KeeperAction :=
  .initDormantBucket key.subPoolId key.direction key.tick rationale

theorem initKey_eq_some {a : KeeperAction} {key : BucketKey} :
    a.initKey = some key ↔ ∃ rationale, a = initAction key rationale := by
  cases a with
  | preSyncDormantBucket => simp [KeeperAction.initKey, initAction]
  | closeDormantBucket => simp [KeeperAction.initKey, initAction]
  | initDormantBucket subPoolId direction tick rationale =>
    simp only [KeeperAction.initKey, initAction, Option.some.injEq,
      KeeperAction.initDormantBucket.injEq, exists_and_left, exists_eq', and_true]
    rw [← BucketKey.bucketKey_inj, BucketKey.bucketKey_eta]

/-- What is done with a scheduler between two changes of its configuration. -/
inductive SchedulerOp where
  | recordInitHint (subPoolId : Nat) (direction : Direction) (tick : Int)
      (rationale : InitRationale)
  | cancelInitHint (subPoolId : Nat) (direction : Direction) (tick : Int)
  | plan (order : HintOrder) (view : KeeperChainView)

def SchedulerOp.step (op : SchedulerOp) (s : Scheduler) :
    Option (Except KeeperError (List KeeperAction)) × Scheduler :=
  match op with
  | .recordInitHint id d tick rationale => (none, s.recordInitHint id d tick rationale)
  | .cancelInitHint id d tick => (none, s.cancelInitHint id d tick)
  | .plan order view =>
    match s.plan order view with
    | .ok (actions, s') => (some (.ok actions), s')
    | .error e => (some (.error e), s)

/-- A plan takes the hints it acts on and those whose bucket is there, and no others. -/
structure TakesHints (s s' : Scheduler) (view : KeeperChainView) (actions : List KeeperAction) :
    Prop where
  taken : ∀ key rationale, s.initHints.get? key = some rationale →
    (s'.initHints.get? key = none ↔ initAction key rationale ∈ actions ∨ view.shows key = true)
  kept : ∀ key rationale, s'.initHints.get? key = some rationale →
    s.initHints.get? key = some rationale
  once : (actions.filterMap (·.initKey)).Nodup

/-- The lifetime the scheduler documents, at one call. -/
def SchedulerOp.Documented (op : SchedulerOp) (s : Scheduler) : Prop :=
  let after := (op.step s).2.initHints
  match op with
  | .recordInitHint id d tick rationale =>
    after.get? (bucketKey id d tick) = some rationale ∧
      ∀ key, key ≠ bucketKey id d tick → after.get? key = s.initHints.get? key
  | .cancelInitHint id d tick =>
    after.get? (bucketKey id d tick) = none ∧
      ∀ key, key ≠ bucketKey id d tick → after.get? key = s.initHints.get? key
  | .plan order view =>
    match s.plan order view with
    | .ok (actions, s') => TakesHints s s' view actions
    | .error _ => after = s.initHints

/-- A bucket without a ledger, or ahead of it. -/
def BucketSnapshot.isFaulty (b : BucketSnapshot) (ledger : Option LedgerSnapshot) : Bool :=
  match ledger with
  | none => true
  | some l => decide (l.nextEventIndex < b.lastAppliedIndex)

def KeeperChainView.Faulty (view : KeeperChainView) : Prop :=
  ∃ id ∈ view.subPoolIds, ∃ b ∈ view.buckets id, b.isFaulty (view.ledger id b.direction) = true

/-- A backlog so long that its pre-sync comes before the initialisations. -/
def BucketSnapshot.isUrgent (b : BucketSnapshot) (config : SchedulerConfig)
    (ledger : Option LedgerSnapshot) : Bool :=
  match ledger with
  | none => false
  | some l => decide (config.minPendingForPreSync ≤ l.nextEventIndex - b.lastAppliedIndex ∧
      990000000 ≤ l.nextEventIndex - b.lastAppliedIndex)

def KeeperChainView.urgentCount (view : KeeperChainView) (config : SchedulerConfig) : Nat :=
  (view.subPoolIds.map fun id =>
    (view.buckets id).countP fun b => b.isUrgent config (view.ledger id b.direction)).sum

/-- The plan has room for every hint, and none is for a bucket that is there. -/
def SchedulerOp.Roomy (op : SchedulerOp) (s : Scheduler) : Prop :=
  match op with
  | .plan _ view => view.Faulty ∨
      (∀ key ∈ s.initHints.keys, view.shows key = false) ∧
        (s.config.maxActionsPerPlan = 0 ∨ s.initHints.size = 0 ∨
          view.urgentCount s.config + s.initHints.size ≤ s.config.maxActionsPerPlan)
  | _ => True

/-! The actions for the buckets that are there. -/

def Routine (actions : List KeeperAction) (urgent : Nat) : Prop :=
  (∀ a ∈ actions, a.initKey = none) ∧
    actions.countP (fun a => 1000000000 ≤ a.priority) = urgent

theorem Routine.nil : Routine [] 0 := ⟨by simp, rfl⟩

theorem Routine.append {as bs : List KeeperAction} {m n : Nat} (h : Routine as m)
    (h' : Routine bs n) : Routine (as ++ bs) (m + n) := by
  refine ⟨fun a ha => ?_, ?_⟩
  · cases List.mem_append.mp ha with
    | inl ha => exact h.1 a ha
    | inr ha => exact h'.1 a ha
  · rw [List.countP_append, h.2, h'.2]

namespace Scheduler
variable {config : SchedulerConfig} {view : KeeperChainView}

theorem planBucket_cases (config : SchedulerConfig) (ledger : Option LedgerSnapshot)
    (b : BucketSnapshot) :
    (b.isFaulty ledger = true ∧ ∃ e, planBucket config ledger b = .error e) ∨
      b.isFaulty ledger = false ∧ ∃ actions, planBucket config ledger b = .ok actions ∧
        Routine actions (if b.isUrgent config ledger = true then 1 else 0) := by
  unfold planBucket BucketSnapshot.isFaulty BucketSnapshot.isUrgent
  cases ledger with
  | none => exact .inl ⟨rfl, _, rfl⟩
  | some l =>
    by_cases hahead : l.nextEventIndex < b.lastAppliedIndex
    · simp only [hahead, if_true]
      exact .inl ⟨by simp, _, rfl⟩
    · refine .inr ⟨by simpa using hahead, ?_⟩
      simp only [hahead, if_false]
      by_cases hdue : config.minPendingForPreSync ≤ l.nextEventIndex - b.lastAppliedIndex ∧
          0 < l.nextEventIndex - b.lastAppliedIndex
      · refine ⟨_, if_pos hdue, by simp [KeeperAction.initKey], ?_⟩
        have hu : MoleMath.u64Size = 2 ^ 64 := rfl
        by_cases hurgent : 990000000 ≤ l.nextEventIndex - b.lastAppliedIndex
        · have hprio : 1000000000 ≤ min (10000000 + (l.nextEventIndex - b.lastAppliedIndex))
              (MoleMath.u64Size - 1) := by omega
          simp [KeeperAction.priority, hprio, hdue.1, hurgent]
        · have hprio : ¬ 1000000000 ≤ min (10000000 + (l.nextEventIndex - b.lastAppliedIndex))
              (MoleMath.u64Size - 1) := by omega
          simp [KeeperAction.priority, hprio, hurgent]
      · rw [if_neg hdue]
        have hquiet : ¬ (config.minPendingForPreSync ≤ l.nextEventIndex - b.lastAppliedIndex ∧
            990000000 ≤ l.nextEventIndex - b.lastAppliedIndex) := by omega
        simp only [hquiet, decide_false, Bool.false_eq_true, if_false]
        split_ifs
        · exact ⟨_, rfl, by simp [KeeperAction.initKey], by simp [KeeperAction.priority]⟩
        · exact ⟨_, rfl, Routine.nil⟩

theorem planBuckets_cases (config : SchedulerConfig) (ledger : Direction → Option LedgerSnapshot)
    (bs : List BucketSnapshot) :
    ((∃ b ∈ bs, b.isFaulty (ledger b.direction) = true) ∧
        ∃ e, planBuckets config ledger bs = .error e) ∨
      (∀ b ∈ bs, b.isFaulty (ledger b.direction) = false) ∧
        ∃ actions, planBuckets config ledger bs = .ok actions ∧
          Routine actions (bs.countP fun b => b.isUrgent config (ledger b.direction)) := by
  induction bs with
  | nil => exact .inr ⟨by simp, _, rfl, Routine.nil⟩
  | cons b bs ih =>
    cases planBucket_cases config (ledger b.direction) b with
    | inl h =>
      obtain ⟨hf, e, he⟩ := h
      exact .inl ⟨⟨b, List.mem_cons_self, hf⟩, e, by simp only [planBuckets, he]; rfl⟩
    | inr h =>
      obtain ⟨hf, first, hfirst, hr⟩ := h
      cases ih with
      | inl h =>
        obtain ⟨⟨c, hc, hcf⟩, e, he⟩ := h
        exact .inl ⟨⟨c, List.mem_cons_of_mem b hc, hcf⟩, e, by
          simp only [planBuckets, hfirst, he, ok_bind]
          rfl⟩
      | inr h =>
        obtain ⟨hfs, rest, hrest, hrs⟩ := h
        refine .inr ⟨List.forall_mem_cons.mpr ⟨hf, hfs⟩, first ++ rest, ?_, ?_⟩
        · simp only [planBuckets, hfirst, hrest, ok_bind]
          rfl
        · rw [List.countP_cons, Nat.add_comm]
          exact hr.append hrs

theorem planSubPools_cases (config : SchedulerConfig) (view : KeeperChainView) (ids : List Nat) :
    ((∃ id ∈ ids, ∃ b ∈ view.buckets id, b.isFaulty (view.ledger id b.direction) = true) ∧
        ∃ e, planSubPools config view ids = .error e) ∨
      (∀ id ∈ ids, ∀ b ∈ view.buckets id, b.isFaulty (view.ledger id b.direction) = false) ∧
        ∃ actions, planSubPools config view ids = .ok actions ∧
          Routine actions (ids.map fun id => (view.buckets id).countP fun b =>
            b.isUrgent config (view.ledger id b.direction)).sum := by
  induction ids with
  | nil => exact .inr ⟨by simp, _, rfl, Routine.nil⟩
  | cons id ids ih =>
    cases planBuckets_cases config (view.ledger id) (view.buckets id) with
    | inl h =>
      obtain ⟨hf, e, he⟩ := h
      exact .inl ⟨⟨id, List.mem_cons_self, hf⟩, e, by simp only [planSubPools, he]; rfl⟩
    | inr h =>
      obtain ⟨hf, first, hfirst, hr⟩ := h
      cases ih with
      | inl h =>
        obtain ⟨⟨j, hj, hjf⟩, e, he⟩ := h
        exact .inl ⟨⟨j, List.mem_cons_of_mem id hj, hjf⟩, e, by
          simp only [planSubPools, hfirst, he, ok_bind]
          rfl⟩
      | inr h =>
        obtain ⟨hfs, rest, hrest, hrs⟩ := h
        refine .inr ⟨List.forall_mem_cons.mpr ⟨hf, hfs⟩, first ++ rest, ?_, ?_⟩
        · simp only [planSubPools, hfirst, hrest, ok_bind]
          rfl
        · rw [List.map_cons, List.sum_cons]
          exact hr.append hrs

theorem mem_hintsToEmit {s : Scheduler} {order : HintOrder} {key : BucketKey}
    {rationale : InitRationale} :
    (key, rationale) ∈ s.hintsToEmit order view ↔
      s.initHints.get? key = some rationale ∧ view.shows key = false := by
  rw [hintsToEmit, List.mem_filter, (order.perm _).mem_iff, OrdMap.get?_eq_some,
    KeeperChainView.shows, List.any_eq_not_all_not, Bool.not_eq_false']

theorem hintsToEmit_keys (s : Scheduler) (order : HintOrder) (view : KeeperChainView) :
    ((s.hintsToEmit order view).map Prod.fst).Nodup := by
  have hall : ((order.arrange s.initHints.entries).map Prod.fst).Nodup :=
    ((order.perm _).map _).nodup_iff.mpr s.initHints.keys_nodup
  exact hall.sublist (List.filter_sublist.map _)

def emitted (s : Scheduler) (order : HintOrder) (view : KeeperChainView) : List KeeperAction :=
  (s.hintsToEmit order view).map fun h => initAction h.1 h.2

def withoutEmitted (s : Scheduler) (view : KeeperChainView) : Scheduler :=
  { s with initHints := s.initHints.filter fun key _ => view.shows key }

theorem hints_split (s : Scheduler) (order : HintOrder) (view : KeeperChainView) :
    (s.withoutEmitted view).initHints.size + (s.emitted order view).length
      = s.initHints.size := by
  have htaken : s.hintsToEmit order view
      = (order.arrange s.initHints.entries).filter (fun e => !view.shows e.1) := by
    refine List.filter_congr fun e _ => ?_
    rw [KeeperChainView.shows, List.any_eq_not_all_not, Bool.not_not]
  rw [emitted, List.length_map, htaken, OrdMap.size, OrdMap.size, withoutEmitted, OrdMap.filter,
    ← List.countP_eq_length_filter, ← List.countP_eq_length_filter, (order.perm _).countP_eq]
  have hall := List.length_eq_countP_add_countP
    (fun e : BucketKey × InitRationale => view.shows e.1) (l := s.initHints.entries)
  simp only [Bool.not_eq_true, Bool.decide_eq_false] at hall
  exact hall.symm

theorem emitted_length (s : Scheduler) (order : HintOrder) (view : KeeperChainView)
    (h : ∀ key ∈ s.initHints.keys, view.shows key = false) :
    (s.emitted order view).length = s.initHints.size := by
  have hnone : (s.withoutEmitted view).initHints.size = 0 := by
    refine List.length_eq_zero_iff.mpr (List.filter_eq_nil_iff.mpr fun e he => ?_)
    simp [h e.1 (List.mem_map_of_mem he)]
  have hsplit := s.hints_split order view
  omega

theorem emitted_keys (s : Scheduler) (order : HintOrder) (view : KeeperChainView) :
    (s.emitted order view).filterMap (·.initKey) = (s.hintsToEmit order view).map Prod.fst := by
  rw [emitted, List.filterMap_map]
  refine List.filterMap_eq_map (f := Prod.fst) ▸ List.filterMap_congr fun h _ => ?_
  exact initKey_eq_some.mpr ⟨h.2, rfl⟩

theorem emitted_nodup (s : Scheduler) (order : HintOrder) (view : KeeperChainView) :
    (s.emitted order view).Nodup := by
  refine List.Nodup.of_map (·.initKey) ?_
  have hkeys : (s.emitted order view).map (·.initKey)
      = ((s.hintsToEmit order view).map Prod.fst).map some := by
    rw [emitted, List.map_map, List.map_map]
    refine List.map_congr_left fun h _ => ?_
    exact initKey_eq_some.mpr ⟨h.2, rfl⟩
  rw [hkeys]
  exact (s.hintsToEmit_keys order view).map (Option.some_injective _)

theorem get?_foldl_erase (hs : List (BucketKey × InitRationale))
    (hints : OrdMap BucketKey InitRationale) (key : BucketKey) :
    (hs.foldl (fun hints h => hints.erase h.1) hints).get? key
      = if key ∈ hs.map Prod.fst then none else hints.get? key := by
  induction hs generalizing hints with
  | nil => simp
  | cons h hs ih =>
    rw [List.foldl_cons, ih, OrdMap.get?_erase]
    simp only [List.map_cons, List.mem_cons]
    by_cases hself : key = h.1
    · simp [hself]
    · by_cases hlater : key ∈ hs.map Prod.fst
      · simp only [hlater, or_true, if_true]
      · simp only [hself, hlater, or_self, if_false]

theorem get?_withoutEmitted (s : Scheduler) (view : KeeperChainView) (key : BucketKey) :
    (s.withoutEmitted view).initHints.get? key
      = if view.shows key = true then s.initHints.get? key else none := by
  rw [withoutEmitted, OrdMap.get?_filter]
  cases s.initHints.get? key with
  | none => simp
  | some r => simp [Option.filter_some]

theorem foldl_erase_emitted (s : Scheduler) (order : HintOrder) (view : KeeperChainView) :
    (s.hintsToEmit order view).foldl (fun hints h => hints.erase h.1) s.initHints
      = (s.withoutEmitted view).initHints := by
  refine OrdMap.ext_get? fun key => ?_
  rw [get?_foldl_erase, get?_withoutEmitted]
  cases hget : s.initHints.get? key with
  | none => simp
  | some rationale =>
    have hmem : key ∈ (s.hintsToEmit order view).map Prod.fst ↔ view.shows key = false := by
      rw [List.mem_map]
      constructor
      · rintro ⟨⟨k, r⟩, hk, rfl⟩
        exact (mem_hintsToEmit.mp hk).2
      · intro hshows
        exact ⟨(key, rationale), mem_hintsToEmit.mpr ⟨hget, hshows⟩, rfl⟩
    simp only [hmem]
    cases view.shows key <;> simp

theorem withoutEmitted_of_emitted {s : Scheduler} {order : HintOrder}
    (h : s.emitted order view = []) : s.withoutEmitted view = s := by
  have hto : s.hintsToEmit order view = [] := List.map_eq_nil_iff.mp h
  have hkept := s.foldl_erase_emitted order view
  rw [hto, List.foldl_nil] at hkept
  cases s
  exact congrArg (Scheduler.mk _) hkept.symm

def capped (config : SchedulerConfig) (actions : List KeeperAction) : List KeeperAction :=
  if 0 < config.maxActionsPerPlan then actions.take config.maxActionsPerPlan else actions

/-- A plan: urgent backlogs, then the hints, then the rest, up to the cap. -/
theorem plan_cases (s : Scheduler) (order : HintOrder) (view : KeeperChainView) :
    (view.Faulty ∧ ∃ e, s.plan order view = .error e) ∨
      ¬ view.Faulty ∧ ∃ front back,
        s.plan order view = .ok (capped s.config (front ++ (s.emitted order view ++ back)),
          s.withoutEmitted view) ∧
        front.length = view.urgentCount s.config ∧ ∀ a ∈ front ++ back, a.initKey = none := by
  cases planSubPools_cases s.config view view.subPoolIds with
  | inl h =>
    obtain ⟨hf, e, he⟩ := h
    exact .inl ⟨hf, e, by simp only [plan, he]; rfl⟩
  | inr h =>
    obtain ⟨hf, base, hbase, hroutine, hcount⟩ := h
    refine .inr ⟨fun ⟨id, hid, b, hb, hbf⟩ => by simp [hf id hid b hb] at hbf, ?_⟩
    obtain ⟨first, back, hsort, hfirst, hback⟩ :=
      mergeSort_tier KeeperAction.priority (base ++ s.emitted order view) 1000000000
    have hinit : ∀ a ∈ s.emitted order view, a.priority = 1000000000 := by
      intro a ha
      obtain ⟨h, -, rfl⟩ := List.mem_map.mp ha
      rfl
    have htier : (s.emitted order view).filter (fun a => a.priority = 1000000000)
      = s.emitted order view :=
      List.filter_eq_self.mpr fun a ha => by simp [hinit a ha]
    have hhigh : (s.emitted order view).filter (fun a => 1000000000 < a.priority) = [] :=
      List.filter_eq_nil_iff.mpr fun a ha => by simp [hinit a ha]
    rw [List.filter_append, htier] at hsort
    rw [List.filter_append, hhigh, List.append_nil] at hfirst
    refine ⟨first ++ base.filter (fun a => a.priority = 1000000000), back, ?_, ?_, ?_⟩
    · simp only [plan, hbase, ok_bind]
      have hactions : (s.hintsToEmit order view).map (fun h => KeeperAction.initDormantBucket
          h.1.subPoolId h.1.direction h.1.tick h.2) = s.emitted order view := rfl
      rw [foldl_erase_emitted, hactions, hsort, List.append_assoc, List.append_assoc]
      rfl
    · rw [List.length_append, hfirst.length_eq, ← List.countP_eq_length_filter,
        ← List.countP_eq_length_filter, countP_tiers]
      exact hcount
    · intro a ha
      rw [List.append_assoc, List.mem_append, List.mem_append] at ha
      obtain ha | ha | ha := ha
      · exact hroutine a (List.mem_of_mem_filter (hfirst.subset ha))
      · exact hroutine a (List.mem_of_mem_filter ha)
      · have hlow := hback a ha
        cases hk : a.initKey with
        | none => rfl
        | some key =>
          obtain ⟨rationale, rfl⟩ := initKey_eq_some.mp hk
          exact absurd hlow (by simp [initAction, KeeperAction.priority])

theorem mem_capped_iff {front mid back : List KeeperAction} (hn : mid.Nodup)
    (hf : ∀ a ∈ mid, a ∉ front) :
    (∀ a ∈ mid, a ∈ capped config (front ++ (mid ++ back))) ↔
      config.maxActionsPerPlan = 0 ∨ mid.length = 0 ∨
        front.length + mid.length ≤ config.maxActionsPerPlan := by
  unfold capped
  by_cases hcap : 0 < config.maxActionsPerPlan
  · rw [if_pos hcap, subset_take_iff hn hf]
    have hne : config.maxActionsPerPlan ≠ 0 := by omega
    simp only [hne, false_or]
  · rw [if_neg hcap]
    refine iff_of_true (fun a ha => ?_) (.inl (by omega))
    exact List.mem_append_right _ (List.mem_append_left _ ha)

theorem emitted_apart {s : Scheduler} {order : HintOrder} {view : KeeperChainView}
    {front back : List KeeperAction} (h : ∀ a ∈ front ++ back, a.initKey = none) :
    ∀ a ∈ s.emitted order view, a ∉ front := by
  intro a ha hfront
  obtain ⟨hint, -, rfl⟩ := List.mem_map.mp ha
  have hnone := h _ (List.mem_append_left _ hfront)
  rw [initKey_eq_some.mpr ⟨hint.2, rfl⟩] at hnone
  cases hnone

/-- A capped plan inits no bucket twice. -/
theorem capped_keys_nodup {s : Scheduler} {order : HintOrder} {view : KeeperChainView}
    {front back : List KeeperAction} (h : ∀ a ∈ front ++ back, a.initKey = none) :
    ((capped s.config (front ++ (s.emitted order view ++ back))).filterMap (·.initKey)).Nodup := by
  have hnone : ∀ as : List KeeperAction, as ⊆ front ++ back → as.filterMap (·.initKey) = [] :=
    fun as has => List.filterMap_eq_nil_iff.mpr fun a ha => h a (has ha)
  have hall : (front ++ (s.emitted order view ++ back)).filterMap (·.initKey)
      = (s.hintsToEmit order view).map Prod.fst := by
    rw [List.filterMap_append, List.filterMap_append, s.emitted_keys,
      hnone front (List.subset_append_left _ _), hnone back (List.subset_append_right _ _),
      List.nil_append, List.append_nil]
  have hkeys := s.hintsToEmit_keys order view
  rw [← hall] at hkeys
  unfold capped
  split_ifs
  · exact hkeys.sublist ((List.take_sublist _ _).filterMap _)
  · exact hkeys

end Scheduler

/-- At one call the hints live as documented exactly if the plan has room for them. -/
theorem SchedulerOp.documented_iff (op : SchedulerOp) (s : Scheduler) :
    op.Documented s ↔ op.Roomy s := by
  cases op with
  | recordInitHint id d tick rationale =>
    refine iff_of_true ⟨OrdMap.get?_insert_self _ _ _, fun key hkey => ?_⟩ trivial
    exact OrdMap.get?_insert_ne _ _ hkey
  | cancelInitHint id d tick =>
    refine iff_of_true ⟨?_, fun key hkey => ?_⟩ trivial
    · exact (OrdMap.get?_erase _ _ _).trans (if_pos rfl)
    · exact (OrdMap.get?_erase _ _ _).trans (if_neg hkey)
  | plan order view =>
    unfold Documented Roomy
    cases s.plan_cases order view with
    | inl h =>
      obtain ⟨hf, e, he⟩ := h
      simp only [step, he]
      exact iff_of_true trivial (.inl hf)
    | inr h =>
      obtain ⟨hf, front, back, hplan, hlen, hother⟩ := h
      simp only [hplan, hf, false_or]
      have hmem := @Scheduler.mem_capped_iff s.config front _ back (s.emitted_nodup order view)
        (Scheduler.emitted_apart hother)
      have hkept : ∀ key rationale, (s.withoutEmitted view).initHints.get? key = some rationale →
          s.initHints.get? key = some rationale := by
        intro key rationale hget
        rw [Scheduler.get?_withoutEmitted] at hget
        split_ifs at hget
        exact hget
      constructor
      · intro ht
        have hshown : ∀ key ∈ s.initHints.keys, view.shows key = false := by
          intro key hkey
          obtain ⟨rationale, hget⟩ := OrdMap.mem_keys.mp hkey
          by_contra hshows
          have hshows := Bool.eq_true_of_not_eq_false hshows
          have hnone := (ht.taken key rationale hget).mpr (.inr hshows)
          rw [Scheduler.get?_withoutEmitted, if_pos hshows, hget] at hnone
          cases hnone
        refine ⟨hshown, ?_⟩
        rw [← hlen, ← s.emitted_length order view hshown, ← hmem]
        intro a ha
        obtain ⟨⟨key, rationale⟩, hh, rfl⟩ := List.mem_map.mp ha
        obtain ⟨hget, hshows⟩ := Scheduler.mem_hintsToEmit.mp hh
        have hnone : (s.withoutEmitted view).initHints.get? key = none := by
          rw [Scheduler.get?_withoutEmitted, hshows]
          exact if_neg Bool.false_ne_true
        cases (ht.taken key rationale hget).mp hnone with
        | inl hin => exact hin
        | inr hshow => simp [hshows] at hshow
      · rintro ⟨hshown, hroom⟩
        rw [← hlen, ← s.emitted_length order view hshown, ← hmem] at hroom
        refine ⟨fun key rationale hget => ?_, hkept, Scheduler.capped_keys_nodup hother⟩
        have hshows := hshown key (OrdMap.mem_keys.mpr ⟨rationale, hget⟩)
        refine iff_of_true ?_ (.inl (hroom _ (List.mem_map.mpr
          ⟨(key, rationale), Scheduler.mem_hintsToEmit.mpr ⟨hget, hshows⟩, rfl⟩)))
        rw [Scheduler.get?_withoutEmitted, hshows]
        exact if_neg Bool.false_ne_true

/-- In every run the hints live as documented exactly if every plan has room for them: none is for
    a bucket that is there already, and with a cap the urgent backlogs and the hints stay within
    it. -/
theorem hints_lifetime_iff (config : SchedulerConfig) (ops : List SchedulerOp) :
    AlongRun SchedulerOp.step SchedulerOp.Documented ops (.new config) ↔
      AlongRun SchedulerOp.step SchedulerOp.Roomy ops (.new config) :=
  alongRun_congr (I := fun _ => True) (fun _ _ _ => trivial) (fun op s _ => op.documented_iff s)
    trivial

def emptyView : KeeperChainView := ⟨[], fun _ => [], fun _ _ => none⟩

def shownView : KeeperChainView where
  subPoolIds := []
  buckets := fun _ => [⟨0, .long, 80, 0, 0, 0, 0, 0, 0⟩]
  ledger := fun _ _ => none

def twoHints : List SchedulerOp :=
  [.recordInitHint 0 .long 80 .explicit, .recordInitHint 0 .long 90 .explicit]

def hinted (config : SchedulerConfig) : Scheduler := (run SchedulerOp.step twoHints (.new config)).2

theorem hinted_plan_empty : (hinted ⟨1, 1, true⟩).plan .byKey emptyView
    = .ok ([.initDormantBucket 0 .long 80 .explicit], .new ⟨1, 1, true⟩) := by
  unfold Scheduler.plan
  rw [show Scheduler.planSubPools (hinted ⟨1, 1, true⟩).config emptyView emptyView.subPoolIds
    = .ok [] from rfl, ok_bind]
  dsimp only
  rw [List.mergeSort_of_pairwise (by decide +kernel)]
  rfl

theorem hinted_plan_shown : (hinted .default).plan .byKey shownView
    = .ok ([.initDormantBucket 0 .long 90 .explicit],
      (Scheduler.new .default).recordInitHint 0 .long 80 .explicit) := by
  unfold Scheduler.plan
  rw [show Scheduler.planSubPools (hinted .default).config shownView shownView.subPoolIds
    = .ok [] from rfl, ok_bind]
  dsimp only
  rw [List.mergeSort_of_pairwise (by decide +kernel)]
  rfl

/-- Neither a hint that is lost to the cap nor one whose bucket is there lives as documented. -/
theorem hints_lost_and_kept :
    ¬ (∀ (config : SchedulerConfig) (ops : List SchedulerOp),
      AlongRun SchedulerOp.step SchedulerOp.Documented ops (.new config)) ∧
    ¬ (SchedulerOp.plan .byKey emptyView).Documented (hinted ⟨1, 1, true⟩) ∧
    ¬ (SchedulerOp.plan .byKey shownView).Documented (hinted .default) := by
  have hlost : ¬ (SchedulerOp.plan .byKey emptyView).Documented (hinted ⟨1, 1, true⟩) := by
    intro h
    simp only [SchedulerOp.Documented, hinted_plan_empty] at h
    have htaken := (h.taken (bucketKey 0 .long 90) .explicit (by decide +kernel)).mp rfl
    exact absurd htaken (by decide +kernel)
  refine ⟨fun h => ?_, hlost, fun h => ?_⟩
  · obtain ⟨-, -, hplan, -⟩ := h ⟨1, 1, true⟩ (twoHints ++ [.plan .byKey emptyView])
    exact hlost hplan
  · simp only [SchedulerOp.Documented, hinted_plan_shown] at h
    have htaken := (h.taken (bucketKey 0 .long 80) .explicit (by decide +kernel)).mpr
      (.inr (by decide +kernel))
    exact absurd htaken (by decide +kernel)

end MoleFinance
