import MoleFinance.Keeper.MirrorView
import MoleFinance.Lib.Descent

/-! The keeper alone with a runtime: tick after tick it plans and carries out what it planned. It
comes to rest when every backlog can be served, every dead account is up to date and no hint asks
for an account that would be dead and behind. -/
namespace MoleFinance
open MoleMath Call Trace Descent

namespace Runtime
open ChainRuntime

/-- A refused action changes what its handler changes. -/
def execute (slot : Nat) (a : KeeperAction) (x : ChainRuntime) : ChainRuntime :=
  match a with
  | .preSyncDormantBucket id d tick _ => final (preSyncBucket id d tick slot x)
  | .closeDormantBucket id d tick => final (closeDormantBucket id d tick x)
  | .initDormantBucket id d tick _ => final (preInitDormantBucket id d tick x)

/-- A plan that fails is no reason to act. -/
def keeperTick (slots : Nat → Nat) (orders : Nat → HintOrder) (n : Nat)
    (p : Scheduler × ChainRuntime) : Scheduler × ChainRuntime :=
  match p.1.plan (orders n) p.2.view with
  | .ok (actions, s) => (s, actions.foldl (fun x a => execute (slots n) a x) p.2)
  | .error _ => p

section Action
variable {x y : ChainRuntime} {a : KeeperAction} {slot : Nat} {config : SchedulerConfig}

inductive Executed (x y : ChainRuntime) : KeeperAction → Prop where
  | caughtUp (id : Nat) (d : Direction) (tick : Int) (pending : Nat) (h : CaughtUp x y id d tick) :
      Executed x y (.preSyncDormantBucket id d tick pending)
  | closed (id : Nat) (d : Direction) (tick : Int) (account : DormantBucketAccount) (n : Nat)
      (there : x.buckets.get? (bucketKey id d tick) = some account)
      (dead : account.record.isDead = true) (head : x.head id d = some n)
      (applied : n ≤ account.record.lastAppliedIndex)
      (after : y = { x with buckets := x.buckets.erase (bucketKey id d tick) }) :
      Executed x y (.closeDormantBucket id d tick)
  | initialised (id : Nat) (d : Direction) (tick : Int) (rationale : InitRationale)
      (absent : x.buckets.get? (bucketKey id d tick) = none)
      (after : y = { x with
        buckets := x.buckets.insert (bucketKey id d tick) ⟨id, deadRecord d tick⟩ }) :
      Executed x y (.initDormantBucket id d tick rationale)

theorem execute_cases (h : x.Kept) (slot : Nat) (a : KeeperAction) :
    execute slot a x = x ∨ Executed x (execute slot a x) a := by
  cases a with
  | preSyncDormantBucket id d tick pending =>
    cases preSyncBucket_cases h id d tick slot with
    | inl hr =>
      obtain ⟨e, hr⟩ := hr
      exact .inl (congrArg final hr)
    | inr hr =>
      obtain ⟨out, y, hr, hy⟩ := hr
      have hfinal : execute slot (.preSyncDormantBucket id d tick pending) x = y :=
        congrArg final hr
      exact .inr (hfinal ▸ .caughtUp id d tick pending hy)
  | closeDormantBucket id d tick =>
    cases closeDormantBucket_cases x id d tick with
    | inl hr =>
      obtain ⟨e, hr⟩ := hr
      exact .inl (congrArg final hr)
    | inr hr =>
      obtain ⟨account, ledger, hb, hdead, hl, hle, hr⟩ := hr
      refine .inr (.closed id d tick account ledger.ledger.nextEventIndex hb hdead ?_ hle
        (congrArg final hr))
      rw [ChainRuntime.head, hl]
      rfl
  | initDormantBucket id d tick rationale =>
    cases preInitDormantBucket_cases x id d tick with
    | inl hr =>
      obtain ⟨e, hr⟩ := hr
      exact .inl (congrArg final hr)
    | inr hr =>
      obtain ⟨-, hnone, hr⟩ := hr
      exact .inr (.initialised id d tick rationale hnone (congrArg final hr))

theorem Executed.upkept (h : Executed x y a) : Upkept x y := by
  cases h with
  | caughtUp id d tick pending h => exact h.toUpkept
  | closed id d tick account n there dead head applied after =>
    subst after
    exact ⟨rfl, rfl, fun _ => rfl, fun _ _ => rfl⟩
  | initialised id d tick rationale absent after =>
    subst after
    exact ⟨rfl, rfl, fun _ => rfl, fun _ _ => rfl⟩

theorem execute_upkept (h : x.Kept) (slot : Nat) (a : KeeperAction) :
    Upkept x (execute slot a x) := by
  cases execute_cases h slot a with
  | inl hx => exact hx.symm ▸ .refl x
  | inr hx => exact hx.upkept

theorem execute_kept (h : x.Kept) (slot : Nat) (a : KeeperAction) : (execute slot a x).Kept := by
  cases a with
  | preSyncDormantBucket id d tick pending =>
    cases preSyncBucket_cases h id d tick slot with
    | inl hr =>
      obtain ⟨e, hr⟩ := hr
      have hsame : execute slot (.preSyncDormantBucket id d tick pending) x = x :=
        congrArg final hr
      exact hsame.symm ▸ h
    | inr hr =>
      obtain ⟨out, y, hr, -⟩ := hr
      have hcall : (MirrorOp.preSyncBucket id d tick slot).call x = .ok (.preSynced out) y :=
        bind_of_ok hr _
      have hstep : (MirrorOp.preSyncBucket id d tick slot).step x = (.ok (.preSynced out), y) :=
        congrArg (fun r => (answer r, final r)) hcall
      have hkept : ((RuntimeOp.operation (.preSyncBucket id d tick slot)).step x).2.Kept :=
        h.operation (.inl (congrArg (fun r => r.1.isOk) hstep))
      have hafter : execute slot (.preSyncDormantBucket id d tick pending) x = y :=
        congrArg final hr
      rw [hafter]
      exact (congrArg (fun r => ChainRuntime.Kept r.2) hstep).mp hkept
  | closeDormantBucket id d tick => exact h.lifecycle (.closeDormantBucket id d tick)
  | initDormantBucket id d tick rationale => exact h.lifecycle (.preInitDormantBucket id d tick)

def IsDue (config : SchedulerConfig) (n applied : Nat) : Prop :=
  config.minPendingForPreSync ≤ n - applied ∧ 0 < n - applied

instance (config : SchedulerConfig) (n applied : Nat) : Decidable (IsDue config n applied) :=
  inferInstanceAs (Decidable (_ ∧ _))

/-- A pre-sync weighs more than a closing, so that a new dead account costs less than its hint. -/
def work (config : SchedulerConfig) (head : Option Nat) (r : OnChainBucketRecord) : Nat :=
  match head with
  | none => 0
  | some n =>
    if IsDue config n r.lastAppliedIndex then 2
    else if config.closeDeadBuckets = true ∧ r.isDead = true then 1
    else 0

def workload (config : SchedulerConfig) (x : ChainRuntime) : Nat :=
  x.buckets.sum (fun key account =>
    work config (x.head (BucketKey.subPoolId key) (BucketKey.direction key)) account.record)

theorem work_caughtUp {n : Nat} {r : OnChainBucketRecord} (hlive : r.isDead = false)
    (happlied : r.lastAppliedIndex = n) : work config (some n) r = 0 := by
  have hdue : ¬ IsDue config n r.lastAppliedIndex := by
    rw [happlied, IsDue]
    omega
  simp only [work, if_neg hdue, hlive, Bool.false_eq_true, and_false, if_false]

/-- A new account asks for nothing but its closing, where nothing has happened yet. -/
theorem work_dead_le {head : Option Nat} (hzero : ∀ n, head = some n → n = 0) (d : Direction)
    (tick : Int) : work config head (deadRecord d tick) ≤ 1 := by
  cases head with
  | none => exact Nat.zero_le 1
  | some n =>
    have hdue : ¬ IsDue config n (deadRecord d tick).lastAppliedIndex := by
      rw [hzero n rfl, IsDue]
      omega
    simp only [work, if_neg hdue]
    split_ifs
    · exact Nat.le_refl 1
    · exact Nat.zero_le 1

/-- What the runtime must allow a keeper: dead accounts are up to date, and backlogs that are due
    can be served. -/
structure Tended (config : SchedulerConfig) (x : ChainRuntime) : Prop where
  kept : x.Kept
  idle : ∀ id d tick account n, x.buckets.get? (bucketKey id d tick) = some account →
    x.head id d = some n → account.record.isDead = true → n ≤ account.record.lastAppliedIndex
  serves : ∀ id d tick account n, x.buckets.get? (bucketKey id d tick) = some account →
    x.head id d = some n → account.record.isDead = false →
      IsDue config n account.record.lastAppliedIndex →
        Serves x.market.params (n - account.record.lastAppliedIndex)

def Ready (x : ChainRuntime) (a : KeeperAction) : Prop :=
  ∀ key, a.initKey = some key →
    ∀ n, x.head (BucketKey.subPoolId key) (BucketKey.direction key) = some n → n = 0

def isLive (x : ChainRuntime) (key : BucketKey) : Prop :=
  ∃ account, x.buckets.get? key = some account ∧ account.record.isDead = false

theorem Ready.upkept (h : Ready x a) (hu : Upkept x y) : Ready y a := by
  intro key hkey n hn
  rw [hu.head] at hn
  exact h key hkey n hn

/-- An account after an action: it was there before, or was served, or is new. -/
theorem Executed.account (h : Executed x y a) {id : Nat} {d : Direction} {tick : Int}
    {account : DormantBucketAccount} (hy : y.buckets.get? (bucketKey id d tick) = some account) :
    x.buckets.get? (bucketKey id d tick) = some account ∨
      (account.record.isDead = false ∧
        x.head id d = some account.record.lastAppliedIndex ∧ isLive x (bucketKey id d tick)) ∨
      a.initKey = some (bucketKey id d tick) ∧ account.record = deadRecord d tick ∧
        x.buckets.get? (bucketKey id d tick) = none := by
  cases h with
  | caughtUp i e j pending h =>
    by_cases hkey : bucketKey id d tick = bucketKey i e j
    · obtain ⟨rfl, rfl, rfl⟩ := BucketKey.bucketKey_inj.mp hkey
      obtain ⟨old, new, n, hold, hlive, hnew, hlive', hn, happlied⟩ := h.served
      cases hnew.symm.trans hy
      exact .inr (.inl ⟨hlive', happlied ▸ hn, old, hold, hlive⟩)
    · obtain hsame | ⟨-, hgone, -⟩ := h.others _ hkey
      · exact .inl (hsame ▸ hy)
      · cases hgone.symm.trans hy
  | closed i e j old n there dead head applied after =>
    subst after
    rw [OrdMap.get?_erase] at hy
    split_ifs at hy
    exact .inl hy
  | initialised i e j rationale absent after =>
    subst after
    rw [OrdMap.get?_insert] at hy
    split_ifs at hy with hkey
    · cases hy
      obtain ⟨rfl, rfl, rfl⟩ := BucketKey.bucketKey_inj.mp hkey
      exact .inr (.inr ⟨rfl, rfl, absent⟩)
    · exact .inl hy

theorem Executed.live (h : Executed x y a) {key : BucketKey} (hl : isLive x key) :
    isLive y key := by
  obtain ⟨account, ha, hlive⟩ := hl
  cases h with
  | caughtUp i e j pending h =>
    by_cases hkey : key = bucketKey i e j
    · subst hkey
      obtain ⟨_, new, _, -, -, hnew, hlive', -, -⟩ := h.served
      exact ⟨new, hnew, hlive'⟩
    · obtain hsame | ⟨-, -, old, hold, hdead⟩ := h.others key hkey
      · exact ⟨account, hsame ▸ ha, hlive⟩
      · cases hold.symm.trans ha
        exact absurd hdead (by simp [hlive])
  | closed i e j old n there dead head applied after =>
    subst after
    have hne : key ≠ bucketKey i e j := by
      rintro rfl
      cases there.symm.trans ha
      exact absurd dead (by simp [hlive])
    exact ⟨account, by rw [OrdMap.get?_erase, if_neg hne, ha], hlive⟩
  | initialised i e j rationale absent after =>
    subst after
    have hne : key ≠ bucketKey i e j := by
      rintro rfl
      cases absent.symm.trans ha
    exact ⟨account, by rw [OrdMap.get?_insert_ne _ _ hne, ha], hlive⟩

theorem Executed.tended (h : Executed x y a) (hk : y.Kept) (ht : Tended config x)
    (hr : Ready x a) : Tended config y where
  kept := hk
  idle id d tick account n hy hn hdead := by
    rw [h.upkept.head] at hn
    obtain hx | ⟨hlive, -, -⟩ | ⟨hinit, hnew, -⟩ := h.account hy
    · exact ht.idle id d tick account n hx hn hdead
    · exact absurd hdead (by simp [hlive])
    · rw [hr _ hinit n hn]
      exact Nat.zero_le _
  serves id d tick account n hy hn hlive hdue := by
    rw [h.upkept.market]
    rw [h.upkept.head] at hn
    obtain hx | ⟨-, happlied, -⟩ | ⟨-, hnew, -⟩ := h.account hy
    · exact ht.serves id d tick account n hx hn hlive hdue
    · cases hn.symm.trans happlied
      exact absurd hdue.2 (by omega)
    · rw [hnew] at hlive
      cases hlive

theorem Executed.work_le (h : Executed x y a) (hinit : a.initKey = none) {key : BucketKey}
    {account : DormantBucketAccount} (hy : y.buckets.get? key = some account) :
    ∃ old, x.buckets.get? key = some old ∧
      work config (y.head (BucketKey.subPoolId key) (BucketKey.direction key)) account.record
        ≤ work config (x.head (BucketKey.subPoolId key) (BucketKey.direction key)) old.record := by
  rw [h.upkept.head]
  rw [← BucketKey.bucketKey_eta key] at hy
  obtain hx | ⟨hlive, happlied, old, hold, -⟩ | ⟨hnew, -, -⟩ := h.account hy
  · exact ⟨account, hx, Nat.le_refl _⟩
  · refine ⟨old, hold, ?_⟩
    rw [happlied, work_caughtUp hlive rfl]
    exact Nat.zero_le _
  · cases hinit.symm.trans hnew

theorem Executed.workload_le (h : Executed x y a) (hr : Ready x a) :
    workload config y ≤ workload config x + if a.initKey.isSome = true then 1 else 0 := by
  cases hinit : a.initKey with
  | none => exact OrdMap.sum_le_sum_of fun key account hy => h.work_le hinit hy
  | some key =>
    cases h with
    | caughtUp id d tick pending h => cases hinit
    | closed id d tick account n there dead head applied after => cases hinit
    | initialised id d tick rationale absent after =>
      cases hinit
      subst after
      have hone := @work_dead_le config _ (hr _ rfl) d tick
      have hsum := OrdMap.sum_insert_new (fun key (account : DormantBucketAccount) => work config
        (x.head (BucketKey.subPoolId key) (BucketKey.direction key)) account.record)
        ⟨id, deadRecord d tick⟩ absent
      exact hsum.trans_le (Nat.add_le_add_left hone _)

theorem Executed.workload_lt (h : Executed x y a) (hinit : a.initKey = none) {id : Nat}
    {d : Direction} {tick : Int} {account : DormantBucketAccount}
    (ha : x.buckets.get? (bucketKey id d tick) = some account)
    (hpos : 0 < work config (x.head id d) account.record)
    (hgone : ∀ new, y.buckets.get? (bucketKey id d tick) = some new →
      new.record.isDead = false ∧ x.head id d = some new.record.lastAppliedIndex) :
    workload config y < workload config x := by
  refine OrdMap.sum_lt_sum_of (fun key account hy => h.work_le hinit hy) ha hpos fun new hnew => ?_
  obtain ⟨hlive, happlied⟩ := hgone new hnew
  have hhead : y.head (BucketKey.subPoolId (bucketKey id d tick))
      (BucketKey.direction (bucketKey id d tick)) = some new.record.lastAppliedIndex :=
    (h.upkept.head id d).trans happlied
  rw [hhead, work_caughtUp hlive rfl]
  exact hpos

structure Carried (config : SchedulerConfig) (x y : ChainRuntime) (opened : Nat) : Prop where
  tended : Tended config y
  upkept : Upkept x y
  workload_le : workload config y ≤ workload config x + opened
  live : ∀ key, isLive x key → isLive y key

theorem Carried.refl (h : Tended config x) : Carried config x x 0 :=
  ⟨h, .refl x, Nat.le_refl _, fun _ hl => hl⟩

theorem Carried.trans {z : ChainRuntime} {m n : Nat} (h : Carried config x y m)
    (h' : Carried config y z n) : Carried config x z (m + n) where
  tended := h'.tended
  upkept := h.upkept.trans h'.upkept
  workload_le := by
    have hle := h.workload_le
    have hle' := h'.workload_le
    omega
  live key hl := h'.live key (h.live key hl)

theorem execute_carried (h : Tended config x) (hr : Ready x a) (slot : Nat) :
    Carried config x (execute slot a x) (if a.initKey.isSome = true then 1 else 0) := by
  cases execute_cases h.kept slot a with
  | inl hx =>
    rw [hx]
    exact ⟨h, .refl x, Nat.le_add_right _ _, fun _ hl => hl⟩
  | inr hx =>
    exact ⟨hx.tended (execute_kept h.kept slot a) h hr, hx.upkept, hx.workload_le hr,
      fun _ hl => hx.live hl⟩

theorem foldl_carried (slot : Nat) {actions : List KeeperAction} (h : Tended config x)
    (hr : ∀ a ∈ actions, Ready x a) :
    Carried config x (actions.foldl (fun x a => execute slot a x) x)
      (actions.countP (fun a => a.initKey.isSome)) := by
  induction actions generalizing x with
  | nil => exact .refl h
  | cons a actions ih =>
    have hfirst := execute_carried h (hr a List.mem_cons_self) slot
    have hrest := ih hfirst.tended fun b hb =>
      (hr b (List.mem_cons_of_mem a hb)).upkept hfirst.upkept
    rw [List.foldl_cons, List.countP_cons, Nat.add_comm]
    exact hfirst.trans hrest

theorem view_ledger_of {id n : Nat} {d : Direction} (hn : x.head id d = some n) :
    x.view.ledger id d = some ⟨id, d, n, 0⟩ := by
  obtain ⟨ledger, hl, rfl⟩ := Option.map_eq_some_iff.mp hn
  simp only [view, hl, Option.map_some]

theorem planBucket_snapshot {id n : Nat} {d : Direction} {tick : Int}
    {account : DormantBucketAccount} (hn : x.head id d = some n)
    (hle : account.record.lastAppliedIndex ≤ n) :
    Scheduler.planBucket config (x.view.ledger id d) (account.snapshot (bucketKey id d tick)) = .ok
      (if IsDue config n account.record.lastAppliedIndex then
        [.preSyncDormantBucket id d tick (n - account.record.lastAppliedIndex)]
      else if config.closeDeadBuckets = true ∧ account.record.isDead = true ∧
          n ≤ account.record.lastAppliedIndex then [.closeDormantBucket id d tick]
      else []) := by
  have hnot : ¬ n < (account.snapshot (bucketKey id d tick)).lastAppliedIndex :=
    Nat.not_lt.mpr hle
  rw [view_ledger_of hn, Scheduler.planBucket]
  simp only
  rw [if_neg hnot]
  by_cases hdue : IsDue config n account.record.lastAppliedIndex
  · rw [if_pos hdue]
    exact if_pos hdue
  · rw [if_neg hdue]
    refine (if_neg hdue).trans ?_
    by_cases hclose : config.closeDeadBuckets = true ∧ account.record.isDead = true ∧
        n ≤ account.record.lastAppliedIndex
    · rw [if_pos hclose]
      exact if_pos hclose
    · rw [if_neg hclose]
      exact if_neg hclose

theorem calls_cases (h : x.Indexed) (hc : Scheduler.Calls config x.view a) :
    ∃ id d tick account n, x.buckets.get? (bucketKey id d tick) = some account ∧
      x.head id d = some n ∧
      (IsDue config n account.record.lastAppliedIndex ∧
          a = .preSyncDormantBucket id d tick (n - account.record.lastAppliedIndex) ∨
        ¬ IsDue config n account.record.lastAppliedIndex ∧ config.closeDeadBuckets = true ∧
          account.record.isDead = true ∧ n ≤ account.record.lastAppliedIndex ∧
          a = .closeDormantBucket id d tick) := by
  obtain ⟨id, -, b, hb, own, hown, ha⟩ := hc
  obtain ⟨d, tick, account, haccount, rfl⟩ := mem_view.mp hb
  obtain ⟨ledger, hl, hle⟩ := h.behind id d tick account haccount
  have hn : x.head id d = some ledger.ledger.nextEventIndex := by
    rw [head, hl]
    rfl
  have hown := (planBucket_snapshot hn hle).symm.trans hown
  cases hown
  refine ⟨id, d, tick, account, _, haccount, hn, ?_⟩
  split_ifs at ha with hdue hclose
  · exact .inl ⟨hdue, List.mem_singleton.mp ha⟩
  · exact .inr ⟨hdue, hclose.1, hclose.2.1, hclose.2.2, List.mem_singleton.mp ha⟩
  · cases ha

theorem calls_of (h : x.Indexed) {id n : Nat} {d : Direction} {tick : Int}
    {account : DormantBucketAccount} (ha : x.buckets.get? (bucketKey id d tick) = some account)
    (hn : x.head id d = some n)
    (hdo : IsDue config n account.record.lastAppliedIndex ∨ config.closeDeadBuckets = true ∧
      account.record.isDead = true ∧ n ≤ account.record.lastAppliedIndex) :
    ∃ a, Scheduler.Calls config x.view a := by
  obtain ⟨sub, hsub⟩ := h.lodged id d tick account ha
  obtain ⟨ledger, hl, hle⟩ := h.behind id d tick account ha
  have hhead : n = ledger.ledger.nextEventIndex := by
    rw [head, hl] at hn
    exact (Option.some.inj hn).symm
  subst hhead
  have hplan := @planBucket_snapshot x config id _ d tick account hn hle
  have hcalls : ∀ a own, Scheduler.planBucket config (x.view.ledger id d)
      (account.snapshot (bucketKey id d tick)) = .ok own → a ∈ own →
        Scheduler.Calls config x.view a := fun a own hown hmem =>
    ⟨id, OrdMap.mem_keys.mpr ⟨sub, hsub⟩, _, mem_view.mpr ⟨d, tick, account, ha, rfl⟩, own, hown,
      hmem⟩
  by_cases hdue : IsDue config ledger.ledger.nextEventIndex account.record.lastAppliedIndex
  · rw [if_pos hdue] at hplan
    exact ⟨_, hcalls _ _ hplan (List.mem_singleton.mpr rfl)⟩
  · rw [if_neg hdue, if_pos (hdo.resolve_left hdue)] at hplan
    exact ⟨_, hcalls _ _ hplan (List.mem_singleton.mpr rfl)⟩

theorem execute_lt (h : Tended config x) (hc : Scheduler.Calls config x.view a) (slot : Nat) :
    workload config (execute slot a x) < workload config x := by
  obtain ⟨id, d, tick, account, n, ha, hn, hdo⟩ := calls_cases h.kept.indexed hc
  cases hdo with
  | inl hdo =>
    obtain ⟨hdue, rfl⟩ := hdo
    have hlive : account.record.isDead = false := by
      by_contra hdead
      have hle := h.idle id d tick account n ha hn (Bool.eq_true_of_not_eq_false hdead)
      exact absurd hdue.2 (by omega)
    obtain ⟨out, y, hr⟩ := preSyncBucket_accepted h.kept ha hlive hn
      (h.serves id d tick account n ha hn hlive hdue) slot
    have hafter : execute slot (.preSyncDormantBucket id d tick
        (n - account.record.lastAppliedIndex)) x = y := congrArg final hr
    obtain ⟨e, he⟩ | ⟨out', y', hr', hy⟩ := preSyncBucket_cases h.kept id d tick slot
    · cases hr.symm.trans he
    · cases hr.symm.trans hr'
      rw [hafter]
      refine Executed.workload_lt (.caughtUp id d tick 0 hy) rfl ha ?_ fun new hnew => ?_
      · simp only [hn, work, if_pos hdue]
        exact Nat.zero_lt_two
      · obtain ⟨_, new', m, -, -, hnew', hlive', hm, happlied⟩ := hy.served
        cases hnew'.symm.trans hnew
        exact ⟨hlive', happlied ▸ hm⟩
  | inr hdo =>
    obtain ⟨hdue, hclose, hdead, hle, rfl⟩ := hdo
    obtain ⟨ledger, hl, hhead⟩ := Option.map_eq_some_iff.mp hn
    have hafter : execute slot (.closeDormantBucket id d tick) x
        = { x with buckets := x.buckets.erase (bucketKey id d tick) } := by
      obtain ⟨e, he⟩ | ⟨_, _, -, -, -, -, hr⟩ := closeDormantBucket_cases x id d tick
      · exfalso
        unfold closeDormantBucket at he
        simp only [get_bind, ha, ensure_of hdead, orFail_ok_bind, hl,
          ensure_of (show ledger.ledger.nextEventIndex ≤ account.record.lastAppliedIndex from
            hhead ▸ hle)] at he
        cases he
      · exact congrArg final hr
    rw [hafter]
    refine Executed.workload_lt (.closed id d tick account n ha hdead hn hle rfl) rfl ha ?_
      fun new hnew => ?_
    · simp only [hn, work, if_neg hdue, hclose, hdead, and_self, if_true]
      exact Nat.zero_lt_one
    · rw [OrdMap.get?_erase, if_pos rfl] at hnew
      cases hnew

end Action

section Tick
variable {s : Scheduler} {x : ChainRuntime} {p : Scheduler × ChainRuntime} {slots : Nat → Nat}
  {n : Nat}

/-- Besides: a hint is for a ledger nothing has been distributed to, or for a bucket in use. -/
structure Unobstructed (p : Scheduler × ChainRuntime) : Prop where
  tended : Tended p.1.config p.2
  hints : ∀ key rationale, p.1.initHints.get? key = some rationale →
    (∀ n, p.2.head (BucketKey.subPoolId key) (BucketKey.direction key) = some n → n = 0) ∨
      isLive p.2 key

def Settled (p : Scheduler × ChainRuntime) : Prop :=
  ∀ order, p.1.plan order p.2.view = .ok ([], p.1)

def ticksLeft (p : Scheduler × ChainRuntime) : Nat :=
  2 * p.1.initHints.size + workload p.1.config p.2

theorem keeperTick_settled (h : Settled p) : keeperTick slots orders n p = p := by
  unfold keeperTick
  rw [h (orders n)]
  rfl

theorem isLive_contains {key : BucketKey} (h : isLive x key) : x.view.shows key = true := by
  obtain ⟨account, ha, -⟩ := h
  rw [view_shows, OrdMap.contains_iff]
  exact ⟨account, ha⟩

theorem Unobstructed.ready (h : Unobstructed (s, x)) {order : HintOrder} {a : KeeperAction}
    (ha : a ∈ s.emitted order x.view ∨ Scheduler.Calls s.config x.view a) : Ready x a := by
  intro key hkey n hn
  cases ha with
  | inl ha =>
    obtain ⟨⟨key', rationale⟩, hmem, rfl⟩ := List.mem_map.mp ha
    obtain ⟨hget, hshows⟩ := Scheduler.mem_hintsToEmit.mp hmem
    have hinit : (initAction key' rationale).initKey = some key' :=
      initKey_eq_some.mpr ⟨rationale, rfl⟩
    cases hinit.symm.trans hkey
    cases h.hints key rationale hget with
    | inl hzero => exact hzero n hn
    | inr hlive =>
      rw [isLive_contains hlive] at hshows
      cases hshows
  | inr hc =>
    obtain ⟨_, _, _, _, _, -, -, ⟨-, rfl⟩ | ⟨-, -, -, -, rfl⟩⟩ :=
      calls_cases h.tended.kept.indexed hc
    · cases hkey
    · cases hkey

theorem keeperTick_of (h : Unobstructed p) (slots : Nat → Nat) (orders : Nat → HintOrder)
    (n : Nat) :
    Unobstructed (keeperTick slots orders n p) ∧
      (¬ Settled p → ticksLeft (keeperTick slots orders n p) < ticksLeft p) := by
  obtain ⟨s, x⟩ := p
  have htended : Tended s.config x := h.tended
  obtain ⟨actions, hplan, hmem, hcount, hnil⟩ :=
    @Scheduler.plan_of x.view s htended.kept.indexed.not_faulty (orders n)
  have htick : keeperTick slots orders n (s, x) = (s.withoutEmitted x.view,
      actions.foldl (fun x a => execute (slots n) a x) x) := by
    unfold keeperTick
    simp only [hplan]
  have hcarried := foldl_carried (slots n) htended fun a ha => h.ready (hmem a ha)
  have hsplit := s.hints_split (orders n) x.view
  rw [htick]
  refine ⟨⟨hcarried.tended, fun key rationale hget => ?_⟩, fun hbusy => ?_⟩
  · rw [s.get?_withoutEmitted] at hget
    split_ifs at hget with hshows
    cases h.hints key rationale hget with
    | inl hzero =>
      refine .inl fun m hm => hzero m ?_
      exact hcarried.upkept.head _ _ ▸ hm
    | inr hlive => exact .inr (hcarried.live key hlive)
  · have hwork := hcarried.workload_le
    show 2 * (s.withoutEmitted x.view).initHints.size +
        workload s.config (actions.foldl (fun x a => execute (slots n) a x) x)
      < 2 * s.initHints.size + workload s.config x
    cases hemit : s.emitted (orders n) x.view with
    | cons e es =>
      rw [hemit, List.length_cons] at hsplit hcount
      omega
    | nil =>
      -- no hint is taken, and the first action does what its bucket calls for
      rw [hemit, List.length_nil] at hsplit hcount
      cases actions with
      | nil =>
        -- no hint is taken in another order either
        refine absurd (fun order => ?_) hbusy
        obtain ⟨actions', hplan', -, -, hnil'⟩ :=
          @Scheduler.plan_of x.view s htended.kept.indexed.not_faulty order
        have hsplit' := s.hints_split order x.view
        have hnone : s.emitted order x.view = [] := by
          refine List.length_eq_zero_iff.mp ?_
          omega
        obtain rfl := hnil'.mpr ⟨hnone, (hnil.mp rfl).2⟩
        rw [hplan', Scheduler.withoutEmitted_of_emitted hnone]
      | cons a rest =>
        have hcalls : Scheduler.Calls s.config x.view a := by
          have ha := hmem a List.mem_cons_self
          rw [hemit] at ha
          exact ha.resolve_left (by simp)
        have hready := h.ready (hmem a List.mem_cons_self)
        have hfirst := execute_carried htended hready (slots n)
        have hrest := foldl_carried (slots n) hfirst.tended fun b hb =>
          (h.ready (hmem b (List.mem_cons_of_mem a hb))).upkept hfirst.upkept
        have hlt := execute_lt htended hcalls (slots n)
        have hless := hrest.workload_le
        rw [List.countP_cons] at hcount
        rw [List.foldl_cons]
        omega

theorem Unobstructed.idle (h : Unobstructed p) (hs : Settled p)
    (hclose : p.1.config.closeDeadBuckets = true) {key : BucketKey}
    {account : DormantBucketAccount} (ha : p.2.buckets.get? key = some account) :
    account.record.isDead = false := by
  obtain ⟨s, x⟩ := p
  by_contra hdead
  have hdead := Bool.eq_true_of_not_eq_false hdead
  rw [← BucketKey.bucketKey_eta key] at ha
  obtain ⟨ledger, hl, -⟩ := h.tended.kept.indexed.behind _ _ _ account ha
  have hn : x.head (BucketKey.subPoolId key) (BucketKey.direction key)
      = some ledger.ledger.nextEventIndex := by
    rw [head, hl]
    rfl
  obtain ⟨a, hcalls⟩ := calls_of h.tended.kept.indexed ha hn
    (.inr ⟨hclose, hdead, h.tended.idle _ _ _ account _ ha hn hdead⟩)
  obtain ⟨actions, hplan, -, -, hnil⟩ :=
    @Scheduler.plan_of x.view s h.tended.kept.indexed.not_faulty .byKey
  have hempty : actions = [] := congrArg Prod.fst (Except.ok.inj (hplan.symm.trans (hs .byKey)))
  exact (hnil.mp hempty).2 a hcalls

end Tick

/-- Left alone with a runtime after any tidy run, strict or loose, a keeper comes to rest: if dead
    accounts are up to date, due backlogs are within the budget of an open market, and hints are
    for ledgers without events or for buckets in use, then after as many ticks as there is work
    left the plan is empty and stays empty, and no dead account is left over. -/
theorem keeper_settles (market : MarketAccount) (strict : Bool)
    (ops : List (RuntimeOp ⊕ UpkeepOp)) (s : Scheduler) (slots : Nat → Nat)
    (orders : Nat → HintOrder)
    (ht : Along RuntimeOp.step UpkeepOp.apply RuntimeOp.Tidy ops (.new market strict)) :
    let x := (trace RuntimeOp.step UpkeepOp.apply ops (.new market strict)).2
    (∀ id d tick account n, x.buckets.get? (bucketKey id d tick) = some account →
      x.head id d = some n → account.record.isDead = true →
        n ≤ account.record.lastAppliedIndex) →
    (∀ id d tick account n, x.buckets.get? (bucketKey id d tick) = some account →
      x.head id d = some n → account.record.isDead = false →
        IsDue s.config n account.record.lastAppliedIndex →
          Serves x.market.params (n - account.record.lastAppliedIndex)) →
    (∀ key rationale, s.initHints.get? key = some rationale →
      (∀ n, x.head (BucketKey.subPoolId key) (BucketKey.direction key) = some n → n = 0) ∨
        isLive x key) →
    ∀ n, ticksLeft (s, x) ≤ n →
      let p := iterate (keeperTick slots orders) (s, x) n
      (∀ order, p.1.plan order p.2.view = .ok ([], p.1)) ∧
        (s.config.closeDeadBuckets = true → ∀ key account,
          p.2.buckets.get? key = some account → account.record.isDead = false) := by
  intro x hidle hserves hhints n hn
  have hstart : Unobstructed (s, x) :=
    ⟨⟨ChainRuntime.trace_kept market strict ht, hidle, hserves⟩, hhints⟩
  have hstep : ∀ n p, Unobstructed p ∧ p.1.config = s.config →
      Unobstructed (keeperTick slots orders n p) ∧
        (keeperTick slots orders n p).1.config = s.config := by
    intro n p hp
    refine ⟨(keeperTick_of hp.1 slots orders n).1, ?_⟩
    rw [← hp.2]
    unfold keeperTick
    obtain ⟨actions, hplan, -⟩ :=
      @Scheduler.plan_of p.2.view p.1 hp.1.tended.kept.indexed.not_faulty (orders n)
    simp only [hplan]
    rfl
  have hsettled : Settled (iterate (keeperTick slots orders) (s, x) n) := by
    refine settles (I := fun p => Unobstructed p ∧ p.1.config = s.config) hstep ?_ ?_
      ⟨hstart, rfl⟩ hn
    · intro n p _ hd
      rw [keeperTick_settled hd]
      exact hd
    · exact fun n p hp hd => (keeperTick_of hp.1 slots orders n).2 hd
  have hend := iterate_keeps hstep ⟨hstart, rfl⟩ n
  exact ⟨hsettled, fun hclose key account ha => hend.1.idle hsettled
    ((congrArg SchedulerConfig.closeDeadBuckets hend.2).trans hclose) ha⟩

def laggingRun : List (RuntimeOp ⊕ UpkeepOp) :=
  [.inl (.addSubPool 0 (amount 0) 0), .inr (.lifecycle (.preInitDormantBucket 0 .long 80)),
    .inl (.operation (.open 0 .long (amount 100) (quoteAt (amount 100)))),
    .inl (.operation (.open 0 .short (amount 200) (quoteAt (amount 100)))),
    .inl (.operation (.sync 0 (quoteAt (amount 80)))),
    .inl (.operation (.sync 0 (quoteAt (amount 90))))]

theorem laggingRun_tidy : Along RuntimeOp.step UpkeepOp.apply RuntimeOp.Tidy laggingRun
    (.new (smallAccount .lazy) true) :=
  ⟨rfl, .inl (by decide +kernel), .inl (by decide +kernel), .inl (by decide +kernel),
    .inl (by decide +kernel), trivial⟩

def lagging : ChainRuntime :=
  (trace RuntimeOp.step UpkeepOp.apply laggingRun (.new (smallAccount .lazy) true)).2

def askingShort : Scheduler := (Scheduler.new .default).recordInitHint 0 .short 120 .explicit

/-- One account is opened, found dead and closed, the other is served. -/
theorem lagging_settles :
    let p := iterate (keeperTick id fun _ => .byKey) (askingShort, lagging) 4
    (∀ order, p.1.plan order p.2.view = .ok ([], p.1)) ∧
      (askingShort.config.closeDeadBuckets = true → ∀ key account,
        p.2.buckets.get? key = some account → account.record.isDead = false) := by
  have haccounts : ∀ e ∈ lagging.buckets.entries, e.2.record.isDead = false ∧
      lagging.head (BucketKey.subPoolId e.1) (BucketKey.direction e.1) = some 1 := by
    decide +kernel
  have hhints : ∀ e ∈ askingShort.initHints.entries,
      lagging.head (BucketKey.subPoolId e.1) (BucketKey.direction e.1) = some 0 := by
    decide +kernel
  have hserves : Serves lagging.market.params 1 :=
    ⟨by decide +kernel, by decide +kernel, by decide +kernel⟩
  have hleft : ticksLeft (askingShort, lagging) ≤ 4 := by decide +kernel
  have hsettles := keeper_settles (smallAccount .lazy) true laggingRun askingShort id
    (fun _ => .byKey) laggingRun_tidy
  unfold lagging at haccounts hhints hserves hleft ⊢
  generalize (trace RuntimeOp.step UpkeepOp.apply laggingRun (.new (smallAccount .lazy) true)).2
    = x at haccounts hhints hserves hleft hsettles ⊢
  refine hsettles ?_ ?_ ?_ 4 hleft
  · intro id d tick account n ha _ hdead
    have hlive := (haccounts _ (OrdMap.get?_eq_some.mp ha)).1
    exact absurd hdead (by simp [hlive])
  · intro id d tick account n ha hn _ _
    have hone := (haccounts _ (OrdMap.get?_eq_some.mp ha)).2
    have hn : n = 1 := Option.some.inj (hn.symm.trans hone)
    exact ⟨hserves.schema, hserves.unpaused, (Nat.sub_le n _).trans (hn ▸ hserves.budget)⟩
  · intro key rationale hkey
    have hzero := hhints _ (OrdMap.get?_eq_some.mp hkey)
    exact .inl fun n hn => Option.some.inj (hn.symm.trans hzero)

/-! In strict mode a dead account that is behind is never closed. -/

section Straggler
variable {x y : ChainRuntime} {a : KeeperAction} {id n : Nat} {d : Direction} {tick : Int}
  {account : DormantBucketAccount}

structure Straggles (id : Nat) (d : Direction) (tick : Int) (account : DormantBucketAccount)
    (n : Nat) (x : ChainRuntime) : Prop where
  kept : x.Kept
  strict : x.strictPdaLifecycle = true
  there : x.buckets.get? (bucketKey id d tick) = some account
  head : x.head id d = some n
  dead : account.record.isDead = true
  behind : account.record.lastAppliedIndex < n

theorem Executed.straggler (h : Executed x y a) (hs : Straggles id d tick account n x) :
    y.buckets.get? (bucketKey id d tick) = some account := by
  have hthere := hs.there
  cases h with
  | caughtUp i e j pending h =>
    by_cases hkey : bucketKey id d tick = bucketKey i e j
    · obtain ⟨rfl, rfl, rfl⟩ := BucketKey.bucketKey_inj.mp hkey
      obtain ⟨old, _, _, hold, hlive, -⟩ := h.served
      cases hold.symm.trans hthere
      exact absurd hs.dead (by simp [hlive])
    · obtain hsame | ⟨hloose, -, -⟩ := h.others _ hkey
      · exact hsame.trans hthere
      · cases hs.strict.symm.trans hloose
  | closed i e j old m there dead head applied after =>
    subst after
    have hne : bucketKey id d tick ≠ bucketKey i e j := by
      intro hkey
      obtain ⟨rfl, rfl, rfl⟩ := BucketKey.bucketKey_inj.mp hkey
      cases there.symm.trans hthere
      cases head.symm.trans hs.head
      exact absurd hs.behind (Nat.not_lt.mpr applied)
    rw [OrdMap.get?_erase, if_neg hne, hthere]
  | initialised i e j rationale absent after =>
    subst after
    have hne : bucketKey id d tick ≠ bucketKey i e j := by
      intro hkey
      rw [← hkey, hthere] at absent
      cases absent
    rw [OrdMap.get?_insert_ne _ _ hne, hthere]

theorem Straggles.foldl (slot : Nat) {actions : List KeeperAction}
    (h : Straggles id d tick account n x) :
    Straggles id d tick account n (actions.foldl (fun x a => execute slot a x) x) := by
  induction actions generalizing x with
  | nil => exact h
  | cons a actions ih =>
    rw [List.foldl_cons]
    refine ih (x := execute slot a x) ?_
    have hupkept := execute_upkept h.kept slot a
    refine ⟨execute_kept h.kept slot a, hupkept.strict.trans h.strict, ?_,
      (hupkept.head id d).trans h.head, h.dead, h.behind⟩
    cases execute_cases h.kept slot a with
    | inl hx =>
      rw [hx]
      exact h.there
    | inr hx => exact hx.straggler h

end Straggler

/-- In strict mode, after any tidy run, no tick closes a dead account that is behind its ledger,
    and a keeper that minds its backlog has something planned at every tick. -/
theorem straggler_stays (market : MarketAccount) (strict : Bool)
    (ops : List (RuntimeOp ⊕ UpkeepOp)) (s : Scheduler) (slots : Nat → Nat)
    (orders : Nat → HintOrder)
    (ht : Along RuntimeOp.step UpkeepOp.apply RuntimeOp.Tidy ops (.new market strict))
    (id : Nat) (d : Direction) (tick : Int) (account : DormantBucketAccount) (n : Nat) :
    let x := (trace RuntimeOp.step UpkeepOp.apply ops (.new market strict)).2
    x.strictPdaLifecycle = true → x.buckets.get? (bucketKey id d tick) = some account →
    x.head id d = some n → account.record.isDead = true →
      IsDue s.config n account.record.lastAppliedIndex →
    ∀ m, let p := iterate (keeperTick slots orders) (s, x) m
      p.2.buckets.get? (bucketKey id d tick) = some account ∧
        ∀ order, ∃ actions s', p.1.plan order p.2.view = .ok (actions, s') ∧ actions ≠ [] := by
  intro x hstrict hthere hhead hdead hdue m
  have hplan : ∀ p : Scheduler × ChainRuntime, Straggles id d tick account n p.2 ∧
      p.1.config = s.config → ∀ order, ∃ actions,
        p.1.plan order p.2.view = .ok (actions, p.1.withoutEmitted p.2.view) ∧ actions ≠ [] := by
    rintro ⟨s', y⟩ ⟨hs, hconfig⟩ order
    obtain ⟨actions, hplan, -, -, hnil⟩ :=
      @Scheduler.plan_of y.view s' hs.kept.indexed.not_faulty order
    refine ⟨actions, hplan, fun hempty => ?_⟩
    have hconfig : s'.config = s.config := hconfig
    obtain ⟨a, hcalls⟩ := calls_of hs.kept.indexed hs.there hs.head (.inl (hconfig ▸ hdue))
    exact (hnil.mp hempty).2 a hcalls
  have hstep : ∀ n' p, Straggles id d tick account n p.2 ∧ p.1.config = s.config →
      Straggles id d tick account n (keeperTick slots orders n' p).2 ∧
        (keeperTick slots orders n' p).1.config = s.config := by
    intro n' p hp
    obtain ⟨actions, hrun, -⟩ := hplan p hp (orders n')
    have htick : keeperTick slots orders n' p = (p.1.withoutEmitted p.2.view,
        actions.foldl (fun x a => execute (slots n') a x) p.2) := by
      unfold keeperTick
      simp only [hrun]
    rw [htick]
    exact ⟨hp.1.foldl (slots n'), hp.2⟩
  have hstart : Straggles id d tick account n x :=
    ⟨ChainRuntime.trace_kept market strict ht, hstrict, hthere, hhead, hdead, by
      have hpos := hdue.2
      omega⟩
  have hend : Straggles id d tick account n (iterate (keeperTick slots orders) (s, x) m).2 ∧
      (iterate (keeperTick slots orders) (s, x) m).1.config = s.config :=
    iterate_keeps (I := fun p : Scheduler × ChainRuntime =>
      Straggles id d tick account n p.2 ∧ p.1.config = s.config) hstep ⟨hstart, rfl⟩ m
  refine ⟨hend.1.there, fun order => ?_⟩
  obtain ⟨actions, hrun, hne⟩ := hplan _ hend order
  exact ⟨actions, _, hrun, hne⟩

def strandedRun : List (RuntimeOp ⊕ UpkeepOp) :=
  laggingRun ++ [.inr (.lifecycle (.preInitDormantBucket 0 .long 70))]

theorem strandedRun_tidy : Along RuntimeOp.step UpkeepOp.apply RuntimeOp.Tidy strandedRun
    (.new (smallAccount .lazy) true) :=
  ⟨rfl, .inl (by decide +kernel), .inl (by decide +kernel), .inl (by decide +kernel),
    .inl (by decide +kernel), trivial⟩

def stranded : ChainRuntime :=
  (trace RuntimeOp.step UpkeepOp.apply strandedRun (.new (smallAccount .lazy) true)).2

/-- The account opened late is planned for, and refused, for ever. -/
theorem stranded_stays :
    ∃ account, ∀ m, let p := iterate (keeperTick id fun _ => .byKey) (askingShort, stranded) m
      p.2.buckets.get? (bucketKey 0 .long 70) = some account ∧
        ∀ order, ∃ actions s', p.1.plan order p.2.view = .ok (actions, s') ∧ actions ≠ [] := by
  have hfound : (stranded.buckets.get? (bucketKey 0 .long 70)).map
      (fun a => (a.record.isDead, a.record.lastAppliedIndex)) = some (true, 0) := by
    decide +kernel
  have hhead : stranded.head 0 .long = some 1 := by decide +kernel
  have hstrict : stranded.strictPdaLifecycle = true := by decide +kernel
  obtain ⟨account, hget, hrecord⟩ := Option.map_eq_some_iff.mp hfound
  have hdead : account.record.isDead = true := congrArg Prod.fst hrecord
  have happlied : account.record.lastAppliedIndex = 0 := congrArg Prod.snd hrecord
  have hstays := straggler_stays (smallAccount .lazy) true strandedRun askingShort id
    (fun _ => .byKey) strandedRun_tidy 0 .long 70 account 1
  unfold stranded at hget hhead hstrict ⊢
  generalize (trace RuntimeOp.step UpkeepOp.apply strandedRun (.new (smallAccount .lazy) true)).2
    = x at hget hhead hstrict hstays ⊢
  refine ⟨account, hstays hstrict hget hhead hdead ?_⟩
  rw [happlied]
  decide

end Runtime
end MoleFinance
