import MoleFinance.Keeper.LeaderLock
import MoleFinance.Lib.Call

/-! The leader-lock instructions of the program. -/
namespace MoleFinance
open Call Trace

def defaultTakeoverThresholdSlots : Nat := 75

/-- Anybody may create the lock; nobody holds it then. -/
def initializeKeeperLeaderLock (clockSlot : Nat) : KeeperLeaderLock :=
  ⟨false, 0, clockSlot, defaultTakeoverThresholdSlots⟩

/-- Not before the recorded slot, and not ahead of the chain. -/
def validateObservedSlot (observedSlot recordedSlot chainSlot : Nat) :
    Except ProgramError Unit := do
  ensure (recordedSlot ≤ observedSlot) .keeperLeaderClockSkew
  ensure (observedSlot ≤ chainSlot) .keeperLeaderClockSkew

def isLockStale (lock : KeeperLeaderLock) (currentSlot : Nat) : Bool :=
  if !lock.hasLeader then true
  else decide (lock.takeoverThresholdSlots < currentSlot - lock.lastHeartbeatSlot)

/-- Strict takeover: only of a stale lock, its own included. -/
def keeperLeaderAcquire (lock : KeeperLeaderLock) (signer : Pubkey)
    (chainSlot observedSlot : Nat) : Except ProgramError KeeperLeaderLock := do
  validateObservedSlot observedSlot lock.lastHeartbeatSlot chainSlot
  ensure (isLockStale lock observedSlot = true) .keeperLeaderAcquireWhileFresh
  return { lock with
    hasLeader := true
    currentLeader := signer
    lastHeartbeatSlot := observedSlot }

def keeperLeaderHeartbeat (lock : KeeperLeaderLock) (signer : Pubkey)
    (chainSlot observedSlot : Nat) : Except ProgramError KeeperLeaderLock := do
  validateObservedSlot observedSlot lock.lastHeartbeatSlot chainSlot
  if !lock.hasLeader then
    return { lock with
      hasLeader := true
      currentLeader := signer
      lastHeartbeatSlot := observedSlot }
  else if lock.currentLeader = signer then
    return { lock with lastHeartbeatSlot := observedSlot }
  else if isLockStale lock observedSlot then
    return { lock with currentLeader := signer, lastHeartbeatSlot := observedSlot }
  else .error .keeperLeaderHeldByOther

def keeperLeaderRelease (lock : KeeperLeaderLock) (signer : Pubkey) (chainSlot : Nat) :
    Except ProgramError KeeperLeaderLock := do
  ensure (lock.hasLeader = true) .keeperLeaderNotHeld
  ensure (lock.currentLeader = signer) .keeperLeaderNotHolder
  return { lock with
    hasLeader := false
    currentLeader := 0
    lastHeartbeatSlot := chainSlot }

inductive LockInstruction where
  | acquire (observedSlot : Nat)
  | heartbeat (observedSlot : Nat)
  | release
deriving DecidableEq

structure LockTx where
  signer : Pubkey
  slot : Nat
  instruction : LockInstruction

namespace LockTx

def exec (tx : LockTx) (lock : KeeperLeaderLock) : Except ProgramError KeeperLeaderLock :=
  match tx.instruction with
  | .acquire observed => keeperLeaderAcquire lock tx.signer tx.slot observed
  | .heartbeat observed => keeperLeaderHeartbeat lock tx.signer tx.slot observed
  | .release => keeperLeaderRelease lock tx.signer tx.slot

def step (tx : LockTx) (lock : KeeperLeaderLock) : Option ProgramError × KeeperLeaderLock :=
  match tx.exec lock with
  | .error e => (some e, lock)
  | .ok lock' => (none, lock')

end LockTx

def KeeperLeaderLock.lease (lock : KeeperLeaderLock) : Lease Pubkey :=
  ⟨lock.currentLeaderPubkey, lock.lastHeartbeatSlot⟩

section Handlers
variable {lock lock' : KeeperLeaderLock} {signer : Pubkey} {chainSlot observed grace : Nat}

theorem validateObservedSlot_ok {recorded : Nat} {u : Unit}
    (h : validateObservedSlot observed recorded chainSlot = .ok u) :
    recorded ≤ observed ∧ observed ≤ chainSlot := by
  obtain ⟨_, hle, h⟩ := except_bind_ok.mp h
  exact ⟨ensure_ok.mp hle, ensure_ok.mp h⟩

theorem isLockStale_free (hg : lock.takeoverThresholdSlots = grace)
    (h : isLockStale lock observed = true) :
    lock.currentLeaderPubkey = none ∨ lock.lastHeartbeatSlot + grace < observed := by
  unfold isLockStale at h
  unfold KeeperLeaderLock.currentLeaderPubkey
  cases hl : lock.hasLeader with
  | false => exact .inl rfl
  | true =>
    simp only [hl, Bool.not_true, Bool.false_eq_true, if_false, decide_eq_true_eq] at h
    right
    omega

theorem keeperLeaderAcquire_step (hg : lock.takeoverThresholdSlots = grace)
    (h : keeperLeaderAcquire lock signer chainSlot observed = .ok lock') :
    lock'.takeoverThresholdSlots = grace ∧
      Lease.Step grace chainSlot signer lock.lease lock'.lease := by
  obtain ⟨_, hslot, h⟩ := except_bind_ok.mp h
  obtain ⟨hle, hle'⟩ := validateObservedSlot_ok hslot
  obtain ⟨_, hstale, h⟩ := except_bind_ok.mp h
  cases h
  refine ⟨hg, .taken observed hle hle' ?_⟩
  obtain hfree | hlate := isLockStale_free hg (ensure_ok.mp hstale)
  · exact .inl hfree
  · exact .inr (.inr hlate)

theorem keeperLeaderHeartbeat_step (hg : lock.takeoverThresholdSlots = grace)
    (h : keeperLeaderHeartbeat lock signer chainSlot observed = .ok lock') :
    lock'.takeoverThresholdSlots = grace ∧
      Lease.Step grace chainSlot signer lock.lease lock'.lease := by
  obtain ⟨_, hslot, h⟩ := except_bind_ok.mp h
  obtain ⟨hle, hle'⟩ := validateObservedSlot_ok hslot
  have taken : ∀ l' : KeeperLeaderLock, l'.takeoverThresholdSlots = lock.takeoverThresholdSlots →
      l'.currentLeaderPubkey = some signer → l'.lastHeartbeatSlot = observed →
      (lock.currentLeaderPubkey = none ∨ lock.currentLeaderPubkey = some signer ∨
        lock.lastHeartbeatSlot + grace < observed) →
      l'.takeoverThresholdSlots = grace ∧
        Lease.Step grace chainSlot signer lock.lease l'.lease := by
    intro l' hthreshold hleader hstamp hfree
    refine ⟨hthreshold.trans hg, ?_⟩
    have hlease : l'.lease = ⟨some signer, observed⟩ := by
      unfold KeeperLeaderLock.lease
      rw [hleader, hstamp]
    rw [hlease]
    exact .taken observed hle hle' hfree
  cases hl : lock.hasLeader with
  | false =>
    simp only [hl, Bool.not_false, if_true] at h
    cases h
    exact taken _ rfl rfl rfl (.inl (by simp [KeeperLeaderLock.currentLeaderPubkey, hl]))
  | true =>
    simp only [hl, Bool.not_true, Bool.false_eq_true, if_false] at h
    split_ifs at h with hself hstale
    · cases h
      have hleader : lock.currentLeaderPubkey = some signer :=
        KeeperLeaderLock.leader_iff.mpr ⟨hl, hself⟩
      exact taken _ rfl (KeeperLeaderLock.leader_iff.mpr ⟨rfl, hself⟩) rfl (.inr (.inl hleader))
    · cases h
      have hfree := isLockStale_free hg hstale
      refine taken _ rfl (by simp [KeeperLeaderLock.currentLeaderPubkey]) rfl ?_
      exact hfree.elim .inl fun hlate => .inr (.inr hlate)

theorem keeperLeaderRelease_step (hg : lock.takeoverThresholdSlots = grace)
    (h : keeperLeaderRelease lock signer chainSlot = .ok lock') :
    lock'.takeoverThresholdSlots = grace ∧
      Lease.Step grace chainSlot signer lock.lease lock'.lease := by
  obtain ⟨_, hheld, h⟩ := except_bind_ok.mp h
  obtain ⟨_, hself, h⟩ := except_bind_ok.mp h
  cases h
  have hleader := KeeperLeaderLock.leader_iff.mpr ⟨ensure_ok.mp hheld, ensure_ok.mp hself⟩
  exact ⟨hg, .released hleader⟩

theorem LockTx.step_lease (tx : LockTx) (hg : lock.takeoverThresholdSlots = grace) :
    (tx.step lock).2.takeoverThresholdSlots = grace ∧
      Lease.Step grace tx.slot tx.signer lock.lease (tx.step lock).2.lease := by
  unfold LockTx.step
  cases he : tx.exec lock with
  | error e => exact ⟨hg, .refused⟩
  | ok l' =>
    unfold LockTx.exec at he
    cases hi : tx.instruction with
    | acquire observed =>
      rw [hi] at he
      exact keeperLeaderAcquire_step hg he
    | heartbeat observed =>
      rw [hi] at he
      exact keeperLeaderHeartbeat_step hg he
    | release =>
      rw [hi] at he
      exact keeperLeaderRelease_step hg he

theorem LockTx.step_leader {tx : LockTx} (hr : tx.instruction ≠ .release)
    (h : lock.currentLeaderPubkey ≠ none) : (tx.step lock).2.currentLeaderPubkey ≠ none := by
  unfold LockTx.step
  cases he : tx.exec lock with
  | error e => exact h
  | ok l' =>
    unfold LockTx.exec at he
    cases hi : tx.instruction with
    | acquire observed =>
      rw [hi] at he
      obtain ⟨_, -, he⟩ := except_bind_ok.mp he
      obtain ⟨_, -, he⟩ := except_bind_ok.mp he
      cases he
      simp [KeeperLeaderLock.currentLeaderPubkey]
    | heartbeat observed =>
      rw [hi] at he
      obtain ⟨_, -, he⟩ := except_bind_ok.mp he
      cases hl : lock.hasLeader with
      | false => simp [KeeperLeaderLock.currentLeaderPubkey, hl] at h
      | true =>
        simp only [hl, Bool.not_true, Bool.false_eq_true, if_false] at he
        split_ifs at he <;> cases he <;> simp [KeeperLeaderLock.currentLeaderPubkey]
    | release => exact absurd hi hr

end Handlers

def lockAfter (clock : Nat) (txs : List LockTx) : KeeperLeaderLock :=
  (run LockTx.step txs (initializeKeeperLeaderLock clock)).2

theorem lockAfter_append (clock : Nat) (txs later : List LockTx) :
    lockAfter clock (txs ++ later) = (run LockTx.step later (lockAfter clock txs)).2 := by
  unfold lockAfter
  rw [run_append]

theorem LockTx.step_default (tx : LockTx) (lock : KeeperLeaderLock)
    (h : lock.takeoverThresholdSlots = defaultTakeoverThresholdSlots) :
    (tx.step lock).2.takeoverThresholdSlots = defaultTakeoverThresholdSlots ∧
      Lease.Step defaultTakeoverThresholdSlots tx.slot tx.signer lock.lease
        (tx.step lock).2.lease := tx.step_lease h

theorem lockAfter_threshold (clock : Nat) (txs : List LockTx) :
    (lockAfter clock txs).takeoverThresholdSlots = defaultTakeoverThresholdSlots := by
  refine run_preserves
    (I := fun l : KeeperLeaderLock => l.takeoverThresholdSlots = defaultTakeoverThresholdSlots)
    (fun tx l hl => (LockTx.step_default tx l hl).1) rfl

theorem lockAfter_slot_le {clock : Nat} {txs : List LockTx} {later : Nat}
    (hclock : Lease.Clocked LockTx.slot clock txs) (hall : ∀ tx ∈ txs, tx.slot ≤ later)
    (hstart : clock ≤ later) : (lockAfter clock txs).lastHeartbeatSlot ≤ later := by
  refine (Lease.run_stamp_le LockTx.step_default rfl ?_ hclock).2 later hall hstart
  exact le_rfl

/-- Whatever the keepers send, a leader that does not release is not displaced before its
    heartbeat is older than the threshold, and the recorded slot never goes back. -/
theorem leader_exclusive (clock : Nat) (txs : List LockTx)
    (hclock : Lease.Clocked LockTx.slot clock txs) :
    (∀ before tx after, txs = before ++ tx :: after →
      (lockAfter clock before).lastHeartbeatSlot
        ≤ (lockAfter clock (before ++ [tx])).lastHeartbeatSlot) ∧
    ∀ before tx during last after, txs = before ++ tx :: (during ++ last :: after) →
      (tx.step (lockAfter clock before)).1 = none →
      (lockAfter clock (before ++ [tx])).currentLeaderPubkey = some tx.signer →
      (∀ t ∈ during ++ [last], t.signer = tx.signer → t.instruction ≠ .release) →
      last.slot ≤ (lockAfter clock (before ++ [tx])).lastHeartbeatSlot
        + (lockAfter clock (before ++ [tx])).takeoverThresholdSlots →
      (lockAfter clock (before ++ tx :: (during ++ [last]))).currentLeaderPubkey
        = some tx.signer := by
  constructor
  · rintro before tx after rfl
    obtain ⟨hpre, hle, hstart, -⟩ := hclock.split
    have hbefore : Lease.Clocked LockTx.slot clock before := by
      unfold Lease.Clocked at hpre ⊢
      rw [List.map_append, ← List.cons_append] at hpre
      exact (List.pairwise_append.mp hpre).1
    have hbehind : (lockAfter clock before).lastHeartbeatSlot ≤ tx.slot :=
      lockAfter_slot_le hbefore (fun t ht => hle t (List.mem_append_left _ ht)) hstart
    rw [lockAfter_append]
    exact ((LockTx.step_default tx _ (lockAfter_threshold clock before)).2.stamp_le hbehind).1
  · rintro before tx during last after rfl - hleader hkeep hslot
    obtain ⟨hpre, hle, hstart, hrest, -⟩ := hclock.split
    have hbehind := lockAfter_slot_le hpre hle hstart
    obtain ⟨hduring, hlast, -⟩ := hrest.split
    have hsplit : before ++ tx :: (during ++ [last]) = before ++ [tx] ++ (during ++ [last]) := by
      simp
    rw [hsplit, lockAfter_append]
    rw [lockAfter_threshold] at hslot
    exact Lease.run_holder_kept LockTx.step_default (lockAfter_threshold clock _) hbehind hduring
      hleader (fun t ht => (hlast t ht).trans hslot)
      (fun t ht he l hl => LockTx.step_leader (hkeep t ht he) (by
        have hl' : l.currentLeaderPubkey = some tx.signer := hl
        rw [hl']
        exact Option.some_ne_none _))

/-- One keeper leads at 10, another one tries in vain at 85 and succeeds at 86. -/
def handover : List LockTx :=
  [⟨1, 10, .heartbeat 10⟩, ⟨2, 85, .acquire 85⟩, ⟨2, 86, .acquire 86⟩]

theorem handover_exclusive :
    (lockAfter 5 (handover.take 2)).currentLeaderPubkey = some 1 ∧
      (lockAfter 5 handover).currentLeaderPubkey = some 2 := by
  refine ⟨?_, by decide⟩
  exact (leader_exclusive 5 handover (by decide)).2 [] ⟨1, 10, .heartbeat 10⟩ []
    ⟨2, 85, .acquire 85⟩ [⟨2, 86, .acquire 86⟩] rfl (by decide) (by decide) (by decide) (by decide)

/-- Heartbeats and releases as they come, the observed slot not ahead of the chain. -/
def LockTx.Mirrored (tx : LockTx) : Prop :=
  match tx.instruction with
  | .acquire _ => False
  | .heartbeat observed => observed ≤ tx.slot
  | .release => True

instance (tx : LockTx) : Decidable tx.Mirrored := by
  unfold LockTx.Mirrored
  cases tx.instruction with
  | acquire => exact instDecidableFalse
  | heartbeat observed => exact Nat.decLe observed tx.slot
  | release => exact instDecidableTrue

def LockTx.hostCall (tx : LockTx) : LockCall :=
  match tx.instruction with
  | .acquire observed => .heartbeat tx.signer observed
  | .heartbeat observed => .heartbeat tx.signer observed
  | .release => .release tx.signer tx.slot

def LockCall.accepted : HeartbeatOutcome ⊕ ReleaseOutcome → Bool
  | .inl outcome => outcome.isLeader
  | .inr outcome => decide (outcome = .released)

def hostLockAfter (clock : Nat) (txs : List LockTx) : KeeperLeaderLock :=
  (run LockCall.step (txs.map LockTx.hostCall)
    (.fresh clock defaultTakeoverThresholdSlots)).2

section Mirror
variable {lock lock' : KeeperLeaderLock} {signer : Pubkey} {chainSlot observed : Nat}

theorem isLockStale_eq : isLockStale lock observed = lock.isStale observed := rfl

theorem validateObservedSlot_of {recorded : Nat} (hpast : recorded ≤ observed)
    (hahead : observed ≤ chainSlot) :
    validateObservedSlot observed recorded chainSlot = .ok () := by
  unfold validateObservedSlot
  rw [ensure_of hpast, ensure_of hahead]
  rfl

theorem keeperLeaderHeartbeat_eq (h : observed ≤ chainSlot) :
    (∃ lock', keeperLeaderHeartbeat lock signer chainSlot observed = .ok lock' ∧
      (lock.tryHeartbeat signer observed).1.isLeader = true ∧
      (lock.tryHeartbeat signer observed).2 = lock') ∨
    ∃ e, keeperLeaderHeartbeat lock signer chainSlot observed = .error e ∧
      (lock.tryHeartbeat signer observed).1.isLeader = false ∧
      (lock.tryHeartbeat signer observed).2 = lock := by
  by_cases hpast : observed < lock.lastHeartbeatSlot
  · right
    obtain ⟨hrefused, hsame⟩ := @KeeperLeaderLock.tryHeartbeat_past lock signer observed hpast
    refine ⟨.keeperLeaderClockSkew, ?_, hrefused, hsame⟩
    unfold keeperLeaderHeartbeat validateObservedSlot
    rw [ensure_not (Nat.not_le.mpr hpast)]
    rfl
  · have hchecked := validateObservedSlot_of (Nat.not_lt.mp hpast) h
    unfold keeperLeaderHeartbeat KeeperLeaderLock.tryHeartbeat
    rw [hchecked, if_neg hpast]
    cases hl : lock.hasLeader with
    | false => exact .inl ⟨_, rfl, rfl, rfl⟩
    | true =>
      by_cases hself : lock.currentLeader = signer
      · -- the holder's own heartbeat is never refused, only reported differently once stale
        left
        refine ⟨{ lock with lastHeartbeatSlot := observed }, ?_, ?_, ?_⟩
        · simp [hself, hl]
        · by_cases hstale : lock.isStale observed = true
          · simp [hself, hstale, HeartbeatOutcome.isLeader]
          · simp [hself, hstale, HeartbeatOutcome.isLeader]
        · simp [hself, hl]
      · by_cases hstale : lock.isStale observed = true
        · left
          refine ⟨{ lock with currentLeader := signer, lastHeartbeatSlot := observed }, ?_, ?_, ?_⟩
          · simp [hself, isLockStale_eq, hstale, hl]
          · simp [hself, hstale, HeartbeatOutcome.isLeader]
          · simp [hself, hstale, hl]
        · right
          refine ⟨.keeperLeaderHeldByOther, ?_, ?_, ?_⟩
          · simp [ok_bind, hself, isLockStale_eq, hstale]
          · simp [hself, hstale, HeartbeatOutcome.isLeader]
          · simp [hself, hstale]

theorem keeperLeaderRelease_eq :
    (∃ lock', keeperLeaderRelease lock signer chainSlot = .ok lock' ∧
      (lock.tryRelease signer chainSlot).1 = .released ∧
      (lock.tryRelease signer chainSlot).2 = lock') ∨
    ∃ e, keeperLeaderRelease lock signer chainSlot = .error e ∧
      (lock.tryRelease signer chainSlot).1 ≠ .released ∧
      (lock.tryRelease signer chainSlot).2 = lock := by
  unfold keeperLeaderRelease KeeperLeaderLock.tryRelease
  cases hl : lock.hasLeader with
  | false => exact .inr ⟨.keeperLeaderNotHeld, rfl, by simp, by simp⟩
  | true =>
    rw [ensure_of rfl]
    by_cases hself : lock.currentLeader = signer
    · rw [ensure_of hself]
      exact .inl ⟨_, rfl, by simp [hself], by simp [hself]⟩
    · rw [ensure_not hself]
      exact .inr ⟨.keeperLeaderNotHolder, rfl, by simp [hself], by simp [hself]⟩

/-- What may be acquired may be had by a heartbeat, with the same effect. -/
theorem tryHeartbeat_of_acquire
    (h : keeperLeaderAcquire lock signer chainSlot observed = .ok lock') :
    (lock.tryHeartbeat signer observed).1.isLeader = true ∧
      (lock.tryHeartbeat signer observed).2 = lock' := by
  obtain ⟨_, hslot, h⟩ := except_bind_ok.mp h
  obtain ⟨hpast, -⟩ := validateObservedSlot_ok hslot
  obtain ⟨_, hstale, h⟩ := except_bind_ok.mp h
  have hstale' : lock.isStale observed = true := ensure_ok.mp hstale
  cases h
  unfold KeeperLeaderLock.tryHeartbeat
  rw [if_neg (Nat.not_lt.mpr hpast)]
  cases hl : lock.hasLeader with
  | false => exact ⟨rfl, rfl⟩
  | true =>
    by_cases hself : lock.currentLeader = signer
    · simp [hself, hstale', HeartbeatOutcome.isLeader]
    · simp [hself, hstale', HeartbeatOutcome.isLeader]

theorem LockTx.step_mirrored {tx : LockTx} (h : tx.Mirrored) (lock : KeeperLeaderLock) :
    (tx.hostCall.step lock).2 = (tx.step lock).2 ∧
      ((tx.step lock).1 = none ↔ LockCall.accepted (tx.hostCall.step lock).1 = true) := by
  unfold LockTx.Mirrored at h
  unfold LockTx.step LockTx.exec LockTx.hostCall
  cases hi : tx.instruction with
  | acquire observed =>
    rw [hi] at h
    exact h.elim
  | heartbeat observed =>
    rw [hi] at h
    have hslot : observed ≤ tx.slot := h
    obtain ⟨lock', hexec, hyes, hlock⟩ | ⟨e, hexec, hno, hlock⟩ :=
      @keeperLeaderHeartbeat_eq lock tx.signer tx.slot observed hslot
    · simp [hexec, LockCall.step, LockCall.accepted, hyes, hlock]
    · simp [hexec, LockCall.step, LockCall.accepted, hno, hlock]
  | release =>
    obtain ⟨lock', hexec, hyes, hlock⟩ | ⟨e, hexec, hno, hlock⟩ :=
      @keeperLeaderRelease_eq lock tx.signer tx.slot
    · simp [hexec, LockCall.step, LockCall.accepted, hyes, hlock]
    · simp [hexec, LockCall.step, LockCall.accepted, hno, hlock]

theorem run_mirrored {txs : List LockTx} (h : ∀ tx ∈ txs, tx.Mirrored) (lock : KeeperLeaderLock) :
    (run LockCall.step (txs.map LockTx.hostCall) lock).2 = (run LockTx.step txs lock).2 := by
  induction txs generalizing lock with
  | nil => rfl
  | cons tx txs ih =>
    have hstep := (LockTx.step_mirrored (h tx List.mem_cons_self) lock).1
    simp only [List.map_cons, run, hstep]
    exact ih (fun t ht => h t (List.mem_cons_of_mem _ ht)) _

theorem hostLockAfter_eq {clock : Nat} {txs : List LockTx} (h : ∀ tx ∈ txs, tx.Mirrored) :
    hostLockAfter clock txs = lockAfter clock txs :=
  run_mirrored h _

end Mirror

/-- The host's lock follows the chain's through every run of heartbeats and releases, and accepts
    whatever the strict takeover does. -/
theorem host_lock_mirrors (clock : Nat) (txs : List LockTx) (h : ∀ tx ∈ txs, tx.Mirrored) :
    (∀ before tx after, txs = before ++ tx :: after →
      hostLockAfter clock before = lockAfter clock before ∧
      hostLockAfter clock (before ++ [tx]) = lockAfter clock (before ++ [tx]) ∧
      ((tx.step (lockAfter clock before)).1 = none ↔
        LockCall.accepted (tx.hostCall.step (hostLockAfter clock before)).1 = true)) ∧
    ∀ (lock lock' : KeeperLeaderLock) signer chainSlot observed,
      keeperLeaderAcquire lock signer chainSlot observed = .ok lock' →
        (lock.tryHeartbeat signer observed).1.isLeader = true ∧
          (lock.tryHeartbeat signer observed).2 = lock' := by
  refine ⟨?_, fun lock lock' signer chainSlot observed => tryHeartbeat_of_acquire⟩
  rintro before tx after rfl
  have hbefore : ∀ t ∈ before, t.Mirrored := fun t ht => h t (List.mem_append_left _ ht)
  have htx : tx.Mirrored := h tx (by simp)
  have hthrough : ∀ t ∈ before ++ [tx], t.Mirrored := by
    intro t ht
    obtain ht | ht := List.mem_append.mp ht
    · exact hbefore t ht
    · rw [List.mem_singleton.mp ht]
      exact htx
  refine ⟨hostLockAfter_eq hbefore, hostLockAfter_eq hthrough, ?_⟩
  rw [hostLockAfter_eq hbefore]
  exact (LockTx.step_mirrored htx _).2

/-- A takeover, the old holder's late heartbeat, a release at 200, and a heartbeat observed
    before it. -/
def relay : List LockTx :=
  [⟨1, 10, .heartbeat 10⟩, ⟨2, 100, .heartbeat 95⟩, ⟨1, 120, .heartbeat 120⟩, ⟨2, 200, .release⟩,
    ⟨1, 205, .heartbeat 190⟩, ⟨1, 205, .heartbeat 201⟩]

theorem relay_mirrored :
    hostLockAfter 5 (relay.take 4) = ⟨false, 0, 200, 75⟩ ∧
      LockCall.accepted
        ((⟨1, 205, .heartbeat 190⟩ : LockTx).hostCall.step (hostLockAfter 5 (relay.take 4))).1
          = false ∧
      lockAfter 5 relay = ⟨true, 1, 201, 75⟩ ∧ hostLockAfter 5 relay = lockAfter 5 relay := by
  refine ⟨by decide, by decide, by decide, ?_⟩
  exact ((host_lock_mirrors 5 relay (by decide)).1 (relay.take 5) ⟨1, 205, .heartbeat 201⟩ []
    rfl).2.1

end MoleFinance
