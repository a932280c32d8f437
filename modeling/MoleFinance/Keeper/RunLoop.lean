import MoleFinance.Keeper.Handlers

/-! The keeper's run loop, and several of them in front of one lock. A tick refreshes the
snapshot, reconciles the mirror, asks the gate, publishes a heartbeat and dispatches; between
any two of these the other keepers and the chain go on. -/
namespace MoleFinance
open Call Trace

structure HostMirrorLeaderPolicy where
  signer : Pubkey
  inner : KeeperLeaderLock
deriving DecidableEq

namespace HostMirrorLeaderPolicy

def reconcile (policy : HostMirrorLeaderPolicy) (snapshot : KeeperLeaderLock) :
    HostMirrorLeaderPolicy :=
  { policy with inner := snapshot }

/-- The heartbeat takes effect on the mirror before it is sent. -/
def shouldSubmit (policy : HostMirrorLeaderPolicy) (currentSlot : Nat) :
    Bool × HostMirrorLeaderPolicy :=
  ((policy.inner.tryHeartbeat policy.signer currentSlot).1.isLeader,
    { policy with inner := (policy.inner.tryHeartbeat policy.signer currentSlot).2 })

end HostMirrorLeaderPolicy

structure LeaderRpcReconcileConfig where
  reconcileEvery : Option Nat
  heartbeatEvery : Option Nat
  releaseOnShutdown : Bool
deriving DecidableEq

inductive LoopTerminationReason where
  | shutdownSignal
  | tickLimitReached
  | permanentError
deriving DecidableEq

/-- Where in a tick the loop is, with the slot it takes for the current one. -/
inductive LoopPhase where
  | top
  | reconcile (currentSlot : Nat)
  | gate (currentSlot : Nat)
  | heartbeat (currentSlot : Nat)
  | dispatch
  /-- between two actions, with so many behind the next one -/
  | dispatching (left : Nat)
  | exited (reason : LoopTerminationReason)
deriving DecidableEq

def LoopPhase.isDispatch : LoopPhase → Bool
  | .dispatch | .dispatching _ => true
  | _ => false

/-- The variables of `run_loop_with_leader_and_rpc_reconcile`. -/
structure LeaderLoop where
  rpcCfg : LeaderRpcReconcileConfig
  maxTicks : Option Nat
  policy : HostMirrorLeaderPolicy
  ticks : Nat
  lastReconcileTick : Option Nat
  lastHeartbeatTick : Option Nat
  wasLeaderLastTick : Bool
  phase : LoopPhase
deriving DecidableEq

inductive RefreshResult where
  /-- the best slot of the snapshot -/
  | ok (bestSlot : Option Nat)
  | transient
  | permanent
deriving DecidableEq

inductive FetchResult where
  | ok
  | notFound
  | failed
deriving DecidableEq

/-- What the surroundings answer a loop; each phase reads its own part. -/
structure LoopInput where
  shutdown : Bool
  refresh : RefreshResult
  fetch : FetchResult
  /-- the transaction sent reaches the chain -/
  landed : Bool
  /-- its result comes back -/
  confirmed : Bool
  /-- the number of actions `tick_with_snap` plans, if it can plan -/
  planned : Option Nat
deriving DecidableEq

/-- `submit_leader_ix`: whether it returns a signature, and the lock then. -/
def submitLeaderIx (input : LoopInput) (tx : LockTx) (lock : KeeperLeaderLock) :
    Bool × KeeperLeaderLock :=
  if input.landed = true then ((tx.step lock).1.isNone && input.confirmed, (tx.step lock).2)
  else (false, lock)

def cadenceDue (last : Option Nat) (every ticks : Nat) : Bool :=
  match last with
  | none => true
  | some prev => decide (every ≤ ticks - prev)

namespace LeaderLoop

def start (rpcCfg : LeaderRpcReconcileConfig) (maxTicks : Option Nat)
    (policy : HostMirrorLeaderPolicy) : LeaderLoop where
  rpcCfg := rpcCfg
  maxTicks := maxTicks
  policy := policy
  ticks := 0
  lastReconcileTick := none
  lastHeartbeatTick := none
  wasLeaderLastTick := false
  phase := .top

def heartbeatDue (loop : LeaderLoop) : Bool :=
  match loop.rpcCfg.heartbeatEvery with
  | none => false
  | some every => !loop.wasLeaderLastTick || cadenceDue loop.lastHeartbeatTick every loop.ticks

/-- Shutdown with its graceful release, the tick limit, and the snapshot. -/
def beginTick (loop : LeaderLoop) (input : LoopInput) (lock : KeeperLeaderLock) (slot : Nat) :
    LeaderLoop × KeeperLeaderLock :=
  if input.shutdown = true then
    ({ loop with phase := .exited .shutdownSignal },
      if loop.rpcCfg.releaseOnShutdown = true ∧ loop.wasLeaderLastTick = true then
        (submitLeaderIx input ⟨loop.policy.signer, slot, .release⟩ lock).2
      else lock)
  else if loop.maxTicks.any (· ≤ loop.ticks) = true then
    ({ loop with phase := .exited .tickLimitReached }, lock)
  else match input.refresh with
    | .ok bestSlot => ({ loop with phase := .reconcile (bestSlot.getD 0) }, lock)
    | .transient => (loop, lock)
    | .permanent => ({ loop with phase := .exited .permanentError }, lock)

/-- The mirror is replaced at its cadence; a failed fetch leaves it as it is. -/
def reconcileMirror (loop : LeaderLoop) (input : LoopInput) (currentSlot : Nat)
    (lock : KeeperLeaderLock) : LeaderLoop :=
  let loop := { loop with phase := .gate currentSlot }
  match loop.rpcCfg.reconcileEvery with
  | none => loop
  | some every =>
    if cadenceDue loop.lastReconcileTick every loop.ticks = true then
      match input.fetch with
      | .ok => { loop with
          policy := loop.policy.reconcile lock
          lastReconcileTick := some loop.ticks }
      | .notFound => { loop with lastReconcileTick := some loop.ticks }
      | .failed => loop
    else loop

def askGate (loop : LeaderLoop) (currentSlot : Nat) : LeaderLoop :=
  if (loop.policy.shouldSubmit currentSlot).1 = true then
    { loop with
      policy := (loop.policy.shouldSubmit currentSlot).2
      phase := .heartbeat currentSlot }
  else
    { loop with
      policy := (loop.policy.shouldSubmit currentSlot).2
      wasLeaderLastTick := false
      ticks := loop.ticks + 1
      phase := .top }

/-- Whatever becomes of the heartbeat, the loop goes on to dispatch. -/
def publishHeartbeat (loop : LeaderLoop) (input : LoopInput) (currentSlot : Nat)
    (lock : KeeperLeaderLock) (slot : Nat) : LeaderLoop × KeeperLeaderLock :=
  let loop' := { loop with wasLeaderLastTick := true, phase := .dispatch }
  if loop.heartbeatDue = true then
    let sent := submitLeaderIx input ⟨loop.policy.signer, slot, .heartbeat currentSlot⟩ lock
    (if sent.1 = true then { loop' with lastHeartbeatTick := some loop.ticks } else loop', sent.2)
  else (loop', lock)

def dispatchNext (loop : LeaderLoop) : Nat → LeaderLoop
  | 0 => { loop with ticks := loop.ticks + 1, phase := .top }
  | left + 1 => { loop with phase := .dispatching left }

/-- The plan is made and its first action submitted. -/
def dispatchActions (loop : LeaderLoop) (input : LoopInput) : LeaderLoop :=
  match input.planned with
  | none => { loop with phase := .exited .permanentError }
  | some planned => loop.dispatchNext (planned - 1)

/-- One phase: is an action submitted in it, the loop, and the lock on chain. -/
def step (loop : LeaderLoop) (input : LoopInput) (lock : KeeperLeaderLock) (slot : Nat) :
    Bool × LeaderLoop × KeeperLeaderLock :=
  match loop.phase with
  | .top => (false, loop.beginTick input lock slot)
  | .reconcile currentSlot => (false, loop.reconcileMirror input currentSlot lock, lock)
  | .gate currentSlot => (false, loop.askGate currentSlot, lock)
  | .heartbeat currentSlot => (false, loop.publishHeartbeat input currentSlot lock slot)
  | .dispatch => (input.planned.any (0 < ·), loop.dispatchActions input, lock)
  | .dispatching left => (true, loop.dispatchNext left, lock)
  | .exited _ => (false, loop, lock)

end LeaderLoop

namespace LockTx
variable {lock : KeeperLeaderLock} {signer : Pubkey} {slot observed : Nat}

/-- Who leads after a heartbeat: its signer, if nobody kept the lock fresh. -/
theorem heartbeat_leader :
    ((⟨signer, slot, .heartbeat observed⟩ : LockTx).step lock).2.currentLeaderPubkey
      = if lock.lastHeartbeatSlot ≤ observed ∧ observed ≤ slot ∧ isLockStale lock observed = true
        then some signer else lock.currentLeaderPubkey := by
  have hexec : (⟨signer, slot, .heartbeat observed⟩ : LockTx).exec lock
      = keeperLeaderHeartbeat lock signer slot observed := rfl
  unfold step
  rw [hexec]
  by_cases hpast : lock.lastHeartbeatSlot ≤ observed
  · by_cases hahead : observed ≤ slot
    · unfold keeperLeaderHeartbeat
      rw [validateObservedSlot_of hpast hahead, isLockStale_eq]
      cases hl : lock.hasLeader with
      | false =>
        have hstale : lock.isStale observed = true := by simp [KeeperLeaderLock.isStale, hl]
        simp [hpast, hahead, hstale, KeeperLeaderLock.currentLeaderPubkey]
      | true =>
        by_cases hself : lock.currentLeader = signer
        · simp [hself, hl, KeeperLeaderLock.currentLeaderPubkey]
        · by_cases hstale : lock.isStale observed = true
          · simp [hself, hstale, hpast, hahead, KeeperLeaderLock.currentLeaderPubkey]
          · simp [hself, hstale]
    · unfold keeperLeaderHeartbeat validateObservedSlot
      rw [ensure_of hpast, ensure_not hahead]
      simp [hahead]
  · unfold keeperLeaderHeartbeat validateObservedSlot
    rw [ensure_not hpast]
    simp [hpast]

theorem release_leader :
    ((⟨signer, slot, .release⟩ : LockTx).step lock).2.currentLeaderPubkey
      = if lock.currentLeaderPubkey = some signer then none else lock.currentLeaderPubkey := by
  have hexec : (⟨signer, slot, .release⟩ : LockTx).exec lock
      = keeperLeaderRelease lock signer slot := rfl
  unfold step
  rw [hexec]
  unfold keeperLeaderRelease
  cases hl : lock.hasLeader with
  | false =>
    rw [ensure_not Bool.false_ne_true]
    simp [KeeperLeaderLock.currentLeaderPubkey, hl]
  | true =>
    rw [ensure_of rfl]
    by_cases hself : lock.currentLeader = signer
    · rw [ensure_of hself]
      simp [KeeperLeaderLock.currentLeaderPubkey, hl, hself]
    · rw [ensure_not hself]
      simp [KeeperLeaderLock.currentLeaderPubkey, hl, hself]

end LockTx

structure KeeperWorld (κ : Type) where
  lock : KeeperLeaderLock
  slot : Nat
  loops : κ → LeaderLoop

inductive KeeperStep (κ : Type) where
  | advance (slots : Nat)
  | keeper (k : κ) (input : LoopInput)

section World
variable {κ : Type} [DecidableEq κ]

/-- A step, and the keeper that dispatches in it. -/
def KeeperStep.step (next : KeeperStep κ) (w : KeeperWorld κ) : Option κ × KeeperWorld κ :=
  match next with
  | .advance slots => (none, { w with slot := w.slot + slots })
  | .keeper k input =>
    let after := (w.loops k).step input w.lock w.slot
    (if after.1 = true then some k else none,
      { w with lock := after.2.2, loops := Function.update w.loops k after.2.1 })

namespace KeeperWorld

def start (lock : KeeperLeaderLock) (slot : Nat)
    (boot : κ → LeaderRpcReconcileConfig × Option Nat × HostMirrorLeaderPolicy) :
    KeeperWorld κ where
  lock := lock
  slot := slot
  loops := fun k => .start (boot k).1 (boot k).2.1 (boot k).2.2

def Holds (w : KeeperWorld κ) (k : κ) : Prop :=
  w.lock.currentLeaderPubkey = some (w.loops k).policy.signer

def Safe (w : KeeperWorld κ) : Prop := ∀ k, (w.loops k).phase.isDispatch = true → w.Holds k

end KeeperWorld

/-- The heartbeat of this tick is due, reaches the chain, and finds a lock nobody keeps fresh. -/
def LeaderLoop.Takes (loop : LeaderLoop) (input : LoopInput) (observed : Nat)
    (lock : KeeperLeaderLock) (slot : Nat) : Prop :=
  loop.heartbeatDue = true ∧ input.landed = true ∧
    lock.lastHeartbeatSlot ≤ observed ∧ observed ≤ slot ∧ isLockStale lock observed = true

def LeaderLoop.Releases (loop : LeaderLoop) (input : LoopInput) : Prop :=
  input.shutdown = true ∧ loop.rpcCfg.releaseOnShutdown = true ∧
    loop.wasLeaderLastTick = true ∧ input.landed = true

instance (loop : LeaderLoop) (input : LoopInput) : Decidable (loop.Releases input) :=
  inferInstanceAs (Decidable (_ ∧ _ ∧ _ ∧ _))

namespace LeaderLoop
variable {loop : LeaderLoop} {input : LoopInput} {lock : KeeperLeaderLock} {slot : Nat}

theorem beginTick_frame :
    (loop.beginTick input lock slot).1.policy = loop.policy ∧
      (loop.phase = .top →
        (loop.beginTick input lock slot).1.phase.isDispatch = false) := by
  unfold beginTick
  split
  · simp [LoopPhase.isDispatch]
  · split
    · simp [LoopPhase.isDispatch]
    · cases input.refresh with
      | ok bestSlot => simp [LoopPhase.isDispatch]
      | transient =>
        refine ⟨rfl, fun hp => ?_⟩
        simp [hp, LoopPhase.isDispatch]
      | permanent => simp [LoopPhase.isDispatch]

theorem reconcileMirror_frame {currentSlot : Nat} :
    (loop.reconcileMirror input currentSlot lock).policy.signer = loop.policy.signer ∧
      (loop.reconcileMirror input currentSlot lock).phase = .gate currentSlot := by
  unfold reconcileMirror
  dsimp only
  split
  · exact ⟨rfl, rfl⟩
  · split
    · cases input.fetch <;> exact ⟨rfl, rfl⟩
    · exact ⟨rfl, rfl⟩

theorem askGate_frame {currentSlot : Nat} :
    (loop.askGate currentSlot).policy.signer = loop.policy.signer ∧
      (loop.askGate currentSlot).phase.isDispatch = false := by
  unfold askGate
  split
  · simp [HostMirrorLeaderPolicy.shouldSubmit, LoopPhase.isDispatch]
  · simp [HostMirrorLeaderPolicy.shouldSubmit, LoopPhase.isDispatch]

theorem publishHeartbeat_frame {currentSlot : Nat} :
    (loop.publishHeartbeat input currentSlot lock slot).1.policy = loop.policy ∧
      (loop.publishHeartbeat input currentSlot lock slot).1.phase = .dispatch := by
  unfold publishHeartbeat
  dsimp only
  split_ifs <;> exact ⟨rfl, rfl⟩

theorem dispatchNext_policy (loop : LeaderLoop) (left : Nat) :
    (loop.dispatchNext left).policy = loop.policy := by
  cases left <;> rfl

theorem dispatchActions_policy : (loop.dispatchActions input).policy = loop.policy := by
  unfold dispatchActions
  split
  · rfl
  · exact dispatchNext_policy loop _

theorem step_signer :
    (loop.step input lock slot).2.1.policy.signer = loop.policy.signer := by
  unfold step
  cases loop.phase with
  | top => exact congrArg _ beginTick_frame.1
  | reconcile currentSlot => exact reconcileMirror_frame.1
  | gate currentSlot => exact askGate_frame.1
  | heartbeat currentSlot => exact congrArg _ publishHeartbeat_frame.1
  | dispatch => exact congrArg _ dispatchActions_policy
  | dispatching left => exact congrArg _ (dispatchNext_policy loop left)
  | exited reason => rfl

theorem step_dispatch (h : loop.phase.isDispatch = false) :
    (loop.step input lock slot).2.1.phase.isDispatch = true ↔
      ∃ currentSlot, loop.phase = .heartbeat currentSlot := by
  unfold step
  cases hp : loop.phase with
  | top => simpa using beginTick_frame.2 hp
  | reconcile currentSlot => simp [reconcileMirror_frame.2, LoopPhase.isDispatch]
  | gate currentSlot => simpa using askGate_frame.2
  | heartbeat currentSlot => simp [publishHeartbeat_frame.2, LoopPhase.isDispatch]
  | dispatch => simp [hp, LoopPhase.isDispatch] at h
  | dispatching left => simp [hp, LoopPhase.isDispatch] at h
  | exited reason => simp [hp, LoopPhase.isDispatch]

theorem step_top_leader (hp : loop.phase = .top) :
    (loop.step input lock slot).2.2.currentLeaderPubkey
      = if loop.Releases input ∧ lock.currentLeaderPubkey = some loop.policy.signer then none
        else lock.currentLeaderPubkey := by
  unfold step Releases
  rw [hp]
  simp only [beginTick, submitLeaderIx]
  by_cases hshutdown : input.shutdown = true
  · by_cases hown : loop.rpcCfg.releaseOnShutdown = true ∧ loop.wasLeaderLastTick = true
    · by_cases hlanded : input.landed = true
      · simp only [hshutdown, hown.1, hown.2, hlanded, if_true, and_self, true_and]
        exact LockTx.release_leader
      · simp [hshutdown, hown.1, hown.2, hlanded]
    · rw [if_pos hshutdown, if_neg hown, if_neg]
      exact fun h => hown ⟨h.1.2.1, h.1.2.2.1⟩
  · have hnone : ¬ ((input.shutdown = true ∧ loop.rpcCfg.releaseOnShutdown = true ∧
        loop.wasLeaderLastTick = true ∧ input.landed = true) ∧
        lock.currentLeaderPubkey = some loop.policy.signer) := fun h => hshutdown h.1.1
    rw [if_neg hnone, if_neg hshutdown]
    split_ifs
    · rfl
    · cases input.refresh <;> rfl

theorem step_heartbeat_leader {observed : Nat} (hp : loop.phase = .heartbeat observed) :
    ((loop.Takes input observed lock slot) →
      (loop.step input lock slot).2.2.currentLeaderPubkey = some loop.policy.signer) ∧
    (¬ loop.Takes input observed lock slot →
      (loop.step input lock slot).2.2.currentLeaderPubkey = lock.currentLeaderPubkey) := by
  unfold step Takes
  rw [hp]
  simp only [publishHeartbeat, submitLeaderIx]
  by_cases hdue : loop.heartbeatDue = true
  · by_cases hlanded : input.landed = true
    · simp only [hdue, hlanded, if_true, true_and, LockTx.heartbeat_leader]
      exact ⟨fun h => if_pos h, fun h => if_neg h⟩
    · simp [hdue, hlanded]
  · simp [hdue]

theorem step_other_leader (htop : loop.phase ≠ .top) (hbeat : ∀ c, loop.phase ≠ .heartbeat c) :
    (loop.step input lock slot).2.2 = lock := by
  unfold step
  cases hp : loop.phase with
  | top => exact absurd hp htop
  | heartbeat c => exact absurd hp (hbeat c)
  | reconcile c => rfl
  | gate c => rfl
  | dispatch => rfl
  | dispatching left => rfl
  | exited reason => rfl

end LeaderLoop

/-- Once its gate is open, the chain still has the keeper for the leader or its heartbeat takes a
    free lock; and no takeover or release comes between a keeper's heartbeat and its last action. -/
def KeeperStep.Guarded (next : KeeperStep κ) (w : KeeperWorld κ) : Prop :=
  match next with
  | .advance _ => True
  | .keeper k input =>
    let loop := w.loops k
    match loop.phase with
    | .top => loop.Releases input → ∀ j, (w.loops j).phase.isDispatch = true →
        (w.loops j).policy.signer ≠ loop.policy.signer
    | .heartbeat currentSlot =>
      (w.Holds k ∨ loop.Takes input currentSlot w.lock w.slot) ∧
        (loop.Takes input currentSlot w.lock w.slot → ∀ j, (w.loops j).phase.isDispatch = true →
          (w.loops j).policy.signer = loop.policy.signer)
    | _ => True

/-- Being safe after a step, for the keeper that moved and for the others. -/
theorem KeeperWorld.safe_keeper_iff {k : κ} {input : LoopInput} {w : KeeperWorld κ}
    (hk : (w.loops k).phase.isDispatch = false) :
    ((KeeperStep.keeper k input).step w).2.Safe ↔
      ((∃ c, (w.loops k).phase = .heartbeat c) →
        ((w.loops k).step input w.lock w.slot).2.2.currentLeaderPubkey
          = some (w.loops k).policy.signer) ∧
      ∀ j ≠ k, (w.loops j).phase.isDispatch = true →
        ((w.loops k).step input w.lock w.slot).2.2.currentLeaderPubkey
          = some (w.loops j).policy.signer := by
  simp only [KeeperWorld.Safe, KeeperWorld.Holds, KeeperStep.step]
  constructor
  · intro h
    refine ⟨fun hbeat => ?_, fun j hj hd => ?_⟩
    · have hself := h k
      simp only [Function.update_self, LeaderLoop.step_dispatch hk, LeaderLoop.step_signer]
        at hself
      exact hself hbeat
    · have hother := h j
      simp only [Function.update_of_ne hj] at hother
      exact hother hd
  · rintro ⟨hself, hothers⟩ j hd
    by_cases hj : j = k
    · subst hj
      simp only [Function.update_self, LeaderLoop.step_dispatch hk, LeaderLoop.step_signer]
        at hd ⊢
      exact hself hd
    · simp only [Function.update_of_ne hj] at hd ⊢
      exact hothers j hj hd

theorem KeeperWorld.Safe.dispatching {k : κ} {input : LoopInput} {w : KeeperWorld κ} (h : w.Safe)
    (hk : (w.loops k).phase.isDispatch = true) :
    ((KeeperStep.keeper k input).step w).2.Safe := by
  have hlock : ((w.loops k).step input w.lock w.slot).2.2 = w.lock := by
    refine LeaderLoop.step_other_leader (fun hp => ?_) fun c hp => ?_
    · simp [hp, LoopPhase.isDispatch] at hk
    · simp [hp, LoopPhase.isDispatch] at hk
  intro j hd
  simp only [KeeperWorld.Holds, KeeperStep.step, hlock] at hd ⊢
  by_cases hj : j = k
  · subst hj
    simp only [Function.update_self, LeaderLoop.step_signer]
    exact h j hk
  · simp only [Function.update_of_ne hj] at hd ⊢
    exact h j hd

/-- The condition is what keeps every keeper about to dispatch the holder of the lock. -/
theorem KeeperStep.guarded_iff (next : KeeperStep κ) (w : KeeperWorld κ) (h : w.Safe) :
    next.Guarded w ↔ (next.step w).2.Safe := by
  cases next with
  | advance slots => exact iff_of_true trivial h
  | keeper k input =>
    have hquiet : (w.loops k).phase ≠ .top → (∀ c, (w.loops k).phase ≠ .heartbeat c) →
        ∀ j, (w.loops j).phase.isDispatch = true →
          ((w.loops k).step input w.lock w.slot).2.2.currentLeaderPubkey
            = some (w.loops j).policy.signer := by
      intro htop hbeat j hd
      rw [LeaderLoop.step_other_leader htop hbeat]
      exact h j hd
    have hself : ∀ j, (w.loops j).phase.isDispatch = true →
        (w.loops k).phase.isDispatch = false → j ≠ k := by
      rintro j hd hk rfl
      rw [hd] at hk
      cases hk
    unfold KeeperStep.Guarded
    cases hp : (w.loops k).phase with
    | top =>
      have hk : (w.loops k).phase.isDispatch = false := by rw [hp]; rfl
      simp only [KeeperWorld.safe_keeper_iff hk, LeaderLoop.step_top_leader hp, hp]
      constructor
      · intro hg
        refine ⟨by simp, fun j hj hd => ?_⟩
        rw [if_neg]
        · exact h j hd
        · rintro ⟨hreleases, hleads⟩
          exact hg hreleases j hd (Option.some.inj ((h j hd).symm.trans hleads))
      · rintro ⟨-, hothers⟩ hreleases j hd hsame
        have hleads : w.lock.currentLeaderPubkey = some (w.loops k).policy.signer :=
          (h j hd).trans (congrArg some hsame)
        have hnone := hothers j (hself j hd hk) hd
        rw [if_pos ⟨hreleases, hleads⟩] at hnone
        exact (Option.some_ne_none _ hnone.symm).elim
    | heartbeat observed =>
      have hk : (w.loops k).phase.isDispatch = false := by rw [hp]; rfl
      obtain ⟨htaken, hkept⟩ := @LeaderLoop.step_heartbeat_leader (w.loops k) input w.lock w.slot
        observed hp
      rw [KeeperWorld.safe_keeper_iff hk]
      by_cases ht : (w.loops k).Takes input observed w.lock w.slot
      · simp only [hp, htaken ht, ht, or_true, true_and, implies_true, forall_const]
        constructor
        · intro hsame j hj hd
          rw [hsame j hd]
        · intro hothers j hd
          exact (Option.some.inj (hothers j (hself j hd hk) hd)).symm
      · simp only [hp, hkept ht, ht, or_false, false_implies, and_true]
        constructor
        · intro hholds
          exact ⟨fun _ => hholds, fun j _ hd => h j hd⟩
        · intro hafter
          exact hafter.1 ⟨observed, rfl⟩
    | reconcile c =>
      rw [KeeperWorld.safe_keeper_iff (by rw [hp]; rfl)]
      exact iff_of_true (by simp [hp]) ⟨by simp [hp], fun j _ => hquiet (by simp [hp])
        (by simp [hp]) j⟩
    | gate c =>
      rw [KeeperWorld.safe_keeper_iff (by rw [hp]; rfl)]
      exact iff_of_true (by simp [hp]) ⟨by simp [hp], fun j _ => hquiet (by simp [hp])
        (by simp [hp]) j⟩
    | dispatch => exact iff_of_true (by simp [hp]) (h.dispatching (by rw [hp]; rfl))
    | dispatching left => exact iff_of_true (by simp [hp]) (h.dispatching (by rw [hp]; rfl))
    | exited reason =>
      rw [KeeperWorld.safe_keeper_iff (by rw [hp]; rfl)]
      exact iff_of_true (by simp [hp]) ⟨by simp [hp], fun j _ => hquiet (by simp [hp])
        (by simp [hp]) j⟩

theorem KeeperWorld.safe_iff_dispatch {w : KeeperWorld κ} :
    w.Safe ↔ ∀ (next : KeeperStep κ) k, (next.step w).1 = some k → w.Holds k := by
  constructor
  · intro h next k hd
    cases next with
    | advance slots => exact (Option.some_ne_none _ hd.symm).elim
    | keeper j input =>
      simp only [KeeperStep.step] at hd
      split_ifs at hd with hdispatch
      obtain rfl := Option.some.inj hd
      refine h j ?_
      unfold LeaderLoop.step at hdispatch
      cases hp : (w.loops j).phase with
      | dispatch => rfl
      | dispatching left => rfl
      | top => simp [hp] at hdispatch
      | reconcile c => simp [hp] at hdispatch
      | gate c => simp [hp] at hdispatch
      | heartbeat c => simp [hp] at hdispatch
      | exited reason => simp [hp] at hdispatch
  · intro h k hd
    refine h (.keeper k ⟨false, .transient, .failed, false, false, some 1⟩) k ?_
    cases hp : (w.loops k).phase with
    | dispatch => simp [KeeperStep.step, LeaderLoop.step, hp]
    | dispatching left => simp [KeeperStep.step, LeaderLoop.step, hp]
    | top => simp [hp, LoopPhase.isDispatch] at hd
    | reconcile c => simp [hp, LoopPhase.isDispatch] at hd
    | gate c => simp [hp, LoopPhase.isDispatch] at hd
    | heartbeat c => simp [hp, LoopPhase.isDispatch] at hd
    | exited reason => simp [hp, LoopPhase.isDispatch] at hd

/-- In a run of any keepers on one lock it is always the holder that dispatches, exactly if every
    step is guarded. -/
theorem dispatch_held_iff (lock : KeeperLeaderLock) (slot : Nat)
    (boot : κ → LeaderRpcReconcileConfig × Option Nat × HostMirrorLeaderPolicy)
    (steps : List (KeeperStep κ)) :
    AlongRun KeeperStep.step KeeperStep.Guarded steps (.start lock slot boot) ↔
      ∀ before after, steps = before ++ after → ∀ (next : KeeperStep κ) k,
        (next.step (run KeeperStep.step before (.start lock slot boot)).2).1 = some k →
        (run KeeperStep.step before (.start lock slot boot)).2.Holds k := by
  have hstart : (KeeperWorld.start lock slot boot).Safe := by
    intro k hd
    cases hd
  rw [alongRun_iff_states KeeperStep.guarded_iff hstart]
  simp only [KeeperWorld.safe_iff_dispatch]

end World

/-- Two keepers that read a free lock and open their gates before either heartbeat is sent. -/
def rivals : Bool → LeaderRpcReconcileConfig × Option Nat × HostMirrorLeaderPolicy
  | false => (⟨some 20, some 5, true⟩, none, ⟨1, .fresh 0 defaultTakeoverThresholdSlots⟩)
  | true => (⟨some 20, some 5, true⟩, none, ⟨2, .fresh 0 defaultTakeoverThresholdSlots⟩)

def rivalInput : LoopInput := ⟨false, .ok (some 10), .ok, true, true, some 1⟩

def race : List (KeeperStep Bool) :=
  [.keeper false rivalInput, .keeper true rivalInput, .keeper false rivalInput,
    .keeper true rivalInput, .keeper false rivalInput, .keeper true rivalInput,
    .keeper false rivalInput, .keeper true rivalInput]

def raced : KeeperWorld Bool :=
  (run KeeperStep.step race (.start (initializeKeeperLeaderLock 5) 10 rivals)).2

theorem raced_lock :
    raced.lock = ⟨true, 1, 10, 75⟩ ∧ (raced.loops false).phase = .dispatch ∧
      (raced.loops true).phase = .dispatch := by decide +kernel

/-- The keeper whose heartbeat was refused dispatches too. -/
theorem both_dispatch :
    ¬ (∀ (lock : KeeperLeaderLock) (slot : Nat)
        (boot : Bool → LeaderRpcReconcileConfig × Option Nat × HostMirrorLeaderPolicy)
        (steps before after : List (KeeperStep Bool)) (next : KeeperStep Bool) (k : Bool),
        (∀ k, (boot k).1.reconcileEvery.isSome = true ∧ (boot k).1.heartbeatEvery.isSome = true) →
        steps = before ++ after →
        (next.step (run KeeperStep.step before (.start lock slot boot)).2).1 = some k →
        (run KeeperStep.step before (.start lock slot boot)).2.Holds k) ∧
    (KeeperStep.step (.keeper false rivalInput) raced).1 = some false ∧
      (KeeperStep.step (.keeper true rivalInput) raced).1 = some true := by
  obtain ⟨hlock, hfirst, hsecond⟩ := raced_lock
  have hboth : ∀ k, (raced.loops k).phase = .dispatch := fun k => by cases k <;> assumption
  have hdispatch : ∀ k, (KeeperStep.step (.keeper k rivalInput) raced).1 = some k := fun k => by
    simp [KeeperStep.step, LeaderLoop.step, hboth k, rivalInput]
  refine ⟨fun h => ?_, hdispatch false, hdispatch true⟩
  have hholds : raced.Holds true :=
    h (initializeKeeperLeaderLock 5) 10 rivals race race [] (.keeper true rivalInput) true
      (by decide) (List.append_nil race).symm (hdispatch true)
  have hsigner : (raced.loops true).policy.signer = 2 := by decide +kernel
  unfold KeeperWorld.Holds at hholds
  rw [hlock, hsigner] at hholds
  exact absurd hholds (by decide)

end MoleFinance
