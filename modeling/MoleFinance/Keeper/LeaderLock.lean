import MoleFinance.Chain.Accounts
import MoleFinance.Lib.Lease

/-! The keeper's own copy of the leader lock: heartbeats, releases, and the gate in front of a
submission. -/
namespace MoleFinance
open Trace

structure KeeperLeaderLock where
  hasLeader : Bool
  /-- zero without a leader -/
  currentLeader : Pubkey
  lastHeartbeatSlot : Nat
  takeoverThresholdSlots : Nat
deriving DecidableEq, Repr

inductive HeartbeatOutcome where
  | acquiredFresh
  | acquiredFromStale (previousLeader : Pubkey) (elapsedSlots : Nat)
  | refreshed
  | rejectedHeldByOther (currentLeader : Pubkey) (slotsUntilStale : Nat)
  | rejectedClockSkew (callerSlot recordedSlot : Nat)
deriving DecidableEq, Repr

def HeartbeatOutcome.isLeader : HeartbeatOutcome → Bool
  | .acquiredFresh | .acquiredFromStale .. | .refreshed => true
  | _ => false

inductive ReleaseOutcome where
  | released
  | rejectedNotHolder (currentLeader : Pubkey)
  | rejectedNotHeld
deriving DecidableEq, Repr

namespace KeeperLeaderLock

def fresh (currentSlot takeoverThresholdSlots : Nat) : KeeperLeaderLock :=
  ⟨false, 0, currentSlot, takeoverThresholdSlots⟩

def heldBy (leader : Pubkey) (slot takeoverThresholdSlots : Nat) : KeeperLeaderLock :=
  ⟨true, leader, slot, takeoverThresholdSlots⟩

def currentLeaderPubkey (lock : KeeperLeaderLock) : Option Pubkey :=
  if lock.hasLeader then some lock.currentLeader else none

/-- No leader, or one whose heartbeat is too old. -/
def isStale (lock : KeeperLeaderLock) (currentSlot : Nat) : Bool :=
  if !lock.hasLeader then true
  else decide (lock.takeoverThresholdSlots < currentSlot - lock.lastHeartbeatSlot)

def isHeldBy (lock : KeeperLeaderLock) (signer : Pubkey) (currentSlot : Nat) : Bool :=
  if !lock.hasLeader then false
  else decide (lock.currentLeader = signer) && !lock.isStale currentSlot

def tryHeartbeat (lock : KeeperLeaderLock) (signer : Pubkey) (currentSlot : Nat) :
    HeartbeatOutcome × KeeperLeaderLock :=
  if currentSlot < lock.lastHeartbeatSlot then
    (.rejectedClockSkew currentSlot lock.lastHeartbeatSlot, lock)
  else if !lock.hasLeader then
    (.acquiredFresh,
      { lock with hasLeader := true, currentLeader := signer, lastHeartbeatSlot := currentSlot })
  else
    let elapsed := currentSlot - lock.lastHeartbeatSlot
    if lock.currentLeader = signer then
      (if lock.isStale currentSlot then .acquiredFromStale lock.currentLeader elapsed
        else .refreshed, { lock with lastHeartbeatSlot := currentSlot })
    else if lock.isStale currentSlot then
      (.acquiredFromStale lock.currentLeader elapsed,
        { lock with currentLeader := signer, lastHeartbeatSlot := currentSlot })
    else (.rejectedHeldByOther lock.currentLeader (lock.takeoverThresholdSlots - elapsed), lock)

def tryRelease (lock : KeeperLeaderLock) (signer : Pubkey) (currentSlot : Nat) :
    ReleaseOutcome × KeeperLeaderLock :=
  if !lock.hasLeader then (.rejectedNotHeld, lock)
  else if lock.currentLeader ≠ signer then (.rejectedNotHolder lock.currentLeader, lock)
  else (.released,
    { lock with hasLeader := false, currentLeader := 0, lastHeartbeatSlot := currentSlot })

end KeeperLeaderLock

def keeperBotShouldSubmit (lock : KeeperLeaderLock) (signer : Pubkey) (currentSlot : Nat) : Bool :=
  if lock.isHeldBy signer currentSlot then true else lock.isStale currentSlot

inductive LockCall where
  | heartbeat (signer : Pubkey) (slot : Nat)
  | release (signer : Pubkey) (slot : Nat)

def LockCall.step (call : LockCall) (lock : KeeperLeaderLock) :
    (HeartbeatOutcome ⊕ ReleaseOutcome) × KeeperLeaderLock :=
  match call with
  | .heartbeat signer slot => ((.inl (lock.tryHeartbeat signer slot).1),
      (lock.tryHeartbeat signer slot).2)
  | .release signer slot => ((.inr (lock.tryRelease signer slot).1),
      (lock.tryRelease signer slot).2)

/-- A holder's release at a slot before the recorded one. -/
def LockCall.Rewinds (call : LockCall) (lock : KeeperLeaderLock) : Prop :=
  match call with
  | .heartbeat _ _ => False
  | .release signer slot =>
    lock.currentLeaderPubkey = some signer ∧ slot < lock.lastHeartbeatSlot

instance (call : LockCall) (lock : KeeperLeaderLock) : Decidable (call.Rewinds lock) := by
  unfold LockCall.Rewinds
  cases call with
  | heartbeat => exact instDecidableFalse
  | release => exact instDecidableAnd

namespace KeeperLeaderLock
variable {lock : KeeperLeaderLock} {signer : Pubkey} {slot : Nat}

theorem leader_iff :
    lock.currentLeaderPubkey = some signer ↔
      lock.hasLeader = true ∧ lock.currentLeader = signer := by
  unfold currentLeaderPubkey
  cases lock.hasLeader with
  | false => simp
  | true => simp

theorem isStale_past (h : slot < lock.lastHeartbeatSlot) :
    lock.isStale slot = !lock.hasLeader := by
  unfold isStale
  have hz : slot - lock.lastHeartbeatSlot = 0 := by omega
  cases lock.hasLeader with
  | false => rfl
  | true => simp [hz]

theorem tryHeartbeat_slot_le :
    lock.lastHeartbeatSlot ≤ (lock.tryHeartbeat signer slot).2.lastHeartbeatSlot := by
  unfold tryHeartbeat
  split_ifs with hskew hfree hself hstale hstale <;> simp only [le_refl] <;> omega

/-- An accepted heartbeat is one that leaves its signer the leader at its slot. -/
theorem tryHeartbeat_of_le (h : lock.lastHeartbeatSlot ≤ slot) :
    (lock.tryHeartbeat signer slot).1.isLeader
      = (!lock.hasLeader || decide (lock.currentLeader = signer) || lock.isStale slot) ∧
    ((lock.tryHeartbeat signer slot).1.isLeader = true ↔
      (lock.tryHeartbeat signer slot).2.currentLeaderPubkey = some signer) := by
  unfold tryHeartbeat
  rw [if_neg (Nat.not_lt.mpr h)]
  cases hl : lock.hasLeader with
  | false => simp [HeartbeatOutcome.isLeader, currentLeaderPubkey]
  | true =>
    by_cases hself : lock.currentLeader = signer
    · by_cases hstale : lock.isStale slot = true
      · simp [hself, hstale, HeartbeatOutcome.isLeader, currentLeaderPubkey]
      · simp [hself, hstale, HeartbeatOutcome.isLeader, currentLeaderPubkey]
    · by_cases hstale : lock.isStale slot = true
      · simp [hself, hstale, HeartbeatOutcome.isLeader, currentLeaderPubkey]
      · simp [hself, hstale, hl, HeartbeatOutcome.isLeader, currentLeaderPubkey]

theorem tryHeartbeat_past (h : slot < lock.lastHeartbeatSlot) :
    (lock.tryHeartbeat signer slot).1.isLeader = false ∧
      (lock.tryHeartbeat signer slot).2 = lock := by
  unfold tryHeartbeat
  rw [if_pos h]
  exact ⟨rfl, rfl⟩

theorem keeperBotShouldSubmit_eq :
    keeperBotShouldSubmit lock signer slot
      = (decide (lock.currentLeader = signer) && lock.hasLeader || lock.isStale slot) := by
  unfold keeperBotShouldSubmit isHeldBy
  cases hl : lock.hasLeader with
  | false => simp
  | true =>
    cases hs : lock.isStale slot with
    | false => simp
    | true => simp

end KeeperLeaderLock

namespace LockCall

/-- One call keeps the recorded slot or moves it on, a rewinding release apart. -/
theorem step_slot_le_iff {call : LockCall} {lock : KeeperLeaderLock} :
    lock.lastHeartbeatSlot ≤ (call.step lock).2.lastHeartbeatSlot ↔ ¬ call.Rewinds lock := by
  cases call with
  | heartbeat signer slot =>
    exact iff_of_true KeeperLeaderLock.tryHeartbeat_slot_le not_false
  | release signer slot =>
    simp only [step, Rewinds, KeeperLeaderLock.leader_iff, KeeperLeaderLock.tryRelease]
    cases hl : lock.hasLeader with
    | false => simp
    | true =>
      by_cases hs : lock.currentLeader = signer
      · simp [hs]
      · simp [hs]

end LockCall

/-- In every run of a host lock the recorded slot goes back exactly with the rewinding releases,
    and the gate agrees with the heartbeat it guards but for slots before the recorded one. -/
theorem host_lock_sound_iff (lock : KeeperLeaderLock) :
    (∀ calls : List LockCall,
      AlongRun LockCall.step (fun call l => l.lastHeartbeatSlot ≤ (call.step l).2.lastHeartbeatSlot)
          calls lock ↔
        AlongRun LockCall.step (fun call l => ¬ call.Rewinds l) calls lock) ∧
    ∀ signer slot,
      ((keeperBotShouldSubmit lock signer slot = true ↔
          (lock.tryHeartbeat signer slot).1.isLeader = true) ↔
        (lock.lastHeartbeatSlot ≤ slot ∨
          (lock.hasLeader = true ∧ lock.currentLeader ≠ signer))) ∧
      ((keeperBotShouldSubmit lock signer slot = true ↔
          (lock.tryHeartbeat signer slot).2.currentLeaderPubkey = some signer) ↔
        (lock.lastHeartbeatSlot ≤ slot ∨ lock.hasLeader = true)) := by
  refine ⟨fun calls => ?_, fun signer slot => ?_⟩
  · exact alongRun_congr (I := fun _ => True) (fun _ _ _ => trivial)
      (fun _ _ _ => LockCall.step_slot_le_iff) trivial
  · rw [KeeperLeaderLock.keeperBotShouldSubmit_eq]
    by_cases h : lock.lastHeartbeatSlot ≤ slot
    · have hbeat := @KeeperLeaderLock.tryHeartbeat_of_le lock signer slot h
      obtain ⟨haccept, hleader⟩ := hbeat
      have hgate : (decide (lock.currentLeader = signer) && lock.hasLeader || lock.isStale slot)
          = (lock.tryHeartbeat signer slot).1.isLeader := by
        rw [haccept]
        cases hl : lock.hasLeader with
        | false => simp [KeeperLeaderLock.isStale, hl]
        | true => simp
      rw [← hleader, hgate]
      exact ⟨iff_of_true Iff.rfl (.inl h), iff_of_true Iff.rfl (.inl h)⟩
    · -- before the recorded slot the heartbeat is refused, but the gate sees a fresh lock
      have hpast : slot < lock.lastHeartbeatSlot := Nat.lt_of_not_le h
      have hbeat := @KeeperLeaderLock.tryHeartbeat_past lock signer slot hpast
      obtain ⟨hrefused, hsame⟩ := hbeat
      rw [hrefused, hsame, KeeperLeaderLock.isStale_past hpast, KeeperLeaderLock.leader_iff]
      cases hl : lock.hasLeader with
      | false => simp [h]
      | true => simp [h]

/-- A keeper hands over and then releases with an old slot; and a lock released at 100 lets a
    keeper at 50 submit what the heartbeat refuses. -/
theorem host_lock_rewinds :
    ¬ ((∀ calls : List LockCall,
        AlongRun LockCall.step
          (fun call l => l.lastHeartbeatSlot ≤ (call.step l).2.lastHeartbeatSlot) calls
          (.fresh 0 75)) ∧
      ∀ (calls : List LockCall) signer slot,
        (keeperBotShouldSubmit (run LockCall.step calls (.fresh 0 75)).2 signer slot = true ↔
          ((run LockCall.step calls (.fresh 0 75)).2.tryHeartbeat signer slot).1.isLeader
            = true)) ∧
    ¬ (∀ calls : List LockCall,
        AlongRun LockCall.step
          (fun call l => l.lastHeartbeatSlot ≤ (call.step l).2.lastHeartbeatSlot) calls
          (.fresh 0 75)) ∧
    ¬ (∀ (calls : List LockCall) signer slot,
        (keeperBotShouldSubmit (run LockCall.step calls (.fresh 0 75)).2 signer slot = true ↔
          ((run LockCall.step calls (.fresh 0 75)).2.tryHeartbeat signer slot).1.isLeader
            = true)) := by
  have hback : ¬ (∀ calls : List LockCall,
      AlongRun LockCall.step
        (fun call l => l.lastHeartbeatSlot ≤ (call.step l).2.lastHeartbeatSlot) calls
        (.fresh 0 75)) := by
    intro h
    obtain ⟨-, hrelease, -⟩ := h [.heartbeat 1 100, .release 1 50]
    exact absurd hrelease (by decide)
  have hgate : ¬ (∀ (calls : List LockCall) signer slot,
      (keeperBotShouldSubmit (run LockCall.step calls (.fresh 0 75)).2 signer slot = true ↔
        ((run LockCall.step calls (.fresh 0 75)).2.tryHeartbeat signer slot).1.isLeader
          = true)) := by
    intro h
    have hlate := h [.heartbeat 1 100, .release 1 100] 2 50
    exact absurd hlate (by decide)
  exact ⟨fun h => hback h.1, hback, hgate⟩

end MoleFinance
