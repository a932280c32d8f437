import MoleFinance.Keeper.RunLoop
import MoleFinance.Keeper.Snapshot
import MoleFinance.Chain.Pricing

/-! A market together with its leader lock, the slot a keeper takes for the current one, and
when a lock that nobody holds can be had. -/
namespace MoleFinance
open Call Trace

structure LockedMarket where
  program : Program
  lock : Option KeeperLeaderLock

inductive LockedOp where
  | chain (op : ChainOp)
  | initializeLock
  | lock (signer : Pubkey) (instruction : LockInstruction)

namespace LockedMarket

def step (token : TokenProgram) (op : LockedOp) (w : LockedMarket) :
    Option ProgramError × LockedMarket :=
  match op with
  | .chain op => ((op.step token w.program).1, { w with program := (op.step token w.program).2 })
  | .initializeLock =>
    match w.lock with
    | some _ => (some .accountInUse, w)
    | none => (none, { w with lock := some (initializeKeeperLeaderLock w.program.slot) })
  | .lock signer instruction =>
    match w.lock with
    | none => (some .accountNotFound, w)
    | some lock =>
      let after := LockTx.step ⟨signer, w.program.slot, instruction⟩ lock
      (after.1, { w with lock := some after.2 })

def Reached (token : TokenProgram) (w : LockedMarket) : Prop :=
  ∃ start ops, start.Fresh ∧ (run (step token) ops ⟨start, none⟩).2 = w

end LockedMarket

structure Decoder.OnchainSubPool.Shows (sp : Decoder.OnchainSubPool) (a : SubPoolAccount) :
    Prop where
  subPoolId : sp.subPoolId.toNat = a.subPoolId
  longPoolEquity : sp.longPoolEquity.toNat = a.long.poolEquity
  shortPoolEquity : sp.shortPoolEquity.toNat = a.short.poolEquity
  longActiveShares : sp.longActiveShares.toNat = a.long.activeShares
  shortActiveShares : sp.shortActiveShares.toNat = a.short.activeShares
  longRecoveryShares : sp.longRecoveryShares.toNat = a.long.recoveryShares
  shortRecoveryShares : sp.shortRecoveryShares.toNat = a.short.recoveryShares
  longActiveNotional : sp.longActiveNotional.toNat = a.long.activeNotional
  shortActiveNotional : sp.shortActiveNotional.toNat = a.short.activeNotional
  longActiveGeneration : sp.longActiveGeneration.toNat = a.long.activeGeneration
  shortActiveGeneration : sp.shortActiveGeneration.toNat = a.short.activeGeneration
  lastPrice : sp.lastPrice.toNat = a.lastPrice
  lastSyncSlot : sp.lastSyncSlot.toNat = a.lastSyncSlot
  longDust : sp.longDust.toNat = a.long.dust
  shortDust : sp.shortDust.toNat = a.short.dust
  longDormantBucketCount : sp.longDormantBucketCount.toNat = a.long.dormantBucketCount
  shortDormantBucketCount : sp.shortDormantBucketCount.toNat = a.short.dormantBucketCount

namespace ChainSnapshot

def ShowsSubPools (snap : ChainSnapshot) (st : Program) (watched : List Nat) : Prop :=
  ∀ id, Option.Rel Decoder.OnchainSubPool.Shows (snap.subPools.get? id)
    (if id ∈ watched then st.accountAt id else none)

def bestSlot (snap : ChainSnapshot) : Option Nat :=
  (snap.subPools.entries.map fun e => e.2.lastSyncSlot.toNat).max?

theorem bestSlot_le_iff {snap : ChainSnapshot} {slot : Nat} :
    snap.bestSlot.getD 0 ≤ slot ↔
      ∀ id sp, snap.subPools.get? id = some sp → sp.lastSyncSlot.toNat ≤ slot := by
  have hmem : (∀ id sp, snap.subPools.get? id = some sp → sp.lastSyncSlot.toNat ≤ slot) ↔
      ∀ x ∈ snap.subPools.entries.map (fun e => e.2.lastSyncSlot.toNat), x ≤ slot := by
    rw [List.forall_mem_map]
    simp only [OrdMap.get?_eq_some, Prod.forall]
  rw [hmem]
  unfold bestSlot
  cases hmax : (snap.subPools.entries.map fun e => e.2.lastSyncSlot.toNat).max? with
  | none =>
    rw [List.max?_eq_none_iff.mp hmax]
    simp
  | some best =>
    obtain ⟨hin, hall⟩ := List.max?_eq_some_iff.mp hmax
    exact ⟨fun h x hx => (hall x hx).trans h, fun h => h best hin⟩

theorem le_bestSlot_iff {snap : ChainSnapshot} {slot : Nat} :
    slot ≤ snap.bestSlot.getD 0 ↔
      slot = 0 ∨ ∃ id sp, snap.subPools.get? id = some sp ∧ slot ≤ sp.lastSyncSlot.toNat := by
  cases slot with
  | zero => simp
  | succ n =>
    rw [Nat.succ_le_iff, ← not_le, bestSlot_le_iff]
    simp only [not_forall, not_le, exists_prop, Nat.add_eq_zero_iff, one_ne_zero, and_false,
      false_or, Nat.add_one_le_iff]

section Shown
variable {snap : ChainSnapshot} {st : Program} {watched : List Nat}

/-- A bound on what the snapshot shows is a bound on the watched accounts. -/
theorem ShowsSubPools.forall_iff (h : snap.ShowsSubPools st watched) {P : Nat → Prop} :
    (∀ id sp, snap.subPools.get? id = some sp → P sp.lastSyncSlot.toNat) ↔
      ∀ id ∈ watched, ∀ a, st.accountAt id = some a → P a.lastSyncSlot := by
  constructor
  · intro hall id hid a ha
    have hrel := h id
    rw [if_pos hid, ha] at hrel
    cases hsp : snap.subPools.get? id with
    | none =>
      rw [hsp] at hrel
      cases hrel
    | some sp =>
      rw [hsp] at hrel
      cases hrel with
      | some hshows => exact hshows.lastSyncSlot ▸ hall id sp hsp
  · intro hall id sp hsp
    have hrel := h id
    rw [hsp] at hrel
    split_ifs at hrel with hid
    · cases ha : st.accountAt id with
      | none =>
        rw [ha] at hrel
        cases hrel
      | some a =>
        rw [ha] at hrel
        cases hrel with
        | some hshows =>
          rw [hshows.lastSyncSlot]
          exact hall id hid a ha
    · cases hrel

theorem ShowsSubPools.exists_iff (h : snap.ShowsSubPools st watched) {P : Nat → Prop} :
    (∃ id sp, snap.subPools.get? id = some sp ∧ P sp.lastSyncSlot.toNat) ↔
      ∃ id ∈ watched, ∃ a, st.accountAt id = some a ∧ P a.lastSyncSlot := by
  have hnot := not_congr (h.forall_iff (P := fun x => ¬ P x))
  simpa only [not_forall, not_not, exists_prop] using hnot

end Shown

end ChainSnapshot

/-- A free lock goes to the heartbeat that names a slot between its stamp and the clock. -/
theorem keeperLeaderHeartbeat_free_iff {lock : KeeperLeaderLock} {signer : Pubkey}
    {chainSlot observed : Nat} (h : lock.hasLeader = false) :
    (∃ lock', keeperLeaderHeartbeat lock signer chainSlot observed = .ok lock' ∧
      lock'.currentLeaderPubkey = some signer) ↔
    lock.lastHeartbeatSlot ≤ observed ∧ observed ≤ chainSlot := by
  constructor
  · rintro ⟨lock', hok, -⟩
    obtain ⟨_, hslot, -⟩ := except_bind_ok.mp hok
    exact validateObservedSlot_ok hslot
  · rintro ⟨hpast, hahead⟩
    unfold keeperLeaderHeartbeat
    rw [validateObservedSlot_of hpast hahead, h]
    exact ⟨_, rfl, rfl⟩

theorem shouldSubmit_free_iff {policy : HostMirrorLeaderPolicy} {currentSlot : Nat}
    (h : policy.inner.hasLeader = false) :
    (policy.shouldSubmit currentSlot).1 = true ↔
      policy.inner.lastHeartbeatSlot ≤ currentSlot := by
  unfold HostMirrorLeaderPolicy.shouldSubmit
  by_cases hpast : policy.inner.lastHeartbeatSlot ≤ currentSlot
  · rw [(KeeperLeaderLock.tryHeartbeat_of_le hpast).1, h]
    exact iff_of_true rfl hpast
  · have hrefused : (policy.inner.tryHeartbeat policy.signer currentSlot).1.isLeader = false :=
      (KeeperLeaderLock.tryHeartbeat_past (Nat.lt_of_not_le hpast)).1
    rw [hrefused]
    exact iff_of_false Bool.false_ne_true hpast

/-- A keeper that has just read a free lock gets it exactly if some sub-pool it watches was
    synced since the lock was stamped, and none was synced ahead of the clock. -/
theorem free_lock_claimable_iff (st : Program) (lock : KeeperLeaderLock)
    (hfree : lock.hasLeader = false) (watched : List Nat) (snap : ChainSnapshot)
    (hshown : snap.ShowsSubPools st watched) (mirror : HostMirrorLeaderPolicy) :
    (((mirror.reconcile lock).shouldSubmit (snap.bestSlot.getD 0)).1 = true ∧
      ∃ lock', keeperLeaderHeartbeat lock mirror.signer st.slot (snap.bestSlot.getD 0)
          = .ok lock' ∧
        lock'.currentLeaderPubkey = some mirror.signer) ↔
    (lock.lastHeartbeatSlot = 0 ∨ ∃ id ∈ watched, ∃ a, st.accountAt id = some a ∧
        lock.lastHeartbeatSlot ≤ a.lastSyncSlot) ∧
      ∀ id ∈ watched, ∀ a, st.accountAt id = some a → a.lastSyncSlot ≤ st.slot := by
  have hgate : ((mirror.reconcile lock).shouldSubmit (snap.bestSlot.getD 0)).1 = true ↔
      lock.lastHeartbeatSlot ≤ snap.bestSlot.getD 0 := shouldSubmit_free_iff hfree
  rw [hgate, keeperLeaderHeartbeat_free_iff hfree, ← and_assoc, and_self,
    ChainSnapshot.le_bestSlot_iff, ChainSnapshot.bestSlot_le_iff,
    hshown.exists_iff, hshown.forall_iff (P := fun x => x ≤ st.slot)]

def Decoder.OnchainSubPool.ofAccount (a : SubPoolAccount) : Decoder.OnchainSubPool :=
  ⟨.replicate 32 0, .ofNat _ a.subPoolId, .ofNat _ a.long.poolEquity, .ofNat _ a.short.poolEquity,
    .ofNat _ a.long.activeShares, .ofNat _ a.short.activeShares, .ofNat _ a.long.recoveryShares,
    .ofNat _ a.short.recoveryShares, .ofNat _ a.long.activeNotional,
    .ofNat _ a.short.activeNotional, .ofNat _ a.long.activeGeneration,
    .ofNat _ a.short.activeGeneration, .ofNat _ a.lastPrice, .ofNat _ a.lastSyncSlot,
    .ofNat _ a.long.dust, .ofNat _ a.short.dust, .ofNat _ a.long.dormantBucketCount,
    .ofNat _ a.short.dormantBucketCount, 0, .replicate 7 0⟩

def ChainSnapshot.single (a : SubPoolAccount) : ChainSnapshot :=
  { ChainSnapshot.new with subPools := OrdMap.empty.insert 0 (.ofAccount a) }

theorem ChainSnapshot.single_shows {a : SubPoolAccount} {st : Program}
    (ha : st.accountAt 0 = some a) (hshows : (Decoder.OnchainSubPool.ofAccount a).Shows a) :
    (single a).ShowsSubPools st [0] := by
  intro id
  by_cases hid : id = 0
  · subst hid
    have hget : (single a).subPools.get? 0 = some (.ofAccount a) := OrdMap.get?_insert_self ..
    rw [hget, if_pos (List.mem_singleton.mpr rfl), ha]
    exact .some hshows
  · have hget : (single a).subPools.get? id = none := by
      rw [single, OrdMap.get?_insert, if_neg hid]
      rfl
    rw [hget, if_neg (by simpa using hid)]
    exact .none

def launched : LockedMarket :=
  (run (LockedMarket.step splToken) [.chain makeSubPool, .initializeLock] ⟨smallProgram 0, none⟩).2

def traded : LockedMarket :=
  (run (LockedMarket.step splToken)
    [.chain makeSubPool, .initializeLock, .chain (.instruction (.openPosition 0 8 8
      ⟨{ quoteAt (amount 100) with slot := 7 }, true, amount 50, amount 1⟩))]
    ⟨smallProgram 0, none⟩).2

def tradedAccount : SubPoolAccount :=
  ⟨0, ⟨50, 50, 0, 500, 0, 0, 0⟩, .zero, 100, 7⟩

theorem traded_account : traded.program.accountAt 0 = some tradedAccount := by decide +kernel

theorem traded_shows : (Decoder.OnchainSubPool.ofAccount tradedAccount).Shows tradedAccount := by
  constructor <;> decide

theorem traded_claimable :
    traded.lock = some (.fresh 7 75) ∧
      (((HostMirrorLeaderPolicy.mk 4 (.heldBy 9 3 75)).reconcile (.fresh 7 75)).shouldSubmit
        ((ChainSnapshot.single tradedAccount).bestSlot.getD 0)).1 = true ∧
      ∃ lock', keeperLeaderHeartbeat (.fresh 7 75) 4 traded.program.slot
          ((ChainSnapshot.single tradedAccount).bestSlot.getD 0) = .ok lock' ∧
        lock'.currentLeaderPubkey = some 4 := by
  refine ⟨by decide +kernel, (free_lock_claimable_iff traded.program (.fresh 7 75) rfl [0] _
    (ChainSnapshot.single_shows traded_account traded_shows) ⟨4, .heldBy 9 3 75⟩).mpr ⟨?_, ?_⟩⟩
  · exact .inr ⟨0, List.mem_singleton.mpr rfl, tradedAccount, traded_account, le_rfl⟩
  · intro id hid a ha
    rw [List.mem_singleton.mp hid, traded_account] at ha
    cases ha
    decide +kernel

theorem launched_shows :
    (Decoder.OnchainSubPool.ofAccount (.init 0)).Shows (.init 0) := by
  constructor <;> decide

/-- A lock nobody has held yet is refused to a keeper that sees no sync since it was created. -/
theorem free_lock_refused :
    ¬ ∀ (w : LockedMarket) (lock : KeeperLeaderLock) (watched : List Nat) (snap : ChainSnapshot)
        (mirror : HostMirrorLeaderPolicy),
      w.Reached splToken → w.lock = some lock → lock.hasLeader = false →
      snap.ShowsSubPools w.program watched →
      ((mirror.reconcile lock).shouldSubmit (snap.bestSlot.getD 0)).1 = true ∧
        ∃ lock', keeperLeaderHeartbeat lock mirror.signer w.program.slot (snap.bestSlot.getD 0)
            = .ok lock' ∧
          lock'.currentLeaderPubkey = some mirror.signer := by
  intro h
  have hreached : launched.Reached splToken := ⟨_, _, smallProgram_fresh (by decide), rfl⟩
  have hlock : launched.lock = some (.fresh 7 75) := by decide +kernel
  have haccount : launched.program.accountAt 0 = some (.init 0) := by decide +kernel
  obtain ⟨hgate, -⟩ := h launched (.fresh 7 75) [0] (.single (.init 0)) ⟨4, .fresh 0 75⟩
    hreached hlock rfl (ChainSnapshot.single_shows haccount launched_shows)
  have hfree : (HostMirrorLeaderPolicy.mk 4 (.fresh 7 75)).inner.hasLeader = false := rfl
  have hslot := (shouldSubmit_free_iff hfree).mp hgate
  exact absurd hslot (by decide)

end MoleFinance
