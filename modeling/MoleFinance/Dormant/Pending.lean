import MoleFinance.Dormant.Mutate
import Mathlib.Logic.Relation

/-! In-flight funds over whole runs of a store: what `pending_distribution_total` holds is
what the live buckets have still to replay, entry by entry. -/
namespace MoleFinance
open MoleMath Call

inductive StoreOp where
  | insertOrMerge (tick : Int) (anchorPrice addedShares addedNotional addedPositionCount
      maxBucketCount : Nat)
  | distribute (pNow totalAlloc maxLedgerSize : Nat)
  | distributeLazy (pNow totalAlloc maxLedgerSize : Nat)
  | redeem (tick : Int) (sharesToBurn : Nat)
  | applyPendingToBucket (tick : Int)
  | applyPendingToAll
  | compactLedger
deriving DecidableEq, Repr

namespace StoreOp

def run : StoreOp → StoreM Unit
  | .insertOrMerge tick anchorPrice addedShares addedNotional addedPositionCount maxBucketCount =>
    DormantStore.insertOrMerge tick anchorPrice addedShares addedNotional addedPositionCount
      maxBucketCount
  | .distribute pNow totalAlloc maxLedgerSize => do
    let _ ← DormantStore.distribute pNow totalAlloc maxLedgerSize
  | .distributeLazy pNow totalAlloc maxLedgerSize => do
    let _ ← DormantStore.distributeLazy pNow totalAlloc maxLedgerSize
  | .redeem tick sharesToBurn => do
    let _ ← DormantStore.redeem tick sharesToBurn
  | .applyPendingToBucket tick => do
    let _ ← DormantStore.applyPendingToBucket tick
  | .applyPendingToAll => do
    let _ ← DormantStore.applyPendingToAll
  | .compactLedger => do
    let _ ← DormantStore.compactLedger

def runAll : List StoreOp → StoreM Unit
  | [] => return
  | op :: ops => do
    op.run
    runAll ops

def after (ops : List StoreOp) (s : DormantStore) : DormantStore :=
  match runAll ops s with
  | .ok _ s => s
  | .error _ s => s

end StoreOp

namespace DormantStore

def Step (s s' : DormantStore) : Prop := ∃ op : StoreOp, op.run s = .ok () s'

def Reached (direction : Direction) : DormantStore → Prop :=
  Relation.ReflTransGen Step (new direction)

theorem reached_of_runAll {direction : Direction} {ops : List StoreOp} {s : DormantStore}
    (h : StoreOp.runAll ops (new direction) = .ok () s) : Reached direction s := by
  suffices hr : ∀ s0, StoreOp.runAll ops s0 = .ok () s → Relation.ReflTransGen Step s0 s from
    hr _ h
  clear h
  intro s0
  induction ops generalizing s0 with
  | nil =>
    intro h
    cases h
    exact .refl
  | cons op ops ih =>
    intro h
    obtain ⟨_, s1, h1, h⟩ := bind_ok.mp h
    exact .head ⟨op, h1⟩ (ih s1 h)

theorem runAll_after {ops : List StoreOp} {s : DormantStore}
    (h : (commit (StoreOp.runAll ops) s).isOk = true) :
    StoreOp.runAll ops s = .ok () (StoreOp.after ops s) := by
  unfold StoreOp.after
  cases hr : StoreOp.runAll ops s with
  | ok u s' => rfl
  | error e s' => simp [commit, hr, Except.isOk, Except.toBool] at h

theorem map_run_ok {α : Type} {x : StoreM α} {s s' : DormantStore}
    (h : (do let _ ← x : StoreM Unit) s = .ok () s') : ∃ a, x s = .ok a s' := by
  obtain ⟨a, s1, hx, hp⟩ := bind_ok.mp h
  cases hp
  exact ⟨a, hx⟩

/-- How a successful call may treat the entries of the ledger: it drops a prefix every live
    bucket is past and may append one entry. -/
structure Keeps (s s' : DormantStore) : Prop where
  inv : s'.Inv
  window : ∃ k new, k ≤ s.ledger.length ∧ s'.ledger = s.ledger.drop k ++ new ∧
    s'.ledgerGcOffset = s.ledgerGcOffset + k

theorem Upkeep.keeps {s s' : DormantStore} (h : s.Upkeep s') : s.Keeps s' := by
  obtain ⟨k, hk, hl, hg⟩ := h.dropped
  exact ⟨h.inv, k, [], hk, by simpa using hl, hg⟩

theorem recordBy_keeps {s s1 : DormantStore} {entry : DistEntry} (mode : DistributeMode)
    (hu : s.Upkeep s1) (he : s1.Event entry) : s.Keeps (s1.recordBy mode entry) := by
  obtain ⟨k, hk, hl, hg⟩ := hu.dropped
  refine ⟨(recordBy_upkeep mode hu.inv he).inv, k, [entry], hk, ?_, ?_⟩
  · cases mode <;> simp [recordBy, recordEager, recordLazy, hl]
  · cases mode <;> simp [recordBy, recordEager, recordLazy, hg]

theorem distributeBy_keeps (mode : DistributeMode) {s s' : DormantStore} {p a m : Nat}
    {r : DistributionReceipt} (h : s.Inv) (hr : distributeBy mode p a m s = .ok r s') :
    s.Keeps s' := by
  have hd := distributeBy_cases h mode p a m
  rw [hr] at hd
  cases hd with
  | idle _ hu _ => exact hu.keeps
  | recorded s1 t total ha ht hrec => exact recordBy_keeps mode hrec.upkeep hrec.event

theorem insertOrMerge_keeps {s s' : DormantStore} {tick : Int} {anchor shares notional count
    cap : Nat} (h : s.Inv)
    (hr : insertOrMerge tick anchor shares notional count cap s = .ok () s') :
    s.Keeps s' := by
  have hd := insertOrMerge_cases h tick anchor shares notional count cap
  rw [hr] at hd
  cases hd with
  | merged s1 b b' hu hc hb hm =>
    obtain ⟨k, hk, hl, hg⟩ := hu.dropped
    obtain ⟨-, -, -, rfl⟩ := mergeBucket_ok hm
    have hl' : s1.ledger = s.ledger.drop k ++ [] := by simpa using hl
    exact ⟨setBucket_inv_same hu.inv hb hc ⟨rfl, rfl, rfl, rfl⟩ rfl, k, [], hk, hl', hg⟩
  | inserted hb hn =>
    exact ⟨insertBucket_inv h hb _ _ _ _, 0, [], Nat.zero_le _, by simp [setBucket], rfl⟩

theorem redeem_keeps {s s' : DormantStore} {tick : Int} {shares : Nat} {r : RedeemReceipt}
    (h : s.Inv) (hr : redeem tick shares s = .ok r s') : s.Keeps s' := by
  have hd := redeem_cases h tick shares
  rw [hr] at hd
  cases hd with
  | burned s1 b b' _ hu hc hb h0 hle hm =>
    obtain ⟨k, hk, hl, hg⟩ := hu.dropped
    exact ⟨burned_inv hu.inv hb hc hm, k, [], hk, by simpa using hl, hg⟩
  | nothing _ b hu hc hb h0 => exact hu.keeps

theorem applyPendingToBucket_upkeep {s s' : DormantStore} {tick : Int} {n : Nat} (h : s.Inv)
    (hr : applyPendingToBucket tick s = .ok n s') : s.Upkeep s' :=
  applyPendingToBucket_ok h hr ▸ settle_upkeep h tick

theorem applyPendingToAll_ok {s s' : DormantStore} {n : Nat} (h : s.Inv)
    (hr : applyPendingToAll s = .ok n s') : s.Upkeep s' ∧ ∀ k, s'.CaughtUp k := by
  rcases applyPendingToAll_cases h with ⟨m, s1, h1, hu, hc⟩ | ⟨⟨s1, h1⟩, -⟩
  · rw [h1] at hr
    cases hr
    exact ⟨hu, hc⟩
  · rw [h1] at hr
    cases hr

theorem step_keeps {s s' : DormantStore} (h : s.Inv) (hs : s.Step s') : s.Keeps s' := by
  obtain ⟨op, hr⟩ := hs
  cases op with
  | insertOrMerge tick anchor shares notional count cap => exact insertOrMerge_keeps h hr
  | distribute p a m =>
    obtain ⟨r, hr⟩ := map_run_ok hr
    exact distributeBy_keeps .eager h hr
  | distributeLazy p a m =>
    obtain ⟨r, hr⟩ := map_run_ok hr
    exact distributeBy_keeps .lazy h hr
  | redeem tick shares =>
    obtain ⟨r, hr⟩ := map_run_ok hr
    exact redeem_keeps h hr
  | applyPendingToBucket tick =>
    obtain ⟨n, hr⟩ := map_run_ok hr
    exact (applyPendingToBucket_upkeep h hr).keeps
  | applyPendingToAll =>
    obtain ⟨n, hr⟩ := map_run_ok hr
    exact (applyPendingToAll_ok h hr).1.keeps
  | compactLedger =>
    obtain ⟨n, hr⟩ := map_run_ok hr
    obtain ⟨m, s1, h1, hu⟩ := compactLedger_run h
    rw [h1] at hr
    cases hr
    exact hu.keeps

theorem reached_inv {direction : Direction} {s : DormantStore} (h : Reached direction s) :
    s.Inv := by
  induction h with
  | refl => exact new_inv direction
  | tail _ hs ih => exact (step_keeps ih hs).inv

/-! The simulated trail and the checks, on a store with the invariant. -/

theorem simulateEntries_inactive {direction : Direction} {bucket : DormantBucket}
    {entries : List DistEntry}
    (hq : ∀ e ∈ entries, activated direction e.pAtEvent bucket.anchorPrice = false)
    (accrued delta : Nat) :
    simulateEntries direction bucket accrued delta entries = .ok delta := by
  induction entries with
  | nil => rfl
  | cons e es ih =>
    rw [simulateEntries, replayShare_inactive (hq e List.mem_cons_self)]
    exact ih (fun x hx => hq x (List.mem_cons_of_mem e hx))

theorem simulateEntries_quiet {direction : Direction} {bucket : DormantBucket}
    {entries : List DistEntry} (hq : Quiet direction bucket entries) :
    simulateEntries direction bucket bucket.accruedValue 0 entries
      = .ok (headShare direction bucket entries) := by
  have ha := hq.fits
  cases entries with
  | nil => rfl
  | cons e es =>
    obtain ⟨⟨share, hs⟩, hq⟩ := hq
    simp only [headShare, hs, valueOr0_ok] at ha ⊢
    have hd : share = 0 ∨ 0 + share < u128Size := by omega
    rw [simulateEntries, hs, ok_bind, addShare_of ha, ok_bind, addShare_of hd, ok_bind,
      simulateEntries_inactive hq, Nat.zero_add]

theorem pendingForBucket_eq {s : DormantStore} (h : s.Inv) {tick : Int} {b : DormantBucket}
    (hb : s.buckets.get? tick = some b) : s.pendingForBucket tick = .ok (s.owed b) := by
  have hok := h.bucketOk tick b hb
  have hw := h.window
  unfold pendingForBucket
  simp only [hb]
  by_cases hn : s.nextEventIndex ≤ b.lastAppliedIndex
  · rw [if_pos hn, h.owed_head (le_antisymm hok.le_next hn)]
  have hlen : ¬ s.ledger.length < b.lastAppliedIndex - s.ledgerGcOffset := by
    have := hok.le_next
    omega
  rw [if_neg hn, if_neg (not_lt.mpr hok.gc_le), if_neg hlen]
  exact simulateEntries_quiet hok.quiet

theorem Inv.pending_le_window {s : DormantStore} (h : s.Inv) :
    s.pendingDistributionTotal ≤ windowAlloc s.ledger := by
  have hc := h.covered 0
  have heq : s.buckets.sum (fun _ b =>
      if s.ledgerGcOffset + 0 ≤ b.lastAppliedIndex then s.owed b else 0)
      = s.pendingDistributionTotal := by
    rw [h.pending_eq]
    exact OrdMap.sum_congr (fun tick b hb => if_pos (h.bucketOk tick b hb).gc_le)
  rw [heq] at hc
  simpa using hc

theorem sumAllocInWindow_eq (total : Nat) (entries : List DistEntry)
    (ht : total < u128Size) : sumAllocInWindow total entries =
      if total + windowAlloc entries < u128Size then .ok (total + windowAlloc entries)
      else .error .mathOverflow := by
  induction entries generalizing total with
  | nil => simp [sumAllocInWindow, windowAlloc, ht]
  | cons e es ih =>
    have hw : windowAlloc (e :: es) = e.allocatedSumObserved + windowAlloc es := by
      simp [windowAlloc]
    rw [sumAllocInWindow, hw]
    by_cases hl : total + e.allocatedSumObserved < u128Size
    · rw [math_add_of hl, ok_bind, ih _ hl, Nat.add_assoc]
    · rw [math_add_not hl, error_bind, if_neg (by omega)]

theorem checkBuckets_eq {s : DormantStore} {buckets : List DormantBucket} {total : Nat}
    (ht : total < u128Size) (hb : ∀ b ∈ buckets,
      s.ledgerGcOffset ≤ b.lastAppliedIndex ∧ b.lastAppliedIndex ≤ s.nextEventIndex) :
    s.checkBuckets total buckets =
      if total + (buckets.map (·.accruedValue)).sum < u128Size
      then .ok (total + (buckets.map (·.accruedValue)).sum) else .error .mathOverflow := by
  induction buckets generalizing total with
  | nil => simp [checkBuckets, ht]
  | cons b bs ih =>
    obtain ⟨hg, hn⟩ := hb b List.mem_cons_self
    have hbs := fun c hc => hb c (List.mem_cons_of_mem b hc)
    rw [checkBuckets, List.map_cons, List.sum_cons]
    by_cases hl : total + b.accruedValue < u128Size
    · rw [math_add_of hl, ok_bind, ensure_of hn, ok_bind, ensure_of hg, ok_bind, ih hl hbs,
        Nat.add_assoc]
    · rw [math_add_not hl, error_bind, if_neg (by omega)]

theorem sum_values (m : BucketMap) (f : DormantBucket → Nat) :
    (m.values.map f).sum = m.sum (fun _ b => f b) := by
  simp [OrdMap.values, OrdMap.sum, List.map_map, Function.comp_def]

theorem Inv.mem_values {s : DormantStore} (h : s.Inv) {b : DormantBucket}
    (hb : b ∈ s.buckets.values) :
    s.ledgerGcOffset ≤ b.lastAppliedIndex ∧ b.lastAppliedIndex ≤ s.nextEventIndex := by
  obtain ⟨e, he, rfl⟩ := List.mem_map.mp hb
  have hok := h.bucketOk e.1 e.2 (OrdMap.get?_eq_some.mpr he)
  exact ⟨hok.gc_le, hok.le_next⟩

/-- On a store with the invariant the sanity check can only fail by overflow of its own sums. -/
theorem checkInvariants_eq {s : DormantStore} (h : s.Inv) :
    s.checkInvariants = if s.accruedValueTotal < u128Size ∧ windowAlloc s.ledger < u128Size
      then .ok () else .error .mathOverflow := by
  have hpos : 0 < u128Size := by norm_num [u128Size]
  have hsum := sum_values s.buckets (·.accruedValue)
  rw [← h.accrued_eq] at hsum
  unfold checkInvariants
  rw [checkBuckets_eq hpos (fun b hb => h.mem_values hb), hsum, Nat.zero_add,
    sumAllocInWindow_eq 0 s.ledger hpos, Nat.zero_add]
  by_cases ha : s.accruedValueTotal < u128Size
  · rw [if_pos ha, ok_bind, ensure_of rfl, ok_bind, ensure_of h.window, ok_bind]
    by_cases hw : windowAlloc s.ledger < u128Size
    · rw [if_pos hw, ok_bind, ensure_of h.pending_le_window, if_pos ⟨ha, hw⟩]
    · rw [if_neg hw, error_bind, if_neg (fun hc => hw hc.2)]
  · rw [if_neg ha, error_bind, if_neg (fun hc => ha hc.1)]

theorem loadBuckets_eq {direction : Direction} {gc next total : Nat} {map : BucketMap}
    {buckets : List (Int × DormantBucket)} (ht : total < u128Size)
    (hn : (buckets.map Prod.fst).Nodup) (hf : ∀ e ∈ buckets, map.get? e.1 = none)
    (hb : ∀ e ∈ buckets, e.2.direction = direction ∧ gc ≤ e.2.lastAppliedIndex ∧
      e.2.lastAppliedIndex ≤ next) :
    loadBuckets direction gc next total map buckets =
      if total + (buckets.map (fun e => e.2.accruedValue)).sum < u128Size
      then .ok (total + (buckets.map (fun e => e.2.accruedValue)).sum,
        map.insertAll buckets)
      else .error .mathOverflow := by
  induction buckets generalizing total map with
  | nil => simp [loadBuckets, ht, OrdMap.insertAll]
  | cons e es ih =>
    obtain ⟨hd, hg, hle⟩ := hb e List.mem_cons_self
    obtain ⟨hne, hnd⟩ := List.nodup_cons.mp hn
    have hbs := fun c hc => hb c (List.mem_cons_of_mem e hc)
    have hcontains : map.contains e.1 = false := by
      simp [OrdMap.contains, hf e List.mem_cons_self]
    have hfs : ∀ c ∈ es, (map.insert e.1 e.2).get? c.1 = none := by
      intro c hc
      have hce : c.1 ≠ e.1 := fun he => hne (he ▸ List.mem_map_of_mem hc)
      rw [OrdMap.get?_insert_ne _ _ hce]
      exact hf c (List.mem_cons_of_mem e hc)
    rw [loadBuckets, ensure_of hd, ok_bind, ensure_of hg, ok_bind, ensure_of hle, ok_bind,
      List.map_cons, List.sum_cons]
    by_cases hl : total + e.2.accruedValue < u128Size
    · rw [math_add_of hl, ok_bind, ensure_of hcontains, ok_bind, ih hl hnd hfs hbs, Nat.add_assoc]
      rfl
    · rw [math_add_not hl, error_bind, if_neg (by omega)]

/-- A store with the invariant is rebuilt from its own parts, in any bucket order. -/
theorem fromOnchainParts_eq {s : DormantStore} (h : s.Inv) {parts : List (Int × DormantBucket)}
    (hn : (parts.map Prod.fst).Nodup) (hp : ∀ e, e ∈ parts ↔ e ∈ s.buckets.entries) :
    fromOnchainParts s.direction parts s.ledger s.ledgerGcOffset s.nextEventIndex
      s.accruedValueTotal s.pendingDistributionTotal =
      if s.accruedValueTotal < u128Size ∧ windowAlloc s.ledger < u128Size
      then .ok s else .error .mathOverflow := by
  have hpos : 0 < u128Size := by norm_num [u128Size]
  have hnext := h.next_lt
  rw [← h.window] at hnext
  have hmap := OrdMap.insertAll_eq hn hp
  have hsum := OrdMap.sum_insertAll (m := .empty) (fun _ b => b.accruedValue) hn (by simp)
  rw [hmap, ← h.accrued_eq, OrdMap.sum_empty, Nat.zero_add] at hsum
  have hb : ∀ e ∈ parts, e.2.direction = s.direction ∧
      s.ledgerGcOffset ≤ e.2.lastAppliedIndex ∧ e.2.lastAppliedIndex ≤ s.nextEventIndex := by
    intro e he
    have hok := h.bucketOk e.1 e.2 (OrdMap.get?_eq_some.mpr ((hp e).mp he))
    exact ⟨hok.direction_eq, hok.gc_le, hok.le_next⟩
  unfold fromOnchainParts
  rw [ensure_of hnext, ok_bind, ensure_of h.window, ok_bind,
    loadBuckets_eq hpos hn (by simp) hb, ← hsum, Nat.zero_add, hmap,
    sumAllocInWindow_eq 0 s.ledger hpos, Nat.zero_add]
  by_cases ha : s.accruedValueTotal < u128Size
  · rw [if_pos ha, ok_bind, ensure_of rfl, ok_bind]
    by_cases hw : windowAlloc s.ledger < u128Size
    · rw [if_pos hw, ok_bind, ensure_of h.pending_le_window, if_pos ⟨ha, hw⟩]
      rfl
    · rw [if_neg hw, error_bind, if_neg (fun hc => hw hc.2)]
  · rw [if_neg ha, error_bind, if_neg (fun hc => ha hc.1)]

theorem Keeps.entry_kept {s s' : DormantStore} (h : s.Inv) (hk : s.Keeps s') {tick : Int}
    {b : DormantBucket} (hb : s'.buckets.get? tick = some b) {e : DistEntry} (he : e ∈ s.ledger)
    (hi : b.lastAppliedIndex ≤ e.eventIndex) : e ∈ s'.ledger := by
  obtain ⟨k, new, -, hl, hg⟩ := hk.window
  have hge := (hk.inv.bucketOk tick b hb).gc_le
  obtain ⟨hlo, hm⟩ := h.indexed.mem he
  rw [hl]
  refine List.mem_append_left _ ?_
  obtain ⟨j, hj⟩ : ∃ j, e.eventIndex - s.ledgerGcOffset = k + j := ⟨_, (Nat.add_sub_cancel' (by
    omega : k ≤ e.eventIndex - s.ledgerGcOffset)).symm⟩
  rw [hj, ← List.drop_drop] at hm
  exact List.mem_of_mem_drop hm

theorem CaughtUp.pending_zero {s : DormantStore} (h : s.Inv) (hc : ∀ k, s.CaughtUp k) :
    s.pendingDistributionTotal = 0 := by
  rw [h.pending_eq, OrdMap.sum_zero_iff]
  exact fun k b hb => h.owed_head (hc k b hb)

/-- In-flight funds are attributed exactly. -/
theorem pending_attributed_exactly (direction : Direction) (s : DormantStore)
    (h : Reached direction s) :
    -- the total is the sum of what each live bucket has pending
    (∃ pending : Int → Nat,
      (∀ tick b, s.buckets.get? tick = some b → s.pendingForBucket tick = .ok (pending tick)) ∧
      s.pendingDistributionTotal = s.buckets.sum (fun tick _ => pending tick)) ∧
    -- a replay takes from it what it adds to the bucket, without truncation
    (∀ tick n s', applyPendingToBucket tick s = .ok n s' →
      s'.pendingDistributionTotal + s'.accruedValueTotal
        = s.pendingDistributionTotal + s.accruedValueTotal ∧
      s.accruedValueTotal ≤ s'.accruedValueTotal) ∧
    (∀ tick b delta b', s.buckets.get? tick = some b →
      replayEntries s.direction 0 (s.ledger.drop (b.lastAppliedIndex - s.ledgerGcOffset)) b
        = .ok delta b' → delta ≤ s.pendingDistributionTotal) ∧
    (∀ n s', applyPendingToAll s = .ok n s' → s'.pendingDistributionTotal = 0) ∧
    -- no entry some bucket has still to replay is missing from the window, or ever dropped
    (∀ tick b, s.buckets.get? tick = some b → ∀ i, b.lastAppliedIndex ≤ i → i < s.nextEventIndex →
      ∃ e ∈ s.ledger, e.eventIndex = i) ∧
    (∀ s' tick b e, s.Step s' → s'.buckets.get? tick = some b → e ∈ s.ledger →
      b.lastAppliedIndex ≤ e.eventIndex → e ∈ s'.ledger) ∧
    -- the two checks of the total against the live window never fire
    s.pendingDistributionTotal ≤ windowAlloc s.ledger ∧
    s.checkInvariants ≠ .error (.invariant
      "pending_distribution_total > Σ allocated_sum_observed in live window") ∧
    (∀ parts : List (Int × DormantBucket), (parts.map Prod.fst).Nodup →
      (∀ e, e ∈ parts ↔ e ∈ s.buckets.entries) →
      fromOnchainParts s.direction parts s.ledger s.ledgerGcOffset s.nextEventIndex
        s.accruedValueTotal s.pendingDistributionTotal ≠ .error (.invariant
          "pending_distribution_total exceeds live-window allocated_sum")) := by
  have hi := reached_inv h
  refine ⟨⟨fun tick => valueOr0 (s.pendingForBucket tick), ?_, ?_⟩, ?_, ?_, ?_, ?_, ?_,
    hi.pending_le_window, ?_, ?_⟩
  · intro tick b hb
    simp only [pendingForBucket_eq hi hb, valueOr0_ok]
  · rw [hi.pending_eq]
    apply OrdMap.sum_congr
    intro tick b hb
    simp only [pendingForBucket_eq hi hb, valueOr0_ok]
  · intro tick n s' hr
    have hu := applyPendingToBucket_upkeep hi hr
    have hf := hu.funds_eq
    exact ⟨by omega, hu.accrued_le⟩
  · intro tick b delta b' hb hr
    have hr' := hi.replay_run (hi.bucketOk tick b hb)
    unfold suffix at hr'
    rw [hr'] at hr
    cases hr
    exact hi.owed_le hb
  · intro n s' hr
    obtain ⟨hu, hc⟩ := applyPendingToAll_ok hi hr
    exact CaughtUp.pending_zero hu.inv hc
  · intro tick b hb i hle hlt
    have hg := (hi.bucketOk tick b hb).gc_le
    exact hi.indexed.exists_mem (by omega) (by rw [hi.window]; exact hlt)
  · intro s' tick b e hs hb he hle
    exact (step_keeps hi hs).entry_kept hi hb he hle
  · rw [checkInvariants_eq hi]
    split_ifs <;> simp
  · intro parts hn hp
    rw [fromOnchainParts_eq hi hn hp]
    split_ifs <;> simp

/-- Two buckets, a lazy event that leaves 49 in flight, and a merge that replays one of them. -/
def lazyEvent : List StoreOp :=
  [.insertOrMerge 80 80 100 1000 1 10, .insertOrMerge 85 85 100 1000 1 10,
    .distributeLazy 90 50 10, .insertOrMerge 80 80 5 50 1 10]

theorem lazyEvent_pending_attributed :
    StoreOp.runAll lazyEvent (new .long) = .ok () (StoreOp.after lazyEvent (new .long)) ∧
    (StoreOp.after lazyEvent (new .long)).pendingDistributionTotal = 15 ∧
    ∀ n s', applyPendingToAll (StoreOp.after lazyEvent (new .long)) = .ok n s' →
      s'.pendingDistributionTotal = 0 := by
  have hr : StoreOp.runAll lazyEvent (new .long) = .ok () (StoreOp.after lazyEvent (new .long)) :=
    rfl
  exact ⟨hr, by decide +kernel, (pending_attributed_exactly .long _ (reached_of_runAll hr)).2.2.2.1⟩

/-- Bucket 100 is full at 200 with 2 ^ 127; the lazy event at 200 is all for bucket 40. -/
def overfull : List StoreOp :=
  [.insertOrMerge 100 100 1 (2 ^ 127) 1 10, .distribute 200 (2 ^ 127) 10,
    .insertOrMerge 40 40 1 (2 ^ 125) 1 10, .distributeLazy 200 (2 ^ 127) 10]

theorem overfull_keeps_pending :
    Reached .long (StoreOp.after overfull (new .long)) ∧
    ∃ s', applyPendingToAll (StoreOp.after overfull (new .long)) = .error .mathOverflow s' ∧
      s'.pendingDistributionTotal = 2 ^ 127 := by
  have hr : (commit (StoreOp.runAll overfull) (new .long)).isOk = true := by decide +kernel
  refine ⟨reached_of_runAll (runAll_after hr), ?_⟩
  have hm : (match applyPendingToAll (StoreOp.after overfull (new .long)) with
      | .ok _ _ => none
      | .error e s' => some (e, s'.pendingDistributionTotal)) =
      some (ClearingError.mathOverflow, 2 ^ 127) := by decide +kernel
  cases ha : applyPendingToAll (StoreOp.after overfull (new .long)) with
  | ok n s' => simp [ha] at hm
  | error e s' =>
    simp only [ha, Option.some.injEq, Prod.mk.injEq] at hm
    exact ⟨s', by rw [hm.1], hm.2⟩

end DormantStore
end MoleFinance
