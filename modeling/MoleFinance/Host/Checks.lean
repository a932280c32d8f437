import MoleFinance.Indexer.Reports
import MoleFinance.Runtime.HarnessParity

/-! The checks of the harness over the engine, the vaults and the indexer at once. They hold after
every operation, as long as the replay of the events never stops. -/
namespace MoleFinance
open MoleMath Call Trace

inductive CheckError where
  | invariantConservation (deposits withdrawals state : Nat)
  | invariantVault (vault expected poolEquity dormant pending dust : Nat)
  | invariant (reason : String)
  | clearing (error : ClearingError)
  /-- an unchecked sum that overflowed -/
  | panic

def orCheck {α : Type} : Except ClearingError α → Except CheckError α
  | .ok a => .ok a
  | .error e => .error (.clearing e)

/-- Whether some bucket is missing from the inventory or shown with other numbers. -/
def diverges (store : DormantStore) (dir : Direction) (inv : List DormantBucketSnapshot) :
    Bool → List (Int × DormantBucket) → Except CheckError Bool
  | diverged, [] => return diverged
  | diverged, (tick, b) :: rest =>
    match inv.find? (fun s => s.direction = dir ∧ s.bucketTick = tick) with
    | none => diverges store dir inv true rest
    | some idx => do
      let pending ← orCheck (store.pendingForBucket tick)
      let chainEagerEquiv := saturatingAdd u128Size b.accruedValue pending
      diverges store dir inv (diverged || decide (
        idx.totalRecoveryShares ≠ b.totalRecoveryShares ∨
        idx.totalRecoveryNotional ≠ b.totalRecoveryNotional ∨
        idx.accruedValue ≠ chainEagerEquiv ∨ idx.anchorPrice ≠ b.anchorPrice)) rest

def checkDir (chainStore : DormantStore) (dir : Direction) (inv : List DormantBucketSnapshot) :
    Except CheckError Unit := do
  -- buckets the chain has already deleted
  ensure (∀ x ∈ inv, x.direction = dir → chainStore.buckets.contains x.bucketTick = true)
    (.invariant "indexer has bucket that chain removed")
  let diverged ← diverges chainStore dir inv false chainStore.buckets.entries
  ensure (diverged = false) (.invariant "indexer bucket diverged from chain")

def checkBuckets (indexer : IndexerState) : List (Nat × SubPool) → Except CheckError Unit
  | [] => return ()
  | (subPoolId, chainSp) :: rest => do
    let inv := (indexer.dormantInventory subPoolId).getD []
    checkDir chainSp.long.dormant .long inv
    checkDir chainSp.short.dormant .short inv
    checkBuckets indexer rest

namespace Harness

def checkInvariants (h : Harness IndexerState) : Except CheckError Unit := do
  let s := h.summary
  ensure (s.vaultBalance + s.feeVaultBalance < u128Size) .panic
  let state := s.vaultBalance + s.feeVaultBalance
  ensure (s.totalWithdrawals + state < u128Size) .panic
  ensure (s.totalDeposits = s.totalWithdrawals + state)
    (.invariantConservation s.totalDeposits s.totalWithdrawals state)
  let expected := s.poolEquityTotal + s.dormantAccruedTotal + s.dormantPendingTotal + s.dustTotal
  ensure (expected < u128Size) .panic
  ensure (s.vaultBalance = expected)
    (.invariantVault s.vaultBalance expected s.poolEquityTotal s.dormantAccruedTotal
      s.dormantPendingTotal s.dustTotal)
  ensure (s.feeVaultBalance = h.feesCollected)
    (.invariant "fee vault out of sync with fees_collected counter")
  checkBuckets h.indexer h.subPools.entries

end Harness

/-! An inventory that shows the buckets of the store passes. -/

section Inventory
open Indexer
variable {s : SubPool} {d : Direction} {inv : List DormantBucketSnapshot}

structure Shown (s : SubPool) (d : Direction) (inv : List DormantBucketSnapshot) : Prop where
  alone : ∀ snap ∈ inv, snap.direction = d →
    ∃ e ∈ (s.side d).dormant.buckets.entries, Shows s d e snap
  present : ∀ e ∈ (s.side d).dormant.buckets.entries, ∃ snap ∈ inv, Shows s d e snap

theorem exists_of_mem_right {α β : Type} {R : α → β → Prop} {as : List α} {bs : List β}
    (h : List.Forall₂ R as bs) {b : β} (hb : b ∈ bs) : ∃ a ∈ as, R a b := by
  induction h with
  | nil => cases hb
  | @cons a c as bs hr _ ih =>
    cases hb with
    | head => exact ⟨a, List.mem_cons_self, hr⟩
    | tail _ hb =>
      obtain ⟨a', ha', hr'⟩ := ih hb
      exact ⟨a', List.mem_cons_of_mem _ ha', hr'⟩

theorem Shown.find (h : Shown s d inv) {e : Int × DormantBucket}
    (he : e ∈ (s.side d).dormant.buckets.entries) : ∃ snap,
    inv.find? (fun x => x.direction = d ∧ x.bucketTick = e.1) = some snap ∧ Shows s d e snap := by
  obtain ⟨snap0, hin0, h0⟩ := h.present e he
  cases hf : inv.find? (fun x => x.direction = d ∧ x.bucketTick = e.1) with
  | none =>
    have := List.find?_eq_none.mp hf snap0 hin0
    simp [h0.direction, h0.bucketTick] at this
  | some snap =>
    have hprop := List.find?_some hf
    simp only [decide_eq_true_eq] at hprop
    obtain ⟨e', he', hshow⟩ := h.alone snap (List.mem_of_find?_eq_some hf) hprop.1
    have hkey : e'.1 = e.1 := hshow.bucketTick.symm.trans hprop.2
    have hsame : e' = e := by
      have h1 := OrdMap.get?_eq_some.mpr he
      have h2 := OrdMap.get?_eq_some.mpr he'
      rw [hkey, h1, Option.some.injEq] at h2
      exact Prod.ext hkey h2.symm
    exact ⟨snap, rfl, hsame ▸ hshow⟩

theorem Shown.diverges (hs : s.Sound) (hv : s.value < u128Size) (h : Shown s d inv)
    {es : List (Int × DormantBucket)} (hes : es ⊆ (s.side d).dormant.buckets.entries) :
    diverges (s.side d).dormant d inv false es = .ok false := by
  induction es with
  | nil => rfl
  | cons e es ih =>
    obtain ⟨tick, b⟩ := e
    have he : (tick, b) ∈ (s.side d).dormant.buckets.entries := hes List.mem_cons_self
    obtain ⟨snap, hf, hshow⟩ := h.find he
    obtain ⟨pending, hp, haccrued⟩ := hshow.accrued
    have hb := OrdMap.get?_eq_some.mpr he
    have hle := (hs d).1.accrued_le hb
    have hbounded : (s.side d).dormant.Bounded := bounded_of_value hv d
    have howed := DormantStore.pendingForBucket_eq (hs d).1 hb
    rw [hp, Except.ok.injEq] at howed
    have hpending := (hs d).1.owed_le hb
    unfold DormantStore.Bounded at hbounded
    have hsat : saturatingAdd u128Size b.accruedValue pending = b.accruedValue + pending := by
      unfold saturatingAdd
      omega
    rw [MoleFinance.diverges, hf]
    simp only [hp, orCheck, ok_bind]
    rw [hsat, haccrued, hshow.anchorPrice, hshow.shares, hshow.notional]
    simpa using ih fun e' he' => hes (List.mem_cons_of_mem _ he')

theorem Shown.checkDir (hs : s.Sound) (hv : s.value < u128Size) (h : Shown s d inv) :
    checkDir (s.side d).dormant d inv = .ok () := by
  have hall : ∀ x ∈ inv, x.direction = d →
      (s.side d).dormant.buckets.contains x.bucketTick = true := by
    intro x hx hd
    obtain ⟨e, he, hshow⟩ := h.alone x hx hd
    rw [hshow.bucketTick]
    exact OrdMap.contains_iff.mpr ⟨e.2, OrdMap.get?_eq_some.mpr he⟩
  rw [MoleFinance.checkDir, ensure_of hall, ok_bind, h.diverges hs hv (List.Subset.refl _), ok_bind]
  rfl

end Inventory

namespace Indexer
open IndexerState

/-- Events of one sub-pool work within it, when no other one has the positions they name. -/
theorem applyAll_within {sp : Nat} {events : List EngineEvent} {x : IndexerState}
    (hsp : ∀ e ∈ events, e.subPoolId = sp)
    (hown : ∀ e ∈ events, ∀ id, e.positionId = some id → Owns sp x id) :
    Within sp (applyAll events) x := by
  induction events generalizing x with
  | nil => exact .pure ()
  | cons event events ih =>
    have hfirst := hsp event List.mem_cons_self
    have hwithin : Within sp (apply event) x := by
      rw [← hfirst] at hown ⊢
      exact apply_within (hown event List.mem_cons_self)
    refine .bind hwithin fun u x' hx' => ih (fun e he => hsp e (List.mem_cons_of_mem _ he)) ?_
    intro e he id hid
    have hold := owns_iff.mp (hown e (List.mem_cons_of_mem _ he) id hid)
    refine owns_iff.mpr fun s hs => ?_
    have howner := apply_owner event x id
    rw [hx'] at howner
    change x'.owner id = _ at howner
    rw [howner] at hs
    split_ifs at hs with ho
    · cases hs
      exact hfirst
    · exact hold s hs

theorem applyAll_owner {sp : Nat} {events : List EngineEvent} {x x' : IndexerState} {u : Unit}
    (hsp : ∀ e ∈ events, e.subPoolId = sp) (hr : applyAll events x = .ok u x') {id s : Nat}
    (hs : x'.owner id = some s) : s = sp ∨ x.owner id = some s := by
  induction events generalizing x with
  | nil =>
    cases hr
    exact .inr hs
  | cons event events ih =>
    obtain ⟨_, x1, h1, hr⟩ := bind_ok.mp hr
    have howner := apply_owner event x id
    rw [h1] at howner
    change x1.owner id = _ at howner
    cases ih (fun e he => hsp e (List.mem_cons_of_mem _ he)) hr with
    | inl h => exact .inl h
    | inr h =>
      rw [howner] at h
      split_ifs at h with ho
      · cases h
        exact .inl (hsp event List.mem_cons_self)
      · exact .inr h

theorem Credit.of_only {ev : PoolSyncEvent} {x : IndexerState} {pos : PositionView} {share : Nat}
    (h : Credit ev (x.only ev.subPoolId) pos share) : Credit ev x pos share := by
  cases h with
  | active d hsel =>
    rw [get?_subPools_only] at hsel
    exact .active d hsel
  | dormant d tick bucket o t outstandings hsel hb ho hcollect =>
    have hkey : (bucketKey ev.subPoolId d tick).subPoolId = ev.subPoolId := rfl
    rw [get?_buckets_only hkey] at hb
    have hentries := only_buckets_entries (x := x)
      fun key (hkey : decide (key.subPoolId = ev.subPoolId ∧ key.direction = d) = true) =>
        (of_decide_eq_true hkey).1
    rw [hentries] at hcollect
    exact .dormant d tick bucket o t outstandings hsel hb ho hcollect

/-- A replay that stops on the part of its sub-pool stops on the whole indexer. -/
theorem Overflowed.of_only {sp : Nat} {events : List EngineEvent} {x y : IndexerState}
    {e : IndexerError} (hsp : ∀ e ∈ events, e.subPoolId = sp)
    (hown : ∀ e ∈ events, ∀ id, e.positionId = some id → Owns sp x id)
    (h : Overflowed (x.only sp) events e y) :
    ∃ x', applyAll events x = .error .mathOverflow x' ∧
      Overflowed x events .mathOverflow x' := by
  obtain ⟨pre, ev, post, y1, rfl, hpre, hev, rfl, k, pos, share, hpos, hcredit, hfull⟩ := h
  have hfirst : Within sp (applyAll pre) x := applyAll_within
    (fun e he => hsp e (List.mem_append_left _ he))
    (fun e he => hown e (List.mem_append_left _ he))
  have hsame := hfirst.same
  rw [hpre] at hsame
  cases hr : applyAll pre x with
  | error e' x1 =>
    rw [hr] at hsame
    exact hsame.elim
  | ok u x1 =>
    rw [hr] at hsame
    obtain ⟨-, rfl⟩ := hsame
    obtain rfl : ev.subPoolId = sp :=
      hsp (.poolSync ev) (List.mem_append_right _ List.mem_cons_self)
    have hsecond := (applyPoolSync_within (x := x1) ev).same
    rw [show applyPoolSync ev (x1.only ev.subPoolId) = _ from hev] at hsecond
    cases hr' : applyPoolSync ev x1 with
    | ok u' x' =>
      rw [hr'] at hsecond
      exact hsecond.elim
    | error e' x' =>
      rw [hr'] at hsecond
      obtain ⟨rfl, rfl⟩ := hsecond
      have hpos' : x'.positions.get? k = some pos := by
        simp only [only, OrdMap.get?_filter, Option.filter_eq_some_iff] at hpos
        exact hpos.1
      refine ⟨x', ?_, pre, ev, post, x1, rfl, hr, hr', rfl, k, pos, share, hpos',
        hcredit.of_only, hfull⟩
      rw [applyAll_append, bind_of_ok hr]
      exact bind_of_error hr' _

theorem step_opens {w : World} (h : w.Inv) (op : MarketParams × EngineOp) {e : EngineEvent}
    (he : e ∈ (EngineOp.step op w).1.events) {id : Nat} (hid : e.opens = some id) :
    ¬ w.has id ∧ (EngineOp.step op w).2.has id := by
  obtain ⟨market, op⟩ := op
  cases hc : op.call market w with
  | none =>
    simp only [EngineOp.step, hc, Answer.events] at he
    cases he
  | some r =>
    cases r with
    | error e' =>
      simp only [EngineOp.step, hc, Answer.events] at he
      cases he
    | ok wr =>
      obtain ⟨w', reply⟩ := wr
      simp only [EngineOp.step, hc, Answer.events] at he ⊢
      obtain ⟨s1, es1, es2, hsync, h1, hact, hev⟩ := op.call_parts h hc
      rw [hev] at he
      cases List.mem_append.mp he with
      | inl he =>
        rw [sync_opens hsync e he] at hid
        cases hid
      | inr he =>
        generalize op.burns = burns at hact
        cases hact with
        | opened market s envelope d gross k s' p out sync hk ho =>
          obtain rfl := List.mem_singleton.mp he
          cases hid
          exact ⟨by simpa [World.has] using hk, by simp [World.has]⟩
        | idle => cases he
        | closed | forceClosed | claimed | harvested | preSynced =>
          obtain rfl := List.mem_singleton.mp he
          cases hid

end Indexer

namespace Harness
open Indexer IndexerState

structure Watched (h : Harness IndexerState) : Prop where
  hosting : h.Hosting []
  balanced : h.Balanced 0 0 0
  follows : ∀ id s, h.subPools.get? id = some s → Indexer.Follows (h.world id s) (h.indexer.only id)
  owned : ∀ k sp, h.indexer.owner k = some sp → ∃ s, h.subPools.get? sp = some s

structure Carries (h g : Harness IndexerState) (id : Nat) (s : SubPool) (op : EngineOp)
    (w' : World) (reply : Reply) : Prop where
  registered : h.subPools.get? id = some s
  call : op.call h.market (h.world id s) = some (.ok (w', reply))
  subPools : g.subPools = h.subPools.insert id w'.subPool
  world : g.world id w'.subPool = w'
  others : ∀ j, j ≠ id → ∀ t, g.world j t = h.world j t
  stays : ∀ k p, h.positions.get? k = some p →
    ∃ p', g.positions.get? k = some p' ∧ p'.subPoolId = p.subPoolId
  indexer : g.indexer = h.indexer
  hosting : g.Hosting []
  balanced : g.Balanced 0 0 0

section Feed
variable {h g : Harness IndexerState} {id : Nat} {s : SubPool} {op : EngineOp} {w' : World}
  {reply : Reply}

theorem mem_world {k : Nat} {p : Position} : (h.world id s).positions.get? k = some p ↔
    h.positions.get? k = some p ∧ p.subPoolId = id := by
  simp only [world, OrdMap.get?_filter, Option.filter_eq_some_iff, decide_eq_true_eq]

theorem Watched.found (hw : Watched h) {k sp : Nat} (hk : h.indexer.owner k = some sp) :
    ∃ p, h.positions.get? k = some p ∧ p.subPoolId = sp := by
  obtain ⟨t, ht⟩ := hw.owned k sp hk
  obtain ⟨pos, hpos, rfl⟩ := Option.map_eq_some_iff.mp hk
  have honly : (h.indexer.only pos.subPoolId).positions.get? k = some pos := by
    simp only [only, OrdMap.get?_filter, hpos]
    simp [Option.filter_some]
  obtain ⟨p, hp⟩ := (hw.follows _ t ht).mirrored.known k pos honly
  exact ⟨p, mem_world.mp hp⟩

theorem Carries.owns (hc : Carries h g id s op w' reply) (hw : Watched h) :
    ∀ e ∈ reply.events, ∀ k, e.positionId = some k → Owns id h.indexer k := by
  have hinv := (hw.hosting.housed id s hc.registered).reached.inv
  have hstep : EngineOp.step (h.market, op) (h.world id s) = (.done reply, w') := by
    simp only [EngineOp.step, hc.call]
  have hnames := (step_names hinv (h.market, op)).2.2.1
  intro e he k hk
  refine owns_iff.mpr fun sp hsp => ?_
  obtain ⟨p, hp, rfl⟩ := hw.found hsp
  have hmem : e ∈ (EngineOp.step (h.market, op) (h.world id s)).1.events := by
    rw [hstep]
    exact he
  cases hnames e hmem k hk with
  | inl hhas =>
    obtain ⟨q, hq⟩ := Option.isSome_iff_exists.mp hhas
    obtain ⟨hget, hid⟩ := mem_world.mp hq
    cases hp.symm.trans hget
    exact hid
  | inr hopens =>
    have hnew := (step_opens hinv (h.market, op) hmem hopens).2
    rw [hstep] at hnew
    obtain ⟨p', hp', hsame⟩ := hc.stays k p hp
    obtain ⟨q, hq⟩ := Option.isSome_iff_exists.mp hnew
    rw [← hc.world] at hq
    obtain ⟨hget, hid⟩ := mem_world.mp hq
    cases hp'.symm.trans hget
    exact hsame.symm.trans hid

/-- The events of a call are replayed, or some position has no room for a credit. -/
theorem Carries.fed (hc : Carries h g id s op w' reply) (hw : Watched h) :
    (∃ x, Indexer.applyAll reply.events g.indexer = .ok () x ∧ Watched { g with indexer := x }) ∨
    ∃ x, Indexer.applyAll reply.events g.indexer = .error .mathOverflow x ∧
      Indexer.Overflowed h.indexer reply.events .mathOverflow x := by
  have hhoused := hw.hosting.housed id s hc.registered
  have hinv := hhoused.reached.inv
  have hstep : EngineOp.step (h.market, op) (h.world id s) = (.done reply, w') := by
    simp only [EngineOp.step, hc.call]
  have hsp : ∀ e ∈ reply.events, e.subPoolId = id := by
    have hnames := (step_names hinv (h.market, op)).2.1.2
    rw [hstep, hhoused.id_eq] at hnames
    exact hnames
  have hwithin := applyAll_within hsp (hc.owns hw)
  have hfollows := step_follows hinv (h.market, op) _ (hw.follows id s hc.registered)
  rw [hstep] at hfollows
  have hsame := hwithin.same
  rw [hc.indexer]
  cases hr : Indexer.applyAll reply.events h.indexer with
  | ok u x =>
    refine .inl ⟨x, rfl, ?_⟩
    rw [hr] at hsame
    have hframe := hwithin.frame
    rw [hr] at hframe
    cases hr' : Indexer.applyAll reply.events (h.indexer.only id) with
    | error e y =>
      rw [hr'] at hsame
      exact hsame.elim
    | ok u' y =>
      rw [hr'] at hsame
      have hy : x.only id = y := hsame.2
      have hnew := hfollows.ok rfl hr'
      exact {
        hosting := hc.hosting.of_pools rfl rfl rfl rfl
        balanced := hc.balanced.of_funds rfl rfl rfl rfl rfl rfl rfl rfl
        follows := by
          intro j t ht
          change g.subPools.get? j = some t at ht
          change Indexer.Follows (g.world j t) (x.only j)
          rw [hc.subPools, OrdMap.get?_insert] at ht
          split_ifs at ht with hj
          · cases ht
            rw [hj, hc.world, hy]
            exact hnew
          · rw [hc.others j hj, show x.only j = h.indexer.only j from hframe j hj]
            exact hw.follows j t ht
        owned := by
          intro k sp hk
          change ∃ t, g.subPools.get? sp = some t
          rw [hc.subPools]
          cases applyAll_owner hsp hr hk with
          | inl hsame =>
            rw [hsame]
            exact ⟨_, OrdMap.get?_insert_self _ _ _⟩
          | inr hk =>
            obtain ⟨t, ht⟩ := hw.owned k sp hk
            exact get?_insert_subPool h id _ ht }
  | error e x =>
    rw [hr] at hsame
    cases hr' : Indexer.applyAll reply.events (h.indexer.only id) with
    | ok u' y =>
      rw [hr'] at hsame
      exact hsame.elim
    | error e' y =>
      have hover : Indexer.Overflowed (h.indexer.only id) reply.events e' y :=
        hfollows.error rfl hr'
      obtain ⟨x', hx', hstop⟩ := hover.of_only hsp (hc.owns hw)
      exact .inr ⟨x', hr.symm.trans hx', hstop⟩

theorem Carries.ofPosition {s' : SubPool} {k : Nat} {p' : Position} (hw : Watched h)
    (hs : h.subPools.get? id = some s)
    (hc : op.call h.market (h.world id s)
      = some (.ok (⟨s', (h.world id s).positions.insert k p'⟩, reply)))
    (hp' : p'.subPoolId = id) (hk : ∀ p, h.positions.get? k = some p → p.subPoolId = id)
    (hm : g.market = h.market) (hsub : g.subPools = h.subPools.insert id s')
    (hpos : g.positions = h.positions.insert k p') (hx : g.indexer = h.indexer)
    (hle : h.nextPositionId ≤ g.nextPositionId) (hlt : k < g.nextPositionId)
    (hb : g.Balanced 0 0 0) :
    Carries h g id s op ⟨s', (h.world id s).positions.insert k p'⟩ reply where
  registered := hs
  call := hc
  subPools := hsub
  world := by
    rw [Harness.world, hpos, OrdMap.filter_insert (by simp [hp'])]
    rfl
  others := by
    intro j hj t
    have hother : ∀ q : Position, q.subPoolId = id → decide (q.subPoolId = j) = false := by
      rintro q rfl
      simpa using hj.symm
    have hfilter : (h.positions.insert k p').filter (fun _ q => decide (q.subPoolId = j))
        = h.positions.filter (fun _ q => decide (q.subPoolId = j)) :=
      OrdMap.filter_insert_other (hother p' hp') fun q hq => hother q (hk q hq)
    rw [Harness.world, Harness.world, hpos, hfilter]
  stays := by
    intro i p hp
    rw [hpos, OrdMap.get?_insert]
    split_ifs with hi
    · exact ⟨p', rfl, hp'.trans (hk p (hi ▸ hp)).symm⟩
    · exact ⟨p, hp, rfl⟩
  indexer := hx
  hosting := hw.hosting.withPosition hs hc hp' hk hm hsub hpos hle hlt
  balanced := hb

theorem Carries.ofSubPool {s' : SubPool} (hw : Watched h) (hs : h.subPools.get? id = some s)
    (hc : op.call h.market (h.world id s) = some (.ok ({ h.world id s with subPool := s' }, reply)))
    (hm : g.market = h.market) (hsub : g.subPools = h.subPools.insert id s')
    (hpos : g.positions = h.positions) (hx : g.indexer = h.indexer)
    (hn : g.nextPositionId = h.nextPositionId) (hb : g.Balanced 0 0 0) :
    Carries h g id s op { h.world id s with subPool := s' } reply where
  registered := hs
  call := hc
  subPools := hsub
  world := by
    rw [Harness.world, hpos]
    rfl
  others := by
    intro j _ t
    rw [Harness.world, Harness.world, hpos]
  stays := fun i p hp => ⟨p, hpos ▸ hp, rfl⟩
  indexer := hx
  hosting := hw.hosting.withSubPool hs hc hm hsub hpos hn
  balanced := hb

end Feed

/-- The replay of the events of an engine call on a sub-pool of `h` stopped, with a position that
has no room for its credit. -/
def Stops (id : Nat) (op : EngineOp) (h h' : Harness IndexerState) : Prop :=
  ∃ s w' reply, h.subPools.get? id = some s ∧
    op.call h.market (h.world id s) = some (.ok (w', reply)) ∧
    Indexer.Overflowed h.indexer reply.events .mathOverflow h'.indexer

/-- A call after which the indexer still follows, unless its replay had to stop. -/
def Watches {α : Type} (stop : Harness IndexerState → Harness IndexerState → Prop)
    (m : Run IndexerState IndexerError α) : Prop :=
  ∀ h, Watched h → Meets (· = h) m (fun _ => Watched)
    (fun e h' => Watched h' ∨ e = .indexer .mathOverflow ∧ stop h h')

theorem Watches.imp {α : Type} {stop stop' : Harness IndexerState → Harness IndexerState → Prop}
    {m : Run IndexerState IndexerError α} (h : Watches stop m)
    (hstop : ∀ g g', stop g g' → stop' g g') : Watches stop' m :=
  fun g hg => (h g hg).weakenError fun _ g' he => he.imp_right (And.imp_right (hstop g g'))

/-- The engine call an operation makes, and the sub-pool it makes it on. -/
inductive Calls (h : Harness IndexerState) : HarnessOp → Nat → EngineOp → Prop
  | open (id : Nat) (d : Direction) (gross k : U64) (envelope : PriceEnvelope)
      (hk : k = h.nextPositionId) :
      Calls h (.open id d gross envelope) id (.open envelope d gross k)
  | close (k : Nat) (p : Position) (envelope : PriceEnvelope) (hk : h.positions.get? k = some p) :
      Calls h (.close k envelope) p.subPoolId (.close envelope k)
  | forceClose (k : Nat) (p : Position) (envelope : PriceEnvelope) (ack : Bool)
      (hk : h.positions.get? k = some p) :
      Calls h (.forceClose k envelope ack) p.subPoolId (.forceClose envelope k ack)
  | claim (k : Nat) (p : Position) (envelope : PriceEnvelope) (hk : h.positions.get? k = some p) :
      Calls h (.claimRecovery k envelope) p.subPoolId (.claim envelope k)
  | sync (id : Nat) (envelope : PriceEnvelope) : Calls h (.sync id envelope) id (.sync envelope)
  | harvest (id : Nat) (d : Direction) : Calls h (.harvestDust id d) id (.harvest d)

def Stopped (op : HarnessOp) (h h' : Harness IndexerState) : Prop :=
  ∃ id call, Calls h op id call ∧ Stops id call h h'

theorem preSync_events {market : MarketParams} {s : SubPool} {d : Direction} {tick : Int}
    {slot : Nat} {r : SubPool × PreSyncOutcome}
    (h : preSyncDormantBucket market s d tick slot = .ok r) :
    ∃ ev, r.2.events = [.dormantBucketPendingApplied ev] := by
  unfold preSyncDormantBucket at h
  obtain ⟨_, -, h⟩ := except_bind_ok.mp h
  obtain ⟨_, -, h⟩ := except_bind_ok.mp h
  obtain ⟨before, -, h⟩ := except_bind_ok.mp h
  obtain ⟨pending, -, h⟩ := except_bind_ok.mp h
  obtain ⟨_, -, h⟩ := except_bind_ok.mp h
  obtain ⟨applied, -, h⟩ := except_bind_ok.mp h
  obtain ⟨after, -, h⟩ := except_bind_ok.mp h
  obtain ⟨remaining, -, h⟩ := except_bind_ok.mp h
  obtain ⟨_, -, h⟩ := except_bind_ok.mp h
  cases h
  exact ⟨_, rfl⟩

theorem not_stops_preSync {id : Nat} {d : Direction} {tick : Int} {slot : Nat}
    {h h' : Harness IndexerState} : ¬ Stops id (.preSync d tick slot) h h' := by
  rintro ⟨s, w', reply, -, hcall, pre, ev, post, x1, hev, -⟩
  obtain ⟨r, hr, hpair⟩ := except_map_ok.mp (Option.some.inj hcall)
  cases hpair
  obtain ⟨e, he⟩ := preSync_events hr
  have hmem : .poolSync ev ∈ r.2.events := by
    rw [show r.2.events = pre ++ .poolSync ev :: post from hev]
    exact List.mem_append_right _ List.mem_cons_self
  rw [he] at hmem
  cases List.mem_singleton.mp hmem

section Calls
variable {α β : Type} {h g : Harness IndexerState} {id k : Nat} {s : SubPool} {op : EngineOp}
  {w' : World} {reply : Reply}

theorem Carries.ends (hc : Carries h g id s op w' reply) (hw : Watched h)
    {events : List EngineEvent} (hev : reply.events = events) (a : α) :
    Meets (· = g) (do applyEvents indexerView events; return a : Run IndexerState IndexerError α)
      (fun _ => Watched)
      (fun e h' => Watched h' ∨ e = .indexer .mathOverflow ∧ Stops id op h h') := by
  intro x hx
  obtain rfl : g = x := Eq.symm hx
  subst hev
  cases hc.fed hw with
  | inl hfed =>
    obtain ⟨x, hx, hwatched⟩ := hfed
    have happly : (applyEvents indexerView reply.events : Run IndexerState IndexerError Unit) g
        = .ok () { g with indexer := x } := by
      rw [applyEvents, get_bind, show indexerView.applyAll reply.events g.indexer = _ from hx]
      rfl
    rw [bind_of_ok happly]
    exact hwatched
  | inr hfed =>
    obtain ⟨x, hx, hstop⟩ := hfed
    have happly : (applyEvents indexerView reply.events : Run IndexerState IndexerError Unit) g
        = .error (.indexer .mathOverflow) { g with indexer := x } := by
      rw [applyEvents, get_bind, show indexerView.applyAll reply.events g.indexer = _ from hx]
      rfl
    rw [bind_of_error happly]
    exact .inr ⟨rfl, s, w', reply, hc.registered, hc.call, hstop⟩

theorem Watched.owing {s' : SubPool} {amount : Nat} (hw : Watched h)
    (hs : h.subPools.get? id = some s) (hsound : s'.Sound) (hvalue : s'.value + amount = s.value)
    (positions : OrdMap Nat Position) : Balanced amount 0 0 { h with
      subPools := h.subPools.insert id s'
      positions := positions } :=
  hw.balanced.withSubPool hs hsound hvalue rfl hw.balanced.deposits_le hw.balanced.next_pos
    hw.balanced.next_lt rfl rfl rfl rfl rfl rfl

theorem onPosition_watches
    {call : MarketParams → SubPool → Position → Except ClearingError (SubPool × Position × α)}
    {replied : Position → α → Reply} {amount : α → Nat}
    {pay : α → Run IndexerState IndexerError Unit} {events : α → List EngineEvent}
    {result : α → Nat → β}
    (hop : ∀ market w p, OrdMap.get? w.positions k = some p →
      op.call market w = some (w.withPosition k replied <$> call market w.subPool p))
    (hmoved : ∀ {market s p s' p' out}, s.Sound → call market s p = .ok (s', p', out) →
      s'.Sound ∧ s'.value + amount out = s.value)
    (hkept : ∀ {market s p s' p' out}, call market s p = .ok (s', p', out) →
      p'.subPoolId = p.subPoolId)
    (hpay : ∀ {out g}, Balanced (amount out) 0 0 g → pay out g = .ok () (g.paid (amount out)))
    (hev : ∀ p out, (replied p out).events = events out) :
    Watches (fun h h' => ∃ p, h.positions.get? k = some p ∧ Stops p.subPoolId op h h')
      (onPosition indexerView k call pay events result) := by
  intro h hw h' hh
  obtain rfl : h = h' := hh.symm
  cases hk : h.positions.get? k with
  | none =>
    have hrun : onPosition indexerView k call pay events result h
        = .error (.positionNotFound k) h := by
      rw [onPosition, get_bind, hk]
      rfl
    rw [hrun]
    exact .inl hw
  | some p =>
    obtain ⟨s, hs⟩ := hw.hosting.lodged k p hk
    cases hc : call h.market s p with
    | error e =>
      have hrun : onPosition indexerView k call pay events result h = .error (.clearing e) h := by
        simp only [onPosition, get_bind, hk, hs, hc]
        rfl
      rw [hrun]
      exact .inl hw
    | ok r =>
      obtain ⟨s', p', out⟩ := r
      obtain ⟨hsound, hvalue⟩ := hmoved (hw.balanced.sound _ _ hs) hc
      have howing := hw.owing hs hsound hvalue (h.positions.erase k)
      have hcall : op.call h.market (h.world p.subPoolId s)
          = some (.ok (⟨s', (h.world p.subPoolId s).positions.insert k p'⟩, replied p' out)) := by
        rw [hop _ _ p (world_get? hk s)]
        exact congrArg (fun r => some (_ <$> r)) hc
      have hrun : onPosition indexerView k call pay events result h
          = (do applyEvents indexerView (events out)
                return result out (indexerView.equity h.indexer k) :
              Run IndexerState IndexerError β)
            (paid { h with
              subPools := h.subPools.insert p.subPoolId s'
              positions := h.positions.insert k p' } (amount out)) := by
        simp only [onPosition, get_bind, hk, hs, hc, set_bind]
        rw [bind_of_ok (hpay howing), paid, ← OrdMap.insert_erase h.positions k p']
        rfl
      rw [hrun]
      have hcarries := Carries.ofPosition hw hs hcall (hkept hc)
        (fun q hq => by cases hk.symm.trans hq; rfl) (g := paid { h with
          subPools := h.subPools.insert p.subPoolId s'
          positions := h.positions.insert k p' } (amount out))
        rfl rfl rfl rfl le_rfl (hw.hosting.fresh k p hk)
        (howing.paid.of_funds rfl rfl rfl rfl rfl rfl rfl rfl)
      refine ((hcarries.ends hw (hev p' out) _).weakenError fun e h' he => ?_) _ rfl
      exact he.imp_right (And.imp_right fun hstop => ⟨p, hk, hstop⟩)

theorem onSubPool_watches
    {call : MarketParams → SubPool → Except ClearingError (SubPool × α)} {replied : α → Reply}
    {amount : α → Nat} {pay : α → Run IndexerState IndexerError Unit}
    {events : α → List EngineEvent} {result : α → β}
    (hop : ∀ market w, op.call market w = some (w.withSubPool replied <$> call market w.subPool))
    (hmoved : ∀ {market s s' out}, s.Sound → call market s = .ok (s', out) →
      s'.Sound ∧ s'.value + amount out = s.value)
    (hpay : ∀ {out g}, Balanced (amount out) 0 0 g → pay out g = .ok () (g.swept (amount out)))
    (hev : ∀ out, (replied out).events = events out) :
    Watches (Stops id op) (onSubPool indexerView id call pay events result) := by
  intro h hw h' hh
  obtain rfl : h = h' := hh.symm
  cases hs : h.subPools.get? id with
  | none =>
    have hrun : onSubPool indexerView id call pay events result h
        = .error (.subPoolNotFound id) h := by
      rw [onSubPool, get_bind, hs]
      rfl
    rw [hrun]
    exact .inl hw
  | some s =>
    cases hc : call h.market s with
    | error e =>
      have hrun : onSubPool indexerView id call pay events result h = .error (.clearing e) h := by
        simp only [onSubPool, get_bind, hs, hc]
        rfl
      rw [hrun]
      exact .inl hw
    | ok r =>
      obtain ⟨s', out⟩ := r
      obtain ⟨hsound, hvalue⟩ := hmoved (hw.balanced.sound _ _ hs) hc
      have howing := hw.owing hs hsound hvalue h.positions
      have hcall : op.call h.market (h.world id s)
          = some (.ok ({ h.world id s with subPool := s' }, replied out)) := by
        rw [hop]
        exact congrArg (fun r => some (_ <$> r)) hc
      have hrun : onSubPool indexerView id call pay events result h
          = (do applyEvents indexerView (events out); return result out :
              Run IndexerState IndexerError β)
            (swept { h with subPools := h.subPools.insert id s' } (amount out)) := by
        simp only [onSubPool, get_bind, hs, hc, set_bind]
        rw [bind_of_ok (hpay howing)]
      rw [hrun]
      have hcarries := Carries.ofSubPool hw hs hcall
        (g := swept { h with subPools := h.subPools.insert id s' } (amount out))
        rfl rfl rfl rfl rfl howing.swept
      exact hcarries.ends hw (hev out) _ _ rfl

theorem open_watches (id : Nat) (d : Direction) (gross : U64) (envelope : PriceEnvelope) :
    Watches (Stopped (.open id d gross envelope))
      (Harness.open indexerView id d gross envelope) := by
  intro h hw h' hh
  obtain rfl : h = h' := hh.symm
  cases hs : h.subPools.get? id with
  | none =>
    have hrun : Harness.open indexerView id d gross envelope h
        = .error (.subPoolNotFound id) h := by
      simp only [Harness.open, get_bind, hs]
      rfl
    rw [hrun]
    exact .inl hw
  | some s =>
    by_cases hroom : h.nextPositionId + 1 < u64Size
    · have hnew : h.positions.get? h.nextPositionId = none := by
        cases hk : h.positions.get? h.nextPositionId with
        | none => rfl
        | some p => exact absurd (hw.hosting.fresh _ p hk) (lt_irrefl _)
      have hdup : ¬ h.positions.contains h.nextPositionId = true := by
        simp [OrdMap.contains, hnew]
      cases hc : openPosition h.market s envelope d gross h.nextPositionId with
      | error e =>
        have hrun : Harness.open indexerView id d gross envelope h = .error (.clearing e) h := by
          simp only [Harness.open, get_bind, hs, ensure_of hroom, orFail_ok_bind, if_neg hdup, hc]
          rfl
        rw [hrun]
        exact .inl hw
      | ok r =>
        obtain ⟨s', p, out⟩ := r
        obtain ⟨hm, hfee, hprincipal⟩ := openPosition_moved (hw.balanced.sound _ _ hs) hc
        obtain ⟨s1, sync, ho⟩ := openPosition_ok hc
        obtain ⟨hsplit, -, -⟩ := mintShares_ok ho.minted
        have hsum : out.principalIntoPool + out.dust + out.openFee = gross := by omega
        have hgross : (gross : Nat) < u64Size := gross.2
        have hid : p.subPoolId = id :=
          (openPosition_subPoolId hc).trans (hw.hosting.housed id s hs).id_eq
        have hp' : { p with subPoolId := id } = p := by rw [← hid]
        have howing : Balanced 0 (out.principalIntoPool + out.dust) out.openFee { h with
            nextPositionId := h.nextPositionId + 1
            subPools := h.subPools.insert id s'
            positions := h.positions.insert h.nextPositionId p } := by
          have hvalue : s'.value + 0 = s.value + (out.principalIntoPool + out.dust) := by
            rw [hm.value_eq, hsplit]
          refine hw.balanced.withSubPool hs hm.sound hvalue rfl ?_ (Nat.succ_pos _) hroom rfl rfl
            rfl rfl rfl rfl
          have hpos := hw.balanced.next_pos
          have hle := hw.balanced.deposits_le
          have hstep : (h.nextPositionId - 1) * u64Size + u64Size
              = (h.nextPositionId + 1 - 1) * u64Size := by
            rw [← Nat.succ_mul]
            congr 1
            omega
          simp only
          omega
        have hcall : EngineOp.call h.market (h.world id s)
            (.open envelope d gross ⟨h.nextPositionId, hw.balanced.next_lt⟩)
            = some (.ok (⟨s', (h.world id s).positions.insert h.nextPositionId p⟩,
              .opened p out)) := by
          have hfree : ¬ (h.world id s).positions.contains h.nextPositionId = true := by
            simp [OrdMap.contains, Harness.world, OrdMap.get?_filter, hnew]
          simp only [EngineOp.call, if_neg hfree]
          exact congrArg (fun r => some (_ <$> r)) hc
        have hrun : Harness.open indexerView id d gross envelope h
            = (do applyEvents indexerView out.events
                  return ⟨h.nextPositionId, out.sharesMinted, out.openFee⟩ :
                Run IndexerState IndexerError MoleFinance.OpenSummary)
              (deposited { h with
                nextPositionId := h.nextPositionId + 1
                subPools := h.subPools.insert id s'
                positions := h.positions.insert h.nextPositionId p } gross out) := by
          simp only [Harness.open, get_bind, hs, ensure_of hroom, orFail_ok_bind, if_neg hdup, hc,
            set_bind, hp']
          rw [bind_of_ok (deposit_eq howing hsum)]
        rw [hrun]
        have hcarries := Carries.ofPosition hw hs hcall hid
          (fun q hq => by cases hnew.symm.trans hq) (g := deposited { h with
            nextPositionId := h.nextPositionId + 1
            subPools := h.subPools.insert id s'
            positions := h.positions.insert h.nextPositionId p } gross out)
          rfl rfl rfl rfl (Nat.le_succ _) (Nat.lt_succ_self _) (howing.deposited hsum)
        refine ((hcarries.ends hw rfl _).weakenError fun e h' he => ?_) _ rfl
        exact he.imp_right (And.imp_right fun hstop =>
          ⟨id, _, .open id d gross _ envelope rfl, hstop⟩)
    · have hrun : Harness.open indexerView id d gross envelope h
          = .error (.clearing .panic) h := by
        simp only [Harness.open, get_bind, hs, ensure_not hroom]
        rfl
      rw [hrun]
      exact .inl hw

theorem close_watches (k : Nat) (envelope : PriceEnvelope) :
    Watches (Stopped (.close k envelope)) (close indexerView k envelope) := by
  have hop : ∀ market w p, OrdMap.get? w.positions k = some p →
      EngineOp.call market w (.close envelope k)
        = some (w.withPosition k .closed <$> closePosition market w.subPool envelope p) := by
    intro market w p hk
    simp only [EngineOp.call, hk, Option.map_some]
  have hwatch : Watches (fun h h' => ∃ p, h.positions.get? k = some p ∧
      Stops p.subPoolId (.close envelope k) h h') (close indexerView k envelope) :=
    onPosition_watches hop
      (fun hs h => ⟨(closePosition_moved hs h).sound, (closePosition_moved hs h).value_eq⟩)
      closePosition_subPoolId (fun hb => withdraw_eq hb _) fun _ _ => rfl
  refine hwatch.imp fun h h' hstop => ?_
  obtain ⟨p, hk, hstop⟩ := hstop
  exact ⟨p.subPoolId, _, .close k p envelope hk, hstop⟩

theorem forceClose_watches (k : Nat) (envelope : PriceEnvelope) (ack : Bool) :
    Watches (Stopped (.forceClose k envelope ack)) (forceClose indexerView k envelope ack) := by
  have hop : ∀ market w p, OrdMap.get? w.positions k = some p →
      EngineOp.call market w (.forceClose envelope k ack) = some (w.withPosition k .forceClosed <$>
        forceCloseZeroValuePosition market w.subPool envelope p ack) := by
    intro market w p hk
    simp only [EngineOp.call, hk, Option.map_some]
  have hmoved : ∀ {market : MarketParams} {s s' : SubPool} {p p' : Position}
      {out : ForceCloseOutcome}, s.Sound →
      forceCloseZeroValuePosition market s envelope p ack = .ok (s', p', out) →
      s'.Sound ∧ s'.value + 0 = s.value :=
    fun hs h => ⟨(forceClose_moved hs h).1, (forceClose_moved hs h).2.1⟩
  have hwatch : Watches (fun h h' => ∃ p, h.positions.get? k = some p ∧
      Stops p.subPoolId (.forceClose envelope k ack) h h')
    (forceClose indexerView k envelope ack) :=
    onPosition_watches hop hmoved forceClose_subPoolId (fun _ => rfl) fun _ _ => rfl
  refine hwatch.imp fun h h' hstop => ?_
  obtain ⟨p, hk, hstop⟩ := hstop
  exact ⟨p.subPoolId, _, .forceClose k p envelope ack hk, hstop⟩

theorem claimRecovery_watches (k : Nat) (envelope : PriceEnvelope) :
    Watches (Stopped (.claimRecovery k envelope)) (claimRecovery indexerView k envelope) := by
  have hop : ∀ market w p, OrdMap.get? w.positions k = some p →
      EngineOp.call market w (.claim envelope k) = some
        (w.withPosition k .claimed <$> claimDormantRecovery market w.subPool envelope p) := by
    intro market w p hk
    simp only [EngineOp.call, hk, Option.map_some]
  have hwatch : Watches (fun h h' => ∃ p, h.positions.get? k = some p ∧
      Stops p.subPoolId (.claim envelope k) h h') (claimRecovery indexerView k envelope) :=
    onPosition_watches hop
      (fun hs h => ⟨(claim_moved hs h).sound, (claim_moved hs h).value_eq⟩)
      claim_subPoolId (fun hb => withdraw_eq hb _) fun _ _ => rfl
  refine hwatch.imp fun h h' hstop => ?_
  obtain ⟨p, hk, hstop⟩ := hstop
  exact ⟨p.subPoolId, _, .claim k p envelope hk, hstop⟩

theorem sync_watches (id : Nat) (envelope : PriceEnvelope) :
    Watches (Stopped (.sync id envelope)) (sync indexerView id envelope) := by
  have hop : ∀ market w, EngineOp.call market w (.sync envelope)
      = some (w.withSubPool .synced <$> syncPool market w.subPool envelope) :=
    fun _ _ => rfl
  have hwatch : Watches (Stops id (.sync envelope)) (sync indexerView id envelope) :=
    onSubPool_watches hop
      (fun hs h => ⟨(syncPool_moved hs h).sound, (syncPool_moved hs h).value_eq⟩)
      (fun _ => rfl) fun _ => rfl
  exact hwatch.imp fun _ _ hstop => ⟨id, _, .sync id envelope, hstop⟩

theorem preSyncBucket_watches (id : Nat) (d : Direction) (tick : Int) (slot : Nat) :
    Watches (fun _ _ => False) (preSyncBucket indexerView id d tick slot) := by
  have hop : ∀ market w, EngineOp.call market w (.preSync d tick slot) = some
      (w.withSubPool .preSynced <$> preSyncDormantBucket market w.subPool d tick slot) :=
    fun _ _ => rfl
  have hwatch : Watches (Stops id (.preSync d tick slot))
    (preSyncBucket indexerView id d tick slot) :=
    onSubPool_watches hop
      (fun hs h => ⟨(preSync_moved hs h).sound, (preSync_moved hs h).value_eq⟩)
      (fun _ => rfl) fun _ => rfl
  exact hwatch.imp fun _ _ => not_stops_preSync

theorem harvestDust_watches (id : Nat) (d : Direction) :
    Watches (Stopped (.harvestDust id d)) (harvestDust indexerView id d) := by
  have hop : ∀ market w, EngineOp.call market w (.harvest d)
      = some (w.withSubPool .harvested <$> MoleFinance.harvestDust market w.subPool d) :=
    fun _ _ => rfl
  have hwatch : Watches (Stops id (.harvest d)) (harvestDust indexerView id d) :=
    onSubPool_watches hop
      (fun hs h => ⟨(harvest_moved hs h).sound, (harvest_moved hs h).value_eq⟩)
      sweep_eq fun _ => rfl
  exact hwatch.imp fun _ _ hstop => ⟨id, _, .harvest id d, hstop⟩

theorem drainTicks_watches (id slot : Nat) (ticks : List (Direction × Int)) (total : Nat) :
    Watches (fun _ _ => False) (drainTicks indexerView id slot ticks total) := by
  induction ticks generalizing total with
  | nil =>
    rintro h hw _ rfl
    exact hw
  | cons dt ticks ih =>
    rintro h hw _ rfl
    have hone := preSyncBucket_watches id dt.1 dt.2 slot _ hw
    rename_i h
    cases drainTicks_cons indexerView id slot dt.1 dt.2 ticks total h with
    | inl hc =>
      obtain ⟨out, h', hx, hd⟩ := hc
      rw [hd]
      exact ih _ h' (hone.ok rfl hx) h' rfl
    | inr hc =>
      obtain ⟨e, h', hx, hd⟩ := hc
      have hwatched : Watched h' := (hone.error rfl hx).resolve_right fun hstop => hstop.2
      cases hd with
      | inl hd =>
        rw [hd]
        exact ih _ h' hwatched h' rfl
      | inr hd =>
        rw [hd]
        exact .inl hwatched

theorem drainAllBuckets_watches (id slot : Nat) :
    Watches (fun _ _ => False) (drainAllBuckets indexerView id slot) := by
  intro h hw
  refine .get_bind fun g hg => ?_
  obtain rfl : g = h := hg
  cases hs : g.subPools.get? id with
  | none =>
    refine .throw ?_
    rintro k rfl
    exact .inl hw
  | some s => exact drainTicks_watches id slot _ _ g hw

theorem call_watches (op : HarnessOp) : Watches (Stopped op) (op.call indexerView) := by
  have wrap : ∀ {α : Type} {x : Run IndexerState IndexerError α} {op : HarnessOp}
      (f : α → HarnessReply), Watches (Stopped op) x →
      Watches (Stopped op) (do let a ← x; return f a) :=
    fun f hx h hw => .bind (hx h hw) fun _ => .pure fun _ hw => hw
  have never : ∀ {α : Type} {x : Run IndexerState IndexerError α} {op : HarnessOp},
      Watches (fun _ _ => False) x → Watches (Stopped op) x :=
    fun hx => hx.imp fun _ _ hf => hf.elim
  cases op with
  | «open» id d gross envelope => exact wrap .opened (open_watches id d gross envelope)
  | close k envelope => exact wrap .closed (close_watches k envelope)
  | forceClose k envelope ack =>
    exact wrap (fun _ => .forceClosed) (forceClose_watches k envelope ack)
  | claimRecovery k envelope => exact wrap .claimed (claimRecovery_watches k envelope)
  | sync id envelope => exact wrap (fun _ => .synced) (sync_watches id envelope)
  | preSyncBucket id d tick slot =>
    exact wrap .preSynced (never (preSyncBucket_watches id d tick slot))
  | drainAllBuckets id slot => exact wrap .drained (never (drainAllBuckets_watches id slot))
  | harvestDust id d => exact wrap .harvested (harvestDust_watches id d)

end Calls

/-- Of the operations `ops` from `h`, one is refused by the indexer, at a sync that finds a
position without room for its credit; before it the indexer followed. -/
def StopsAmong (ops : List HarnessOp) (h : Harness IndexerState) : Prop :=
  ∃ done op rest h', ops = done ++ op :: rest ∧
    Watched (Trace.run (HarnessOp.step indexerView) done h).2 ∧
    op.call indexerView (Trace.run (HarnessOp.step indexerView) done h).2
      = .error (.indexer .mathOverflow) h' ∧
    Stopped op (Trace.run (HarnessOp.step indexerView) done h).2 h'

theorem StopsAmong.cons {op : HarnessOp} {ops : List HarnessOp} {h : Harness IndexerState}
    (hs : StopsAmong ops (op.step indexerView h).2) : StopsAmong (op :: ops) h := by
  obtain ⟨done, op', rest, h', rfl, hw, hcall, hstop⟩ := hs
  exact ⟨op :: done, op', rest, h', rfl, hw, hcall, hstop⟩

theorem run_watched (ops : List HarnessOp) {h : Harness IndexerState} (hw : Watched h) :
    Watched (Trace.run (HarnessOp.step indexerView) ops h).2 ∨ StopsAmong ops h := by
  induction ops generalizing h with
  | nil => exact .inl hw
  | cons op ops ih =>
    have hcall := call_watches op h hw
    have hstep : (HarnessOp.step indexerView op h).2 = Trace.final (op.call indexerView h) := rfl
    have hrest : Watched (HarnessOp.step indexerView op h).2 →
        Watched (Trace.run (HarnessOp.step indexerView) (op :: ops) h).2 ∨
          StopsAmong (op :: ops) h :=
      fun hw' => (ih hw').imp_right StopsAmong.cons
    cases hx : op.call indexerView h with
    | ok reply h' =>
      refine hrest ?_
      rw [hstep, hx]
      exact hcall.ok rfl hx
    | error e h' =>
      rcases hcall.error rfl hx with hwatched | ⟨rfl, hstop⟩
      · refine hrest ?_
        rw [hstep, hx]
        exact hwatched
      · exact .inr ⟨[], op, ops, h', rfl, hw, hx, hstop⟩

theorem StopsAmong.answered {ops : List HarnessOp} {h : Harness IndexerState}
    (hs : StopsAmong ops h) : .error (.indexer .mathOverflow)
      ∈ (Trace.run (HarnessOp.step indexerView) ops h).1 := by
  obtain ⟨done, op, rest, h', rfl, -, hcall, -⟩ := hs
  have hstep : (HarnessOp.step indexerView op
      (Trace.run (HarnessOp.step indexerView) done h).2).1 = .error (.indexer .mathOverflow) := by
    rw [HarnessOp.step, hcall]
    rfl
  rw [Trace.run_append, Trace.run, hstep]
  exact List.mem_append_right _ List.mem_cons_self

structure Idle (h : Harness IndexerState) : Prop where
  balanced : h.Balanced 0 0 0
  vault : h.vaultBalance = 0
  positions : h.positions = .empty
  indexer : h.indexer = .new
  fresh : ∀ id s, h.subPools.get? id = some s → ∃ (price : U64) (slot : Nat), s = .new id price slot

theorem registered_idle (market : MarketParams) (pools : List (Nat × U64 × Nat)) :
    Idle (registered market .new pools) := by
  have hall : ∀ h : Harness IndexerState, Idle h →
      Idle (pools.foldl (fun h p => h.addSubPool p.1 p.2.1 p.2.2) h) := by
    induction pools with
    | nil => exact fun h hi => hi
    | cons p pools ih =>
      refine fun h hi => ih _ ⟨addSubPool_balanced hi.balanced (.inl hi.vault) _ _, hi.vault,
        hi.positions, hi.indexer, fun id s hs => ?_⟩
      simp only [addSubPool, OrdMap.get?_insert] at hs
      split_ifs at hs with hid
      · cases hs
        exact ⟨_, _, by rw [hid]⟩
      · exact hi.fresh id s hs
  exact hall _ ⟨new_balanced market IndexerState.new, rfl, rfl, rfl, fun id s hs => by cases hs⟩

theorem Idle.watched {h : Harness IndexerState} (hi : Idle h) : Watched h := by
  have hworld : ∀ id s, h.world id s = ⟨s, .empty⟩ := by
    intro id s
    rw [Harness.world, hi.positions, OrdMap.filter_empty]
  have honly : ∀ id, h.indexer.only id = .new := by
    intro id
    rw [hi.indexer]
    rfl
  have hnone : ∀ k p, h.positions.get? k ≠ some p := by
    intro k p hk
    rw [hi.positions] at hk
    cases hk
  refine ⟨⟨by simp, fun id s hs => ?_, fun k p hk => absurd hk (hnone k p),
    fun k p hk => absurd hk (hnone k p)⟩, hi.balanced, fun id s hs => ?_, fun k sp hk => ?_⟩
  · obtain ⟨price, slot, rfl⟩ := hi.fresh id s hs
    rw [hworld]
    exact World.new_housed h.market id price slot
  · obtain ⟨price, slot, rfl⟩ := hi.fresh id s hs
    rw [hworld, honly]
    exact new_follows id price slot
  · rw [hi.indexer] at hk
    cases hk

theorem Watched.reports {h : Harness IndexerState} (hw : Watched h) {id : Nat} {s : SubPool}
    (hs : h.subPools.get? id = some s) : Reports (h.world id s) h.indexer := by
  have hhoused := hw.hosting.housed id s hs
  refine Indexer.Follows.reports hhoused.reached.inv ?_
  rw [hhoused.id_eq]
  exact hw.follows id s hs

theorem Watched.shown {h : Harness IndexerState} (hw : Watched h) {id : Nat} {s : SubPool}
    (hs : h.subPools.get? id = some s) (d : Direction) :
    Shown s d ((h.indexer.dormantInventory id).getD []) := by
  have hhoused := hw.hosting.housed id s hs
  have hinv := hhoused.reached.inv
  have hreports := hw.reports hs
  cases hi : h.indexer.dormantInventory id with
  | none =>
    -- the indexer has never heard of the sub-pool: it has no positions, and so no buckets
    have hempty : (h.world id s).positions = .empty := by
      by_contra hne
      have hknown := hreports.known hne
      rw [hhoused.id_eq, subPoolStats, Option.isSome_map] at hknown
      simp [dormantInventory, OrdMap.contains, hknown] at hi
    have hnone : ∀ tick, (s.side d).dormant.buckets.get? tick = none := by
      intro tick
      have hstocked := (hinv.shared d).stocked tick
      have hshares := (hinv.shared d).recovery tick
      rw [hempty] at hshares
      cases hb : (s.side d).dormant.buckets.get? tick with
      | none => rfl
      | some b =>
        have hget : (s.side d).dormant.holdings.get? tick = some b.holding := by
          rw [DormantStore.holdings_get?, hb]
          rfl
        have hpos := (hstocked _ hget).1
        have hat : (s.side d).dormant.holdings.sharesAt tick = 0 := hshares.trans rfl
        rw [Holdings.sharesAt_some hget] at hat
        omega
    have hnil : ∀ e, e ∉ (s.side d).dormant.buckets.entries := by
      intro e he
      have hget := OrdMap.get?_eq_some.mpr he
      rw [hnone] at hget
      cases hget
    exact ⟨by simp, fun e he => absurd he (hnil e)⟩
  | some inv =>
    rw [← hhoused.id_eq] at hi
    obtain ⟨long, short, rfl, hlong, hshort⟩ := hreports.inventory inv hi
    cases d with
    | long =>
      refine ⟨fun snap hsnap hd => ?_, fun e he => ?_⟩
      · cases List.mem_append.mp hsnap with
        | inl hsnap => exact exists_of_mem_right hlong hsnap
        | inr hsnap =>
          obtain ⟨e, -, hshow⟩ := exists_of_mem_right hshort hsnap
          cases hshow.direction.symm.trans hd
      · obtain ⟨snap, hsnap, hshow⟩ := exists_of_mem_right hlong.flip he
        exact ⟨snap, List.mem_append_left _ hsnap, hshow⟩
    | short =>
      refine ⟨fun snap hsnap hd => ?_, fun e he => ?_⟩
      · cases List.mem_append.mp hsnap with
        | inl hsnap =>
          obtain ⟨e, -, hshow⟩ := exists_of_mem_right hlong hsnap
          cases hshow.direction.symm.trans hd
        | inr hsnap => exact exists_of_mem_right hshort hsnap
      · obtain ⟨snap, hsnap, hshow⟩ := exists_of_mem_right hshort.flip he
        exact ⟨snap, List.mem_append_right _ hsnap, hshow⟩

theorem Watched.checkBuckets {h : Harness IndexerState} (hw : Watched h)
    {es : List (Nat × SubPool)} (hes : es ⊆ h.subPools.entries) :
    checkBuckets h.indexer es = .ok () := by
  induction es with
  | nil => rfl
  | cons e es ih =>
    obtain ⟨id, s⟩ := e
    have hs : h.subPools.get? id = some s := OrdMap.get?_eq_some.mpr (hes List.mem_cons_self)
    have hinv := (hw.hosting.housed id s hs).reached.inv
    rw [MoleFinance.checkBuckets]
    have hlong : checkDir s.long.dormant .long ((h.indexer.dormantInventory id).getD []) = .ok () :=
      (hw.shown hs .long).checkDir hinv.sound hinv.value_lt
    have hshort : checkDir s.short.dormant .short ((h.indexer.dormantInventory id).getD [])
        = .ok () := (hw.shown hs .short).checkDir hinv.sound hinv.value_lt
    rw [hlong, ok_bind, hshort, ok_bind]
    exact ih fun e' he' => hes (List.mem_cons_of_mem _ he')

theorem Watched.checkInvariants {h : Harness IndexerState} (hw : Watched h) :
    h.checkInvariants = .ok () := by
  have hvault := summary_vault hw.balanced
  have hdeposits := hw.balanced.deposits_eq
  have hfees := hw.balanced.fees_eq
  obtain ⟨hlt, hle, -⟩ := hw.balanced.bounds
  have hsv : h.summary.vaultBalance = h.vaultBalance := rfl
  have hsf : h.summary.feeVaultBalance = h.feeVaultBalance := rfl
  have hsd : h.summary.totalDeposits = h.totalDeposits := rfl
  have hsw : h.summary.totalWithdrawals = h.totalWithdrawals := rfl
  unfold Harness.checkInvariants
  simp only
  rw [ensure_of (by omega), ok_bind, ensure_of (by omega), ok_bind, ensure_of (by omega), ok_bind,
    ensure_of (by omega), ok_bind, ensure_of hvault, ok_bind, ensure_of (by omega), ok_bind]
  exact hw.checkBuckets (List.Subset.refl _)

/-- The checks pass after every run of operations, unless some operation was refused: the checks
passed before it, and the replay of its events stopped at a sync that credits a position without
room for the credit. -/
theorem checks_pass (market : MarketParams) (pools : List (Nat × U64 × Nat))
    (ops : List HarnessOp) :
    (Trace.run (HarnessOp.step indexerView) ops
        (registered market .new pools)).2.checkInvariants = .ok () ∨
      ∃ done op rest h', ops = done ++ op :: rest ∧
        let h := (Trace.run (HarnessOp.step indexerView) done (registered market .new pools)).2
        h.checkInvariants = .ok () ∧
          op.call indexerView h = .error (.indexer .mathOverflow) h' ∧ Stopped op h h' := by
  cases run_watched ops (registered_idle market pools).watched with
  | inl hw => exact .inl hw.checkInvariants
  | inr hs =>
    obtain ⟨done, op, rest, h', rfl, hw, hcall, hstop⟩ := hs
    exact .inr ⟨done, op, rest, h', rfl, hw.checkInvariants, hcall, hstop⟩

/-- So do the answers of the indexer about every sub-pool, which are the numbers of the engine. -/
theorem answers_agree (market : MarketParams) (pools : List (Nat × U64 × Nat))
    (ops : List HarnessOp) :
    let r := Trace.run (HarnessOp.step indexerView) ops (registered market .new pools)
    (∀ id s, r.2.subPools.get? id = some s → Reports (r.2.world id s) r.2.indexer) ∨
      .error (.indexer .mathOverflow) ∈ r.1 := by
  intro r
  cases run_watched ops (registered_idle market pools).watched with
  | inl hw => exact .inl fun _ _ hs => hw.reports hs
  | inr hs => exact .inr hs.answered

end Harness
end MoleFinance
