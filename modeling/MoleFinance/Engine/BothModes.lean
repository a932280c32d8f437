import MoleFinance.Engine.Eager
import MoleFinance.Engine.Ring
import MoleFinance.Engine.Twins

/-! The engine in both distribution modes. Lazy runs answer as eager ones do as long as no price
move finds a bucket whose claim grows differently for what the ledger still owes it. -/
namespace MoleFinance
open MoleMath Call Trace

/-! Demands. What the ledger still owes a bucket must not change how its claim grows. -/

namespace DormantStore
variable {s t : DormantStore} {v : Book} {p p' : Nat}

def caughtUp (s : DormantStore) : DormantStore := final (applyPendingToAll s)

/-- How the outstanding claims grow between two prices, where they can be computed. -/
def claimGrowth (s : DormantStore) (pLast pNow : Nat) : Option (Option Nat) :=
  (s.totalOutstandingClaimAt pLast).toOption.map fun pre =>
    (s.totalOutstandingClaimAt pNow).toOption.map fun post => post - pre

theorem Rep.totalOutstanding_eq (h : s.Rep v) (hs : ∀ k, s.Settled k) (p : Nat) :
    s.totalOutstandingClaimAt p = v.totalOutstanding p := by
  rw [totalOutstandingClaimAt, sumOutstanding_view (fun k _ => hs k), ← activatedKeys_view,
    ← h.book_eq]
  rfl

/-- Applying what is pending gives the claims of any other store of the book in which nothing is. -/
theorem SameBook.caughtUp_outstanding (h : s.SameBook t) (h0 : t.pendingDistributionTotal = 0)
    (p : Nat) : s.caughtUp.totalOutstandingClaimAt p = t.totalOutstandingClaimAt p := by
  obtain ⟨v, hs, ht⟩ := h
  obtain ⟨n, s', hn, hs', hc⟩ := applyPendingToAll_rep hs
  have he : s.caughtUp = s' := by rw [caughtUp, hn]; rfl
  rw [he, hs'.totalOutstanding_eq fun k => (hc k).settled hs'.inv,
    ht.totalOutstanding_eq fun k => ht.inv.settled_of_pending h0 k]

theorem claimGrowth_eq (hs : s.Anchored) (ht : t.Anchored)
    (h : s.claimGrowth p p' = t.claimGrowth p p') :
    s.totalOutstandingClaimAt p = .error .mathOverflow ∧
        t.totalOutstandingClaimAt p = .error .mathOverflow ∨
      ∃ a b, s.totalOutstandingClaimAt p = .ok a ∧ t.totalOutstandingClaimAt p = .ok b ∧
        (s.totalOutstandingClaimAt p' = .error .mathOverflow ∧
            t.totalOutstandingClaimAt p' = .error .mathOverflow ∨
          ∃ a' b', s.totalOutstandingClaimAt p' = .ok a' ∧
            t.totalOutstandingClaimAt p' = .ok b' ∧ a' - a = b' - b) := by
  unfold claimGrowth at h
  cases h1 : s.totalOutstandingClaimAt p with
  | error e =>
    cases h2 : t.totalOutstandingClaimAt p with
    | error e' =>
      rw [totalOutstanding_error hs h1, totalOutstanding_error ht h2]
      exact .inl ⟨rfl, rfl⟩
    | ok b =>
      rw [h1, h2] at h
      cases h
  | ok a =>
    cases h2 : t.totalOutstandingClaimAt p with
    | error e' =>
      rw [h1, h2] at h
      cases h
    | ok b =>
      refine .inr ⟨a, b, rfl, rfl, ?_⟩
      rw [h1, h2] at h
      have h' := Option.some.inj h
      cases h3 : s.totalOutstandingClaimAt p' with
      | error e =>
        cases h4 : t.totalOutstandingClaimAt p' with
        | error e' =>
          rw [totalOutstanding_error hs h3, totalOutstanding_error ht h4]
          exact .inl ⟨rfl, rfl⟩
        | ok b' =>
          rw [h3, h4] at h'
          cases h'
      | ok a' =>
        cases h4 : t.totalOutstandingClaimAt p' with
        | error e' =>
          rw [h3, h4] at h'
          cases h'
        | ok b' =>
          rw [h3, h4] at h'
          exact .inr ⟨a', b', rfl, rfl, Option.some.inj h'⟩

end DormantStore

/-- Every side's claims grow by what they would grow by with nothing pending. -/
def SubPool.ClaimsCurrent (s : SubPool) (pNow : Nat) : Prop :=
  ∀ d, (s.side d).dormant.claimGrowth s.lastPrice pNow
    = (s.side d).dormant.caughtUp.claimGrowth s.lastPrice pNow

theorem syncDemands_twin {s t : SubPool} {p : Nat} (h : s.Twin t) (hc : s.ClaimsCurrent p)
    (hclear : t.Clear) (hs : ∀ d, (s.side d).dormant.Anchored)
    (ht : ∀ d, (t.side d).dormant.Anchored) : syncDemands t p = syncDemands s p := by
  have hgrow : ∀ d, (s.side d).dormant.claimGrowth s.lastPrice p
      = (t.side d).dormant.claimGrowth s.lastPrice p := by
    intro d
    obtain ⟨store, he, hb⟩ := h.sides d
    have h0 := hclear d
    rw [hc d, he]
    rw [he] at h0
    simp only [DormantStore.claimGrowth, hb.caughtUp_outstanding h0]
  have hnotional : ∀ d, (t.side d).activeNotional = (s.side d).activeNotional := by
    intro d
    obtain ⟨store, he, -⟩ := h.sides d
    rw [he]
  have hl := DormantStore.claimGrowth_eq (hs .long) (ht .long) (hgrow .long)
  have hsh := DormantStore.claimGrowth_eq (hs .short) (ht .short) (hgrow .short)
  have hnl := hnotional .long
  have hns := hnotional .short
  simp only [SubPool.side] at hl hsh hnl hns
  unfold syncDemands
  simp only [h.price_eq, hnl, hns]
  obtain ⟨h1, h2⟩ | ⟨a, b, h1, h2, hl⟩ := hl
  · rw [h1, h2]
    rfl
  rw [h1, h2, ok_bind, ok_bind]
  obtain ⟨h1, h2⟩ | ⟨c, e, h1, h2, hsh⟩ := hsh
  · rw [h1, h2]
    rfl
  rw [h1, h2, ok_bind, ok_bind]
  refine bind_congr fun longPnl => bind_congr fun shortPnl => ?_
  obtain ⟨h1, h2⟩ | ⟨a', b', h1, h2, hl⟩ := hl
  · rw [h1, h2]
    rfl
  rw [h1, h2, ok_bind, ok_bind]
  obtain ⟨h1, h2⟩ | ⟨c', e', h1, h2, hsh⟩ := hsh
  · rw [h1, h2]
    rfl
  rw [h1, h2, ok_bind, ok_bind, hl, hsh]

namespace World
variable {w w' : World}

theorem Reached.step (h : w.Reached) (op : MarketParams × EngineOp) :
    (EngineOp.step op w).2.Reached := by
  obtain ⟨id, price, slot, ops, rfl⟩ := h
  exact ⟨id, price, slot, ops ++ [op], by rw [run_append]; rfl⟩

theorem EagerReached.step (h : w.EagerReached) {op : MarketParams × EngineOp}
    (hm : op.1.dormantDistributeMode = .eager) : (EngineOp.step op w).2.EagerReached := by
  obtain ⟨id, price, slot, ops, hops, rfl⟩ := h
  refine ⟨id, price, slot, ops ++ [op], fun o ho => ?_, by rw [run_append]; rfl⟩
  cases List.mem_append.mp ho with
  | inl ho => exact hops o ho
  | inr ho => exact List.mem_singleton.mp ho ▸ hm

structure Twin (w w' : World) : Prop where
  reached : w.Reached
  eager : w'.EagerReached
  positions_eq : w'.positions = w.positions
  subPool : w.subPool.Twin w'.subPool

theorem twin_new (id : Nat) (price : U64) (slot : Nat) :
    (new id price slot).Twin (new id price slot) where
  reached := ⟨id, price, slot, [], rfl⟩
  eager := ⟨id, price, slot, [], by simp, rfl⟩
  positions_eq := rfl
  subPool := by
    refine ⟨rfl, rfl, rfl, fun d => ?_⟩
    rw [new, SubPool.side_new]
    exact ⟨_, rfl, _, DormantStore.new_rep d, DormantStore.new_rep d⟩

end World

namespace EngineOp
variable {w w' : World}

def inMode (mode : DistributeMode) (op : MarketParams × EngineOp) : MarketParams × EngineOp :=
  (op.1.inMode mode, op.2)

def stepIn (mode : DistributeMode) (op : MarketParams × EngineOp) : World → Answer × World :=
  step (inMode mode op)

def isPreSync : EngineOp → Bool
  | .preSync _ _ _ => true
  | _ => false

/-- Where the call moves the price, the claims grow as they would with nothing pending, and the
    event counters have room. -/
def Current (market : MarketParams) (op : EngineOp) (w : World) : Prop :=
  ∀ envelope, op.quote? market w = some envelope → w.subPool.MovesTo market envelope →
    w.subPool.ClaimsCurrent envelope.pNow ∧
      ∀ d, (w.subPool.side d).dormant.nextEventIndex + 1 < u64Size

theorem Current.of {market : MarketParams} {op : EngineOp} (envelope : PriceEnvelope)
    (h : op.quote? market w = some envelope ∧ ∀ d ∈ [Direction.long, Direction.short],
      (w.subPool.side d).dormant.claimGrowth w.subPool.lastPrice envelope.pNow
          = (w.subPool.side d).dormant.caughtUp.claimGrowth w.subPool.lastPrice envelope.pNow ∧
        (w.subPool.side d).dormant.nextEventIndex + 1 < u64Size) : op.Current market w := by
  intro envelope' hq _
  rw [h.1] at hq
  cases hq
  have hd : ∀ d : Direction, d ∈ [Direction.long, Direction.short] := by
    intro d
    cases d <;> decide
  exact ⟨fun d => (h.2 d (hd d)).1, fun d => (h.2 d (hd d)).2⟩

def Alike (r r' : World × Reply) : Prop :=
  r'.1.positions = r.1.positions ∧ r.1.subPool.Twin r'.1.subPool ∧ r.2 = r'.2

theorem call_twins {market : MarketParams} {op : EngineOp} (h : w.Twin w')
    (hop : op.isPreSync = false) (hc : op.Current market w) :
    op.call (market.inMode .lazy) w = none ∧ op.call (market.inMode .eager) w' = none ∨
      ∃ x y, op.call (market.inMode .lazy) w = some x ∧
        op.call (market.inMode .eager) w' = some y ∧
        InStep .ledgerCapacityExceeded Alike x y := by
  have hi := h.reached.inv.fit
  have hi' := h.eager.reached.inv.fit
  have hsync : ∀ envelope, op.quote? market w = some envelope →
      InStep .ledgerCapacityExceeded Twins (syncPool (market.inMode .lazy) w.subPool envelope)
        (syncPool (market.inMode .eager) w'.subPool envelope) := by
    intro envelope hq
    refine syncPool_twins h.subPool hi hi' fun hm => ?_
    obtain ⟨hclaims, hn⟩ := hc envelope hq hm
    exact ⟨syncDemands_twin h.subPool hclaims h.eager.clear h.reached.anchored
      h.eager.reached.anchored, hn⟩
  have hwith : ∀ {α : Type} {x y : Except ClearingError (SubPool × Position × α)} id reply,
      InStep .ledgerCapacityExceeded Twins x y →
      InStep .ledgerCapacityExceeded Alike (w.withPosition id reply <$> x)
        (w'.withPosition id reply <$> y) := by
    intro α x y id reply hxy
    refine hxy.map fun r r' _ _ hr => ?_
    obtain ⟨hs, hout⟩ := hr
    refine ⟨?_, hs, ?_⟩
    · simp only [World.withPosition, h.positions_eq, hout]
    · simp only [World.withPosition, hout]
  have hpool : ∀ {α : Type} {x y : Except ClearingError (SubPool × α)} reply,
      InStep .ledgerCapacityExceeded Twins x y →
      InStep .ledgerCapacityExceeded Alike (w.withSubPool reply <$> x)
        (w'.withSubPool reply <$> y) := by
    intro α x y reply hxy
    refine hxy.map fun r r' _ _ hr => ?_
    exact ⟨h.positions_eq, hr.1, congrArg reply hr.2⟩
  have hget : ∀ {id : Nat} {o}, w.positions.get? id = o → w'.positions.get? id = o :=
    fun ho => h.positions_eq ▸ ho
  cases op with
  | sync envelope => exact .inr ⟨_, _, rfl, rfl, hpool _ (hsync envelope rfl)⟩
  | «open» envelope d gross id =>
    by_cases hk : w.positions.contains id = true
    · refine .inl ⟨if_pos hk, if_pos ?_⟩
      rw [h.positions_eq]
      exact hk
    · have hk' : ¬ w'.positions.contains (id : Nat) = true := by
        rw [h.positions_eq]
        exact hk
      refine .inr ⟨_, _, if_neg hk, if_neg hk', hwith _ _ (openPosition_twins hi hi' fun hf => ?_)⟩
      refine hsync envelope ?_
      simp [quote?, hk, hf]
  | close envelope id =>
    cases hp : w.positions.get? id with
    | none => exact .inl ⟨congrArg (Option.map _) hp, congrArg (Option.map _) (hget hp)⟩
    | some p =>
      refine .inr ⟨_, _, congrArg (Option.map _) hp, congrArg (Option.map _) (hget hp),
        hwith _ _ (closePosition_twins hi hi' fun hsch hst => ?_)⟩
      refine hsync envelope ?_
      simp [quote?, hp, hsch, hst]
  | forceClose envelope id ack =>
    cases hp : w.positions.get? id with
    | none => exact .inl ⟨congrArg (Option.map _) hp, congrArg (Option.map _) (hget hp)⟩
    | some p =>
      refine .inr ⟨_, _, congrArg (Option.map _) hp, congrArg (Option.map _) (hget hp),
        hwith _ _ (forceClose_twins hi hi' fun hsch hack hst => ?_)⟩
      refine hsync envelope ?_
      simp [quote?, hp, hsch, hack, hst]
  | claim envelope id =>
    cases hp : w.positions.get? id with
    | none => exact .inl ⟨congrArg (Option.map _) hp, congrArg (Option.map _) (hget hp)⟩
    | some p =>
      refine .inr ⟨_, _, congrArg (Option.map _) hp, congrArg (Option.map _) (hget hp),
        hwith _ _ (claim_twins hi hi' fun hsch => ?_)⟩
      refine hsync envelope ?_
      simp [quote?, hp, hsch]
  | harvest d =>
    exact .inr ⟨_, _, rfl, rfl, hpool _ (harvestDust_twins h.subPool hi hi')⟩
  | preSync d tick slot => cases hop

theorem step_twins {op : MarketParams × EngineOp} (h : w.Twin w') (hop : op.2.isPreSync = false)
    (hc : op.2.Current op.1 w)
    (hl : (stepIn .lazy op w).1 ≠ .failed .ledgerCapacityExceeded)
    (he : (stepIn .eager op w').1 ≠ .failed .ledgerCapacityExceeded) :
    (stepIn .lazy op w).1 = (stepIn .eager op w').1 ∧
      (stepIn .lazy op w).2.Twin (stepIn .eager op w').2 := by
  have hr := h.reached.step (inMode .lazy op)
  have hr' := h.eager.step (show (inMode .eager op).1.dormantDistributeMode = .eager from rfl)
  unfold stepIn step at hl he ⊢
  unfold step at hr hr'
  simp only [inMode] at hl he hr hr' ⊢
  obtain ⟨hx, hy⟩ | ⟨x, y, hx, hy, hxy⟩ := call_twins h hop hc
  · rw [hx, hy]
    exact ⟨rfl, h⟩
  · simp only [hx, hy] at hl he hr hr' ⊢
    have hxs : x ≠ .error .ledgerCapacityExceeded := by
      rintro rfl
      exact hl rfl
    have hys : y ≠ .error .ledgerCapacityExceeded := by
      rintro rfl
      exact he rfl
    obtain ⟨r, r', rfl, rfl, hpos, hs, hreply⟩ | ⟨e, rfl, rfl⟩ := hxy.unstopped hxs hys
    · exact ⟨congrArg Answer.done hreply, hr, hr', hpos, hs⟩
    · exact ⟨rfl, h⟩

end EngineOp

def modeRun (mode : DistributeMode) (id : Nat) (price : U64) (slot : Nat)
    (ops : List (MarketParams × EngineOp)) : List Answer × World :=
  run (EngineOp.stepIn mode) ops (.new id price slot)

namespace DormantStore

theorem Rep.buckets_unique {s t : DormantStore} {v : Book} (hs : s.Rep v) (ht : t.Rep v)
    (hcs : ∀ k, s.CaughtUp k) (hct : ∀ k, t.CaughtUp k) : s.buckets = t.buckets := by
  have hn : s.nextEventIndex = t.nextEventIndex :=
    congrArg Book.nextEventIndex (hs.book_eq.trans ht.book_eq.symm)
  apply OrdMap.ext_get?
  intro k
  have hk := congrArg (OrdMap.get? · k) ((hs.buckets_eq hcs).trans (ht.buckets_eq hct).symm)
  simp only [OrdMap.get?_mapVal] at hk
  cases hb : s.buckets.get? k with
  | none =>
    rw [hb] at hk
    exact (Option.map_eq_none_iff.mp hk.symm).symm
  | some b =>
    rw [hb] at hk
    obtain ⟨c, hc, he⟩ := Option.map_eq_some_iff.mp hk.symm
    have hidx : c.lastAppliedIndex = b.lastAppliedIndex := by
      rw [hct k c hc, hcs k b hb, hn]
    rw [hc]
    cases b
    cases c
    simp only [DormantBucket.forget, DormantBucket.mk.injEq] at he hidx ⊢
    simp_all

end DormantStore

open DormantStore

/-- The same sub-pool and positions, once the pending entries of both stores are applied. -/
structure World.SameEnd (lazy eager : World) : Prop where
  positions_eq : eager.positions = lazy.positions
  price_eq : eager.subPool.lastPrice = lazy.subPool.lastPrice
  slot_eq : eager.subPool.lastSyncSlot = lazy.subPool.lastSyncSlot
  /-- Equities, shares, notionals, dust and rotate logs. -/
  sides_eq : ∀ d store, { eager.subPool.side d with dormant := store }
    = { lazy.subPool.side d with dormant := store }
  buckets_eq : ∀ d, ∃ n applied n' applied',
    applyPendingToAll (lazy.subPool.side d).dormant = .ok n applied ∧
    applyPendingToAll (eager.subPool.side d).dormant = .ok n' applied' ∧
    applied.buckets = applied'.buckets ∧
    applied'.buckets.mapVal (fun _ b => b.forget)
      = (eager.subPool.side d).dormant.buckets.mapVal (fun _ b => b.forget)

theorem World.Twin.sameEnd {w w' : World} (h : w.Twin w') : w.SameEnd w' where
  positions_eq := h.positions_eq
  price_eq := h.subPool.price_eq
  slot_eq := h.subPool.slot_eq
  sides_eq d store := by
    obtain ⟨other, he, -⟩ := h.subPool.sides d
    rw [he]
  buckets_eq d := by
    obtain ⟨other, he, v, hs, ht⟩ := h.subPool.sides d
    have hclear := h.eager.clear d
    rw [he] at hclear ⊢
    obtain ⟨n, applied, hn, ha, hc⟩ := applyPendingToAll_rep hs
    obtain ⟨n', applied', hn', ha', hc'⟩ := applyPendingToAll_rep ht
    refine ⟨n, applied, n', applied', hn, hn', ha.buckets_unique ha' hc hc', ?_⟩
    rw [ha'.buckets_eq hc']
    apply OrdMap.ext_get?
    intro k
    have hview := (ht.inv.settled_of_pending hclear k).view_get?
    rw [← ht.book_eq, OrdMap.get?_mapVal]
    exact hview

def RingSuffices (answers : List Answer) : Prop :=
  ∀ a ∈ answers, a ≠ .failed .ledgerCapacityExceeded

instance (answers : List Answer) : Decidable (RingSuffices answers) :=
  inferInstanceAs (Decidable (∀ a ∈ answers, a ≠ .failed .ledgerCapacityExceeded))

/-- As long as every price move of the lazy run finds current claims, both modes answer alike and
    end in the same state. -/
theorem modes_agree (id : Nat) (price : U64) (slot : Nat) (ops : List (MarketParams × EngineOp))
    (hops : ∀ op ∈ ops, op.2.isPreSync = false)
    (hring : ∀ mode, RingSuffices (modeRun mode id price slot ops).1)
    (hcurrent : AlongRun (EngineOp.stepIn .lazy) (fun op w => op.2.Current op.1 w) ops
      (.new id price slot)) :
    (modeRun .lazy id price slot ops).1 = (modeRun .eager id price slot ops).1 ∧
      (modeRun .lazy id price slot ops).2.SameEnd (modeRun .eager id price slot ops).2 := by
  have hl := answers_iff_along.mp (hring .lazy)
  have he := answers_iff_along.mp (hring .eager)
  have hplain : AlongRun (EngineOp.stepIn .lazy) (fun op _ => op.2.isPreSync = false) ops
      (.new id price slot) := alongRun_forall.mpr hops
  have hstep : ∀ (op : MarketParams × EngineOp) (w w' : World), w.Twin w' →
      (op.2.isPreSync = false ∧ op.2.Current op.1 w ∧
        (EngineOp.stepIn .lazy op w).1 ≠ .failed .ledgerCapacityExceeded) →
      (EngineOp.stepIn .eager op w').1 ≠ .failed .ledgerCapacityExceeded →
      (EngineOp.stepIn .lazy op w).1 = (EngineOp.stepIn .eager op w').1 ∧
        (EngineOp.stepIn .lazy op w).2.Twin (EngineOp.stepIn .eager op w').2 :=
    fun _ _ _ h hc he => EngineOp.step_twins h hc.1 hc.2.1 hc.2.2 he
  obtain ⟨hanswers, hend⟩ := run_lockstep hstep (World.twin_new id price slot)
    (hplain.and (hcurrent.and hl)) he
  exact ⟨hanswers, hend.sameEnd⟩

def sampleOps (ops : List EngineOp) : List (MarketParams × EngineOp) :=
  ops.map (smallMarket .eager, ·)

/-- The long series is wiped out at 80 and recovers at 84 and 88; its position is closed then. -/
def recoveringOps : List (MarketParams × EngineOp) := sampleOps
  [.open (quoteAt (amount 100)) .long (amount 100) (amount 1),
    .open (quoteAt (amount 100)) .short (amount 300) (amount 2), .sync (quoteAt (amount 80)),
    .sync (quoteAt (amount 84)), .sync (quoteAt (amount 88)), .close (quoteAt (amount 88)) 1]

theorem recoveringOps_agree :
    (modeRun .lazy 0 (amount 0) 0
        (recoveringOps.take 5)).2.subPool.long.dormant.pendingDistributionTotal ≠ 0 ∧
      (modeRun .lazy 0 (amount 0) 0 recoveringOps).1
        = (modeRun .eager 0 (amount 0) 0 recoveringOps).1 ∧
      (modeRun .lazy 0 (amount 0) 0 recoveringOps).2.SameEnd
        (modeRun .eager 0 (amount 0) 0 recoveringOps).2 := by
  refine ⟨by decide +kernel, modes_agree 0 (amount 0) 0 recoveringOps (by decide) ?_ ?_⟩
  · intro mode
    cases mode <;> decide +kernel
  · exact ⟨.of (quoteAt (amount 100)) (by decide +kernel),
      .of (quoteAt (amount 100)) (by decide +kernel), .of (quoteAt (amount 80)) (by decide +kernel),
      .of (quoteAt (amount 84)) (by decide +kernel), .of (quoteAt (amount 88)) (by decide +kernel),
      .of (quoteAt (amount 88)) (by decide +kernel), trivial⟩

def swingingOps : List (MarketParams × EngineOp) := sampleOps
  [.open (quoteAt (amount 100)) .long (amount 100) (amount 1),
    .open (quoteAt (amount 100)) .short (amount 100) (amount 2), .sync (quoteAt (amount 80)),
    .sync (quoteAt (amount 88)), .sync (quoteAt (amount 80)), .sync (quoteAt (amount 88))]

/-- The lazy run takes the second recovery of the same claim out of the short pool. -/
theorem swingingOps_differ :
    (∀ op ∈ swingingOps, op.2.isPreSync = false) ∧
    (∀ mode, RingSuffices (modeRun mode 0 (amount 0) 0 swingingOps).1) ∧
    (modeRun .lazy 0 (amount 0) 0 swingingOps).1 ≠ (modeRun .eager 0 (amount 0) 0 swingingOps).1 ∧
    (modeRun .lazy 0 (amount 0) 0 swingingOps).2.subPool.short.poolEquity = 0 ∧
    (modeRun .eager 0 (amount 0) 0 swingingOps).2.subPool.short.poolEquity = 100 := by
  refine ⟨by decide, ?_, by decide +kernel, by decide +kernel, by decide +kernel⟩
  intro mode
  cases mode <;> decide +kernel

end MoleFinance
