import MoleFinance.Indexer.Mirror
import MoleFinance.Engine.Totality

/-! One event at a time: its replay takes the record of a sub-pool where the engine went. -/
namespace MoleFinance
open MoleMath Call Trace

def Inflow.total (inflow : Inflow) : Nat :=
  inflow.toPool + inflow.toRecovery + inflow.residualToDust

theorem Attributed.backed {d : Direction} {x : Side} {ps : Positions} (h : Attributed d x ps)
    (hi : x.dormant.Inv) (hd : x.dormant.direction = d)
    (hok : ∀ k p, ps.get? k = some p → p.Ok) {tick : Int} {b : DormantBucket}
    (hb : x.dormant.book.buckets.get? tick = some b) : Indexer.Backed d x ps tick b := by
  have hshares := DormantStore.sharesAt_of_book hb
  obtain ⟨c, hc, rfl⟩ : ∃ c, x.dormant.buckets.get? tick = some c ∧
      { c with accruedValue := c.accruedValue + x.dormant.owed c, lastAppliedIndex := 0 } = b := by
    have hview := (OrdMap.get?_mapVal _ x.dormant.buckets tick).symm.trans hb
    exact Option.map_eq_some_iff.mp hview
  refine ⟨(hi.bucketOk tick c hc).direction_eq.trans hd, ?_, h.total_lt_of_book hb, ?_⟩
  · have hstock := h.stocked tick _ (by rw [DormantStore.holdings_get?, hc]; rfl)
    exact hstock.1.ne'
  · intro id p hp hpd htick
    rw [← hshares, h.recovery tick]
    refine le_trans ?_ (le_sumOn _ hp hpd)
    rw [Side.recoveryAt_bucketOf (hok id p hp) htick, Side.dormantOf]
    split_ifs <;> omega

structure Transferred (s s' : SubPool) (p : Nat) (w : Direction) (inflow : Inflow) : Prop where
  gains : 0 < inflow.toPool → (s.side w).activeShares ≠ 0
  pays : inflow.total ≤ (s.side w.opposite).poolEquity
  book : ∃ r, Book.distribute p (inflow.toRecovery + inflow.residualToDust)
    (s.side w).dormant.book = .ok r (s'.side w).dormant.book
  other : (s'.side w.opposite).dormant = (s.side w.opposite).dormant

theorem transferTo_transferred {market : MarketParams} {s s' : SubPool} {p : Nat} {w : Direction}
    {demand : Demand} {inflow : Inflow} (hs : s.Sound)
    (hactive : 0 < demand.active → (s.side w).activeShares ≠ 0)
    (h : transferTo market s p w demand = .ok (s', inflow)) : Transferred s s' p w inflow := by
  cases transferTo_ok h with
  | inl h =>
    obtain ⟨-, rfl, rfl⟩ := h
    exact ⟨fun h => absurd h (lt_irrefl 0), Nat.zero_le _, ⟨⟨0, 0⟩, rfl⟩, rfl⟩
  | inr h =>
    obtain ⟨t, a, x, htr, h0, hmul, hle, -, hx, hpool, rfl⟩ := h
    have hx' : x.dormant.Inv ∧ inflow.toRecovery + inflow.residualToDust = t - a := by
      obtain ⟨hinv, -, -, -, -, hsum⟩ := transferToRecovery_effect hx (hs w).1
      exact ⟨hinv, hsum⟩
    have hother : (((s.setSide w x).setSide w.opposite { s.side w.opposite with
        poolEquity := (s.side w.opposite).poolEquity - t }).side w) = x :=
      SubPool.side_setSide_both _ _ _ _
    refine ⟨fun hpos => hactive ?_, ?_, ?_, ?_⟩
    · by_contra hz
      have hz' : demand.active = 0 := by omega
      rw [hz'] at hmul
      rw [hpool] at hpos
      rw [mulDivFloor_zero_right (by omega)] at hmul
      cases hmul
      omega
    · have : inflow.total = t := by
        unfold Inflow.total
        omega
      rw [this, htr]
      exact Nat.min_le_right _ _
    · rw [hother]
      cases transferToRecovery_ok hx with
      | inl hc =>
        obtain ⟨hz, rfl, hrec, hres⟩ := hc
        rw [hrec, hres]
        exact ⟨⟨0, 0⟩, rfl⟩
      | inr hc =>
        obtain ⟨dormant, r, hne, hdist, rfl, -⟩ := hc
        rw [hx'.2]
        exact ⟨r, DormantStore.distributeBy_book (hs w).1 hdist⟩
    · rw [SubPool.side_setSide]

theorem settleDemands_transferred {market : MarketParams} {s s' : SubPool} {p : Nat}
    {demands : Demand × Demand} {long short : Inflow} {ps : Positions} (hs : s.Sound)
    (hsh : Shared s ps) (hlast : s.lastPrice ≠ 0) (hdem : syncDemands s p = .ok demands)
    (h : settleDemands market s p demands = .ok (s', long, short)) :
    (short = .zero ∧ Transferred s s' p .long long) ∨
    (long = .zero ∧ Transferred s s' p .short short) := by
  obtain ⟨hlong, hshort⟩ := syncDemands_no_notional hdem hlast
  unfold settleDemands at h
  split_ifs at h with h1 h2
  · obtain ⟨⟨t, i⟩, ht, h⟩ := except_bind_ok.mp h
    cases h
    refine .inl ⟨rfl, transferTo_transferred hs (fun hpos h0 => ?_) ht⟩
    exact hpos.ne' (hlong ((hsh .long).notional_of_no_shares h0))
  · obtain ⟨⟨t, i⟩, ht, h⟩ := except_bind_ok.mp h
    cases h
    refine .inr ⟨rfl, transferTo_transferred hs (fun hpos h0 => ?_) ht⟩
    exact hpos.ne' (hshort ((hsh .short).notional_of_no_shares h0))
  · cases h
    exact .inl ⟨rfl, fun h => absurd h (lt_irrefl 0), Nat.zero_le _, ⟨⟨0, 0⟩, rfl⟩, rfl⟩

namespace PoolSyncEvent

def inflow (ev : PoolSyncEvent) : Direction → Inflow
  | .long => ev.long
  | .short => ev.short

def before (ev : PoolSyncEvent) : Direction → SideSnapshot
  | .long => ev.longBefore
  | .short => ev.shortBefore

end PoolSyncEvent

namespace Indexer

/-- What a sync that finds the indexer at `x` credits to a position: its part of the inflow to
the active holders of its side, or of the share of its bucket. -/
inductive Credit (ev : PoolSyncEvent) (x : IndexerState) (pos : PositionView) : Nat → Prop
  | active (d : Direction) :
    activeIn ev.subPoolId d
      (((x.subPools.get? ev.subPoolId).getD .default).series d).activeGeneration pos = true →
    Credit ev x pos ((ev.inflow d).toPool * pos.activeShares / (ev.before d).activeShares)
  | dormant (d : Direction) (tick : Int) (bucket : BucketView) (o t : Nat)
    (outstandings : List (BucketKey × Nat)) :
    dormantIn (bucketKey ev.subPoolId d tick) pos = true →
    x.buckets.get? (bucketKey ev.subPoolId d tick) = some bucket →
    bucket.outstandingAt ev.pNow = .ok o →
    collectOutstanding d ev.pNow (x.buckets.entries.filter
      (fun e => e.1.subPoolId = ev.subPoolId ∧ e.1.direction = d)) 0 = .ok (outstandings, t) →
    Credit ev x pos (min (((ev.inflow d).toRecovery + (ev.inflow d).residualToDust) * o / t) o
      * pos.recoveryShares / bucket.totalRecoveryShares)

/-- The buckets of a sub-pool with everything the ledgers still owe them. -/
def booksOf (s : SubPool) (d : Direction) : BucketMap := (s.side d).dormant.view

theorem booksOf_setSide (s : SubPool) (d : Direction) (y : Side) :
    booksOf (s.setSide d y) = Function.update (booksOf s) d y.dormant.book.buckets := by
  funext e
  rw [booksOf, SubPool.side_setSide_eq]
  by_cases he : e = d
  · rw [he, Function.update_self, if_pos rfl]
    rfl
  · rw [Function.update_of_ne he, if_neg he]
    rfl

section Idle
variable {P : IndexerState → Prop} {E : IndexerError → IndexerState → Prop}

theorem idle_active (sp : Nat) (d : Direction) (before : Nat) :
    Meets P (syncActive sp d 0 before) (fun _ => P) E := .pure fun _ h => h

theorem idle_recovery (sp : Nat) (d : Direction) (p : Nat) :
    Meets P (syncRecovery sp d 0 0 p) (fun _ => P) E := .pure fun _ h => h

theorem idle_loss (sp : Nat) (d : Direction) (before : Nat) :
    Meets P (syncLoss sp d 0 before) (fun _ => P) E := .pure fun _ h => h

end Idle

theorem totalOutflow_of {inflow : Inflow} (h : inflow.total < u128Size) :
    totalOutflow inflow = .ok inflow.total := by
  unfold totalOutflow Inflow.total at *
  rw [ensure_of h]
  rfl

section Syncs
variable {sp : Nat} {s s' : SubPool} {p : Nat} {w : Direction} {inflow : Inflow}
  {ps : Positions} {credit : PositionView → Nat → Prop}

theorem booksOf_transferred (h : Transferred s s' p w inflow) :
    Function.update (booksOf s) w (booksOf s' w) = booksOf s' := by
  funext e
  by_cases he : e = w
  · rw [he, Function.update_self]
  · rw [Function.update_of_ne he, Direction.ne_iff.mp he, booksOf, booksOf, h.other]

theorem winner_active {side : Direction → Side} {books : Direction → BucketMap}
    (hside : side w = s.side w) (hsh : Shared s ps) (h : Transferred s s' p w inflow)
    (hlt : inflow.total < u128Size)
    (hcredit : ∀ pos, activeIn sp w (s.side w).activeGeneration pos = true →
      credit pos (inflow.toPool * pos.activeShares / (s.side w).activeShares)) :
    Meets (Mirrors sp side books ps) (syncActive sp w inflow.toPool (s.side w).activeShares)
      (fun _ => Mirrors sp side books ps) (Full credit) := by
  have hpool : inflow.toPool < u128Size := by
    unfold Inflow.total at hlt
    omega
  rw [← hside] at hcredit ⊢
  exact syncActive_mirrors (hside ▸ hsh w) hpool (hside ▸ h.gains) hcredit

theorem winner_recovery {side : Direction → Side} (hside : side w = s.side w) (hs : s.Sound)
    (hs' : s'.Sound) (hv : s'.value < u128Size) (hsh : Shared s ps)
    (hok : ∀ k p, ps.get? k = some p → p.Ok) (h : Transferred s s' p w inflow)
    (hlt : inflow.total < u128Size)
    (hcredit : ∀ t tick b o pos, (s.side w).dormant.book.totalOutstanding p = .ok t →
      (s.side w).dormant.book.buckets.get? tick = some b → b.outstandingClaimAt p = .ok o →
      dormantIn (bucketKey sp w tick) pos = true →
      credit pos (min ((inflow.toRecovery + inflow.residualToDust) * o / t) o
        * pos.recoveryShares / b.totalRecoveryShares)) :
    Meets (Mirrors sp side (booksOf s) ps)
      (syncRecovery sp w inflow.toRecovery inflow.residualToDust p)
      (fun _ => Mirrors sp side (booksOf s') ps) (Full credit) := by
  obtain ⟨r, hbook⟩ := h.book
  have hfunds : (s'.side w).dormant.book.funds < u128Size := by
    rw [(hs' w).1.book_funds]
    have := s'.side_value_le w
    unfold Side.value DormantStore.funds at this
    omega
  have hsum : inflow.toRecovery + inflow.residualToDust < u128Size := by
    unfold Inflow.total at hlt
    omega
  rw [← booksOf_transferred h]
  exact syncRecovery_mirrors (v := (s.side w).dormant.book) rfl (hs w).2
    (fun tick b hb => hside ▸ (hsh w).backed (hs w).1 (hs w).2 hok hb) hbook hfunds rfl hsum hcredit

theorem loser_mirrors {side : Direction → Side} {books : Direction → BucketMap}
    (hside : side w.opposite = s.side w.opposite) (hv : s.value < u128Size)
    (hsh : Shared s ps)
    (hzero : ∀ d, (s.side d).poolEquity = 0 ↔ (s.side d).activeShares = 0)
    (h : Transferred s s' p w inflow) :
    Meets (Mirrors sp side books ps)
      (syncLoss sp w.opposite inflow.total (s.side w.opposite).activeShares)
      (fun _ => Mirrors sp side books ps) (Full credit) := by
  have hle := s.side_value_le w.opposite
  unfold Side.value at hle
  have hpays := h.pays
  have h0 : 0 < inflow.total → (s.side w.opposite).activeShares ≠ 0 := by
    intro hpos hz
    have := (hzero w.opposite).mpr hz
    omega
  rw [← hside]
  exact syncLoss_mirrors (hside ▸ hsh w.opposite) (by omega) (hside ▸ h0)

section Credits
variable {envelope : PriceEnvelope} {long short : Inflow} {x : IndexerState}

theorem active_credit (hx : Mirrors s.subPoolId s.side (booksOf s) ps x) (d : Direction)
    {pos : PositionView} (h : activeIn s.subPoolId d (s.side d).activeGeneration pos = true) :
    Credit (poolSyncEvent s envelope long short) x pos
      (((poolSyncEvent s envelope long short).inflow d).toPool * pos.activeShares
        / (s.side d).activeShares) := by
  rw [← hx.series d] at h
  have hcredit : Credit (poolSyncEvent s envelope long short) x pos _ := .active d h
  cases d with
  | long => exact hcredit
  | short => exact hcredit

theorem dormant_credit (hx : Mirrors s.subPoolId s.side (booksOf s) ps x) (hs : s.Sound)
    (hsh : Shared s ps) (hok : ∀ k p, ps.get? k = some p → p.Ok) (d : Direction) {t o : Nat}
    {tick : Int} {b : DormantBucket} {pos : PositionView}
    (ht : (s.side d).dormant.book.totalOutstanding envelope.pNow = .ok t)
    (hb : (s.side d).dormant.book.buckets.get? tick = some b)
    (ho : b.outstandingClaimAt envelope.pNow = .ok o)
    (h : dormantIn (bucketKey s.subPoolId d tick) pos = true) :
    Credit (poolSyncEvent s envelope long short) x pos
      (min ((((poolSyncEvent s envelope long short).inflow d).toRecovery
        + ((poolSyncEvent s envelope long short).inflow d).residualToDust) * o / t) o
          * pos.recoveryShares / b.totalRecoveryShares) := by
  have hdir : ∀ tick b, (s.side d).dormant.book.buckets.get? tick = some b → b.direction = d :=
    fun tick b hb => ((hsh d).backed (hs d).1 (hs d).2 hok hb).direction
  have hview : x.buckets.get? (bucketKey s.subPoolId d tick) = some (b.toView d) := by
    rw [hx.buckets]
    exact congrArg (Option.map (·.toView d)) hb
  have hcollect := hx.collect (v := (s.side d).dormant.book) rfl (hs d).2 hdir ht
  exact .dormant d tick (b.toView d) o t _ h hview (outstandingAt_toView (hdir tick b hb) ho)
    hcollect

end Credits

/-- The event of a sync takes the record to the state before its rotations. -/
theorem applyPoolSync_mirrors {market : MarketParams} {envelope : PriceEnvelope}
    {demands : Demand × Demand} {long short : Inflow} {x : IndexerState} (hs : s.Sound)
    (hv : s.value < u128Size) (hsh : Shared s ps) (hok : ∀ k p, ps.get? k = some p → p.Ok)
    (hzero : ∀ d, (s.side d).poolEquity = 0 ↔ (s.side d).activeShares = 0)
    (hlast : s.lastPrice ≠ 0) (hdem : syncDemands s envelope.pNow = .ok demands)
    (hset : settleDemands market s envelope.pNow demands = .ok (s', long, short))
    (hx : Mirrors s.subPoolId s.side (booksOf s) ps x) :
    Meets (Mirrors s.subPoolId s.side (booksOf s) ps)
      (applyPoolSync (poolSyncEvent s envelope long short))
      (fun _ => Mirrors s.subPoolId s.side (booksOf s') ps)
      (Full (Credit (poolSyncEvent s envelope long short) x)) := by
  have hmoved := settleDemands_moved hs hset
  have hs' := hmoved.sound
  have hv' : s'.value < u128Size := by
    have := hmoved.value_eq
    omega
  have hfits : ∀ {w : Direction} {inflow : Inflow}, Transferred s s' envelope.pNow w inflow →
      inflow.total < u128Size := by
    intro w inflow h
    have hle := s.side_value_le w.opposite
    unfold Side.value at hle
    exact h.pays.trans_lt (by omega)
  cases settleDemands_transferred hs hsh hlast hdem hset with
  | inl h =>
    obtain ⟨rfl, h⟩ := h
    have hlt := hfits h
    refine .bind (winner_active (s := s) (w := .long) rfl hsh h hlt
      fun pos => active_credit hx .long) fun _ => ?_
    refine .bind (winner_recovery rfl hs hs' hv' hsh hok h hlt
      fun t tick b o pos => dormant_credit hx hs hsh hok .long) fun _ => ?_
    refine .bind (idle_active _ _ _) fun _ => .bind (idle_recovery _ _ _) fun _ => ?_
    have hlong : totalOutflow (poolSyncEvent s envelope long .zero).long = .ok long.total :=
      totalOutflow_of hlt
    have hshort : totalOutflow (poolSyncEvent s envelope long .zero).short = .ok 0 := rfl
    rw [hlong, hshort]
    refine .orFail_bind (fun t ht => ?_) (fun e he => by cases he)
    refine .orFail_bind (fun t' ht' => ?_) (fun e he => by cases he)
    cases ht
    cases ht'
    refine .bind (loser_mirrors (s := s) (w := .long) rfl hv hsh hzero h) fun _ => ?_
    exact idle_loss _ _ _
  | inr h =>
    obtain ⟨rfl, h⟩ := h
    have hlt := hfits h
    refine .bind (idle_active _ _ _) fun _ => .bind (idle_recovery _ _ _) fun _ => ?_
    refine .bind (winner_active (s := s) (w := .short) rfl hsh h hlt
      fun pos => active_credit hx .short) fun _ => ?_
    refine .bind (winner_recovery rfl hs hs' hv' hsh hok h hlt
      fun t tick b o pos => dormant_credit hx hs hsh hok .short) fun _ => ?_
    have hlong : totalOutflow (poolSyncEvent s envelope .zero short).long = .ok 0 := rfl
    have hshort : totalOutflow (poolSyncEvent s envelope .zero short).short = .ok short.total :=
      totalOutflow_of hlt
    rw [hlong, hshort]
    refine .orFail_bind (fun t ht => ?_) (fun e he => by cases he)
    refine .orFail_bind (fun t' ht' => ?_) (fun e he => by cases he)
    cases ht
    cases ht'
    refine .bind (idle_loss _ _ _) fun _ => ?_
    exact loser_mirrors (s := s) (w := .short) rfl hv hsh hzero h

end Syncs

section Rotations
variable {sp id : Nat} {ps : Positions} {d : Direction} {y y' : Side} {p : Position}
  {pos pos' : PositionView} {tick : Int} {price : Nat}

theorem Tracks.of_selected (ht : Tracks sp y p pos) (hr : p.Resting)
    (hsel : activeIn sp d y.activeGeneration pos = true) :
    p.activeGeneration = y.activeGeneration ∧ p.activeShares ≠ 0 ∧
      pos.activeShares = p.activeShares ∧
      p.recoveryShares = 0 ∧ pos.recoveryShares = 0 := by
  have h0 := (activeIn_iff.mp hsel).2.2.2.1
  have hact := ht.active
  unfold Side.activeOf at hact
  split_ifs at hact with hg
  · have hrec := ht.recovery
    rw [Side.dormantOf, if_pos hg] at hrec
    have hne : p.activeShares ≠ 0 := hact ▸ h0
    have hz := hr.apart.resolve_left hne
    exact ⟨hg, hne, hact, hz, hrec.trans hz⟩
  · exact absurd hact h0

theorem Tracks.rotated (h : Attributed d y ps)
    (hl : y'.rotateLog = y.rotateLog ++ [⟨y.activeGeneration, tick, price⟩])
    (hg : y'.activeGeneration = y.activeGeneration + 1) (hk : ps.get? id = some p)
    (hd : p.direction = d) (hr : p.Resting) (ht : Tracks sp y p pos)
    (hsel : activeIn sp d y.activeGeneration pos = true)
    (hf : migrateView tick (y.activeGeneration + 1) pos = .ok pos') : Tracks sp y' p pos' := by
  obtain ⟨hgen, hne, hact, hrz, hposz⟩ := ht.of_selected hr hsel
  have hle : p.activeShares ≤ y.activeShares := by
    rw [h.shares]
    have := le_sumOn y.activeOf hk hd
    rwa [Side.activeOf, if_pos hgen] at this
  have hlt := h.active_lt
  rw [migrateView_of (by omega)] at hf
  cases hf
  have hgen' : p.activeGeneration ≠ y'.activeGeneration := by omega
  exact { ht with
    active := (if_neg hgen').symm
    generation := fun h0 => absurd rfl h0
    recovery := by
      rw [Side.dormantOf, if_neg hgen']
      simp only
      omega
    tick := fun _ => by
      rw [Side.bucketOf, if_neg hne, Side.rotatedInto, if_neg hgen',
        findRotateRecord_rotated h hl hgen.le, if_pos hgen]
      rfl }

theorem Tracks.kept (h : Attributed d y ps)
    (hl : y'.rotateLog = y.rotateLog ++ [⟨y.activeGeneration, tick, price⟩])
    (hg : y'.activeGeneration = y.activeGeneration + 1) (hk : ps.get? id = some p)
    (hd : p.direction = d) (hr : p.Resting) (ht : Tracks sp y p pos)
    (hsel : activeIn sp d y.activeGeneration pos ≠ true) : Tracks sp y' p pos := by
  have hle := h.older id p hk hd
  have hgen' : p.activeGeneration ≠ y'.activeGeneration := by omega
  have h0 : pos.activeShares = 0 := by
    by_contra h0
    refine hsel (activeIn_iff.mpr ⟨?_, ht.subPool, ht.direction.trans hd, h0, ht.generation h0⟩)
    by_contra hc
    have hclosed := hr.closed (ht.closed.mp (by simpa using hc))
    rw [ht.active, Side.activeOf, hclosed.1, ite_self] at h0
    exact h0 rfl
  have hactive : p.activeGeneration = y.activeGeneration → p.activeShares = 0 := by
    intro hgen
    have := ht.active
    rw [Side.activeOf, if_pos hgen] at this
    exact this.symm.trans h0
  exact { ht with
    active := h0.trans (if_neg hgen').symm
    generation := fun hne => absurd h0 hne
    recovery := by
      rw [ht.recovery, Side.dormantOf, Side.dormantOf, if_neg hgen']
      split_ifs with hgen
      · rw [hactive hgen, Nat.add_zero]
      · rfl
    tick := fun hne => by
      rw [ht.tick hne, Side.bucketOf, Side.bucketOf]
      split_ifs with hz
      · rfl
      · have hgen : p.activeGeneration ≠ y.activeGeneration := fun hgen => hz (hactive hgen)
        rw [Side.rotatedInto, Side.rotatedInto, if_neg hgen, if_neg hgen',
          findRotateRecord_rotated h hl hle, if_neg hgen] }

variable {side : Direction → Side} {books : Direction → BucketMap}
  {E : IndexerError → IndexerState → Prop}

theorem putSubPool_bind {α : Type} (id : Nat) (view : SubPoolView) (f : Unit → IndexM α)
    (x : IndexerState) : (putSubPool id view >>= f) x
      = f () { x with subPools := x.subPools.insert id view } := rfl

theorem joinView_of {key : BucketKey} {shares notional : Nat} {bucket : BucketView}
    {x : IndexerState} (hs : bucket.totalRecoveryShares + shares < u128Size)
    (hn : bucket.totalRecoveryNotional + notional < u128Size) :
    joinView key shares notional bucket x = .ok () { x with
      buckets := x.buckets.insert key { bucket with
        totalRecoveryShares := bucket.totalRecoveryShares + shares
        totalRecoveryNotional := bucket.totalRecoveryNotional + notional } } := by
  have hadd : checkedAdd bucket.totalRecoveryShares shares
      = .ok (bucket.totalRecoveryShares + shares) := checkedAdd_ok.mpr ⟨hs, rfl⟩
  have hadd' : checkedAdd bucket.totalRecoveryNotional notional
      = .ok (bucket.totalRecoveryNotional + notional) := checkedAdd_ok.mpr ⟨hn, rfl⟩
  unfold joinView
  rw [hadd, hadd']
  have hput : ∀ (b : BucketView) (k : Unit → IndexM Unit) (z : IndexerState),
      (putBucket key b >>= k) z = k () { z with buckets := z.buckets.insert key b } :=
    fun _ _ _ => rfl
  have hpass : ∀ (n : Nat) (k : Nat → IndexM Unit) (z : IndexerState),
      (orFail (orIndexer (.ok n)) >>= k) z = k n z := fun _ _ _ => rfl
  rw [hput, hpass, hput, hpass]
  simp only [putBucket, OrdMap.insert_insert]

theorem joinBucket_mirrors {v v' : Book} {anchor shares notional count cap : Nat} {u : Unit}
    (hv : v.buckets = books d) (hs : shares < u128Size)
    (hn : notional < u128Size)
    (h : Book.insertOrMerge tick anchor shares notional count cap v = .ok u v') :
    Meets (Mirrors sp side books ps)
      (joinBucket (bucketKey sp d tick) ⟨d, anchor, 0, 0, 0⟩ shares notional)
      (fun _ => Mirrors sp side (Function.update books d v'.buckets) ps) E := by
  refine .get_bind fun x hx => ?_
  rw [hx.buckets, ← hv]
  cases Book.insertOrMerge_ok h with
  | inl h =>
    obtain ⟨b, b', hb, hm, rfl⟩ := h
    obtain ⟨hsh, hno, -, rfl⟩ := mergeBucket_ok hm
    rw [hb]
    rintro y rfl
    rw [Option.map_some, Option.getD_some, joinView_of hsh hno, hv]
    exact hx.insert _
  | inr h =>
    obtain ⟨hb, rfl⟩ := h
    rw [hb]
    rintro y rfl
    rw [Option.map_none, Option.getD_none, joinView_of (by simpa using hs) (by simpa using hn), hv]
    have hfresh :
        (DormantStore.freshBucket v.direction tick anchor shares notional count 0).toView d
        = ⟨d, anchor, 0 + shares, 0 + notional, 0⟩ := by
      rw [Nat.zero_add, Nat.zero_add]
      rfl
    have hins : Mirrors sp side (Function.update books d ((books d).insert tick
        (DormantStore.freshBucket v.direction tick anchor shares notional count 0))) ps _ :=
      hx.insert _
    rw [hfresh] at hins
    exact hins

/-- The event of a rotation moves the active positions and their bucket together. -/
theorem applyRotate_mirrors {market : MarketParams} {envelope : PriceEnvelope} {s : SubPool}
    (hs : s.Sound) (hv : s.value < u128Size) (hsh : Shared s ps)
    (hrest : ∀ k p, ps.get? k = some p → p.Resting)
    (ht : bucketTickOf market envelope.pNow = .ok tick)
    (hx : Rotated market envelope.pNow (s.side d) y') :
    Meets (Mirrors s.subPoolId s.side (booksOf s) ps)
      (applyRotate (rotationEvent s envelope d tick))
      (fun _ => Mirrors s.subPoolId (s.setSide d y').side (booksOf (s.setSide d y')) ps) E := by
  obtain ⟨tick', dormant, ht', hm, -, hgen, rfl⟩ := hx
  rw [ht] at ht'
  cases ht'
  have ha := hsh d
  have hbook := DormantStore.insertOrMerge_book (hs d).1 (bounded_of_value hv d) hm
  rw [booksOf_setSide]
  refine .bind subPoolMut_mirrors fun view x hxv => ?_
  obtain ⟨hx, hview⟩ := hxv
  have hseries : ∀ e, (view.series e).activeGeneration = (s.side e).activeGeneration := by
    intro e
    rw [← hx.series e, hview]
    rfl
  have hgen' : (view.series (rotationEvent s envelope d tick).direction).activeGeneration + 1
      < u64Size := (hseries d).symm ▸ hgen
  rw [putSubPool_bind, ensure_of hgen', orFail_ok_bind, putSubPool_bind]
  refine Meets.bind (Q := fun _ => Mirrors s.subPoolId (s.setSide d _).side (booksOf s) ps)
    (forPositions_meets (fun z x' hz hu => ?_) (fun z x' id pos e hz hid hid' hsel hf => ?_))
    (fun _ => joinBucket_mirrors rfl ha.active_lt ha.notional_lt hbook) _ rfl
  · subst hz
    refine hx.updated hu (fun e => ?_) (fun id p pos hp htr => ?_)
    · simp only [rotationEvent, OrdMap.get?_insert_self, Option.getD_some,
        SubPoolView.series_setSeries, SubPool.side_setSide_eq]
      by_cases he : e = d
      · rw [if_pos he, if_pos he, hseries]
      · rw [if_neg he, if_neg he, hseries]
    · rw [SubPool.side_setSide_eq]
      by_cases hd : p.direction = d
      · rw [if_pos hd]
        rw [hd] at htr
        simp only [rotationEvent, hseries]
        exact ⟨fun hsel pos' hf => htr.rotated ha rfl rfl hp hd (hrest id p hp) hsel hf,
          fun hsel => htr.kept ha rfl rfl hp hd (hrest id p hp) hsel⟩
      · rw [if_neg hd]
        refine ⟨fun hsel => absurd ?_ hd, fun _ => htr⟩
        exact htr.direction.symm.trans (activeIn_iff.mp hsel).2.2.1
  · subst hz
    obtain ⟨p, hp⟩ := hx.known id pos hid
    obtain ⟨pos', hpos', htr⟩ := hx.found id p hp
    cases hid.symm.trans hpos'
    have hd : p.direction = d := htr.direction.symm.trans (activeIn_iff.mp hsel).2.2.1
    rw [hd] at htr
    obtain ⟨hg, -, hact, -, hz⟩ := htr.of_selected (hrest id p hp) hsel
    have hle := le_sumOn (s.side d).activeOf hp hd
    rw [← ha.shares, Side.activeOf, if_pos hg] at hle
    have hlt := ha.active_lt
    rw [migrateView_of (by omega)] at hf
    cases hf

end Rotations

section Positions
variable {sp id : Nat} {ps : Positions} {side side' : Direction → Side}
  {books : Direction → BucketMap} {x : IndexerState} {p : Position} {pos : PositionView}
  {d : Direction} {E : IndexerError → IndexerState → Prop}

theorem Tracks.congr {y y' : Side} (hl : y'.rotateLog = y.rotateLog)
    (hg : y'.activeGeneration = y.activeGeneration) (h : Tracks sp y p pos) : Tracks sp y' p pos :=
  { h with
    active := h.active.trans (by rw [Side.activeOf, Side.activeOf, hg])
    generation := fun h0 => (h.generation h0).trans hg.symm
    recovery := h.recovery.trans (by rw [Side.dormantOf, Side.dormantOf, hg])
    tick := fun h0 => (h.tick h0).trans (Side.bucketOf_congr hl hg p).symm }

theorem Mirrors.congr (hl : ∀ d, (side' d).rotateLog = (side d).rotateLog)
    (hg : ∀ d, (side' d).activeGeneration = (side d).activeGeneration)
    (h : Mirrors sp side books ps x) : Mirrors sp side' books ps x :=
  { h with
    series := fun d => (h.series d).trans (hg d).symm
    found := fun id p hp => by
      obtain ⟨pos, hpos, ht⟩ := h.found id p hp
      exact ⟨pos, hpos, ht.congr (hl _) (hg _)⟩ }

theorem Mirrors.setPosition (h : Mirrors sp side books ps x)
    (ht : Tracks sp (side p.direction) p pos) :
    Mirrors sp side books (ps.insert id p) { x with positions := x.positions.insert id pos } :=
  { h with
    found := by
      intro k q hq
      simp only [OrdMap.get?_insert] at hq ⊢
      split_ifs at hq ⊢ with hk
      · cases hq
        exact ⟨pos, rfl, ht⟩
      · exact h.found k q hq
    known := by
      intro k q hq
      simp only [OrdMap.get?_insert] at hq ⊢
      split_ifs at hq ⊢ with hk
      · exact ⟨p, rfl⟩
      · exact h.known k q hq }

theorem burnFromBucket_mirrors {v v' : Book} {tick : Int} {shares : Nat} {r : RedeemReceipt}
    (hv : v.buckets = books d) (h0 : shares ≠ 0) (h : Book.redeem tick shares v = .ok r v') :
    Meets (fun x => Mirrors sp side books ps x ∧ x.positions.get? id = some pos)
      (burnFromBucket (bucketKey sp d tick) r.burnedShares r.burnedNotional r.redeemable)
      (fun _ x => Mirrors sp side (Function.update books d v'.buckets) ps x ∧
        x.positions.get? id = some pos) E := by
  obtain ⟨b, b', hb, hle, hburn, rfl⟩ := Book.redeem_ok h0 h
  obtain ⟨-, -, hshares, -, -, -, hb'⟩ := burnShares_ok hburn
  refine .get_bind fun x hx => ?_
  obtain ⟨hx, hpos⟩ := hx
  rw [hx.buckets, ← hv, hb, Option.map_some, burnView]
  have hsub : checkedSub (b.toView d).totalRecoveryShares r.burnedShares
      = .ok b'.totalRecoveryShares := by
    rw [hb', hshares]
    exact checkedSub_ok.mpr ⟨hle, rfl⟩
  rw [hsub]
  refine .orFail_bind (fun n hn => ?_) (fun e he => by cases he)
  cases hn
  have haccrued : (b.toView d).accruedValue - r.redeemable = b'.accruedValue := by
    rw [hb']
    rfl
  rw [haccrued, replaceBucket, hv]
  by_cases hz : b'.totalRecoveryShares = 0 ∧ b'.accruedValue = 0
  · rw [if_pos hz, if_pos hz]
    rintro y rfl
    exact ⟨hx.erase, hpos⟩
  · rw [if_neg hz, if_neg hz]
    rintro y rfl
    have hview : b'.toView d = { b.toView d with
        totalRecoveryShares := b'.totalRecoveryShares
        totalRecoveryNotional := (b.toView d).totalRecoveryNotional - r.burnedNotional
        accruedValue := b'.accruedValue } := by
      rw [hb']
      rfl
    have hins : Mirrors sp side (Function.update books d ((books d).insert tick b')) ps _ :=
      hx.insert b'
    rw [hview] at hins
    exact ⟨hins, hpos⟩

theorem openPositionOf_mirrors {reason : String} (hopen : pos.closed = false) :
    Meets (fun x => Mirrors sp side books ps x ∧ x.positions.get? id = some pos)
      (openPositionOf id reason)
      (fun q x => (Mirrors sp side books ps x ∧ x.positions.get? id = some pos) ∧ q = pos) E := by
  refine .get_bind fun x hx => ?_
  rw [hx.2, openView, ensure_of hopen]
  rintro y rfl
  exact ⟨hx, rfl⟩

theorem Tracks.migrated {y : Side} {q : Position} (ht : Tracks sp y p pos) (hok : p.Ok)
    (hm : Migrated y p q) : pos.activeShares = q.activeShares ∧
      pos.recoveryShares = q.recoveryShares ∧
      (q.recoveryShares ≠ 0 → pos.recoveryBucketTick = q.recoveryBucketTick) := by
  have hact := ht.active
  have hrec := ht.recovery
  have htick := ht.tick
  unfold Side.activeOf at hact
  unfold Side.dormantOf at hrec
  unfold Side.bucketOf at htick
  cases hm with
  | empty h0 =>
    rw [h0, ite_self] at hact
    rw [h0, Nat.add_zero, ite_self] at hrec
    rw [if_pos h0] at htick
    exact ⟨hact.trans h0.symm, hrec, fun hne => htick (hrec ▸ hne)⟩
  | current h0 hg =>
    rw [if_pos hg] at hact hrec
    exact ⟨hact, hrec, fun hne => absurd (hok.apart.resolve_left h0) hne⟩
  | moved r h0 hg hr =>
    rw [if_neg hg] at hact hrec
    rw [if_neg h0, Side.rotatedInto, if_neg hg, hr] at htick
    exact ⟨hact, hrec, fun hne => htick (hrec ▸ hne)⟩

theorem Tracks.close {y : Side} {p' : Position} (ht : Tracks sp y p pos)
    (hd : p'.direction = p.direction) (hc : p'.status = .closed) (ha : p'.activeShares = 0)
    (hr : p'.recoveryShares = 0) : Tracks sp y p' { pos with
      activeShares := 0
      recoveryShares := 0
      recoveryBucketTick := none
      closed := true } :=
  { ht with
    direction := ht.direction.trans hd.symm
    closed := ⟨fun _ => hc, fun _ => rfl⟩
    active := by rw [Side.activeOf, ha, ite_self]
    generation := fun h0 => absurd rfl h0
    recovery := by rw [Side.dormantOf, ha, hr, Nat.add_zero, ite_self]
    tick := fun h0 => absurd rfl h0 }

theorem closeView_mirrors {p' : Position}
    (ht : Tracks sp (side p'.direction) p' { pos with
      activeShares := 0
      recoveryShares := 0
      recoveryBucketTick := none
      closed := true }) :
    Meets (Mirrors sp side books ps) (closeView id pos pos.activeShares pos.recoveryShares)
      (fun _ => Mirrors sp side books (ps.insert id p')) E := by
  unfold closeView
  rw [checkedSub_ok.mpr ⟨le_rfl, (Nat.sub_self pos.activeShares).symm⟩,
    checkedSub_ok.mpr ⟨le_rfl, (Nat.sub_self pos.recoveryShares).symm⟩, orIndexer_ok]
  intro x hx
  rw [orFail_ok_bind, putPosition_bind, orFail_ok_bind]
  simp only [putPosition, OrdMap.insert_insert, if_true]
  exact hx.setPosition ht

/-- The recovery part of a close empties the position's part of its bucket. -/
theorem burnRecovery_mirrors {s s' : SubPool} {q q' : Position} {r : RedeemReceipt}
    {reason : String} (hs : s.Sound) (hv : s.value < u128Size)
    (h : settleRecovery s q = .ok (s', q', r))
    (htick : q.recoveryShares ≠ 0 → pos.recoveryBucketTick = q.recoveryBucketTick) :
    Meets (fun x => Mirrors sp side (booksOf s) ps x ∧ x.positions.get? id = some pos)
      (burnRecovery sp q.direction pos.recoveryBucketTick reason r.burnedShares r.burnedNotional
        r.redeemable)
      (fun _ x => Mirrors sp side (booksOf s') ps x ∧ x.positions.get? id = some pos) E := by
  cases settleRecovery_ok h with
  | inl h =>
    obtain ⟨-, rfl, -, rfl⟩ := h
    exact .pure fun _ hx => hx
  | inr h =>
    obtain ⟨h0, tick, h⟩ := h
    obtain ⟨ht, dormant, hd, -, rfl, -⟩ := redeemRecovery_ok h
    have hbook := DormantStore.redeem_book (hs _).1 (bounded_of_value hv _) hd
    obtain ⟨b, b', -, -, hburn, -⟩ := Book.redeem_ok h0 hbook
    have hshares : r.burnedShares ≠ 0 := (burnShares_ok hburn).2.2.1 ▸ h0
    rw [htick h0, ht, booksOf_setSide]
    exact .ite (fun _ => burnFromBucket_mirrors rfl h0 hbook) (fun hz => by omega)

end Positions

def Mirrored (w : World) : IndexerState → Prop :=
  Mirrors w.subPool.subPoolId w.subPool.side (booksOf w.subPool) w.positions

structure SameSeries (s s' : SubPool) : Prop where
  id : s'.subPoolId = s.subPoolId
  log : ∀ d, (s'.side d).rotateLog = (s.side d).rotateLog
  generation : ∀ d, (s'.side d).activeGeneration = (s.side d).activeGeneration

namespace SameSeries
variable {s s' t : SubPool}

theorem refl (s : SubPool) : SameSeries s s := ⟨rfl, fun _ => rfl, fun _ => rfl⟩

theorem trans (h : SameSeries s s') (h' : SameSeries s' t) : SameSeries s t :=
  ⟨h'.id.trans h.id, fun d => (h'.log d).trans (h.log d),
    fun d => (h'.generation d).trans (h.generation d)⟩

theorem setSide {d : Direction} {y : Side} (hl : y.rotateLog = (s.side d).rotateLog)
    (hg : y.activeGeneration = (s.side d).activeGeneration) : SameSeries s (s.setSide d y) := by
  refine ⟨SubPool.setSide_subPoolId _ _ _, fun e => ?_, fun e => ?_⟩
  · rw [SubPool.side_setSide_eq]
    split_ifs with he
    · exact he ▸ hl
    · rfl
  · rw [SubPool.side_setSide_eq]
    split_ifs with he
    · exact he ▸ hg
    · rfl

theorem mirrors {books : Direction → BucketMap} {ps : Positions} {x : IndexerState}
    (h : SameSeries s s') (hx : Mirrors s.subPoolId s.side books ps x) :
    Mirrors s'.subPoolId s'.side books ps x := h.id ▸ hx.congr h.log h.generation

end SameSeries

section Parts
variable {s s' : SubPool} {p p' : Position}

theorem booksOf_same {d : Direction} {y : Side} (h : y.dormant.book = (s.side d).dormant.book) :
    booksOf (s.setSide d y) = booksOf s := by
  rw [booksOf_setSide, h]
  exact Function.update_eq_self d (booksOf s)

theorem burnActive_series {value : Nat} (h : burnActive s p value = .ok (s', p')) :
    SameSeries s s' ∧ booksOf s' = booksOf s ∧ p'.recoveryShares = p.recoveryShares ∧
      p'.recoveryBucketTick = p.recoveryBucketTick ∧ p'.direction = p.direction := by
  obtain ⟨-, -, -, rfl, rfl⟩ := burnActive_ok h
  exact ⟨.setSide rfl rfl, booksOf_same rfl, rfl, rfl, rfl⟩

theorem redeemActive_series {value : Nat} (h : redeemActive s p = .ok (s', p', value)) :
    SameSeries s s' ∧ booksOf s' = booksOf s ∧ p'.recoveryShares = p.recoveryShares ∧
      p'.recoveryBucketTick = p.recoveryBucketTick ∧ p'.direction = p.direction := by
  cases redeemActive_ok h with
  | inl h =>
    obtain ⟨-, rfl, rfl, -⟩ := h
    exact ⟨.refl _, rfl, rfl, rfl, rfl⟩
  | inr h => exact burnActive_series h.2.2.2.2

theorem forfeitActive_series {burned removed : Nat}
    (h : forfeitActive s p = .ok (s', p', burned, removed)) :
    SameSeries s s' ∧ booksOf s' = booksOf s ∧ p'.recoveryShares = p.recoveryShares ∧
      p'.recoveryBucketTick = p.recoveryBucketTick ∧ p'.direction = p.direction := by
  cases forfeitActive_ok h with
  | inl h =>
    obtain ⟨-, rfl, rfl, -⟩ := h
    exact ⟨.refl _, rfl, rfl, rfl, rfl⟩
  | inr h => exact burnActive_series h.2.1

theorem redeemRecovery_series {tick : Int} {r : RedeemReceipt}
    (h : redeemRecovery s p = .ok (s', p', tick, r)) : SameSeries s s' := by
  obtain ⟨-, dormant, -, -, rfl, -⟩ := redeemRecovery_ok h
  exact .setSide rfl rfl

theorem settleRecovery_series {r : RedeemReceipt} (h : settleRecovery s p = .ok (s', p', r)) :
    SameSeries s s' := by
  cases settleRecovery_ok h with
  | inl h =>
    obtain ⟨-, rfl, -⟩ := h
    exact .refl _
  | inr h =>
    obtain ⟨-, tick, h⟩ := h
    exact redeemRecovery_series h

theorem settleRecovery_burned {r : RedeemReceipt} (hs : s.Sound) (hv : s.value < u128Size)
    (h : settleRecovery s p = .ok (s', p', r)) : r.burnedShares = p.recoveryShares := by
  cases settleRecovery_ok h with
  | inl h =>
    obtain ⟨h0, -, -, rfl⟩ := h
    exact h0.symm
  | inr h =>
    obtain ⟨h0, tick, h⟩ := h
    obtain ⟨-, dormant, hd, -⟩ := redeemRecovery_ok h
    obtain ⟨b, b', -, -, hburn, -⟩ := Book.redeem_ok h0
      (DormantStore.redeem_book (hs _).1 (bounded_of_value hv _) hd)
    exact (burnShares_ok hburn).2.2.1

end Parts

section Actions
variable {w : World} {k : Nat} {p p1 p2 p3 : Position} {s2 s3 s4 : SubPool} {b : Bool}
  {r : RedeemReceipt} {E : IndexerError → IndexerState → Prop}

theorem close_mirrors {open? close? : String} (h : w.Inv) (hk : w.positions.get? k = some p)
    (hopen : p.status ≠ .closed) (hm : lazyMigratePosition w.subPool p = .ok (p1, b))
    (hs2 : s2.Sound) (hv2 : s2.value < u128Size) (hbooks : booksOf s2 = booksOf w.subPool)
    (hrec2 : p2.recoveryShares = p1.recoveryShares)
    (htick2 : p2.recoveryBucketTick = p1.recoveryBucketTick)
    (hrec : settleRecovery s2 p2 = .ok (s3, p3, r)) (hlast : SameSeries w.subPool s4)
    (hbooks4 : booksOf s4 = booksOf s3) (hd : p3.direction = p.direction) {slot : Nat}
    (hzero : (finishPosition p3 slot).activeShares = 0 ∧
      (finishPosition p3 slot).recoveryShares = 0)
    {id sp active : Nat} {d : Direction} (hid : id = k) (hsp : sp = w.subPool.subPoolId)
    (hd2 : d = p2.direction) (hactive : active = p1.activeShares) :
    Meets (Mirrored w) (do
      let pos ← openPositionOf id open?
      burnRecovery sp d pos.recoveryBucketTick close? r.burnedShares r.burnedNotional r.redeemable
      closeView id pos active r.burnedShares)
      (fun _ => Mirrored ⟨s4, w.positions.insert k (finishPosition p3 slot)⟩) E := by
  rw [hid, hsp, hd2, hactive]
  intro x hx
  obtain ⟨pos, hpos, ht⟩ := hx.found k p hk
  obtain ⟨hact1, hrec1, htick1⟩ :=
    ht.migrated (h.resting k p hk).toOk (lazyMigratePosition_ok hm)
  have hposopen : pos.closed = false := by
    by_contra hc
    exact hopen (ht.closed.mp (by simpa using hc))
  have hburned : r.burnedShares = pos.recoveryShares := by
    rw [settleRecovery_burned hs2 hv2 hrec, hrec2, hrec1]
  have hfinal : Tracks w.subPool.subPoolId (w.subPool.side (finishPosition p3 slot).direction)
      (finishPosition p3 slot) { pos with
        activeShares := 0
        recoveryShares := 0
        recoveryBucketTick := none
        closed := true } := by
    have hside : w.subPool.side (finishPosition p3 slot).direction = w.subPool.side p.direction :=
      congrArg w.subPool.side hd
    rw [hside]
    exact ht.close hd rfl hzero.1 hzero.2
  refine Meets.bind (openPositionOf_mirrors hposopen) (fun q => ?_) x ⟨hx, hpos⟩
  rintro x ⟨hx, rfl⟩
  refine Meets.bind (burnRecovery_mirrors hs2 hv2 hrec fun h0 => ?_) (fun _ => ?_) x (hbooks ▸ hx)
  · rw [htick2]
    exact htick1 (hrec2 ▸ h0)
  · rw [← hact1, hburned]
    refine ((closeView_mirrors hfinal).imp fun _ y hy => ?_).weaken fun _ hx => hx.1
    have hy' := hlast.mirrors hy
    rw [← hbooks4] at hy'
    exact hy'

theorem opened_mirrors {market : MarketParams} {s s' : SubPool} {envelope : PriceEnvelope}
    {d : Direction} {gross id : U64} {out : OpenOutcome} {sync : SyncOutcome}
    (ho : Opening market s envelope d gross id s' p out w.subPool sync)
    (h' : World.Inv ⟨s', w.positions.insert id p⟩) (principal dust fee slot : Nat) :
    Meets (Mirrored w) (applyOpen {
      positionId := id
      subPoolId := w.subPool.subPoolId
      direction := d
      principal := p.principal
      notional := p.notional
      sharesMinted := p.activeShares
      principalIntoPool := principal
      dust := dust
      openFee := fee
      entryPrice := envelope.pNow
      activeGeneration := p.activeGeneration
      slot := slot }) (fun _ => Mirrored ⟨s', w.positions.insert id p⟩) E := by
  have hp := ho.position
  have hdir : p.direction = d := by rw [hp]
  have hgen : p.activeGeneration = (w.subPool.side d).activeGeneration := by rw [hp]
  have hlt := (h'.resting id p (OrdMap.get?_insert_self _ _ _)).principal_lt
  have htracks : ∀ pos : PositionView, pos = ⟨id, w.subPool.subPoolId, d, p.principal, p.notional,
      p.activeShares, 0, none, p.activeGeneration, 0, 0, false⟩ →
      Tracks w.subPool.subPoolId (w.subPool.side p.direction) p pos := by
    rintro pos rfl
    rw [hdir]
    exact {
      subPool := rfl
      direction := hdir.symm
      closed := by
        rw [hp]
        simp
      active := (if_pos hgen).symm
      generation := fun _ => hgen
      recovery := by
        rw [Side.dormantOf, if_pos hgen, hp]
      tick := fun h0 => absurd rfl h0
      locked := Nat.zero_le _
      principal_lt := hlt }
  intro x hx
  unfold applyOpen
  rw [putPosition_bind]
  have hnew : Mirrors w.subPool.subPoolId w.subPool.side (booksOf w.subPool)
      (w.positions.insert id p) { x with positions := x.positions.insert id.val _ } :=
    hx.setPosition (htracks _ rfl)
  refine Meets.bind subPoolMut_mirrors (fun view y hy => ?_) _ hnew
  obtain ⟨hy, hview⟩ := hy
  have hseries : (view.series d).activeGeneration = p.activeGeneration := by
    rw [hgen, ← hy.series d, hview]
    rfl
  have hsame : SameSeries w.subPool s' ∧ booksOf s' = booksOf w.subPool := by
    rw [ho.state]
    exact ⟨.setSide rfl rfl, booksOf_same rfl⟩
  rw [if_neg (by simp only [hseries, lt_irrefl, not_false_eq_true])]
  have hlast := hsame.1.mirrors hy
  rw [← hsame.2] at hlast
  exact hlast

theorem claimed_mirrors {slot : Nat} {tick : Int} (h : w.Inv) (hk : w.positions.get? k = some p)
    (hm : lazyMigratePosition w.subPool p = .ok (p1, b)) (h0 : p1.recoveryShares ≠ 0)
    (hrec : redeemRecovery w.subPool p1 = .ok (s2, p2, tick, r)) :
    Meets (Mirrored w) (applyClaimRecovery {
      positionId := p2.positionId
      subPoolId := s2.subPoolId
      direction := p2.direction
      bucketTick := tick
      recoverySharesBurned := r.burnedShares
      recoveryNotionalBurned := r.burnedNotional
      redeemable := r.redeemable
      slot := slot })
      (fun _ => Mirrored ⟨s2, w.positions.insert k { p2 with updatedAtSlot := slot }⟩) E := by
  have hmig := lazyMigratePosition_ok hm
  have hrest := h.resting k p hk
  have hseries := redeemRecovery_series hrec
  obtain ⟨ht, dormant, hd, -, hs2, hp2⟩ := redeemRecovery_ok hrec
  have hbook := DormantStore.redeem_book (h.sound _).1 (bounded_of_value h.value_lt _) hd
  obtain ⟨_, _, -, -, hburn, -⟩ := Book.redeem_ok h0 hbook
  have hid : p2.positionId = k := by
    rw [hp2]
    exact hmig.carried.id.trans (h.keyed k p hk).1
  have hdir : p2.direction = p.direction := by
    rw [hp2]
    exact hmig.carried.direction
  have hdir1 : p1.direction = p.direction := hmig.carried.direction
  have hlive : p.status ≠ .closed ∧ p2.status ≠ .closed ∧ p1.activeShares = 0 := by
    rw [hp2]
    have hopen : p.status ≠ .closed := by
      intro hc
      obtain ⟨hz, hz'⟩ := hrest.closed hc
      cases hmig with
      | empty => exact h0 hz'
      | current hne => exact hne hz
      | moved _ hne => exact hne hz
    cases hmig with
    | empty hz => exact ⟨hopen, hopen, hz⟩
    | current hne => exact absurd (hrest.apart.resolve_left hne) h0
    | moved => exact ⟨hopen, by simp, rfl⟩
  intro x hx
  obtain ⟨pos, hpos, htr⟩ := hx.found k p hk
  obtain ⟨hact1, hrec1, htick1⟩ := htr.migrated hrest.toOk hmig
  have hposopen : pos.closed = false := by
    by_contra hc
    exact hlive.1 (htr.closed.mp (by simpa using hc))
  have hburned : r.burnedShares = pos.recoveryShares :=
    (burnShares_ok hburn).2.2.1.trans hrec1.symm
  have hnone : p2.activeShares = 0 ∧ p2.recoveryShares = 0 := by
    rw [hp2]
    exact ⟨hlive.2.2, rfl⟩
  have hfinal : ∀ balance, Tracks w.subPool.subPoolId (w.subPool.side p2.direction)
      { p2 with updatedAtSlot := slot } { pos with
        recoveryShares := 0
        recoveryBucketTick := none
        realizedProfitBalance := balance } := by
    intro balance
    rw [hdir]
    exact { htr with
      direction := htr.direction
      closed := by
        simp only [hposopen, Bool.false_eq_true, false_iff]
        exact hlive.2.1
      active := by
        rw [Side.activeOf, hnone.1, ite_self]
        exact hact1.trans hlive.2.2
      generation := fun hne => absurd (hact1.trans hlive.2.2) hne
      recovery := by rw [Side.dormantOf, hnone.1, hnone.2, Nat.add_zero, ite_self]
      tick := fun hne => absurd rfl hne }
  have hevent : (⟨p2.positionId, s2.subPoolId, p2.direction, tick, r.burnedShares,
      r.burnedNotional, r.redeemable, slot⟩ : DormantRecoveryClaimedEvent) = ⟨k,
      w.subPool.subPoolId, p1.direction, tick, r.burnedShares, r.burnedNotional, r.redeemable,
      slot⟩ := by
    rw [hid, hseries.id, hdir, hdir1]
  rw [hevent]
  have hafter : booksOf s2
      = Function.update (booksOf w.subPool) p1.direction dormant.book.buckets := by
    rw [hs2, booksOf_setSide]
  refine Meets.bind (openPositionOf_mirrors hposopen) (fun q => ?_) x ⟨hx, hpos⟩
  rintro x ⟨hx, rfl⟩
  refine Meets.bind (burnFromBucket_mirrors rfl h0 hbook) (fun _ y hy => ?_) x hx
  have hsub : checkedSub q.recoveryShares r.burnedShares = .ok 0 :=
    checkedSub_ok.mpr ⟨hburned.le, by omega⟩
  rw [hsub, orIndexer_ok, orFail_ok_bind]
  have hset : Mirrors w.subPool.subPoolId w.subPool.side
      (Function.update (booksOf w.subPool) p1.direction dormant.book.buckets)
      (w.positions.insert k { p2 with updatedAtSlot := slot }) { y with
        positions := y.positions.insert k { q with
          recoveryShares := 0
          recoveryBucketTick := none
          realizedProfitBalance := q.realizedProfitBalance - r.redeemable } } :=
    hy.1.setPosition (hfinal _)
  rw [← hafter] at hset
  exact hseries.mirrors hset

end Actions

end Indexer
end MoleFinance
