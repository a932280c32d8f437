import MoleFinance.Indexer.Queries

/-! The numbers the indexer reports about a sub-pool are those of the engine: the totals of each
side, the buckets in their order, and the claims at any price. -/
namespace MoleFinance
open MoleMath Call Trace

namespace Indexer
open IndexerState

/-- Principal and notional stay as the open wrote them, the notional while it is in play. -/
def Termed (w : World) (y : IndexerState) : Prop :=
  ∀ id p, w.positions.get? id = some p → ∃ sp n, y.termsOf id = some (sp, p.principal, n) ∧
    (p.activeShares ≠ 0 → n = p.notional)

structure Follows (w : World) (y : IndexerState) : Prop where
  mirrored : Mirrored w y
  termed : Termed w y
  listed : Listed y

theorem applyAll_onward {events : List EngineEvent} (h : ∀ e ∈ events, e.opens = none) :
    Moves Onward (applyAll events) := by
  induction events with
  | nil => exact .pure ()
  | cons event events ih =>
    exact .bind (apply_onward (h event List.mem_cons_self)) fun _ =>
      ih fun e he => h e (List.mem_cons_of_mem _ he)

theorem applyAll_listed {events : List EngineEvent} {x x' : IndexerState} {u : Unit}
    (h : Listed x) (hr : applyAll events x = .ok u x') : Listed x' := by
  induction events generalizing x with
  | nil =>
    cases hr
    exact h
  | cons event events ih =>
    obtain ⟨_, x1, h1, hr⟩ := bind_ok.mp hr
    have hfirst := apply_listed event h
    rw [h1] at hfirst
    exact ih hfirst hr

theorem rotation_opens {market : MarketParams} {envelope : PriceEnvelope} {d : Direction}
    {s s' : SubPool} {es : List EngineEvent} (h : Rotation market envelope d s es s') :
    ∀ e ∈ es, e.opens = none := by
  cases h with
  | none => simp
  | rotated tick y h0 hpos ht hy =>
    intro e he
    obtain rfl := List.mem_singleton.mp he
    rfl

theorem sync_opens {market : MarketParams} {s s' : SubPool} {es : List EngineEvent}
    (h : SyncPart market s es s') : ∀ e ∈ es, e.opens = none := by
  cases h with
  | kept s' hid hs => simp
  | moved _ _ _ _ _ _ _ _ _ _ _ _ _ hlong hshort =>
    intro e he
    rcases List.mem_cons.mp he with rfl | he
    · rfl
    · cases List.mem_append.mp he with
      | inl he => exact rotation_opens hlong e he
      | inr he => exact rotation_opens hshort e he

/-- A position keeps its principal, and its notional while it has active shares. -/
structure SameTerms (p p' : Position) : Prop where
  principal : p'.principal = p.principal
  notional : p'.activeShares ≠ 0 → p.activeShares ≠ 0 ∧ p'.notional = p.notional

theorem migrated_terms {x : Side} {p p1 p2 : Position} (h : Migrated x p p1)
    (hp : p2.principal = p1.principal) (ha : p2.activeShares = p1.activeShares)
    (hn : p2.notional = p1.notional) : SameTerms p p2 := by
  cases h with
  | empty h0 => exact ⟨hp, fun h2 => absurd (ha.trans h0) h2⟩
  | current h0 hg => exact ⟨hp, fun _ => ⟨h0, hn⟩⟩
  | moved r h0 hg hr => exact ⟨hp, fun h2 => absurd ha h2⟩

theorem act_terms {w w' : World} {burns : Option Nat} {es : List EngineEvent} (h' : w'.Inv)
    (ha : Act w burns es w') :
    (∃ ev p, es = [.positionOpened ev] ∧ w'.positions = w.positions.insert ev.positionId p ∧
      ev.principal = p.principal ∧ ev.notional = p.notional) ∨
    (∀ e ∈ es, e.opens = none) ∧ ∀ id p', w'.positions.get? id = some p' →
      ∃ p, w.positions.get? id = some p ∧ SameTerms p p' := by
  have hrefl : ∀ p : Position, SameTerms p p := fun p => ⟨rfl, fun h0 => ⟨h0, rfl⟩⟩
  have hone : ∀ {k : Nat} {p q : Position} {s : SubPool}, w.positions.get? k = some p →
      SameTerms p q → ∀ id p', (w.positions.insert k q).get? id = some p' →
        ∃ p, w.positions.get? id = some p ∧ SameTerms p p' := by
    intro k p q s hk hq id p' hid
    rw [OrdMap.get?_insert] at hid
    split_ifs at hid with hj
    · cases hid
      exact ⟨p, hj ▸ hk, hq⟩
    · exact ⟨p', hid, hrefl p'⟩
  have hfinished : ∀ {k slot : Nat} {p p3 : Position}, Carried p p3 →
      w'.positions.get? k = some (finishPosition p3 slot) →
        SameTerms p (finishPosition p3 slot) := by
    intro k slot p p3 hc hk
    refine ⟨hc.principal, fun h0 => absurd ?_ h0⟩
    exact ((h'.resting k _ hk).closed rfl).1
  cases ha with
  | idle => exact .inr ⟨by simp, fun id p hp => ⟨p, hp, hrefl p⟩⟩
  | opened market s envelope d gross id s' p out sync hk ho =>
    exact .inl ⟨_, p, rfl, rfl, rfl, rfl⟩
  | closed slot k p p1 p2 p3 s2 s3 b v paid r hk hm hact hrec hp =>
    have hc := (lazyMigratePosition_ok hm).carried.trans
      ((redeemActive_carried hact).1.trans (settleRecovery_carried hrec).1)
    refine .inr ⟨fun e he => ?_, hone (s := s3) hk (hfinished hc (OrdMap.get?_insert_self _ _ _))⟩
    obtain rfl := List.mem_singleton.mp he
    rfl
  | forceClosed slot k p p1 p2 p3 s2 s3 s4 b burned removed r hk hm hact hrec hd =>
    have hc := (lazyMigratePosition_ok hm).carried.trans
      ((forfeitActive_carried hact).1.trans (settleRecovery_carried hrec).1)
    refine .inr ⟨fun e he => ?_, hone (s := s4) hk (hfinished hc (OrdMap.get?_insert_self _ _ _))⟩
    obtain rfl := List.mem_singleton.mp he
    rfl
  | claimed slot k p p1 p2 s2 b tick r hk hm h0 hrec =>
    obtain ⟨-, dormant, -, -, -, rfl⟩ := redeemRecovery_ok hrec
    refine .inr ⟨fun e he => ?_, hone (s := s2) hk
      (migrated_terms (lazyMigratePosition_ok hm) rfl rfl rfl)⟩
    obtain rfl := List.mem_singleton.mp he
    rfl
  | harvested d =>
    refine .inr ⟨fun e he => ?_, fun id p hp => ⟨p, hp, hrefl p⟩⟩
    obtain rfl := List.mem_singleton.mp he
    rfl
  | preSynced d tick n dormant ev hsub happ =>
    refine .inr ⟨fun e he => ?_, fun id p hp => ⟨p, hp, hrefl p⟩⟩
    obtain rfl := List.mem_singleton.mp he
    rfl

theorem Termed.act {w w' : World} {burns : Option Nat} {es : List EngineEvent}
    {y y' : IndexerState} (h : Termed w y) (h' : w'.Inv) (ha : Act w burns es w')
    (hr : applyAll es y = .ok () y') : Termed w' y' := by
  cases act_terms h' ha with
  | inl hopen =>
    obtain ⟨ev, p, rfl, hpos, hprincipal, hnotional⟩ := hopen
    have hrun : y' = final (applyOpen ev y) := by
      obtain ⟨u, y1, h1, hr⟩ := bind_ok.mp hr
      cases hr
      rw [show applyOpen ev y = .ok u y' from h1]
      rfl
    obtain ⟨hterms, -, -⟩ := applyOpen_onward ev y
    rw [← hrun] at hterms
    intro id q hq
    rw [hpos, OrdMap.get?_insert] at hq
    rw [hterms]
    split_ifs at hq ⊢ with hid
    · cases hq
      exact ⟨_, _, by rw [hprincipal], fun _ => hnotional⟩
    · exact h id q hq
  | inr hkept =>
    obtain ⟨hopens, hsame⟩ := hkept
    have hterms := ((applyAll_onward hopens).of_ok hr).terms
    intro id p' hp'
    obtain ⟨p, hp, hsame⟩ := hsame id p' hp'
    obtain ⟨sp, n, ht, hn⟩ := h id p hp
    refine ⟨sp, n, ?_, fun h0 => ?_⟩
    · rw [hterms, hsame.principal]
      exact ht
    · obtain ⟨h1, hnotional⟩ := hsame.notional h0
      rw [hnotional]
      exact hn h1

theorem step_termed {w : World} (h : w.Inv) (op : MarketParams × EngineOp) {y y' : IndexerState}
    (ht : Termed w y) (hr : applyAll (EngineOp.step op w).1.events y = .ok () y') :
    Termed (EngineOp.step op w).2 y' := by
  obtain ⟨market, op⟩ := op
  cases hc : op.call market w with
  | none =>
    simp only [EngineOp.step, hc] at hr ⊢
    cases hr
    exact ht
  | some r =>
    cases r with
    | error e =>
      simp only [EngineOp.step, hc] at hr ⊢
      cases hr
      exact ht
    | ok wr =>
      obtain ⟨w', reply⟩ := wr
      simp only [EngineOp.step, hc, Answer.events] at hr ⊢
      obtain ⟨s1, es1, es2, hsync, h1, hact, hev⟩ := op.call_parts h hc
      rw [hev, applyAll_append] at hr
      obtain ⟨u, y1, hy1, hr⟩ := bind_ok.mp hr
      have hterms := ((applyAll_onward (sync_opens hsync)).of_ok hy1).terms
      have hsynced : Termed { w with subPool := s1 } y1 := by
        intro id p hp
        rw [hterms]
        exact ht id p hp
      exact hsynced.act (World.step_inv h hc) hact hr

theorem step_follows {w : World} (h : w.Inv) (op : MarketParams × EngineOp) :
    Replays (Follows w) (EngineOp.step op w).1.events (Follows (EngineOp.step op w).2) := by
  intro y hy
  have hmirrors := step_mirrors h op y hy.mirrored
  refine .intro (fun z u y' hz hr => ?_) (fun z e y' hz hr => hmirrors.error hz hr)
  have hrun := hmirrors.ok hz hr
  rw [hz] at hr
  exact ⟨hrun, step_termed h op hy.termed hr, applyAll_listed hy.listed hr⟩

theorem new_follows (id : Nat) (price : U64) (slot : Nat) : Follows (World.new id price slot) .new
    where
  mirrored := new_mirrored id price slot
  termed := fun id p hp => by cases hp
  listed := fun id sp hid => by cases hid

end Indexer

section Dormant
variable {d : Direction} {x : Side} {ps : Positions} {k : Nat} {p : Position}

theorem sumOn_list {α : Type} (f : α → Position → Nat) (js : List α) (ps : Positions) :
    sumOn d (fun p => (js.map (fun j => f j p)).sum) ps
      = (js.map (fun j => sumOn d (f j) ps)).sum := by
  induction js with
  | nil => exact sumOn_zero fun _ _ _ _ => rfl
  | cons j js ih =>
    simp only [List.map_cons, List.sum_cons]
    rw [sumOn_add, ih]

theorem Attributed.bucket (h : Attributed d x ps) (hk : ps.get? k = some p) (hd : p.direction = d)
    (hok : p.Ok) (h0 : x.dormantOf p ≠ 0) : ∃ t0, x.bucketOf p = some t0 ∧
      ∀ t, x.recoveryAt t p = if t0 = t then x.dormantOf p else 0 := by
  unfold Side.dormantOf Side.bucketOf Side.recoveryAt at *
  by_cases hact : p.activeShares = 0
  · have hrec : p.recoveryShares ≠ 0 := by
      intro hrec
      simp [hact, hrec] at h0
    obtain ⟨t0, ht0⟩ := hok.tick hrec
    refine ⟨t0, by rw [if_pos hact, ht0], fun t => ?_⟩
    simp [ht0, hact]
  · have hrec : p.recoveryShares = 0 := hok.apart.resolve_left hact
    have hgen : p.activeGeneration ≠ x.activeGeneration := by
      intro hgen
      simp [hgen, hrec] at h0
    obtain ⟨r, hr, -⟩ := findRotateRecord_some h (lt_of_le_of_ne (h.older k p hk hd) hgen)
    have hinto : x.rotatedInto p = some r.bucketTick := by
      rw [Side.rotatedInto, if_neg hgen, hr]
      rfl
    refine ⟨r.bucketTick, by rw [if_neg hact, hinto], fun t => ?_⟩
    simp [hinto, hgen, hrec]

theorem Attributed.dormant (h : Attributed d x ps)
    (hrest : ∀ k p, ps.get? k = some p → p.Resting) :
    x.recoveryShares = sumOn d x.dormantOf ps := by
  have hkeys : x.dormant.holdings.total
      = (x.dormant.holdings.keys.map x.dormant.holdings.sharesAt).sum := by
    rw [Holdings.total, OrdMap.sum, OrdMap.keys, List.map_map]
    refine congrArg List.sum (List.map_congr_left fun e he => ?_)
    exact (Holdings.sharesAt_some (OrdMap.get?_eq_some.mpr he)).symm
  rw [h.total, hkeys, funext h.recovery, ← sumOn_list]
  refine sumOn_congr fun k p hk hd => ?_
  by_cases h0 : x.dormantOf p = 0
  · have hnone : ∀ t, x.recoveryAt t p = 0 := by
      intro t
      unfold Side.dormantOf at h0
      unfold Side.recoveryAt Side.rotatedInto
      split_ifs at h0 ⊢ <;> simp_all
    simp [hnone, h0]
  · obtain ⟨t0, -, hat⟩ := h.bucket hk hd (hrest k p hk).toOk h0
    have hmem : t0 ∈ x.dormant.holdings.keys := by
      have hle := le_sumOn (x.recoveryAt t0) hk hd
      rw [← h.recovery, hat, if_pos rfl] at hle
      cases hg : x.dormant.holdings.get? t0 with
      | none =>
        rw [Holdings.sharesAt_none hg] at hle
        omega
      | some b => exact OrdMap.mem_keys.mpr ⟨b, hg⟩
    simp only [hat]
    exact OrdMap.sum_ite_eq x.dormant.holdings.keys_nodup hmem _

end Dormant

/-- The statistics of a side, from the engine. A position counts where it would be after
    migration. -/
structure SideReport (x : Side) (d : Direction) (ps : Positions) (st : DirectionStats) :
    Prop where
  activePositionCount : st.activePositionCount
    = min (sumOn d (fun p => if x.activeOf p ≠ 0 then 1 else 0) ps) (u64Size - 1)
  activePrincipal : st.activePrincipal
    = sumOn d (fun p => if x.activeOf p ≠ 0 then p.principal else 0) ps
  activeNotional : st.activeNotional = x.activeNotional
  dormantPositionCount : st.dormantPositionCount
    = min (sumOn d (fun p => if x.dormantOf p ≠ 0 then 1 else 0) ps) (u64Size - 1)
  dormantRecoveryShares : st.dormantRecoveryShares = x.recoveryShares
  dormantTotalNotional : st.dormantTotalNotional
    = min (x.dormant.buckets.sum (fun _ b => b.totalRecoveryNotional)) (u128Size - 1)
  dormantAccruedValue : st.dormantAccruedValue
    = x.dormant.accruedValueTotal + x.dormant.pendingDistributionTotal
  dormantBucketCount : st.dormantBucketCount = min x.dormant.buckets.size (2 ^ 32 - 1)

namespace Indexer
open IndexerState
variable {w : World} {y : IndexerState} {d : Direction}

theorem Mirrored.totalOfPositions {f : PositionView → Nat} {g : Position → Nat}
    (hx : Mirrored w y)
    (h : ∀ id p pos, w.positions.get? id = some p → y.positions.get? id = some pos →
      p.direction = d → Tracks w.subPool.subPoolId (w.subPool.side d) p pos →
      (if pos.closed = false then f pos else 0) = g p) :
    y.totalOfPositions w.subPool.subPoolId d f = sumOn d g w.positions := by
  refine OrdMap.sum_eq_sum_of (fun id pos hpos => ?_) (fun id p hp => ?_)
  · obtain ⟨p, hp⟩ := hx.known id pos hpos
    obtain ⟨pos', hpos', ht⟩ := hx.found id p hp
    cases hpos.symm.trans hpos'
    refine ⟨p, hp, ?_⟩
    by_cases hd : p.direction = d
    · have hone := h id p pos hp hpos hd (hd ▸ ht)
      rw [if_pos hd, ← hone]
      simp [ht.subPool, ht.direction.trans hd]
    · rw [if_neg hd, if_neg]
      rintro ⟨-, -, hdir⟩
      exact hd (ht.direction.symm.trans hdir)
  · obtain ⟨pos, hpos, -⟩ := hx.found id p hp
    exact ⟨pos, hpos⟩

theorem Mirrored.totalOfBuckets {f : BucketView → Nat} (hx : Mirrored w y) :
    y.totalOfBuckets w.subPool.subPoolId d f
      = (booksOf w.subPool d).sum (fun _ b => f (b.toView d)) := by
  have hentries := hx.entries d
  rw [IndexerState.totalOfBuckets, OrdMap.sum_ite
    (fun e : BucketKey × BucketView => e.1.subPoolId = w.subPool.subPoolId ∧ e.1.direction = d)
    (fun _ v => f v), hentries, List.map_map]
  rfl

section Reports
variable {w : World} {y : IndexerState} {d : Direction} {view : SubPoolView} {st : SubPoolStats}

theorem Mirrored.generation (hx : Mirrored w y)
    (hview : y.subPools.get? w.subPool.subPoolId = some view) (d : Direction) :
    (view.series d).activeGeneration = (w.subPool.side d).activeGeneration := by
  have hseries := hx.series d
  rw [hview] at hseries
  exact hseries

theorem Mirrored.activeTotal (hw : w.Inv) (hx : Mirrored w y) {g : PositionView → Nat}
    {g' : Position → Nat} (hg : ∀ id p pos, w.positions.get? id = some p →
      y.positions.get? id = some pos → (w.subPool.side d).activeOf p ≠ 0 → g pos = g' p) :
    y.totalOfPositions w.subPool.subPoolId d (fun pos =>
        if isActive (w.subPool.side d).activeGeneration pos then g pos else 0)
      = sumOn d (fun p => if (w.subPool.side d).activeOf p ≠ 0 then g' p else 0) w.positions := by
  refine hx.totalOfPositions fun id p pos hp hpos hd ht => ?_
  have hiff : pos.closed = false ∧ isActive (w.subPool.side d).activeGeneration pos
      ↔ (w.subPool.side d).activeOf p ≠ 0 := by
    rw [isActive, ht.active]
    refine ⟨fun h => h.2.1.ne', fun h0 => ⟨?_, Nat.pos_of_ne_zero h0, ?_⟩⟩
    · -- a closed position has no shares
      by_contra hc
      have hclosed := ht.closed.mp (by simpa using hc)
      refine h0 ?_
      rw [Side.activeOf, ((hw.resting id p hp).closed hclosed).1, ite_self]
    · exact ht.generation (ht.active.trans_ne h0)
  by_cases h0 : (w.subPool.side d).activeOf p ≠ 0
  · obtain ⟨hopen, hactive⟩ := hiff.mpr h0
    rw [if_pos hopen, if_pos hactive, if_pos h0]
    exact hg id p pos hp hpos h0
  · rw [if_neg h0]
    split_ifs with hopen hactive
    · exact absurd (hiff.mp ⟨hopen, hactive⟩) h0
    · rfl
    · rfl

theorem Mirrored.dormantTotal (hw : w.Inv) (hx : Mirrored w y) {g : PositionView → Nat}
    {g' : Position → Nat} (hg : ∀ p pos, Tracks w.subPool.subPoolId (w.subPool.side d) p pos →
      g pos = g' p) :
    y.totalOfPositions w.subPool.subPoolId d (fun pos =>
        if 0 < pos.recoveryShares then g pos else 0)
      = sumOn d (fun p => if (w.subPool.side d).dormantOf p ≠ 0 then g' p else 0) w.positions := by
  refine hx.totalOfPositions fun id p pos hp hpos hd ht => ?_
  rw [ht.recovery]
  by_cases h0 : (w.subPool.side d).dormantOf p ≠ 0
  · have hopen : pos.closed = false := by
      by_contra hc
      have hclosed := (hw.resting id p hp).closed (ht.closed.mp (by simpa using hc))
      refine h0 ?_
      rw [Side.dormantOf, hclosed.1, hclosed.2, ite_self]
    rw [if_pos hopen, if_pos (Nat.pos_of_ne_zero h0), if_pos h0]
    exact hg p pos ht
  · simp [not_not.mp h0]

theorem total_none (y : IndexerState) (sp : Nat) (d : Direction) :
    y.totalOfBuckets sp d (fun _ => 0) = 0 := by
  rw [totalOfBuckets, OrdMap.sum_zero_iff]
  intro k v _
  exact ite_self _

theorem total_noPositions (y : IndexerState) (sp : Nat) (d : Direction) :
    y.totalOfPositions sp d (fun _ => 0) = 0 := by
  rw [totalOfPositions, OrdMap.sum_zero_iff]
  intro k v _
  exact ite_self _

theorem sumOn_le_principals (f : Position → Nat) (d : Direction) (ps : Positions) :
    sumOn d (fun p => if f p ≠ 0 then p.principal else 0) ps ≤ principals ps := by
  refine OrdMap.sum_le_sum fun k p _ => ?_
  by_cases hd : p.direction = d
  · rw [if_pos hd]
    dsimp only
    split_ifs <;> omega
  · rw [if_neg hd]
    exact Nat.zero_le _

theorem notionalOf_eq (x : Side) (p : Position) :
    (if x.activeOf p ≠ 0 then p.notional else 0) = x.notionalOf p := by
  unfold Side.activeOf Side.notionalOf
  by_cases hg : p.activeGeneration = x.activeGeneration <;> simp [hg]

theorem Follows.terms (h : Follows w y) {id : Nat} {p : Position} {pos : PositionView}
    (hp : w.positions.get? id = some p) (hpos : y.positions.get? id = some pos) :
    pos.principal = p.principal ∧ (p.activeShares ≠ 0 → pos.notional = p.notional) := by
  obtain ⟨sp, n, ht, hn⟩ := h.termed id p hp
  rw [termsOf_of_get? hpos, PositionView.terms, Option.some.injEq, Prod.mk.injEq,
    Prod.mk.injEq] at ht
  exact ⟨ht.2.1, fun h0 => ht.2.2.trans (hn h0)⟩

theorem Follows.sideReport (hw : w.Inv) (h : Follows w y)
    (hview : y.subPools.get? w.subPool.subPoolId = some view)
    (hst : y.subPoolStats w.subPool.subPoolId = some st) (d : Direction) :
    SideReport (w.subPool.side d) d w.positions (st.side d) := by
  have hx := h.mirrored
  have hgen := hx.generation hview d
  have hside := hw.shared d
  -- one field over the active positions, one over the dormant ones, one over the buckets
  have hactive : ∀ (f : DirectionStats → Nat) (g' : Position → Nat) {size : Nat}
      {g : PositionView → Nat}, Counts size f
        (fun gen pos => if isActive gen pos then g pos else 0) (fun _ => 0) →
          (∀ id p pos, w.positions.get? id = some p →
          y.positions.get? id = some pos → (w.subPool.side d).activeOf p ≠ 0 → g pos = g' p) →
      f (st.side d) = min (sumOn d (fun p => if (w.subPool.side d).activeOf p ≠ 0 then g' p else 0)
        w.positions) (size - 1) := by
    intro f g' size g hc hg
    rw [hc.total hview hst d, hgen, hx.activeTotal hw hg, total_none, Nat.add_zero]
  have hdormant : ∀ (f : DirectionStats → Nat) (g' : Position → Nat) {size : Nat}
      {g : PositionView → Nat}, Counts size f
        (fun _ pos => if 0 < pos.recoveryShares then g pos else 0) (fun _ => 0) →
      (∀ p pos, Tracks w.subPool.subPoolId (w.subPool.side d) p pos → g pos = g' p) →
      f (st.side d) = min (sumOn d (fun p => if (w.subPool.side d).dormantOf p ≠ 0 then g' p else 0)
        w.positions) (size - 1) := by
    intro f g' size g hc hg
    rw [hc.total hview hst d, hx.dormantTotal hw hg, total_none, Nat.add_zero]
  have hbuckets : ∀ (f : DirectionStats → Nat) {size : Nat} {v : BucketView → Nat},
      Counts size f (fun _ _ => 0) v → f (st.side d)
        = min ((booksOf w.subPool d).sum (fun _ b => v (b.toView d))) (size - 1) := by
    intro f size v hc
    rw [hc.total hview hst d, total_noPositions, hx.totalOfBuckets, Nat.zero_add]
  refine ⟨?_, ?_, ?_, ?_, ?_, ?_, ?_, ?_⟩
  · refine hactive (·.activePositionCount) (fun _ => 1)
      (.ofActive rfl (fun _ _ => rfl) (fun _ _ => rfl) fun _ _ => rfl) ?_
    exact fun _ _ _ _ _ _ => rfl
  · rw [hactive (·.activePrincipal) (·.principal)
      (.ofActive rfl (fun _ _ => rfl) (fun _ _ => rfl) fun _ _ => rfl) ?_]
    · have hle := sumOn_le_principals (w.subPool.side d).activeOf d w.positions
      have hlt := hw.principals_lt
      exact min_eq_left (by omega)
    · intro id p pos hp hpos h0
      exact (h.terms hp hpos).1
  · rw [hactive (·.activeNotional) (·.notional)
      (.ofActive rfl (fun _ _ => rfl) (fun _ _ => rfl) fun _ _ => rfl) ?_]
    · have hsum : sumOn d (fun p => if (w.subPool.side d).activeOf p ≠ 0 then p.notional else 0)
          w.positions = (w.subPool.side d).activeNotional := by
        rw [hside.notional]
        exact sumOn_congr fun id p hp hd => notionalOf_eq _ p
      have hlt := hside.notional_lt
      rw [hsum]
      exact min_eq_left (by omega)
    · intro id p pos hp hpos h0
      refine (h.terms hp hpos).2 ?_
      rintro hzero
      exact h0 (by rw [Side.activeOf, hzero, ite_self])
  · refine hdormant (·.dormantPositionCount) (fun _ => 1)
      (.ofDormant rfl (fun _ _ => rfl) (fun _ _ => rfl) fun _ _ => rfl) ?_
    exact fun _ _ _ => rfl
  · rw [hdormant (·.dormantRecoveryShares) (w.subPool.side d).dormantOf
      (.ofDormant rfl (fun _ _ => rfl) (fun _ _ => rfl) fun _ _ => rfl) fun _ _ ht => ht.recovery]
    have hsum : sumOn d (fun p => if (w.subPool.side d).dormantOf p ≠ 0
        then (w.subPool.side d).dormantOf p else 0) w.positions
          = (w.subPool.side d).recoveryShares := by
      rw [hside.dormant hw.resting]
      refine sumOn_congr fun id p hp hd => ?_
      split_ifs with h0
      · rfl
      · exact (not_not.mp h0).symm
    have hlt := hside.total_lt
    rw [hsum]
    exact min_eq_left (by omega)
  · rw [hbuckets (·.dormantTotalNotional)
      (.ofBuckets rfl (fun _ _ => rfl) (fun _ _ => rfl) fun _ _ => rfl), booksOf,
      DormantStore.view, OrdMap.sum_mapVal]
    rfl
  · rw [hbuckets (·.dormantAccruedValue)
      (.ofBuckets rfl (fun _ _ => rfl) (fun _ _ => rfl) fun _ _ => rfl)]
    have hfunds : (booksOf w.subPool d).sum (fun _ b => (b.toView d).accruedValue)
        = (w.subPool.side d).dormant.accruedValueTotal
          + (w.subPool.side d).dormant.pendingDistributionTotal := (hw.sound d).1.book_funds
    have hlt : (w.subPool.side d).dormant.accruedValueTotal
        + (w.subPool.side d).dormant.pendingDistributionTotal < u128Size :=
      bounded_of_value hw.value_lt d
    rw [hfunds]
    exact min_eq_left (by omega)
  · rw [hbuckets (·.dormantBucketCount)
      (.ofBuckets rfl (fun _ _ => rfl) (fun _ _ => rfl) fun _ _ => rfl), OrdMap.size_eq_sum,
      booksOf, DormantStore.view, OrdMap.sum_mapVal]

end Reports

structure Shows (s : SubPool) (d : Direction) (e : Int × DormantBucket)
    (snap : DormantBucketSnapshot) : Prop where
  subPoolId : snap.subPoolId = s.subPoolId
  direction : snap.direction = d
  bucketTick : snap.bucketTick = e.1
  anchorPrice : snap.anchorPrice = e.2.anchorPrice
  shares : snap.totalRecoveryShares = e.2.totalRecoveryShares
  notional : snap.totalRecoveryNotional = e.2.totalRecoveryNotional
  accrued : ∃ pending, (s.side d).dormant.pendingForBucket e.1 = .ok pending ∧
    snap.accruedValue = e.2.accruedValue + pending

def shelf (s : SubPool) (d : Direction) : List DormantBucketSnapshot :=
  (booksOf s d).entries.map (fun e => bucketSnapshot (bucketKey s.subPoolId d e.1, e.2.toView d))

theorem shelf_shows {s : SubPool} (hs : s.Sound) (d : Direction) :
    List.Forall₂ (Shows s d) (s.side d).dormant.buckets.entries (shelf s d) := by
  unfold shelf booksOf DormantStore.view OrdMap.mapVal
  rw [List.map_map, List.forall₂_map_right_iff, List.forall₂_same]
  intro e he
  have hpending := DormantStore.pendingForBucket_eq (hs d).1 (OrdMap.get?_eq_some.mpr he)
  exact ⟨rfl, rfl, rfl, rfl, rfl, rfl, _, hpending, rfl⟩

theorem shelf_pairwise (s : SubPool) (d : Direction) :
    (shelf s d).Pairwise (fun a b => snapshotLe a b = true) := by
  refine List.pairwise_map.mpr ((booksOf s d).sorted.imp fun hlt => ?_)
  exact decide_eq_true (.inr ⟨rfl, hlt.le⟩)

theorem long_lt_short : Direction.long < Direction.short := by decide

section Inventory
variable {w : World} {y : IndexerState} {inv : List DormantBucketSnapshot}

theorem Mirrored.allEntries (hx : Mirrored w y) :
    y.buckets.entries.filter (fun e => e.1.subPoolId = w.subPool.subPoolId)
      = (booksOf w.subPool .long).entries.map
          (fun e => (bucketKey w.subPool.subPoolId .long e.1, e.2.toView .long))
        ++ (booksOf w.subPool .short).entries.map
          (fun e => (bucketKey w.subPool.subPoolId .short e.1, e.2.toView .short)) := by
  apply OrdMap.entries_ext
  · exact y.buckets.sorted.filter _
  · refine List.pairwise_append.mpr ⟨?_, ?_, ?_⟩
    · exact List.pairwise_map.mpr ((booksOf w.subPool .long).sorted.imp bucketKey_lt)
    · exact List.pairwise_map.mpr ((booksOf w.subPool .short).sorted.imp bucketKey_lt)
    · intro a ha b hb
      obtain ⟨e, -, rfl⟩ := List.mem_map.mp ha
      obtain ⟨e', -, rfl⟩ := List.mem_map.mp hb
      exact Prod.Lex.toLex_lt_toLex.mpr
        (.inr ⟨rfl, Prod.Lex.toLex_lt_toLex.mpr (.inl long_lt_short)⟩)
  · intro e
    rw [← hx.entries .long, ← hx.entries .short]
    simp only [List.mem_append, List.mem_filter, decide_eq_true_eq]
    cases e.1.direction <;> simp

theorem Mirrored.inventory (hx : Mirrored w y)
    (h : y.dormantInventory w.subPool.subPoolId = some inv) :
    inv = shelf w.subPool .long ++ shelf w.subPool .short := by
  unfold dormantInventory at h
  split_ifs at h with hin
  cases h
  have hlist : (y.buckets.entries.filter (fun e => e.1.subPoolId = w.subPool.subPoolId)).map
      bucketSnapshot = shelf w.subPool .long ++ shelf w.subPool .short := by
    rw [hx.allEntries, List.map_append, List.map_map, List.map_map]
    rfl
  rw [hlist]
  refine List.mergeSort_of_pairwise (List.pairwise_append.mpr ⟨?_, ?_, ?_⟩)
  · exact shelf_pairwise w.subPool .long
  · exact shelf_pairwise w.subPool .short
  · intro a ha b hb
    obtain ⟨e, -, rfl⟩ := List.mem_map.mp ha
    obtain ⟨e', -, rfl⟩ := List.mem_map.mp hb
    rfl

end Inventory

def SameMath (a : Except ClearingError Nat) (b : Except IndexerError Nat) : Prop :=
  ∃ e, a = math e ∧ b = orIndexer e

theorem SameMath.ok (n : Nat) : SameMath (.ok n) (.ok n) := ⟨.ok n, rfl, rfl⟩

theorem SameMath.of (e : Except MathError Nat) : SameMath (math e) (orIndexer e) := ⟨e, rfl, rfl⟩

theorem SameMath.bind {a : Except ClearingError Nat} {b : Except IndexerError Nat}
    {f : Nat → Except ClearingError Nat} {g : Nat → Except IndexerError Nat} (h : SameMath a b)
    (hf : ∀ n, SameMath (f n) (g n)) : SameMath (a >>= f) (b >>= g) := by
  obtain ⟨e, rfl, rfl⟩ := h
  cases e with
  | ok n => exact hf n
  | error e => exact ⟨.error e, rfl, rfl⟩

theorem intrinsicAt_same {d : Direction} {b : DormantBucket} (hd : b.direction = d) (p : Nat) :
    SameMath (b.intrinsicClaimAt p) ((b.toView d).intrinsicAt p) := by
  have hdir : (b.toView d).direction = b.direction := hd.symm
  have hanchor : (b.toView d).anchorPrice = b.anchorPrice := rfl
  have hnotional : (b.toView d).totalRecoveryNotional = b.totalRecoveryNotional := rfl
  unfold DormantBucket.intrinsicClaimAt computeIntrinsic BucketView.intrinsicAt
  rw [hdir, hanchor, hnotional]
  by_cases h0 : b.anchorPrice = 0 ∨ b.totalRecoveryNotional = 0
  · rw [if_pos h0, if_pos h0]
    exact .ok 0
  rw [if_neg h0, if_neg h0]
  cases b.direction with
  | long =>
    by_cases hp : p ≤ b.anchorPrice
    · simp only [if_pos hp]
      exact .ok 0
    · simp only [if_neg hp]
      exact .of _
  | short =>
    by_cases hp : b.anchorPrice ≤ p
    · simp only [if_pos hp]
      exact .ok 0
    · simp only [if_neg hp]
      exact .of _

theorem outstandingAt_same {d : Direction} {b : DormantBucket} (hd : b.direction = d) (p : Nat) :
    SameMath (b.outstandingClaimAt p) ((b.toView d).outstandingAt p) :=
  (intrinsicAt_same hd p).bind fun i => .ok (i - b.accruedValue)

theorem sumProjected_same {sp p : Nat} {d : Direction} {buckets : BucketMap}
    {es : List (Int × DormantBucket)}
    (hes : ∀ e ∈ es, buckets.get? e.1 = some e.2 ∧ e.2.direction = d) (total : Nat) :
    SameMath (sumOutstanding buckets p total
        ((es.filter (fun e => activated d p e.2.anchorPrice)).map Prod.fst))
      (sumProjected sp d p total (es.map (fun e => (bucketKey sp d e.1, e.2.toView d)))) := by
  induction es generalizing total with
  | nil => exact .ok total
  | cons e es ih =>
    obtain ⟨hget, hdir⟩ := hes e List.mem_cons_self
    have ih' := ih fun e' he' => hes e' (List.mem_cons_of_mem _ he')
    have hmine : ¬ ((bucketKey sp d e.1).subPoolId ≠ sp ∨ (bucketKey sp d e.1).direction ≠ d) := by
      simp
    rw [List.map_cons, sumProjected, if_neg hmine]
    by_cases hact : activated d p e.2.anchorPrice = true
    · have hact' : activated d p (e.2.toView d).anchorPrice = true := hact
      rw [if_pos hact', List.filter_cons_of_pos (by simpa using hact), List.map_cons,
        sumOutstanding]
      unfold addOutstanding
      simp only [hget]
      rw [bind_assoc]
      exact (outstandingAt_same hdir p).bind fun o => (SameMath.of _).bind fun t => ih' t
    · have hact' : ¬ activated d p (e.2.toView d).anchorPrice = true := hact
      rw [if_neg hact', List.filter_cons_of_neg (by simpa using hact)]
      exact ih' total

theorem Mirrored.projected {w : World} {y : IndexerState} (hw : w.Inv) (hx : Mirrored w y)
    (d : Direction) (p : Nat) :
    SameMath ((w.subPool.side d).dormant.book.totalOutstanding p)
      (y.projectedRecoveryOutstanding w.subPool.subPoolId d p) := by
  have hskip : ∀ e : BucketKey × BucketView,
      decide (e.1.subPoolId = w.subPool.subPoolId ∧ e.1.direction = d) = false →
        e.1.subPoolId ≠ w.subPool.subPoolId ∨ e.1.direction ≠ d :=
    fun e he => not_and_or.mp (of_decide_eq_false he)
  have hbook : (w.subPool.side d).dormant.book.totalOutstanding p
      = sumOutstanding (booksOf w.subPool d) p 0
          (((booksOf w.subPool d).entries.filter (fun e => activated d p e.2.anchorPrice)).map
            Prod.fst) := by
    rw [Book.totalOutstanding, DormantStore.book, activatedKeys, (hw.sound d).2]
    rfl
  rw [projectedRecoveryOutstanding, ← sumProjected_filter hskip, hx.entries d, hbook]
  refine sumProjected_same (fun e he => ⟨OrdMap.get?_eq_some.mpr he, ?_⟩) 0
  obtain ⟨e0, he0, rfl⟩ := List.mem_map.mp he
  have hok := (hw.sound d).1.bucketOk e0.1 e0.2 (OrdMap.get?_eq_some.mpr he0)
  exact hok.direction_eq.trans (hw.sound d).2

/-- What is asked at a price is answered from buckets that are up to date. -/
theorem Mirrored.claimsAt {w : World} {y : IndexerState} (hw : w.Inv) (hx : Mirrored w y)
    (d : Direction) (p : Nat) :
    ∃ n s', DormantStore.applyPendingToAll (w.subPool.side d).dormant = .ok n s' ∧
      SameMath (s'.totalOutstandingClaimAt p)
        (y.projectedRecoveryOutstanding w.subPool.subPoolId d p) := by
  have hbounded := bounded_of_value hw.value_lt d
  cases DormantStore.applyPendingToAll_cases (hw.sound d).1 with
  | inr h => exact absurd hbounded h.2
  | inl h =>
    obtain ⟨n, s', hrun, hu, hc⟩ := h
    refine ⟨n, s', hrun, ?_⟩
    have hkeys : activatedKeys s'.direction s'.view p = activatedKeys s'.direction s'.buckets p :=
      activatedKeys_mapVal _ s'.buckets p (fun _ _ => rfl)
    have hbook : s'.totalOutstandingClaimAt p
        = (w.subPool.side d).dormant.book.totalOutstanding p := by
      rw [← hu.book_eq, DormantStore.totalOutstandingClaimAt,
        DormantStore.sumOutstanding_view (DormantStore.CaughtUp.all_settled hu.inv fun k _ => hc k),
        ← hkeys]
      rfl
    rw [hbook]
    exact hx.projected hw d p

structure Reports (w : World) (x : IndexerState) : Prop where
  known : w.positions ≠ .empty → (x.subPoolStats w.subPool.subPoolId).isSome
  stats : ∀ st, x.subPoolStats w.subPool.subPoolId = some st →
    st.subPoolId = w.subPool.subPoolId ∧ ∀ d,
      st.generation d = (w.subPool.side d).activeGeneration ∧
      SideReport (w.subPool.side d) d w.positions (st.side d)
  inventory : ∀ inv, x.dormantInventory w.subPool.subPoolId = some inv →
    ∃ long short, inv = long ++ short ∧
      List.Forall₂ (Shows w.subPool .long) w.subPool.long.dormant.buckets.entries long ∧
      List.Forall₂ (Shows w.subPool .short) w.subPool.short.dormant.buckets.entries short
  claims : ∀ d p, ∃ n s',
    DormantStore.applyPendingToAll (w.subPool.side d).dormant = .ok n s' ∧
      SameMath (s'.totalOutstandingClaimAt p)
        (x.projectedRecoveryOutstanding w.subPool.subPoolId d p)

theorem Follows.reports {w : World} {x : IndexerState} (hw : w.Inv)
    (h : Follows w (x.only w.subPool.subPoolId)) : Reports w x where
  known hne := by
    obtain ⟨id, p, hp⟩ : ∃ id p, w.positions.get? id = some p := by
      by_contra hno
      refine hne (OrdMap.ext_get? fun id => ?_)
      cases hp : w.positions.get? id with
      | none => rfl
      | some p => exact absurd ⟨id, p, hp⟩ hno
    obtain ⟨pos, hpos, ht⟩ := h.mirrored.found id p hp
    have hview := h.listed id _ (owner_of_get? hpos)
    rw [ht.subPool] at hview
    rw [← subPoolStats_only, subPoolStats, Option.isSome_map]
    exact hview
  stats st hst := by
    rw [← subPoolStats_only] at hst
    obtain ⟨view, hview, hid, hgen⟩ := subPoolStats_head hst
    refine ⟨hid, fun d => ⟨?_, h.sideReport hw hview hst d⟩⟩
    rw [hgen, h.mirrored.generation hview]
  inventory inv hinv := by
    rw [← dormantInventory_only] at hinv
    exact ⟨_, _, h.mirrored.inventory hinv, shelf_shows hw.sound .long,
      shelf_shows hw.sound .short⟩
  claims d p := by
    rw [← projected_only]
    exact h.mirrored.claimsAt hw d p

end Indexer
end MoleFinance
