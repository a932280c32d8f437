import MoleFinance.Engine.Accounting
import MoleFinance.Engine.Totality
import MoleFinance.Indexer.Mirror
import MoleFinance.Simulation.Settlement

/-! One trader on each side, with the same notional: what a sync does to the pool, what the
indexer makes of its events, and what the oracle settles. -/
namespace MoleFinance
open MoleMath Call

namespace Simulation
variable {market : MarketParams} {s s' : SubPool} {envelope : PriceEnvelope} {n : Nat}

theorem signedPnlIncrement_pair {pLast pNow : Nat} {a : Int}
    (h : signedPnlIncrement Direction.long.sign n pLast pNow = .ok a) :
    ∃ (w : Direction) (x : Nat), x < i128Bound ∧
      signedPnlIncrement w.sign n pLast pNow = .ok x ∧
      signedPnlIncrement w.opposite.sign n pLast pNow = .ok (-x) := by
  unfold signedPnlIncrement at h ⊢
  obtain ⟨_, hp, h⟩ := except_bind_ok.mp h
  obtain ⟨x, hx, h⟩ := except_bind_ok.mp h
  obtain ⟨_, hfit, h⟩ := except_bind_ok.mp h
  refine ⟨if pLast ≤ pNow then .long else .short, x, ensure_ok.mp hfit, ?_⟩
  simp only [ensure_of (ensure_ok.mp hp), ok_bind, hx, ensure_of (ensure_ok.mp hfit)]
  by_cases hle : pLast ≤ pNow
  · simp only [if_pos hle, Direction.opposite, Direction.sign]
    by_cases h0 : x = 0 <;> simp [h0, pure, Except.pure]
  · simp only [if_neg hle, Direction.opposite, Direction.sign]
    by_cases h0 : x = 0 <;> simp [h0, pure, Except.pure]

/-- A side with one trader and without a claim of rotated shares. -/
structure Pooled (n : Nat) (x : Side) : Prop where
  shares : x.activeShares ≠ 0
  sharesFit : x.activeShares < u128Size
  notional : x.activeNotional = n
  quiet : ∀ p, x.dormant.totalOutstandingClaimAt p = .ok 0

/-- What a sync moves to a side when `w` wins `x`. -/
def inflowOf (w : Direction) (x : Nat) (d : Direction) : Inflow :=
  if d = w ∧ x ≠ 0 then ⟨x, 0, 0⟩ else .zero

theorem transferTo_paired {w : Direction} {x : Nat} {inflow : Inflow} {pNow : Nat}
    (hx : x ≠ 0) (hfit : x < u128Size) (hcov : x < (s.side w.opposite).poolEquity)
    (h : transferTo market s pNow w ⟨x, x⟩ = .ok (s', inflow)) :
    (s.side w).poolEquity + x < u128Size ∧ inflow = ⟨x, 0, 0⟩ ∧
      s' = (s.setSide w { s.side w with poolEquity := (s.side w).poolEquity + x }).setSide
        w.opposite { s.side w.opposite with
          poolEquity := (s.side w.opposite).poolEquity - x } := by
  have hmin : min x (s.side w.opposite).poolEquity = x := by omega
  simp only [transferTo, hmin, if_neg hx] at h
  rw [mulDivFloor_self hfit (Nat.pos_of_ne_zero hx) hfit] at h
  obtain ⟨toActive, hact, h⟩ := except_bind_ok.mp h
  obtain ⟨toRecovery, hrec, h⟩ := except_bind_ok.mp h
  obtain ⟨equity, heq, h⟩ := except_bind_ok.mp h
  obtain ⟨loserEquity, hloser, h⟩ := except_bind_ok.mp h
  obtain rfl : x = toActive := Except.ok.inj (math_ok.mp hact)
  obtain ⟨-, rfl⟩ := checkedSub_ok.mp (math_ok.mp hrec)
  obtain ⟨hfits, rfl⟩ := checkedAdd_ok.mp (math_ok.mp heq)
  obtain ⟨-, rfl⟩ := checkedSub_ok.mp (math_ok.mp hloser)
  simp only [transferToRecovery, Nat.sub_self, if_true] at h
  cases h
  exact ⟨hfits, rfl, rfl⟩

theorem settleDemands_paired {w : Direction} {x : Nat} {pNow : Nat} {a b : Int}
    {long short : Inflow} (hfit : x < u128Size)
    (hcov : x < (s.side w.opposite).poolEquity) (hpool : (s.side w).poolEquity < u128Size)
    (hab : (w = .long ∧ a = x ∧ b = -x) ∨ (w = .short ∧ b = x ∧ a = -x))
    (h : settleDemands market s pNow (⟨a.toNat, a.toNat⟩, ⟨b.toNat, b.toNat⟩)
      = .ok (s', long, short)) :
    (s.side w).poolEquity + x < u128Size ∧ long = inflowOf w x .long ∧
      short = inflowOf w x .short ∧
      s' = (s.setSide w { s.side w with poolEquity := (s.side w).poolEquity + x }).setSide
        w.opposite { s.side w.opposite with
          poolEquity := (s.side w.opposite).poolEquity - x } := by
  by_cases hx : x = 0
  · subst hx
    have hzero : a.toNat = 0 ∧ b.toNat = 0 := by
      constructor <;> omega
    simp only [settleDemands, hzero.1, hzero.2, Nat.lt_irrefl, if_false] at h
    cases h
    refine ⟨hpool, by simp [inflowOf], by simp [inflowOf], ?_⟩
    cases w <;> rfl
  have hpos : 0 < x := Nat.pos_of_ne_zero hx
  cases hab with
  | inl hab =>
    obtain ⟨rfl, rfl, rfl⟩ := hab
    rw [settleDemands] at h
    simp only [Int.toNat_natCast, if_pos hpos] at h
    obtain ⟨⟨s1, inflow⟩, htransfer, h⟩ := except_bind_ok.mp h
    obtain ⟨hfits, rfl, rfl⟩ := transferTo_paired hx hfit hcov htransfer
    cases h
    exact ⟨hfits, by simp [inflowOf, hx], by simp [inflowOf], rfl⟩
  | inr hab =>
    obtain ⟨rfl, rfl, rfl⟩ := hab
    rw [settleDemands] at h
    have hlong : ¬0 < (-(x : Int)).toNat := by omega
    simp only [Int.toNat_natCast, if_neg hlong, if_pos hpos] at h
    obtain ⟨⟨s1, inflow⟩, htransfer, h⟩ := except_bind_ok.mp h
    obtain ⟨hfits, rfl, rfl⟩ := transferTo_paired hx hfit hcov htransfer
    cases h
    exact ⟨hfits, by simp [inflowOf], by simp [inflowOf, hx], rfl⟩

theorem syncDemands_paired {pNow : Nat} {demands : Demand × Demand}
    (hpool : ∀ d, Pooled n (s.side d)) (h : syncDemands s pNow = .ok demands) :
    ∃ a b, signedPnlIncrement Direction.long.sign n s.lastPrice pNow = .ok a ∧
      signedPnlIncrement Direction.short.sign n s.lastPrice pNow = .ok b ∧
      demands = (⟨a.toNat, a.toNat⟩, ⟨b.toNat, b.toNat⟩) := by
  have hlong := hpool .long
  have hshort := hpool .short
  simp only [SubPool.side] at hlong hshort
  rw [syncDemands] at h
  simp only [hlong.quiet, hshort.quiet, hlong.notional, hshort.notional, ok_bind,
    Nat.sub_self] at h
  obtain ⟨a, ha, h⟩ := except_bind_ok.mp h
  obtain ⟨b, hb, h⟩ := except_bind_ok.mp h
  obtain ⟨longTotal, hlt, h⟩ := except_bind_ok.mp h
  obtain ⟨shortTotal, hst, h⟩ := except_bind_ok.mp h
  obtain ⟨-, rfl⟩ := checkedAdd_ok.mp (math_ok.mp hlt)
  obtain ⟨-, rfl⟩ := checkedAdd_ok.mp (math_ok.mp hst)
  cases h
  exact ⟨a, b, math_ok.mp ha, math_ok.mp hb, rfl⟩

theorem rotateIfDrained_full {d : Direction} {ev : Option ActiveRotatedToRecoveryEvent}
    (hne : (s.side d).poolEquity ≠ 0) (h : rotateIfDrained market s envelope d = .ok (s', ev)) :
    s' = s ∧ ev = none := by
  rw [rotateIfDrained, if_neg fun hc => hne hc.1] at h
  cases h
  exact ⟨rfl, rfl⟩

/-- What a sync does that moves the price: `w` wins `x` from the other side. -/
structure Swung (s : SubPool) (envelope : PriceEnvelope) (w : Direction) (x : Nat)
    (s' : SubPool) (out : SyncOutcome) : Prop where
  fits : (s.side w).poolEquity + x < u128Size
  state : s' = ((s.setSide w { s.side w with poolEquity := (s.side w).poolEquity + x }).setSide
    w.opposite { s.side w.opposite with
      poolEquity := (s.side w.opposite).poolEquity - x }).atPrice envelope
  events : (x = 0 ∧ out.events = []) ∨ out.events
    = [.poolSync (poolSyncEvent s envelope (inflowOf w x .long) (inflowOf w x .short))]

theorem movePrice_paired {out : SyncOutcome} (hpool : ∀ d, Pooled n (s.side d))
    (hfits : ∀ d, (s.side d).poolEquity < u128Size) (hne : ∀ d, (s.side d).poolEquity ≠ 0)
    (hcov : ∀ (d : Direction) (x : Nat),
      signedPnlIncrement d.sign n s.lastPrice envelope.pNow = .ok (-x) →
        x < (s.side d).poolEquity)
    (h : movePrice market s envelope = .ok (s', out)) :
    ∃ (w : Direction) (x : Nat), x < i128Bound ∧
      signedPnlIncrement w.sign n s.lastPrice envelope.pNow = .ok x ∧
      signedPnlIncrement w.opposite.sign n s.lastPrice envelope.pNow = .ok (-x) ∧
      Swung s envelope w x s' out := by
  obtain ⟨_, -, h⟩ := except_bind_ok.mp h
  obtain ⟨_, -, h⟩ := except_bind_ok.mp h
  obtain ⟨demands, hdem, h⟩ := except_bind_ok.mp h
  obtain ⟨⟨s1, long, short⟩, hset, h⟩ := except_bind_ok.mp h
  obtain ⟨⟨s2, lr⟩, hl, h⟩ := except_bind_ok.mp h
  obtain ⟨⟨s3, sr⟩, hsh, h⟩ := except_bind_ok.mp h
  obtain ⟨_, -, h⟩ := except_bind_ok.mp h
  obtain ⟨a, b, ha, hb, rfl⟩ := syncDemands_paired hpool hdem
  obtain ⟨w, x, hx, hw, hl'⟩ := signedPnlIncrement_pair ha
  have hx128 : x < u128Size := i128_lt hx
  have hab : (w = .long ∧ a = x ∧ b = -x) ∨ (w = .short ∧ b = x ∧ a = -x) := by
    cases w with
    | long =>
      exact Or.inl ⟨rfl, Except.ok.inj (ha.symm.trans hw), Except.ok.inj (hb.symm.trans hl')⟩
    | short =>
      exact Or.inr ⟨rfl, Except.ok.inj (hb.symm.trans hw), Except.ok.inj (ha.symm.trans hl')⟩
  have hlt := hcov w.opposite x hl'
  obtain ⟨hfit, rfl, rfl, rfl⟩ := settleDemands_paired hx128 hlt (hfits w) hab hset
  have hfull : ∀ d, ((((s.setSide w { s.side w with
      poolEquity := (s.side w).poolEquity + x }).setSide w.opposite { s.side w.opposite with
        poolEquity := (s.side w.opposite).poolEquity - x }).atPrice envelope).side d).poolEquity
      ≠ 0 := by
    intro d
    rw [SubPool.side_atPrice]
    by_cases hd : d = w
    · subst hd
      rw [SubPool.side_setSide_both]
      have := hne d
      dsimp only
      omega
    · obtain rfl := Direction.ne_iff.mp hd
      rw [SubPool.side_setSide]
      dsimp only
      omega
  obtain ⟨rfl, rfl⟩ := rotateIfDrained_full (hfull .long) hl
  obtain ⟨rfl, rfl⟩ := rotateIfDrained_full (hfull .short) hsh
  cases h
  exact ⟨w, x, hx, hw, hl', hfit, rfl, Or.inr rfl⟩

theorem signedPnlIncrement_still {p : Nat} (sign : Int) (h : p ≠ 0) :
    signedPnlIncrement sign n p p = .ok 0 := by
  unfold signedPnlIncrement
  simp only [ensure_of h, ok_bind, le_refl, if_true, Nat.sub_self,
    mulDivFloor_zero_right (Nat.pos_of_ne_zero h)]
  rw [ensure_of (by decide), ok_bind, if_pos (Or.inr trivial)]
  rfl

theorem syncPool_paired {out : SyncOutcome} (h0 : s.lastPrice ≠ 0)
    (hpool : ∀ d, Pooled n (s.side d)) (hfits : ∀ d, (s.side d).poolEquity < u128Size)
    (hne : ∀ d, (s.side d).poolEquity ≠ 0)
    (hcov : ∀ (d : Direction) (x : Nat),
      signedPnlIncrement d.sign n s.lastPrice envelope.pNow = .ok (-x) →
        x < (s.side d).poolEquity)
    (h : syncPool market s envelope = .ok (s', out)) :
    envelope.pNow ≠ 0 ∧ ∃ (w : Direction) (x : Nat), x < i128Bound ∧
      signedPnlIncrement w.sign n s.lastPrice envelope.pNow = .ok x ∧
      signedPnlIncrement w.opposite.sign n s.lastPrice envelope.pNow = .ok (-x) ∧
      Swung s envelope w x s' out := by
  obtain ⟨_, hguards, h⟩ := except_bind_ok.mp h
  obtain ⟨_, -, hguards⟩ := except_bind_ok.mp hguards
  obtain ⟨_, -, hguards⟩ := except_bind_ok.mp hguards
  obtain ⟨_, hprice, -⟩ := except_bind_ok.mp hguards
  refine ⟨ensure_ok.mp hprice, ?_⟩
  rw [if_neg h0] at h
  by_cases hp : envelope.pNow = s.lastPrice
  · rw [if_pos hp] at h
    obtain ⟨_, -, h⟩ := except_bind_ok.mp h
    cases h
    rw [hp]
    refine ⟨.long, 0, by decide, signedPnlIncrement_still _ h0, signedPnlIncrement_still _ h0,
      hfits .long, ?_, Or.inl ⟨rfl, rfl⟩⟩
    simp [SubPool.atPrice, SubPool.setSide, SubPool.side, Direction.opposite, hp]
  · rw [if_neg hp] at h
    exact movePrice_paired hpool hfits hne hcov h

section Indexer
open Indexer
variable {y y' : IndexerState} {v v' : PositionView}

theorem forPositions_only {selects : PositionView → Bool}
    {f : PositionView → Except IndexerError PositionView} {id : Nat}
    (hid : y.positions.get? id = some v) (hsel : selects v = true)
    (honly : ∀ i u, y.positions.get? i = some u → selects u = true → i = id)
    (hf : f v = .ok v') : forPositions selects f y
      = .ok () { y with positions := y.positions.insert id v' } := by
  have hmem : (id, v) ∈ y.positions.entries.filter (fun e => selects e.2) :=
    List.mem_filter.mpr ⟨OrdMap.get?_eq_some.mp hid, hsel⟩
  have hkeys : ∀ e ∈ y.positions.entries.filter (fun e => selects e.2), e.1 = id := by
    intro e he
    obtain ⟨he, hs⟩ := List.mem_filter.mp he
    exact honly e.1 e.2 (OrdMap.get?_eq_some.mpr he) hs
  have hnodup := selected_nodup y selects
  rw [forPositions, get_bind]
  generalize y.positions.entries.filter (fun e => selects e.2) = es at hmem hkeys hnodup
  cases es with
  | nil => cases hmem
  | cons e rest =>
    have hrest : rest = [] := by
      cases rest with
      | nil => rfl
      | cons e' rest =>
        have hsame : e.1 = e'.1 := (hkeys e List.mem_cons_self).trans
          (hkeys e' (List.mem_cons_of_mem _ List.mem_cons_self)).symm
        have := (List.nodup_cons.mp hnodup).1
        rw [hsame] at this
        exact absurd List.mem_cons_self this
    subst hrest
    obtain rfl := List.mem_singleton.mp hmem
    rw [updateEach_cons hf]
    rfl

theorem gain_all {x : Nat} (h0 : v.activeShares ≠ 0) (hs : v.activeShares < u128Size)
    (hx : x < u128Size) (hfit : v.realizedProfitBalance + x < u128Size) :
    gain x v.activeShares v.activeShares v
      = .ok { v with realizedProfitBalance := v.realizedProfitBalance + x } := by
  rw [gain, mulDivFloor_self hs (Nat.pos_of_ne_zero h0) hx, orIndexer_ok, ok_bind,
    checkedAdd_ok.mpr ⟨hfit, rfl⟩]
  rfl

theorem lose_all {x : Nat} (h0 : v.activeShares ≠ 0) (hs : v.activeShares < u128Size)
    (hx : x < u128Size) (hl : v.lockedLoss ≤ v.principal) (hp : v.principal < u64Size) :
    lose x v.activeShares v = .ok { v with
      realizedProfitBalance := v.realizedProfitBalance - x
      lockedLoss := v.lockedLoss + min (x - v.realizedProfitBalance) v.remainingMargin } := by
  have hlock : ∀ m, v.lockedLoss + min m v.remainingMargin < u128Size := by
    intro m
    unfold u64Size at hp
    simp only [PositionView.remainingMargin]
    unfold u128Size
    omega
  have hbal : v.realizedProfitBalance - min v.realizedProfitBalance x
      = v.realizedProfitBalance - x := by omega
  have hinc : x - min v.realizedProfitBalance x = x - v.realizedProfitBalance := by omega
  rw [lose, mulDivFloor_self hs (Nat.pos_of_ne_zero h0) hx, orIndexer_ok, ok_bind]
  simp only [checkedSub_ok.mpr ⟨Nat.min_le_left _ _, rfl⟩,
    checkedSub_ok.mpr ⟨Nat.min_le_right v.realizedProfitBalance _, rfl⟩, orIndexer_ok, ok_bind,
    checkedAdd_ok.mpr ⟨hlock _, rfl⟩, hbal, hinc]
  rfl

/-- The one active holder of a side, and the records of its sub-pool. -/
structure Holder (sp : Nat) (d : Direction) (id shares : Nat) (y : IndexerState)
    (v : PositionView) : Prop where
  pool : y.subPools.get? sp = some .default
  only : ∀ i u, y.positions.get? i = some u → u.direction = d → i = id
  get : y.positions.get? id = some v
  subPoolId : v.subPoolId = sp
  direction : v.direction = d
  shares : v.activeShares = shares
  generation : v.activeGeneration = 0
  opened : v.closed = false

theorem forActive_only {sp id shares : Nat} {d : Direction} {reason : String}
    {f : PositionView → Except IndexerError PositionView} (h : Holder sp d id shares y v)
    (h0 : shares ≠ 0) (hf : f v = .ok v') : forActive reason f sp d shares y
      = .ok () { y with positions := y.positions.insert id v' } := by
  have hview : subPoolMut sp y = .ok .default y := by
    rw [subPoolMut, h.pool]
  have hgeneration : (SubPoolView.default.series d).activeGeneration = 0 := by
    cases d <;> rfl
  rw [forActive, ensure_of h0, orFail_ok_bind, bind_of_ok hview, hgeneration]
  refine forPositions_only h.get (activeIn_iff.mpr ⟨h.opened, h.subPoolId, h.direction, ?_,
    h.generation⟩) (fun i u hi hu => ?_) hf
  · rw [h.shares]
    exact h0
  · exact h.only i u hi (activeIn_iff.mp hu).2.2.1

theorem Holder.insert {sp id shares id' shares' : Nat} {d d' : Direction} {v2 : PositionView}
    (h : Holder sp d id shares y v) (h' : Holder sp d' id' shares' y v2) (hd : d ≠ d')
    (hv : v'.direction = d') : Holder sp d id shares
      { y with positions := y.positions.insert id' v' } v := by
  have hne : id ≠ id' := by
    intro heq
    have hsame := h.get
    rw [heq, h'.get] at hsame
    obtain rfl := Option.some_inj.mp hsame
    exact hd (h.direction.symm.trans h'.direction)
  refine { h with only := fun i u hi hu => ?_, get := ?_ }
  · by_cases hi' : i = id'
    · rw [hi', OrdMap.get?_insert_self] at hi
      obtain rfl := Option.some_inj.mp hi
      exact absurd (hu.symm.trans hv) hd
    · rw [OrdMap.get?_insert_ne _ _ hi'] at hi
      exact h.only i u hi hu
  · rw [OrdMap.get?_insert_ne _ _ hne]
    exact h.get

theorem totalOutflow_single {x : Nat} (hx : x < u128Size) :
    totalOutflow ⟨x, 0, 0⟩ = .ok x := by
  rw [totalOutflow, ensure_of (by simpa using hx)]
  rfl

theorem totalOutflow_zero : totalOutflow .zero = .ok 0 := by
  rw [Inflow.zero, totalOutflow_single (by decide)]

theorem syncActive_zero (sp : Nat) (d : Direction) (before : Nat) :
    syncActive sp d 0 before y = .ok () y := by
  rw [syncActive, if_neg (Nat.lt_irrefl 0)]
  rfl

theorem syncLoss_zero (sp : Nat) (d : Direction) (before : Nat) :
    syncLoss sp d 0 before y = .ok () y := by
  rw [syncLoss, if_neg (Nat.lt_irrefl 0)]
  rfl

theorem syncRecovery_zero (sp : Nat) (d : Direction) (p : Nat) :
    syncRecovery sp d 0 0 p y = .ok () y := by
  rw [syncRecovery, if_neg (by simp)]
  rfl

theorem applyPoolSync_still {ev : PoolSyncEvent} (hl : ev.long = .zero) (hs : ev.short = .zero) :
    applyPoolSync ev y = .ok () y := by
  rw [applyPoolSync, hl, hs, totalOutflow_zero]
  simp only [Inflow.zero]
  rw [bind_of_ok (syncActive_zero _ _ _), bind_of_ok (syncRecovery_zero _ _ _),
    bind_of_ok (syncActive_zero _ _ _), bind_of_ok (syncRecovery_zero _ _ _), orFail_ok_bind,
    orFail_ok_bind, bind_of_ok (syncLoss_zero _ _ _)]
  exact syncLoss_zero _ _ _

theorem applyPoolSync_paired {ev : PoolSyncEvent} {ids shares : Direction → Nat}
    {v : Direction → PositionView} {w : Direction} {x : Nat} {vw vl : PositionView}
    (hh : ∀ d, Holder ev.subPoolId d (ids d) (shares d) y (v d)) (h0 : ∀ d, shares d ≠ 0)
    (hx : x ≠ 0) (hfit : x < u128Size)
    (hgain : gain x (v w).activeShares (v w).activeShares (v w) = .ok vw)
    (hvw : vw.direction = w)
    (hlose : lose x (v w.opposite).activeShares (v w.opposite) = .ok vl)
    (hlong : ev.long = inflowOf w x .long) (hshort : ev.short = inflowOf w x .short)
    (hlb : ev.longBefore.activeShares = shares .long)
    (hsb : ev.shortBefore.activeShares = shares .short) :
    applyPoolSync ev y = .ok () { y with
      positions := (y.positions.insert (ids w) vw).insert (ids w.opposite) vl } := by
  have hpos : 0 < x := Nat.pos_of_ne_zero hx
  have hwon : distributeActiveProfit ev.subPoolId w x (shares w) y
      = .ok () { y with positions := y.positions.insert (ids w) vw } := by
    refine forActive_only (hh w) (h0 w) ?_
    rw [← (hh w).shares]
    exact hgain
  have hlost : distributeActiveLoss ev.subPoolId w.opposite x (shares w.opposite)
      { y with positions := y.positions.insert (ids w) vw } = .ok () { y with
        positions := (y.positions.insert (ids w) vw).insert (ids w.opposite) vl } := by
    have hother := (hh w.opposite).insert (hh w) (Direction.opposite_ne w) hvw
    refine forActive_only hother (h0 w.opposite) ?_
    rw [← (hh w.opposite).shares]
    exact hlose
  cases w with
  | long =>
    have hl : ev.long = ⟨x, 0, 0⟩ := by simpa [inflowOf, hx] using hlong
    have hs : ev.short = .zero := by simpa [inflowOf] using hshort
    have hactive : syncActive ev.subPoolId .long x (shares .long) y
        = .ok () { y with positions := y.positions.insert (ids .long) vw } := by
      rw [syncActive, if_pos hpos]
      exact hwon
    rw [applyPoolSync, hl, hs, hlb, hsb, totalOutflow_single hfit, totalOutflow_zero]
    simp only [Inflow.zero]
    rw [bind_of_ok hactive, bind_of_ok (syncRecovery_zero _ _ _),
      bind_of_ok (syncActive_zero _ _ _), bind_of_ok (syncRecovery_zero _ _ _), orFail_ok_bind,
      orFail_ok_bind, syncLoss, if_pos hpos]
    refine (bind_of_ok hlost _).trans ?_
    exact syncLoss_zero _ _ _
  | short =>
    have hs : ev.short = ⟨x, 0, 0⟩ := by simpa [inflowOf, hx] using hshort
    have hl : ev.long = .zero := by simpa [inflowOf] using hlong
    have hactive : syncActive ev.subPoolId .short x (shares .short) y
        = .ok () { y with positions := y.positions.insert (ids .short) vw } := by
      rw [syncActive, if_pos hpos]
      exact hwon
    rw [applyPoolSync, hl, hs, hlb, hsb, totalOutflow_single hfit, totalOutflow_zero]
    simp only [Inflow.zero]
    rw [bind_of_ok (syncActive_zero _ _ _), bind_of_ok (syncRecovery_zero _ _ _),
      bind_of_ok hactive, bind_of_ok (syncRecovery_zero _ _ _), orFail_ok_bind, orFail_ok_bind,
      bind_of_ok (syncLoss_zero _ _ _), syncLoss, if_pos hpos]
    exact hlost

/-- The record of a position after a sync in which `w` wins `x`. -/
def movedView (w : Direction) (x : Nat) (d : Direction) (v : PositionView) : PositionView :=
  if d = w then { v with realizedProfitBalance := v.realizedProfitBalance + x }
  else { v with
    realizedProfitBalance := v.realizedProfitBalance - x
    lockedLoss := v.lockedLoss + min (x - v.realizedProfitBalance) v.remainingMargin }

theorem movedView_zero (w d : Direction) (v : PositionView) : movedView w 0 d v = v := by
  unfold movedView
  split <;> simp

theorem Holder.moved {sp id shares x : Nat} {d : Direction} (w : Direction)
    (h : Holder sp d id shares y v) : Holder sp d id shares
      { y with positions := y.positions.insert id (movedView w x d v) } (movedView w x d v) := by
  have hsame : ∀ i u, i ≠ id → (y.positions.insert id (movedView w x d v)).get? i = some u →
      y.positions.get? i = some u := by
    intro i u hi hu
    rwa [OrdMap.get?_insert_ne _ _ hi] at hu
  refine ⟨h.pool, fun i u hi hu => ?_, OrdMap.get?_insert_self _ _ _, ?_, ?_, ?_, ?_, ?_⟩
  · by_contra hne
    exact hne (h.only i u (hsame i u hne hi) hu)
  all_goals unfold movedView; split
  exacts [h.subPoolId, h.subPoolId, h.direction, h.direction, h.shares, h.shares, h.generation,
    h.generation, h.opened, h.opened]

theorem applyAll_swung {envelope : PriceEnvelope} {ids : Direction → Nat}
    {v : Direction → PositionView} {w : Direction} {x : Nat} {out : SyncOutcome}
    (hh : ∀ d, Holder s.subPoolId d (ids d) (s.side d).activeShares y (v d))
    (h0 : ∀ d, (s.side d).activeShares ≠ 0) (hs : ∀ d, (s.side d).activeShares < u128Size)
    (hx : x < u128Size) (hroom : (v w).realizedProfitBalance + x < u128Size)
    (hl : (v w.opposite).lockedLoss ≤ (v w.opposite).principal)
    (hp : (v w.opposite).principal < u64Size) (h : Swung s envelope w x s' out) :
    ∃ y', applyAll out.events y = .ok () y' ∧
      ∀ d, Holder s.subPoolId d (ids d) (s.side d).activeShares y' (movedView w x d (v d)) := by
  by_cases hx0 : x = 0
  · subst hx0
    refine ⟨y, ?_, fun d => ?_⟩
    · rcases h.events with ⟨-, hev⟩ | hev
      · rw [hev]
        rfl
      · rw [hev, applyAll]
        refine (bind_of_ok (applyPoolSync_still ?_ ?_) _).trans rfl <;>
          simp [poolSyncEvent, inflowOf]
    · rw [movedView_zero]
      exact hh d
  have hev := h.events.resolve_left fun hz => hx0 hz.1
  have hw : (movedView w x w (v w)).direction = w := ((hh w).moved w).direction
  have hne : w.opposite ≠ w := Direction.opposite_ne w
  have hlo := (hh w.opposite).insert (hh w) (Direction.opposite_ne w) hw
  have hgain : gain x (v w).activeShares (v w).activeShares (v w)
      = .ok (movedView w x w (v w)) := by
    rw [movedView, if_pos rfl]
    refine gain_all ?_ ?_ hx hroom
    · rw [(hh w).shares]
      exact h0 w
    · rw [(hh w).shares]
      exact hs w
  have hlose : lose x (v w.opposite).activeShares (v w.opposite)
      = .ok (movedView w x w.opposite (v w.opposite)) := by
    rw [movedView, if_neg hne]
    refine lose_all ?_ ?_ hx hl hp
    · rw [(hh w.opposite).shares]
      exact h0 w.opposite
    · rw [(hh w.opposite).shares]
      exact hs w.opposite
  have happly : applyPoolSync
      (poolSyncEvent s envelope (inflowOf w x .long) (inflowOf w x .short)) y = .ok () _ :=
    applyPoolSync_paired hh h0 hx0 hx hgain hw hlose rfl rfl rfl rfl
  have hreplay : applyAll out.events y = .ok () { y with
      positions := (y.positions.insert (ids w) (movedView w x w (v w))).insert (ids w.opposite)
        (movedView w x w.opposite (v w.opposite)) } := by
    rw [hev, applyAll]
    exact (bind_of_ok happly _).trans rfl
  refine ⟨_, hreplay, fun d => ?_⟩
  by_cases hd : d = w
  · subst hd
    exact ((hh d).moved d).insert hlo (Direction.opposite_ne d).symm (hlo.moved d).direction
  · obtain rfl := Direction.ne_iff.mp hd
    exact hlo.moved w

end Indexer

def pair (o : Direction → OraclePosition) : List OraclePosition := [o .long, o .short]

theorem pair_map (f : OraclePosition → OraclePosition) (o : Direction → OraclePosition) :
    (pair o).map f = pair fun d => f (o d) := rfl

theorem mem_pair {o : Direction → OraclePosition} {pos : OraclePosition} :
    pos ∈ pair o ↔ ∃ d, pos = o d := by
  constructor
  · intro h
    simp only [pair, List.mem_cons, List.not_mem_nil, or_false] at h
    cases h with
    | inl h => exact ⟨.long, h⟩
    | inr h => exact ⟨.short, h⟩
  · rintro ⟨d, rfl⟩
    cases d <;> simp [pair]

theorem sum_pair (f : OraclePosition → Nat) (o : Direction → OraclePosition) (w : Direction) :
    ((pair o).map f).sum = f (o w) + f (o w.opposite) := by
  cases w <;> simp [pair, Direction.opposite, Nat.add_comm]

/-- The terms of a position of the oracle. -/
structure Terms (d : Direction) (n price : Nat) (o : OraclePosition) : Prop where
  direction : o.direction = d
  opened : o.closed = false
  notional : o.notional = n
  reset : o.resetPrice = price
  covered : o.lockedLoss ≤ o.principal
  bound : o.principal < u64Size

theorem Terms.pnl_eq {d : Direction} {price pNow : Nat} {o : OraclePosition} {delta : Int}
    (h : Terms d n price o)
    (hdelta : signedPnlIncrement d.sign n price pNow = .ok delta) : pnl pNow o = delta := by
  rw [pnl, h.direction, h.notional, h.reset, hdelta]
  by_cases hn : n = 0
  · subst hn
    have hzero : delta = 0 := by
      obtain ⟨_, hp, hd⟩ := except_bind_ok.mp hdelta
      dsimp only at hd
      rw [mulDivFloor_zero (Nat.pos_of_ne_zero (ensure_ok.mp hp)), ok_bind] at hd
      obtain ⟨_, -, hd⟩ := except_bind_ok.mp hd
      rw [if_pos (Or.inr rfl)] at hd
      cases hd
      rfl
    rw [if_pos (Or.inr rfl), hzero]
  · rw [if_neg (by simp [h.opened, hn])]
    rfl

/-- The position of the oracle after a settlement in which `w` wins `x`. -/
def movedOracle (pNow : Nat) (w : Direction) (x : Nat) (o : Direction → OraclePosition)
    (d : Direction) : OraclePosition :=
  if d = w then
    { o d with realizedProfitBalance := (o d).realizedProfitBalance + x, resetPrice := pNow }
  else { o d with
    realizedProfitBalance := (o d).realizedProfitBalance - x
    lockedLoss := (o d).lockedLoss + min (x - (o d).realizedProfitBalance) (o d).remainingMargin
    resetPrice := pNow }

theorem movedOracle_principal (pNow : Nat) (w : Direction) (x : Nat)
    (o : Direction → OraclePosition) (d : Direction) :
    (movedOracle pNow w x o d).principal = (o d).principal := by
  unfold movedOracle
  split <;> rfl

theorem movedOracle_resetPrice (pNow : Nat) (w : Direction) (x : Nat)
    (o : Direction → OraclePosition) (d : Direction) :
    (movedOracle pNow w x o d).resetPrice = pNow := by
  unfold movedOracle
  split <;> rfl

theorem settle_paired {o : Direction → OraclePosition} {w : Direction} {x price pNow : Nat}
    (hterms : ∀ d, Terms d n price (o d)) (hp : pNow ≠ 0) (hx : x < u128Size)
    (hw : signedPnlIncrement w.sign n price pNow = .ok x)
    (hl : signedPnlIncrement w.opposite.sign n price pNow = .ok (-x))
    (hcov : x ≤ (o w.opposite).remainingMargin)
    (hroom : (o w).realizedProfitBalance + x < u128Size) :
    ∃ sum, settle (pair o) pNow = .ok (pair (movedOracle pNow w x o), sum) := by
  have hpw : pnl pNow (o w) = x := (hterms w).pnl_eq hw
  have hpl : pnl pNow (o w.opposite) = -x := (hterms w.opposite).pnl_eq hl
  have hgw : gainOf pNow (o w) = x := by simp [gainOf, hpw]
  have hgl : gainOf pNow (o w.opposite) = 0 := by
    rw [gainOf, hpl]
    omega
  have hlw : lossOf pNow (o w) = 0 := by
    rw [lossOf, hpw]
    omega
  have hll : lossOf pNow (o w.opposite) = x := by
    rw [lossOf, hpl]
    omega
  have hgains : (gains pNow (pair o)).sum = x := by
    rw [gains, sum_pair _ o w, hgw, hgl, Nat.add_zero]
  have hlosses : (losses pNow (pair o)).sum = x := by
    rw [losses, sum_pair _ o w, hlw, hll, Nat.zero_add]
  have hready : Ready pNow (pair o) := by
    refine ⟨hp, ?_, hgains ▸ hx, hlosses ▸ hx, ?_, ?_⟩
    · intro pos hpos _
      obtain ⟨d, rfl⟩ := mem_pair.mp hpos
      rw [(hterms d).direction, (hterms d).notional, (hterms d).reset]
      by_cases hd : d = w
      · exact ⟨_, hd ▸ hw⟩
      · exact ⟨_, Direction.ne_iff.mp hd ▸ hl⟩
    · intro pos hpos
      obtain ⟨d, rfl⟩ := mem_pair.mp hpos
      exact ⟨(hterms d).covered, (hterms d).bound.trans (by decide)⟩
    · intro pos hpos hgain
      obtain ⟨d, rfl⟩ := mem_pair.mp hpos
      by_cases hd : d = w
      · rw [hgains, hlosses, Nat.min_self, hd]
        exact hroom
      · rw [Direction.ne_iff.mp hd, hgl] at hgain
        exact absurd hgain (Nat.lt_irrefl 0)
  obtain ⟨ps', sum, hsettle⟩ := hready.settle
  have hs := settle_ok hsettle
  have hprofit : sum.totalProfit = x := hs.totalProfit.trans hgains
  have hloss : sum.totalRealizableLoss = x := hs.totalLoss.trans hlosses
  have htransfer : sum.actualTransfer = x := by rw [hs.transfer, hprofit, hloss, Nat.min_self]
  have hpart : proRata x x x = x := by
    by_cases h0 : x = 0
    · simp [h0, proRata]
    · exact Nat.mul_div_cancel x (Nat.pos_of_ne_zero h0)
  refine ⟨sum, ?_⟩
  rw [hsettle, hs.positions, pair_map]
  have hmoved : (fun d => settled pNow sum (o d)) = movedOracle pNow w x o := by
    funext d
    rw [settled, hprofit, hloss, htransfer]
    by_cases hd : d = w
    · subst hd
      rw [hgw, hlw, charged_zero, movedOracle, if_pos rfl, credited, hpart, roll]
      simp [(hterms d).opened]
    · rw [movedOracle, if_neg hd, Direction.ne_iff.mp hd, hgl, hll, credited_zero, charged, hpart,
        roll]
      simp [(hterms w.opposite).opened]
  rw [hmoved]

end Simulation
end MoleFinance
