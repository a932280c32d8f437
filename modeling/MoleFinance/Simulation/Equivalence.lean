import MoleFinance.Simulation.Pair

/-! A long and a short of one stake: along a walk of prices the pool, the indexer and the oracle
keep the same books. -/
namespace MoleFinance
open MoleMath Call

namespace Simulation
open Indexer

variable {market : MarketParams} {s s' : SubPool} {envelope : PriceEnvelope} {n : Nat}

/-- The pool, the positions of the two traders, the indexer and the oracle. -/
structure Game where
  pool : SubPool
  positions : Direction → Position
  indexer : IndexerState
  oracles : List OraclePosition

/-- An open position, with all the shares of its side. -/
structure Held (d : Direction) (x : Side) (p : Position) : Prop where
  direction : p.direction = d
  shares : p.activeShares = x.activeShares
  generation : p.activeGeneration = x.activeGeneration
  recovery : p.recoveryShares = 0

/-- The books of one trader: the pool, the record and the oracle. -/
structure Agreed (x : Side) (v : PositionView) (o : OraclePosition) : Prop where
  principal : v.principal = o.principal
  lockedLoss : v.lockedLoss = o.lockedLoss
  profit : v.realizedProfitBalance = o.realizedProfitBalance
  equity : x.poolEquity = o.equity

structure Paired (ids : Direction → Nat) (n : Nat) (g : Game) (v : Direction → PositionView)
    (o : Direction → OraclePosition) : Prop where
  price : g.pool.lastPrice ≠ 0
  oracles : g.oracles = pair o
  pooled : ∀ d, Pooled n (g.pool.side d)
  held : ∀ d, Held d (g.pool.side d) (g.positions d)
  holder : ∀ d, Holder g.pool.subPoolId d (ids d) (g.pool.side d).activeShares g.indexer (v d)
  terms : ∀ d, Terms d n g.pool.lastPrice (o d)
  agreed : ∀ d, Agreed (g.pool.side d) (v d) (o d)
  funded : ∀ d, (g.pool.side d).poolEquity ≠ 0
  total : (g.pool.side .long).poolEquity + (g.pool.side .short).poolEquity
    = (o .long).principal + (o .short).principal

/-- The loss fits the margin, and leaves something of the equity. -/
def Affordable (pNow : Nat) (pos : OraclePosition) : Prop :=
  (-pnl pNow pos).toNat ≤ pos.remainingMargin ∧ (-pnl pNow pos).toNat < pos.equity

instance (pNow : Nat) (pos : OraclePosition) : Decidable (Affordable pNow pos) :=
  inferInstanceAs (Decidable (_ ∧ _))

variable {ids : Direction → Nat} {g : Game} {v : Direction → PositionView}
  {o : Direction → OraclePosition}

theorem Paired.sum_lt (h : Paired ids n g v o) (w : Direction) :
    (g.pool.side w).poolEquity + (g.pool.side w.opposite).poolEquity < u128Size := by
  have htotal := h.total
  have hlong := (h.terms .long).bound
  have hshort := (h.terms .short).bound
  have hsize : 2 * u64Size < u128Size := by decide
  cases w <;> simp only [Direction.opposite] <;> omega

theorem Swung.side {w : Direction} {x : Nat} {out : SyncOutcome} (h : Swung s envelope w x s' out)
    (d : Direction) : s'.side d = { s.side d with
      poolEquity := if d = w then (s.side d).poolEquity + x else (s.side d).poolEquity - x } := by
  rw [h.state, SubPool.side_atPrice]
  by_cases hd : d = w
  · subst hd
    rw [SubPool.side_setSide_both, if_pos rfl]
  · obtain rfl := Direction.ne_iff.mp hd
    rw [SubPool.side_setSide, if_neg hd]

theorem Swung.lastPrice {w : Direction} {x : Nat} {out : SyncOutcome}
    (h : Swung s envelope w x s' out) : s'.lastPrice = envelope.pNow := by
  rw [h.state]
  rfl

theorem Swung.subPoolId {w : Direction} {x : Nat} {out : SyncOutcome}
    (h : Swung s envelope w x s' out) : s'.subPoolId = s.subPoolId := by
  rw [h.state, SubPool.atPrice, SubPool.setSide_subPoolId, SubPool.setSide_subPoolId]

structure Booked (ids : Direction → Nat) (g : Game) (v : Direction → PositionView)
    (o : Direction → OraclePosition) : Prop where
  oracles : g.oracles = pair o
  record : ∀ d, g.indexer.positions.get? (ids d) = some (v d)
  direction : ∀ d, (o d).direction = d
  agreed : ∀ d, Agreed (g.pool.side d) (v d) (o d)

theorem Paired.booked (h : Paired ids n g v o) : Booked ids g v o :=
  ⟨h.oracles, fun d => (h.holder d).get, fun d => (h.terms d).direction, h.agreed⟩

theorem Booked.books (h : Booked ids g v o) (d : Direction) : ∃ v o,
    g.indexer.positions.get? (ids d) = some v ∧ o ∈ g.oracles ∧ o.direction = d ∧
      v.realizedProfitBalance = o.realizedProfitBalance ∧ v.lockedLoss = o.lockedLoss ∧
      (g.pool.side d).poolEquity = o.equity := by
  have hmem : o d ∈ g.oracles := by
    rw [h.oracles]
    exact mem_pair.mpr ⟨d, rfl⟩
  have hagreed := h.agreed d
  exact ⟨v d, o d, h.record d, hmem, h.direction d, hagreed.profit, hagreed.lockedLoss,
    hagreed.equity⟩

structure Stepped (ids : Direction → Nat) (n : Nat) (g : Game) (v : Direction → PositionView)
    (o : Direction → OraclePosition) (envelope : PriceEnvelope) (s' : SubPool) (out : SyncOutcome)
    (w : Direction) (x : Nat) (y' : IndexerState) : Prop where
  replayed : applyAll out.events g.indexer = .ok () y'
  settled : ∃ sum, settle g.oracles envelope.pNow
    = .ok (pair (movedOracle envelope.pNow w x o), sum)
  paired : Paired ids n ⟨s', g.positions, y', pair (movedOracle envelope.pNow w x o)⟩
    (fun d => movedView w x d (v d)) (movedOracle envelope.pNow w x o)

theorem Agreed.moved {w d : Direction} {x pNow : Nat} {out : SyncOutcome}
    (h : Agreed (s.side d) (v d) (o d)) (hswung : Swung s envelope w x s' out)
    (hcov : d = w ∨ x ≤ (o d).remainingMargin) (hterms : (o d).lockedLoss ≤ (o d).principal) :
    Agreed (s'.side d) (movedView w x d (v d)) (movedOracle pNow w x o d) := by
  have hequity := h.equity
  unfold OraclePosition.equity at hequity
  rw [hswung.side d, movedView, movedOracle]
  by_cases hd : d = w
  · simp only [if_pos hd]
    refine ⟨h.principal, h.lockedLoss, congrArg (· + x) h.profit, ?_⟩
    unfold OraclePosition.equity
    dsimp only
    omega
  · have hx : x ≤ (o d).remainingMargin := hcov.resolve_left hd
    unfold OraclePosition.remainingMargin at hx
    simp only [if_neg hd]
    refine ⟨h.principal, ?_, congrArg (· - x) h.profit, ?_⟩
    · simp only [PositionView.remainingMargin, OraclePosition.remainingMargin, h.principal,
        h.lockedLoss, h.profit]
    · simp only [OraclePosition.equity, OraclePosition.remainingMargin]
      omega

theorem Terms.moved {w d : Direction} {x price : Nat} (h : Terms d n price (o d)) (pNow : Nat) :
    Terms d n pNow (movedOracle pNow w x o d) := by
  have hcovered := h.covered
  unfold movedOracle
  split
  · exact ⟨h.direction, h.opened, h.notional, rfl, hcovered, h.bound⟩
  · refine ⟨h.direction, h.opened, h.notional, rfl, ?_, h.bound⟩
    simp only [OraclePosition.remainingMargin]
    omega

theorem Paired.sync {out : SyncOutcome} (h : Paired ids n g v o)
    (hcov : ∀ d, Affordable envelope.pNow (o d))
    (hsync : syncPool market g.pool envelope = .ok (s', out)) :
    ∃ w x y', Stepped ids n g v o envelope s' out w x y' := by
  have hfits : ∀ d, (g.pool.side d).poolEquity < u128Size := fun d =>
    (Nat.le_add_right _ _).trans_lt (h.sum_lt d)
  have hafford : ∀ (d : Direction) (x : Nat),
      signedPnlIncrement d.sign n g.pool.lastPrice envelope.pNow = .ok (-x) →
        x ≤ (o d).remainingMargin ∧ x < (g.pool.side d).poolEquity := by
    intro d x hinc
    obtain ⟨hmargin, hequity⟩ := hcov d
    rw [(h.terms d).pnl_eq hinc, Int.neg_neg, Int.toNat_natCast] at hmargin hequity
    exact ⟨hmargin, (h.agreed d).equity ▸ hequity⟩
  obtain ⟨hprice, w, x, hx, hw, hl, hswung⟩ := syncPool_paired h.price h.pooled hfits h.funded
    (fun d x hinc => (hafford d x hinc).2) hsync
  have hx128 : x < u128Size := i128_lt hx
  obtain ⟨hmargin, hless⟩ := hafford w.opposite x hl
  have hroom : (o w).realizedProfitBalance + x < u128Size := by
    have hfit := hswung.fits
    have hequity := (h.agreed w).equity
    unfold OraclePosition.equity at hequity
    omega
  obtain ⟨sum, hsettle⟩ := settle_paired h.terms hprice hx128 hw hl hmargin hroom
  obtain ⟨y', hreplay, hholder⟩ := applyAll_swung h.holder (fun d => (h.pooled d).shares)
    (fun d => (h.pooled d).sharesFit) hx128 (by rw [(h.agreed w).profit]; exact hroom)
    (by
      rw [(h.agreed w.opposite).lockedLoss, (h.agreed w.opposite).principal]
      exact (h.terms w.opposite).covered)
    (by
      rw [(h.agreed w.opposite).principal]
      exact (h.terms w.opposite).bound) hswung
  refine ⟨w, x, y', hreplay, ⟨sum, h.oracles ▸ hsettle⟩, ?_⟩
  constructor
  · dsimp only
    rw [hswung.lastPrice]
    exact hprice
  · rfl
  · intro d
    dsimp only
    rw [hswung.side d]
    exact ⟨(h.pooled d).shares, (h.pooled d).sharesFit, (h.pooled d).notional, (h.pooled d).quiet⟩
  · intro d
    dsimp only
    rw [hswung.side d]
    exact ⟨(h.held d).direction, (h.held d).shares, (h.held d).generation, (h.held d).recovery⟩
  · intro d
    dsimp only
    rw [hswung.side d, hswung.subPoolId]
    exact hholder d
  · intro d
    dsimp only
    rw [hswung.lastPrice]
    exact (h.terms d).moved _
  · intro d
    refine (h.agreed d).moved hswung ?_ (h.terms d).covered
    by_cases hd : d = w
    · exact Or.inl hd
    · obtain rfl := Direction.ne_iff.mp hd
      exact Or.inr hmargin
  · intro d
    have hne := h.funded d
    dsimp only
    rw [hswung.side d]
    dsimp only
    split
    · omega
    · rename_i hd
      obtain rfl := Direction.ne_iff.mp hd
      omega
  · have htotal := h.total
    dsimp only
    rw [hswung.side .long, hswung.side .short, movedOracle_principal, movedOracle_principal,
      ← htotal]
    cases w <;> simp [Direction.opposite] at hless ⊢ <;> omega

/-- One price: a rejected sync is skipped, everything else is unwrapped. -/
def runSync (market : MarketParams) (g : Game) (envelope : PriceEnvelope) : Option Game :=
  match syncPool market g.pool envelope with
  | .error _ => some g
  | .ok (pool, outcome) =>
    match applyAll outcome.events g.indexer with
    | .error _ _ => none
    | .ok _ indexer =>
      match settle g.oracles envelope.pNow with
      | .error _ => none
      | .ok (oracles, _) => some ⟨pool, g.positions, indexer, oracles⟩

def walk (market : MarketParams) : List PriceEnvelope → Game → Option Game
  | [], g => some g
  | envelope :: rest, g =>
    match runSync market g envelope with
    | none => none
    | some g => walk market rest g

/-- No price of the walk takes more from a trader than the margin. -/
def Covered (market : MarketParams) : List PriceEnvelope → Game → Prop
  | [], _ => True
  | envelope :: rest, g => (∀ pos ∈ g.oracles, Affordable envelope.pNow pos) ∧
    match runSync market g envelope with
    | none => True
    | some g => Covered market rest g

instance decidableCovered (market : MarketParams) :
    ∀ prices g, Decidable (Covered market prices g)
  | [], _ => isTrue trivial
  | envelope :: rest, g =>
    have : Decidable (match runSync market g envelope with
        | none => True
        | some g => Covered market rest g) :=
      match runSync market g envelope with
      | none => isTrue trivial
      | some g => decidableCovered market rest g
    inferInstanceAs (Decidable (_ ∧ _))

theorem Paired.runSync (market : MarketParams) (h : Paired ids n g v o)
    (hcov : ∀ pos ∈ g.oracles, Affordable envelope.pNow pos) :
    ∃ g' v' o', Simulation.runSync market g envelope = some g' ∧ Paired ids n g' v' o' ∧
      g'.positions = g.positions ∧ ∀ d, (o' d).principal = (o d).principal := by
  have hafford : ∀ d, Affordable envelope.pNow (o d) := fun d =>
    hcov (o d) (h.oracles ▸ mem_pair.mpr ⟨d, rfl⟩)
  unfold Simulation.runSync
  split
  · exact ⟨g, v, o, rfl, h, rfl, fun _ => rfl⟩
  · rename_i pool outcome hsync
    obtain ⟨w, x, y', hstep⟩ := h.sync hafford hsync
    obtain ⟨sum, hsettle⟩ := hstep.settled
    rw [hstep.replayed, hsettle]
    exact ⟨_, _, _, rfl, hstep.paired, rfl, movedOracle_principal _ _ _ _⟩

theorem Paired.walk {prices : List PriceEnvelope} (h : Paired ids n g v o)
    (hcov : Covered market prices g) :
    ∃ g' v' o', Simulation.walk market prices g = some g' ∧ Paired ids n g' v' o' ∧
      g'.positions = g.positions ∧ ∀ d, (o' d).principal = (o d).principal := by
  induction prices generalizing g v o with
  | nil => exact ⟨g, v, o, rfl, h, rfl, fun _ => rfl⟩
  | cons envelope rest ih =>
    obtain ⟨hone, hrest⟩ := hcov
    obtain ⟨g1, v1, o1, hrun, hpaired, hpos, hprin⟩ := h.runSync market hone
    rw [hrun] at hrest
    obtain ⟨g2, v2, o2, hwalk, hpaired2, hpos2, hprin2⟩ := ih hpaired hrest
    refine ⟨g2, v2, o2, ?_, hpaired2, hpos2.trans hpos, fun d => (hprin2 d).trans (hprin d)⟩
    rw [Simulation.walk, hrun]
    exact hwalk

def openChain (market : MarketParams) (pool : SubPool) (indexer : IndexerState) (d : Direction)
    (gross : Nat) (envelope : PriceEnvelope) (id : Nat) :
    Option (SubPool × IndexerState × Position) :=
  match openPosition market pool envelope d gross id with
  | .error _ => none
  | .ok (pool, position, outcome) =>
    match applyAll outcome.events indexer with
    | .error _ _ => none
    | .ok _ indexer => some (pool, indexer, position)

def makeOracle (market : MarketParams) (d : Direction) (principal entryPrice : Nat) :
    Option OraclePosition :=
  (OraclePosition.new 0 d principal market.leverageBps entryPrice).toOption

/-- A long and a short of the same stake, opened in a new pool. -/
def seat (market : MarketParams) (subPoolId stake : Nat) (ids : Direction → Nat)
    (e1 e2 : PriceEnvelope) : Option Game := do
  let (pool, indexer, alice) ←
    openChain market (.new subPoolId e1.pNow 0) .new .long stake e1 (ids .long)
  let (pool, indexer, bob) ← openChain market pool indexer .short stake e2 (ids .short)
  let long ← makeOracle market .long alice.principal e1.pNow
  let short ← makeOracle market .short bob.principal e2.pNow
  return ⟨pool, fun d => match d with | .long => alice | .short => bob, indexer, [long, short]⟩

theorem syncPool_still {out : SyncOutcome} (h0 : s.lastPrice ≠ 0)
    (hp : envelope.pNow = s.lastPrice) (h : syncPool market s envelope = .ok (s', out)) :
    s' = { s with lastSyncSlot := envelope.slot } ∧ out.events = [] := by
  obtain ⟨_, -, h⟩ := except_bind_ok.mp h
  rw [if_neg h0, if_pos hp] at h
  obtain ⟨_, -, h⟩ := except_bind_ok.mp h
  cases h
  exact ⟨rfl, rfl⟩

def firstView (subPoolId id principal notional : Nat) (d : Direction) : PositionView where
  positionId := id
  subPoolId := subPoolId
  direction := d
  principal := principal
  notional := notional
  activeShares := principal
  recoveryShares := 0
  recoveryBucketTick := none
  activeGeneration := 0
  lockedLoss := 0
  realizedProfitBalance := 0
  closed := false

/-- The side of a new pool with one position. -/
def firstSide (principal notional : Nat) (d : Direction) : Side :=
  { Side.new d with
    poolEquity := principal
    activeShares := principal
    activeNotional := notional }

structure First (market : MarketParams) (s : SubPool) (envelope : PriceEnvelope) (d : Direction)
    (gross id principal notional : Nat) (s' : SubPool) (p : Position) : Prop where
  price : envelope.pNow ≠ 0
  fee : ∃ fee, takeFee market gross = .ok (fee, principal)
  exposure : mulDivFloor principal market.leverageBps bpsScale = .ok notional
  state : s' = { s with lastSyncSlot := envelope.slot }.setSide d (firstSide principal notional d)
  margin : p.principal = principal
  held : Held d (firstSide principal notional d) p

theorem openPosition_first {gross id : Nat} {d : Direction} {p : Position} {out : OpenOutcome}
    (hp : envelope.pNow = s.lastPrice) (hempty : s.side d = .new d)
    (h : openPosition market s envelope d gross id = .ok (s', p, out)) :
    ∃ principal notional fee slot entry,
      First market s envelope d gross id principal notional s' p ∧
      out.events = [.positionOpened ⟨id, s.subPoolId, d, principal, notional, principal,
        principal, 0, fee, entry, 0, slot⟩] := by
  obtain ⟨_, -, h⟩ := except_bind_ok.mp h
  obtain ⟨_, -, h⟩ := except_bind_ok.mp h
  obtain ⟨⟨s1, sync⟩, hsync, h⟩ := except_bind_ok.mp h
  obtain ⟨⟨fee, principal⟩, hfee, h⟩ := except_bind_ok.mp h
  have hprice : envelope.pNow ≠ 0 := by
    obtain ⟨_, hguards, -⟩ := except_bind_ok.mp hsync
    obtain ⟨_, -, hguards⟩ := except_bind_ok.mp hguards
    obtain ⟨_, -, hguards⟩ := except_bind_ok.mp hguards
    obtain ⟨_, hprice, -⟩ := except_bind_ok.mp hguards
    exact ensure_ok.mp hprice
  obtain ⟨rfl, hev⟩ := syncPool_still (hp ▸ hprice) hp hsync
  have hside : SubPool.side { s with lastSyncSlot := envelope.slot } d = .new d := by
    cases d <;> exact hempty
  rw [hside] at h
  dsimp only at h
  obtain ⟨⟨shares, accounted, dust⟩, hmint, h⟩ := except_bind_ok.mp h
  obtain ⟨notional, hnotional, h⟩ := except_bind_ok.mp h
  obtain ⟨equity, hequity, h⟩ := except_bind_ok.mp h
  obtain ⟨active, hactive, h⟩ := except_bind_ok.mp h
  obtain ⟨total, htotal, h⟩ := except_bind_ok.mp h
  obtain ⟨dust', hdust, h⟩ := except_bind_ok.mp h
  obtain ⟨_, -, h⟩ := except_bind_ok.mp h
  cases h
  have hmint' : (principal, principal, 0) = (shares, accounted, dust) := Except.ok.inj hmint
  obtain ⟨rfl, hrest⟩ := Prod.mk.inj hmint'
  obtain ⟨rfl, rfl⟩ := Prod.mk.inj hrest
  obtain ⟨-, rfl⟩ := checkedAdd_ok.mp (math_ok.mp hequity)
  obtain ⟨-, rfl⟩ := checkedAdd_ok.mp (math_ok.mp hactive)
  obtain ⟨-, rfl⟩ := checkedAdd_ok.mp (math_ok.mp htotal)
  obtain ⟨-, rfl⟩ := checkedAdd_ok.mp (math_ok.mp hdust)
  refine ⟨principal, notional, fee, envelope.slot, envelope.pNow,
    ⟨hprice, ⟨fee, hfee⟩, math_ok.mp hnotional, ?_, rfl, rfl, rfl, rfl, rfl⟩, ?_⟩
  · simp [firstSide, Side.new]
  · dsimp only
    rw [hev, SubPool.setSide_subPoolId]
    rfl

theorem applyOpen_first {y : IndexerState} {sp id principal notional dust fee entry slot : Nat}
    {d : Direction} (hy : ∀ view, y.subPools.get? sp = some view → view = .default) :
    ∃ y', applyOpen
        ⟨id, sp, d, principal, notional, principal, principal, dust, fee, entry, 0, slot⟩ y
        = .ok () y' ∧
      y'.positions = y.positions.insert id (firstView sp id principal notional d) ∧
      y'.subPools.get? sp = some .default := by
  have hgeneration : (SubPoolView.default.series d).activeGeneration = 0 := by
    cases d <;> rfl
  unfold applyOpen
  rw [bind_of_ok (show putPosition _ _ y = .ok () _ from rfl)]
  cases hg : y.subPools.get? sp with
  | none =>
    refine ⟨{ y with
      positions := y.positions.insert id (firstView sp id principal notional d)
      subPools := y.subPools.insert sp .default }, ?_, rfl, OrdMap.get?_insert_self _ _ _⟩
    rw [bind_of_ok (a := SubPoolView.default) (by rw [subPoolMut]; dsimp only; rw [hg])]
    dsimp only
    rw [hgeneration]
    rfl
  | some view =>
    obtain rfl := hy view hg
    refine ⟨{ y with
      positions := y.positions.insert id (firstView sp id principal notional d) }, ?_, rfl, hg⟩
    rw [bind_of_ok (a := SubPoolView.default) (by rw [subPoolMut]; dsimp only; rw [hg])]
    dsimp only
    rw [hgeneration]
    rfl

theorem openChain_first {y y' : IndexerState} {gross id : Nat} {d : Direction} {p : Position}
    (hp : envelope.pNow = s.lastPrice) (hempty : s.side d = .new d)
    (hy : ∀ view, y.subPools.get? s.subPoolId = some view → view = .default)
    (h : openChain market s y d gross envelope id = some (s', y', p)) :
    ∃ principal notional, First market s envelope d gross id principal notional s' p ∧
      y'.positions = y.positions.insert id (firstView s.subPoolId id principal notional d) ∧
      y'.subPools.get? s.subPoolId = some .default := by
  unfold openChain at h
  cases hopen : openPosition market s envelope d gross id with
  | error e => simp [hopen] at h
  | ok r =>
    obtain ⟨s1, p1, out⟩ := r
    obtain ⟨principal, notional, fee, slot, entry, hfirst, hev⟩ :=
      openPosition_first hp hempty hopen
    obtain ⟨y1, happly, hpos, hview⟩ :=
      @applyOpen_first y s.subPoolId id principal notional 0 fee entry slot d hy
    have hall : applyAll out.events y = .ok () y1 := by
      rw [hev, applyAll]
      exact (bind_of_ok happly _).trans rfl
    rw [hopen] at h
    dsimp only at h
    rw [hall] at h
    cases h
    exact ⟨principal, notional, hfirst, hpos, hview⟩

theorem makeOracle_some {d : Direction} {principal entry notional : Nat} {pos : OraclePosition}
    (hn : mulDivFloor principal market.leverageBps bpsScale = .ok notional)
    (h : makeOracle market d principal entry = some pos) :
    pos = ⟨0, d, principal, notional, entry, 0, 0, false⟩ := by
  rw [makeOracle, OraclePosition.new, hn] at h
  exact (Option.some_inj.mp h).symm

theorem firstSide_pooled {principal : Nat} (h0 : principal ≠ 0) (hfit : principal < u64Size)
    (d : Direction) : Pooled n (firstSide principal n d) where
  shares := h0
  sharesFit := hfit.trans (by decide)
  notional := rfl
  quiet _ := by cases d <;> rfl

theorem two_views {sp principal n : Nat} {y1 y2 : IndexerState} (hids : ids .long ≠ ids .short)
    (h1 : y1.positions = OrdMap.empty.insert (ids .long)
      (firstView sp (ids .long) principal n .long))
    (h2 : y2.positions = y1.positions.insert (ids .short)
      (firstView sp (ids .short) principal n .short)) (d : Direction) :
    y2.positions.get? (ids d) = some (firstView sp (ids d) principal n d) ∧
      ∀ i u, y2.positions.get? i = some u → u.direction = d → i = ids d := by
  rw [h2, h1]
  constructor
  · cases d with
    | long => rw [OrdMap.get?_insert_ne _ _ hids, OrdMap.get?_insert_self]
    | short => rw [OrdMap.get?_insert_self]
  · intro i u hu hd
    by_cases hshort : i = ids .short
    · rw [hshort, OrdMap.get?_insert_self] at hu
      cases hu
      rw [hshort, ← hd]
      rfl
    · rw [OrdMap.get?_insert_ne _ _ hshort] at hu
      by_cases hlong : i = ids .long
      · rw [hlong, OrdMap.get?_insert_self] at hu
        cases hu
        rw [hlong, ← hd]
        rfl
      · rw [OrdMap.get?_insert_ne _ _ hlong] at hu
        cases hu

/-- The books agree from the start; with a stake left after the fee the pair can be synced. -/
theorem seat_booked {sp stake : Nat} {e1 e2 : PriceEnvelope} (hids : ids .long ≠ ids .short)
    (hstake : stake < u64Size) (hprice : e2.pNow = e1.pNow)
    (h : seat market sp stake ids e1 e2 = some g) :
    ∃ n v o, Booked ids g v o ∧ (∀ d, (o d).principal = (g.positions d).principal) ∧
      ((∀ pos ∈ g.oracles, pos.equity ≠ 0) → Paired ids n g v o) := by
  obtain ⟨⟨s1, y1, alice⟩, h1, h⟩ := Option.bind_eq_some_iff.mp h
  obtain ⟨⟨s2, y2, bob⟩, h2, h⟩ := Option.bind_eq_some_iff.mp h
  obtain ⟨long, hlong, h⟩ := Option.bind_eq_some_iff.mp h
  obtain ⟨short, hshort, h⟩ := Option.bind_eq_some_iff.mp h
  cases h
  obtain ⟨principal, n, hf1, hpos1, hpool1⟩ := openChain_first (by rfl) (by rfl)
    (fun _ hview => by cases hview) h1
  have hstate1 := hf1.state
  subst hstate1
  obtain ⟨principal', n', hf2, hpos2, hpool2⟩ := openChain_first
    (by rw [hprice]; rfl) (by rfl) (fun view hview => by
      rw [SubPool.setSide_subPoolId] at hview
      exact Option.some_inj.mp (hview.symm.trans hpool1)) h2
  obtain ⟨fee, hfee⟩ := hf1.fee
  obtain ⟨fee', hfee'⟩ := hf2.fee
  obtain ⟨-, rfl⟩ := Prod.mk.inj (Except.ok.inj (hfee.symm.trans hfee'))
  obtain rfl := Except.ok.inj (hf1.exposure.symm.trans hf2.exposure)
  have hstate2 := hf2.state
  subst hstate2
  have hfit : principal < u64Size := by
    have hrest := (takeFee_ok hfee).2
    omega
  obtain rfl := makeOracle_some (hf1.margin ▸ hf1.exposure) hlong
  obtain rfl := makeOracle_some (hf2.margin ▸ hf2.exposure) hshort
  rw [SubPool.setSide_subPoolId] at hpos2 hpool2
  have hviews := two_views hids hpos1 hpos2
  refine ⟨n, fun d => firstView sp (ids d) principal n d,
    fun d => ⟨0, d, principal, n, e1.pNow, 0, 0, false⟩, ⟨?_, ?_, fun _ => rfl, ?_⟩, ?_,
    fun hequity => ?_⟩
  · simp only [pair, hf1.margin, hf2.margin, hprice]
  · exact fun d => (hviews d).1
  · rintro (_ | _) <;> exact ⟨rfl, rfl, rfl, rfl⟩
  · rintro (_ | _)
    · exact hf1.margin.symm
    · exact hf2.margin.symm
  have h0 : principal ≠ 0 := by
    have hlong := hequity _ (List.mem_cons_self ..)
    unfold OraclePosition.equity at hlong
    dsimp only at hlong
    have hmargin := hf1.margin
    omega
  constructor
  · exact hf1.price
  · simp only [pair, hf1.margin, hf2.margin, hprice]
  · rintro (_ | _)
    · exact firstSide_pooled h0 hfit .long
    · exact firstSide_pooled h0 hfit .short
  · rintro (_ | _)
    · exact hf1.held
    · exact hf2.held
  · intro d
    obtain ⟨hget, honly⟩ := hviews d
    cases d <;> exact ⟨hpool2, honly, hget, rfl, rfl, rfl, rfl, rfl⟩
  · intro d
    exact ⟨rfl, rfl, rfl, rfl, Nat.zero_le _, hfit⟩
  · rintro (_ | _) <;> exact ⟨rfl, rfl, rfl, rfl⟩
  · rintro (_ | _) <;> exact h0
  · rfl

theorem Affordable.equity_ne {pNow : Nat} {pos : OraclePosition} (h : Affordable pNow pos) :
    pos.equity ≠ 0 := by
  have hless := h.2
  omega

/-- From any start, along every covered walk of prices, the pool, the indexer and the oracle have
the same books of each trader. -/
theorem books_agree {sp stake : Nat} {e1 e2 : PriceEnvelope} {prices : List PriceEnvelope}
    (hids : ids .long ≠ ids .short) (hstake : stake < u64Size) (hprice : e2.pNow = e1.pNow)
    (hseat : seat market sp stake ids e1 e2 = some g) (hcov : Covered market prices g) :
    ∃ g', walk market prices g = some g' ∧ ∀ d, ∃ v o,
      g'.indexer.positions.get? (ids d) = some v ∧ o ∈ g'.oracles ∧ o.direction = d ∧
      v.realizedProfitBalance = o.realizedProfitBalance ∧ v.lockedLoss = o.lockedLoss ∧
      (g'.pool.side d).poolEquity = o.equity := by
  obtain ⟨n, v, o, hbooked, -, hpaired⟩ := seat_booked hids hstake hprice hseat
  cases prices with
  | nil => exact ⟨g, rfl, hbooked.books⟩
  | cons envelope rest =>
    have hequity := fun pos hpos => (hcov.1 pos hpos).equity_ne
    obtain ⟨g', v', o', hwalk, hp, -, -⟩ := (hpaired hequity).walk hcov
    exact ⟨g', hwalk, hp.booked.books⟩

theorem closing_sole {d : Direction} {p p' p1 p2 p3 : Position} {out : CloseOutcome}
    {s1 s2 : SubPool} {sync : SyncOutcome} {b : Bool} {r : RedeemReceipt}
    (h : Closing market s envelope p s' p' out s1 s2 sync p1 p2 p3 b r)
    (hheld : Held d (s1.side d) p) (hpool : Pooled n (s1.side d))
    (hne : (s1.side d).poolEquity ≠ 0) (hfit : (s1.side d).poolEquity < u128Size) :
    out.withdrawable = (s1.side d).poolEquity ∧ s'.side d.opposite = s1.side d.opposite ∧
      s'.lastPrice = s1.lastPrice := by
  obtain rfl := hheld.direction
  have hshares : p.activeShares ≠ 0 := by
    rw [hheld.shares]
    exact hpool.shares
  have hmigrated := h.migrated
  rw [lazyMigratePosition, if_neg hshares, if_pos hheld.generation] at hmigrated
  cases hmigrated
  cases redeemActive_ok h.active with
  | inl hzero =>
    rcases hzero.1 with h0 | h0 | h0
    · exact absurd h0 hshares
    · exact absurd h0 hpool.shares
    · exact absurd h0 hne
  | inr hburn =>
    obtain ⟨-, -, -, hvalue, hburn⟩ := hburn
    rw [hheld.shares, mulDivFloor_self hpool.sharesFit (Nat.pos_of_ne_zero hpool.shares) hfit]
      at hvalue
    obtain ⟨-, -, -, rfl, rfl⟩ := burnActive_ok hburn
    have hrecovery := h.recovery
    rw [settleRecovery, if_pos hheld.recovery] at hrecovery
    cases hrecovery
    refine ⟨?_, SubPool.side_setSide_opposite _ _ _, SubPool.setSide_lastPrice _ _ _⟩
    exact h.paid.trans (Except.ok.inj hvalue).symm

def closeBoth (market : MarketParams) (d : Direction) (e e' : PriceEnvelope) (g : Game) :
    Except ClearingError (Nat × Nat) := do
  let (s, _, out) ← closePosition market g.pool e (g.positions d)
  let (_, _, out') ← closePosition market s e' (g.positions d.opposite)
  return (out.withdrawable, out'.withdrawable)

/-- Both close at one price: each takes what the oracle has, together what they brought. -/
theorem cash_out {sp stake a b : Nat} {e1 e2 e e' : PriceEnvelope} {prices : List PriceEnvelope}
    {g' : Game} {d : Direction} (hids : ids .long ≠ ids .short) (hstake : stake < u64Size)
    (hprice : e2.pNow = e1.pNow)
    (hseat : seat market sp stake ids e1 e2 = some g) (hcov : Covered market prices g)
    (hwalk : walk market prices g = some g') (hlast : ∀ pos ∈ g'.oracles, Affordable e.pNow pos)
    (hsame : e'.pNow = e.pNow) (hclose : closeBoth market d e e' g' = .ok (a, b)) :
    ∃ ps sum, settle g'.oracles e.pNow = .ok (ps, sum) ∧
      (∃ o ∈ ps, o.direction = d ∧ a = o.equity) ∧
      (∃ o ∈ ps, o.direction = d.opposite ∧ b = o.equity) ∧
      a + b = (g.positions .long).principal + (g.positions .short).principal := by
  obtain ⟨n, v, o, -, hprincipal, hpaired⟩ := seat_booked hids hstake hprice hseat
  have hequity : ∀ pos ∈ g.oracles, pos.equity ≠ 0 := by
    cases prices with
    | nil =>
      cases hwalk
      exact fun pos hpos => (hlast pos hpos).equity_ne
    | cons envelope rest => exact fun pos hpos => (hcov.1 pos hpos).equity_ne
  obtain ⟨_, v', o', hwalk', hp, -, hprin⟩ := (hpaired hequity).walk hcov
  obtain rfl := Option.some_inj.mp (hwalk.symm.trans hwalk')
  obtain ⟨⟨s1, p1, out1⟩, h1, hclose⟩ := except_bind_ok.mp hclose
  obtain ⟨⟨s2, p2, out2⟩, h2, hclose⟩ := except_bind_ok.mp hclose
  cases hclose
  obtain ⟨t1, t2, sync, q1, q2, q3, _, r, hfirst⟩ := closePosition_ok h1
  obtain ⟨w, x, y', hstep⟩ := hp.sync
    (fun d => hlast (o' d) (hp.oracles ▸ mem_pair.mpr ⟨d, rfl⟩)) hfirst.synced
  obtain ⟨sum, hsettle⟩ := hstep.settled
  have hafter := hstep.paired
  have hfit : ∀ d, (t1.side d).poolEquity < u128Size := fun d =>
    (Nat.le_add_right _ _).trans_lt (hafter.sum_lt d)
  obtain ⟨hpaid, hother, hlastPrice⟩ :=
    closing_sole hfirst (hafter.held d) (hafter.pooled d) (hafter.funded d) (hfit d)
  obtain ⟨u1, u2, sync', k1, k2, k3, _, r', hsecond⟩ := closePosition_ok h2
  have hprice' : e'.pNow = s1.lastPrice := by
    rw [hsame, hlastPrice, ← movedOracle_resetPrice e.pNow w x o' d]
    exact (hafter.terms d).reset
  obtain ⟨rfl, -⟩ := syncPool_still (hlastPrice ▸ hafter.price) hprice' hsecond.synced
  have hside : SubPool.side { s1 with lastSyncSlot := e'.slot } d.opposite
      = t1.side d.opposite := by
    rw [← hother]
    cases d <;> rfl
  obtain ⟨hpaid', -, -⟩ := closing_sole hsecond (hside ▸ hafter.held d.opposite)
    (hside ▸ hafter.pooled d.opposite) (hside ▸ hafter.funded d.opposite)
    (hside ▸ hfit d.opposite)
  rw [hside] at hpaid'
  refine ⟨_, sum, hsettle, ⟨_, mem_pair.mpr ⟨d, rfl⟩, (hafter.terms d).direction, ?_⟩,
    ⟨_, mem_pair.mpr ⟨d.opposite, rfl⟩, (hafter.terms d.opposite).direction, ?_⟩, ?_⟩
  · exact hpaid.trans (hafter.agreed d).equity
  · exact hpaid'.trans (hafter.agreed d.opposite).equity
  · have hsum : (t1.side d).poolEquity + (t1.side d.opposite).poolEquity
        = (t1.side .long).poolEquity + (t1.side .short).poolEquity := by
      cases d
      · rfl
      · exact Nat.add_comm _ _
    rw [hpaid, hpaid', hsum, ← hprincipal .long, ← hprincipal .short, ← hprin .long,
      ← hprin .short, ← movedOracle_principal e.pNow w x o' .long,
      ← movedOracle_principal e.pNow w x o' .short]
    exact hafter.total

def envelopeAt (p slot : Nat) (h : p < u64Size := by decide) : PriceEnvelope where
  pNow := p
  slot := slot
  expectedMin := p
  expectedMax := p
  pNow_lt := h

def seatIds : Direction → Nat
  | .long => 0
  | .short => 1

def testSeat : Option Game :=
  seat .sample 0 100000000 seatIds (envelopeAt 100000000 1) (envelopeAt 100000000 2)

def testPrices : List PriceEnvelope := [envelopeAt 101000000 3, envelopeAt 100495000 4]

theorem books_agree_twice : ∃ g g', testSeat = some g ∧ walk .sample testPrices g = some g' ∧
    ∀ d, ∃ v o, g'.indexer.positions.get? (seatIds d) = some v ∧ o ∈ g'.oracles ∧
      o.direction = d ∧ v.realizedProfitBalance = o.realizedProfitBalance ∧
      v.lockedLoss = o.lockedLoss ∧ (g'.pool.side d).poolEquity = o.equity := by
  obtain ⟨g, hseat⟩ := Option.isSome_iff_exists.mp
    (show testSeat.isSome = true by decide +kernel)
  have hall : testSeat.all (fun g => decide (Covered .sample testPrices g)) = true := by
    decide +kernel
  have hcov : Covered .sample testPrices g := by
    rw [hseat, Option.all_some] at hall
    exact of_decide_eq_true hall
  have hprice : (envelopeAt 100000000 2).pNow = (envelopeAt 100000000 1).pNow := rfl
  obtain ⟨g', hwalk, hbooks⟩ := books_agree (by decide) (by decide) hprice hseat hcov
  exact ⟨g, g', hseat, hwalk, hbooks⟩

theorem cash_out_twice : ∃ g g' ps sum, testSeat = some g ∧
    walk .sample testPrices g = some g' ∧
    settle g'.oracles (envelopeAt 100495000 5).pNow = .ok (ps, sum) ∧
    (∃ o ∈ ps, o.direction = .long ∧ 105000000 = o.equity) ∧
    (∃ o ∈ ps, o.direction = Direction.long.opposite ∧ 95000000 = o.equity) ∧
    105000000 + 95000000 = (g.positions .long).principal + (g.positions .short).principal := by
  obtain ⟨g, hseat⟩ := Option.isSome_iff_exists.mp
    (show testSeat.isSome = true by decide +kernel)
  have hwalks : (testSeat.bind (walk .sample testPrices)).isSome = true := by decide +kernel
  obtain ⟨g', hboth⟩ := Option.isSome_iff_exists.mp hwalks
  have hall : testSeat.all (fun g => decide (Covered .sample testPrices g)) = true := by
    decide +kernel
  have hlast : (testSeat.bind (walk .sample testPrices)).all (fun g => decide
      (∀ pos ∈ g.oracles, Affordable (envelopeAt 100495000 5).pNow pos)) = true := by
    decide +kernel
  have hclose : (testSeat.bind (walk .sample testPrices)).all (fun g => decide
      (closeBoth .sample .long (envelopeAt 100495000 5) (envelopeAt 100495000 6) g
        = .ok (105000000, 95000000))) = true := by
    decide +kernel
  rw [hboth, Option.all_some] at hlast hclose
  rw [hseat, Option.all_some] at hall
  rw [hseat] at hboth
  have hprice : (envelopeAt 100000000 2).pNow = (envelopeAt 100000000 1).pNow := rfl
  have hsame : (envelopeAt 100495000 6).pNow = (envelopeAt 100495000 5).pNow := rfl
  obtain ⟨ps, sum, hcash⟩ := cash_out (by decide) (by decide) hprice hseat
    (of_decide_eq_true hall) hboth (of_decide_eq_true hlast) hsame (of_decide_eq_true hclose)
  exact ⟨g, g', ps, sum, hseat, hboth, hcash⟩

end Simulation
end MoleFinance
