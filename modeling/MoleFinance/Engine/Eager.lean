import MoleFinance.Engine.Stores
import MoleFinance.Engine.Totality
import MoleFinance.Dormant.EagerStore

/-! Syncs under eager distribution. Nothing is ever in flight, so the price decides which side
has demands: the other one pays them, as far as its pool goes. -/
namespace MoleFinance
open MoleMath Call Trace

def SubPool.Clear (s : SubPool) : Prop :=
  ∀ d, (s.side d).dormant.pendingDistributionTotal = 0

theorem DormantStore.clear_kept {market : MarketParams}
    (hm : market.dormantDistributeMode = .eager) :
    Kept market (fun s => s.pendingDistributionTotal = 0) where
  distributed := by
    intro s s' price amount r h h0 hr
    rw [hm] at hr
    exact Nat.le_zero.mp (h0 ▸ distribute_pending_le h hr)
  joined := by
    intro s s' tick anchor shares notional count u h h0 hr
    exact Nat.le_zero.mp (h0 ▸ insertOrMerge_pending_le h hr)
  redeemed := by
    intro s s' tick shares r h h0 hr
    exact Nat.le_zero.mp (h0 ▸ redeem_pending_le h hr)
  applied := by
    intro s s' tick n h h0 hr
    exact Nat.le_zero.mp (h0 ▸ (applyPendingToBucket_upkeep h hr).pending_le)

namespace World

def EagerReached (w : World) : Prop :=
  ∃ id price slot, ∃ ops : List (MarketParams × EngineOp),
    (∀ op ∈ ops, op.1.dormantDistributeMode = .eager) ∧
    (run EngineOp.step ops (World.new id price slot)).2 = w

theorem EagerReached.reached {w : World} (h : w.EagerReached) : w.Reached := by
  obtain ⟨id, price, slot, ops, -, he⟩ := h
  exact ⟨id, price, slot, ops, he⟩

theorem EagerReached.clear {w : World} (h : w.EagerReached) : w.subPool.Clear := by
  obtain ⟨id, price, slot, ops, hops, rfl⟩ := h
  have hnew : (World.new id price slot).subPool.Clear := by
    intro d
    rw [World.new, SubPool.side_new]
    rfl
  refine (run_preserves_of (I := fun w : World => w.Inv ∧ w.subPool.Clear) ?_
    ⟨new_inv id price slot, hnew⟩).2
  intro op hop w hw
  unfold EngineOp.step
  cases hc : EngineOp.call op.1 w op.2 with
  | none => exact hw
  | some r =>
    cases r with
    | error e => exact hw
    | ok wr =>
      have hclear : wr.1.subPool.Clear :=
        EngineOp.call_stores (DormantStore.clear_kept (hops op hop)) hw.1 hc hw.2
      exact ⟨step_inv hw.1 hc, hclear⟩

end World

def SubPool.winner (s : SubPool) (pNow : Nat) : Direction :=
  if s.lastPrice < pNow then .long else .short

def SubPool.activeGain (s : SubPool) (d : Direction) (pNow : Nat) : Nat :=
  match signedPnlIncrement d.sign (s.side d).activeNotional s.lastPrice pNow with
  | .ok pnl => pnl.toNat
  | .error _ => 0

def SubPool.claimGain (s : SubPool) (d : Direction) (pNow : Nat) : Nat :=
  (s.side d).dormant.outstandingTotal pNow - (s.side d).dormant.outstandingTotal s.lastPrice

/-- What a price change moves from one side to the other. -/
def SubPool.transferred (s : SubPool) (pNow : Nat) : Nat :=
  min (s.activeGain (s.winner pNow) pNow + s.claimGain (s.winner pNow) pNow)
    (s.side (s.winner pNow).opposite).poolEquity

def demandOf (demands : Demand × Demand) : Direction → Demand
  | .long => demands.1
  | .short => demands.2

theorem SubPool.winner_favours {s : SubPool} {pNow : Nat} :
    (s.winner pNow).Favours s.lastPrice pNow := by
  unfold SubPool.winner
  split_ifs with h
  · exact h.le
  · exact not_lt.mp h

theorem signedPnlIncrement_against {d : Direction} {n pLast pNow : Nat} {pnl : Int}
    (hne : pNow ≠ pLast) (hd : d.Favours pNow pLast)
    (h : signedPnlIncrement d.sign n pLast pNow = .ok pnl) : pnl.toNat = 0 := by
  unfold signedPnlIncrement at h
  obtain ⟨_, -, h⟩ := except_bind_ok.mp h
  obtain ⟨claim, -, h⟩ := except_bind_ok.mp h
  obtain ⟨_, -, h⟩ := except_bind_ok.mp h
  have hsign : ¬ 0 < (if pLast ≤ pNow then (1 : Int) else -1) * d.sign := by
    cases d with
    | long =>
      have hlt : ¬ pLast ≤ pNow := fun hle => hne (le_antisymm hd hle)
      rw [if_neg hlt]
      decide
    | short =>
      rw [if_pos (show pLast ≤ pNow from hd)]
      decide
  revert hsign h
  generalize (if pLast ≤ pNow then (1 : Int) else -1) * d.sign = sign
  intro h hsign
  by_cases h0 : sign = 0 ∨ claim = 0
  · rw [if_pos h0] at h
    cases h
    rfl
  · rw [if_neg h0, if_neg hsign] at h
    cases h
    simp

section Demands
variable {s : SubPool} {pNow : Nat} {demands : Demand × Demand} {d : Direction}

theorem syncDemands_reads (h : syncDemands s pNow = .ok demands) (d : Direction) :
    ∃ pre post pnl, (s.side d).dormant.totalOutstandingClaimAt s.lastPrice = .ok pre ∧
      (s.side d).dormant.totalOutstandingClaimAt pNow = .ok post ∧
      signedPnlIncrement d.sign (s.side d).activeNotional s.lastPrice pNow = .ok pnl ∧
      pnl.toNat + (post - pre) < u128Size ∧
      demandOf demands d = ⟨pnl.toNat, pnl.toNat + (post - pre)⟩ := by
  unfold syncDemands at h
  obtain ⟨preLong, h1, h⟩ := except_bind_ok.mp h
  obtain ⟨preShort, h2, h⟩ := except_bind_ok.mp h
  obtain ⟨longPnl, h3, h⟩ := except_bind_ok.mp h
  obtain ⟨shortPnl, h4, h⟩ := except_bind_ok.mp h
  obtain ⟨postLong, h5, h⟩ := except_bind_ok.mp h
  obtain ⟨postShort, h6, h⟩ := except_bind_ok.mp h
  obtain ⟨longTotal, h7, h⟩ := except_bind_ok.mp h
  obtain ⟨shortTotal, h8, h⟩ := except_bind_ok.mp h
  cases h
  obtain ⟨hl, rfl⟩ := math_add_ok.mp h7
  obtain ⟨hs, rfl⟩ := math_add_ok.mp h8
  cases d with
  | long => exact ⟨preLong, postLong, longPnl, h1, h5, math_ok.mp h3, hl, rfl⟩
  | short => exact ⟨preShort, postShort, shortPnl, h2, h6, math_ok.mp h4, hs, rfl⟩

theorem demandOf_eq (hs : s.Sound) (hc : s.Clear) (h : syncDemands s pNow = .ok demands)
    (d : Direction) :
    demandOf demands d = ⟨s.activeGain d pNow, s.activeGain d pNow + s.claimGain d pNow⟩ ∧
      s.activeGain d pNow + s.claimGain d pNow < u128Size := by
  obtain ⟨pre, post, pnl, hpre, hpost, hpnl, hlt, he⟩ := syncDemands_reads h d
  obtain ⟨rfl, -⟩ := DormantStore.totalOutstanding_clear (hs d).1 (hc d) hpre
  obtain ⟨rfl, -⟩ := DormantStore.totalOutstanding_clear (hs d).1 (hc d) hpost
  have ha : s.activeGain d pNow = pnl.toNat := by rw [SubPool.activeGain, hpnl]
  rw [ha]
  exact ⟨he, hlt⟩

theorem outstanding_follows (hs : s.Sound) (hc : s.Clear) (ha : (s.side d).dormant.Anchored)
    (h : syncDemands s pNow = .ok demands) :
    (d.Favours s.lastPrice pNow → (s.side d).dormant.outstandingTotal s.lastPrice
      ≤ (s.side d).dormant.outstandingTotal pNow) ∧
    (d.Favours pNow s.lastPrice → (s.side d).dormant.outstandingTotal pNow
      ≤ (s.side d).dormant.outstandingTotal s.lastPrice) := by
  obtain ⟨pre, post, pnl, hpre, hpost, -⟩ := syncDemands_reads h d
  obtain ⟨-, hipre⟩ := DormantStore.totalOutstanding_clear (hs d).1 (hc d) hpre
  obtain ⟨-, hipost⟩ := DormantStore.totalOutstanding_clear (hs d).1 (hc d) hpost
  have hdir := (hs d).2
  constructor
  · intro hf
    exact DormantStore.outstandingTotal_mono (hs d).1 ha (hdir.symm ▸ hf) hipre hipost
  · intro hf
    exact DormantStore.outstandingTotal_mono (hs d).1 ha (hdir.symm ▸ hf) hipost hipre

theorem demandOf_loser (hs : s.Sound) (hc : s.Clear) (ha : (s.side d).dormant.Anchored)
    (hne : pNow ≠ s.lastPrice) (hd : d.Favours pNow s.lastPrice)
    (h : syncDemands s pNow = .ok demands) : (demandOf demands d).total = 0 := by
  obtain ⟨he, -⟩ := demandOf_eq hs hc h d
  obtain ⟨-, -, pnl, -, -, hpnl, -⟩ := syncDemands_reads h d
  have hclaims := (outstanding_follows hs hc ha h).2 hd
  have hactive : s.activeGain d pNow = 0 := by
    rw [SubPool.activeGain, hpnl]
    exact signedPnlIncrement_against hne hd hpnl
  have hclaim : s.claimGain d pNow = 0 := Nat.sub_eq_zero_of_le hclaims
  rw [he, hactive, hclaim]

theorem settleDemands_winner {market : MarketParams} {s1 : SubPool} {long short : Inflow}
    (hs : s.Sound) (hc : s.Clear) (ha : ∀ d, (s.side d).dormant.Anchored)
    (hne : pNow ≠ s.lastPrice) (h : syncDemands s pNow = .ok demands)
    (hset : settleDemands market s pNow demands = .ok (s1, long, short)) :
    ∃ inflow, transferTo market s pNow (s.winner pNow) (demandOf demands (s.winner pNow))
      = .ok (s1, inflow) := by
  have hloser := demandOf_loser hs hc (ha _) hne s.winner_favours.opposite h
  have hidle : ∀ d, ¬ 0 < (demandOf demands d).total →
      transferTo market s pNow d (demandOf demands d) = .ok (s, .zero) := by
    intro d h0
    have hmin : min (demandOf demands d).total (s.side d.opposite).poolEquity = 0 := by omega
    unfold transferTo
    exact if_pos hmin
  unfold settleDemands at hset
  cases hw : s.winner pNow with
  | long =>
    rw [hw] at hloser
    have h2 : ¬ 0 < demands.2.total := by
      have h0 : demands.2.total = 0 := hloser
      omega
    by_cases h1 : 0 < demands.1.total
    · rw [if_pos h1] at hset
      obtain ⟨⟨t, i⟩, ht, hset⟩ := except_bind_ok.mp hset
      cases hset
      exact ⟨_, ht⟩
    · rw [if_neg h1, if_neg h2] at hset
      cases hset
      exact ⟨.zero, hidle .long h1⟩
  | short =>
    rw [hw] at hloser
    have h1 : ¬ 0 < demands.1.total := by
      have h0 : demands.1.total = 0 := hloser
      omega
    rw [if_neg h1] at hset
    by_cases h2 : 0 < demands.2.total
    · rw [if_pos h2] at hset
      obtain ⟨⟨t, i⟩, ht, hset⟩ := except_bind_ok.mp hset
      cases hset
      exact ⟨_, ht⟩
    · rw [if_neg h2] at hset
      cases hset
      exact ⟨.zero, hidle .short h2⟩

end Demands

structure PaidTo (s s1 : SubPool) (w : Direction) (pNow t : Nat) : Prop where
  loser : s1.side w.opposite
    = { s.side w.opposite with poolEquity := (s.side w.opposite).poolEquity - t }
  credited : (s1.side w).poolEquity + (s1.side w).dormant.values + (s1.side w).dust
    = (s.side w).poolEquity + (s.side w).dormant.values + (s.side w).dust + t
  equity_le : (s.side w).poolEquity ≤ (s1.side w).poolEquity
  values_le : (s.side w).dormant.values ≤ (s1.side w).dormant.values
  dust_le : (s.side w).dust ≤ (s1.side w).dust
  dust_bound : (s1.side w).dust ≤ (s.side w).dust + (s.side w).dormant.claimants pNow
  shares_eq : (s1.side w).activeShares = (s.side w).activeShares
  recovery_eq : (s1.side w).recoveryShares = (s.side w).recoveryShares

/-- What is left for recovery is never more than the recovery part of the demand. -/
theorem recovery_part_le {t active claim : Nat} (ht : t ≤ active + claim) :
    t - t * active / (active + claim) ≤ claim := by
  by_cases h0 : active + claim = 0
  · have hz : t = 0 := by omega
    rw [hz, Nat.zero_sub]
    exact Nat.zero_le _
  have hfloor : t - claim ≤ t * active / (active + claim) := by
    rw [Nat.le_div_iff_mul_le (Nat.pos_of_ne_zero h0), Nat.sub_mul, Nat.mul_add]
    have : t * claim ≤ claim * (active + claim) := by
      rw [Nat.mul_comm]
      exact Nat.mul_le_mul_left claim ht
    omega
  omega

theorem transferTo_paid {market : MarketParams} {s s1 : SubPool} {pNow : Nat}
    {w : Direction} {demand : Demand} {inflow : Inflow} (hs : s.Sound)
    (hclaim : demand.total - demand.active ≤ (s.side w).dormant.outstandingTotal pNow)
    (hle : demand.active ≤ demand.total) (hlt : demand.total < u128Size)
    (h : transferTo market s pNow w demand = .ok (s1, inflow)) :
    PaidTo s s1 w pNow (min demand.total (s.side w.opposite).poolEquity) := by
  cases transferTo_ok h with
  | inl h =>
    obtain ⟨h0, rfl, -⟩ := h
    rw [h0]
    exact ⟨rfl, rfl, le_rfl, le_rfl, le_rfl, Nat.le_add_right _ _, rfl, rfl⟩
  | inr h =>
    obtain ⟨t, a, x, ht, -, ha, hat, -, hx, -, rfl⟩ := h
    rw [← ht]
    have hax := (mulDivFloor_ok hlt ha).2
    have htle : t ≤ demand.active + (demand.total - demand.active) := by omega
    have hrec := recovery_part_le htle
    rw [Nat.add_sub_cancel' hle, ← hax] at hrec
    have hside : ((s.setSide w x).setSide w.opposite { s.side w.opposite with
        poolEquity := (s.side w.opposite).poolEquity - t }).side w = x :=
      SubPool.side_setSide_both s w x _
    have hloser := SubPool.side_setSide (s.setSide w x) w.opposite { s.side w.opposite with
        poolEquity := (s.side w.opposite).poolEquity - t }
    cases transferToRecovery_ok hx with
    | inl h =>
      obtain ⟨h0, rfl, -⟩ := h
      refine ⟨hloser, ?_, ?_, ?_, ?_, ?_, ?_, ?_⟩ <;> rw [hside]
      · simp only
        omega
      · exact Nat.le_add_right _ _
      · exact Nat.le_add_right _ _
    | inr h =>
      obtain ⟨dormant, r, h0, hr, rfl, -⟩ := h
      have hg := DormantStore.distributeBy_gained (hs w).1 hr
      have hres := DormantStore.residual_lt (Nat.pos_of_ne_zero h0) (hrec.trans hclaim)
      have hvalues := hg.values_eq
      have hsplit := hg.split
      rw [← hg.allocated_eq] at hres
      refine ⟨hloser, ?_, ?_, ?_, ?_, ?_, ?_, ?_⟩ <;> rw [hside]
      · simp only
        omega
      · exact Nat.le_add_right _ _
      · simp only
        omega
      · exact Nat.le_add_right _ _
      · simp only
        omega

def SyncOutcome.rotated (out : SyncOutcome) : Direction → Bool
  | .long => out.longRotatedToRecovery
  | .short => out.shortRotatedToRecovery

/-- One side at the end of a sync: it rotates exactly when its pool is empty. -/
inductive EndOfSync (market : MarketParams) (pNow : Nat) (x : Side) : Side → Bool → Prop
  | kept (h : ¬ (x.poolEquity = 0 ∧ 0 < x.activeShares)) : EndOfSync market pNow x x false
  | rotated (x' : Side) (h0 : x.poolEquity = 0) (hpos : 0 < x.activeShares)
      (h : Rotated market pNow x x') : EndOfSync market pNow x x' true

theorem rotateIfDrained_end {market : MarketParams} {s s' : SubPool} {envelope : PriceEnvelope}
    {d : Direction} {ev : Option ActiveRotatedToRecoveryEvent}
    (h : rotateIfDrained market s envelope d = .ok (s', ev)) :
    EndOfSync market envelope.pNow (s.side d) (s'.side d) ev.isSome ∧
      s'.side d.opposite = s.side d.opposite := by
  unfold rotateIfDrained at h
  by_cases hc : (s.side d).poolEquity = 0 ∧ 0 < (s.side d).activeShares
  · rw [if_pos hc] at h
    obtain ⟨tick, -, h⟩ := except_bind_ok.mp h
    obtain ⟨t, ht, h⟩ := except_bind_ok.mp h
    cases h
    obtain ⟨x, hx, rfl⟩ := rotateActiveToRecovery_ok hc.2.ne' ht
    rw [SubPool.side_setSide, SubPool.side_setSide_opposite]
    exact ⟨.rotated x hc.1 hc.2 hx, rfl⟩
  · rw [if_neg hc] at h
    cases h
    exact ⟨.kept hc, rfl⟩

theorem syncPool_moves {market : MarketParams} {s s' : SubPool} {envelope : PriceEnvelope}
    {out : SyncOutcome} (h0 : s.lastPrice ≠ 0) (hp : envelope.pNow ≠ s.lastPrice)
    (h : syncPool market s envelope = .ok (s', out)) :
    ∃ demands s1 long short, syncDemands s envelope.pNow = .ok demands ∧
      settleDemands market s envelope.pNow demands = .ok (s1, long, short) ∧
      ∀ d, EndOfSync market envelope.pNow (s1.side d) (s'.side d) (out.rotated d) := by
  unfold syncPool at h
  obtain ⟨_, -, h⟩ := except_bind_ok.mp h
  rw [if_neg h0, if_neg hp] at h
  unfold movePrice at h
  obtain ⟨_, -, h⟩ := except_bind_ok.mp h
  obtain ⟨_, -, h⟩ := except_bind_ok.mp h
  obtain ⟨demands, hdem, h⟩ := except_bind_ok.mp h
  obtain ⟨⟨s1, long, short⟩, hset, h⟩ := except_bind_ok.mp h
  obtain ⟨⟨s2, lr⟩, hl, h⟩ := except_bind_ok.mp h
  obtain ⟨⟨s3, sr⟩, hsh, h⟩ := except_bind_ok.mp h
  obtain ⟨_, -, h⟩ := except_bind_ok.mp h
  cases h
  refine ⟨demands, s1, long, short, hdem, hset, fun d => ?_⟩
  obtain ⟨hl, hl'⟩ := rotateIfDrained_end hl
  obtain ⟨hsh, hsh'⟩ := rotateIfDrained_end hsh
  cases d with
  | long =>
    have he : s'.side .long = s2.side .long := hsh'
    rw [SubPool.side_atPrice] at hl
    rw [he]
    exact hl
  | short =>
    have he : s2.side .short = s1.side .short := by
      rw [← s1.side_atPrice envelope]
      exact hl'
    rw [he] at hsh
    exact hsh

namespace EndOfSync
variable {market : MarketParams} {pNow : Nat} {x x' : Side} {b : Bool}

theorem frame (h : EndOfSync market pNow x x' b) :
    x'.poolEquity = x.poolEquity ∧ x'.dust = x.dust := by
  cases h with
  | kept _ => exact ⟨rfl, rfl⟩
  | rotated _ h0 hpos h =>
    obtain ⟨tick, dormant, -, -, -, -, rfl⟩ := h
    exact ⟨rfl, rfl⟩

theorem rotated_iff (h : EndOfSync market pNow x x' b) :
    b = true ↔ x'.poolEquity = 0 ∧ 0 < x.activeShares := by
  rw [h.frame.1]
  cases h with
  | kept h => exact iff_of_false Bool.false_ne_true h
  | rotated _ h0 hpos h => exact iff_of_true rfl ⟨h0, hpos⟩

theorem stay (h : EndOfSync market pNow x x' b) (hb : b = false) : x' = x := by
  cases h with
  | kept _ => rfl
  | rotated _ _ _ _ => cases hb

theorem rotated_shares (h : EndOfSync market pNow x x' b) (hb : b = true) :
    x'.activeShares = 0 ∧ x'.recoveryShares = x.recoveryShares + x.activeShares := by
  cases h with
  | kept _ => cases hb
  | rotated _ _ _ h =>
    obtain ⟨tick, dormant, -, -, -, -, rfl⟩ := h
    exact ⟨rfl, rfl⟩

theorem joins (h : EndOfSync market pNow x x' b) (hb : b = true) (hi : x.dormant.Inv)
    (h0 : x.dormant.pendingDistributionTotal = 0) :
    ∃ tick, bucketTickOf market pNow = .ok tick ∧
      x.dormant.Enlarged x'.dormant tick pNow x.activeShares x.activeNotional 1 := by
  cases h with
  | kept _ => cases hb
  | rotated _ _ _ h =>
    obtain ⟨tick, dormant, ht, hd, -, -, rfl⟩ := h
    exact ⟨tick, ht, DormantStore.insertOrMerge_enlarged hi h0 hd⟩

end EndOfSync

structure PriceSettled (market : MarketParams) (s s' : SubPool) (out : SyncOutcome) (pNow : Nat) :
    Prop where
  /-- The loser pays the winner's demand, as far as its pool goes. -/
  debited : (s'.side (s.winner pNow).opposite).poolEquity + s.transferred pNow
    = (s.side (s.winner pNow).opposite).poolEquity
  /-- All of it goes to the winner's pool, buckets and dust. -/
  credited : (s'.side (s.winner pNow)).poolEquity + (s'.side (s.winner pNow)).dormant.values
      + (s'.side (s.winner pNow)).dust
    = (s.side (s.winner pNow)).poolEquity + (s.side (s.winner pNow)).dormant.values
      + (s.side (s.winner pNow)).dust + s.transferred pNow
  equity_le : (s.side (s.winner pNow)).poolEquity ≤ (s'.side (s.winner pNow)).poolEquity
  values_le : (s.side (s.winner pNow)).dormant.values ≤ (s'.side (s.winner pNow)).dormant.values
  dust_le : (s.side (s.winner pNow)).dust ≤ (s'.side (s.winner pNow)).dust
  dust_bound : (s'.side (s.winner pNow)).dust
    ≤ (s.side (s.winner pNow)).dust + (s.side (s.winner pNow)).dormant.claimants pNow
  /-- Dust and buckets of the loser stay, but for the bucket of its rotation. -/
  loserDust : (s'.side (s.winner pNow).opposite).dust = (s.side (s.winner pNow).opposite).dust
  loserKept : out.rotated (s.winner pNow).opposite = false →
    (s'.side (s.winner pNow).opposite).dormant = (s.side (s.winner pNow).opposite).dormant
  loserJoined : out.rotated (s.winner pNow).opposite = true →
    ∃ tick, bucketTickOf market pNow = .ok tick ∧
      (s.side (s.winner pNow).opposite).dormant.Enlarged
        (s'.side (s.winner pNow).opposite).dormant tick pNow
        (s.side (s.winner pNow).opposite).activeShares
        (s.side (s.winner pNow).opposite).activeNotional 1
  /-- A side rotates exactly when its pool ends empty with shares outstanding. -/
  rotated_iff : ∀ d, out.rotated d = true ↔
    (s'.side d).poolEquity = 0 ∧ 0 < (s.side d).activeShares
  rotated_shares : ∀ d, out.rotated d = true → (s'.side d).activeShares = 0 ∧
    (s'.side d).recoveryShares = (s.side d).recoveryShares + (s.side d).activeShares
  kept_shares : ∀ d, out.rotated d = false →
    (s'.side d).activeShares = (s.side d).activeShares
  winnerKept : out.rotated (s.winner pNow) = false

section Settle
variable {market : MarketParams} {s s' : SubPool} {envelope : PriceEnvelope} {out : SyncOutcome}

theorem seeded_settled (hz : ∀ d, (s.side d).poolEquity = 0 ↔ (s.side d).activeShares = 0)
    (h0 : ∀ d, (s.side d).poolEquity = 0) :
    PriceSettled market s (s.atPrice envelope) .default envelope.pNow := by
  have ht : s.transferred envelope.pNow = 0 := by
    rw [SubPool.transferred, h0, Nat.min_zero]
  have hr : ∀ d, SyncOutcome.default.rotated d = false := fun d => by cases d <;> rfl
  have hside := s.side_atPrice envelope
  constructor
  · rw [hside, ht, Nat.add_zero]
  · rw [hside, ht, Nat.add_zero]
  · rw [hside]
  · rw [hside]
  · rw [hside]
  · rw [hside]
    exact Nat.le_add_right _ _
  · rw [hside]
  · intro _
    rw [hside]
  · intro h
    rw [hr] at h
    cases h
  · intro d
    rw [hr]
    refine iff_of_false Bool.false_ne_true fun h => ?_
    have := (hz d).mp (h0 d)
    omega
  · intro d h
    rw [hr] at h
    cases h
  · intro d _
    rw [hside]
  · exact hr _

theorem PaidTo.shares {s1 : SubPool} {w : Direction} {pNow t : Nat}
    (h : PaidTo s s1 w pNow t) (d : Direction) :
    (s1.side d).activeShares = (s.side d).activeShares ∧
      (s1.side d).recoveryShares = (s.side d).recoveryShares := by
  by_cases hd : d = w
  · rw [hd]
    exact ⟨h.shares_eq, h.recovery_eq⟩
  · rw [Direction.ne_iff.mp hd, h.loser]
    exact ⟨rfl, rfl⟩

theorem moved_settled (hs : s.Sound) (hc : s.Clear)
    (ha : ∀ d, (s.side d).dormant.Anchored)
    (hz : ∀ d, (s.side d).poolEquity = 0 ↔ (s.side d).activeShares = 0)
    (h0 : s.lastPrice ≠ 0) (hp : envelope.pNow ≠ s.lastPrice)
    (h : syncPool market s envelope = .ok (s', out)) :
    PriceSettled market s s' out envelope.pNow := by
  obtain ⟨demands, s1, long, short, hdem, hset, hend⟩ := syncPool_moves h0 hp h
  obtain ⟨inflow, htr⟩ := settleDemands_winner hs hc ha hp hdem hset
  have hm := settleDemands_moved hs hset
  generalize hw : s.winner envelope.pNow = winner at htr
  obtain ⟨he, hlt⟩ := demandOf_eq hs hc hdem winner
  rw [he] at htr
  have hclaim : s.activeGain winner envelope.pNow + s.claimGain winner envelope.pNow
      - s.activeGain winner envelope.pNow
      ≤ (s.side winner).dormant.outstandingTotal envelope.pNow := by
    rw [Nat.add_sub_cancel_left]
    exact Nat.sub_le _ _
  have ht := transferTo_paid hs hclaim (Nat.le_add_right _ _) hlt htr
  have htrans : s.transferred envelope.pNow = min (s.activeGain winner envelope.pNow
      + s.claimGain winner envelope.pNow) (s.side winner.opposite).poolEquity := by
    rw [SubPool.transferred, hw]
  rw [← htrans] at ht
  have hle : s.transferred envelope.pNow ≤ (s.side winner.opposite).poolEquity :=
    htrans ▸ Nat.min_le_right _ _
  have hstay : out.rotated winner = false := by
    by_contra hr
    obtain ⟨hempty, hpos⟩ := (hend winner).rotated_iff.mp (Bool.eq_true_of_not_eq_false hr)
    rw [(hend winner).frame.1] at hempty
    rw [(ht.shares winner).1] at hpos
    have hequity := ht.equity_le
    have := (hz winner).mp (by omega)
    omega
  have hwin := (hend winner).stay hstay
  have hlose := hend winner.opposite
  have hstore : (s1.side winner.opposite).dormant = (s.side winner.opposite).dormant := by
    rw [ht.loser]
  have hloseEquity : (s1.side winner.opposite).poolEquity
      = (s.side winner.opposite).poolEquity - s.transferred envelope.pNow := by
    rw [ht.loser]
  constructor
  · rw [hw, hlose.frame.1, hloseEquity]
    omega
  · rw [hw, hwin]
    exact ht.credited
  · rw [hw, hwin]
    exact ht.equity_le
  · rw [hw, hwin]
    exact ht.values_le
  · rw [hw, hwin]
    exact ht.dust_le
  · rw [hw, hwin]
    exact ht.dust_bound
  · rw [hw, hlose.frame.2, ht.loser]
  · rw [hw]
    intro hr
    rw [hlose.stay hr, hstore]
  · rw [hw]
    intro hr
    have hinv := (hm.sound winner.opposite).1
    have hclear := hc winner.opposite
    rw [← hstore] at hclear
    obtain ⟨tick, htick, hjoin⟩ := hlose.joins hr hinv hclear
    rw [ht.loser] at hjoin
    exact ⟨tick, htick, hjoin⟩
  · intro d
    rw [(hend d).rotated_iff, (ht.shares d).1]
  · intro d hr
    rw [← (ht.shares d).1, ← (ht.shares d).2]
    exact (hend d).rotated_shares hr
  · intro d hr
    rw [(hend d).stay hr, (ht.shares d).1]
  · rw [hw]
    exact hstay

end Settle

theorem World.Inv.empty_of_unpriced {w : World} (h : w.Inv) (h0 : w.subPool.lastPrice = 0)
    (d : Direction) : (w.subPool.side d).poolEquity = 0 := by
  have hprincipals : principals w.positions = 0 :=
    OrdMap.sum_zero_iff.mpr fun k p hk => absurd h0 (h.price_pos k p hk)
  have hvalue := h.value_le
  have hside := w.subPool.side_value_le d
  unfold Side.value at hside
  omega

/-- A sync of an eager market moves exactly the winner's demand, capped by the loser's pool, from
    the loser's pool to the winner. -/
theorem sync_settles_price (w : World) (h : w.EagerReached) (market : MarketParams)
    (envelope : PriceEnvelope) (s' : SubPool) (out : SyncOutcome)
    (hs : syncPool market w.subPool envelope = .ok (s', out))
    (hp : envelope.pNow ≠ w.subPool.lastPrice) :
    PriceSettled market w.subPool s' out envelope.pNow ∧
    (w.subPool.lastPrice ≠ 0 → ∀ d, (d = w.subPool.winner envelope.pNow →
      (w.subPool.side d).dormant.outstandingTotal w.subPool.lastPrice
        ≤ (w.subPool.side d).dormant.outstandingTotal envelope.pNow) ∧
      (d ≠ w.subPool.winner envelope.pNow → w.subPool.activeGain d envelope.pNow = 0 ∧
        w.subPool.claimGain d envelope.pNow = 0)) := by
  have hi := h.reached.inv
  have ha := h.reached.anchored
  by_cases h0 : w.subPool.lastPrice = 0
  · refine ⟨?_, fun hne => absurd h0 hne⟩
    obtain ⟨-, hsync, -⟩ := syncPool_ok hs
    cases hsync with
    | seeded _ => exact seeded_settled hi.zeroIff (hi.empty_of_unpriced h0)
    | still hne _ => exact absurd h0 hne
    | moved _ _ _ _ _ _ _ _ _ hne => exact absurd h0 hne
  · refine ⟨moved_settled hi.sound h.clear ha hi.zeroIff h0 hp hs, fun _ d => ?_⟩
    obtain ⟨demands, -, -, -, hdem, -⟩ := syncPool_moves h0 hp hs
    refine ⟨fun hd => ?_, fun hd => ?_⟩
    · rw [hd]
      exact (outstanding_follows hi.sound h.clear (ha _) hdem).1 w.subPool.winner_favours
    · have hf : d.Favours envelope.pNow w.subPool.lastPrice := by
        rw [Direction.ne_iff.mp hd]
        exact w.subPool.winner_favours.opposite
      have htotal := demandOf_loser hi.sound h.clear (ha d) hp hf hdem
      rw [(demandOf_eq hi.sound h.clear hdem d).1] at htotal
      exact Nat.add_eq_zero_iff.mp htotal

theorem smallRun_eager (ops : List EngineOp) : (smallRun .eager ops).2.EagerReached := by
  refine ⟨0, _, 0, ops.map (smallMarket .eager, ·), ?_, rfl⟩
  intro op hop
  obtain ⟨o, -, rfl⟩ := List.mem_map.mp hop
  rfl

/-- A long position rotated out at 88, its claim against the short pool still open. -/
def longRotated : World := (smallRun .eager
  [.open (quoteAt (amount 100)) .long (amount 100) (amount 1),
    .open (quoteAt (amount 100)) .short (amount 300) (amount 2), .sync (quoteAt (amount 88))]).2

/-- At 95 the short pool pays 79 to the bucket of the long side. -/
theorem longRotated_recovers : ∃ s' out,
    syncPool (smallMarket .eager) longRotated.subPool (quoteAt (amount 95)) = .ok (s', out) ∧
    s'.short.poolEquity + 79 = longRotated.subPool.short.poolEquity ∧
    PriceSettled (smallMarket .eager) longRotated.subPool s' out 95 := by
  have hok : (syncPool (smallMarket .eager) longRotated.subPool (quoteAt (amount 95))).isOk
      = true := by
    decide +kernel
  have hne : (quoteAt (amount 95)).pNow ≠ longRotated.subPool.lastPrice := by decide +kernel
  have hw : longRotated.subPool.winner 95 = .long := by decide +kernel
  have ht : longRotated.subPool.transferred 95 = 79 := by decide +kernel
  cases hs : syncPool (smallMarket .eager) longRotated.subPool (quoteAt (amount 95)) with
  | error e =>
    rw [hs] at hok
    cases hok
  | ok r =>
    have h := (sync_settles_price longRotated (smallRun_eager _) _ (quoteAt (amount 95)) r.1 r.2 hs
      hne).1
    have hdebit := h.debited
    change (r.1.side (longRotated.subPool.winner 95).opposite).poolEquity
      + longRotated.subPool.transferred 95 = _ at hdebit
    rw [hw, ht] at hdebit
    exact ⟨r.1, r.2, rfl, hdebit, h⟩

end MoleFinance
