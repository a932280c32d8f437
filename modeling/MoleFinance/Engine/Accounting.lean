import MoleFinance.Engine.Operations
import MoleFinance.Dormant.Holdings

/-! Where the funds of a sub-pool are, and what each engine call moves. The value counts every
unit; the reserve counts pool equity and the allocations still in the ledger windows, which
bounds the recorded distributions by what the pools have left. -/
namespace MoleFinance
open MoleMath Call

namespace Side

def value (x : Side) : Nat := x.poolEquity + x.dormant.funds + x.dust

def reserve (x : Side) : Nat := x.poolEquity + x.dormant.window

end Side

namespace SubPool

def value (s : SubPool) : Nat := s.long.value + s.short.value

def reserve (s : SubPool) : Nat := s.long.reserve + s.short.reserve

def Sound (s : SubPool) : Prop :=
  ∀ d, (s.side d).dormant.Inv ∧ (s.side d).dormant.direction = d

theorem new_sound (id price slot : Nat) : (new id price slot).Sound := by
  intro d
  rw [side_new]
  exact ⟨DormantStore.new_inv d, rfl⟩

theorem value_setSide (s : SubPool) (d : Direction) (x : Side) :
    (s.setSide d x).value + (s.side d).value = s.value + x.value := by
  cases d <;> simp only [value, setSide, side] <;> omega

theorem reserve_setSide (s : SubPool) (d : Direction) (x : Side) :
    (s.setSide d x).reserve + (s.side d).reserve = s.reserve + x.reserve := by
  cases d <;> simp only [reserve, setSide, side] <;> omega

theorem Sound.setSide {s : SubPool} (h : s.Sound) {d : Direction} {x : Side}
    (hi : x.dormant.Inv) (hd : x.dormant.direction = d) : (s.setSide d x).Sound := by
  intro e
  rw [side_setSide_eq]
  split_ifs with he
  · exact ⟨hi, he ▸ hd⟩
  · exact h e

theorem Sound.of_sides {s t : SubPool} (h : s.Sound) (hs : ∀ d, t.side d = s.side d) :
    t.Sound := by
  intro d
  rw [hs]
  exact h d

theorem side_value_le (s : SubPool) (d : Direction) : (s.side d).value ≤ s.value := by
  cases d <;> simp only [side, value] <;> omega

end SubPool

/-- A step that pays `paid` out of the sub-pool and takes `received` in. -/
structure Moved (s s' : SubPool) (paid received : Nat) : Prop where
  sound : s'.Sound
  value_eq : s'.value + paid = s.value + received
  reserve_le : s'.reserve ≤ s.reserve + received

namespace Moved

theorem refl {s : SubPool} (h : s.Sound) : Moved s s 0 0 := ⟨h, rfl, le_rfl⟩

theorem trans {s s' s'' : SubPool} {a b c d : Nat} (h : Moved s s' a b) (h' : Moved s' s'' c d) :
    Moved s s'' (a + c) (b + d) where
  sound := h'.sound
  value_eq := by
    have := h.value_eq
    have := h'.value_eq
    omega
  reserve_le := by
    have := h.reserve_le
    have := h'.reserve_le
    omega

theorem after {s s' s'' : SubPool} {a b : Nat} (h : Moved s s' 0 0) (h' : Moved s' s'' a b) :
    Moved s s'' a b := by
  have := h.trans h'
  rwa [Nat.zero_add, Nat.zero_add] at this

theorem setSide {s : SubPool} (h : s.Sound) {d : Direction} {x : Side} {paid received : Nat}
    (hi : x.dormant.Inv) (hd : x.dormant.direction = d)
    (hv : x.value + paid = (s.side d).value + received)
    (hr : x.reserve ≤ (s.side d).reserve + received) : Moved s (s.setSide d x) paid received where
  sound := h.setSide hi hd
  value_eq := by
    have := s.value_setSide d x
    omega
  reserve_le := by
    have := s.reserve_setSide d x
    omega

end Moved

theorem transferToRecovery_ok {market : MarketParams} {p a inflow residual : Nat} {x x' : Side}
    (h : transferToRecovery market p a x = .ok (x', inflow, residual)) :
    (a = 0 ∧ x' = x ∧ inflow = 0 ∧ residual = 0) ∨
    ∃ dormant r, a ≠ 0 ∧ DormantStore.distributeBy market.dormantDistributeMode p a
        market.maxDistributionLedgerSize x.dormant = .ok r dormant ∧
      x' = { x with dormant := dormant, dust := x.dust + r.residual } ∧
      inflow = a - r.residual ∧ residual = r.residual := by
  unfold transferToRecovery at h
  by_cases ha : a = 0
  · rw [if_pos ha] at h
    cases h
    exact .inl ⟨ha, rfl, rfl, rfl⟩
  rw [if_neg ha, except_bind_ok] at h
  obtain ⟨⟨dormant, r⟩, hd, h⟩ := h
  obtain ⟨dust, hdu, h⟩ := except_bind_ok.mp h
  obtain ⟨i, hi, h⟩ := except_bind_ok.mp h
  cases h
  exact .inr ⟨dormant, r, ha, commit_ok.mp hd, by rw [addShare_ok hdu], (math_sub_ok.mp hi).2, rfl⟩

theorem transferToRecovery_effect {market : MarketParams} {p a inflow residual : Nat}
    {x x' : Side} (h : transferToRecovery market p a x = .ok (x', inflow, residual))
    (hi : x.dormant.Inv) :
    x'.dormant.Inv ∧ x'.dormant.direction = x.dormant.direction ∧ x'.poolEquity = x.poolEquity ∧
      x'.value = x.value + a ∧ x'.reserve ≤ x.reserve + a ∧ inflow + residual = a := by
  cases transferToRecovery_ok h with
  | inl h =>
    obtain ⟨rfl, rfl, rfl, rfl⟩ := h
    exact ⟨hi, rfl, rfl, rfl, le_rfl, rfl⟩
  | inr h =>
    obtain ⟨dormant, r, -, hr, rfl, rfl, rfl⟩ := h
    have he := DormantStore.distributeBy_effect hi hr
    have hs := he.split
    have hf := he.funds_eq
    have hw := he.window_le
    refine ⟨he.inv, he.direction_eq, rfl, ?_, ?_, by omega⟩
    · simp only [Side.value]
      omega
    · simp only [Side.reserve]
      omega

theorem transferTo_ok {market : MarketParams} {s s' : SubPool} {p : Nat} {w : Direction}
    {demand : Demand} {inflow : Inflow} (h : transferTo market s p w demand = .ok (s', inflow)) :
    (min demand.total (s.side w.opposite).poolEquity = 0 ∧ s' = s ∧ inflow = .zero) ∨
    ∃ t a x, t = min demand.total (s.side w.opposite).poolEquity ∧ t ≠ 0 ∧
      mulDivFloor t demand.active demand.total = .ok a ∧ a ≤ t ∧
      (s.side w).poolEquity + a < u128Size ∧
      transferToRecovery market p (t - a)
        { s.side w with poolEquity := (s.side w).poolEquity + a }
          = .ok (x, inflow.toRecovery, inflow.residualToDust) ∧
      inflow.toPool = a ∧
      s' = (s.setSide w x).setSide w.opposite { s.side w.opposite with
        poolEquity := (s.side w.opposite).poolEquity - t } := by
  unfold transferTo at h
  by_cases ht : min demand.total (s.side w.opposite).poolEquity = 0
  · rw [if_pos ht] at h
    cases h
    exact .inl ⟨ht, rfl, rfl⟩
  rw [if_neg ht] at h
  obtain ⟨a, ha, h⟩ := except_bind_ok.mp h
  obtain ⟨rec, hrec, h⟩ := except_bind_ok.mp h
  obtain ⟨eq, heq, h⟩ := except_bind_ok.mp h
  obtain ⟨leq, hleq, h⟩ := except_bind_ok.mp h
  obtain ⟨⟨x, i, res⟩, hx, h⟩ := except_bind_ok.mp h
  cases h
  obtain ⟨hle, rfl⟩ := math_sub_ok.mp hrec
  obtain ⟨hlt, rfl⟩ := math_add_ok.mp heq
  obtain ⟨-, rfl⟩ := math_sub_ok.mp hleq
  exact .inr ⟨_, a, x, rfl, ht, math_ok.mp ha, hle, hlt, hx, rfl, rfl⟩

theorem transferTo_moved {market : MarketParams} {s s' : SubPool} {p : Nat} {w : Direction}
    {demand : Demand} {inflow : Inflow} (hs : s.Sound)
    (h : transferTo market s p w demand = .ok (s', inflow)) : Moved s s' 0 0 := by
  cases transferTo_ok h with
  | inl h =>
    obtain ⟨-, rfl, -⟩ := h
    exact .refl hs
  | inr h =>
    obtain ⟨t, a, x, ht, -, -, hat, -, hx, -, rfl⟩ := h
    obtain ⟨hi, hd, -, hv, hr, -⟩ := transferToRecovery_effect hx (hs w).1
    have hsw := hs.setSide hi (hd.trans (hs w).2)
    have hle : t ≤ (s.side w.opposite).poolEquity := ht ▸ Nat.min_le_right _ _
    have hv1 := s.value_setSide w x
    have hr1 := s.reserve_setSide w x
    generalize hy : { s.side w.opposite with poolEquity := (s.side w.opposite).poolEquity - t } = y
    have hv2 := (s.setSide w x).value_setSide w.opposite y
    have hr2 := (s.setSide w x).reserve_setSide w.opposite y
    have hyv : y.value + t = (s.side w.opposite).value := by
      simp only [← hy, Side.value]
      omega
    have hyr : y.reserve + t = (s.side w.opposite).reserve := by
      simp only [← hy, Side.reserve]
      omega
    have hys : ((s.setSide w x).setSide w.opposite y).Sound := by
      refine hsw.setSide ?_ ?_
      · rw [← hy]
        exact (hs _).1
      · rw [← hy]
        exact (hs _).2
    rw [SubPool.side_setSide_opposite] at hv2 hr2
    have hxv : x.value = (s.side w).value + t := by
      simp only [Side.value] at hv ⊢
      omega
    have hxr : x.reserve ≤ (s.side w).reserve + t := by
      simp only [Side.reserve] at hr ⊢
      omega
    exact ⟨hys, by omega, by omega⟩

theorem settleDemands_moved {market : MarketParams} {s s' : SubPool} {p : Nat}
    {demands : Demand × Demand} {long short : Inflow} (hs : s.Sound)
    (h : settleDemands market s p demands = .ok (s', long, short)) : Moved s s' 0 0 := by
  unfold settleDemands at h
  split_ifs at h with h1 h2
  · obtain ⟨⟨t, i⟩, ht, h⟩ := except_bind_ok.mp h
    cases h
    exact transferTo_moved hs ht
  · obtain ⟨⟨t, i⟩, ht, h⟩ := except_bind_ok.mp h
    cases h
    exact transferTo_moved hs ht
  · cases h
    exact .refl hs

theorem atPrice_moved {s : SubPool} (hs : s.Sound) (envelope : PriceEnvelope) :
    Moved s (s.atPrice envelope) 0 0 :=
  ⟨hs.of_sides (s.side_atPrice envelope), rfl, le_rfl⟩

structure Rotated (market : MarketParams) (p : Nat) (x x' : Side) : Prop where
  tick : ∃ tick dormant, bucketTickOf market p = .ok tick ∧
    DormantStore.insertOrMerge tick p x.activeShares x.activeNotional 1
      market.maxDormantBucketCountPerDirection x.dormant = .ok () dormant ∧
    x.recoveryShares + x.activeShares < u128Size ∧
    x.activeGeneration + 1 < u64Size ∧
    x' = { x with
      dormant := dormant
      recoveryShares := x.recoveryShares + x.activeShares
      activeShares := 0
      activeNotional := 0
      rotateLog := x.rotateLog ++ [⟨x.activeGeneration, tick, p⟩]
      activeGeneration := x.activeGeneration + 1 }

theorem rotateActiveToRecovery_ok {market : MarketParams} {s s' : SubPool} {d : Direction}
    {p : Nat} (h0 : (s.side d).activeShares ≠ 0)
    (h : rotateActiveToRecovery market s d p = .ok s') :
    ∃ x, Rotated market p (s.side d) x ∧ s' = s.setSide d x := by
  unfold rotateActiveToRecovery at h
  rw [if_neg h0] at h
  obtain ⟨tick, ht, h⟩ := except_bind_ok.mp h
  obtain ⟨⟨dormant, u⟩, hd, h⟩ := except_bind_ok.mp h
  obtain ⟨rec, hr, h⟩ := except_bind_ok.mp h
  obtain ⟨x, hx, h⟩ := except_bind_ok.mp h
  obtain ⟨hlt, rfl⟩ := math_add_ok.mp hr
  obtain ⟨_, hg, hx⟩ := except_bind_ok.mp hx
  cases hx
  cases h
  exact ⟨_, ⟨tick, dormant, ht, commit_ok.mp hd, hlt, ensure_ok.mp hg, rfl⟩, rfl⟩

theorem rotateIfDrained_ok {market : MarketParams} {s s' : SubPool} {envelope : PriceEnvelope}
    {d : Direction} {ev : Option ActiveRotatedToRecoveryEvent}
    (h : rotateIfDrained market s envelope d = .ok (s', ev)) :
    (¬ ((s.side d).poolEquity = 0 ∧ 0 < (s.side d).activeShares) ∧ s' = s ∧ ev = none) ∨
    ((s.side d).poolEquity = 0 ∧ 0 < (s.side d).activeShares ∧
      ∃ x, Rotated market envelope.pNow (s.side d) x ∧ s' = s.setSide d x) := by
  unfold rotateIfDrained at h
  by_cases hc : (s.side d).poolEquity = 0 ∧ 0 < (s.side d).activeShares
  · rw [if_pos hc] at h
    obtain ⟨tick, -, h⟩ := except_bind_ok.mp h
    obtain ⟨t, ht, h⟩ := except_bind_ok.mp h
    cases h
    exact .inr ⟨hc.1, hc.2, rotateActiveToRecovery_ok hc.2.ne' ht⟩
  · rw [if_neg hc] at h
    cases h
    exact .inl ⟨hc, rfl, rfl⟩

theorem rotateIfDrained_other {market : MarketParams} {s s' : SubPool}
    {envelope : PriceEnvelope} {d e : Direction} {ev : Option ActiveRotatedToRecoveryEvent}
    (h : rotateIfDrained market s envelope d = .ok (s', ev)) (he : e ≠ d) :
    s'.side e = s.side e := by
  cases rotateIfDrained_ok h with
  | inl h => rw [h.2.1]
  | inr h =>
    obtain ⟨-, -, x, -, rfl⟩ := h
    exact s.side_setSide_of_ne x he

theorem rotateIfDrained_moved {market : MarketParams} {s s' : SubPool}
    {envelope : PriceEnvelope} {d : Direction} {ev : Option ActiveRotatedToRecoveryEvent}
    (hs : s.Sound) (h : rotateIfDrained market s envelope d = .ok (s', ev)) :
    Moved s s' 0 0 := by
  cases rotateIfDrained_ok h with
  | inl h =>
    obtain ⟨-, rfl, -⟩ := h
    exact .refl hs
  | inr h =>
    obtain ⟨-, -, x, ⟨tick, dormant, -, hd, -, -, rfl⟩, rfl⟩ := h
    have he := DormantStore.insertOrMerge_effect (hs d).1 hd
    refine .setSide hs he.inv (he.direction_eq.trans (hs d).2) ?_ ?_
    · simp only [Side.value, he.funds_eq]
    · exact Nat.add_le_add_left he.window_le _

inductive Synced (market : MarketParams) (s : SubPool) (envelope : PriceEnvelope) :
    SubPool → SyncOutcome → Prop where
  | seeded (h0 : s.lastPrice = 0) :
      Synced market s envelope (s.atPrice envelope) .default
  | still (h0 : s.lastPrice ≠ 0) (hp : envelope.pNow = s.lastPrice) :
      Synced market s envelope { s with lastSyncSlot := envelope.slot } .default
  | moved (demands : Demand × Demand) (s1 s2 s3 : SubPool) (long short : Inflow)
      (longRotated shortRotated : Option ActiveRotatedToRecoveryEvent) (out : SyncOutcome)
      (h0 : s.lastPrice ≠ 0) (hp : envelope.pNow ≠ s.lastPrice)
      (hdem : syncDemands s envelope.pNow = .ok demands)
      (hset : settleDemands market s envelope.pNow demands = .ok (s1, long, short))
      (hlong : rotateIfDrained market (s1.atPrice envelope) envelope .long = .ok (s2, longRotated))
      (hshort : rotateIfDrained market s2 envelope .short = .ok (s3, shortRotated)) :
      Synced market s envelope s3 out

theorem syncPool_ok {market : MarketParams} {s s' : SubPool} {envelope : PriceEnvelope}
    {out : SyncOutcome} (h : syncPool market s envelope = .ok (s', out)) :
    syncGuards market envelope = .ok () ∧ Synced market s envelope s' out ∧
      checkSubpoolInvariants s' = .ok () := by
  unfold syncPool at h
  obtain ⟨_, hg, h⟩ := except_bind_ok.mp h
  refine ⟨hg, ?_⟩
  split_ifs at h with h0 hp
  · obtain ⟨_, hc, h⟩ := except_bind_ok.mp h
    cases h
    exact ⟨.seeded h0, hc⟩
  · obtain ⟨_, hc, h⟩ := except_bind_ok.mp h
    cases h
    exact ⟨.still h0 hp, hc⟩
  · unfold movePrice at h
    obtain ⟨_, -, h⟩ := except_bind_ok.mp h
    obtain ⟨_, -, h⟩ := except_bind_ok.mp h
    obtain ⟨demands, hdem, h⟩ := except_bind_ok.mp h
    obtain ⟨⟨s1, long, short⟩, hset, h⟩ := except_bind_ok.mp h
    obtain ⟨⟨s2, lr⟩, hl, h⟩ := except_bind_ok.mp h
    obtain ⟨⟨s3, sr⟩, hsh, h⟩ := except_bind_ok.mp h
    obtain ⟨_, hc, h⟩ := except_bind_ok.mp h
    cases h
    exact ⟨.moved demands s1 s2 _ long short lr sr _ h0 hp hdem hset hl hsh, hc⟩

theorem syncPool_moved {market : MarketParams} {s s' : SubPool} {envelope : PriceEnvelope}
    {out : SyncOutcome} (hs : s.Sound) (h : syncPool market s envelope = .ok (s', out)) :
    Moved s s' 0 0 := by
  obtain ⟨-, hsync, -⟩ := syncPool_ok h
  cases hsync with
  | seeded h0 => exact atPrice_moved hs envelope
  | still h0 hp => exact ⟨hs.of_sides (fun d => by cases d <;> rfl), rfl, le_rfl⟩
  | moved demands s1 s2 _ long short lr sr _ h0 hp hdem hset hl hsh =>
    have h1 := settleDemands_moved hs hset
    have h2 := atPrice_moved h1.sound envelope
    have h3 := rotateIfDrained_moved h2.sound hl
    exact h1.after (h2.after (h3.after (rotateIfDrained_moved h3.sound hsh)))

theorem burnActive_ok {s s' : SubPool} {p p' : Position} {value : Nat}
    (h : burnActive s p value = .ok (s', p')) :
    value ≤ (s.side p.direction).poolEquity ∧
    p.activeShares ≤ (s.side p.direction).activeShares ∧
    p.notional ≤ (s.side p.direction).activeNotional ∧
    s' = s.setSide p.direction { s.side p.direction with
      poolEquity := (s.side p.direction).poolEquity - value
      activeShares := (s.side p.direction).activeShares - p.activeShares
      activeNotional := (s.side p.direction).activeNotional - p.notional } ∧
    p' = { p with activeShares := 0 } := by
  unfold burnActive at h
  obtain ⟨e, he, h⟩ := except_bind_ok.mp h
  obtain ⟨a, ha, h⟩ := except_bind_ok.mp h
  obtain ⟨n, hn, h⟩ := except_bind_ok.mp h
  obtain ⟨hle, rfl⟩ := math_sub_ok.mp he
  obtain ⟨hla, rfl⟩ := math_sub_ok.mp ha
  obtain ⟨hln, rfl⟩ := math_sub_ok.mp hn
  cases h
  exact ⟨hle, hla, hln, rfl, rfl⟩

theorem burnActive_moved {s s' : SubPool} {p p' : Position} {value : Nat} (hs : s.Sound)
    (h : burnActive s p value = .ok (s', p')) : Moved s s' value 0 := by
  obtain ⟨hle, -, -, rfl, -⟩ := burnActive_ok h
  refine .setSide hs (hs _).1 (hs _).2 ?_ ?_
  · simp only [Side.value]
    omega
  · simp only [Side.reserve]
    omega

theorem redeemActive_ok {s s' : SubPool} {p p' : Position} {value : Nat}
    (h : redeemActive s p = .ok (s', p', value)) :
    ((p.activeShares = 0 ∨ (s.side p.direction).activeShares = 0 ∨
      (s.side p.direction).poolEquity = 0) ∧ s' = s ∧ p' = p ∧ value = 0) ∨
    (p.activeShares ≠ 0 ∧ (s.side p.direction).activeShares ≠ 0 ∧
      (s.side p.direction).poolEquity ≠ 0 ∧
      mulDivFloor (s.side p.direction).poolEquity p.activeShares
        (s.side p.direction).activeShares = .ok value ∧
      burnActive s p value = .ok (s', p')) := by
  unfold redeemActive at h
  by_cases hc : p.activeShares = 0 ∨ (s.side p.direction).activeShares = 0 ∨
      (s.side p.direction).poolEquity = 0
  · rw [if_pos hc] at h
    cases h
    exact .inl ⟨hc, rfl, rfl, rfl⟩
  · rw [if_neg hc] at h
    obtain ⟨v, hv, h⟩ := except_bind_ok.mp h
    obtain ⟨⟨t, q⟩, ht, h⟩ := except_bind_ok.mp h
    cases h
    simp only [not_or] at hc
    exact .inr ⟨hc.1, hc.2.1, hc.2.2, math_ok.mp hv, ht⟩

theorem redeemActive_moved {s s' : SubPool} {p p' : Position} {value : Nat} (hs : s.Sound)
    (h : redeemActive s p = .ok (s', p', value)) : Moved s s' value 0 := by
  cases redeemActive_ok h with
  | inl h =>
    obtain ⟨-, rfl, -, rfl⟩ := h
    exact .refl hs
  | inr h => exact burnActive_moved hs h.2.2.2.2

theorem forfeitActive_ok {s s' : SubPool} {p p' : Position} {burned removed : Nat}
    (h : forfeitActive s p = .ok (s', p', burned, removed)) :
    (p.activeShares = 0 ∧ s' = s ∧ p' = p ∧ burned = 0 ∧ removed = 0) ∨
    (p.activeShares ≠ 0 ∧ burnActive s p 0 = .ok (s', p') ∧ burned = p.activeShares ∧
      removed = p.notional) := by
  unfold forfeitActive at h
  by_cases h0 : p.activeShares = 0
  · rw [if_pos h0] at h
    cases h
    exact .inl ⟨h0, rfl, rfl, rfl, rfl⟩
  · rw [if_neg h0] at h
    obtain ⟨v, -, h⟩ := except_bind_ok.mp h
    obtain ⟨_, -, h⟩ := except_bind_ok.mp h
    obtain ⟨⟨t, q⟩, ht, h⟩ := except_bind_ok.mp h
    cases h
    exact .inr ⟨h0, ht, rfl, rfl⟩

theorem forfeitActive_moved {s s' : SubPool} {p p' : Position} {burned removed : Nat}
    (hs : s.Sound) (h : forfeitActive s p = .ok (s', p', burned, removed)) : Moved s s' 0 0 := by
  cases forfeitActive_ok h with
  | inl h =>
    obtain ⟨-, rfl, -⟩ := h
    exact .refl hs
  | inr h => exact burnActive_moved hs h.2.1

theorem redeemRecovery_ok {s s' : SubPool} {p p' : Position} {tick : Int} {r : RedeemReceipt}
    (h : redeemRecovery s p = .ok (s', p', tick, r)) :
    p.recoveryBucketTick = some tick ∧ ∃ dormant,
      DormantStore.redeem tick p.recoveryShares (s.side p.direction).dormant = .ok r dormant ∧
      r.burnedShares ≤ (s.side p.direction).recoveryShares ∧
      s' = s.setSide p.direction { s.side p.direction with
        dormant := dormant
        recoveryShares := (s.side p.direction).recoveryShares - r.burnedShares } ∧
      p' = { p with recoveryShares := 0, recoveryBucketTick := none } := by
  unfold redeemRecovery at h
  cases ht : p.recoveryBucketTick with
  | none => simp [ht] at h
  | some t =>
    simp only [ht] at h
    obtain ⟨⟨dormant, r'⟩, hd, h⟩ := except_bind_ok.mp h
    obtain ⟨rec, hrec, h⟩ := except_bind_ok.mp h
    obtain ⟨hle, rfl⟩ := math_sub_ok.mp hrec
    cases h
    exact ⟨rfl, dormant, commit_ok.mp hd, hle, rfl, rfl⟩

theorem redeemRecovery_moved {s s' : SubPool} {p p' : Position} {tick : Int} {r : RedeemReceipt}
    (hs : s.Sound) (h0 : p.recoveryShares ≠ 0)
    (h : redeemRecovery s p = .ok (s', p', tick, r)) : Moved s s' r.redeemable 0 := by
  obtain ⟨-, dormant, hd, -, rfl, -⟩ := redeemRecovery_ok h
  have he := DormantStore.redeem_effect (hs _).1 h0 hd
  have hf := he.funds_eq
  have hw := he.window_le
  refine .setSide hs he.inv (he.direction_eq.trans (hs _).2) ?_ ?_
  · simp only [Side.value]
    omega
  · simp only [Side.reserve]
    omega

theorem settleRecovery_ok {s s' : SubPool} {p p' : Position} {r : RedeemReceipt}
    (h : settleRecovery s p = .ok (s', p', r)) :
    (p.recoveryShares = 0 ∧ s' = s ∧ p' = p ∧ r = ⟨0, 0, 0⟩) ∨
    (p.recoveryShares ≠ 0 ∧ ∃ tick, redeemRecovery s p = .ok (s', p', tick, r)) := by
  unfold settleRecovery at h
  by_cases h0 : p.recoveryShares = 0
  · rw [if_pos h0] at h
    cases h
    exact .inl ⟨h0, rfl, rfl, rfl⟩
  · rw [if_neg h0] at h
    obtain ⟨⟨t, q, tick, r'⟩, ht, h⟩ := except_bind_ok.mp h
    cases h
    exact .inr ⟨h0, tick, ht⟩

theorem settleRecovery_moved {s s' : SubPool} {p p' : Position} {r : RedeemReceipt}
    (hs : s.Sound) (h : settleRecovery s p = .ok (s', p', r)) : Moved s s' r.redeemable 0 := by
  cases settleRecovery_ok h with
  | inl h =>
    obtain ⟨-, rfl, -, rfl⟩ := h
    exact .refl hs
  | inr h =>
    obtain ⟨h0, tick, h⟩ := h
    exact redeemRecovery_moved hs h0 h

theorem addDust_ok {s s' : SubPool} {d : Direction} {a : Nat} (h : addDust s d a = .ok s') :
    s' = s.setSide d { s.side d with dust := (s.side d).dust + a } := by
  unfold addDust at h
  obtain ⟨n, hn, h⟩ := except_bind_ok.mp h
  cases h
  rw [addShare_ok hn]

theorem addDust_moved {s s' : SubPool} {d : Direction} {a : Nat} (hs : s.Sound)
    (h : addDust s d a = .ok s') : Moved s s' 0 a := by
  rw [addDust_ok h]
  refine .setSide hs (hs d).1 (hs d).2 ?_ ?_
  · simp only [Side.value]
    omega
  · exact Nat.le_add_right _ _

theorem takeFee_ok {market : MarketParams} {gross fee principal : Nat}
    (h : takeFee market gross = .ok (fee, principal)) : fee ≤ gross ∧ principal = gross - fee := by
  unfold takeFee at h
  obtain ⟨_, -, h⟩ := except_bind_ok.mp h
  obtain ⟨f, -, h⟩ := except_bind_ok.mp h
  obtain ⟨_, -, h⟩ := except_bind_ok.mp h
  obtain ⟨_, hle, h⟩ := except_bind_ok.mp h
  obtain ⟨_, -, h⟩ := except_bind_ok.mp h
  obtain ⟨_, -, h⟩ := except_bind_ok.mp h
  cases h
  exact ⟨ensure_ok.mp hle, rfl⟩

theorem mintShares_ok {market : MarketParams} {x : Side} {principal shares accounted dust : Nat}
    (h : mintShares market x principal = .ok (shares, accounted, dust)) :
    accounted + dust = principal ∧ (x.poolEquity = 0 → x.activeShares = 0 ∧ shares = principal ∧
      accounted = principal) ∧ (x.poolEquity ≠ 0 → shares ≠ 0) := by
  unfold mintShares at h
  by_cases h0 : x.poolEquity = 0
  · rw [if_pos h0] at h
    obtain ⟨_, ha, h⟩ := except_bind_ok.mp h
    cases h
    exact ⟨rfl, fun _ => ⟨ensure_ok.mp ha, rfl, rfl⟩, fun hne => absurd h0 hne⟩
  · rw [if_neg h0] at h
    obtain ⟨_, -, h⟩ := except_bind_ok.mp h
    obtain ⟨_, -, h⟩ := except_bind_ok.mp h
    obtain ⟨_, -, h⟩ := except_bind_ok.mp h
    obtain ⟨sh, -, h⟩ := except_bind_ok.mp h
    obtain ⟨_, hne, h⟩ := except_bind_ok.mp h
    obtain ⟨ac, -, h⟩ := except_bind_ok.mp h
    obtain ⟨du, hdu, h⟩ := except_bind_ok.mp h
    obtain ⟨hle, rfl⟩ := math_sub_ok.mp hdu
    cases h
    exact ⟨Nat.add_sub_cancel' hle, fun he => absurd he h0, fun _ => ensure_ok.mp hne⟩

/-! The whole calls. Each structure lists the parts of a call that returned. -/

structure Opening (market : MarketParams) (s : SubPool) (envelope : PriceEnvelope)
    (d : Direction) (gross id : Nat) (s' : SubPool) (p : Position) (out : OpenOutcome)
    (s1 : SubPool) (sync : SyncOutcome) : Prop where
  schema : market.schemaVersion = schemaVersionCurrent
  synced : syncPool market s envelope = .ok (s1, sync)
  fee : takeFee market gross = .ok (out.openFee, p.principal)
  minted : mintShares market (s1.side d) p.principal
    = .ok (out.sharesMinted, out.principalIntoPool, out.dust)
  notional : mulDivFloor p.principal market.leverageBps bpsScale = .ok out.notionalAdded
  shares_lt : (s1.side d).activeShares + out.sharesMinted < u128Size
  notional_lt : (s1.side d).activeNotional + out.notionalAdded < u128Size
  state : s' = s1.setSide d { s1.side d with
    poolEquity := (s1.side d).poolEquity + out.principalIntoPool
    activeShares := (s1.side d).activeShares + out.sharesMinted
    activeNotional := (s1.side d).activeNotional + out.notionalAdded
    dust := (s1.side d).dust + out.dust }
  position : p = {
    subPoolId := s1.subPoolId
    positionId := id
    direction := d
    status := .open
    principal := p.principal
    notional := out.notionalAdded
    activeShares := out.sharesMinted
    recoveryShares := 0
    recoveryBucketTick := none
    zeroPrice := 0
    entryPrice := envelope.pNow
    lastSyncSlot := envelope.slot
    openedAtSlot := envelope.slot
    updatedAtSlot := envelope.slot
    closedAtSlot := 0
    schemaVersion := market.schemaVersion
    activeGeneration := (s1.side d).activeGeneration }
  checked : checkSubpoolInvariants s' = .ok ()

theorem openPosition_ok {market : MarketParams} {s s' : SubPool} {envelope : PriceEnvelope}
    {d : Direction} {gross id : Nat} {p : Position} {out : OpenOutcome}
    (h : openPosition market s envelope d gross id = .ok (s', p, out)) :
    ∃ s1 sync, Opening market s envelope d gross id s' p out s1 sync := by
  unfold openPosition at h
  obtain ⟨_, hsch, h⟩ := except_bind_ok.mp h
  obtain ⟨_, -, h⟩ := except_bind_ok.mp h
  obtain ⟨⟨s1, sync⟩, hsync, h⟩ := except_bind_ok.mp h
  obtain ⟨⟨fee, principal⟩, hfee, h⟩ := except_bind_ok.mp h
  obtain ⟨⟨shares, acc, dust⟩, hmint, h⟩ := except_bind_ok.mp h
  obtain ⟨n, hn, h⟩ := except_bind_ok.mp h
  obtain ⟨eq, heq, h⟩ := except_bind_ok.mp h
  obtain ⟨sh, hsh, h⟩ := except_bind_ok.mp h
  obtain ⟨no, hno, h⟩ := except_bind_ok.mp h
  obtain ⟨du, hdu, h⟩ := except_bind_ok.mp h
  obtain ⟨_, hc, h⟩ := except_bind_ok.mp h
  cases h
  obtain ⟨-, rfl⟩ := math_add_ok.mp heq
  obtain ⟨hshl, rfl⟩ := math_add_ok.mp hsh
  obtain ⟨hnol, rfl⟩ := math_add_ok.mp hno
  obtain ⟨-, rfl⟩ := math_add_ok.mp hdu
  refine ⟨s1, sync, ensure_ok.mp hsch, hsync, hfee, hmint, math_ok.mp hn, hshl, hnol, rfl, ?_, hc⟩
  simp only [SubPool.setSide_subPoolId]

structure Closing (market : MarketParams) (s : SubPool) (envelope : PriceEnvelope)
    (p : Position) (s' : SubPool) (p' : Position) (out : CloseOutcome)
    (s1 s2 : SubPool) (sync : SyncOutcome) (p1 p2 p3 : Position) (b : Bool) (r : RedeemReceipt) :
    Prop where
  status : p.status = .open ∨ p.status = .dormant
  synced : syncPool market s envelope = .ok (s1, sync)
  migrated : lazyMigratePosition s1 p = .ok (p1, b)
  active : redeemActive s1 p1 = .ok (s2, p2, out.activeValue)
  recovery : settleRecovery s2 p2 = .ok (s', p3, r)
  paid : out.withdrawable = out.activeValue + r.redeemable
  state : p' = finishPosition p3 envelope.slot
  checked : checkSubpoolInvariants s' = .ok ()

theorem closePosition_ok {market : MarketParams} {s s' : SubPool} {envelope : PriceEnvelope}
    {p p' : Position} {out : CloseOutcome}
    (h : closePosition market s envelope p = .ok (s', p', out)) :
    ∃ s1 s2 sync p1 p2 p3 b r,
      Closing market s envelope p s' p' out s1 s2 sync p1 p2 p3 b r := by
  unfold closePosition at h
  obtain ⟨_, -, h⟩ := except_bind_ok.mp h
  obtain ⟨_, -, h⟩ := except_bind_ok.mp h
  obtain ⟨_, hst, h⟩ := except_bind_ok.mp h
  obtain ⟨⟨s1, sync⟩, hsync, h⟩ := except_bind_ok.mp h
  obtain ⟨⟨p1, b⟩, hmig, h⟩ := except_bind_ok.mp h
  obtain ⟨⟨s2, p2, v⟩, hact, h⟩ := except_bind_ok.mp h
  obtain ⟨⟨s3, p3, r⟩, hrec, h⟩ := except_bind_ok.mp h
  obtain ⟨w, hw, h⟩ := except_bind_ok.mp h
  obtain ⟨_, -, h⟩ := except_bind_ok.mp h
  obtain ⟨_, hc, h⟩ := except_bind_ok.mp h
  cases h
  exact ⟨s1, s2, sync, p1, p2, p3, b, r, ensure_ok.mp hst, hsync, hmig, hact, hrec,
    (math_add_ok.mp hw).2, rfl, hc⟩

structure ForceClosing (market : MarketParams) (s : SubPool) (envelope : PriceEnvelope)
    (p : Position) (s' : SubPool) (p' : Position) (s1 s2 s3 : SubPool) (sync : SyncOutcome)
    (p1 p2 p3 : Position) (b : Bool) (burned removed : Nat) (r : RedeemReceipt) : Prop where
  status : p.status ≠ .closed
  synced : syncPool market s envelope = .ok (s1, sync)
  migrated : lazyMigratePosition s1 p = .ok (p1, b)
  active : forfeitActive s1 p1 = .ok (s2, p2, burned, removed)
  recovery : settleRecovery s2 p2 = .ok (s3, p3, r)
  dust : addDust s3 p3.direction r.redeemable = .ok s'
  state : p' = finishPosition p3 envelope.slot
  checked : checkSubpoolInvariants s' = .ok ()

theorem forceClose_ok {market : MarketParams} {s s' : SubPool} {envelope : PriceEnvelope}
    {p p' : Position} {ack : Bool} {out : ForceCloseOutcome}
    (h : forceCloseZeroValuePosition market s envelope p ack = .ok (s', p', out)) :
    ∃ s1 s2 s3 sync p1 p2 p3 b burned removed r,
      ForceClosing market s envelope p s' p' s1 s2 s3 sync p1 p2 p3 b burned removed r := by
  unfold forceCloseZeroValuePosition at h
  obtain ⟨_, -, h⟩ := except_bind_ok.mp h
  obtain ⟨_, -, h⟩ := except_bind_ok.mp h
  obtain ⟨_, -, h⟩ := except_bind_ok.mp h
  obtain ⟨_, hst, h⟩ := except_bind_ok.mp h
  obtain ⟨⟨s1, sync⟩, hsync, h⟩ := except_bind_ok.mp h
  obtain ⟨⟨p1, b⟩, hmig, h⟩ := except_bind_ok.mp h
  obtain ⟨⟨s2, p2, burned, removed⟩, hact, h⟩ := except_bind_ok.mp h
  obtain ⟨⟨s3, p3, r⟩, hrec, h⟩ := except_bind_ok.mp h
  obtain ⟨s4, hdust, h⟩ := except_bind_ok.mp h
  obtain ⟨_, hc, h⟩ := except_bind_ok.mp h
  cases h
  exact ⟨s1, s2, s3, sync, p1, p2, p3, b, burned, removed, r, ensure_ok.mp hst, hsync, hmig,
    hact, hrec, hdust, rfl, hc⟩

structure Claiming (market : MarketParams) (s : SubPool) (envelope : PriceEnvelope)
    (p : Position) (s' : SubPool) (p' : Position) (out : ClaimRecoveryOutcome)
    (s1 : SubPool) (sync : SyncOutcome) (p1 p2 : Position) (b : Bool) (tick : Int)
    (r : RedeemReceipt) : Prop where
  synced : syncPool market s envelope = .ok (s1, sync)
  migrated : lazyMigratePosition s1 p = .ok (p1, b)
  shares : p1.recoveryShares ≠ 0
  recovery : redeemRecovery s1 p1 = .ok (s', p2, tick, r)
  paid : out.redeemable = r.redeemable
  state : p' = { p2 with updatedAtSlot := envelope.slot }
  checked : checkSubpoolInvariants s' = .ok ()

theorem claim_ok {market : MarketParams} {s s' : SubPool} {envelope : PriceEnvelope}
    {p p' : Position} {out : ClaimRecoveryOutcome}
    (h : claimDormantRecovery market s envelope p = .ok (s', p', out)) :
    ∃ s1 sync p1 p2 b tick r, Claiming market s envelope p s' p' out s1 sync p1 p2 b tick r := by
  unfold claimDormantRecovery at h
  obtain ⟨_, -, h⟩ := except_bind_ok.mp h
  obtain ⟨_, -, h⟩ := except_bind_ok.mp h
  obtain ⟨⟨s1, sync⟩, hsync, h⟩ := except_bind_ok.mp h
  obtain ⟨⟨p1, b⟩, hmig, h⟩ := except_bind_ok.mp h
  obtain ⟨_, h0, h⟩ := except_bind_ok.mp h
  obtain ⟨⟨s2, p2, tick, r⟩, hrec, h⟩ := except_bind_ok.mp h
  obtain ⟨_, hc, h⟩ := except_bind_ok.mp h
  cases h
  exact ⟨s1, sync, p1, p2, b, tick, r, hsync, hmig, ensure_ok.mp h0, hrec, rfl, rfl, hc⟩

theorem harvest_ok {market : MarketParams} {s s' : SubPool} {d : Direction}
    {out : HarvestOutcome} (h : harvestDust market s d = .ok (s', out)) :
    out.amount = (s.side d).dust ∧ s' = s.setSide d { s.side d with dust := 0 } ∧
      checkSubpoolInvariants s' = .ok () := by
  unfold harvestDust at h
  obtain ⟨_, -, h⟩ := except_bind_ok.mp h
  obtain ⟨_, -, h⟩ := except_bind_ok.mp h
  obtain ⟨_, hc, h⟩ := except_bind_ok.mp h
  cases h
  exact ⟨rfl, rfl, hc⟩

theorem preSync_ok {market : MarketParams} {s s' : SubPool} {d : Direction} {tick : Int}
    {slot : Nat} {out : PreSyncOutcome}
    (h : preSyncDormantBucket market s d tick slot = .ok (s', out)) :
    ∃ n dormant, DormantStore.applyPendingToBucket tick (s.side d).dormant = .ok n dormant ∧
      s' = s.setSide d { s.side d with dormant := dormant } ∧
      checkSubpoolInvariants s' = .ok () := by
  unfold preSyncDormantBucket at h
  obtain ⟨_, -, h⟩ := except_bind_ok.mp h
  obtain ⟨_, -, h⟩ := except_bind_ok.mp h
  obtain ⟨before, -, h⟩ := except_bind_ok.mp h
  obtain ⟨pending, -, h⟩ := except_bind_ok.mp h
  obtain ⟨_, -, h⟩ := except_bind_ok.mp h
  obtain ⟨⟨dormant, n⟩, hd, h⟩ := except_bind_ok.mp h
  obtain ⟨after, -, h⟩ := except_bind_ok.mp h
  obtain ⟨remaining, -, h⟩ := except_bind_ok.mp h
  obtain ⟨_, hc, h⟩ := except_bind_ok.mp h
  cases h
  exact ⟨n, dormant, commit_ok.mp hd, rfl, hc⟩

theorem openPosition_moved {market : MarketParams} {s s' : SubPool} {envelope : PriceEnvelope}
    {d : Direction} {gross id : Nat} {p : Position} {out : OpenOutcome} (hs : s.Sound)
    (h : openPosition market s envelope d gross id = .ok (s', p, out)) :
    Moved s s' 0 p.principal ∧ out.openFee ≤ gross ∧ p.principal = gross - out.openFee := by
  obtain ⟨s1, sync, ho⟩ := openPosition_ok h
  obtain ⟨hfee, hprin⟩ := takeFee_ok ho.fee
  refine ⟨?_, hfee, hprin⟩
  have h1 := syncPool_moved hs ho.synced
  obtain ⟨hsplit, -, -⟩ := mintShares_ok ho.minted
  refine h1.after ?_
  rw [ho.state]
  refine .setSide h1.sound (h1.sound d).1 (h1.sound d).2 ?_ ?_
  · simp only [Side.value]
    omega
  · simp only [Side.reserve]
    omega

theorem closePosition_moved {market : MarketParams} {s s' : SubPool} {envelope : PriceEnvelope}
    {p p' : Position} {out : CloseOutcome} (hs : s.Sound)
    (h : closePosition market s envelope p = .ok (s', p', out)) :
    Moved s s' out.withdrawable 0 := by
  obtain ⟨s1, s2, sync, p1, p2, p3, b, r, hc⟩ := closePosition_ok h
  have h1 := syncPool_moved hs hc.synced
  have h2 := redeemActive_moved h1.sound hc.active
  have h3 := settleRecovery_moved h2.sound hc.recovery
  rw [hc.paid]
  exact h1.after (h2.trans h3)

theorem forceClose_moved {market : MarketParams} {s s' : SubPool} {envelope : PriceEnvelope}
    {p p' : Position} {ack : Bool} {out : ForceCloseOutcome} (hs : s.Sound)
    (h : forceCloseZeroValuePosition market s envelope p ack = .ok (s', p', out)) :
    s'.Sound ∧ s'.value = s.value ∧ s'.reserve ≤ s.reserve := by
  obtain ⟨s1, s2, s3, sync, p1, p2, p3, b, burned, removed, r, hc⟩ := forceClose_ok h
  have h1 := syncPool_moved hs hc.synced
  have h2 := forfeitActive_moved h1.sound hc.active
  have h3 := settleRecovery_moved h2.sound hc.recovery
  have h4 := h1.after (h2.after h3)
  have h5 := addDust_moved h4.sound hc.dust
  refine ⟨h5.sound, ?_, ?_⟩
  · have := h4.value_eq
    have := h5.value_eq
    omega
  · -- dust is outside the reserve
    have hr : s'.reserve = s3.reserve := by
      rw [addDust_ok hc.dust]
      have := s3.reserve_setSide p3.direction { s3.side p3.direction with
        dust := (s3.side p3.direction).dust + r.redeemable }
      simp only [Side.reserve] at this ⊢
      omega
    rw [hr]
    exact h4.reserve_le

theorem claim_moved {market : MarketParams} {s s' : SubPool} {envelope : PriceEnvelope}
    {p p' : Position} {out : ClaimRecoveryOutcome} (hs : s.Sound)
    (h : claimDormantRecovery market s envelope p = .ok (s', p', out)) :
    Moved s s' out.redeemable 0 := by
  obtain ⟨s1, sync, p1, p2, b, tick, r, hc⟩ := claim_ok h
  have h1 := syncPool_moved hs hc.synced
  rw [hc.paid]
  exact h1.after (redeemRecovery_moved h1.sound hc.shares hc.recovery)

theorem harvest_moved {market : MarketParams} {s s' : SubPool} {d : Direction}
    {out : HarvestOutcome} (hs : s.Sound) (h : harvestDust market s d = .ok (s', out)) :
    Moved s s' out.amount 0 := by
  obtain ⟨ha, rfl, -⟩ := harvest_ok h
  rw [ha]
  exact .setSide hs (hs d).1 (hs d).2 rfl le_rfl

theorem preSync_moved {market : MarketParams} {s s' : SubPool} {d : Direction} {tick : Int}
    {slot : Nat} {out : PreSyncOutcome} (hs : s.Sound)
    (h : preSyncDormantBucket market s d tick slot = .ok (s', out)) : Moved s s' 0 0 := by
  obtain ⟨n, dormant, hd, rfl, -⟩ := preSync_ok h
  have hu := DormantStore.applyPendingToBucket_upkeep (hs d).1 hd
  refine .setSide hs hu.inv (hu.direction_eq.trans (hs d).2) ?_ ?_
  · simp only [Side.value, hu.funds_same]
  · exact Nat.add_le_add_left hu.window_le _

end MoleFinance
