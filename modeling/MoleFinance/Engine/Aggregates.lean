import MoleFinance.Engine.Attribution
import Mathlib.Data.List.Perm.Subperm

/-! The invariant of engine runs: every share is attributed to a position, through rotation and
lazy migration, and the funds of the sub-pool fit what was deposited. -/
namespace MoleFinance
open MoleMath Call

def Shared (s : SubPool) (ps : Positions) : Prop := ∀ d, Attributed d (s.side d) ps

/-- A position never holds active and recovery shares at once. -/
structure Position.Ok (p : Position) : Prop where
  apart : p.activeShares = 0 ∨ p.recoveryShares = 0
  tick : p.recoveryShares ≠ 0 → ∃ t, p.recoveryBucketTick = some t

structure Position.Resting (p : Position) : Prop extends p.Ok where
  closed : p.status = .closed → p.activeShares = 0 ∧ p.recoveryShares = 0
  notional : p.activeShares = 0 → p.notional = 0
  schema : p.schemaVersion = schemaVersionCurrent
  principal_lt : p.principal < u64Size

namespace Shared

theorem of_sides {s t : SubPool} {ps : Positions} (h : Shared s ps)
    (hs : ∀ d, SameShares (s.side d) (t.side d)) : Shared t ps :=
  fun d => (h d).of_same (hs d)

theorem setSide {s : SubPool} {ps : Positions} (h : Shared s ps) {d : Direction} {x : Side}
    (hx : Attributed d x ps) : Shared (s.setSide d x) ps := by
  intro e
  rw [SubPool.side_setSide_eq]
  split_ifs with he
  · exact he ▸ hx
  · exact h e

theorem setSide_same {s : SubPool} {ps : Positions} (h : Shared s ps) {d : Direction} {x : Side}
    (hx : SameShares (s.side d) x) : Shared (s.setSide d x) ps :=
  h.setSide ((h d).of_same hx)

theorem update {s : SubPool} {ps : Positions} (h : Shared s ps) {d : Direction} {x : Side}
    {k : Nat} {p' : Position} (hk : ∀ p, ps.get? k = some p → p.direction = d)
    (hd : p'.direction = d) (hx : Attributed d x (ps.insert k p')) :
    Shared (s.setSide d x) (ps.insert k p') := by
  intro e
  rw [SubPool.side_setSide_eq]
  split_ifs with he
  · exact he ▸ hx
  · refine (h e).other (fun p hp => ?_) ?_
    · rw [hk p hp]
      exact Ne.symm he
    · rw [hd]
      exact Ne.symm he

theorem update_position {s : SubPool} {ps : Positions} (h : Shared s ps) {d : Direction}
    {k : Nat} {p' : Position} (hk : ∀ p, ps.get? k = some p → p.direction = d)
    (hd : p'.direction = d) (hx : Attributed d (s.side d) (ps.insert k p')) :
    Shared s (ps.insert k p') := by
  have hu := h.update hk hd hx
  have hs : s.setSide d (s.side d) = s := by cases d <;> rfl
  rwa [hs] at hu

end Shared

theorem transferToRecovery_same {market : MarketParams} {p a inflow residual : Nat} {x x' : Side}
    (h : transferToRecovery market p a x = .ok (x', inflow, residual)) (hi : x.dormant.Inv) :
    SameShares x x' := by
  cases transferToRecovery_ok h with
  | inl h =>
    obtain ⟨-, rfl, -⟩ := h
    exact .refl x'
  | inr h =>
    obtain ⟨dormant, r, -, hr, rfl, -⟩ := h
    exact ⟨rfl, rfl, rfl, rfl, rfl, (DormantStore.distributeBy_effect hi hr).holdings_eq⟩

theorem transferTo_same {market : MarketParams} {s s' : SubPool} {p : Nat} {w : Direction}
    {demand : Demand} {inflow : Inflow} (hs : s.Sound)
    (h : transferTo market s p w demand = .ok (s', inflow)) (d : Direction) :
    SameShares (s.side d) (s'.side d) := by
  cases transferTo_ok h with
  | inl h =>
    obtain ⟨-, rfl, -⟩ := h
    exact .refl _
  | inr h =>
    obtain ⟨t, a, x, -, -, -, -, -, hx, -, rfl⟩ := h
    by_cases hd : d = w
    · have hxs := transferToRecovery_same hx (hs w).1
      rw [hd, SubPool.side_setSide_both]
      exact ⟨hxs.log, hxs.generation, hxs.shares, hxs.notional, hxs.recovery, hxs.holdings⟩
    · rw [Direction.ne_iff.mp hd, SubPool.side_setSide]
      exact ⟨rfl, rfl, rfl, rfl, rfl, rfl⟩

theorem settleDemands_same {market : MarketParams} {s s' : SubPool} {p : Nat}
    {demands : Demand × Demand} {long short : Inflow} (hs : s.Sound)
    (h : settleDemands market s p demands = .ok (s', long, short)) (d : Direction) :
    SameShares (s.side d) (s'.side d) := by
  unfold settleDemands at h
  split_ifs at h with h1 h2
  · obtain ⟨⟨t, i⟩, ht, h⟩ := except_bind_ok.mp h
    cases h
    exact transferTo_same hs ht d
  · obtain ⟨⟨t, i⟩, ht, h⟩ := except_bind_ok.mp h
    cases h
    exact transferTo_same hs ht d
  · cases h
    exact .refl _

theorem settleDemands_shared {market : MarketParams} {s s' : SubPool} {p : Nat}
    {demands : Demand × Demand} {long short : Inflow} {ps : Positions} (hs : s.Sound)
    (hsh : Shared s ps) (h : settleDemands market s p demands = .ok (s', long, short)) :
    Shared s' ps :=
  hsh.of_sides (settleDemands_same hs h)

theorem atPrice_shared {s : SubPool} {ps : Positions} (h : Shared s ps)
    (envelope : PriceEnvelope) : Shared (s.atPrice envelope) ps :=
  h.of_sides (fun d => by
    rw [SubPool.side_atPrice]
    exact .refl _)

theorem rotateIfDrained_shared {market : MarketParams} {s s' : SubPool}
    {envelope : PriceEnvelope} {d : Direction} {ev : Option ActiveRotatedToRecoveryEvent}
    {ps : Positions} (hs : s.Sound) (hsh : Shared s ps)
    (h : rotateIfDrained market s envelope d = .ok (s', ev)) : Shared s' ps := by
  cases rotateIfDrained_ok h with
  | inl h =>
    obtain ⟨-, rfl, -⟩ := h
    exact hsh
  | inr h =>
    obtain ⟨-, h0, x, hx, rfl⟩ := h
    exact hsh.setSide ((hsh d).rotated (hs d).1 h0 hx)

theorem syncPool_shared {market : MarketParams} {s s' : SubPool} {envelope : PriceEnvelope}
    {out : SyncOutcome} {ps : Positions} (hs : s.Sound) (hsh : Shared s ps)
    (h : syncPool market s envelope = .ok (s', out)) : Shared s' ps := by
  obtain ⟨-, hsync, -⟩ := syncPool_ok h
  cases hsync with
  | seeded h0 => exact atPrice_shared hsh envelope
  | still h0 hp =>
    refine hsh.of_sides (fun d => ?_)
    cases d <;> exact .refl _
  | moved demands s1 s2 _ long short lr sr _ h0 hp hdem hset hl hshort =>
    have m1 := settleDemands_moved hs hset
    have m2 := atPrice_moved m1.sound envelope
    have m3 := rotateIfDrained_moved m2.sound hl
    have h1 := atPrice_shared (settleDemands_shared hs hsh hset) envelope
    exact rotateIfDrained_shared m3.sound (rotateIfDrained_shared m2.sound h1 hl) hshort

theorem rotateIfDrained_price {market : MarketParams} {s s' : SubPool}
    {envelope : PriceEnvelope} {d : Direction} {ev : Option ActiveRotatedToRecoveryEvent}
    (h : rotateIfDrained market s envelope d = .ok (s', ev)) :
    s'.lastPrice = s.lastPrice := by
  cases rotateIfDrained_ok h with
  | inl h =>
    obtain ⟨-, rfl, -⟩ := h
    rfl
  | inr h =>
    obtain ⟨-, -, x, -, rfl⟩ := h
    exact s.setSide_lastPrice d x

theorem syncPool_price {market : MarketParams} {s s' : SubPool} {envelope : PriceEnvelope}
    {out : SyncOutcome} (h : syncPool market s envelope = .ok (s', out)) :
    s'.lastPrice = envelope.pNow ∧ envelope.pNow ≠ 0 := by
  obtain ⟨hg, hsync, -⟩ := syncPool_ok h
  have hpos : envelope.pNow ≠ 0 := by
    unfold syncGuards at hg
    obtain ⟨_, -, hg⟩ := except_bind_ok.mp hg
    obtain ⟨_, -, hg⟩ := except_bind_ok.mp hg
    obtain ⟨_, h0, -⟩ := except_bind_ok.mp hg
    exact ensure_ok.mp h0
  refine ⟨?_, hpos⟩
  cases hsync with
  | seeded h0 => rfl
  | still h0 hp => exact hp.symm
  | moved demands s1 s2 _ long short lr sr _ h0 hp hdem hset hl hshort =>
    rw [rotateIfDrained_price hshort, rotateIfDrained_price hl]
    rfl

theorem check_zeroIff {s : SubPool} (h : checkSubpoolInvariants s = .ok ()) (d : Direction) :
    (s.side d).poolEquity = 0 ↔ (s.side d).activeShares = 0 := by
  unfold checkSubpoolInvariants at h
  obtain ⟨_, hl, h⟩ := except_bind_ok.mp h
  obtain ⟨_, hsh, -⟩ := except_bind_ok.mp h
  cases d with
  | long => exact ensure_ok.mp hl
  | short => exact ensure_ok.mp hsh

theorem bounded_of_value {s : SubPool} (hv : s.value < u128Size) (d : Direction) :
    (s.side d).dormant.Bounded := by
  have hle := s.side_value_le d
  simp only [Side.value, DormantStore.funds] at hle
  unfold DormantStore.Bounded
  omega

theorem Attributed.total_shares_lt {d : Direction} {x : Side} {ps : Positions}
    (h : Attributed d x ps) : x.dormant.totalRecoveryShares < u128Size := by
  rw [DormantStore.totalRecoveryShares_eq, ← h.total]
  exact h.total_lt

inductive Migrated (x : Side) (p : Position) : Position → Prop where
  | empty (h0 : p.activeShares = 0) : Migrated x p { p with activeGeneration := x.activeGeneration }
  | current (h0 : p.activeShares ≠ 0) (hg : p.activeGeneration = x.activeGeneration) :
      Migrated x p p
  | moved (r : RotateRecord) (h0 : p.activeShares ≠ 0)
      (hg : p.activeGeneration ≠ x.activeGeneration)
      (hr : x.findRotateRecord p.activeGeneration = some r) :
      Migrated x p { p with
        recoveryShares := p.recoveryShares + p.activeShares
        recoveryBucketTick := some r.bucketTick
        zeroPrice := r.anchorPrice
        activeShares := 0
        notional := 0
        status := .dormant
        activeGeneration := x.activeGeneration }

theorem lazyMigratePosition_ok {s : SubPool} {p p' : Position} {b : Bool}
    (h : lazyMigratePosition s p = .ok (p', b)) : Migrated (s.side p.direction) p p' := by
  unfold lazyMigratePosition at h
  by_cases h0 : p.activeShares = 0
  · rw [if_pos h0] at h
    cases h
    exact .empty h0
  rw [if_neg h0] at h
  by_cases hg : p.activeGeneration = (s.side p.direction).activeGeneration
  · rw [if_pos hg] at h
    cases h
    exact .current h0 hg
  rw [if_neg hg] at h
  cases hr : (s.side p.direction).findRotateRecord p.activeGeneration with
  | none => simp [hr] at h
  | some r =>
    simp only [hr] at h
    obtain ⟨n, hn, h⟩ := except_bind_ok.mp h
    obtain ⟨-, rfl⟩ := math_add_ok.mp hn
    cases h
    exact .moved r h0 hg hr

structure Carried (p p' : Position) : Prop where
  direction : p'.direction = p.direction
  id : p'.positionId = p.positionId
  principal : p'.principal = p.principal
  schema : p'.schemaVersion = p.schemaVersion

theorem Carried.refl (p : Position) : Carried p p := ⟨rfl, rfl, rfl, rfl⟩

theorem Carried.trans {p q r : Position} (h : Carried p q) (h' : Carried q r) : Carried p r :=
  ⟨h'.direction.trans h.direction, h'.id.trans h.id, h'.principal.trans h.principal,
    h'.schema.trans h.schema⟩

/-- The state of a call: the sub-pool, the positions, and the one the call works on. -/
structure Holds (s : SubPool) (ps : Positions) (k : Nat) (p : Position) : Prop where
  sound : s.Sound
  shared : Shared s ps
  found : ps.get? k = some p
  ok : p.Ok
  price : s.lastPrice < u64Size ∧ s.lastPrice ≠ 0

theorem Holds.direction {s : SubPool} {ps : Positions} {k : Nat} {p : Position}
    (h : Holds s ps k p) {q : Position} (hq : ps.get? k = some q) : q.direction = p.direction := by
  rw [h.found] at hq
  cases hq
  rfl

section Parts
variable {s s' : SubPool} {ps : Positions} {k : Nat} {p p' : Position}

theorem migrate_holds (h : Holds s ps k p) (hm : Migrated (s.side p.direction) p p') :
    Holds s (ps.insert k p') k p' ∧ Carried p p' ∧
      (p'.activeShares = 0 ∨ p'.activeGeneration = (s.side p'.direction).activeGeneration) := by
  have ha := h.shared p.direction
  have hold := ha.older k p h.found rfl
  cases hm with
  | empty h0 =>
    refine ⟨⟨h.sound, ?_, OrdMap.get?_insert_self _ _ _, ⟨.inl h0, h.ok.tick⟩,
      h.price⟩, ⟨rfl, rfl, rfl, rfl⟩, .inl h0⟩
    refine h.shared.update_position (fun q hq => h.direction hq) rfl
      (ha.relabel h.found rfl rfl le_rfl ?_ ?_ ?_)
    · simp [Side.activeOf, h0]
    · simp [Side.notionalOf, h0]
    · intro tick
      simp [Side.recoveryAt, h0]
  | current h0 hg =>
    refine ⟨⟨h.sound, ?_, OrdMap.get?_insert_self _ _ _, h.ok, h.price⟩, .refl p, .inr hg⟩
    exact h.shared.update_position (fun q hq => h.direction hq) rfl
      (ha.relabel h.found rfl rfl hold rfl rfl (fun _ => rfl))
  | moved r h0 hg hr =>
    have hrec : p.recoveryShares = 0 := h.ok.apart.resolve_left h0
    refine ⟨⟨h.sound, ?_, OrdMap.get?_insert_self _ _ _, ⟨.inl rfl, fun _ => ⟨_, rfl⟩⟩,
      h.price⟩, ⟨rfl, rfl, rfl, rfl⟩, .inl rfl⟩
    refine h.shared.update_position (fun q hq => h.direction hq) rfl
      (ha.relabel h.found rfl rfl le_rfl ?_ ?_ ?_)
    · simp [Side.activeOf, hg]
    · simp [Side.notionalOf, hg]
    · intro tick
      simp [Side.recoveryAt, Side.rotatedInto, hg, hr, hrec]

theorem burnActive_holds {value : Nat} (h : Holds s ps k p) (h0 : p.activeShares ≠ 0)
    (hg : p.activeGeneration = (s.side p.direction).activeGeneration)
    (hb : burnActive s p value = .ok (s', p')) :
    Holds s' (ps.insert k p') k p' ∧ Carried p p' ∧ p'.activeShares = 0 := by
  have hm := burnActive_moved h.sound hb
  obtain ⟨-, hsh, hno, rfl, rfl⟩ := burnActive_ok hb
  have ha := h.shared p.direction
  refine ⟨⟨hm.sound, ?_, OrdMap.get?_insert_self _ _ _, ⟨.inl rfl, h.ok.tick⟩,
    by simpa using h.price⟩, ⟨rfl, rfl, rfl, rfl⟩, rfl⟩
  have hlt := ha.active_lt
  have hnl := ha.notional_lt
  refine h.shared.update (fun q hq => h.direction hq) rfl
    (ha.replace h.found rfl rfl rfl rfl hg.le ?_ ?_ ?_ ha.total ha.total_lt ?_ ?_ ha.stocked)
  · simp only [Side.activeOf, hg, if_true]
    omega
  · simp only [Side.notionalOf, hg, h0, ne_eq, not_false_eq_true, and_self, if_true, not_true,
      and_false, if_false]
    omega
  · intro tick
    simp [Side.recoveryAt, Side.rotatedInto, hg]
  · exact (Nat.sub_le _ _).trans_lt hlt
  · exact (Nat.sub_le _ _).trans_lt hnl

theorem redeemRecovery_holds {tick : Int} {r : RedeemReceipt} (h : Holds s ps k p)
    (h0 : p.recoveryShares ≠ 0)
    (hr : redeemRecovery s p = .ok (s', p', tick, r)) :
    Holds s' (ps.insert k p') k p' ∧ Carried p p' ∧ p'.activeShares = 0 ∧
      p'.recoveryShares = 0 := by
  have hm := redeemRecovery_moved h.sound h0 hr
  obtain ⟨ht, dormant, hd, -, rfl, rfl⟩ := redeemRecovery_ok hr
  have ha := h.shared p.direction
  have hact : p.activeShares = 0 := h.ok.apart.resolve_right h0
  have he := DormantStore.redeem_effect (h.sound p.direction).1 h0 hd
  have hold := he.holdings_eq ha.total_shares_lt
  refine ⟨⟨hm.sound, ?_, OrdMap.get?_insert_self _ _ _, ⟨.inl hact, fun hc => absurd rfl hc⟩,
    by simpa using h.price⟩, ⟨rfl, rfl, rfl, rfl⟩, hact, rfl⟩
  have hle := he.shares_le
  refine h.shared.update (fun q hq => h.direction hq) rfl
    (ha.replace h.found rfl rfl rfl rfl (ha.older k p h.found rfl) rfl rfl ?_ ?_ ?_
      ha.active_lt ha.notional_lt ?_)
  · intro j
    simp only [hold, Holdings.sharesAt_leave, Side.recoveryAt, ht, hact, Option.some.injEq,
      reduceCtorEq, ite_self, Nat.add_zero]
    by_cases hj : j = tick
    · subst hj
      simp only [if_true]
      omega
    · rw [if_neg hj, if_neg (Ne.symm hj)]
      omega
  · have htl := Holdings.total_leave r.burnedNotional hle
    have := ha.total
    have := he.burned_eq
    simp only [hold]
    omega
  · exact (Nat.sub_le _ _).trans_lt ha.total_lt
  · simp only [hold]
    exact Holdings.stocked_leave ha.stocked _ hle

theorem settleRecovery_holds {r : RedeemReceipt} (h : Holds s ps k p) (hv : s.value < u128Size)
    (h0 : p.activeShares = 0) (hr : settleRecovery s p = .ok (s', p', r)) :
    Holds s' (ps.insert k p') k p' ∧ Carried p p' ∧ p'.activeShares = 0 ∧
      p'.recoveryShares = 0 := by
  cases settleRecovery_ok hr with
  | inl hc =>
    obtain ⟨hrec, rfl, rfl, -⟩ := hc
    rw [OrdMap.insert_get?_self h.found]
    exact ⟨h, .refl p', h0, hrec⟩
  | inr hc =>
    obtain ⟨hrec, tick, hc⟩ := hc
    exact redeemRecovery_holds h hrec hc

theorem finish_holds (h : Holds s ps k p) (h0 : p.activeShares = 0)
    (hc : Carried p p') (ha : p'.activeShares = p.activeShares)
    (hr : p'.recoveryShares = p.recoveryShares)
    (ht : p'.recoveryBucketTick = p.recoveryBucketTick)
    (hg : p'.activeGeneration = p.activeGeneration) : Holds s (ps.insert k p') k p' := by
  refine ⟨h.sound, ?_, OrdMap.get?_insert_self _ _ _, ⟨.inl (ha.trans h0), ?_⟩, h.price⟩
  · have hat := h.shared p.direction
    refine h.shared.update_position (fun q hq => h.direction hq) hc.direction
      (hat.relabel h.found rfl hc.direction ?_ ?_ ?_ ?_)
    · rw [hg]
      exact hat.older k p h.found rfl
    · simp only [Side.activeOf, ha, hg]
    · simp [Side.notionalOf, ha, h0]
    · intro tick
      have hri : (s.side p.direction).rotatedInto p' = (s.side p.direction).rotatedInto p := by
        simp only [Side.rotatedInto, hg]
      simp only [Side.recoveryAt, hri, ha, hr, ht]
  · rw [hr, ht]
    exact h.ok.tick

end Parts

end MoleFinance
