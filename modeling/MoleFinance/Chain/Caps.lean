import MoleFinance.Chain.Effect

/-! The risk caps of a market. No instruction reads the caps or writes the running totals, so
they agree with the positions only while nobody has deposited. -/
namespace MoleFinance
open MoleMath Call Trace

structure Retained (p p' : Position) : Prop where
  principal : p'.principal = p.principal
  notional_le : p'.notional ≤ p.notional

namespace Retained
variable {s s' : SubPool} {p p' p'' : Position}

theorem of_same (hp : p'.principal = p.principal) (hn : p'.notional = p.notional) :
    Retained p p' := ⟨hp, hn.le⟩

theorem trans (h : Retained p p') (h' : Retained p' p'') : Retained p p'' :=
  ⟨h'.principal.trans h.principal, h'.notional_le.trans h.notional_le⟩

theorem migrated {b : Bool} (h : lazyMigratePosition s p = .ok (p', b)) : Retained p p' := by
  cases lazyMigratePosition_ok h with
  | empty h0 => exact .of_same rfl rfl
  | current h0 hg => exact .of_same rfl rfl
  | moved r h0 hg hr => exact ⟨rfl, Nat.zero_le _⟩

theorem burned {value : Nat} (h : burnActive s p value = .ok (s', p')) : Retained p p' := by
  obtain ⟨-, -, -, -, rfl⟩ := burnActive_ok h
  exact .of_same rfl rfl

theorem redeemed {value : Nat} (h : redeemActive s p = .ok (s', p', value)) :
    Retained p p' := by
  cases redeemActive_ok h with
  | inl h => exact .of_same (by rw [h.2.2.1]) (by rw [h.2.2.1])
  | inr h => exact burned h.2.2.2.2

theorem forfeited {burned removed : Nat} (h : forfeitActive s p = .ok (s', p', burned, removed)) :
    Retained p p' := by
  cases forfeitActive_ok h with
  | inl h => exact .of_same (by rw [h.2.2.1]) (by rw [h.2.2.1])
  | inr h => exact Retained.burned h.2.1

theorem recovered {tick : Int} {r : RedeemReceipt}
    (h : redeemRecovery s p = .ok (s', p', tick, r)) : Retained p p' := by
  obtain ⟨-, dormant, -, -, -, rfl⟩ := redeemRecovery_ok h
  exact .of_same rfl rfl

theorem settled {r : RedeemReceipt} (h : settleRecovery s p = .ok (s', p', r)) :
    Retained p p' := by
  cases settleRecovery_ok h with
  | inl h => exact .of_same (by rw [h.2.2.1]) (by rw [h.2.2.1])
  | inr h =>
    obtain ⟨-, tick, h⟩ := h
    exact recovered h

theorem finished (p : Position) (slot : Nat) : Retained p (finishPosition p slot) :=
  ⟨rfl, Nat.zero_le _⟩

end Retained

theorem BridgedCall.run_retained {params : MarketParams} {sp sp' : SubPool} {call : BridgedCall}
    {outcome : BridgedOutcome} (h : call.run params sp = .ok (sp', outcome)) {p : Position}
    (hp : call.position = some p) : ∃ p', outcome.position = some p' ∧ Retained p p' := by
  cases call with
  | sync e => cases hp
  | close e q =>
    cases hp
    obtain ⟨⟨s, p', out⟩, hs, h⟩ := except_bind_ok.mp h
    cases h
    obtain ⟨s1, s2, sync, p1, p2, p3, b, r, hc⟩ := closePosition_ok hs
    have h3 := (Retained.migrated hc.migrated).trans
      ((Retained.redeemed hc.active).trans (.settled hc.recovery))
    exact ⟨p', rfl, h3.trans (hc.state ▸ .finished p3 e.slot)⟩
  | forceClose e q ack =>
    cases hp
    obtain ⟨⟨s, p', out⟩, hs, h⟩ := except_bind_ok.mp h
    cases h
    obtain ⟨s1, s2, s3, sync, p1, p2, p3, b, burned, removed, r, hc⟩ := forceClose_ok hs
    have h3 := (Retained.migrated hc.migrated).trans
      ((Retained.forfeited hc.active).trans (.settled hc.recovery))
    exact ⟨p', rfl, h3.trans (hc.state ▸ .finished p3 e.slot)⟩
  | claim e q =>
    cases hp
    obtain ⟨⟨s, p', out⟩, hs, h⟩ := except_bind_ok.mp h
    cases h
    obtain ⟨s1, sync, p1, p2, b, tick, r, hc⟩ := claim_ok hs
    have h2 := (Retained.migrated hc.migrated).trans (.recovered hc.recovery)
    exact ⟨p', rfl, h2.trans (hc.state ▸ .of_same rfl rfl)⟩
  | preSync d tick slot => cases hp

namespace Program

/-- Principal of all positions that are not closed, in every sub-pool. -/
def livePrincipal (st : Program) : Nat :=
  st.positions.sum (fun _ p => if p.status = 2 then 0 else p.principal)

def liveNotional (st : Program) : Nat :=
  st.positions.sum (fun _ p => if p.status = 2 then 0 else p.notional)

/-- The caps bound what is live, and the running totals of the market tell it. -/
structure CapsHold (st : Program) : Prop where
  principal_le : st.livePrincipal ≤ st.market.maxTotalPrincipal
  notional_le : st.liveNotional ≤ st.market.maxTotalNotional
  principal_eq : st.market.currentTotalPrincipal = st.livePrincipal
  notional_eq : st.market.currentTotalNotional = st.liveNotional

structure Undeposited (st : Program) : Prop where
  principal : st.market.currentTotalPrincipal = 0
  notional : st.market.currentTotalNotional = 0
  positions : ∀ k p, st.positions.get? k = some p → p.principal = 0 ∧ p.notional = 0

theorem Undeposited.capsHold {st : Program} (h : st.Undeposited) : st.CapsHold := by
  have hp : st.livePrincipal = 0 := by
    refine OrdMap.sum_zero_iff.mpr fun k p hk => ?_
    rw [(h.positions k p hk).1, ite_self]
  have hn : st.liveNotional = 0 := by
    refine OrdMap.sum_zero_iff.mpr fun k p hk => ?_
    rw [(h.positions k p hk).2, ite_self]
  exact ⟨by omega, by omega, by rw [h.principal, hp], by rw [h.notional, hn]⟩

end Program

def ChainOp.Deposits (token : TokenProgram) (op : ChainOp) (st : Program) : Prop :=
  ∃ o fee principal, op.openCall = some o ∧ (op.step token st).1 = none ∧
    takeFee (marketParamsFrom st.market) o.params.grossAmount = .ok (fee, principal) ∧
    principal ≠ 0

theorem Market.SameLimits.totals {m m' : Market} (h : m.SameLimits m') :
    m'.currentTotalPrincipal = m.currentTotalPrincipal ∧
      m'.currentTotalNotional = m.currentTotalNotional := by
  unfold SameLimits at h
  have hp := congrArg Market.currentTotalPrincipal h
  have hn := congrArg Market.currentTotalNotional h
  exact ⟨hp, hn⟩

theorem Effect.undeposited {token : TokenProgram} {st st' : Program} {reads : Bool}
    {o : Option DirectCall} (h : Effect token st reads o st') (hst : st.Undeposited)
    (ho : ∀ c fee principal, o = some (.open c) →
      takeFee (marketParamsFrom st.market) c.params.grossAmount = .ok (fee, principal) →
      principal = 0) : st'.Undeposited := by
  obtain ⟨hp, hn, hpos⟩ := hst
  cases h with
  | outside slot feed tokens hslot hv hf => exact ⟨hp, hn, hpos⟩
  | governed config market hm => exact ⟨hm.totals.1.trans hp, hm.totals.2.trans hn, hpos⟩
  | created id hc => exact ⟨hp, hn, hpos⟩
  | arranged id s s' hs ha => exact ⟨hp, hn, hpos⟩
  | engaged h =>
    cases h with
    | bridged id remaining call st' outcome hprice hnone h =>
      obtain ⟨m, rfl⟩ := Program.runBridged_subPools h
      exact ⟨hp, hn, hpos⟩
    | settled id key remaining p call st1 outcome tokens hk hs hprice hc h hpay =>
      obtain ⟨s, long, short, view, view', long', short', hrun⟩ := Program.runBridged_ok h
      obtain ⟨p', hout, hret⟩ := BridgedCall.run_retained hrun.ran hc
      obtain ⟨m, rfl⟩ := Program.runBridged_subPools h
      refine ⟨hp, hn, fun k q hq => ?_⟩
      simp only [hout, Option.map_some, Option.getD_some] at hq
      rw [OrdMap.get?_insert] at hq
      split_ifs at hq with hkey
      · cases hq
        obtain ⟨hp0, hn0⟩ := hpos key p hk
        have hle : p'.notional ≤ p.notional := hret.notional_le
        exact ⟨hret.principal.trans hp0, by simp only [writeBackPosition]; omega⟩
      · exact hpos k q hq
    | opened id owner wallet params s view pos out tokens hs hk h hpay =>
      obtain ⟨s1, sync, hop⟩ := openPosition_ok h
      have h0 := ho _ _ _ rfl hop.fee
      have hn0 : pos.notional = 0 := by
        have hnot := hop.notional
        rw [h0, mulDivFloor_zero (by norm_num [bpsScale])] at hnot
        rw [hop.position]
        exact (Except.ok.inj hnot).symm
      refine ⟨hp, hn, fun k q hq => ?_⟩
      simp only at hq
      rw [OrdMap.get?_insert] at hq
      split_ifs at hq with hkey
      · cases hq
        exact ⟨h0, hn0⟩
      · exact hpos k q hq
    | harvested id d s view out tokens hs h hpay => exact ⟨hp, hn, hpos⟩

theorem Effect.capsBroken {token : TokenProgram} {st st' : Program} {reads : Bool} {c : OpenCall}
    (h : Effect token st reads (some (.open c)) st') (hst : st.Undeposited) {fee principal : Nat}
    (hfee : takeFee (marketParamsFrom st.market) c.params.grossAmount = .ok (fee, principal))
    (h0 : principal ≠ 0) : ¬ st'.CapsHold := by
  cases h with
  | engaged h =>
    cases h with
    | opened id owner wallet params s view pos out tokens hs hk h hpay =>
      intro hcaps
      obtain ⟨s1, sync, hop⟩ := openPosition_ok h
      have hpr := hop.fee
      rw [hfee] at hpr
      cases hpr
      have heq := hcaps.principal_eq
      have hsum := OrdMap.sum_insert_new (fun _ (p : PositionAccount) =>
        if p.status = 2 then 0 else p.principal)
        (Program.newPosition st.market owner s.account.key params pos) hk
      have hnew : (Program.newPosition st.market owner s.account.key params pos).principal
          = pos.principal := rfl
      have hlive : (Program.newPosition st.market owner s.account.key params pos).status = 0 := rfl
      simp only [hlive, hnew] at hsum
      simp only [Program.livePrincipal, hst.principal] at heq
      rw [hsum] at heq
      simp only [show ¬ (0 : Nat) = 2 by omega, if_false] at heq
      omega

theorem ChainOp.step_caps {token : TokenProgram} {op : ChainOp} {st : Program}
    (hst : st.Undeposited) : (op.step token st).2.CapsHold ↔ ¬ op.Deposits token st := by
  cases he : op.exec token st with
  | error e =>
    have hs : op.step token st = (some e, st) := by rw [ChainOp.step, he]
    refine iff_of_true (by rw [hs]; exact hst.capsHold) ?_
    rintro ⟨o, fee, principal, -, hok, -⟩
    rw [hs] at hok
    cases hok
  | ok st' =>
    have hs : op.step token st = (none, st') := by rw [ChainOp.step, he]
    rw [hs]
    constructor
    · rintro hcaps ⟨o, fee, principal, ho, -, hfee, h0⟩
      have heff := ChainOp.exec_effect he
      rw [ChainOp.directCall_open.mpr ho] at heff
      exact heff.capsBroken hst hfee h0 hcaps
    · intro hd
      refine ((ChainOp.exec_effect he).undeposited hst fun c fee principal hc hfee => ?_).capsHold
      by_contra h0
      exact hd ⟨c, fee, principal, ChainOp.directCall_open.mp hc, by rw [hs], hfee, h0⟩

theorem ChainOp.step_undeposited {token : TokenProgram} {op : ChainOp} {st : Program}
    (hst : st.Undeposited) (hd : ¬ op.Deposits token st) : (op.step token st).2.Undeposited := by
  unfold ChainOp.step
  cases he : op.exec token st with
  | error e => exact hst
  | ok st' =>
    refine (ChainOp.exec_effect he).undeposited hst fun c fee principal hc hfee => ?_
    by_contra h0
    exact hd ⟨c, fee, principal, ChainOp.directCall_open.mp hc, by rw [ChainOp.step, he], hfee, h0⟩

theorem Program.Fresh.undeposited {st : Program} (h : st.Fresh) : st.Undeposited := by
  obtain ⟨config, oracle, params, -, hm⟩ := h.market
  unfold initializeMarket at hm
  obtain ⟨_, -, hm⟩ := except_bind_ok.mp hm
  obtain ⟨_, -, hm⟩ := except_bind_ok.mp hm
  have hm := Except.ok.inj hm
  refine ⟨by rw [← hm], by rw [← hm], fun k p hk => ?_⟩
  rw [h.positions] at hk
  cases hk

/-- The caps hold after every step of a run from a new market exactly when no open of it
    deposits anything. -/
theorem caps_hold_iff (token : TokenProgram) (ops : List ChainOp) (start : Program)
    (h : start.Fresh) :
    AlongRun (ChainOp.step token) (fun op st => (op.step token st).2.CapsHold) ops start ↔
      AlongRun (ChainOp.step token) (fun op st => ¬ op.Deposits token st) ops start :=
  alongRun_congr_of (fun _ _ hst hd => ChainOp.step_undeposited hst hd)
    (fun _ _ hst => ChainOp.step_caps hst) h.undeposited

/-- Two deposits of 100 under a cap of 150. -/
theorem smallProgram_breaks_caps :
    let ops := [makeSubPool, deposit true (amount 100) (amount 100) (amount 1),
      deposit false (amount 100) (amount 100) (amount 2)]
    let st := (chainRun 0 ops).2
    (chainRun 0 ops).1 = [none, none, none] ∧ st.market.maxTotalPrincipal = 150 ∧
      st.livePrincipal = 200 ∧ st.market.maxTotalNotional = 1500 ∧ st.liveNotional = 2000 ∧
      st.market.currentTotalPrincipal = 0 ∧ st.market.currentTotalNotional = 0 := by
  decide +kernel

theorem smallProgram_caps_iff :
    AlongRun (ChainOp.step splToken) (fun op st => (op.step splToken st).2.CapsHold)
        [makeSubPool, .advance 2] (smallProgram 0) ↔
      AlongRun (ChainOp.step splToken) (fun op st => ¬ op.Deposits splToken st)
        [makeSubPool, .advance 2] (smallProgram 0) :=
  caps_hold_iff splToken [makeSubPool, .advance 2] (smallProgram 0)
    (smallProgram_fresh (by decide))

end MoleFinance
