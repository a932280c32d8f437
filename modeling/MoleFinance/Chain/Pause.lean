import MoleFinance.Chain.Effect

/-! The pause switch. The engine reads `Market.paused` before anything else it does; no
instruction reads `GlobalConfig.paused_globally`. -/
namespace MoleFinance
open MoleMath Call Trace

/-! A paused market stops every call of the engine. -/

theorem syncPool_unpaused {market : MarketParams} {s s' : SubPool} {envelope : PriceEnvelope}
    {out : SyncOutcome} (h : syncPool market s envelope = .ok (s', out)) :
    market.paused = false := by
  have hg := (syncPool_ok h).1
  unfold syncGuards at hg
  obtain ⟨_, -, hg⟩ := except_bind_ok.mp hg
  obtain ⟨_, hp, -⟩ := except_bind_ok.mp hg
  exact ensure_ok.mp hp

theorem preSync_unpaused {market : MarketParams} {s s' : SubPool} {d : Direction} {tick : Int}
    {slot : Nat} {out : PreSyncOutcome}
    (h : preSyncDormantBucket market s d tick slot = .ok (s', out)) : market.paused = false := by
  unfold preSyncDormantBucket at h
  obtain ⟨_, -, h⟩ := except_bind_ok.mp h
  obtain ⟨_, hp, -⟩ := except_bind_ok.mp h
  exact ensure_ok.mp hp

theorem harvest_unpaused {market : MarketParams} {s s' : SubPool} {d : Direction}
    {out : HarvestOutcome} (h : harvestDust market s d = .ok (s', out)) :
    market.paused = false := by
  unfold harvestDust at h
  obtain ⟨_, -, h⟩ := except_bind_ok.mp h
  obtain ⟨_, hp, -⟩ := except_bind_ok.mp h
  exact ensure_ok.mp hp

theorem BridgedCall.run_unpaused {params : MarketParams} {sp : SubPool} {call : BridgedCall}
    {r : SubPool × BridgedOutcome} (h : call.run params sp = .ok r) : params.paused = false := by
  cases call with
  | sync e =>
    obtain ⟨⟨s, out⟩, hs, -⟩ := except_bind_ok.mp h
    exact syncPool_unpaused hs
  | close e p =>
    obtain ⟨⟨s, q, out⟩, hs, -⟩ := except_bind_ok.mp h
    obtain ⟨s1, s2, sync, p1, p2, p3, b, r, hc⟩ := closePosition_ok hs
    exact syncPool_unpaused hc.synced
  | forceClose e p ack =>
    obtain ⟨⟨s, q, out⟩, hs, -⟩ := except_bind_ok.mp h
    obtain ⟨s1, s2, s3, sync, p1, p2, p3, b, burned, removed, r, hc⟩ := forceClose_ok hs
    exact syncPool_unpaused hc.synced
  | claim e p =>
    obtain ⟨⟨s, q, out⟩, hs, -⟩ := except_bind_ok.mp h
    obtain ⟨s1, sync, p1, p2, b, tick, r, hc⟩ := claim_ok hs
    exact syncPool_unpaused hc.synced
  | preSync d tick slot =>
    obtain ⟨⟨s, out⟩, hs, -⟩ := except_bind_ok.mp h
    exact preSync_unpaused hs

theorem EngineEffect.unpaused {token : TokenProgram} {st st' : Program} {reads : Bool}
    {o : Option DirectCall} (h : EngineEffect token st reads o st') : st.market.paused = false := by
  have bridged : ∀ {id remaining call r}, st.runBridged id remaining call = .ok r →
      st.market.paused = false := by
    intro id remaining call r hr
    obtain ⟨s, long, short, view, view', long', short', hrun⟩ := Program.runBridged_ok hr
    exact BridgedCall.run_unpaused hrun.ran
  cases h with
  | bridged id remaining call st' outcome hp hn h => exact bridged h
  | settled id key remaining p call st1 outcome tokens hk hs hp hc h hpay =>
    exact bridged h
  | opened id owner wallet params s view pos out tokens hs hk h hpay =>
    obtain ⟨s1, sync, ho⟩ := openPosition_ok h
    exact syncPool_unpaused ho.synced
  | harvested id d s view out tokens hs h hpay => exact harvest_unpaused h

/-- No field of a sub-pool account, ledger or live bucket that existed has changed. -/
def SubPoolState.Kept (s s' : SubPoolState) : Prop :=
  s'.account = s.account ∧ ∀ d, (∀ l, (s.dormant d).ledger = some l →
      (s'.dormant d).ledger = some l) ∧
    ∀ tick b, (s.dormant d).buckets.get? tick = some b → recordIsDead b = false →
      (s'.dormant d).buckets.get? tick = some b

theorem SubPoolState.Kept.refl (s : SubPoolState) : s.Kept s :=
  ⟨rfl, fun _ => ⟨fun _ h => h, fun _ _ h _ => h⟩⟩

theorem SubPoolState.Kept.trans {s s' s'' : SubPoolState} (h : s.Kept s') (h' : s'.Kept s'') :
    s.Kept s'' := by
  refine ⟨h'.1.trans h.1, fun d => ⟨fun l hl => ?_, fun tick b hb hlive => ?_⟩⟩
  · exact (h'.2 d).1 l ((h.2 d).1 l hl)
  · exact (h'.2 d).2 tick b ((h.2 d).2 tick b hb hlive) hlive

namespace Program

/-- Sub-pools, positions and vaults are as before; new empty accounts may have appeared. -/
structure Untouched (st st' : Program) : Prop where
  subPools : ∀ id s, st.subPools.get? id = some s →
    ∃ s', st'.subPools.get? id = some s' ∧ s.Kept s'
  positions : st'.positions = st.positions
  vault : st'.vault = st.vault
  feeVault : st'.feeVault = st.feeVault

theorem Untouched.of_subPools {st st' : Program} (hs : st'.subPools = st.subPools)
    (hp : st'.positions = st.positions) (hv : st'.vault = st.vault)
    (hf : st'.feeVault = st.feeVault) : st.Untouched st' :=
  ⟨fun _ s hg => ⟨s, hs ▸ hg, .refl s⟩, hp, hv, hf⟩

theorem Untouched.trans {st st' st'' : Program} (h : st.Untouched st')
    (h' : st'.Untouched st'') : st.Untouched st'' := by
  refine ⟨fun id s hs => ?_, h'.positions.trans h.positions, h'.vault.trans h.vault,
    h'.feeVault.trans h.feeVault⟩
  obtain ⟨s1, hs1, hk1⟩ := h.subPools id s hs
  obtain ⟨s2, hs2, hk2⟩ := h'.subPools id s1 hs1
  exact ⟨s2, hs2, hk1.trans hk2⟩

end Program

theorem Arranged.kept {maxEntries : U32} {s s' : SubPoolState} (h : Arranged maxEntries s s') :
    s.Kept s' := by
  cases h with
  | ledger d h =>
    refine ⟨s.setDormant_account d _, fun e => ⟨fun l hl => ?_, fun tick b hb _ => ?_⟩⟩
    · rw [SubPoolState.setLedger, SubPoolState.dormant_setDormant]
      split_ifs with he
      · rw [he, h] at hl
        cases hl
      · exact hl
    · rw [SubPoolState.setLedger, SubPoolState.dormant_setDormant]
      split_ifs with he
      · exact he ▸ hb
      · exact hb
  | bucket d t h =>
    refine ⟨s.setDormant_account _ _, fun e => ⟨fun l hl => ?_, fun tick b hb _ => ?_⟩⟩
    · simp only [SubPoolState.setBucket, SubPoolState.dormant_setDormant]
      split_ifs with he
      · exact he ▸ hl
      · exact hl
    · simp only [SubPoolState.setBucket, SubPoolState.dormant_setDormant]
      split_ifs with he
      · have hd : e = d := by simpa [BucketAccount.init] using he
        have ht : tick ≠ t := by
          rintro rfl
          rw [hd, h] at hb
          cases hb
        rw [← he]
        exact (OrdMap.get?_insert_ne _ _ ht).trans hb
      · exact hb
  | closed d t b h hd =>
    refine ⟨s.setDormant_account d _, fun e => ⟨fun l hl => ?_, fun tick c hc hlive => ?_⟩⟩
    · rw [SubPoolState.dormant_setDormant]
      split_ifs with he
      · exact he ▸ hl
      · exact hl
    · rw [SubPoolState.dormant_setDormant]
      split_ifs with he
      · rw [he] at hc
        have ht : tick ≠ t := by
          rintro rfl
          rw [h] at hc
          cases hc
          rw [hd] at hlive
          cases hlive
        simp only
        rw [OrdMap.get?_erase, if_neg ht]
        exact hc
      · exact hc

theorem Effect.untouched {token : TokenProgram} {st st' : Program} {reads : Bool}
    {o : Option DirectCall} (h : Effect token st reads o st') (hp : st.market.paused = true) :
    st.Untouched st' := by
  cases h with
  | outside slot feed tokens hslot hv hf => exact .of_subPools rfl rfl hv hf
  | governed config market hm =>
    have haccounts := hm.accounts_eq
    refine .of_subPools rfl rfl ?_ ?_
    · exact congrArg (fun a => balanceOf st.tokens a.vault) haccounts
    · exact congrArg (fun a => balanceOf st.tokens a.feeVault) haccounts
  | created id hc =>
    refine ⟨fun id' s hs => ⟨s, ?_, .refl s⟩, rfl, rfl, rfl⟩
    have hne : id' ≠ id := by
      rintro rfl
      rw [hc] at hs
      cases hs
    exact (OrdMap.get?_insert_ne _ _ hne).trans hs
  | arranged id s s' hs ha =>
    refine ⟨fun id' t ht => ?_, rfl, rfl, rfl⟩
    by_cases he : id' = id
    · rw [he, hs] at ht
      cases ht
      exact ⟨s', he ▸ OrdMap.get?_insert_self _ _ _, ha.kept⟩
    · exact ⟨t, (OrdMap.get?_insert_ne _ _ he).trans ht, .refl t⟩
  | engaged h =>
    rw [h.unpaused] at hp
    cases hp

def ChainOp.touchesFunds : ChainOp → Bool
  | .instruction i => i.touchesFunds
  | _ => false

theorem ChainOp.step_paused {token : TokenProgram} (op : ChainOp) {st : Program}
    (hp : st.market.paused = true) : st.Untouched (op.step token st).2 ∧
      (op.touchesFunds = true → (op.step token st).1 ≠ none) := by
  unfold ChainOp.step
  cases he : op.exec token st with
  | error e => exact ⟨.of_subPools rfl rfl rfl rfl, fun _ => by simp⟩
  | ok st' =>
    refine ⟨(ChainOp.exec_effect he).untouched hp, fun ht => ?_⟩
    cases op with
    | instruction i =>
      have hu := (Instruction.exec_engaged ht he).unpaused
      rw [hp] at hu
      cases hu
    | _ => cases ht

/-- While `Market.paused` is set, whatever the global flag says, a run leaves sub-pools, ledgers,
    live buckets, positions and vaults alone, and every instruction on funds fails. -/
theorem paused_run_untouched (token : TokenProgram) (ops : List ChainOp) (st : Program)
    (h : AlongRun (ChainOp.step token) (fun _ st => st.market.paused = true) ops st) :
    st.Untouched (run (ChainOp.step token) ops st).2 ∧
      AlongRun (ChainOp.step token)
        (fun op st => op.touchesFunds = true → (op.step token st).1 ≠ none) ops st := by
  induction ops generalizing st with
  | nil => exact ⟨.of_subPools rfl rfl rfl rfl, trivial⟩
  | cons op ops ih =>
    obtain ⟨hp, h⟩ := h
    obtain ⟨hu, hf⟩ := ChainOp.step_paused op hp
    obtain ⟨hus, hfs⟩ := ih _ h
    exact ⟨hu.trans hus, hf, hfs⟩

/-- The global flag alone stops nothing: a deposit goes through. -/
theorem globallyPaused_opens :
    let ops := [makeSubPool, .instruction (.setGloballyPaused 1 true)]
    let opened := deposit true (amount 100) (amount 100) (amount 1)
    (chainRun 0 ops).2.globalConfig.pausedGlobally = true ∧
      (chainRun 0 (ops ++ [opened])).1 = [none, none, none] ∧ (chainRun 0 ops).2.vault = 0 ∧
      (chainRun 0 (ops ++ [opened])).2.vault = 100 ∧
      (chainRun 0 (ops ++ [opened])).2.positions.size = 1 := by
  decide +kernel

/-- A paused run with a rejected deposit. -/
theorem pausedMarket_run :
    let ops := [makeSubPool, deposit true (amount 100) (amount 100) (amount 1),
      .instruction (.pauseMarket 2)]
    let st := (chainRun 0 ops).2
    let later := [deposit false (amount 100) (amount 50) (amount 2), .advance 3]
    st.Untouched (run (ChainOp.step splToken) later st).2 ∧
      AlongRun (ChainOp.step splToken)
        (fun op st => op.touchesFunds = true → (op.step splToken st).1 ≠ none) later st :=
  paused_run_untouched splToken _ _ ⟨by decide +kernel, by decide +kernel, trivial⟩

end MoleFinance
