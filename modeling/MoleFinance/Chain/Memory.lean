import MoleFinance.Chain.Unbridged
import MoleFinance.Engine.Forgetting

/-! What the accounts remember of a sub-pool: the engine's sub-pool at the end of an instruction,
and the one that the next instruction builds from the accounts. -/
namespace MoleFinance
open MoleMath Call Trace

namespace Instruction

def bridgedCall (st : Program) : Instruction → Option BridgedCall
  | .syncPool _ envelope _ => do
    let e ← (validateOracleEnvelope st.market st.oraclePriceFeed st.slot envelope).toOption
    return .sync e
  | .closePosition _ owner _ positionId envelope _ => do
    let e ← (validateOracleEnvelope st.market st.oraclePriceFeed st.slot envelope).toOption
    let p ← st.positions.get? (positionKey owner positionId)
    return .close e (positionToCore p)
  | .forceCloseZeroValuePosition _ owner positionId envelope ack _ => do
    let e ← (validateOracleEnvelope st.market st.oraclePriceFeed st.slot envelope).toOption
    let p ← st.positions.get? (positionKey owner positionId)
    return .forceClose e (positionToCore p) ack
  | .claimDormantRecovery _ owner _ positionId envelope _ => do
    let e ← (validateOracleEnvelope st.market st.oraclePriceFeed st.slot envelope).toOption
    let p ← st.positions.get? (positionKey owner positionId)
    return .claim e (positionToCore p)
  | .preSyncDormantBucket _ isLong tick _ => some (.preSync (.ofIsLong isLong) tick st.slot)
  | _ => none

def engineSubPool : Instruction → Option Nat
  | .openPosition id _ _ _ => some id
  | .harvestDust id _ _ => some id
  | i => i.bridged.map Prod.fst

def bridgedRun (st : Program) (t : SubPool) (i : Instruction) : Option SubPool := do
  let call ← i.bridgedCall st
  let (t, _) ← (call.run (marketParamsFrom st.market) t).toOption
  return t

def engineRun (st : Program) (t : SubPool) : Instruction → Option SubPool
  | .openPosition _ _ _ params =>
    (MoleFinance.openPosition (marketParamsFrom st.market) t params.envelope
      (.ofIsLong params.directionIsLong) params.grossAmount params.positionId).toOption.map
        Prod.fst
  | .harvestDust _ _ isLong =>
    (MoleFinance.harvestDust (marketParamsFrom st.market) t (.ofIsLong isLong)).toOption.map
      Prod.fst
  | i => i.bridgedRun st t

end Instruction

namespace Program

/-- The sub-pool in memory when an instruction is done: what the engine made of the one that
    the accounts stood for. -/
def inMemory (st : Program) (i : Instruction) : Option (Nat × SubPool) := do
  let id ← i.engineSubPool
  let s ← st.subPools.get? id
  let t ← (s.full st.market.maxDistributionLedgerSize).toOption
  let t ← i.engineRun st t
  return (id, t)

/-- Nothing of the stores is lost: through the bridge, every new bucket lands once; without it,
    there are no recovery shares that would need a bucket. -/
def StoresKept (st : Program) (i : Instruction) (t : SubPool) : Prop :=
  match i.bridged with
  | some (id, remaining) => ∀ d accounts, st.suppliedBuckets id remaining d = .ok accounts →
      LandsOnce d (t.side d).dormant accounts
  | none => ∀ d, (t.side d).recoveryShares = 0

/-- The sub-pool that the next instruction builds from the accounts. -/
def rebuilt (st : Program) (id : Nat) : Option SubPool := do
  let s ← st.subPools.get? id
  (s.full st.market.maxDistributionLedgerSize).toOption

end Program

def SubPool.logs (t : SubPool) : RotateLogs := fun d => (t.side d).rotateLog

theorem SubPool.relog_unlogged (t : SubPool) : t.unlogged.relog t.logs = t := by
  cases t with
  | mk id long short price slot =>
    simp only [relog, unlogged, Side.relog, logs, side, List.append_nil]

def SubPool.Dated (t : SubPool) : Prop :=
  ∀ d, ∀ r ∈ t.logs d, r.generationJustEnded < (t.side d).activeGeneration

theorem SubPool.Logged.dated {s t : SubPool} (h : s.Logged t)
    (hs : ∀ d, (s.side d).rotateLog = []) : t.Dated := by
  intro d r hr
  obtain ⟨added, hl, ha⟩ := (h d).log
  rw [hs, List.nil_append] at hl
  exact ha r (hl ▸ hr)

/-- On a sub-pool without its logs the engine answers as on the original, as long as no position
    was rotated out by one of the records. -/
theorem answers_unlogged {t : SubPool} {ps : Positions} (ht : t.Dated)
    (hps : ∀ k p, ps.get? k = some p → Unforgotten t.logs p)
    (ops : List (MarketParams × EngineOp)) :
    (run EngineOp.step ops ⟨t.unlogged, ps⟩).1 = (run EngineOp.step ops ⟨t, ps⟩).1 := by
  have holder : ∀ d, ∀ r ∈ t.logs d,
      r.generationJustEnded < (t.unlogged.side d).activeGeneration := by
    intro d r hr
    rw [SubPool.side_unlogged]
    exact ht d r hr
  have hrun := EngineOp.run_relog (w := ⟨t.unlogged, ps⟩) ⟨holder, hps⟩ ops
  rw [World.relog, t.relog_unlogged] at hrun
  exact hrun.symm

theorem BridgedCall.run_logged {params : MarketParams} {sp sp' : SubPool} {call : BridgedCall}
    {outcome : BridgedOutcome} (h : call.run params sp = .ok (sp', outcome)) : sp.Logged sp' := by
  cases call with
  | sync e =>
    obtain ⟨⟨s, out⟩, hs, h⟩ := except_bind_ok.mp h
    cases h
    exact syncPool_logged hs
  | close e q =>
    obtain ⟨⟨s, p', out⟩, hs, h⟩ := except_bind_ok.mp h
    cases h
    exact (closePosition_logged hs).1
  | forceClose e q ack =>
    obtain ⟨⟨s, p', out⟩, hs, h⟩ := except_bind_ok.mp h
    cases h
    exact (forceClose_logged hs).1
  | claim e q =>
    obtain ⟨⟨s, p', out⟩, hs, h⟩ := except_bind_ok.mp h
    cases h
    exact (claim_logged hs).1
  | preSync d tick slot =>
    obtain ⟨⟨s, out⟩, hs, h⟩ := except_bind_ok.mp h
    cases h
    exact preSync_logged hs

/-- An instruction that returned has taken its call through the bridge, and has changed no
    sub-pool since. -/
theorem Instruction.exec_bridgedCall {token : TokenProgram} {st st' : Program} {i : Instruction}
    {id : Nat} {remaining : RemainingAccounts} (hi : i.bridged = some (id, remaining))
    (h : i.exec token st = .ok st') :
    ∃ call st1 outcome, i.bridgedCall st = some call ∧
      st.runBridged id remaining call = .ok (st1, outcome) ∧ st'.subPools = st1.subPools := by
  have settled : ∀ {key : PositionKey} {f : Position → BridgedCall} {st1 : Program} {paid : Nat},
      st.runOnPosition id key remaining f = .ok (st1, paid) →
      ∃ p st2 outcome, st.positions.get? key = some p ∧
        st.runBridged id remaining (f (positionToCore p)) = .ok (st2, outcome) ∧
        st1.subPools = st2.subPools := by
    intro key f st1 paid hr
    obtain ⟨p, st2, outcome, hp, -, hb, rfl, -⟩ := Program.runOnPosition_ok hr
    exact ⟨p, st2, outcome, hp, hb, rfl⟩
  cases i with
  | syncPool j e r =>
    cases hi
    obtain ⟨e', he, h⟩ := except_bind_ok.mp h
    obtain ⟨⟨st1, outcome⟩, hr, h⟩ := except_bind_ok.mp h
    cases h
    refine ⟨.sync e', st', outcome, ?_, hr, rfl⟩
    rw [bridgedCall, toOption_some.mpr he]
    rfl
  | closePosition j owner wallet positionId e r =>
    cases hi
    obtain ⟨_, -, h⟩ := except_bind_ok.mp h
    obtain ⟨w, hw, h⟩ := except_bind_ok.mp h
    obtain ⟨e', he, h⟩ := except_bind_ok.mp h
    obtain ⟨⟨st1, paid⟩, hr, h⟩ := except_bind_ok.mp h
    obtain ⟨tokens, -, rfl⟩ := Program.payOut_moves h
    obtain ⟨p, st2, outcome, hp, hb, hsub⟩ := settled hr
    refine ⟨_, st2, outcome, ?_, hb, hsub⟩
    rw [bridgedCall, toOption_some.mpr he, Option.bind_eq_bind, Option.bind_some, hp]
    rfl
  | forceCloseZeroValuePosition j owner positionId e ack r =>
    cases hi
    obtain ⟨e', he, h⟩ := except_bind_ok.mp h
    obtain ⟨⟨st1, paid⟩, hr, h⟩ := except_bind_ok.mp h
    cases h
    obtain ⟨p, st2, outcome, hp, hb, hsub⟩ := settled hr
    refine ⟨_, st2, outcome, ?_, hb, hsub⟩
    rw [bridgedCall, toOption_some.mpr he, Option.bind_eq_bind, Option.bind_some, hp]
    rfl
  | claimDormantRecovery j owner wallet positionId e r =>
    cases hi
    obtain ⟨_, -, h⟩ := except_bind_ok.mp h
    obtain ⟨w, hw, h⟩ := except_bind_ok.mp h
    obtain ⟨e', he, h⟩ := except_bind_ok.mp h
    obtain ⟨⟨st1, paid⟩, hr, h⟩ := except_bind_ok.mp h
    obtain ⟨tokens, -, rfl⟩ := Program.payOut_moves h
    obtain ⟨p, st2, outcome, hp, hb, hsub⟩ := settled hr
    refine ⟨_, st2, outcome, ?_, hb, hsub⟩
    rw [bridgedCall, toOption_some.mpr he, Option.bind_eq_bind, Option.bind_some, hp]
    rfl
  | preSyncDormantBucket j isLong tick r =>
    cases hi
    obtain ⟨⟨st1, outcome⟩, hr, h⟩ := except_bind_ok.mp h
    cases h
    exact ⟨_, st', outcome, rfl, hr, rfl⟩
  | _ => cases hi

theorem Effect.maxEntries_eq {token : TokenProgram} {st st' : Program} {reads : Bool}
    {o : Option DirectCall} (h : Effect token st reads o st') :
    st'.market.maxDistributionLedgerSize = st.market.maxDistributionLedgerSize := by
  have bridged : ∀ {id remaining call st1 outcome},
      st.runBridged id remaining call = .ok (st1, outcome) →
      st1.market.maxDistributionLedgerSize = st.market.maxDistributionLedgerSize := by
    intro id remaining call st1 outcome hr
    obtain ⟨subPools, rfl⟩ := Program.runBridged_subPools hr
    rfl
  cases h with
  | governed config market hm => exact congrArg (·.maxDistributionLedgerSize) hm
  | engaged h =>
    cases h with
    | bridged id remaining call st' outcome hp hn h => exact bridged h
    | settled id key remaining p call st1 outcome tokens hk hs hp hc h hpay =>
      have hm := bridged h
      exact hm
    | _ => rfl
  | _ => rfl

namespace Program
variable {token : TokenProgram} {st st' : Program} {i : Instruction} {id : Nat} {t : SubPool}

theorem inMemory_some (h : st.inMemory i = some (id, t)) :
    i.engineSubPool = some id ∧ ∃ s t0, st.subPools.get? id = some s ∧
      s.full st.market.maxDistributionLedgerSize = .ok t0 ∧ i.engineRun st t0 = some t := by
  unfold inMemory at h
  obtain ⟨id', hid, h⟩ := Option.bind_eq_some_iff.mp h
  obtain ⟨s, hs, h⟩ := Option.bind_eq_some_iff.mp h
  obtain ⟨t0, ht0, h⟩ := Option.bind_eq_some_iff.mp h
  obtain ⟨t', ht', h⟩ := Option.bind_eq_some_iff.mp h
  cases h
  exact ⟨hid, s, t0, hs, toOption_some.mp ht0, ht'⟩

theorem full_unlogged {s : SubPoolState} {maxEntries : U32} {t0 : SubPool}
    (h : s.full maxEntries = .ok t0) (d : Direction) : (t0.side d).rotateLog = [] := by
  rw [(SubPoolState.full_ok.mp h).1]
  cases d <;> rfl

theorem full_of_intact {s : SubPoolState} {maxEntries : U32} {t0 : SubPool}
    (h : s.Intact maxEntries t0)
    (ha : ∀ d, (s.dormant d).Addressed s.account.key d maxEntries) :
    s.full maxEntries = .ok t0 :=
  SubPoolState.full_ok.mpr ⟨h.eq, fun d => (h.holds d).store_eq (ha d)⟩

/-- A bridged call whose buckets landed: the accounts stand for all of the sub-pool in memory but
    its logs. -/
theorem Carried.full {remaining : RemainingAccounts} {call : BridgedCall}
    {outcome : BridgedOutcome} {s : SubPoolState} {t0 view : SubPool}
    {long short long' short' : BridgedSide} (hst : st.Sane)
    (h : st.Carried id remaining call st' outcome s t0 view long short long' short')
    (hland : ∀ d, LandsOnce d (view.side d).dormant (BridgedSide.of d long short).buckets) :
    SubPoolState.full {
        account := applyClearingView s.account view
        long := s.long.written long'
        short := s.short.written short' } st.market.maxDistributionLedgerSize
      = .ok view.unlogged := by
  have hkey : s.account.key = id := (hst id s h.found).id_eq
  have hview : view.subPoolId = s.account.subPoolId := by
    rw [(BridgedCall.run_framed h.ran).id_eq, h.intact.eq]
    rfl
  rw [SubPoolState.full_ok]
  refine ⟨?_, fun d => ?_⟩
  · rw [SubPool.side_unlogged, SubPool.side_unlogged]
    exact (withStores_applyClearingView hview).symm
  · obtain ⟨o, hrepack⟩ := h.repack d
    have hdec := hrepack.decode_iff.mpr (hland d)
    rw [← hkey] at hdec
    rw [SubPool.side_unlogged]
    cases d with
    | long => exact hdec
    | short => exact hdec

/-- Without recovery shares at its end, an open does on the view what it does on the whole
    sub-pool. -/
theorem openPosition_rebuilt (hst : st.Sane) {s : SubPoolState} {t0 : SubPool}
    (hs : st.subPools.get? id = some s)
    (ht0 : s.full st.market.maxDistributionLedgerSize = .ok t0) {owner wallet : Pubkey}
    {params : OpenParams} {p : Position} {out : OpenOutcome}
    (hr : st.openPosition token id owner wallet params = .ok st')
    (ho : MoleFinance.openPosition (marketParamsFrom st.market) t0 params.envelope
      (.ofIsLong params.directionIsLong) params.grossAmount params.positionId = .ok (t, p, out))
    (hkept : ∀ d, (t.side d).recoveryShares = 0) :
    ∃ s', st'.subPools.get? id = some s' ∧
      s'.full st.market.maxDistributionLedgerSize = .ok t.unlogged := by
  have hframed := openPosition_framed ho
  obtain ⟨t1, sync, hopen⟩ := openPosition_ok ho
  have hintact := (hst id s hs).intact_of_checked ht0 hframed hopen.checked
  obtain ⟨view, p', out', hview, -, hget⟩ := openPosition_handler hs hr
  have hr0 : ∀ d, (t0.side d).recoveryShares = 0 := by
    intro d
    obtain ⟨v1, vsync, hv⟩ := openPosition_ok hview
    rw [hintact.side_eq]
    exact clearingView_gapless (openPosition_framed hview) hv.checked d
  obtain ⟨hsame, hshell⟩ := openPosition_shell (hintact.bare hr0) hkept ho
  rw [hintact.shell_eq, hview] at hshell
  cases hshell
  exact ⟨_, hget, SubPoolState.full_applyClearingView ht0 hframed.id_eq hsame⟩

theorem harvestDust_rebuilt (hst : st.Sane) {s : SubPoolState} {t0 : SubPool}
    (hs : st.subPools.get? id = some s)
    (ht0 : s.full st.market.maxDistributionLedgerSize = .ok t0) {signer : Pubkey} {isLong : Bool}
    {out : HarvestOutcome} (hr : st.harvestDust token id signer isLong = .ok st')
    (ho : MoleFinance.harvestDust (marketParamsFrom st.market) t0 (.ofIsLong isLong)
      = .ok (t, out)) :
    ∃ s', st'.subPools.get? id = some s' ∧
      s'.full st.market.maxDistributionLedgerSize = .ok t.unlogged := by
  have hframed := harvest_framed (m := 0) ho
  have hintact := (hst id s hs).intact_of_checked ht0 hframed (harvest_ok ho).2.2
  obtain ⟨view, out', hview, -, hget⟩ := harvestDust_handler hs hr
  have hr0 : ∀ d, (t0.side d).recoveryShares = 0 := by
    intro d
    rw [hintact.side_eq]
    exact clearingView_gapless (m := 0) (harvest_framed hview) (harvest_ok hview).2.2 d
  obtain ⟨hsame, hshell⟩ := harvestDust_shell hr0 ho
  rw [hintact.shell_eq, hview] at hshell
  cases hshell
  exact ⟨_, hget, SubPoolState.full_applyClearingView ht0 hframed.id_eq hsame⟩

theorem bridged_rebuilt (hst : st.Sane) {s : SubPoolState} {t0 : SubPool}
    {remaining : RemainingAccounts} (hs : st.subPools.get? id = some s)
    (ht0 : s.full st.market.maxDistributionLedgerSize = .ok t0)
    (hr : i.exec token st = .ok st') (hi : i.bridged = some (id, remaining))
    (hrun : i.bridgedRun st t0 = some t)
    (hkept : ∀ d accounts, st.suppliedBuckets id remaining d = .ok accounts →
      LandsOnce d (t.side d).dormant accounts) :
    (∃ s', st'.subPools.get? id = some s' ∧
      s'.full st.market.maxDistributionLedgerSize = .ok t.unlogged) ∧ t0.Logged t := by
  obtain ⟨call, st1, outcome, hcall, hb, hsub⟩ := i.exec_bridgedCall hi hr
  obtain ⟨s', t1, view, long, short, long', short', hc⟩ := hst.bridged hb
  have hfound := hc.found
  rw [hs] at hfound
  cases hfound
  have hkey : s.account.key = id := (hst id s hs).id_eq
  have hfull := full_of_intact hc.intact (hkey ▸ (hst id s hs).addressed)
  rw [ht0] at hfull
  cases hfull
  rw [Instruction.bridgedRun, hcall, Option.bind_eq_bind, Option.bind_some,
    toOption_some.mpr hc.ran] at hrun
  cases hrun
  refine ⟨⟨_, ?_, hc.full hst fun d => hkept d _ ?_⟩, BridgedCall.run_logged hc.ran⟩
  · rw [hsub, hc.state]
    exact OrdMap.get?_insert_self _ _ _
  · rw [suppliedBuckets, hc.loaded]
    rfl

/-- Whatever engine call an instruction made, the next one finds the sub-pool without its logs. -/
theorem rebuilt_unlogged (hst : st.Sane) (hr : i.exec token st = .ok st')
    (ht : st.inMemory i = some (id, t)) (hkept : st.StoresKept i t) :
    st'.rebuilt id = some t.unlogged ∧ t.Dated := by
  obtain ⟨hid, s, t0, hs, ht0, hrun⟩ := inMemory_some ht
  have hsize := (Instruction.exec_effect hr).maxEntries_eq
  suffices h : (∃ s', st'.subPools.get? id = some s' ∧
      s'.full st.market.maxDistributionLedgerSize = .ok t.unlogged) ∧ t0.Logged t by
    obtain ⟨⟨s', hs', hfull⟩, hlogged⟩ := h
    refine ⟨?_, hlogged.dated (full_unlogged ht0)⟩
    rw [rebuilt, hs', hsize]
    exact toOption_some.mpr hfull
  have bridged : ∀ remaining, i.bridged = some (id, remaining) → i.bridgedRun st t0 = some t → _ :=
    fun remaining hi hrun => bridged_rebuilt hst hs ht0 hr hi hrun (by
      unfold StoresKept at hkept
      rw [hi] at hkept
      exact hkept)
  cases i with
  | openPosition j owner wallet params =>
    cases hid
    obtain ⟨⟨_, p, out⟩, ho, rfl⟩ := Option.map_eq_some_iff.mp hrun
    have ho := toOption_some.mp ho
    exact ⟨openPosition_rebuilt hst hs ht0 hr ho hkept, (openPosition_logged ho).1⟩
  | harvestDust j signer isLong =>
    cases hid
    obtain ⟨⟨_, out⟩, ho, rfl⟩ := Option.map_eq_some_iff.mp hrun
    have ho := toOption_some.mp ho
    exact ⟨harvestDust_rebuilt hst hs ht0 hr ho, harvest_logged ho⟩
  | syncPool j e r =>
    cases hid
    exact bridged r rfl hrun
  | closePosition j owner wallet positionId e r =>
    cases hid
    exact bridged r rfl hrun
  | forceCloseZeroValuePosition j owner positionId e ack r =>
    cases hid
    exact bridged r rfl hrun
  | claimDormantRecovery j owner wallet positionId e r =>
    cases hid
    exact bridged r rfl hrun
  | preSyncDormantBucket j isLong tick r =>
    cases hid
    exact bridged r rfl hrun
  | _ => cases hid

end Program

/-- After an instruction that lost no bucket, the sub-pool built from the accounts answers every
    run of engine calls as the one in memory, for positions that the instruction has not rotated
    out. -/
theorem rebuilt_answers_alike (token : TokenProgram) (st : Program) (h : st.Reached token)
    (i : Instruction) (st' : Program) (hr : i.exec token st = .ok st') (id : Nat) (t : SubPool)
    (ht : st.inMemory i = some (id, t)) (hkept : st.StoresKept i t) (ps : Positions)
    (hps : ∀ k p, ps.get? k = some p → Unforgotten t.logs p) :
    ∃ u, st'.rebuilt id = some u ∧ ∀ ops,
      (run EngineOp.step ops ⟨u, ps⟩).1 = (run EngineOp.step ops ⟨t, ps⟩).1 := by
  obtain ⟨hu, hdated⟩ := Program.rebuilt_unlogged h.sane hr ht hkept
  exact ⟨t.unlogged, hu, fun ops => answers_unlogged hdated hps ops⟩

def beforeRotation : Program :=
  (chainRun 0 (bothSides ++ dormantAccounts ++ [publishPrice 90])).2

theorem beforeRotation_reached : beforeRotation.Reached splToken :=
  chainRun_reached (by decide) (bothSides ++ dormantAccounts ++ [publishPrice 90])

def traderPosition (id : Nat) : Positions :=
  ((beforeRotation.positions.get? (positionKey 8 id)).map fun p =>
    OrdMap.empty.insert id (positionToCore p)).getD .empty

def claimLong : List (MarketParams × EngineOp) :=
  [(marketParamsFrom beforeRotation.market, .claim (quoteAt (amount 90)) 1)]

def missingRecord : Answer := .failed (.invariant "missing rotate record")

theorem inMemory_rotation : ∃ st' t, (syncWith [90]).exec splToken beforeRotation = .ok st' ∧
    beforeRotation.inMemory (syncWith [90]) = some (0, t) := by
  have hexec : ((syncWith [90]).exec splToken beforeRotation).isOk = true := by decide +kernel
  have hmem : (beforeRotation.inMemory (syncWith [90])).map Prod.fst = some 0 := by
    decide +kernel
  obtain ⟨⟨id, t⟩, ht, hid⟩ := Option.map_eq_some_iff.mp hmem
  cases he : (syncWith [90]).exec splToken beforeRotation with
  | error e =>
    rw [he] at hexec
    cases hexec
  | ok st' => exact ⟨st', t, rfl, by rw [ht, show id = 0 from hid]⟩

/-- In memory the long position, rotated out by this sync, has its claim; from the accounts its
    record is missing. -/
theorem rotated_position_forgotten :
    ¬ ∀ st : Program, st.Reached splToken → ∀ (i : Instruction) (st' : Program),
      i.exec splToken st = .ok st' → ∀ id t, st.inMemory i = some (id, t) → ∀ ps,
      ∃ u, st'.rebuilt id = some u ∧ ∀ ops,
        (run EngineOp.step ops ⟨u, ps⟩).1 = (run EngineOp.step ops ⟨t, ps⟩).1 := by
  intro hall
  obtain ⟨st', t, hexec, ht⟩ := inMemory_rotation
  obtain ⟨u, hu, hrun⟩ := hall beforeRotation beforeRotation_reached (syncWith [90]) st' hexec 0 t
    ht (traderPosition 1)
  have hmemory : ((beforeRotation.inMemory (syncWith [90])).map fun r =>
      (run EngineOp.step claimLong ⟨r.2, traderPosition 1⟩).1.map (decide <| · = missingRecord))
        = some [false] := by decide +kernel
  have haccounts : (((syncWith [90]).exec splToken beforeRotation).toOption.bind fun st' =>
      (st'.rebuilt 0).map fun u => (run EngineOp.step claimLong ⟨u, traderPosition 1⟩).1.map
        (decide <| · = missingRecord)) = some [true] := by decide +kernel
  rw [ht] at hmemory
  rw [hexec, Except.toOption, Option.bind_some, hu, Option.map_some, hrun] at haccounts
  exact absurd (hmemory.symm.trans haccounts) (by decide)

theorem landsOnce_of_single {d : Direction} {store : DormantStore} {accounts : List BucketAccount}
    (hlen : (deadAccounts accounts).length ≤ 1)
    (hid : ∀ u ∈ newRecords d store.records accounts, ∀ b ∈ deadAccounts accounts,
      sameIdentity u b = false) : LandsOnce d store accounts := by
  intro k u hu
  refine ⟨fun b hb => hid u (List.mem_of_getElem? hu) b (List.mem_of_mem_drop hb),
    fun b hb hmem => ?_⟩
  have hk := (List.getElem?_eq_some_iff.mp hb).1
  rw [List.drop_eq_nil_of_le (by omega)] at hmem
  cases hmem

/-- The bucket of this sync lands in the one account it is given, and the short position was not
    rotated out. -/
theorem short_position_remembered : ∃ (st' : Program) (t u : SubPool),
    beforeRotation.inMemory (syncWith [90]) = some (0, t) ∧ st'.rebuilt 0 = some u ∧ ∀ ops,
      (run EngineOp.step ops ⟨u, traderPosition 2⟩).1
        = (run EngineOp.step ops ⟨t, traderPosition 2⟩).1 := by
  obtain ⟨st', t, hexec, ht⟩ := inMemory_rotation
  have hlands : ∀ d, (beforeRotation.inMemory (syncWith [90])).map (fun r =>
      (beforeRotation.suppliedBuckets 0 ⟨[longBucket 90], 1, 0⟩ d).toOption.map fun accounts =>
        decide ((deadAccounts accounts).length ≤ 1) &&
          (newRecords d (r.2.side d).dormant.records accounts).all fun u =>
            (deadAccounts accounts).all fun b => !sameIdentity u b) = some (some true) := by
    intro d
    cases d with
    | long => decide +kernel
    | short => decide +kernel
  have hlogs : (beforeRotation.inMemory (syncWith [90])).map (·.2.logs .short) = some [] := by
    decide +kernel
  have hshort : (traderPosition 2).entries.all (fun e => e.2.direction = .short) = true := by
    decide +kernel
  have hkept : beforeRotation.StoresKept (syncWith [90]) t := by
    intro d accounts ha
    have hd := hlands d
    rw [ht, Option.map_some, Option.some.injEq] at hd
    have ha : beforeRotation.suppliedBuckets 0 ⟨[longBucket 90], 1, 0⟩ d = .ok accounts := ha
    simp only [ha, Except.toOption, Option.map_some, Option.some.injEq, Bool.and_eq_true,
      decide_eq_true_eq, List.all_eq_true, Bool.not_eq_true'] at hd
    exact landsOnce_of_single hd.1 hd.2
  obtain ⟨u, hu, hrun⟩ := rebuilt_answers_alike splToken beforeRotation beforeRotation_reached
    (syncWith [90]) st' hexec 0 t ht hkept (traderPosition 2) fun k p hp _ _ r hr => by
      have hd := List.all_eq_true.mp hshort _ (OrdMap.get?_eq_some.mp hp)
      rw [ht, Option.map_some, Option.some.injEq] at hlogs
      rw [of_decide_eq_true hd, hlogs] at hr
      cases hr
  exact ⟨st', t, u, ht, hu, hrun⟩

end MoleFinance
