import MoleFinance.Chain.Effect

/-! Where the price of a sub-pool comes from. Every handler but one builds its envelope from the
oracle account; an open takes the envelope of its caller. -/
namespace MoleFinance
open MoleMath Call Trace

def SubPool.clock (s : SubPool) : Nat × Nat := (s.lastPrice, s.lastSyncSlot)

def PriceEnvelope.clock (e : PriceEnvelope) : Nat × Nat := (e.pNow, e.slot)

@[simp] theorem SubPool.setSide_clock (s : SubPool) (d : Direction) (x : Side) :
    (s.setSide d x).clock = s.clock := by
  simp [SubPool.clock]

section Calls
variable {market : MarketParams} {s s' : SubPool} {envelope : PriceEnvelope} {p p' : Position}
  {d : Direction}

theorem rotateIfDrained_clock {ev : Option ActiveRotatedToRecoveryEvent}
    (h : rotateIfDrained market s envelope d = .ok (s', ev)) : s'.clock = s.clock := by
  cases rotateIfDrained_ok h with
  | inl h => rw [h.2.1]
  | inr h =>
    obtain ⟨-, -, x, -, rfl⟩ := h
    exact s.setSide_clock d x

theorem syncPool_clock {out : SyncOutcome} (h : syncPool market s envelope = .ok (s', out)) :
    s'.clock = envelope.clock := by
  cases (syncPool_ok h).2.1 with
  | seeded h0 => rfl
  | still h0 hp => exact congrArg (·, envelope.slot) hp.symm
  | moved demands s1 s2 _ long short lr sr _ h0 hp hdem hset hl hshort =>
    rw [rotateIfDrained_clock hshort, rotateIfDrained_clock hl]
    rfl

theorem burnActive_clock {value : Nat} (h : burnActive s p value = .ok (s', p')) :
    s'.clock = s.clock := by
  obtain ⟨-, -, -, rfl, -⟩ := burnActive_ok h
  exact s.setSide_clock _ _

theorem redeemActive_clock {value : Nat} (h : redeemActive s p = .ok (s', p', value)) :
    s'.clock = s.clock := by
  cases redeemActive_ok h with
  | inl h => rw [h.2.1]
  | inr h => exact burnActive_clock h.2.2.2.2

theorem forfeitActive_clock {burned removed : Nat}
    (h : forfeitActive s p = .ok (s', p', burned, removed)) : s'.clock = s.clock := by
  cases forfeitActive_ok h with
  | inl h => rw [h.2.1]
  | inr h => exact burnActive_clock h.2.1

theorem redeemRecovery_clock {tick : Int} {r : RedeemReceipt}
    (h : redeemRecovery s p = .ok (s', p', tick, r)) : s'.clock = s.clock := by
  obtain ⟨-, dormant, -, -, rfl, -⟩ := redeemRecovery_ok h
  exact s.setSide_clock _ _

theorem settleRecovery_clock {r : RedeemReceipt} (h : settleRecovery s p = .ok (s', p', r)) :
    s'.clock = s.clock := by
  cases settleRecovery_ok h with
  | inl h => rw [h.2.1]
  | inr h =>
    obtain ⟨-, tick, h⟩ := h
    exact redeemRecovery_clock h

theorem BridgedCall.run_clock {params : MarketParams} {sp sp' : SubPool} {call : BridgedCall}
    {outcome : BridgedOutcome} (h : call.run params sp = .ok (sp', outcome)) :
    sp'.clock = (call.envelope.map PriceEnvelope.clock).getD sp.clock := by
  cases call with
  | sync e =>
    obtain ⟨⟨s, out⟩, hs, h⟩ := except_bind_ok.mp h
    cases h
    exact syncPool_clock hs
  | close e q =>
    obtain ⟨⟨s, p', out⟩, hs, h⟩ := except_bind_ok.mp h
    cases h
    obtain ⟨s1, s2, sync, p1, p2, p3, b, r, hc⟩ := closePosition_ok hs
    rw [settleRecovery_clock hc.recovery, redeemActive_clock hc.active, syncPool_clock hc.synced]
    rfl
  | forceClose e q ack =>
    obtain ⟨⟨s, p', out⟩, hs, h⟩ := except_bind_ok.mp h
    cases h
    obtain ⟨s1, s2, s3, sync, p1, p2, p3, b, burned, removed, r, hc⟩ := forceClose_ok hs
    rw [addDust_ok hc.dust, SubPool.setSide_clock, settleRecovery_clock hc.recovery,
      forfeitActive_clock hc.active, syncPool_clock hc.synced]
    rfl
  | claim e q =>
    obtain ⟨⟨s, p', out⟩, hs, h⟩ := except_bind_ok.mp h
    cases h
    obtain ⟨s1, sync, p1, p2, b, tick, r, hc⟩ := claim_ok hs
    rw [redeemRecovery_clock hc.recovery, syncPool_clock hc.synced]
    rfl
  | preSync d tick slot =>
    obtain ⟨⟨s, out⟩, hs, h⟩ := except_bind_ok.mp h
    cases h
    obtain ⟨n, dormant, -, rfl, -⟩ := preSync_ok hs
    exact sp.setSide_clock _ _

theorem openPosition_clock {gross id : Nat} {out : OpenOutcome}
    (h : openPosition market s envelope d gross id = .ok (s', p, out)) :
    s'.clock = envelope.clock := by
  obtain ⟨s1, sync, ho⟩ := openPosition_ok h
  rw [ho.state, SubPool.setSide_clock, syncPool_clock ho.synced]

theorem harvest_clock {out : HarvestOutcome} (h : harvestDust market s d = .ok (s', out)) :
    s'.clock = s.clock := by
  obtain ⟨-, rfl, -⟩ := harvest_ok h
  exact s.setSide_clock _ _

end Calls

def SubPoolAccount.clock (s : SubPoolAccount) : Nat × Nat := (s.lastPrice, s.lastSyncSlot)

theorem hydrate_clock {account : SubPoolAccount} {long short : BridgedSide} {view : SubPool}
    (h : Program.hydrate account long short = .ok view) : view.clock = account.clock := by
  unfold Program.hydrate at h
  obtain ⟨l, -, h⟩ := except_bind_ok.mp h
  obtain ⟨s, -, h⟩ := except_bind_ok.mp h
  cases h
  rfl

namespace Program

def accountAt (st : Program) (id : Nat) : Option SubPoolAccount :=
  (st.subPools.get? id).map SubPoolState.account

theorem accountAt_modifySubPool (st : Program) (id : Nat) {f : SubPoolState → SubPoolState}
    (hf : ∀ s, (f s).account = s.account) (j : Nat) :
    (st.modifySubPool id f).accountAt j = st.accountAt j := by
  unfold modifySubPool
  cases hs : st.subPools.get? id with
  | none => rfl
  | some s =>
    simp only [accountAt, OrdMap.get?_insert]
    split_ifs with hj
    · rw [hj, hs, Option.map_some, Option.map_some, hf]
    · rfl

theorem accountAt_exitAllBuckets (st : Program) (bs : List BucketAccount) (j : Nat) :
    (st.exitAllBuckets bs).accountAt j = st.accountAt j := by
  induction bs generalizing st with
  | nil => rfl
  | cons b bs ih =>
    rw [exitAllBuckets, List.foldl_cons]
    refine (ih _).trans (st.accountAt_modifySubPool _ (fun s => ?_) j)
    exact s.setDormant_account _ _

theorem BridgedRun.accounts {st st' : Program} {id : Nat} {remaining : RemainingAccounts}
    {call : BridgedCall} {outcome : BridgedOutcome} {s : SubPoolState} {long short : BridgedSide}
    {view view' : SubPool} {long' short' : BridgedSide}
    (h : st.BridgedRun id remaining call st' outcome s long short view view' long' short') :
    st.accountAt id = some s.account ∧ ∀ j, st'.accountAt j =
      if j = id then some (applyClearingView s.account view') else st.accountAt j := by
  have hl := h.loaded
  unfold loadBridged at hl
  obtain ⟨s0, hs, hl⟩ := except_bind_ok.mp hl
  obtain ⟨_, -, hl⟩ := except_bind_ok.mp hl
  obtain ⟨_, -, hl⟩ := except_bind_ok.mp hl
  obtain ⟨_, -, hl⟩ := except_bind_ok.mp hl
  cases hl
  have hs := found_ok.mp hs
  have hacc : st.accountAt id = some s.account := by rw [accountAt, hs, Option.map_some]
  refine ⟨hacc, fun j => ?_⟩
  have hexit := st.accountAt_exitAllBuckets (long'.buckets ++ short'.buckets)
  rw [h.state]
  cases hx : (st.exitAllBuckets (long'.buckets ++ short'.buckets)).subPools.get? id with
  | none =>
    have hid := hexit id
    rw [accountAt, hx, hacc] at hid
    cases hid
  | some s1 =>
    have hid := hexit id
    rw [accountAt, hx, hacc] at hid
    rw [modifySubPool_of hx, accountAt, OrdMap.get?_insert]
    split_ifs with hj
    · simp only [Option.map_some, Option.some.injEq] at hid ⊢
      rw [hid]
    · exact hexit j

end Program

/-- The price `validate_price_account` returns in a step that is handed the oracle account. -/
def ChainOp.validatedPrice (op : ChainOp) (st : Program) : Option Nat :=
  if op.readsOracle = true then
    match Pyth.validatePriceAccount st.oraclePriceFeed.data st.oraclePriceFeed.owner
        st.market.oracleProgramId st.slot
        ⟨st.market.maxOracleAgeSlots, st.market.maxConfidenceBps⟩ with
    | .error _ => none
    | .ok validated => some validated.price
  else none

/-- A step that changes a price takes it from the oracle, and writes no slot of the future. -/
def ChainOp.PriceSound (token : TokenProgram) (op : ChainOp) (st : Program) : Prop :=
  ∀ id a', (op.step token st).2.accountAt id = some a' → a'.lastSyncSlot ≤ st.slot ∧
    ∀ a, st.accountAt id = some a → a'.lastPrice ≠ a.lastPrice →
      op.validatedPrice st = some a'.lastPrice

/-- An open that succeeds names the last price of the sub-pool and a slot that has come. -/
def ChainOp.OpensAtPrice (token : TokenProgram) (op : ChainOp) (st : Program) : Prop :=
  ∀ c, op.openCall = some c → (op.step token st).1 = none → ∀ a,
    st.accountAt c.subPoolId = some a →
    c.params.envelope.pNow = a.lastPrice ∧ c.params.envelope.slot ≤ st.slot

def Program.Timely (st : Program) : Prop :=
  ∀ id a, st.accountAt id = some a → a.lastSyncSlot ≤ st.slot

theorem BridgedCall.Priced.validated {st : Program} {op : ChainOp} {call : BridgedCall}
    (h : call.Priced st op.readsOracle) {e : PriceEnvelope} (he : call.envelope = some e) :
    op.validatedPrice st = some e.pNow ∧ e.slot = st.slot := by
  obtain ⟨hr, client, hv⟩ := h e he
  unfold validateOracleEnvelope at hv
  rw [ChainOp.validatedPrice, if_pos hr]
  cases hval : Pyth.validatePriceAccount st.oraclePriceFeed.data st.oraclePriceFeed.owner
      st.market.oracleProgramId st.slot
      ⟨st.market.maxOracleAgeSlots, st.market.maxConfidenceBps⟩ with
  | error err =>
    rw [hval] at hv
    cases hv
  | ok v =>
    rw [hval] at hv
    obtain ⟨_, -, hv⟩ := except_bind_ok.mp hv
    cases hv
    exact ⟨rfl, rfl⟩

theorem ChainOp.openCall_reads {op : ChainOp} {c : OpenCall} (h : op.openCall = some c) :
    op.readsOracle = false := by
  cases op with
  | instruction i =>
    cases i with
    | openPosition id owner wallet params => rfl
    | _ => cases h
  | _ => cases h

theorem Program.runBridged_clock {st st' : Program} {op : ChainOp} {id : Nat}
    {remaining : RemainingAccounts} {call : BridgedCall} {outcome : BridgedOutcome}
    (hst : st.Timely) (hp : call.Priced st op.readsOracle)
    (h : st.runBridged id remaining call = .ok (st', outcome)) {j : Nat} {a' : SubPoolAccount}
    (ha : st'.accountAt j = some a') : a'.lastSyncSlot ≤ st.slot ∧
      ∀ a, st.accountAt j = some a → a'.lastPrice ≠ a.lastPrice →
        op.validatedPrice st = some a'.lastPrice := by
  obtain ⟨s, long, short, view, view', long', short', hrun⟩ := runBridged_ok h
  obtain ⟨hs, hacc⟩ := hrun.accounts
  have hclock := BridgedCall.run_clock hrun.ran
  rw [hydrate_clock hrun.hydrated] at hclock
  rw [hacc] at ha
  split_ifs at ha with hj
  · cases ha
    rw [hj, hs]
    cases he : call.envelope with
    | none =>
      rw [he, Option.map_none, Option.getD_none] at hclock
      have hprice : view'.lastPrice = s.account.lastPrice := congrArg Prod.fst hclock
      have hslot : view'.lastSyncSlot = s.account.lastSyncSlot := congrArg Prod.snd hclock
      refine ⟨hslot.le.trans (hst id s.account hs), ?_⟩
      rintro a ⟨⟩ hne
      exact absurd hprice hne
    | some e =>
      rw [he, Option.map_some, Option.getD_some] at hclock
      have hprice : view'.lastPrice = e.pNow := congrArg Prod.fst hclock
      have hslot : view'.lastSyncSlot = e.slot := congrArg Prod.snd hclock
      obtain ⟨hval, hclk⟩ := hp.validated he
      refine ⟨(hslot.trans hclk).le, fun a _ _ => ?_⟩
      rw [hval]
      exact congrArg some hprice.symm
  · refine ⟨hst j a' ha, fun a hja hne => ?_⟩
    rw [ha] at hja
    cases hja
    exact absurd rfl hne

theorem ChainOp.step_priceSound {token : TokenProgram} {op : ChainOp} {st : Program}
    (hst : st.Timely) (ho : op.OpensAtPrice token st) : op.PriceSound token st := by
  have kept : ∀ {st' : Program}, (∀ j, st'.accountAt j = st.accountAt j) → ∀ id a',
      st'.accountAt id = some a' → a'.lastSyncSlot ≤ st.slot ∧
        ∀ a, st.accountAt id = some a → a'.lastPrice ≠ a.lastPrice →
          op.validatedPrice st = some a'.lastPrice := by
    intro st' hj id a' ha
    rw [hj] at ha
    refine ⟨hst id a' ha, fun a haa hne => ?_⟩
    rw [ha] at haa
    cases haa
    exact absurd rfl hne
  intro id a' ha
  unfold ChainOp.OpensAtPrice at ho
  unfold ChainOp.step at ha ho
  cases he : op.exec token st with
  | error e =>
    rw [he] at ha
    exact kept (fun _ => rfl) id a' ha
  | ok st' =>
    rw [he] at ha ho
    have heff := ChainOp.exec_effect he
    have written : ∀ {sp : SubPoolState} {view : SubPool} {st1 : Program} {k : Nat},
        st.subPools.get? k = some sp →
        st1.subPools = st.subPools.insert k
          { sp with account := applyClearingView sp.account view } →
        view.lastSyncSlot ≤ st.slot → view.lastPrice = sp.account.lastPrice →
        st1.accountAt id = some a' → a'.lastSyncSlot ≤ st.slot ∧
          ∀ a, st.accountAt id = some a → a'.lastPrice ≠ a.lastPrice →
            op.validatedPrice st = some a'.lastPrice := by
      intro sp view st1 k hk hs hslot hprice ha1
      rw [Program.accountAt, hs, OrdMap.get?_insert] at ha1
      split_ifs at ha1 with hj
      · cases ha1
        refine ⟨hslot, fun a haa hne => ?_⟩
        rw [hj, Program.accountAt, hk] at haa
        cases haa
        exact absurd hprice hne
      · exact kept (fun _ => rfl) id a' ha1
    generalize hreads : op.readsOracle = reads at heff
    generalize hcall : op.directCall = o at heff
    cases heff with
    | outside slot feed tokens hslot hv hf => exact kept (fun _ => rfl) id a' ha
    | governed config market hm => exact kept (fun _ => rfl) id a' ha
    | created k hk =>
      simp only [Program.accountAt, OrdMap.get?_insert] at ha
      split_ifs at ha with hj
      · cases ha
        refine ⟨Nat.zero_le _, fun a haa => ?_⟩
        rw [hj, Program.accountAt, hk] at haa
        cases haa
      · exact kept (fun _ => rfl) id a' ha
    | arranged k s s' hs harr =>
      refine kept (fun j => ?_) id a' ha
      simp only [Program.accountAt, OrdMap.get?_insert]
      split_ifs with hj
      · rw [hj, hs, Option.map_some, Option.map_some, harr.account_eq]
      · rfl
    | engaged h =>
      cases h with
      | bridged k remaining call st' outcome hp hn h =>
        exact Program.runBridged_clock hst (hreads ▸ hp) h ha
      | settled k key remaining p call st1 outcome tokens hk hs hp hc h hpay =>
        exact Program.runBridged_clock hst (hreads ▸ hp) h ha
      | opened k owner wallet params s view pos out tokens hs hk h hpay =>
        have hclock := openPosition_clock h
        have hat : st.accountAt k = some s.account := by rw [Program.accountAt, hs]; rfl
        obtain ⟨hprice, hslot⟩ := ho _ (ChainOp.directCall_open.mp hcall) rfl _ hat
        exact written hs rfl ((congrArg Prod.snd hclock).le.trans hslot)
          ((congrArg Prod.fst hclock).trans hprice) ha
      | harvested k d s view out tokens hs h hpay =>
        have hclock := harvest_clock h
        have hat : st.accountAt k = some s.account := by rw [Program.accountAt, hs]; rfl
        exact written hs rfl ((congrArg Prod.snd hclock).le.trans (hst k _ hat))
          (congrArg Prod.fst hclock) ha

theorem ChainOp.opensAtPrice_of_sound {token : TokenProgram} {op : ChainOp} {st : Program}
    (h : op.PriceSound token st) : op.OpensAtPrice token st := by
  intro c hc hok a ha
  unfold ChainOp.PriceSound ChainOp.step at h
  unfold ChainOp.step at hok
  cases he : op.exec token st with
  | error e =>
    rw [he] at hok
    cases hok
  | ok st' =>
    rw [he] at h
    have heff := ChainOp.exec_effect he
    rw [ChainOp.directCall_open.mpr hc] at heff
    cases heff with
    | engaged heng =>
      cases heng with
      | opened k owner wallet params s view pos out tokens hs hk hopen hpay =>
        have hclock := openPosition_clock hopen
        rw [Program.accountAt, hs] at ha
        cases ha
        have hnew : ∃ a', (Program.accountAt { st with
            tokens := tokens
            subPools := st.subPools.insert k
              { s with account := applyClearingView s.account view }
            positions := st.positions.insert (positionKey owner params.positionId)
              (Program.newPosition st.market owner s.account.key params pos) } k) = some a' ∧
            a'.lastPrice = view.lastPrice ∧ a'.lastSyncSlot = view.lastSyncSlot :=
          ⟨applyClearingView s.account view, by
            rw [Program.accountAt, OrdMap.get?_insert_self]
            rfl, rfl, rfl⟩
        obtain ⟨a', ha', hprice, hslot⟩ := hnew
        obtain ⟨hle, hval⟩ := h k a' ha'
        have hp : view.lastPrice = params.envelope.pNow := congrArg Prod.fst hclock
        have hsl : view.lastSyncSlot = params.envelope.slot := congrArg Prod.snd hclock
        refine ⟨?_, by rw [← hsl, ← hslot]; exact hle⟩
        by_contra hne
        have hv := hval s.account (by rw [Program.accountAt, hs]; rfl)
          (by rw [hprice, hp]; exact hne)
        rw [ChainOp.validatedPrice, ChainOp.openCall_reads hc] at hv
        cases hv

theorem Program.Fresh.timely {st : Program} (h : st.Fresh) : st.Timely := by
  intro id a ha
  rw [Program.accountAt, h.subPools] at ha
  cases ha

theorem ChainOp.step_timely {token : TokenProgram} {op : ChainOp} {st : Program}
    (h : op.PriceSound token st) : (op.step token st).2.Timely := by
  intro id a ha
  have hle := (h id a ha).1
  unfold ChainOp.step at ha ⊢
  cases he : op.exec token st with
  | error e =>
    rw [he] at ha
    exact hle
  | ok st' => exact hle.trans (ChainOp.exec_effect he).slot_le

/-- In a run from a new market every price change comes from the oracle account of that step,
    and no written slot is in the future, exactly when every open names the last price of its
    sub-pool and a slot that has come. -/
theorem prices_sound_iff (token : TokenProgram) (ops : List ChainOp) (start : Program)
    (h : start.Fresh) :
    AlongRun (ChainOp.step token) (ChainOp.PriceSound token) ops start ↔
      AlongRun (ChainOp.step token) (ChainOp.OpensAtPrice token) ops start :=
  alongRun_congr_of
    (fun _ _ hst hd => ChainOp.step_timely (ChainOp.step_priceSound hst hd))
    (fun _ _ hst => ⟨ChainOp.opensAtPrice_of_sound, ChainOp.step_priceSound hst⟩) h.timely

def bothSides : List ChainOp :=
  [makeSubPool, deposit true (amount 100) (amount 100) (amount 1),
    deposit false (amount 100) (amount 100) (amount 2)]

/-- While the feed says 100 a trader opens at 95. -/
def mispriced : ChainOp := deposit true (amount 95) (amount 10) (amount 3)

theorem mispriced_moves_pool :
    ¬ mispriced.PriceSound splToken (chainRun 0 bothSides).2 ∧
      (mispriced.step splToken (chainRun 0 bothSides).2).1 = none ∧
      ((chainRun 0 bothSides).2.accountAt 0).map
        (fun a => (a.lastPrice, a.long.poolEquity, a.short.poolEquity)) = some (100, 100, 100) ∧
      ((mispriced.step splToken (chainRun 0 bothSides).2).2.accountAt 0).map
        (fun a => (a.lastPrice, a.long.poolEquity, a.short.poolEquity)) = some (95, 60, 150) := by
  refine ⟨fun h => ?_, by decide +kernel, by decide +kernel, by decide +kernel⟩
  have ho := ChainOp.opensAtPrice_of_sound h
    ⟨0, 8, 8, ⟨quoteAt (amount 95), true, amount 10, amount 3⟩⟩ rfl (by decide +kernel)
  have hat : ((chainRun 0 bothSides).2.accountAt 0).map SubPoolAccount.lastPrice = some 100 := by
    decide +kernel
  obtain ⟨a, ha, hp⟩ := Option.map_eq_some_iff.mp hat
  have hprice := (ho a ha).1
  rw [hp] at hprice
  exact absurd hprice (by decide +kernel)

theorem bothSides_priced_iff :
    AlongRun (ChainOp.step splToken) (ChainOp.PriceSound splToken) bothSides (smallProgram 0) ↔
      AlongRun (ChainOp.step splToken) (ChainOp.OpensAtPrice splToken) bothSides
        (smallProgram 0) :=
  prices_sound_iff splToken bothSides (smallProgram 0) (smallProgram_fresh (by decide))

end MoleFinance
