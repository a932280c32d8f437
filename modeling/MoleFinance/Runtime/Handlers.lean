import MoleFinance.Runtime.WriteBack

/-! The handlers, case by case: what each does when the accounts cannot be read, when the engine
refuses, when the write-back refuses, and when both accept. -/
namespace MoleFinance
open MoleMath Call

namespace Runtime
namespace ChainRuntime
variable {α β : Type} {x y : ChainRuntime} {id : Nat} {account : SubPoolAccount}
  {long short : DistributionLedgerAccount} {core core' : SubPool} {out : α} {e : ClearingError}

theorem buildCore_ok (h : x.buildCoreSubPool id = .ok core) :
    ∃ account long short l s, x.Present id account long short ∧
      x.unpackDormant id .long = .ok l ∧ x.unpackDormant id .short = .ok s ∧
      core = ⟨account.subPoolId, account.long.view l, account.short.view s, account.lastPrice,
        account.lastSyncSlot⟩ := by
  unfold buildCoreSubPool at h
  cases hacc : x.subPools.get? id with
  | none => simp [hacc] at h
  | some account =>
    simp only [hacc] at h
    obtain ⟨l, hl, h⟩ := except_bind_ok.mp h
    obtain ⟨s, hs, h⟩ := except_bind_ok.mp h
    cases h
    have hledger : ∀ {d store}, x.unpackDormant id d = .ok store →
        ∃ ledger, x.ledgers.get? (ledgerKey id d) = some ledger := by
      intro d store hd
      unfold unpackDormant at hd
      cases hled : x.ledgers.get? (ledgerKey id d) with
      | none => simp [hled] at hd
      | some ledger => exact ⟨ledger, rfl⟩
    obtain ⟨long, hlong⟩ := hledger hl
    obtain ⟨short, hshort⟩ := hledger hs
    exact ⟨account, long, short, l, s, ⟨hacc, hlong, hshort⟩, hl, hs, rfl⟩

theorem snapshot_present (h : x.Present id account long short) :
    ∃ snap, x.snapshotSubPool id = some snap := by
  simp [snapshotSubPool, h.account, h.long, h.short]

theorem Present.eq {account' : SubPoolAccount} {long' short' : DistributionLedgerAccount}
    (h : x.Present id account long short) (h' : x.Present id account' long' short') :
    account' = account ∧ long' = long ∧ short' = short := by
  have ha := h'.account.symm.trans h.account
  have hl := h'.long.symm.trans h.long
  have hs := h'.short.symm.trans h.short
  simp_all

theorem orAbort_some {a : α} (f : α → MirrorM β) (x : ChainRuntime) :
    (orAbort (some a) >>= f) x = f a x := rfl

theorem orAbort_none (f : α → MirrorM β) (x : ChainRuntime) :
    (orAbort (none : Option α) >>= f) x = .error .panic x := rfl

theorem undoing_ok {undo : ChainRuntime → ChainRuntime} {step : MirrorM Unit}
    (h : step x = .ok () y) : undoing undo step x = .ok () y := by
  simp only [undoing, h]

theorem undoing_error {undo : ChainRuntime → ChainRuntime} {step : MirrorM Unit}
    {e : MirrorError} (h : step x = .error e y) : undoing undo step x = .error e (undo y) := by
  simp only [undoing, h]

/-! The write-back looks neither at the positions nor at their counter. -/

theorem stored_with (x : ChainRuntime) (ps : OrdMap Nat PositionAccount) (n : Nat) (id : Nat)
    (d : Direction) (account : DistributionLedgerAccount) (store : DormantStore) :
    ({ x with positions := ps, nextPositionId := n } : ChainRuntime).stored id d account store
      = { x.stored id d account store with positions := ps, nextPositionId := n } := by
  by_cases hs : x.strictPdaLifecycle = true
  · have hs' : ({ x with positions := ps, nextPositionId := n } :
        ChainRuntime).strictPdaLifecycle = true := hs
    rw [stored_strict_eq hs, stored_strict_eq hs']
    rfl
  · have hs' : ¬ ({ x with positions := ps, nextPositionId := n } :
        ChainRuntime).strictPdaLifecycle = true := hs
    rw [stored_loose_eq hs, stored_loose_eq hs']
    rfl

theorem written_with (x : ChainRuntime) (ps : OrdMap Nat PositionAccount) (n : Nat) (id : Nat)
    (account : SubPoolAccount) (long short : DistributionLedgerAccount) (core : SubPool) :
    ({ x with positions := ps, nextPositionId := n } : ChainRuntime).written id account long short
      core
      = { x.written id account long short core with positions := ps, nextPositionId := n } := by
  have hl := stored_with x ps n id .long long core.long.dormant
  have hs := stored_with (x.stored id .long long core.long.dormant) ps n id .short short
    core.short.dormant
  rw [written, hl, hs]
  rfl

theorem preInitDormantBucket_cases (x : ChainRuntime) (id : Nat) (d : Direction) (tick : Int) :
    (∃ e, preInitDormantBucket id d tick x = .error e x) ∨
      x.subPools.contains id = true ∧ x.buckets.get? (bucketKey id d tick) = none ∧
        preInitDormantBucket id d tick x = .ok () { x with
          buckets := x.buckets.insert (bucketKey id d tick) ⟨id, deadRecord d tick⟩ } := by
  unfold preInitDormantBucket
  simp only [get_bind]
  by_cases hs : x.subPools.contains id = true
  · by_cases hb : x.buckets.contains (bucketKey id d tick) = false
    · rw [ensure_of hs, orFail_ok_bind, ensure_of hb, orFail_ok_bind]
      exact .inr ⟨hs, Option.isSome_eq_false_iff.mp hb |> Option.isNone_iff_eq_none.mp, rfl⟩
    · rw [ensure_of hs, orFail_ok_bind, ensure_not hb]
      exact .inl ⟨_, rfl⟩
  · rw [ensure_not hs]
    exact .inl ⟨_, rfl⟩

/-- An account is closed once it is dead and its ledger has nothing left for it. -/
theorem closeDormantBucket_cases (x : ChainRuntime) (id : Nat) (d : Direction) (tick : Int) :
    (∃ e, closeDormantBucket id d tick x = .error e x) ∨
      ∃ bucket ledger, x.buckets.get? (bucketKey id d tick) = some bucket ∧
        bucket.record.isDead = true ∧ x.ledgers.get? (ledgerKey id d) = some ledger ∧
        ledger.ledger.nextEventIndex ≤ bucket.record.lastAppliedIndex ∧
        closeDormantBucket id d tick x
          = .ok () { x with buckets := x.buckets.erase (bucketKey id d tick) } := by
  unfold closeDormantBucket
  simp only [get_bind]
  cases hb : x.buckets.get? (bucketKey id d tick) with
  | none => exact .inl ⟨_, rfl⟩
  | some bucket =>
    by_cases hdead : bucket.record.isDead = true
    · cases hl : x.ledgers.get? (ledgerKey id d) with
      | none =>
        simp only [ensure_of hdead, orFail_ok_bind]
        exact .inl ⟨_, rfl⟩
      | some ledger =>
        by_cases hdue : ledger.ledger.nextEventIndex ≤ bucket.record.lastAppliedIndex
        · refine .inr ⟨bucket, ledger, rfl, hdead, rfl, hdue, ?_⟩
          simp only [ensure_of hdead, ensure_of hdue, orFail_ok_bind]
          rfl
        · simp only [ensure_of hdead, ensure_not hdue, orFail_ok_bind]
          exact .inl ⟨_, rfl⟩
    · simp only [ensure_not hdead]
      exact .inl ⟨_, rfl⟩

structure WroteBack (x : ChainRuntime) (id : Nat) (core core' : SubPool) (account : SubPoolAccount)
    (long short : DistributionLedgerAccount) : Prop where
  built : x.buildCoreSubPool id = .ok core
  present : x.Present id account long short
  fits : x.Fits id core'

section OnSubPool
variable {call : MarketParams → SubPool → Except ClearingError (SubPool × α)}
  {pay : α → MirrorM Unit}

theorem onSubPool_unread (h : ∀ core, x.buildCoreSubPool id ≠ .ok core) :
    ∃ e, onSubPool id call pay x = .error e x := by
  unfold onSubPool
  rw [get_bind]
  cases hs : x.snapshotSubPool id with
  | none => exact ⟨_, orAbort_none _ x⟩
  | some snap =>
    rw [orAbort_some]
    cases hb : x.buildCoreSubPool id with
    | error e => exact ⟨e, rfl⟩
    | ok core => exact absurd hb (h core)

theorem onSubPool_error (hb : x.buildCoreSubPool id = .ok core)
    (hc : call x.market.params core = .error e) :
    onSubPool id call pay x = .error (.clearing e) x := by
  obtain ⟨_, _, _, _, _, hp, -⟩ := buildCore_ok hb
  obtain ⟨snap, hs⟩ := snapshot_present hp
  unfold onSubPool
  rw [get_bind, hs, orAbort_some, hb, orFail_ok_bind]
  simp only [hc]
  exact congrArg (EStateM.Result.error (MirrorError.clearing e)) (restore_self hs)

theorem onSubPool_unfit (hb : x.buildCoreSubPool id = .ok core)
    (hc : call x.market.params core = .ok (core', out)) (hf : ¬ x.Fits id core') :
    ∃ e, onSubPool id call pay x = .error e x := by
  obtain ⟨_, _, _, _, _, hp, -⟩ := buildCore_ok hb
  obtain ⟨snap, hs⟩ := snapshot_present hp
  obtain ⟨e, y, -, hw, ht⟩ := writeCore_refused hp hf
  refine ⟨e, ?_⟩
  unfold onSubPool
  rw [get_bind, hs, orAbort_some, hb, orFail_ok_bind]
  simp only [hc]
  refine (bind_of_error (undoing_error hw) _).trans ?_
  rw [restore_touched hs ht, withAccounts_of_rest ht.rest]

theorem onSubPool_accepted (hb : x.buildCoreSubPool id = .ok core)
    (hc : call x.market.params core = .ok (core', out)) (hf : x.Fits id core')
    (hp : x.Present id account long short) : onSubPool id call pay x =
      (do pay out; return out : MirrorM α) (x.written id account long short core') := by
  obtain ⟨snap, hs⟩ := snapshot_present hp
  unfold onSubPool
  rw [get_bind, hs, orAbort_some, hb, orFail_ok_bind]
  simp only [hc]
  exact bind_of_ok (undoing_ok (writeCore_ok hp hf)) _

theorem onSubPool_ok (h : onSubPool id call pay x = .ok out y) :
    ∃ core core' account long short, x.WroteBack id core core' account long short ∧
      call x.market.params core = .ok (core', out) ∧
      pay out (x.written id account long short core') = .ok () y := by
  cases hb : x.buildCoreSubPool id with
  | error e =>
    obtain ⟨e', he⟩ : ∃ e, onSubPool id call pay x = .error e x :=
      onSubPool_unread fun core hc => by cases hb.symm.trans hc
    cases h.symm.trans he
  | ok core =>
    cases hc : call x.market.params core with
    | error e => cases h.symm.trans (onSubPool_error hb hc)
    | ok r =>
      obtain ⟨core', out'⟩ := r
      by_cases hf : x.Fits id core'
      · obtain ⟨account, long, short, _, _, hp, -⟩ := buildCore_ok hb
        obtain ⟨u, z, hpay, hout⟩ := bind_ok.mp ((onSubPool_accepted hb hc hf hp).symm.trans h)
        cases hout
        exact ⟨core, core', account, long, short, ⟨hb, hp, hf⟩, hc, hpay⟩
      · obtain ⟨e, he⟩ : ∃ e, onSubPool id call pay x = .error e x := onSubPool_unfit hb hc hf
        cases h.symm.trans he

end OnSubPool

section OnPosition
variable {call : MarketParams → SubPool → Position → Except ClearingError (SubPool × Position × α)}
  {pay : α → MirrorM Unit} {result : α → β} {k : Nat} {p' : Position} {held : PositionAccount}

theorem Touches.erased {ps : OrdMap Nat PositionAccount}
    (h : Touches id { x with positions := ps } y) :
    y.withAccounts x = { x with positions := ps } :=
  withAccounts_of_rest (x := { x with positions := ps }) h.rest

theorem onPosition_missing (hk : x.positions.get? k = none) :
    onPosition k call pay result x = .error (.positionNotFound k) x := by
  unfold onPosition
  rw [get_bind]
  simp only [hk]
  rfl

theorem onPosition_unread (hk : x.positions.get? k = some held)
    (h : ∀ core, x.buildCoreSubPool held.subPoolId ≠ .ok core) :
    ∃ e, onPosition k call pay result x = .error e x := by
  unfold onPosition
  rw [get_bind]
  simp only [hk]
  cases hs : x.snapshotSubPool held.subPoolId with
  | none => exact ⟨_, orAbort_none _ x⟩
  | some snap =>
    rw [orAbort_some]
    cases hb : x.buildCoreSubPool held.subPoolId with
    | error e => exact ⟨e, rfl⟩
    | ok core => exact absurd hb (h core)

theorem put_back {snap : SubPoolSnapshot} (hk : x.positions.get? k = some held)
    (hs : x.snapshotSubPool id = some snap)
    (ht : Touches id { x with positions := x.positions.erase k } y) :
    ({ restoreSubPool snap y with positions := y.positions.insert k held } : ChainRuntime) = x := by
  have hs' : ({ x with positions := x.positions.erase k } : ChainRuntime).snapshotSubPool id
      = some snap := hs
  have hpos : y.positions = x.positions.erase k := by
    have hrest := congrArg ChainRuntime.positions ht.rest
    exact hrest
  have hback : y.withAccounts x = { x with positions := x.positions.erase k } := ht.erased
  have hput : (x.positions.erase k).insert k held = x.positions := by
    rw [OrdMap.insert_erase, OrdMap.insert_get?_self hk]
  have hrestore : restoreSubPool snap y = { x with positions := x.positions.erase k } :=
    (restore_touched hs' ht).trans hback
  rw [hrestore, hpos, hput]

theorem onPosition_error (hk : x.positions.get? k = some held)
    (hb : x.buildCoreSubPool held.subPoolId = .ok core)
    (hc : call x.market.params core held.position = .error e) :
    onPosition k call pay result x = .error (.clearing e) x := by
  obtain ⟨_, _, _, _, _, hp, -⟩ := buildCore_ok hb
  obtain ⟨snap, hs⟩ := snapshot_present hp
  unfold onPosition
  rw [get_bind]
  simp only [hk]
  rw [hs, orAbort_some, hb, orFail_ok_bind]
  simp only [hc]
  exact congrArg (EStateM.Result.error (MirrorError.clearing e)) (put_back hk hs (.refl _ _))

theorem onPosition_unfit (hk : x.positions.get? k = some held)
    (hb : x.buildCoreSubPool held.subPoolId = .ok core)
    (hc : call x.market.params core held.position = .ok (core', p', out))
    (hf : ¬ x.Fits held.subPoolId core') : ∃ e, onPosition k call pay result x = .error e x := by
  obtain ⟨account, long, short, _, _, hp, -⟩ := buildCore_ok hb
  obtain ⟨snap, hs⟩ := snapshot_present hp
  have hp' : ({ x with positions := x.positions.erase k } : ChainRuntime).Present held.subPoolId
      account long short := ⟨hp.account, hp.long, hp.short⟩
  obtain ⟨e, y, -, hw, ht⟩ := writeCore_refused hp' hf
  refine ⟨e, ?_⟩
  unfold onPosition
  rw [get_bind]
  simp only [hk]
  rw [hs, orAbort_some, hb, orFail_ok_bind]
  simp only [hc]
  refine (bind_of_error (undoing_error hw) _).trans ?_
  exact congrArg (EStateM.Result.error e) (put_back hk hs ht)

def afterCall (x : ChainRuntime) (k : Nat) (held : PositionAccount) (account : SubPoolAccount)
    (long short : DistributionLedgerAccount) (core : SubPool) (p : Position) : ChainRuntime :=
  { x.written held.subPoolId account long short core with
    positions := x.positions.insert k ⟨held.subPoolId, p⟩ }

theorem onPosition_accepted (hk : x.positions.get? k = some held)
    (hb : x.buildCoreSubPool held.subPoolId = .ok core)
    (hc : call x.market.params core held.position = .ok (core', p', out))
    (hf : x.Fits held.subPoolId core') (hp : x.Present held.subPoolId account long short) :
    onPosition k call pay result x = (do pay out; return result out : MirrorM β)
      (x.afterCall k held account long short core' p') := by
  obtain ⟨snap, hs⟩ := snapshot_present hp
  have hp' : ({ x with positions := x.positions.erase k } : ChainRuntime).Present held.subPoolId
      account long short := ⟨hp.account, hp.long, hp.short⟩
  unfold onPosition
  rw [get_bind]
  simp only [hk]
  rw [hs, orAbort_some, hb, orFail_ok_bind]
  simp only [hc]
  refine (bind_of_ok (undoing_ok (writeCore_ok hp' hf)) _).trans ?_
  have hwritten : ({ x with positions := x.positions.erase k } : ChainRuntime).written
      held.subPoolId account long short core' = { x.written held.subPoolId account long short core'
        with positions := x.positions.erase k, nextPositionId := x.nextPositionId } :=
    written_with x _ x.nextPositionId _ _ _ _ _
  rw [hwritten]
  show (do pay out; return result out : MirrorM β)
    { x.written held.subPoolId account long short core' with
      positions := (x.positions.erase k).insert k ⟨held.subPoolId, p'⟩
      nextPositionId := x.nextPositionId } = _
  have hnext : (x.written held.subPoolId account long short core').nextPositionId
      = x.nextPositionId := by
    have hrest := congrArg ChainRuntime.nextPositionId (written_touches hp core').rest
    exact hrest
  rw [OrdMap.insert_erase, afterCall, ← hnext]

theorem onPosition_ok {b : β} (h : onPosition k call pay result x = .ok b y) :
    ∃ held core core' account long short p' out, x.positions.get? k = some held ∧
      x.WroteBack held.subPoolId core core' account long short ∧
      call x.market.params core held.position = .ok (core', p', out) ∧ b = result out ∧
      pay out (x.afterCall k held account long short core' p') = .ok () y := by
  cases hk : x.positions.get? k with
  | none => cases h.symm.trans (onPosition_missing hk)
  | some held =>
    cases hb : x.buildCoreSubPool held.subPoolId with
    | error e =>
      obtain ⟨e', he⟩ : ∃ e, onPosition k call pay result x = .error e x :=
        onPosition_unread hk fun core hc => by cases hb.symm.trans hc
      cases h.symm.trans he
    | ok core =>
      cases hc : call x.market.params core held.position with
      | error e => cases h.symm.trans (onPosition_error hk hb hc)
      | ok r =>
        obtain ⟨core', p', out⟩ := r
        by_cases hf : x.Fits held.subPoolId core'
        · obtain ⟨account, long, short, _, _, hp, -⟩ := buildCore_ok hb
          obtain ⟨u, z, hpay, hout⟩ :=
            bind_ok.mp ((onPosition_accepted hk hb hc hf hp).symm.trans h)
          cases hout
          exact ⟨held, core, core', account, long, short, p', out, rfl, ⟨hb, hp, hf⟩, hc, rfl, hpay⟩
        · obtain ⟨e, he⟩ : ∃ e, onPosition k call pay result x = .error e x :=
            onPosition_unfit hk hb hc hf
          cases h.symm.trans he

end OnPosition

section Open
variable {d : Direction} {gross : U64} {envelope : PriceEnvelope} {p : Position}
  {opened : OpenOutcome}

theorem open_aborts (h : x.snapshotSubPool id = none ∨ u64Size ≤ x.nextPositionId + 1) :
    ChainRuntime.open id d gross envelope x = .error .panic x := by
  unfold ChainRuntime.open
  rw [get_bind]
  cases hs : x.snapshotSubPool id with
  | none => exact orAbort_none _ x
  | some snap =>
    have hfull : ¬ x.nextPositionId + 1 < u64Size := by
      cases h with
      | inl h => simp [h] at hs
      | inr h => omega
    rw [orAbort_some, ensure_not hfull]
    rfl

variable (hroom : x.nextPositionId + 1 < u64Size)
include hroom

theorem open_unread {snap : SubPoolSnapshot} (hs : x.snapshotSubPool id = some snap)
    {e : MirrorError} (hb : x.buildCoreSubPool id = .error e) :
    ChainRuntime.open id d gross envelope x
      = .error e { x with nextPositionId := x.nextPositionId + 1 } := by
  unfold ChainRuntime.open
  rw [get_bind, hs, orAbort_some, ensure_of hroom, orFail_ok_bind, set_bind, hb, orFail_error_bind]

theorem open_error (hb : x.buildCoreSubPool id = .ok core)
    (hc : openPosition x.market.params core envelope d gross x.nextPositionId = .error e) :
    ChainRuntime.open id d gross envelope x = .error (.clearing e) x := by
  obtain ⟨_, _, _, _, _, hp, -⟩ := buildCore_ok hb
  obtain ⟨snap, hs⟩ := snapshot_present hp
  unfold ChainRuntime.open
  rw [get_bind, hs, orAbort_some, ensure_of hroom, orFail_ok_bind, set_bind, hb, orFail_ok_bind]
  simp only [hc]
  have hs' : ({ x with nextPositionId := x.nextPositionId + 1 } : ChainRuntime).snapshotSubPool id
      = some snap := hs
  have hback : ({ restoreSubPool snap { x with nextPositionId := x.nextPositionId + 1 } with
      nextPositionId := x.nextPositionId + 1 - 1 } : ChainRuntime) = x := by
    rw [restore_self hs']
    rfl
  exact congrArg (EStateM.Result.error (MirrorError.clearing e)) hback

theorem open_unfit (hb : x.buildCoreSubPool id = .ok core)
    (hc : openPosition x.market.params core envelope d gross x.nextPositionId
      = .ok (core', p, opened)) (hf : ¬ x.Fits id core') :
    ∃ e, ChainRuntime.open id d gross envelope x = .error e x := by
  obtain ⟨account, long, short, _, _, hp, -⟩ := buildCore_ok hb
  obtain ⟨snap, hs⟩ := snapshot_present hp
  have hs' : ({ x with nextPositionId := x.nextPositionId + 1 } : ChainRuntime).snapshotSubPool id
      = some snap := hs
  have hp' : ({ x with nextPositionId := x.nextPositionId + 1 } : ChainRuntime).Present id account
      long short := ⟨hp.account, hp.long, hp.short⟩
  obtain ⟨e, y, -, hw, ht⟩ := writeCore_refused hp' hf
  refine ⟨e, ?_⟩
  unfold ChainRuntime.open
  rw [get_bind, hs, orAbort_some, ensure_of hroom, orFail_ok_bind, set_bind, hb, orFail_ok_bind]
  simp only [hc]
  refine (bind_of_error (undoing_error hw) _).trans ?_
  have hnext : y.nextPositionId = x.nextPositionId + 1 := by
    have hrest := congrArg ChainRuntime.nextPositionId ht.rest
    exact hrest
  have hback : y.withAccounts x = { x with nextPositionId := x.nextPositionId + 1 } :=
    withAccounts_of_rest (x := { x with nextPositionId := x.nextPositionId + 1 }) ht.rest
  have hrestore : restoreSubPool snap y = { x with nextPositionId := x.nextPositionId + 1 } :=
    (restore_touched hs' ht).trans hback
  rw [hrestore, hnext]
  rfl

def afterOpen (x : ChainRuntime) (id : Nat) (account : SubPoolAccount)
    (long short : DistributionLedgerAccount) (core : SubPool) (p : Position) : ChainRuntime :=
  { x.written id account long short core with
    positions := x.positions.insert x.nextPositionId ⟨id, { p with subPoolId := id }⟩
    nextPositionId := x.nextPositionId + 1 }

theorem open_accepted (hb : x.buildCoreSubPool id = .ok core)
    (hc : openPosition x.market.params core envelope d gross x.nextPositionId
      = .ok (core', p, opened)) (hf : x.Fits id core')
    (hp : x.Present id account long short) : ChainRuntime.open id d gross envelope x =
      (do bookDeposit gross opened
          return ⟨x.nextPositionId, opened.sharesMinted, opened.openFee, opened.events⟩ :
        MirrorM OpenSummary) (x.afterOpen id account long short core' p) := by
  obtain ⟨snap, hs⟩ := snapshot_present hp
  have hp' : ({ x with nextPositionId := x.nextPositionId + 1 } : ChainRuntime).Present id account
      long short := ⟨hp.account, hp.long, hp.short⟩
  have hwritten : ({ x with nextPositionId := x.nextPositionId + 1 } : ChainRuntime).written id
      account long short core' = { x.written id account long short core'
        with positions := x.positions, nextPositionId := x.nextPositionId + 1 } :=
    written_with x x.positions _ _ _ _ _ _
  unfold ChainRuntime.open
  rw [get_bind, hs, orAbort_some, ensure_of hroom, orFail_ok_bind, set_bind, hb, orFail_ok_bind]
  simp only [hc]
  refine (bind_of_ok (undoing_ok (writeCore_ok hp' hf)) _).trans ?_
  rw [hwritten]
  rfl

omit hroom in
theorem open_ok {out : OpenSummary} (h : ChainRuntime.open id d gross envelope x = .ok out y) :
    ∃ core core' account long short p opened, x.WroteBack id core core' account long short ∧
      x.nextPositionId + 1 < u64Size ∧
      openPosition x.market.params core envelope d gross x.nextPositionId
        = .ok (core', p, opened) ∧
      out = ⟨x.nextPositionId, opened.sharesMinted, opened.openFee, opened.events⟩ ∧
      bookDeposit gross opened (x.afterOpen id account long short core' p) = .ok () y := by
  cases hs : x.snapshotSubPool id with
  | none => cases h.symm.trans (open_aborts (.inl hs))
  | some snap =>
    by_cases hroom : x.nextPositionId + 1 < u64Size
    · cases hb : x.buildCoreSubPool id with
      | error e => cases h.symm.trans (open_unread hroom hs hb)
      | ok core =>
        cases hc : openPosition x.market.params core envelope d gross x.nextPositionId with
        | error e => cases h.symm.trans (open_error hroom hb hc)
        | ok r =>
          obtain ⟨core', p, opened⟩ := r
          by_cases hf : x.Fits id core'
          · obtain ⟨account, long, short, _, _, hp, -⟩ := buildCore_ok hb
            obtain ⟨u, z, hpay, hout⟩ :=
              bind_ok.mp ((open_accepted hroom hb hc hf hp).symm.trans h)
            cases hout
            exact ⟨core, core', account, long, short, p, opened, ⟨hb, hp, hf⟩, hroom, hc, rfl, hpay⟩
          · obtain ⟨e, he⟩ := open_unfit hroom hb hc hf
            cases h.symm.trans he
    · cases h.symm.trans (open_aborts (.inr (Nat.le_of_not_lt hroom)))

end Open

section Sync
variable {envelope : PriceEnvelope} {synced : SyncOutcome}

theorem sync_unread (h : ∀ core, x.buildCoreSubPool id ≠ .ok core) :
    ∃ e, ChainRuntime.sync id envelope x = .error e x := by
  unfold ChainRuntime.sync
  rw [get_bind]
  cases hs : x.snapshotSubPool id with
  | none => exact ⟨_, orAbort_none _ x⟩
  | some snap =>
    rw [orAbort_some]
    cases hb : x.buildCoreSubPool id with
    | error e => exact ⟨e, rfl⟩
    | ok core => exact absurd hb (h core)

theorem sync_error (hb : x.buildCoreSubPool id = .ok core)
    (hc : syncPool x.market.params core envelope = .error e) :
    ChainRuntime.sync id envelope x = .error (.clearing e) x := by
  obtain ⟨_, _, _, _, _, hp, -⟩ := buildCore_ok hb
  obtain ⟨snap, hs⟩ := snapshot_present hp
  unfold ChainRuntime.sync
  rw [get_bind, hs, orAbort_some, hb, orFail_ok_bind]
  simp only [hc]
  exact congrArg (EStateM.Result.error (MirrorError.clearing e)) (restore_self hs)

theorem sync_unfit (hb : x.buildCoreSubPool id = .ok core)
    (hc : syncPool x.market.params core envelope = .ok (core', synced)) {e : MirrorError}
    (hw : writeCoreSubPool id core' x = .error e y) :
    ChainRuntime.sync id envelope x = .error e y := by
  obtain ⟨_, _, _, _, _, hp, -⟩ := buildCore_ok hb
  obtain ⟨snap, hs⟩ := snapshot_present hp
  unfold ChainRuntime.sync
  rw [get_bind, hs, orAbort_some, hb, orFail_ok_bind]
  simp only [hc]
  exact bind_of_error hw _

theorem sync_accepted (hb : x.buildCoreSubPool id = .ok core)
    (hc : syncPool x.market.params core envelope = .ok (core', synced)) (hf : x.Fits id core')
    (hp : x.Present id account long short) :
    ChainRuntime.sync id envelope x = .ok synced (x.written id account long short core') := by
  obtain ⟨snap, hs⟩ := snapshot_present hp
  unfold ChainRuntime.sync
  rw [get_bind, hs, orAbort_some, hb, orFail_ok_bind]
  simp only [hc]
  exact bind_of_ok (writeCore_ok hp hf) _

theorem sync_ok (h : ChainRuntime.sync id envelope x = .ok synced y) :
    ∃ core core' account long short, x.WroteBack id core core' account long short ∧
      syncPool x.market.params core envelope = .ok (core', synced) ∧
      y = x.written id account long short core' := by
  cases hb : x.buildCoreSubPool id with
  | error e =>
    obtain ⟨e', he⟩ : ∃ e, ChainRuntime.sync id envelope x = .error e x :=
      sync_unread fun core hc => by cases hb.symm.trans hc
    cases h.symm.trans he
  | ok core =>
    obtain ⟨account, long, short, _, _, hp, -⟩ := buildCore_ok hb
    cases hc : syncPool x.market.params core envelope with
    | error e => cases h.symm.trans (sync_error hb hc)
    | ok r =>
      obtain ⟨core', out⟩ := r
      by_cases hf : x.Fits id core'
      · cases h.symm.trans (sync_accepted hb hc hf hp)
        exact ⟨core, core', account, long, short, ⟨hb, hp, hf⟩, hc, rfl⟩
      · obtain ⟨e, z, -, hw, -⟩ := writeCore_refused hp hf
        cases h.symm.trans (sync_unfit hb hc hw)

end Sync

end ChainRuntime
end Runtime
end MoleFinance
