import MoleFinance.Runtime.Writes

/-! All operations of a runtime, in any order and either mode, and what they keep: the accounts in
use are those of engine worlds, and no bucket account is ahead of its ledger. -/
namespace MoleFinance
open MoleMath Call Trace

namespace Runtime
namespace ChainRuntime
variable {x x' y : ChainRuntime} {id : Nat}

def governanceSetPaused (paused : Bool) (x : ChainRuntime) : ChainRuntime :=
  { x with market := ⟨{ x.market.params with paused := paused }, x.market.ledger_lt⟩ }

def governanceSetFrozenNewPosition (frozen : Bool) (x : ChainRuntime) : ChainRuntime :=
  { x with market := ⟨{ x.market.params with frozenNewPosition := frozen }, x.market.ledger_lt⟩ }

def governanceBumpSchemaVersion (newVersion : Nat) : MirrorM Unit := do
  let x ← get
  orFail (ensure (x.market.params.schemaVersion < newVersion)
    (.invariant "schema bump must strictly increase"))
  set { x with
    market := ⟨{ x.market.params with schemaVersion := newVersion }, x.market.ledger_lt⟩ }

/-- One version at a time, up to the target. -/
def walkForward (target version : Nat) : Nat :=
  if version < target then walkForward target (version + 1) else version
termination_by target - version

def governanceMigratePosition (positionId : Nat) : MirrorM Unit := do
  let x ← get
  match x.positions.get? positionId with
  | none => throw (.positionNotFound positionId)
  | some account => do
    let target := x.market.params.schemaVersion
    orFail (ensure (account.position.schemaVersion ≠ target)
      (.invariant "schema migration noop"))
    set { x with
      positions := x.positions.insert positionId { account with
        position := { account.position with
          schemaVersion := walkForward target account.position.schemaVersion } } }

end ChainRuntime

inductive GovernanceOp where
  | setPaused (paused : Bool)
  | setFrozenNewPosition (frozen : Bool)
  | bumpSchemaVersion (newVersion : Nat)
  | migratePosition (positionId : Nat)

inductive UpkeepOp where
  | lifecycle (op : LifecycleOp)
  | governance (op : GovernanceOp)

def GovernanceOp.apply : GovernanceOp → ChainRuntime → ChainRuntime
  | .setPaused paused, x => x.governanceSetPaused paused
  | .setFrozenNewPosition frozen, x => x.governanceSetFrozenNewPosition frozen
  | .bumpSchemaVersion newVersion, x =>
    final (ChainRuntime.governanceBumpSchemaVersion newVersion x)
  | .migratePosition positionId, x => final (ChainRuntime.governanceMigratePosition positionId x)

def UpkeepOp.apply : UpkeepOp → ChainRuntime → ChainRuntime
  | .lifecycle op => op.apply
  | .governance op => op.apply

/-- A sub-pool is added once, and a call that fails leaves nothing behind. -/
def RuntimeOp.Tidy (op : RuntimeOp) (x : ChainRuntime) : Prop :=
  match op with
  | .addSubPool id _ _ => x.subPools.contains id = false
  | .operation op => (op.step x).1.isOk = true ∨ (op.step x).2 = x

namespace ChainRuntime
variable {x x' y : ChainRuntime} {id : Nat}

/-- The accounts in use are those of engine worlds, and every account has its ledger. -/
structure Sound (x : ChainRuntime) : Prop where
  indexed : x.Indexed
  hosted : ∃ (h : Harness Unit) (y : ChainRuntime), x.Twin y ∧ Paired [] h y ∧ y.Indexed

end ChainRuntime

section Hosted
variable {ι : Type} {h : Harness ι} {x x' y y' : ChainRuntime} {ids : List Nat} {id : Nat}

theorem Paired.of_listed (hp : Paired ids h y) {js : List Nat}
    (hj : ∀ id ∈ js, ∃ s, h.subPools.get? id = some s) : Paired js h y :=
  { hp with hosting := { hp.hosting with listed := hj } }

theorem Paired.listed_of (hp : Paired ids h y) {core core' : SubPool} {account : SubPoolAccount}
    {long short : DistributionLedgerAccount}
    (hw : y.WroteBack id core core' account long short) : ∃ s, h.subPools.get? id = some s := by
  cases hs : h.subPools.get? id with
  | none =>
    have hnone := hp.parallel.absent id hs
    rw [hw.present.account] at hnone
    cases hnone
  | some s => exact ⟨s, rfl⟩

theorem MirrorOp.names_of_ok (hp : Paired ids h y) {op : MirrorOp} {reply : MirrorReply}
    (hm : op.call y = .ok reply y') : op.Names h.subPools.keys := by
  have hlisted : ∀ {id}, (∃ s, h.subPools.get? id = some s) → id ∈ h.subPools.keys :=
    fun hs => OrdMap.mem_keys.mpr hs
  cases op with
  | «open» id d gross envelope =>
    obtain ⟨out, z, hm, -⟩ := bind_ok.mp hm
    obtain ⟨_, _, _, _, _, _, _, hw, -⟩ := ChainRuntime.open_ok hm
    exact hlisted (hp.listed_of hw)
  | sync id envelope =>
    obtain ⟨out, z, hm, -⟩ := bind_ok.mp hm
    obtain ⟨_, _, _, _, _, hw, -⟩ := ChainRuntime.sync_ok hm
    exact hlisted (hp.listed_of hw)
  | preSyncBucket id d tick slot =>
    obtain ⟨out, z, hm, -⟩ := bind_ok.mp hm
    simp only [ChainRuntime.preSyncBucket, get_bind] at hm
    obtain ⟨_, -, hm⟩ := orFail_bind_run_ok.mp hm
    obtain ⟨_, _, _, _, _, hw, -⟩ := ChainRuntime.onSubPool_ok hm
    exact hlisted (hp.listed_of hw)
  | harvestDust id d =>
    obtain ⟨out, z, hm, -⟩ := bind_ok.mp hm
    obtain ⟨_, _, _, _, _, hw, -⟩ := ChainRuntime.onSubPool_ok hm
    exact hlisted (hp.listed_of hw)
  | close k envelope => trivial
  | forceClose k envelope ack => trivial
  | claimRecovery k envelope => trivial

def noIndexer : IndexerView Unit Empty where
  applyAll _ := pure ()
  equity _ _ := 0

namespace ChainRuntime

theorem Twin.self (h : x.Twin y) : y.Twin y where
  market := rfl
  subPools := rfl
  ledgers := rfl
  positions := rfl
  vaultBalance := rfl
  feeVaultBalance := rfl
  totalDeposits := rfl
  totalWithdrawals := rfl
  nextPositionId := rfl
  live := rfl
  loose := h.loose
  shaped := h.shaped'
  shaped' := h.shaped'

theorem Sound.operation (h : x.Sound) {op : MirrorOp} {reply : MirrorReply}
    (hm : op.call x = .ok reply x') : x'.Sound := by
  obtain ⟨hindexed, g, y, ht, hp, hi⟩ := h
  obtain ⟨y', hy, ht'⟩ := op.call_followed x y x' reply ht hm
  have hwrote := op.wrote hp ht hm
  have hwrote' := op.wrote hp ht.self hy
  have hkeys : Paired g.subPools.keys g y := hp.of_listed fun id => OrdMap.mem_keys.mp
  have hstep := (step_alike noIndexer hkeys (op.names_of_ok hp hy)).2
  have hfinal : (op.step y).2 = y' := congrArg final hy
  rw [hfinal] at hstep
  exact ⟨hwrote.indexed hindexed, _, y', ht', hstep.of_listed (by simp), hwrote'.indexed hi⟩

theorem Indexed.none_of (h : x.Indexed) (hid : x.subPools.get? id = none) (d : Direction)
    (tick : Int) : x.buckets.get? (bucketKey id d tick) = none := by
  cases hb : x.buckets.get? (bucketKey id d tick) with
  | none => rfl
  | some a =>
    obtain ⟨account, hacc⟩ := h.lodged id d tick a hb
    cases hid.symm.trans hacc

theorem Indexed.addSubPool (h : x.Indexed) (hid : x.subPools.get? id = none) (price : U64)
    (slot : Nat) : (x.addSubPool id price slot).Indexed := by
  have hne : ∀ i d tick a, x.buckets.get? (bucketKey i d tick) = some a → i ≠ id := by
    rintro i d tick a ha rfl
    cases (h.none_of hid d tick).symm.trans ha
  have htouch := addSubPool_touches x id price slot
  constructor
  · intro i d ledger hled
    by_cases hi : i = id
    · subst hi
      exact ⟨.new i price slot, OrdMap.get?_insert_self _ _ _⟩
    · rw [htouch.ledgers i d hi] at hled
      rw [htouch.subPools i hi]
      exact h.owned i d ledger hled
  · intro i d tick a ha
    rw [htouch.subPools i (hne i d tick a ha)]
    exact h.lodged i d tick a ha
  · intro i d tick a ha
    rw [htouch.ledgers i d (hne i d tick a ha)]
    exact h.behind i d tick a ha

end ChainRuntime

theorem Paired.addSubPool (hp : Paired [] h y) (hi : y.Indexed) (hid : h.subPools.get? id = none)
    (price : U64) (slot : Nat) :
    Paired [] (h.addSubPool id price slot) (y.addSubPool id price slot) where
  hosting := by
    have hother : ∀ k p, h.positions.get? k = some p → p.subPoolId ≠ id := by
      rintro k p hk rfl
      obtain ⟨s, hs⟩ := hp.hosting.lodged k p hk
      cases hid.symm.trans hs
    refine ⟨by simp, fun i s hs => ?_, fun k p hk => ?_, hp.hosting.fresh⟩
    · simp only [Harness.addSubPool, OrdMap.get?_insert] at hs
      split_ifs at hs with he
      · cases hs
        subst he
        have hnone : h.positions.filter (fun _ p => decide (p.subPoolId = i)) = .empty := by
          refine OrdMap.ext_get? fun k => ?_
          rw [OrdMap.get?_filter]
          cases hk : h.positions.get? k with
          | none => rfl
          | some p => simp [Option.filter, hother k p hk]
        have hworld : (h.addSubPool i price slot).world i (.new i price slot)
            = World.new i price slot := congrArg (World.mk _) hnone
        rw [hworld]
        exact World.new_housed h.market i price slot
      · exact hp.hosting.housed i s hs
    · obtain ⟨s, hs⟩ := hp.hosting.lodged k p hk
      exact Harness.get?_insert_subPool h id _ hs
  balanced := Harness.addSubPool_balanced hp.balanced (.inr hid) price slot
  parallel := by
    have htouch := ChainRuntime.addSubPool_touches y id price slot
    have hholds := ChainRuntime.addSubPool_holds hp.parallel.shaped
      (hi.none_of (hp.parallel.absent id hid)) price slot
    refine { hp.parallel with
      shaped := ChainRuntime.addSubPool_shaped hp.parallel.shaped id price slot
      subPool := fun i s hs => ?_
      absent := fun i hi => ?_ }
    · simp only [Harness.addSubPool, OrdMap.get?_insert] at hs
      split_ifs at hs with he
      · cases hs
        exact he ▸ hholds
      · exact (hp.parallel.subPool i s hs).touched htouch he
    · simp only [Harness.addSubPool, OrdMap.get?_insert] at hi
      split_ifs at hi with hne
      rw [htouch.subPools i hne]
      exact hp.parallel.absent i hi

theorem Paired.withMarket (hp : Paired [] h y) (market : MarketAccount)
    (hl : market.params.maxDistributionLedgerSize = y.market.params.maxDistributionLedgerSize)
    (hc : market.params.maxDormantBucketCountPerDirection
      = y.market.params.maxDormantBucketCountPerDirection) :
    Paired [] { h with market := market.params } { y with market := market } where
  hosting := by
    refine ⟨by simp, fun i s hs => ?_, hp.hosting.lodged, hp.hosting.fresh⟩
    obtain ⟨hreached, hid, hwithin, hcounted⟩ := hp.hosting.housed i s hs
    refine ⟨hreached, hid, ?_, ?_⟩
    · rw [hl, hp.parallel.market]
      exact hwithin
    · rw [hc, hp.parallel.market]
      exact hcounted
  balanced := hp.balanced.of_funds rfl rfl rfl rfl rfl rfl rfl rfl
  parallel := { hp.parallel with
    market := rfl
    shaped := ⟨hp.parallel.shaped.bucket, hp.parallel.shaped.ledger⟩
    subPool := fun i s hs => (hp.parallel.subPool i s hs).of_accounts rfl rfl rfl }

namespace ChainRuntime

theorem new_sound (market : MarketAccount) (strict : Bool) : (new market strict).Sound := by
  have hindexed : ∀ strict, (new market strict).Indexed :=
    fun strict => ⟨fun _ _ _ h => (by cases h), fun _ _ _ _ h => (by cases h),
      fun _ _ _ _ h => (by cases h)⟩
  have htwin : (new market strict).Twin (new market false) :=
    ⟨⟨rfl, rfl, rfl, rfl, rfl, rfl, rfl, rfl, rfl, rfl⟩, rfl, new_shaped market strict,
      new_shaped market false⟩
  have hpair := (registered_pristine market () []).toPaired
  exact ⟨hindexed strict, _, _, htwin, hpair, hindexed false⟩

theorem Sound.addSubPool (h : x.Sound) (hid : x.subPools.get? id = none) (price : U64)
    (slot : Nat) : (x.addSubPool id price slot).Sound := by
  obtain ⟨hindexed, g, y, ht, hp, hi⟩ := h
  have hid' : y.subPools.get? id = none := ht.subPools.symm ▸ hid
  have hnone : g.subPools.get? id = none := by
    cases hs : g.subPools.get? id with
    | none => rfl
    | some s =>
      obtain ⟨account, _, _, hpres, -⟩ := hp.present hs
      cases hid'.symm.trans hpres.account
  exact ⟨hindexed.addSubPool hid price slot, _, _, addSubPool_twin ht id price slot,
    hp.addSubPool hi hnone price slot, hi.addSubPool hid' price slot⟩

theorem Sound.withMarket (h : x.Sound) (market : MarketAccount)
    (hl : market.params.maxDistributionLedgerSize = x.market.params.maxDistributionLedgerSize)
    (hc : market.params.maxDormantBucketCountPerDirection
      = x.market.params.maxDormantBucketCountPerDirection) :
    ({ x with market := market } : ChainRuntime).Sound := by
  obtain ⟨hindexed, g, y, ht, hp, hi⟩ := h
  rw [← ht.market] at hl hc
  refine ⟨hindexed.of_accounts rfl rfl rfl, _, { y with market := market }, ?_,
    hp.withMarket market hl hc, hi.of_accounts rfl rfl rfl⟩
  exact ⟨{ ht.toSameView with market := rfl }, ht.loose,
    ⟨ht.shaped.bucket, ht.shaped.ledger⟩, ⟨ht.shaped'.bucket, ht.shaped'.ledger⟩⟩

theorem Sound.hosts (h : x.Sound) {account : SubPoolAccount}
    (hacc : x.subPools.get? id = some account) : ∃ w : World, w.Housed x.market.params id ∧
      x.buildCoreSubPool id = .ok w.subPool := by
  obtain ⟨-, g, y, ht, hp, -⟩ := h
  cases hs : g.subPools.get? id with
  | none =>
    have hnone := hp.parallel.absent id hs
    rw [ht.subPools, hacc] at hnone
    cases hnone
  | some s =>
    refine ⟨g.world id s, hp.params ht ▸ hp.hosting.housed id s hs, ?_⟩
    rw [← ht.built]
    exact (hp.parallel.subPool id s hs).built

theorem Sound.ledgers (h : x.Sound) {account : SubPoolAccount}
    (hacc : x.subPools.get? id = some account) (d : Direction) :
    ∃ ledger, x.ledgers.get? (ledgerKey id d) = some ledger := by
  obtain ⟨w, -, hb⟩ := h.hosts hacc
  obtain ⟨_, long, short, _, _, hpres, -⟩ := buildCore_ok hb
  cases d with
  | long => exact ⟨long, hpres.long⟩
  | short => exact ⟨short, hpres.short⟩

theorem Sound.lifecycle (h : x.Sound) (op : LifecycleOp) : (op.apply x).Sound := by
  have hledgers := fun {id account} => @Sound.ledgers x id h account
  obtain ⟨hindexed, g, y, ht, hp, hi⟩ := h
  refine ⟨?_, g, y, op.apply_twin ht, hp, hi⟩
  cases op with
  | preInitDormantBucket id d tick =>
    show (final (ChainRuntime.preInitDormantBucket id d tick x)).Indexed
    cases preInitDormantBucket_cases x id d tick with
    | inl he =>
      obtain ⟨e, he⟩ := he
      rw [he]
      exact hindexed
    | inr hr =>
      obtain ⟨hreg, -, hr⟩ := hr
      obtain ⟨account, hacc⟩ := OrdMap.contains_iff.mp hreg
      rw [hr]
      refine ⟨hindexed.owned, ?_, ?_⟩
      · intro i e t a ha
        simp only [final, OrdMap.get?_insert, BucketKey.bucketKey_inj] at ha
        split_ifs at ha with hk
        · exact ⟨account, hk.1 ▸ hacc⟩
        · exact hindexed.lodged i e t a ha
      · intro i e t a ha
        simp only [final, OrdMap.get?_insert, BucketKey.bucketKey_inj] at ha
        split_ifs at ha with hk
        · cases ha
          obtain ⟨rfl, rfl, rfl⟩ := hk
          obtain ⟨ledger, hl⟩ := hledgers hacc e
          exact ⟨ledger, hl, Nat.zero_le _⟩
        · exact hindexed.behind i e t a ha
  | closeDormantBucket id d tick =>
    show (final (ChainRuntime.closeDormantBucket id d tick x)).Indexed
    cases closeDormantBucket_cases x id d tick with
    | inl he =>
      obtain ⟨e, he⟩ := he
      rw [he]
      exact hindexed
    | inr hr =>
      obtain ⟨bucket, ledger, -, -, -, -, hr⟩ := hr
      rw [hr]
      refine ⟨hindexed.owned, ?_, ?_⟩
      · intro i e t a ha
        simp only [final, OrdMap.get?_erase] at ha
        split_ifs at ha
        exact hindexed.lodged i e t a ha
      · intro i e t a ha
        simp only [final, OrdMap.get?_erase] at ha
        split_ifs at ha
        exact hindexed.behind i e t a ha

/-! A position is migrated only once no engine call is taken any more. -/

/-- In order, but for positions that were migrated past the current schema. -/
def Kept (x : ChainRuntime) : Prop :=
  ∃ z : ChainRuntime, z.Sound ∧ x = { z with positions := x.positions } ∧
    (z.market.params.schemaVersion ≤ schemaVersionCurrent → z = x)

theorem Sound.kept (h : x.Sound) : x.Kept := ⟨x, h, rfl, fun _ => rfl⟩

end ChainRuntime

theorem MirrorOp.schema_of_ok {op : MirrorOp} {reply : MirrorReply}
    (hm : op.call x = .ok reply x') :
    x.market.params.schemaVersion = schemaVersionCurrent := by
  have hfirst : ∀ {α : Type} {f : Unit → Except ClearingError α} {a : α},
      (assertSchemaVersion x.market.params.schemaVersion >>= f) = .ok a →
        x.market.params.schemaVersion = schemaVersionCurrent := by
    intro α f a h
    obtain ⟨_, hs, -⟩ := except_bind_ok.mp h
    exact ensure_ok.mp hs
  cases op with
  | «open» id d gross envelope =>
    obtain ⟨out, z, hm, -⟩ := bind_ok.mp hm
    obtain ⟨_, _, _, _, _, _, _, -, -, hc, -⟩ := ChainRuntime.open_ok hm
    exact hfirst hc
  | close k envelope =>
    obtain ⟨out, z, hm, -⟩ := bind_ok.mp hm
    obtain ⟨_, _, _, _, _, _, _, _, -, -, hc, -⟩ := ChainRuntime.onPosition_ok hm
    exact hfirst hc
  | forceClose k envelope ack =>
    obtain ⟨out, z, hm, -⟩ := bind_ok.mp hm
    obtain ⟨_, _, _, _, _, _, _, _, -, -, hc, -⟩ := ChainRuntime.onPosition_ok hm
    exact hfirst hc
  | claimRecovery k envelope =>
    obtain ⟨out, z, hm, -⟩ := bind_ok.mp hm
    obtain ⟨_, _, _, _, _, _, _, _, -, -, hc, -⟩ := ChainRuntime.onPosition_ok hm
    exact hfirst hc
  | sync id envelope =>
    obtain ⟨out, z, hm, -⟩ := bind_ok.mp hm
    obtain ⟨_, _, _, _, _, -, hc, -⟩ := ChainRuntime.sync_ok hm
    unfold syncPool at hc
    obtain ⟨_, hg, -⟩ := except_bind_ok.mp hc
    exact hfirst hg
  | preSyncBucket id d tick slot =>
    obtain ⟨out, z, hm, -⟩ := bind_ok.mp hm
    simp only [ChainRuntime.preSyncBucket, get_bind] at hm
    obtain ⟨_, -, hm⟩ := orFail_bind_run_ok.mp hm
    obtain ⟨_, _, _, _, _, -, hc, -⟩ := ChainRuntime.onSubPool_ok hm
    exact hfirst hc
  | harvestDust id d =>
    obtain ⟨out, z, hm, -⟩ := bind_ok.mp hm
    obtain ⟨_, _, _, _, _, -, hc, -⟩ := ChainRuntime.onSubPool_ok hm
    exact hfirst hc

namespace ChainRuntime

theorem Kept.sound_of (h : x.Kept) (hs : x.market.params.schemaVersion = schemaVersionCurrent) :
    x.Sound := by
  obtain ⟨z, hz, hx, hcur⟩ := h
  rw [hx] at hs
  exact hcur hs.le ▸ hz

theorem Kept.operation (h : x.Kept) {op : RuntimeOp} (ht : op.Tidy x) : (op.step x).2.Kept := by
  cases op with
  | addSubPool id price slot =>
    obtain ⟨z, hz, hx, hcur⟩ := h
    have hnone : z.subPools.get? id = none := by
      have hid : x.subPools.get? id = none := by simpa [RuntimeOp.Tidy, OrdMap.contains] using ht
      rw [hx] at hid
      exact hid
    refine ⟨z.addSubPool id price slot, hz.addSubPool hnone price slot, ?_, fun hle => ?_⟩
    · rw [hx]
      rfl
    · rw [← hcur hle]
      rfl
  | operation op =>
    cases ht with
    | inr hsame => exact hsame.symm ▸ h
    | inl hok =>
      simp only [RuntimeOp.step, MirrorOp.step] at hok ⊢
      cases hm : op.call x with
      | error e x' =>
        rw [hm] at hok
        cases hok
      | ok reply x' => exact ((h.sound_of (op.schema_of_ok hm)).operation hm).kept

theorem lifecycle_with (op : LifecycleOp) (x : ChainRuntime) (ps : OrdMap Nat PositionAccount) :
    op.apply { x with positions := ps } = { op.apply x with positions := ps } := by
  cases op with
  | preInitDormantBucket id d tick =>
    simp only [LifecycleOp.apply, preInitDormantBucket, get_bind]
    by_cases hs : x.subPools.contains id = true
    · by_cases hb : x.buckets.contains (bucketKey id d tick) = false
      · simp only [ensure_of hs, ensure_of hb, orFail_ok_bind]
        rfl
      · simp only [ensure_of hs, ensure_not hb, orFail_ok_bind]
        rfl
    · simp only [ensure_not hs]
      rfl
  | closeDormantBucket id d tick =>
    cases hb : x.buckets.get? (bucketKey id d tick) with
    | none =>
      simp only [LifecycleOp.apply, closeDormantBucket, get_bind, hb]
      rfl
    | some bucket =>
      cases hl : x.ledgers.get? (ledgerKey id d) with
      | none =>
        simp only [LifecycleOp.apply, closeDormantBucket, get_bind, hb, hl]
        by_cases hdead : bucket.record.isDead = true
        · simp only [ensure_of hdead, orFail_ok_bind]
          rfl
        · simp only [ensure_not hdead]
          rfl
      | some ledger =>
        simp only [LifecycleOp.apply, closeDormantBucket, get_bind, hb, hl]
        by_cases hdead : bucket.record.isDead = true
        · by_cases hdue : ledger.ledger.nextEventIndex ≤ bucket.record.lastAppliedIndex
          · simp only [ensure_of hdead, ensure_of hdue, orFail_ok_bind]
            rfl
          · simp only [ensure_of hdead, ensure_not hdue, orFail_ok_bind]
            rfl
        · simp only [ensure_not hdead]
          rfl

theorem lifecycle_market (op : LifecycleOp) (x : ChainRuntime) :
    (op.apply x).market = x.market := by
  cases op with
  | preInitDormantBucket id d tick =>
    show (final (ChainRuntime.preInitDormantBucket id d tick x)).market = x.market
    obtain ⟨e, hr⟩ | ⟨-, -, hr⟩ := preInitDormantBucket_cases x id d tick
    · rw [hr]
      rfl
    · rw [hr]
      rfl
  | closeDormantBucket id d tick =>
    show (final (ChainRuntime.closeDormantBucket id d tick x)).market = x.market
    obtain ⟨e, hr⟩ | ⟨_, _, -, -, -, -, hr⟩ := closeDormantBucket_cases x id d tick
    · rw [hr]
      rfl
    · rw [hr]
      rfl

theorem Kept.lifecycle (h : x.Kept) (op : LifecycleOp) : (op.apply x).Kept := by
  obtain ⟨z, hz, hx, hcur⟩ := h
  have hwith : op.apply x = { op.apply z with positions := x.positions } := by
    rw [← lifecycle_with, ← hx]
  refine ⟨op.apply z, hz.lifecycle op, ?_, fun hle => ?_⟩
  · conv_lhs => rw [hwith]
    rw [hwith]
  · rw [lifecycle_market] at hle
    rw [hcur hle]

theorem Sound.schema (h : x.Sound) {k : Nat} {account : PositionAccount}
    (hk : x.positions.get? k = some account) :
    account.position.schemaVersion = schemaVersionCurrent := by
  obtain ⟨-, g, y, ht, hp, -⟩ := h
  rw [← ht.positions, hp.parallel.position] at hk
  cases hg : g.positions.get? k with
  | none =>
    rw [hg] at hk
    cases hk
  | some p =>
    rw [hg] at hk
    cases hk
    obtain ⟨s, hs⟩ := hp.hosting.lodged k p hg
    have hin : (g.world p.subPoolId s).positions.get? k = some p := Harness.world_get? hg s
    exact ((hp.hosting.housed _ s hs).reached.inv.resting k p hin).schema

theorem walkForward_of_le {target version : Nat} (h : target ≤ version) :
    walkForward target version = version := by
  rw [walkForward, if_neg (Nat.not_lt.mpr h)]

theorem Kept.governance (h : x.Kept) (op : GovernanceOp) : (op.apply x).Kept := by
  obtain ⟨z, hz, hx, hcur⟩ := h
  have hmarket : ∀ market : MarketAccount,
      market.params.maxDistributionLedgerSize = x.market.params.maxDistributionLedgerSize →
      market.params.maxDormantBucketCountPerDirection
        = x.market.params.maxDormantBucketCountPerDirection →
      (market.params.schemaVersion ≤ schemaVersionCurrent →
        x.market.params.schemaVersion ≤ schemaVersionCurrent) →
      ({ x with market := market } : ChainRuntime).Kept := by
    intro market hl hc hs
    rw [hx] at hl hc hs
    refine ⟨{ z with market := market }, hz.withMarket market hl hc, ?_, fun hle => ?_⟩
    · rw [hx]
    · rw [← hcur (hs hle)]
  cases op with
  | setPaused paused => exact hmarket _ rfl rfl id
  | setFrozenNewPosition frozen => exact hmarket _ rfl rfl id
  | bumpSchemaVersion newVersion =>
    simp only [GovernanceOp.apply, governanceBumpSchemaVersion, get_bind]
    by_cases hup : x.market.params.schemaVersion < newVersion
    · rw [ensure_of hup, orFail_ok_bind]
      exact hmarket _ rfl rfl fun hle => hup.le.trans hle
    · rw [ensure_not hup]
      exact ⟨z, hz, hx, hcur⟩
  | migratePosition k =>
    simp only [GovernanceOp.apply, governanceMigratePosition, get_bind]
    cases hk : x.positions.get? k with
    | none => exact ⟨z, hz, hx, hcur⟩
    | some account =>
      simp only
      by_cases hne : account.position.schemaVersion ≠ x.market.params.schemaVersion
      · rw [ensure_of hne, orFail_ok_bind]
        refine ⟨z, hz, ?_, fun hle => ?_⟩
        · have hwith : ∀ ps, ({ x with positions := ps } : ChainRuntime)
              = { z with positions := ps } := fun ps => by rw [hx]
          exact hwith _
        · have hzx := hcur hle
          have hle : x.market.params.schemaVersion ≤ schemaVersionCurrent := hzx ▸ hle
          have hs : account.position.schemaVersion = schemaVersionCurrent :=
            (hzx ▸ hz).schema hk
          have hsame : walkForward x.market.params.schemaVersion account.position.schemaVersion
              = account.position.schemaVersion := walkForward_of_le (hs ▸ hle)
          rw [hsame]
          show z = { x with positions := x.positions.insert k account }
          rw [OrdMap.insert_get?_self hk]
          exact hzx
      · rw [ensure_not hne]
        exact ⟨z, hz, hx, hcur⟩

theorem Kept.upkeep (h : x.Kept) (op : UpkeepOp) : (op.apply x).Kept := by
  cases op with
  | lifecycle op => exact h.lifecycle op
  | governance op => exact h.governance op

theorem trace_kept (market : MarketAccount) (strict : Bool) {ops : List (RuntimeOp ⊕ UpkeepOp)}
    (ht : Along RuntimeOp.step UpkeepOp.apply RuntimeOp.Tidy ops (.new market strict)) :
    (trace RuntimeOp.step UpkeepOp.apply ops (.new market strict)).2.Kept :=
  trace_preserves (fun _ _ h ht => h.operation ht) (fun op _ h => h.upkeep op)
    (new_sound market strict).kept ht

theorem Kept.hosts (h : x.Kept) {account : SubPoolAccount}
    (hacc : x.subPools.get? id = some account) : ∃ w : World, w.Housed x.market.params id ∧
      x.buildCoreSubPool id = .ok w.subPool := by
  obtain ⟨z, hz, hx, -⟩ := h
  rw [hx] at hacc ⊢
  exact Sound.hosts (x := z) hz hacc

theorem Kept.indexed (h : x.Kept) : x.Indexed := by
  obtain ⟨z, hz, hx, -⟩ := h
  rw [hx]
  exact hz.indexed.of_accounts rfl rfl rfl

end ChainRuntime

/-- In either mode and after any tidy run, every sub-pool reads back as one the engine reaches
    and passes its invariants, and every bucket account has a sub-pool and a ledger it is not
    ahead of. -/
theorem runtime_reads_back (market : MarketAccount) (strict : Bool)
    (ops : List (RuntimeOp ⊕ UpkeepOp))
    (ht : Along RuntimeOp.step UpkeepOp.apply RuntimeOp.Tidy ops (.new market strict)) :
    let x := (trace RuntimeOp.step UpkeepOp.apply ops (.new market strict)).2
    (∀ id account, x.subPools.get? id = some account →
      ∃ w : World, w.Reached ∧ w.subPool.subPoolId = id ∧
        x.buildCoreSubPool id = .ok w.subPool ∧ checkSubpoolInvariants w.subPool = .ok ()) ∧
    ∀ id d tick bucket, x.buckets.get? (bucketKey id d tick) = some bucket →
      ∃ account ledger, x.subPools.get? id = some account ∧
        x.ledgers.get? (ledgerKey id d) = some ledger ∧
        bucket.record.lastAppliedIndex ≤ ledger.ledger.nextEventIndex := by
  have hkept := ChainRuntime.trace_kept market strict ht
  constructor
  · intro id account hacc
    obtain ⟨w, hw, hbuilt⟩ := hkept.hosts hacc
    exact ⟨w, hw.reached, hw.id_eq, hbuilt, hw.reached.inv.check⟩
  · intro id d tick bucket hb
    obtain ⟨account, hacc⟩ := hkept.indexed.lodged id d tick bucket hb
    obtain ⟨ledger, hl, hle⟩ := hkept.indexed.behind id d tick bucket hb
    exact ⟨account, ledger, hacc, hl, hle⟩

/-- The long bucket at 80 is opened before the wipe-out and lags behind by one event when the
    market is paused; after the pause it is caught up and claimed. The account at 70 is closed
    unused, and in the end the schema moves on. -/
def upkeepRun : List (RuntimeOp ⊕ UpkeepOp) :=
  [.inl (.addSubPool 0 (amount 0) 0), .inr (.lifecycle (.preInitDormantBucket 0 .long 80)),
    .inr (.lifecycle (.preInitDormantBucket 0 .long 70)),
    .inl (.operation (.open 0 .long (amount 100) (quoteAt (amount 100)))),
    .inl (.operation (.open 0 .short (amount 200) (quoteAt (amount 100)))),
    .inl (.operation (.sync 0 (quoteAt (amount 80)))),
    .inr (.lifecycle (.closeDormantBucket 0 .long 70)),
    .inl (.operation (.sync 0 (quoteAt (amount 90)))), .inr (.governance (.setPaused true)),
    .inr (.governance (.setPaused false)), .inl (.operation (.preSyncBucket 0 .long 80 0)),
    .inl (.operation (.claimRecovery 1 (quoteAt (amount 90)))),
    .inr (.governance (.bumpSchemaVersion 2)), .inr (.governance (.migratePosition 2))]

theorem upkeepRun_tidy : Along RuntimeOp.step UpkeepOp.apply RuntimeOp.Tidy upkeepRun
    (.new (smallAccount .lazy) true) :=
  ⟨rfl, .inl (by decide +kernel), .inl (by decide +kernel), .inl (by decide +kernel),
    .inl (by decide +kernel), .inl (by decide +kernel), .inl (by decide +kernel), trivial⟩

theorem upkeepRun_reads_back :
    let x := (trace RuntimeOp.step UpkeepOp.apply upkeepRun (.new (smallAccount .lazy) true)).2
    ∃ w : World, w.Reached ∧ w.subPool.subPoolId = 0 ∧
      x.buildCoreSubPool 0 = .ok w.subPool ∧ checkSubpoolInvariants w.subPool = .ok () := by
  have hall := runtime_reads_back (smallAccount .lazy) true upkeepRun upkeepRun_tidy
  have hzero : ((trace RuntimeOp.step UpkeepOp.apply upkeepRun
      (.new (smallAccount .lazy) true)).2.subPools.get? 0).isSome = true := by decide +kernel
  obtain ⟨account, hacc⟩ := Option.isSome_iff_exists.mp hzero
  exact hall.1 0 account hacc

end Hosted
end Runtime
end MoleFinance
