import MoleFinance.Runtime.HarnessParity

/-! What an accepted operation of the runtime has written: the accounts of one sub-pool, after one
engine call on the world they stand for. No bucket account ever gets ahead of its ledger. -/
namespace MoleFinance
open MoleMath Call Trace

namespace Runtime
namespace ChainRuntime
variable {α β : Type} {x x' y : ChainRuntime} {id : Nat} {d : Direction} {store : DormantStore}
  {core core' : SubPool} {account : SubPoolAccount} {ledger long short : DistributionLedgerAccount}

theorem unpackDormant_head (hu : x.unpackDormant id d = .ok store)
    (hl : x.ledgers.get? (ledgerKey id d) = some ledger) :
    ledger.ledger.nextEventIndex = store.nextEventIndex := by
  unfold unpackDormant at hu
  rw [hl] at hu
  simp only [clearing_ok] at hu
  exact (unpackDormantStore_ok hu).2.2.2.2.2.2.1.symm

theorem record_behind (h : store.Inv) {r : OnChainBucketRecord} (hr : r ∈ store.records) :
    r.lastAppliedIndex ≤ store.nextEventIndex := by
  obtain ⟨e, he, rfl⟩ := List.mem_map.mp hr
  exact (h.bucketOk e.1 e.2 (OrdMap.get?_eq_some.mpr he)).le_next

@[simp] theorem zeroRecord_lastAppliedIndex (r : OnChainBucketRecord) :
    (zeroRecord r).lastAppliedIndex = r.lastAppliedIndex := by
  unfold zeroRecord
  split_ifs <;> rfl

/-- Every account belongs to a sub-pool, and no bucket account is ahead of its ledger. -/
structure Indexed (x : ChainRuntime) : Prop where
  owned : ∀ id d ledger, x.ledgers.get? (ledgerKey id d) = some ledger →
    ∃ account, x.subPools.get? id = some account
  lodged : ∀ id d tick a, x.buckets.get? (bucketKey id d tick) = some a →
    ∃ account, x.subPools.get? id = some account
  behind : ∀ id d tick a, x.buckets.get? (bucketKey id d tick) = some a →
    ∃ ledger, x.ledgers.get? (ledgerKey id d) = some ledger ∧
      a.record.lastAppliedIndex ≤ ledger.ledger.nextEventIndex

/-- The engine has moved on: its stores are in order and no ledger went back. -/
structure Advanced (core core' : SubPool) : Prop where
  inv : ∀ d, (core'.side d).dormant.Inv
  head_le : ∀ d, (core.side d).dormant.nextEventIndex ≤ (core'.side d).dormant.nextEventIndex

/-- The accounts of one sub-pool were read, and written after an engine call. -/
inductive Wrote (x y : ChainRuntime) : Prop where
  | intro (id : Nat) (core core' : SubPool) (account : SubPoolAccount)
      (long short : DistributionLedgerAccount)
      (wrote : x.WroteBack id core core' account long short) (advanced : Advanced core core')
      (subPools : y.subPools = (x.written id account long short core').subPools)
      (buckets : y.buckets = (x.written id account long short core').buckets)
      (ledgers : y.ledgers = (x.written id account long short core').ledgers)

theorem Indexed.of_accounts (h : x.Indexed) (hs : y.subPools = x.subPools)
    (hb : y.buckets = x.buckets) (hl : y.ledgers = x.ledgers) : y.Indexed := by
  obtain ⟨howned, hlodged, hbehind⟩ := h
  constructor
  · rwa [hs, hl]
  · rwa [hs, hb]
  · rwa [hb, hl]

theorem Wrote.indexed (hw : Wrote x y) (h : x.Indexed) : y.Indexed := by
  cases hw with
  | intro id core core' account long short hw hadv hs hb hl =>
    refine Indexed.of_accounts (x := x.written id account long short core') ?_ hs hb hl
    have htouch := written_touches hw.present core'
    have hthere : ∃ b, (x.written id account long short core').subPools.get? id = some b := by
      have hkey : account.subPoolId = id := x.keyed id account hw.present.account
      refine ⟨account.writeBack core', ?_⟩
      simp only [written, putSubPool, SubPoolAccount.writeBack, hkey, OrdMap.get?_insert_self]
    constructor
    · intro i d ledger hled
      by_cases hi : i = id
      · subst hi
        exact hthere
      · rw [htouch.subPools i hi]
        exact h.owned i d ledger (htouch.ledgers i d hi ▸ hled)
    · intro i d tick a ha
      by_cases hi : i = id
      · subst hi
        exact hthere
      · rw [htouch.subPools i hi]
        exact h.lodged i d tick a (htouch.buckets (bucketKey i d tick) hi ▸ ha)
    · intro i d tick a ha
      by_cases hi : i = id
      · subst hi
        obtain ⟨ledger, hled, himage⟩ := @ledger_written x i core' account long short d
        refine ⟨ledger, hled, ?_⟩
        rw [himage]
        show a.record.lastAppliedIndex ≤ (core'.side d).dormant.nextEventIndex
        have hmem : ∀ r, recordFor (core'.side d).dormant.records tick = some r →
            r.lastAppliedIndex ≤ (core'.side d).dormant.nextEventIndex :=
          fun r hr => record_behind (hadv.inv d) (mem_of_recordFor hr).1
        rw [get?_written] at ha
        split_ifs at ha
        · obtain ⟨b, hb, rfl⟩ := Option.map_eq_some_iff.mp ha
          cases hr : recordFor (core'.side d).dormant.records tick with
          | some r => exact hmem r hr
          | none =>
            obtain ⟨old, hold, hle⟩ := h.behind i d tick b hb
            have hhead := unpackDormant_head (built_dormant hw.built d) hold
            simp only [Option.getD_none, zeroRecord_lastAppliedIndex]
            exact (hhead ▸ hle).trans (hadv.head_le d)
        · obtain ⟨r, hr, rfl⟩ := Option.map_eq_some_iff.mp ha
          exact hmem r hr
      · rw [htouch.buckets (bucketKey i d tick) hi] at ha
        rw [htouch.ledgers i d hi]
        exact h.behind i d tick a ha

end ChainRuntime

section Calls
variable {ι α β : Type} {h : Harness ι} {x x' y : ChainRuntime} {ids : List Nat} {id k : Nat}
  {core core' : SubPool} {account : SubPoolAccount} {long short : DistributionLedgerAccount}
  {op : EngineOp}

theorem Paired.hosts (hp : Paired ids h y) (ht : x.Twin y)
    (hw : x.WroteBack id core core' account long short) : h.subPools.get? id = some core := by
  cases hs : h.subPools.get? id with
  | none =>
    have hnone := hp.parallel.absent id hs
    rw [ht.subPools, hw.present.account] at hnone
    cases hnone
  | some s =>
    have hb := (hp.parallel.subPool id s hs).built
    rw [ht.built, hw.built] at hb
    cases hb
    rfl

theorem Paired.params (hp : Paired ids h y) (ht : x.Twin y) : x.market.params = h.market :=
  (congrArg MarketAccount.params ht.market).symm.trans hp.parallel.market

theorem Paired.advanced {w' : World} {reply : Reply} (hp : Paired ids h y)
    (hs : h.subPools.get? id = some core)
    (hc : op.call h.market (h.world id core) = some (.ok (w', reply))) :
    ChainRuntime.Advanced core w'.subPool := by
  have hhoused := hp.hosting.housed id core hs
  have hinv := (hhoused.call hc).reached.inv
  exact ⟨fun d => (hinv.sound d).1, fun d => op.call_head hhoused.reached.inv hinv hc d⟩

/-- Payments leave the accounts of the sub-pools alone. -/
def SparesAccounts (m : MirrorM α) : Prop :=
  ∀ x y a, m x = .ok a y → y.subPools = x.subPools ∧ y.buckets = x.buckets ∧ y.ledgers = x.ledgers

theorem SparesAccounts.pure (a : α) : SparesAccounts (pure a : MirrorM α) := by
  intro x y b h
  cases h
  exact ⟨rfl, rfl, rfl⟩

theorem payOut_spares (reason : String) (amount : Nat) :
    SparesAccounts (ChainRuntime.payOut reason amount) := by
  intro x y a h
  simp only [ChainRuntime.payOut, get_bind] at h
  obtain ⟨_, -, h⟩ := orFail_bind_run_ok.mp h
  obtain ⟨_, -, h⟩ := orFail_bind_run_ok.mp h
  cases h
  exact ⟨rfl, rfl, rfl⟩

theorem sweep_spares (amount : Nat) : SparesAccounts (ChainRuntime.sweep amount) := by
  intro x y a h
  simp only [ChainRuntime.sweep, get_bind] at h
  obtain ⟨_, -, h⟩ := orFail_bind_run_ok.mp h
  obtain ⟨_, -, h⟩ := orFail_bind_run_ok.mp h
  cases h
  exact ⟨rfl, rfl, rfl⟩

theorem bookDeposit_spares (gross : Nat) (out : OpenOutcome) :
    SparesAccounts (ChainRuntime.bookDeposit gross out) := by
  intro x y a h
  simp only [ChainRuntime.bookDeposit, get_bind] at h
  obtain ⟨_, -, h⟩ := orFail_bind_run_ok.mp h
  obtain ⟨_, -, h⟩ := orFail_bind_run_ok.mp h
  obtain ⟨_, -, h⟩ := orFail_bind_run_ok.mp h
  obtain ⟨_, -, h⟩ := orFail_bind_run_ok.mp h
  cases h
  exact ⟨rfl, rfl, rfl⟩

theorem onPosition_wrote (hp : Paired ids h y) (ht : x.Twin y)
    {call : MarketParams → SubPool → Position → Except ClearingError (SubPool × Position × α)}
    {reply : Position → α → Reply} {pay : α → MirrorM Unit} {result : α → β} {b : β}
    (hop : ∀ market w p, w.positions.get? k = some p → op.call market w
      = some (w.withPosition k reply <$> call market w.subPool p))
    (hpay : ∀ out, SparesAccounts (pay out))
    (hm : ChainRuntime.onPosition k call pay result x = .ok b x') : x.Wrote x' := by
  obtain ⟨held, core, core', account, long, short, p', out, hk, hw, hc, -, hpaid⟩ :=
    ChainRuntime.onPosition_ok hm
  have hget := hp.parallel.position k
  rw [ht.positions, hk] at hget
  obtain ⟨p, hpos, rfl⟩ := Option.map_eq_some_iff.mp hget.symm
  have hs := hp.hosts ht hw
  have hcall : op.call h.market (h.world p.subPoolId core)
      = some (.ok (⟨core', (h.world p.subPoolId core).positions.insert k p'⟩, reply p' out)) := by
    rw [hop _ _ p (Harness.world_get? hpos core)]
    exact congrArg (fun r => some (_ <$> r)) (hp.params ht ▸ hc)
  obtain ⟨hs', hb', hl'⟩ := hpay out _ _ _ hpaid
  exact ⟨_, core, core', account, long, short, hw, hp.advanced hs hcall, hs', hb', hl'⟩

theorem subPool_wrote (hp : Paired ids h y) (ht : x.Twin y)
    (call : MarketParams → SubPool → Except ClearingError (SubPool × α))
    {reply : α → Reply} {out : α}
    (hop : ∀ market w, op.call market w = some (w.withSubPool reply <$> call market w.subPool))
    (hw : x.WroteBack id core core' account long short)
    (hc : call x.market.params core = .ok (core', out))
    (hx : x'.subPools = (x.written id account long short core').subPools ∧
      x'.buckets = (x.written id account long short core').buckets ∧
      x'.ledgers = (x.written id account long short core').ledgers) : x.Wrote x' := by
  have hs := hp.hosts ht hw
  have hcall : op.call h.market (h.world id core)
      = some (.ok ({ h.world id core with subPool := core' }, reply out)) := by
    rw [hop]
    exact congrArg (fun r => some (_ <$> r)) (hp.params ht ▸ hc)
  exact ⟨_, core, core', account, long, short, hw, hp.advanced hs hcall, hx.1, hx.2.1, hx.2.2⟩

theorem onSubPool_wrote (hp : Paired ids h y) (ht : x.Twin y)
    {call : MarketParams → SubPool → Except ClearingError (SubPool × α)}
    {reply : α → Reply} {pay : α → MirrorM Unit} {out : α}
    (hop : ∀ market w, op.call market w = some (w.withSubPool reply <$> call market w.subPool))
    (hpay : ∀ out, SparesAccounts (pay out))
    (hm : ChainRuntime.onSubPool id call pay x = .ok out x') : x.Wrote x' := by
  obtain ⟨core, core', account, long, short, hw, hc, hpaid⟩ := ChainRuntime.onSubPool_ok hm
  exact subPool_wrote hp ht call hop hw hc (hpay out _ _ _ hpaid)

theorem sync_wrote (hp : Paired ids h y) (ht : x.Twin y) {envelope : PriceEnvelope}
    {out : SyncOutcome} (hm : ChainRuntime.sync id envelope x = .ok out x') : x.Wrote x' := by
  obtain ⟨core, core', account, long, short, hw, hc, rfl⟩ := ChainRuntime.sync_ok hm
  have hop : ∀ market w, EngineOp.call market w (.sync envelope)
      = some (w.withSubPool .synced <$> syncPool market w.subPool envelope) :=
    fun _ _ => rfl
  exact subPool_wrote hp ht (syncPool · · envelope) hop hw hc ⟨rfl, rfl, rfl⟩

theorem open_wrote (hp : Paired ids h y) (ht : x.Twin y) {d : Direction} {gross : U64}
    {envelope : PriceEnvelope} {out : OpenSummary}
    (hm : ChainRuntime.open id d gross envelope x = .ok out x') : x.Wrote x' := by
  obtain ⟨core, core', account, long, short, p, opened, hw, -, hc, -, hpaid⟩ :=
    ChainRuntime.open_ok hm
  have hs := hp.hosts ht hw
  have hnext : x.nextPositionId = h.nextPositionId :=
    ht.nextPositionId.symm.trans hp.parallel.nextPositionId
  have hfree : ¬ (h.world id core).positions.contains h.nextPositionId = true := by
    have hnew : h.positions.get? h.nextPositionId = none := by
      cases hk : h.positions.get? h.nextPositionId with
      | none => rfl
      | some q => exact absurd (hp.hosting.fresh _ q hk) (lt_irrefl _)
    simp [OrdMap.contains, Harness.world, OrdMap.get?_filter, hnew]
  rw [hp.params ht, hnext] at hc
  have hcall : EngineOp.call h.market (h.world id core)
      (.open envelope d gross ⟨h.nextPositionId, hp.balanced.next_lt⟩)
      = some (.ok (⟨core', (h.world id core).positions.insert h.nextPositionId p⟩,
        .opened p opened)) := by
    simp only [EngineOp.call, if_neg hfree]
    exact congrArg (fun r => some (_ <$> r)) hc
  obtain ⟨hs', hb', hl'⟩ := bookDeposit_spares _ _ _ _ _ hpaid
  exact ⟨_, core, core', account, long, short, hw, hp.advanced hs hcall, hs', hb', hl'⟩

theorem preSyncBucket_wrote (hp : Paired ids h y) (ht : x.Twin y) {d : Direction} {tick : Int}
    {slot : Nat} {out : PreSyncOutcome}
    (hm : ChainRuntime.preSyncBucket id d tick slot x = .ok out x') : x.Wrote x' := by
  simp only [ChainRuntime.preSyncBucket, get_bind] at hm
  obtain ⟨_, -, hm⟩ := orFail_bind_run_ok.mp hm
  have hop : ∀ market w, EngineOp.call market w (.preSync d tick slot) = some
      (w.withSubPool .preSynced <$> preSyncDormantBucket market w.subPool d tick slot) :=
    fun _ _ => rfl
  exact onSubPool_wrote hp ht hop (fun _ => .pure ()) hm

theorem MirrorOp.wrote (hp : Paired ids h y) (ht : x.Twin y) {op : MirrorOp} {reply : MirrorReply}
    (hm : op.call x = .ok reply x') : x.Wrote x' := by
  cases op with
  | «open» id d gross envelope =>
    obtain ⟨out, z, hm, hz⟩ := bind_ok.mp hm
    cases hz
    exact open_wrote hp ht hm
  | close k envelope =>
    obtain ⟨out, z, hm, hz⟩ := bind_ok.mp hm
    cases hz
    have hop : ∀ market w p, OrdMap.get? w.positions k = some p →
        EngineOp.call market w (.close envelope k)
          = some (w.withPosition k .closed <$> closePosition market w.subPool envelope p) := by
      intro market w p hk
      simp only [EngineOp.call, hk, Option.map_some]
    exact onPosition_wrote hp ht hop (fun out => payOut_spares _ _) hm
  | forceClose k envelope ack =>
    obtain ⟨out, z, hm, hz⟩ := bind_ok.mp hm
    cases hz
    have hop : ∀ market w p, OrdMap.get? w.positions k = some p →
        EngineOp.call market w (.forceClose envelope k ack)
          = some (w.withPosition k .forceClosed <$>
          forceCloseZeroValuePosition market w.subPool envelope p ack) := by
      intro market w p hk
      simp only [EngineOp.call, hk, Option.map_some]
    exact onPosition_wrote hp ht hop (fun _ => .pure ()) hm
  | claimRecovery k envelope =>
    obtain ⟨out, z, hm, hz⟩ := bind_ok.mp hm
    cases hz
    have hop : ∀ market w p, OrdMap.get? w.positions k = some p →
        EngineOp.call market w (.claim envelope k) = some
          (w.withPosition k .claimed <$> claimDormantRecovery market w.subPool envelope p) := by
      intro market w p hk
      simp only [EngineOp.call, hk, Option.map_some]
    exact onPosition_wrote hp ht hop (fun out => payOut_spares _ _) hm
  | sync id envelope =>
    obtain ⟨out, z, hm, hz⟩ := bind_ok.mp hm
    cases hz
    exact sync_wrote hp ht hm
  | preSyncBucket id d tick slot =>
    obtain ⟨out, z, hm, hz⟩ := bind_ok.mp hm
    cases hz
    exact preSyncBucket_wrote hp ht hm
  | harvestDust id d =>
    obtain ⟨out, z, hm, hz⟩ := bind_ok.mp hm
    cases hz
    have hop : ∀ market w, EngineOp.call market w (.harvest d)
        = some (w.withSubPool .harvested <$> MoleFinance.harvestDust market w.subPool d) :=
      fun _ _ => rfl
    exact onSubPool_wrote hp ht hop (fun out => sweep_spares _) hm

end Calls
end Runtime
end MoleFinance
