import MoleFinance.Chain.Supply
import MoleFinance.Engine.Frame
import MoleFinance.Lib.Trace
import MoleFinance.Runtime.Atomic

/-! Strict and loose mode side by side: the same accounts in use, whatever dead ones strict mode
keeps around them. -/
namespace MoleFinance
open MoleMath Call Trace

theorem preSync_bucket {market : MarketParams} {s s' : SubPool} {d : Direction} {tick : Int}
    {slot : Nat} {out : PreSyncOutcome}
    (h : preSyncDormantBucket market s d tick slot = .ok (s', out)) :
    ∃ b, (s.side d).dormant.buckets.get? tick = some b := by
  unfold preSyncDormantBucket at h
  obtain ⟨_, -, h⟩ := except_bind_ok.mp h
  obtain ⟨_, -, h⟩ := except_bind_ok.mp h
  obtain ⟨before, hb, -⟩ := except_bind_ok.mp h
  unfold getBucket at hb
  cases hget : (s.side d).dormant.get tick with
  | none =>
    rw [hget] at hb
    cases hb
  | some b => exact ⟨b, hget⟩

namespace Runtime
namespace ChainRuntime
variable {α β : Type} {x y x' : ChainRuntime} {id : Nat} {d : Direction} {store : DormantStore}
  {core core' : SubPool} {account : SubPoolAccount} {ledger long short : DistributionLedgerAccount}

def live (x : ChainRuntime) : OrdMap BucketKey DormantBucketAccount :=
  x.buckets.filter (fun _ account => !account.record.isDead)

structure Shaped (x : ChainRuntime) : Prop where
  bucket : ∀ key account, x.buckets.get? key = some account →
    account.subPoolId = BucketKey.subPoolId key ∧
      account.record.direction = (BucketKey.direction key).byte ∧
      account.record.zeroPriceTick = BucketKey.tick key
  ledger : ∀ id d account, x.ledgers.get? (ledgerKey id d) = some account →
    account.ledger.direction = d.byte

theorem get?_live (x : ChainRuntime) (key : BucketKey) : x.live.get? key
    = (x.buckets.get? key).filter (fun account => !account.record.isDead) :=
  OrdMap.get?_filter _ _ key

/-! Reading: the engine sees the accounts in use only. -/

theorem mem_bucketsOf {r : OnChainBucketRecord} :
    r ∈ (x.bucketsOf id d).values.map (·.record) ↔
      ∃ key account, x.buckets.get? key = some account ∧ BucketKey.subPoolId key = id ∧
        BucketKey.direction key = d ∧ account.record = r := by
  simp only [OrdMap.values, List.map_map, List.mem_map, Prod.exists, ← OrdMap.get?_eq_some,
    bucketsOf, OrdMap.get?_filter, Option.filter_eq_some_iff, decide_eq_true_eq,
    Function.comp_apply, and_assoc]

theorem bucketsOf_live (x : ChainRuntime) (id : Nat) (d : Direction) :
    ((x.bucketsOf id d).values.map (·.record)).filter (fun r => !r.isDead)
      = (x.live.filter (fun key _ => BucketKey.subPoolId key = id ∧
          BucketKey.direction key = d)).values.map (·.record) := by
  simp only [bucketsOf, live, OrdMap.values, OrdMap.filter, List.map_map, List.filter_map,
    List.filter_filter]
  refine congrArg _ (List.filter_congr fun e _ => ?_)
  exact Bool.and_comm _ _

theorem Shaped.record_direction (h : x.Shaped)
    (hl : x.ledgers.get? (ledgerKey id d) = some ledger) :
    ∀ r ∈ (x.bucketsOf id d).values.map (·.record), r.direction = ledger.ledger.direction := by
  intro r hr
  obtain ⟨key, a, ha, -, rfl, rfl⟩ := mem_bucketsOf.mp hr
  exact (h.bucket key a ha).2.1.trans (h.ledger id _ ledger hl).symm

theorem unpackDormant_congr (hx : x.Shaped) (hy : y.Shaped) (hl : y.ledgers = x.ledgers)
    (hb : y.live = x.live) (id : Nat) (d : Direction) :
    y.unpackDormant id d = x.unpackDormant id d := by
  unfold unpackDormant
  rw [hl]
  cases hled : x.ledgers.get? (ledgerKey id d) with
  | none => rfl
  | some ledger =>
    have hled' : y.ledgers.get? (ledgerKey id d) = some ledger := hl ▸ hled
    simp only [unpackDormantStore_live (hx.record_direction hled),
      unpackDormantStore_live (hy.record_direction hled'), bucketsOf_live, hb]

theorem unpackDormant_direction (h : x.Shaped) (hu : x.unpackDormant id d = .ok store) :
    store.direction = d := by
  unfold unpackDormant at hu
  cases hl : x.ledgers.get? (ledgerKey id d) with
  | none => simp [hl] at hu
  | some ledger =>
    simp only [hl, clearing_ok] at hu
    have hbyte := (unpackDormantStore_ok hu).2.1
    exact Direction.byte_inj (hbyte.trans (h.ledger id d ledger hl))

theorem unpackDormant_contains (h : x.Shaped) (hu : x.unpackDormant id d = .ok store) {tick : Int}
    {b : DormantBucket} (hb : store.buckets.get? tick = some b) :
    x.buckets.contains (bucketKey id d tick) = true := by
  unfold unpackDormant at hu
  cases hl : x.ledgers.get? (ledgerKey id d) with
  | none => simp [hl] at hu
  | some ledger =>
    simp only [hl, clearing_ok] at hu
    have hrec : DormantStore.packBucket store.direction.byte tick b ∈ store.records :=
      List.mem_map.mpr ⟨(tick, b), OrdMap.get?_eq_some.mp hb, rfl⟩
    have hmem := (List.mem_filter.mp ((unpackDormantStore_ok hu).1.subset hrec)).1
    obtain ⟨key, a, ha, rfl, rfl, hr⟩ := mem_bucketsOf.mp hmem
    have htick := (h.bucket key a ha).2.2
    rw [hr] at htick
    have hkey : bucketKey (BucketKey.subPoolId key) (BucketKey.direction key) tick = key :=
      congrArg (bucketKey _ _) htick
    rw [hkey]
    exact OrdMap.contains_iff.mpr ⟨a, ha⟩

theorem built_dormant (hb : x.buildCoreSubPool id = .ok core) (d : Direction) :
    x.unpackDormant id d = .ok (core.side d).dormant := by
  obtain ⟨_, _, _, l, s, -, hl, hs, rfl⟩ := buildCore_ok hb
  cases d with
  | long => exact hl
  | short => exact hs

/-! Writing: both modes leave the same accounts in use. -/

theorem records_shape {r : OnChainBucketRecord} (h : r ∈ store.records) :
    r.direction = store.direction.byte := by
  obtain ⟨e, -, rfl⟩ := List.mem_map.mp h
  rfl

@[simp] theorem zeroRecord_isDead (r : OnChainBucketRecord) : (zeroRecord r).isDead = true := by
  unfold zeroRecord
  split_ifs with h
  · exact h
  · rfl

theorem get?_live_stored (h : x.Shaped) (hslot : x.Slotted id d store) (key : BucketKey) :
    (x.stored id d ledger store).live.get? key =
      if BucketKey.subPoolId key = id ∧ BucketKey.direction key = d then
        ((recordFor store.records (BucketKey.tick key)).filter (fun r => !r.isDead)).map (⟨id, ·⟩)
      else x.live.get? key := by
  rw [get?_live, get?_stored]
  split_ifs with hd hstrict
  · cases hr : recordFor store.records (BucketKey.tick key) with
    | none =>
      cases hk : x.buckets.get? key with
      | none => rfl
      | some a => simp [Option.filter]
    | some r =>
      obtain ⟨hmem, ht⟩ := mem_of_recordFor hr
      obtain ⟨a, ha⟩ := OrdMap.contains_iff.mp (hslot hstrict r hmem)
      have hkey : recordKey id d r = key := by
        rw [recordKey, ht, ← hd.1, ← hd.2]
        rfl
      rw [hkey] at ha
      have hid : a.subPoolId = id := (h.bucket key a ha).1.trans hd.1
      by_cases hdead : r.isDead = true
      · simp [ha, Option.filter, hdead]
      · simp [ha, Option.filter, hdead, hid]
  · cases recordFor store.records (BucketKey.tick key) with
    | none => rfl
    | some r =>
      by_cases hdead : r.isDead = true
      · simp [Option.filter, hdead]
      · simp [Option.filter, hdead]
  · exact (get?_live x key).symm

theorem Shaped.stored (h : x.Shaped) (hd : store.direction = d) :
    (x.stored id d ledger store).Shaped where
  bucket key a ha := by
    rw [get?_stored] at ha
    have hrec : ∀ r, recordFor store.records (BucketKey.tick key) = some r →
        r.direction = d.byte ∧ r.zeroPriceTick = BucketKey.tick key := by
      intro r hr
      obtain ⟨hmem, ht⟩ := mem_of_recordFor hr
      exact ⟨hd ▸ records_shape hmem, ht⟩
    split_ifs at ha with hk hstrict
    · obtain ⟨a', ha', rfl⟩ := Option.map_eq_some_iff.mp ha
      obtain ⟨hid, hdir, ht⟩ := h.bucket key a' ha'
      refine ⟨hid, ?_⟩
      cases hr : recordFor store.records (BucketKey.tick key) with
      | none =>
        unfold zeroRecord
        simp only [Option.getD_none]
        split_ifs
        · exact ⟨hdir, ht⟩
        · exact ⟨hdir, ht⟩
      | some r =>
        obtain ⟨hdir', ht'⟩ := hrec r hr
        exact ⟨hdir'.trans (congrArg _ hk.2.symm), ht'⟩
    · obtain ⟨r, hr, rfl⟩ := Option.map_eq_some_iff.mp ha
      obtain ⟨hdir', ht'⟩ := hrec r hr
      exact ⟨hk.1.symm, hdir'.trans (congrArg _ hk.2.symm), ht'⟩
    · exact h.bucket key a ha
  ledger i e a ha := by
    rw [stored_ledgers] at ha
    simp only [withLedger, OrdMap.get?_insert, ledgerKey_inj] at ha
    split_ifs at ha with hi
    · cases ha
      rw [hi.2]
      exact congrArg Direction.byte hd
    · exact h.ledger i e a ha

theorem Shaped.written (h : x.Shaped) (hd : ∀ d, (core.side d).dormant.direction = d) :
    (x.written id account long short core).Shaped := by
  have hs : ((x.stored id .long long core.long.dormant).stored id .short short
      core.short.dormant).Shaped := (h.stored (hd .long)).stored (hd .short)
  exact ⟨hs.bucket, hs.ledger⟩

structure SameView (x y : ChainRuntime) : Prop where
  market : y.market = x.market
  subPools : y.subPools = x.subPools
  ledgers : y.ledgers = x.ledgers
  positions : y.positions = x.positions
  vaultBalance : y.vaultBalance = x.vaultBalance
  feeVaultBalance : y.feeVaultBalance = x.feeVaultBalance
  totalDeposits : y.totalDeposits = x.totalDeposits
  totalWithdrawals : y.totalWithdrawals = x.totalWithdrawals
  nextPositionId : y.nextPositionId = x.nextPositionId
  live : y.live = x.live

theorem SameView.of_rest {y' : ChainRuntime} (h : SameView x y) (hx : x'.rest = x.rest)
    (hy : y'.rest = y.rest) (hs : y'.subPools = x'.subPools) (hl : y'.ledgers = x'.ledgers)
    (hb : y'.live = x'.live) : SameView x' y' := by
  have hx' : x.withAccounts x' = x' := withAccounts_of_rest hx.symm
  have hy' : y.withAccounts y' = y' := withAccounts_of_rest hy.symm
  rw [← hx', ← hy']
  exact { h with subPools := hs, ledgers := hl, live := hb }

structure Twin (x y : ChainRuntime) : Prop extends SameView x y where
  loose : y.strictPdaLifecycle = false
  shaped : x.Shaped
  shaped' : y.Shaped

namespace Twin

theorem built (h : Twin x y) (id : Nat) : y.buildCoreSubPool id = x.buildCoreSubPool id := by
  have hu := unpackDormant_congr h.shaped h.shaped' h.ledgers h.live id
  unfold buildCoreSubPool
  rw [h.subPools, hu .long, hu .short]

theorem wroteBack (h : Twin x y) (hw : x.WroteBack id core core' account long short) :
    y.WroteBack id core core' account long short where
  built := (h.built id).trans hw.built
  present := ⟨h.subPools ▸ hw.present.account, h.ledgers ▸ hw.present.long,
    h.ledgers ▸ hw.present.short⟩
  fits d := by
    refine ⟨?_, fun hs => ?_⟩
    · unfold Capped
      rw [h.market]
      exact (hw.fits d).1
    · rw [h.loose] at hs
      cases hs

theorem directions {m : Nat} (h : Twin x y) (hb : x.buildCoreSubPool id = .ok core)
    (hf : core.Framed m core') (d : Direction) : (core'.side d).dormant.direction = d :=
  (hf.sides d).direction_eq.trans (unpackDormant_direction h.shaped (built_dormant hb d))

theorem stored (h : Twin x y) (hslot : x.Slotted id d store) (hd : store.direction = d) :
    Twin (x.stored id d ledger store) (y.stored id d ledger store) := by
  have hloose : y.Slotted id d store := fun hs => by
    rw [h.loose] at hs
    cases hs
  refine ⟨.of_rest h.toSameView (stored_touches x id d ledger store).rest
    (stored_touches y id d ledger store).rest ?_ ?_ ?_, ?_, h.shaped.stored hd, h.shaped'.stored hd⟩
  · rw [stored_subPools, stored_subPools, h.subPools]
  · rw [stored_ledgers, stored_ledgers]
    simp only [withLedger, h.ledgers, h.market]
  · refine OrdMap.ext_get? fun key => ?_
    rw [get?_live_stored h.shaped' hloose, get?_live_stored h.shaped hslot, h.live]
  · rw [stored_strict, h.loose]

theorem putSubPool (h : Twin x y) (account : SubPoolAccount) :
    Twin (x.putSubPool account) (y.putSubPool account) where
  toSameView := { h.toSameView with
    subPools := congrArg (fun m => OrdMap.insert m account.subPoolId account) h.subPools }
  loose := h.loose
  shaped := ⟨h.shaped.bucket, h.shaped.ledger⟩
  shaped' := ⟨h.shaped'.bucket, h.shaped'.ledger⟩

theorem written (h : Twin x y) (hf : x.Fits id core')
    (hd : ∀ d, (core'.side d).dormant.direction = d) :
    Twin (x.written id account long short core') (y.written id account long short core') := by
  have hlong := @stored _ _ _ _ _ long h (hf .long).2 (hd .long)
  have hslot : (x.stored id .long long core'.long.dormant).Slotted id .short core'.short.dormant :=
    (stored_slotted (by decide) _).mpr (hf .short).2
  exact (hlong.stored hslot (hd .short)).putSubPool _

end Twin

/-! Every call of the strict runtime that returns, returns the same on its twin. -/

def Followed (m : MirrorM α) : Prop :=
  ∀ x y x' a, Twin x y → m x = .ok a x' → ∃ y', m y = .ok a y' ∧ Twin x' y'

theorem Followed.pure (a : α) : Followed (pure a : MirrorM α) := by
  intro x y x' b h hm
  cases hm
  exact ⟨y, rfl, h⟩

theorem Followed.map {m : MirrorM α} (h : Followed m) (f : α → β) :
    Followed (do return f (← m) : MirrorM β) := by
  intro x y x' b ht hm
  obtain ⟨a, z, ha, hb⟩ := bind_ok.mp hm
  obtain ⟨y', hy, ht'⟩ := h x y z a ht ha
  cases hb
  exact ⟨y', bind_of_ok hy _, ht'⟩

theorem payOut_followed (reason : String) (amount : Nat) : Followed (payOut reason amount) := by
  intro x y x' u h hp
  simp only [payOut, get_bind] at hp ⊢
  obtain ⟨_, hle, hp⟩ := orFail_bind_run_ok.mp hp
  obtain ⟨w, hw, hp⟩ := orFail_bind_run_ok.mp hp
  cases hp
  rw [h.vaultBalance, h.totalWithdrawals, hle, orFail_ok_bind, hw, orFail_ok_bind]
  exact ⟨_, rfl, { h.toSameView with vaultBalance := rfl, totalWithdrawals := rfl }, h.loose,
    ⟨h.shaped.bucket, h.shaped.ledger⟩, ⟨h.shaped'.bucket, h.shaped'.ledger⟩⟩

theorem sweep_followed (amount : Nat) : Followed (sweep amount) := by
  intro x y x' u h hp
  simp only [sweep, get_bind] at hp ⊢
  obtain ⟨_, hle, hp⟩ := orFail_bind_run_ok.mp hp
  obtain ⟨w, hw, hp⟩ := orFail_bind_run_ok.mp hp
  cases hp
  rw [h.vaultBalance, h.feeVaultBalance, hle, orFail_ok_bind, hw, orFail_ok_bind]
  exact ⟨_, rfl, { h.toSameView with vaultBalance := rfl, feeVaultBalance := rfl }, h.loose,
    ⟨h.shaped.bucket, h.shaped.ledger⟩, ⟨h.shaped'.bucket, h.shaped'.ledger⟩⟩

theorem bookDeposit_followed (gross : Nat) (out : OpenOutcome) :
    Followed (bookDeposit gross out) := by
  intro x y x' u h hp
  simp only [bookDeposit, get_bind] at hp ⊢
  obtain ⟨_, hle, hp⟩ := orFail_bind_run_ok.mp hp
  obtain ⟨v, hv, hp⟩ := orFail_bind_run_ok.mp hp
  obtain ⟨f, hf, hp⟩ := orFail_bind_run_ok.mp hp
  obtain ⟨t, ht, hp⟩ := orFail_bind_run_ok.mp hp
  cases hp
  rw [h.vaultBalance, h.feeVaultBalance, h.totalDeposits, hle, orFail_ok_bind, hv, orFail_ok_bind,
    hf, orFail_ok_bind, ht, orFail_ok_bind]
  exact ⟨_, rfl,
    { h.toSameView with vaultBalance := rfl, feeVaultBalance := rfl, totalDeposits := rfl },
    h.loose, ⟨h.shaped.bucket, h.shaped.ledger⟩, ⟨h.shaped'.bucket, h.shaped'.ledger⟩⟩

section Calls
variable {pay : α → MirrorM Unit}

theorem onSubPool_followed {call : MarketParams → SubPool → Except ClearingError (SubPool × α)}
    (hframe : ∀ m core core' out, call m core = .ok (core', out) →
      core.Framed m.maxDistributionLedgerSize core') (hpay : ∀ out, Followed (pay out)) :
    Followed (onSubPool id call pay) := by
  intro x y x' out h hm
  obtain ⟨core, core', account, long, short, hw, hc, hp⟩ := onSubPool_ok hm
  obtain ⟨y', hy, ht⟩ := hpay out _ _ _ _ (h.written hw.fits
    (h.directions hw.built (hframe _ _ _ _ hc))) hp
  have hw' := h.wroteBack hw
  refine ⟨y', ?_, ht⟩
  rw [onSubPool_accepted hw'.built (h.market.symm ▸ hc) hw'.fits hw'.present]
  exact bind_of_ok hy _

theorem onPosition_followed {k : Nat} {result : α → β}
    {call : MarketParams → SubPool → Position → Except ClearingError (SubPool × Position × α)}
    (hframe : ∀ m core p core' p' out, call m core p = .ok (core', p', out) →
      core.Framed m.maxDistributionLedgerSize core') (hpay : ∀ out, Followed (pay out)) :
    Followed (onPosition k call pay result) := by
  intro x y x' b h hm
  obtain ⟨held, core, core', account, long, short, p', out, hk, hw, hc, rfl, hp⟩ :=
    onPosition_ok hm
  have hwritten : Twin (x.written held.subPoolId account long short core')
      (y.written held.subPoolId account long short core') :=
    h.written hw.fits (h.directions hw.built (hframe _ _ _ _ _ _ hc))
  have hafter : Twin (x.afterCall k held account long short core' p')
      (y.afterCall k held account long short core' p') :=
    ⟨{ hwritten.toSameView with
        positions := by simp only [afterCall, h.positions] },
      hwritten.loose, ⟨hwritten.shaped.bucket, hwritten.shaped.ledger⟩,
      ⟨hwritten.shaped'.bucket, hwritten.shaped'.ledger⟩⟩
  obtain ⟨y', hy, ht⟩ := hpay out _ _ _ _ hafter hp
  have hw' := h.wroteBack hw
  refine ⟨y', ?_, ht⟩
  rw [onPosition_accepted (h.positions ▸ hk) hw'.built (h.market.symm ▸ hc) hw'.fits hw'.present]
  exact bind_of_ok hy _

theorem open_followed (id : Nat) (d : Direction) (gross : U64) (envelope : PriceEnvelope) :
    Followed (ChainRuntime.open id d gross envelope) := by
  intro x y x' out h hm
  obtain ⟨core, core', account, long, short, p, opened, hw, hroom, hc, rfl, hp⟩ := open_ok hm
  have hwritten : Twin (x.written id account long short core')
      (y.written id account long short core') :=
    h.written hw.fits (h.directions hw.built (openPosition_framed hc))
  have hafter : Twin (x.afterOpen id account long short core' p)
      (y.afterOpen id account long short core' p) :=
    ⟨{ hwritten.toSameView with
        positions := by simp only [afterOpen, h.positions, h.nextPositionId]
        nextPositionId := congrArg (· + 1) h.nextPositionId },
      hwritten.loose, ⟨hwritten.shaped.bucket, hwritten.shaped.ledger⟩,
      ⟨hwritten.shaped'.bucket, hwritten.shaped'.ledger⟩⟩
  obtain ⟨y', hy, ht⟩ := bookDeposit_followed gross opened _ _ _ _ hafter hp
  have hw' := h.wroteBack hw
  have hc' : openPosition y.market.params core envelope d gross y.nextPositionId
      = .ok (core', p, opened) := by rw [h.market, h.nextPositionId, hc]
  refine ⟨y', ?_, ht⟩
  rw [open_accepted (h.nextPositionId.symm ▸ hroom) hw'.built hc' hw'.fits hw'.present,
    h.nextPositionId]
  exact bind_of_ok hy _

theorem sync_followed (id : Nat) (envelope : PriceEnvelope) :
    Followed (ChainRuntime.sync id envelope) := by
  intro x y x' out h hm
  obtain ⟨core, core', account, long, short, hw, hc, rfl⟩ := sync_ok hm
  have hw' := h.wroteBack hw
  exact ⟨_, sync_accepted hw'.built (h.market.symm ▸ hc) hw'.fits hw'.present,
    h.written hw.fits (h.directions hw.built (syncPool_framed hc))⟩

theorem preSync_followed (id : Nat) (d : Direction) (tick : Int) (slot : Nat) :
    Followed (preSyncBucket id d tick slot) := by
  intro x y x' out h hm
  simp only [preSyncBucket, get_bind] at hm ⊢
  obtain ⟨_, -, hm⟩ := orFail_bind_run_ok.mp hm
  obtain ⟨core, core', account, long, short, hw, hc, -⟩ := onSubPool_ok hm
  obtain ⟨b, hb⟩ := preSync_bucket hc
  have hin : y.buckets.contains (bucketKey id d tick) = true :=
    unpackDormant_contains h.shaped' (built_dormant (h.wroteBack hw).built d) hb
  rw [ensure_of hin, orFail_ok_bind]
  exact onSubPool_followed (fun _ _ _ _ hc => preSync_framed hc) (fun _ => .pure ()) x y x' out h hm

end Calls

theorem preInit_twin (h : Twin x y) (id : Nat) (d : Direction) (tick : Int) :
    Twin (final (preInitDormantBucket id d tick x)) y := by
  cases preInitDormantBucket_cases x id d tick with
  | inl he =>
    obtain ⟨e, he⟩ := he
    rw [he]
    exact h
  | inr hr =>
    obtain ⟨-, hnone, hr⟩ := hr
    rw [hr]
    have hlive : (x.buckets.insert (bucketKey id d tick) ⟨id, deadRecord d tick⟩).filter
        (fun _ account => !account.record.isDead) = x.live :=
      OrdMap.filter_insert_other rfl fun w hw => by cases hnone.symm.trans hw
    refine ⟨{ h.toSameView with live := h.live.trans hlive.symm }, h.loose, ⟨?_, h.shaped.ledger⟩,
      h.shaped'⟩
    intro key account ha
    simp only [final, OrdMap.get?_insert] at ha
    split_ifs at ha with hk
    · cases ha
      subst hk
      exact ⟨rfl, rfl, rfl⟩
    · exact h.shaped.bucket key account ha

theorem close_twin (h : Twin x y) (id : Nat) (d : Direction) (tick : Int) :
    Twin (final (closeDormantBucket id d tick x)) y := by
  cases closeDormantBucket_cases x id d tick with
  | inl he =>
    obtain ⟨e, he⟩ := he
    rw [he]
    exact h
  | inr hr =>
    obtain ⟨bucket, ledger, hb, hdead, -, -, hr⟩ := hr
    rw [hr]
    have hlive : (x.buckets.erase (bucketKey id d tick)).filter
        (fun _ account => !account.record.isDead) = x.live :=
      OrdMap.filter_erase_other fun w hw => by
        cases hb.symm.trans hw
        simp [hdead]
    refine ⟨{ h.toSameView with live := h.live.trans hlive.symm }, h.loose, ⟨?_, h.shaped.ledger⟩,
      h.shaped'⟩
    intro key account ha
    simp only [final, OrdMap.get?_erase] at ha
    split_ifs at ha with hk
    exact h.shaped.bucket key account ha

theorem new_shaped (market : MarketAccount) (strict : Bool) : (new market strict).Shaped where
  bucket key account h := by cases h
  ledger i e account h := by cases h

theorem new_twin (market : MarketAccount) : Twin (new market true) (new market false) where
  toSameView := ⟨rfl, rfl, rfl, rfl, rfl, rfl, rfl, rfl, rfl, rfl⟩
  loose := rfl
  shaped := new_shaped market true
  shaped' := new_shaped market false

theorem addSubPool_shaped (h : x.Shaped) (id : Nat) (initPrice : U64) (initSlot : Nat) :
    (x.addSubPool id initPrice initSlot).Shaped where
  bucket := h.bucket
  ledger i d account ha := by
    simp only [addSubPool, OrdMap.get?_insert, ledgerKey_inj] at ha
    split_ifs at ha with hshort hlong
    · cases ha
      rw [hshort.2]
      rfl
    · cases ha
      rw [hlong.2]
      rfl
    · exact h.ledger i d account ha

theorem addSubPool_twin (h : Twin x y) (id : Nat) (initPrice : U64) (initSlot : Nat) :
    Twin (x.addSubPool id initPrice initSlot) (y.addSubPool id initPrice initSlot) where
  toSameView := { (h.putSubPool (.new id initPrice initSlot)).toSameView with
    ledgers := by simp only [addSubPool, h.ledgers, h.market] }
  loose := h.loose
  shaped := addSubPool_shaped h.shaped id initPrice initSlot
  shaped' := addSubPool_shaped h.shaped' id initPrice initSlot

end ChainRuntime

inductive RuntimeOp where
  | addSubPool (subPoolId : Nat) (initPrice : U64) (initSlot : Nat)
  | operation (op : MirrorOp)

def RuntimeOp.step : RuntimeOp → ChainRuntime →
    Except MirrorError (Option MirrorReply) × ChainRuntime
  | .addSubPool subPoolId initPrice initSlot, x =>
    (.ok none, x.addSubPool subPoolId initPrice initSlot)
  | .operation op, x => (some <$> (op.step x).1, (op.step x).2)

inductive LifecycleOp where
  | preInitDormantBucket (subPoolId : Nat) (direction : Direction) (tick : Int)
  | closeDormantBucket (subPoolId : Nat) (direction : Direction) (tick : Int)

def LifecycleOp.apply : LifecycleOp → ChainRuntime → ChainRuntime
  | .preInitDormantBucket subPoolId direction tick, x =>
    final (ChainRuntime.preInitDormantBucket subPoolId direction tick x)
  | .closeDormantBucket subPoolId direction tick, x =>
    final (ChainRuntime.closeDormantBucket subPoolId direction tick x)

theorem MirrorOp.call_followed (op : MirrorOp) : ChainRuntime.Followed op.call := by
  cases op with
  | «open» id d gross envelope => exact (ChainRuntime.open_followed id d gross envelope).map _
  | close k envelope =>
    exact (ChainRuntime.onPosition_followed (fun _ _ _ _ _ _ hc => closePosition_framed hc)
      fun out => ChainRuntime.payOut_followed _ _).map _
  | forceClose k envelope ack =>
    exact (ChainRuntime.onPosition_followed (fun _ _ _ _ _ _ hc => forceClose_framed hc)
      fun out => .pure ()).map _
  | claimRecovery k envelope =>
    exact (ChainRuntime.onPosition_followed (fun _ _ _ _ _ _ hc => claim_framed hc)
      fun out => ChainRuntime.payOut_followed _ _).map _
  | sync id envelope => exact (ChainRuntime.sync_followed id envelope).map _
  | preSyncBucket id d tick slot => exact (ChainRuntime.preSync_followed id d tick slot).map _
  | harvestDust id d =>
    exact (ChainRuntime.onSubPool_followed (fun _ _ _ _ hc => harvest_framed hc)
      fun out => ChainRuntime.sweep_followed _).map _

theorem RuntimeOp.step_twin (op : RuntimeOp) {x y : ChainRuntime} (h : x.Twin y)
    (hok : (op.step x).1.isOk = true) :
    (op.step x).1 = (op.step y).1 ∧ (op.step x).2.Twin (op.step y).2 := by
  cases op with
  | addSubPool id initPrice initSlot =>
    exact ⟨rfl, ChainRuntime.addSubPool_twin h id initPrice initSlot⟩
  | operation op =>
    simp only [step, MirrorOp.step] at hok ⊢
    cases hx : op.call x with
    | error e x' =>
      rw [hx] at hok
      cases hok
    | ok reply x' =>
      obtain ⟨y', hy, ht⟩ := op.call_followed x y x' reply h hx
      rw [hy]
      exact ⟨rfl, ht⟩

theorem LifecycleOp.apply_twin (op : LifecycleOp) {x y : ChainRuntime} (h : x.Twin y) :
    (op.apply x).Twin y := by
  cases op with
  | preInitDormantBucket id d tick => exact ChainRuntime.preInit_twin h id d tick
  | closeDormantBucket id d tick => exact ChainRuntime.close_twin h id d tick

/-- What strict mode accepts, loose mode accepts without the lifecycle calls: it answers the same
    and shows the same after every operation. -/
theorem strict_loose_agree (market : MarketAccount) (ops : List (RuntimeOp ⊕ LifecycleOp))
    (h : ∀ answer ∈ (trace RuntimeOp.step LifecycleOp.apply ops (.new market true)).1,
      answer.isOk = true) :
    (run RuntimeOp.step (visible ops) (.new market false)).1
      = (trace RuntimeOp.step LifecycleOp.apply ops (.new market true)).1 ∧
    ∀ before after, ops = before ++ after →
      ChainRuntime.SameView
        (trace RuntimeOp.step LifecycleOp.apply before (.new market true)).2
        (run RuntimeOp.step (visible before) (.new market false)).2 := by
  have hagree : ∀ part : List (RuntimeOp ⊕ LifecycleOp),
      (∀ answer ∈ (trace RuntimeOp.step LifecycleOp.apply part (.new market true)).1,
        answer.isOk = true) → _ := fun part hpart =>
    trace_refines (R := ChainRuntime.Twin) (D := fun _ _ => True)
      (fun op x y ht hok _ => op.step_twin ht hok) (fun op x y ht => op.apply_twin ht)
      (ChainRuntime.new_twin market) (along_of_answers hpart)
      (alongRun_forall.mpr fun _ _ => trivial)
  refine ⟨(hagree ops h).1.symm, fun before after hsplit => ?_⟩
  refine (hagree before fun answer ha => h answer ?_).2.toSameView
  rw [hsplit, trace_append]
  exact List.mem_append_left _ ha

/-- The long pool is wiped out at 80, its bucket earns 125 at 90 and is emptied and closed. -/
def lifecycleRun : List (RuntimeOp ⊕ LifecycleOp) :=
  [.inl (.addSubPool 0 (amount 0) 0), .inr (.preInitDormantBucket 0 .long 80),
    .inl (.operation (.open 0 .long (amount 100) (quoteAt (amount 100)))),
    .inl (.operation (.open 0 .short (amount 100) (quoteAt (amount 100)))),
    .inl (.operation (.sync 0 (quoteAt (amount 80)))),
    .inl (.operation (.sync 0 (quoteAt (amount 90)))),
    .inl (.operation (.claimRecovery 1 (quoteAt (amount 90)))),
    .inr (.closeDormantBucket 0 .long 80)]

theorem lifecycleRun_agrees :
    (run RuntimeOp.step (visible lifecycleRun) (.new (smallAccount .eager) false)).1
      = (trace RuntimeOp.step LifecycleOp.apply lifecycleRun (.new (smallAccount .eager) true)).1 ∧
    ChainRuntime.SameView
      (trace RuntimeOp.step LifecycleOp.apply lifecycleRun (.new (smallAccount .eager) true)).2
      (run RuntimeOp.step (visible lifecycleRun) (.new (smallAccount .eager) false)).2 := by
  have hagree := strict_loose_agree (smallAccount .eager) lifecycleRun (by decide +kernel)
  exact ⟨hagree.1, hagree.2 lifecycleRun [] (List.append_nil _).symm⟩

end Runtime
end MoleFinance
