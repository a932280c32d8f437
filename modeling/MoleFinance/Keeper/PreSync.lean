import MoleFinance.Keeper.Executor
import MoleFinance.Chain.Coverage

/-! Whether the program takes the pre-sync instruction that the keeper builds. -/
namespace MoleFinance
open Borsh Codec Decoder TxCodec

section Codec
variable [Codec]

structure Addresses where
  subPool : Nat → Pubkey32
  ledger : Nat → Direction → Pubkey32
  bucket : BucketSeeds → Pubkey32

structure Decoder.OnchainDistEntry.Shows (x : OnchainDistEntry) (e : DistEntry) : Prop where
  eventIndex : x.eventIndex.toNat = e.eventIndex
  pAtEvent : x.pAtEvent.toNat = e.pAtEvent
  totalOutstandingAtEvent : x.totalOutstandingAtEvent.toNat = e.totalOutstandingAtEvent
  totalAllocInput : x.totalAllocInput.toNat = e.totalAllocInput
  allocatedSumObserved : x.allocatedSumObserved.toNat = e.allocatedSumObserved

structure Decoder.OnchainDistributionLedger.Shows (addr : Addresses)
    (x : OnchainDistributionLedger) (l : LedgerAccount) : Prop where
  subPool : x.subPool = addr.subPool l.subPool
  directionIsLong : x.directionIsLong = l.directionIsLong
  maxEntries : x.maxEntries.toNat = l.maxEntries
  gcOffset : x.gcOffset.toNat = l.gcOffset
  nextEventIndex : x.nextEventIndex.toNat = l.nextEventIndex
  accruedValueTotal : x.accruedValueTotal.toNat = l.accruedValueTotal
  pendingDistributionTotal : x.pendingDistributionTotal.toNat = l.pendingDistributionTotal
  entryCount : x.entryCount.toNat = l.entryCount
  entries : List.Forall₂ OnchainDistEntry.Shows x.entries l.entries

structure Decoder.OnchainDormantBucket.Shows (addr : Addresses) (x : OnchainDormantBucket)
    (b : BucketAccount) : Prop where
  subPool : x.subPool = addr.subPool b.subPool
  directionIsLong : x.directionIsLong = b.directionIsLong
  zeroPriceTick : x.zeroPriceTick.toInt = b.zeroPriceTick
  anchorPrice : x.anchorPrice.toNat = b.anchorPrice
  totalRecoveryShares : x.totalRecoveryShares.toNat = b.totalRecoveryShares
  totalRecoveryNotional : x.totalRecoveryNotional.toNat = b.totalRecoveryNotional
  accruedValue : x.accruedValue.toNat = b.accruedValue
  positionCount : x.positionCount.toNat = b.positionCount
  lastAppliedIndex : x.lastAppliedIndex.toNat = b.lastAppliedIndex

structure ChainSnapshot.ShowsAccounts (snap : ChainSnapshot) (addr : Addresses) (id : Nat)
    (s : SubPoolState) : Prop where
  subPool : ∃ sp, snap.subPools.get? id = some sp ∧ sp.Shows s.account
  ledger : ∀ d, Option.Rel (OnchainDistributionLedger.Shows addr)
    (snap.ledgers.get? (sideKey id d)) (s.dormant d).ledger
  ledgerPubkey : ∀ d, snap.ledgerPubkey id d = (s.dormant d).ledger.map fun _ => addr.ledger id d
  buckets : ∃ accounts,
    List.Forall₂ (OnchainDormantBucket.Shows addr) ((snap.buckets.get? id).getD []) accounts ∧
      accounts.Perm (s.long.buckets.values ++ s.short.buckets.values)
  bucketPubkey : ∀ d tick, snap.bucketPubkey id d tick =
    ((s.dormant d).buckets.get? tick).map fun _ => addr.bucket ⟨id, d.isLong, tick⟩

/-- An instruction the program can work with: it names as many long and short accounts as come
    after the fixed ones, the long ones first and no live bucket missing, so that they are split
    and unpacked. -/
def Program.TakesPreSync (st : Program) (addr : Addresses) (id : Nat) (s : SubPoolState)
    (dispatched : DispatchedAction) : Prop :=
  ∃ args longs shorts long short view,
    PreSyncArgs.read.run (dispatched.data.drop 8) = .ok (args, []) ∧
    dispatched.accounts.drop 6
      = (longs ++ shorts).map (fun seeds => AccountMeta.writable (addr.bucket seeds)) ∧
    (∀ seeds ∈ longs, seeds.directionIsLong = true) ∧
    (∀ seeds ∈ shorts, seeds.directionIsLong = false) ∧
    args.longBucketCount.toNat = longs.length ∧ args.shortBucketCount.toNat = shorts.length ∧
    (∀ b ∈ s.long.live, b.seeds ∈ longs) ∧ (∀ b ∈ s.short.live, b.seeds ∈ shorts) ∧
    st.loadBridged id ⟨longs ++ shorts, args.longBucketCount.toNat, args.shortBucketCount.toNat⟩
      = .ok (s, long, short) ∧
    Program.hydrate s.account long short = .ok view

section Build
variable [Codec.Lawful] {x : RpcExecutor} {id : Nat} {d : Direction} {tick : Int}
  {dispatched : DispatchedAction}

omit [Codec] [Codec.Lawful] in
theorem orMissing_ok {α : Type} {e : TxBuildError} {found : Option α} {a : α} :
    orMissing e found = .ok a ↔ found = some a := by
  cases found <;> simp [orMissing]

omit [Codec.Lawful] in
theorem buildPreSync_ok (h : x.buildPreSync id d tick = .ok dispatched) :
    (∃ pk, x.snapshot.bucketPubkey id d tick = some pk) ∧
    ∃ sp, x.snapshot.subPools.get? id = some sp ∧
      dispatched.data = encodePreSyncDormantBucketIx d.isLong tick sp.longDormantBucketCount
        sp.shortDormantBucketCount ∧
      dispatched.accounts.drop 6
        = (x.bucketPubkeys id .long ++ x.bucketPubkeys id .short).map .writable := by
  unfold RpcExecutor.buildPreSync at h
  obtain ⟨spPk, -, h⟩ := Call.except_bind_ok.mp h
  obtain ⟨longLg, -, h⟩ := Call.except_bind_ok.mp h
  obtain ⟨shortLg, -, h⟩ := Call.except_bind_ok.mp h
  obtain ⟨pk, hpk, h⟩ := Call.except_bind_ok.mp h
  obtain ⟨sp, hsp, h⟩ := Call.except_bind_ok.mp h
  cases h
  exact ⟨⟨pk, orMissing_ok.mp hpk⟩, sp, orMissing_ok.mp hsp, rfl, rfl⟩

omit [Codec] [Codec.Lawful] in
theorem mem_bucketPubkeys {pk : Pubkey32} :
    pk ∈ x.bucketPubkeys id d ↔ ∃ tick, x.snapshot.bucketPubkey id d tick = some pk := by
  unfold RpcExecutor.bucketPubkeys sortPubkeys ChainSnapshot.bucketPubkey
  rw [List.mem_mergeSort, List.mem_map]
  constructor
  · rintro ⟨⟨key, pk'⟩, hmem, rfl⟩
    obtain ⟨hentry, hkey⟩ := List.mem_filter.mp hmem
    rw [Bool.and_eq_true, beq_iff_eq, beq_iff_eq] at hkey
    obtain ⟨rfl, rfl⟩ := hkey
    exact ⟨key.tick, OrdMap.get?_eq_some.mpr hentry⟩
  · rintro ⟨tick, hget⟩
    refine ⟨(bucketKey id d tick, pk), List.mem_filter.mpr ⟨OrdMap.get?_eq_some.mp hget, ?_⟩, rfl⟩
    simp

theorem read_encodePreSync (isLong : Bool) (longCount shortCount : BitVec 32) :
    PreSyncArgs.read.run ((encodePreSyncDormantBucketIx isLong tick longCount shortCount).drop 8)
      = .ok (⟨isLong, .ofInt _ tick, longCount, shortCount⟩, []) := by
  have hread := (PreSyncArgs.mk isLong (.ofInt _ tick) longCount shortCount).consumes_serialize []
  rwa [List.append_nil] at hread

theorem buildPreSync_not_taken {st : Program} {addr : Addresses} {s : SubPoolState}
    (hu : st.Uncounted) (hs : st.subPools.get? id = some s)
    (hshown : x.snapshot.ShowsAccounts addr id s)
    (hbuild : x.buildPreSync id d tick = .ok dispatched) :
    ¬ st.TakesPreSync addr id s dispatched := by
  rintro ⟨args, longs, shorts, long, short, view, hread, haccounts, -, -, hlongs, hshorts, -⟩
  obtain ⟨⟨pk, hpk⟩, sp, hsp, hdata, hmetas⟩ := buildPreSync_ok hbuild
  obtain ⟨sp', hsp', hshows⟩ := hshown.subPool
  have hsame : sp = sp' := Option.some.inj (hsp.symm.trans hsp')
  subst hsame
  have hcounts := hu id s hs
  have hlongCount : sp.longDormantBucketCount.toNat = 0 :=
    hshows.longDormantBucketCount.trans (congrArg Prod.fst hcounts)
  have hshortCount : sp.shortDormantBucketCount.toNat = 0 :=
    hshows.shortDormantBucketCount.trans (congrArg Prod.snd hcounts)
  rw [hdata, read_encodePreSync] at hread
  cases hread
  have hnone : longs ++ shorts = [] := by
    rw [List.append_eq_nil_iff]
    exact ⟨List.length_eq_zero_iff.mp (hlongs.symm.trans hlongCount),
      List.length_eq_zero_iff.mp (hshorts.symm.trans hshortCount)⟩
  rw [hmetas, hnone, List.map_nil, List.map_eq_nil_iff, List.append_eq_nil_iff] at haccounts
  have hmem : pk ∈ x.bucketPubkeys id d := mem_bucketPubkeys.mpr ⟨tick, hpk⟩
  cases d with
  | long =>
    rw [haccounts.1] at hmem
    cases hmem
  | short =>
    rw [haccounts.2] at hmem
    cases hmem

end Build

/-- The program keeps both counts at zero, so that it takes no instruction with a bucket. -/
theorem preSync_never_taken [Codec.Lawful] (token : TokenProgram) (st : Program)
    (h : st.Reached token)
    (addr : Addresses) (id : Nat) (s : SubPoolState) (hs : st.subPools.get? id = some s)
    (snap : ChainSnapshot) (hshown : snap.ShowsAccounts addr id s)
    (programId market keeper clockSysvar systemProgram : Pubkey32) (d : Direction) (tick : Int)
    (pending : Nat) :
    ¬ ∃ dispatched,
      (RpcExecutor.new programId market keeper clockSysvar systemProgram snap).build
        (.preSyncDormantBucket id d tick pending) = .ok dispatched ∧
      st.TakesPreSync addr id s dispatched := by
  rintro ⟨dispatched, hbuild, htaken⟩
  exact buildPreSync_not_taken h.uncounted hs hshown hbuild htaken

end Codec

/-! A lazy market with one dormant bucket and an entry it has not applied. -/

section Backlogged

attribute [local instance] borsh borsh_lawful

def plainAddresses : Addresses where
  subPool id := arrayOf 32 (1 :: leBytes 8 id)
  ledger id d := arrayOf 32 (2 :: boolBytes d.isLong ++ leBytes 8 id)
  bucket seeds := arrayOf 32 (3 :: boolBytes seeds.directionIsLong ++
    leBytes 8 (BitVec.ofInt 64 seeds.zeroPriceTick).toNat ++ leBytes 8 seeds.subPool)

def Decoder.OnchainDistributionLedger.ofAccount (l : LedgerAccount) :
    OnchainDistributionLedger :=
  ⟨plainAddresses.subPool l.subPool, l.directionIsLong, .ofNat _ l.maxEntries, .ofNat _ l.gcOffset,
    .ofNat _ l.nextEventIndex, .ofNat _ l.accruedValueTotal, .ofNat _ l.pendingDistributionTotal,
    .ofNat _ l.entryCount, l.entries.map fun e => ⟨.ofNat _ e.eventIndex, .ofNat _ e.pAtEvent,
      .ofNat _ e.totalOutstandingAtEvent, .ofNat _ e.totalAllocInput,
      .ofNat _ e.allocatedSumObserved⟩, 0, .replicate 7 0⟩

def Decoder.OnchainDormantBucket.ofAccount (b : BucketAccount) : OnchainDormantBucket :=
  ⟨plainAddresses.subPool b.subPool, b.directionIsLong, .ofInt _ b.zeroPriceTick,
    .ofNat _ b.anchorPrice, .ofNat _ b.totalRecoveryShares, .ofNat _ b.totalRecoveryNotional,
    .ofNat _ b.accruedValue, .ofNat _ b.positionCount, .ofNat _ b.lastAppliedIndex, 0,
    .replicate 6 0⟩

/-- The long side was drained at 90 and is owed 55 at 95. -/
def backlogged : Program :=
  (chainRun 1 (longDrained ++ [publishPrice 95, .instruction (syncWith [90])])).2

def backloggedAccount : SubPoolAccount :=
  ⟨0, ⟨0, 0, 100, 0, 1, 0, 0⟩, ⟨145, 100, 0, 1000, 0, 0, 0⟩, 95, 7⟩

def backloggedBucket : BucketAccount :=
  ⟨longBucket 90, 0, true, 90, 90, 100, 1000, 0, 1, 0⟩

def backloggedLedger (d : Direction) : LedgerAccount :=
  match d with
  | .long => ⟨0, true, ⟨1024, smallLedger_lt⟩, 0, 1, 0, 55, 1, [⟨0, 95, 55, 55, 55⟩]⟩
  | .short => .init 0 false ⟨1024, smallLedger_lt⟩

def backloggedState : SubPoolState where
  account := backloggedAccount
  long := ⟨some (backloggedLedger .long), OrdMap.empty.insert 90 backloggedBucket⟩
  short := ⟨some (backloggedLedger .short), .empty⟩

theorem backlogged_state : backlogged.subPools.get? 0 = some backloggedState := by
  have hfields : (backlogged.subPools.get? 0).map (fun s => (s.account,
      (s.long.ledger, s.long.buckets), s.short.ledger, s.short.buckets))
      = some (backloggedState.account,
        (backloggedState.long.ledger, backloggedState.long.buckets),
        backloggedState.short.ledger, backloggedState.short.buckets) := by decide +kernel
  obtain ⟨⟨a, ⟨longLedger, longBuckets⟩, ⟨shortLedger, shortBuckets⟩⟩, hs, heq⟩ :=
    Option.map_eq_some_iff.mp hfields
  cases heq
  exact hs

def backloggedSnapshot : ChainSnapshot where
  market := none
  subPools := OrdMap.empty.insert 0 (.ofAccount backloggedAccount)
  buckets := OrdMap.empty.insert 0 [.ofAccount backloggedBucket]
  ledgers := (OrdMap.empty.insert (sideKey 0 .long) (.ofAccount (backloggedLedger .long))).insert
    (sideKey 0 .short) (.ofAccount (backloggedLedger .short))
  bucketPubkeys := OrdMap.empty.insert (bucketKey 0 .long 90)
    (plainAddresses.bucket (longBucket 90))
  ledgerPubkeys := (OrdMap.empty.insert (sideKey 0 .long) (plainAddresses.ledger 0 .long)).insert
    (sideKey 0 .short) (plainAddresses.ledger 0 .short)

theorem backlogged_shown : backloggedSnapshot.ShowsAccounts plainAddresses 0 backloggedState where
  subPool := ⟨.ofAccount backloggedAccount, OrdMap.get?_insert_self .., by constructor <;> decide⟩
  ledger d := by
    cases d with
    | long =>
      refine .some ⟨rfl, rfl, by decide, by decide, by decide, by decide, by decide, by decide, ?_⟩
      exact .cons (by constructor <;> decide) .nil
    | short =>
      exact .some ⟨rfl, rfl, by decide, by decide, by decide, by decide, by decide, by decide, .nil⟩
  ledgerPubkey d := by
    cases d with
    | long => rfl
    | short => rfl
  buckets := by
    refine ⟨[backloggedBucket], .cons ?_ .nil, .refl _⟩
    exact ⟨rfl, rfl, by decide, by decide, by decide, by decide, by decide, by decide, by decide⟩
  bucketPubkey d tick := by
    unfold ChainSnapshot.bucketPubkey backloggedSnapshot
    simp only [OrdMap.get?_insert, BucketKey.bucketKey_inj]
    cases d with
    | long =>
      by_cases htick : tick = 90
      · subst htick
        rfl
      · have hnone : (backloggedState.dormant .long).buckets.get? tick = none := by
          change (OrdMap.empty.insert 90 backloggedBucket).get? tick = none
          rw [OrdMap.get?_insert, if_neg htick]
          rfl
        rw [hnone, if_neg (fun h => htick h.2.2)]
        rfl
    | short =>
      rw [if_neg (fun h => Direction.noConfusion h.2.1)]
      rfl

theorem backlogged_never_taken :
    ¬ ∃ dispatched,
      (RpcExecutor.new (.replicate 32 9) (.replicate 32 8) (.replicate 32 7) (.replicate 32 6)
        (.replicate 32 0) backloggedSnapshot).build (.preSyncDormantBucket 0 .long 90 1)
          = .ok dispatched ∧
      backlogged.TakesPreSync plainAddresses 0 backloggedState dispatched :=
  preSync_never_taken splToken backlogged (chainRun_reached (by decide) _) plainAddresses 0
    backloggedState backlogged_state backloggedSnapshot backlogged_shown (.replicate 32 9)
    (.replicate 32 8) (.replicate 32 7) (.replicate 32 6) (.replicate 32 0) .long 90 1

/-- The scheduler asks for this pre-sync, and the program refuses what is built for it: one
    account, where the counts say none. -/
theorem presync_refused :
    ¬ (∀ (st : Program) (addr : Addresses) (id : Nat) (s : SubPoolState) (snap : ChainSnapshot)
        (scheduler scheduler' : Scheduler) (order : HintOrder) (actions : List KeeperAction)
        (programId market keeper clockSysvar systemProgram : Pubkey32) (d : Direction)
        (tick : Int) (pending : Nat),
      st.Reached splToken → st.subPools.get? id = some s → snap.ShowsAccounts addr id s →
      scheduler.plan order snap.view = .ok (actions, scheduler') →
      .preSyncDormantBucket id d tick pending ∈ actions →
      ∃ dispatched,
        (RpcExecutor.new programId market keeper clockSysvar systemProgram snap).build
          (.preSyncDormantBucket id d tick pending) = .ok dispatched ∧
        st.TakesPreSync addr id s dispatched) ∧
    (((RpcExecutor.new (.replicate 32 9) (.replicate 32 8) (.replicate 32 7) (.replicate 32 6)
        (.replicate 32 0) backloggedSnapshot).build (.preSyncDormantBucket 0 .long 90 1)).map
          (fun dispatched => (dispatched.data.drop 17, dispatched.accounts.drop 6))
      = .ok (leBytes 4 0 ++ leBytes 4 0,
        [.writable (plainAddresses.bucket (longBucket 90))])) ∧
    backlogged.splitRemainingBuckets ⟨[longBucket 90], 0, 0⟩
      = .error .dormantBridgeAccountMismatch := by
  refine ⟨fun hall => ?_, by decide +kernel, rfl⟩
  have hplan : ((Scheduler.new .default).plan .byKey backloggedSnapshot.view).map Prod.fst
      = .ok [.preSyncDormantBucket 0 .long 90 1] := by decide +kernel
  obtain ⟨⟨actions, scheduler⟩, hrun, rfl⟩ := Call.except_map_ok.mp hplan
  have hreached : backlogged.Reached splToken := chainRun_reached (by decide) _
  obtain ⟨dispatched, hbuild, htaken⟩ := hall backlogged plainAddresses 0 backloggedState
    backloggedSnapshot (.new .default) scheduler .byKey _ (.replicate 32 9) (.replicate 32 8)
    (.replicate 32 7) (.replicate 32 6) (.replicate 32 0) .long 90 1 hreached backlogged_state
    backlogged_shown hrun (List.mem_singleton.mpr rfl)
  exact buildPreSync_not_taken hreached.uncounted backlogged_state backlogged_shown hbuild htaken

end Backlogged

end MoleFinance
