import MoleFinance.Chain.Effect
import MoleFinance.Chain.Image
import MoleFinance.Engine.Stock
import MoleFinance.Engine.Frame

/-! What a bridged call has loaded when it returns. The recovery shares of the account pin the
buckets supplied down: the engine ends with a check that compares them with the buckets in
memory, and no engine call changes the gap between the two. -/
namespace MoleFinance
open MoleMath Call

namespace BridgedCall
variable {params : MarketParams} {sp sp' : SubPool} {call : BridgedCall} {outcome : BridgedOutcome}

theorem run_framed (h : call.run params sp = .ok (sp', outcome)) :
    sp.Framed params.maxDistributionLedgerSize sp' := by
  cases call with
  | sync e =>
    obtain ⟨⟨s, out⟩, hs, h⟩ := except_bind_ok.mp h
    cases h
    exact syncPool_framed hs
  | close e q =>
    obtain ⟨⟨s, p', out⟩, hs, h⟩ := except_bind_ok.mp h
    cases h
    exact closePosition_framed hs
  | forceClose e q ack =>
    obtain ⟨⟨s, p', out⟩, hs, h⟩ := except_bind_ok.mp h
    cases h
    exact forceClose_framed hs
  | claim e q =>
    obtain ⟨⟨s, p', out⟩, hs, h⟩ := except_bind_ok.mp h
    cases h
    exact claim_framed hs
  | preSync d tick slot =>
    obtain ⟨⟨s, out⟩, hs, h⟩ := except_bind_ok.mp h
    cases h
    exact preSync_framed hs

theorem run_checked (h : call.run params sp = .ok (sp', outcome)) :
    checkSubpoolInvariants sp' = .ok () := by
  cases call with
  | sync e =>
    obtain ⟨⟨s, out⟩, hs, h⟩ := except_bind_ok.mp h
    cases h
    exact (syncPool_ok hs).2.2
  | close e q =>
    obtain ⟨⟨s, p', out⟩, hs, h⟩ := except_bind_ok.mp h
    cases h
    obtain ⟨s1, s2, sync, p1, p2, p3, b, r, hc⟩ := closePosition_ok hs
    exact hc.checked
  | forceClose e q ack =>
    obtain ⟨⟨s, p', out⟩, hs, h⟩ := except_bind_ok.mp h
    cases h
    obtain ⟨s1, s2, s3, sync, p1, p2, p3, b, burned, removed, r, hc⟩ := forceClose_ok hs
    exact hc.checked
  | claim e q =>
    obtain ⟨⟨s, p', out⟩, hs, h⟩ := except_bind_ok.mp h
    cases h
    obtain ⟨s1, sync, p1, p2, b, tick, r, hc⟩ := claim_ok hs
    exact hc.checked
  | preSync d tick slot =>
    obtain ⟨⟨s, out⟩, hs, h⟩ := except_bind_ok.mp h
    cases h
    obtain ⟨n, dormant, -, -, hc⟩ := preSync_ok hs
    exact hc

theorem run_moved (hs : sp.Sound) (h : call.run params sp = .ok (sp', outcome)) :
    sp'.Sound ∧ sp'.value + outcome.paid = sp.value := by
  cases call with
  | sync e =>
    obtain ⟨⟨s, out⟩, hr, h⟩ := except_bind_ok.mp h
    cases h
    have hm := syncPool_moved hs hr
    exact ⟨hm.sound, hm.value_eq⟩
  | close e q =>
    obtain ⟨⟨s, p', out⟩, hr, h⟩ := except_bind_ok.mp h
    cases h
    have hm := closePosition_moved hs hr
    exact ⟨hm.sound, hm.value_eq⟩
  | forceClose e q ack =>
    obtain ⟨⟨s, p', out⟩, hr, h⟩ := except_bind_ok.mp h
    cases h
    have hm := forceClose_moved hs hr
    exact ⟨hm.1, hm.2.1⟩
  | claim e q =>
    obtain ⟨⟨s, p', out⟩, hr, h⟩ := except_bind_ok.mp h
    cases h
    have hm := claim_moved hs hr
    exact ⟨hm.sound, hm.value_eq⟩
  | preSync d tick slot =>
    obtain ⟨⟨s, out⟩, hr, h⟩ := except_bind_ok.mp h
    cases h
    have hm := preSync_moved hs hr
    exact ⟨hm.sound, hm.value_eq⟩

theorem run_stocked (hs : sp.Sound) (hst : sp.Stocked)
    (h : call.run params sp = .ok (sp', outcome)) : sp'.Stocked := by
  cases call with
  | sync e =>
    obtain ⟨⟨s, out⟩, hr, h⟩ := except_bind_ok.mp h
    cases h
    exact syncPool_stocked hs hst hr
  | close e q =>
    obtain ⟨⟨s, p', out⟩, hr, h⟩ := except_bind_ok.mp h
    cases h
    exact closePosition_stocked hs hst hr
  | forceClose e q ack =>
    obtain ⟨⟨s, p', out⟩, hr, h⟩ := except_bind_ok.mp h
    cases h
    exact forceClose_stocked hs hst hr
  | claim e q =>
    obtain ⟨⟨s, p', out⟩, hr, h⟩ := except_bind_ok.mp h
    cases h
    exact claim_stocked hs hst hr
  | preSync d tick slot =>
    obtain ⟨⟨s, out⟩, hr, h⟩ := except_bind_ok.mp h
    cases h
    exact preSync_stocked hs hst hr

end BridgedCall

theorem check_recovery {s : SubPool} (h : checkSubpoolInvariants s = .ok ()) (d : Direction) :
    (s.side d).dormant.totalRecoveryShares = (s.side d).recoveryShares := by
  unfold checkSubpoolInvariants at h
  obtain ⟨_, -, h⟩ := except_bind_ok.mp h
  obtain ⟨_, -, h⟩ := except_bind_ok.mp h
  obtain ⟨_, hl, h⟩ := except_bind_ok.mp h
  obtain ⟨_, hsh, -⟩ := except_bind_ok.mp h
  cases d with
  | long =>
    obtain ⟨_, -, he⟩ := except_bind_ok.mp hl
    exact ensure_ok.mp he
  | short =>
    obtain ⟨_, -, he⟩ := except_bind_ok.mp hsh
    exact ensure_ok.mp he

theorem BridgedCall.run_gapless {params : MarketParams} {sp sp' : SubPool} {call : BridgedCall}
    {outcome : BridgedOutcome} (h : call.run params sp = .ok (sp', outcome)) (d : Direction) :
    (sp.side d).dormant.totalRecoveryShares = (sp.side d).recoveryShares := by
  have hgap := ((run_framed h).sides d).gap_eq
  have hend := check_recovery (run_checked h) d
  omega

namespace DormantAccounts

def live (x : DormantAccounts) : List BucketAccount :=
  x.buckets.values.filter (fun b => !recordIsDead b)

def shares (x : DormantAccounts) : Nat := x.buckets.sum (fun _ b => b.totalRecoveryShares)

/-- Accounts of this sub-pool and direction at their own addresses; live buckets have shares. -/
structure Addressed (x : DormantAccounts) (key : Pubkey) (d : Direction) (maxEntries : U32) :
    Prop where
  ledger : ∀ l, x.ledger = some l →
    l.subPool = key ∧ l.directionIsLong = d.isLong ∧ l.maxEntries = maxEntries
  bucket : ∀ tick b, x.buckets.get? tick = some b →
    b.seeds = ⟨key, d.isLong, tick⟩ ∧ b.subPool = key ∧ b.directionIsLong = d.isLong
  stocked : ∀ tick b, x.buckets.get? tick = some b → recordIsDead b = false →
    0 < b.totalRecoveryShares

theorem mem_live {x : DormantAccounts} {b : BucketAccount} :
    b ∈ x.live ↔ (∃ tick, x.buckets.get? tick = some b) ∧ recordIsDead b = false := by
  unfold live OrdMap.values
  rw [List.mem_filter, List.mem_map]
  simp only [Bool.not_eq_true']
  refine and_congr_left fun _ => ⟨?_, ?_⟩
  · rintro ⟨⟨tick, c⟩, he, rfl⟩
    exact ⟨tick, OrdMap.get?_eq_some.mpr he⟩
  · rintro ⟨tick, ht⟩
    exact ⟨(tick, b), OrdMap.get?_eq_some.mp ht, rfl⟩

end DormantAccounts

theorem recordIsDead_shares {b : BucketAccount} (h : recordIsDead b = true) :
    b.totalRecoveryShares = 0 := by
  simp only [recordIsDead, Bool.and_eq_true, beq_iff_eq] at h
  exact h.1.1.1

theorem sum_shares_live (bs : List BucketAccount) :
    ((bs.filter (fun b => !recordIsDead b)).map (·.totalRecoveryShares)).sum
      = (bs.map (·.totalRecoveryShares)).sum := by
  induction bs with
  | nil => rfl
  | cons b bs ih =>
    by_cases hd : recordIsDead b = true
    · rw [List.filter_cons_of_neg (by simp [hd]), List.map_cons, List.sum_cons,
        recordIsDead_shares hd, ih, Nat.zero_add]
    · rw [List.filter_cons_of_pos (by simp [hd]), List.map_cons, List.map_cons, List.sum_cons,
        List.sum_cons, ih]

theorem DormantAccounts.shares_eq (x : DormantAccounts) :
    x.shares = (x.live.map (·.totalRecoveryShares)).sum := by
  unfold shares live OrdMap.sum OrdMap.values
  rw [sum_shares_live, List.map_map]
  rfl

theorem totalRecoveryShares_records (s : DormantStore) :
    s.totalRecoveryShares = (s.records.map (·.totalRecoveryShares)).sum := by
  unfold DormantStore.totalRecoveryShares DormantStore.records OrdMap.sum
  rw [List.map_map]
  rfl

theorem Direction.byte_inj {d e : Direction} (h : d.byte = e.byte) : d = e := by
  cases d <;> cases e <;> first | rfl | cases h

theorem collectRecords_ok {key : Pubkey} {d : Direction} {bs : List BucketAccount}
    {rs : List OnChainBucketRecord} (h : collectRecords key d bs = .ok rs) :
    ∀ b ∈ bs, b.subPool = key ∧ b.directionIsLong = d.isLong := by
  induction bs generalizing rs with
  | nil => simp
  | cons b bs ih =>
    rw [collectRecords] at h
    obtain ⟨_, hk, h⟩ := except_bind_ok.mp h
    obtain ⟨_, hd, h⟩ := except_bind_ok.mp h
    obtain ⟨records, hr, -⟩ := except_bind_ok.mp h
    exact List.forall_mem_cons.mpr ⟨⟨ensure_ok.mp hk, ensure_ok.mp hd⟩, ih hr⟩

def LedgerAccount.image (ledger : LedgerAccount) (d : Direction) : OnChainLedger where
  direction := d.byte
  maxEntries := ledger.maxEntries
  gcOffset := ledger.gcOffset
  nextEventIndex := ledger.nextEventIndex
  accruedValueTotal := ledger.accruedValueTotal
  pendingDistributionTotal := ledger.pendingDistributionTotal
  entryCount := ledger.entryCount
  entries := ledger.entries

theorem records_alive {d : Direction} (bs : List BucketAccount) :
    ((bs.filter (fun b => !recordIsDead b)).map (·.record d.byte)).filter (fun r => !r.isDead)
      = (bs.filter (fun b => !recordIsDead b)).map (·.record d.byte) := by
  refine List.filter_eq_self.mpr fun r hr => ?_
  obtain ⟨b, hb, rfl⟩ := List.mem_map.mp hr
  exact (List.mem_filter.mp hb).2

theorem unpackDirection_ok {ledger : LedgerAccount} {bs : List BucketAccount} {key : Pubkey}
    {d : Direction} {store : DormantStore} (h : unpackDirection ledger bs key d = .ok store) :
    (∀ b ∈ bs, b.subPool = key ∧ b.directionIsLong = d.isLong) ∧ store.direction = d ∧
      store.records.Perm ((bs.filter (fun b => !recordIsDead b)).map (·.record d.byte)) ∧
      unpackDormantStore ((bs.filter (fun b => !recordIsDead b)).map (·.record d.byte))
        (ledger.image d) = .ok store := by
  unfold unpackDirection at h
  obtain ⟨_, -, h⟩ := except_bind_ok.mp h
  obtain ⟨_, -, h⟩ := except_bind_ok.mp h
  obtain ⟨records, hr, h⟩ := except_bind_ok.mp h
  obtain ⟨s, hs, h⟩ := except_bind_ok.mp h
  obtain ⟨_, -, h⟩ := except_bind_ok.mp h
  cases h
  have hown := collectRecords_ok hr
  rw [collectRecords_eq hown] at hr
  cases hr
  have hs := engine_ok.mp hs
  obtain ⟨hp, hd, -⟩ := unpackDormantStore_ok hs
  rw [records_alive] at hp
  exact ⟨hown, Direction.byte_inj hd, hp, hs⟩

namespace DormantAccounts

/-- The accounts a call was given, as copies of those stored, and the store they unpack to. -/
structure Loaded (x : DormantAccounts) (key : Pubkey) (d : Direction) (side : BridgedSide)
    (store : DormantStore) : Prop where
  ledger : x.ledger = some side.ledger
  supplied : ∀ b ∈ side.buckets, x.buckets.get? b.seeds.zeroPriceTick = some b
  unpacked : unpackDirection side.ledger side.buckets key d = .ok store

variable {x : DormantAccounts} {key : Pubkey} {d : Direction} {side : BridgedSide}
  {store : DormantStore}

theorem Loaded.live_subperm (h : x.Loaded key d side store) :
    (side.buckets.filter (fun b => !recordIsDead b)).Subperm x.live := by
  obtain ⟨-, -, hp, -⟩ := unpackDirection_ok h.unpacked
  have hticks : (store.records.map (·.zeroPriceTick)).Nodup :=
    records_ticks store ▸ store.buckets.keys_nodup
  have hn := ((hp.map (·.zeroPriceTick)).nodup_iff).mp hticks
  rw [List.map_map] at hn
  refine List.subperm_of_subset (List.Nodup.of_map _ hn) fun b hb => ?_
  obtain ⟨hmem, hlive⟩ := List.mem_filter.mp hb
  exact mem_live.mpr ⟨⟨_, h.supplied b hmem⟩, by simpa using hlive⟩

theorem Loaded.total_eq (h : x.Loaded key d side store) : store.totalRecoveryShares =
    ((side.buckets.filter (fun b => !recordIsDead b)).map (·.totalRecoveryShares)).sum := by
  obtain ⟨-, -, hp, -⟩ := unpackDirection_ok h.unpacked
  rw [totalRecoveryShares_records, (hp.map (·.totalRecoveryShares)).sum_nat, List.map_map]
  rfl

/-- As many shares in memory as in the accounts: no live account is missing. -/
theorem Loaded.live_perm (h : x.Loaded key d side store)
    (hx : ∀ tick b, x.buckets.get? tick = some b → recordIsDead b = false →
      0 < b.totalRecoveryShares) (hle : x.shares ≤ store.totalRecoveryShares) :
    (side.buckets.filter (fun b => !recordIsDead b)).Perm x.live := by
  refine perm_of_subperm_weight (·.totalRecoveryShares) h.live_subperm (fun b hb => ?_) ?_
  · obtain ⟨⟨tick, ht⟩, hl⟩ := mem_live.mp hb
    exact hx tick b ht hl
  · rw [← x.shares_eq, ← h.total_eq]
    exact hle

end DormantAccounts

namespace BridgedSide

def of (d : Direction) (long short : BridgedSide) : BridgedSide :=
  match d with
  | .long => long
  | .short => short

end BridgedSide

namespace Program

def Placed (st : Program) : Prop :=
  ∀ id s, st.subPools.get? id = some s → s.account.subPoolId = id ∧
    ∀ d, (s.dormant d).Addressed id d st.market.maxDistributionLedgerSize

theorem Placed.bucketAt_seeds {st : Program} (h : st.Placed) {seeds : BucketSeeds}
    {b : BucketAccount} (hb : st.bucketAt seeds = some b) :
    b.seeds = seeds ∧ b.subPool = seeds.subPool ∧
      b.directionIsLong = seeds.directionIsLong := by
  obtain ⟨s, hs, hb⟩ := Option.bind_eq_some_iff.mp hb
  have hbucket := ((h seeds.subPool s hs).2 _).bucket _ b hb
  rwa [Direction.ofIsLong_isLong] at hbucket

theorem Placed.loadBuckets_seeds {st : Program} (h : st.Placed) {seeds : List BucketSeeds}
    {bs : List BucketAccount} (hb : st.loadBuckets seeds = .ok bs) :
    bs.map (·.seeds) = seeds ∧ ∀ b ∈ bs, st.bucketAt b.seeds = some b := by
  induction seeds generalizing bs with
  | nil =>
    cases hb
    exact ⟨rfl, by simp⟩
  | cons seed seeds ih =>
    rw [loadBuckets] at hb
    obtain ⟨b, hf, hb⟩ := except_bind_ok.mp hb
    obtain ⟨rest, hr, hb⟩ := except_bind_ok.mp hb
    cases hb
    obtain ⟨hseeds, hat⟩ := ih hr
    have hf := found_ok.mp hf
    have hown := (h.bucketAt_seeds hf).1
    exact ⟨by rw [List.map_cons, hown, hseeds],
      List.forall_mem_cons.mpr ⟨hown.symm ▸ hf, hat⟩⟩

/-- Copies that passed the owner check of a direction are accounts of that direction. -/
theorem Placed.supplied {st : Program} (h : st.Placed) {id : Nat} {s : SubPoolState}
    (hs : st.subPools.get? id = some s) {d : Direction} {bs : List BucketAccount}
    (hat : ∀ b ∈ bs, st.bucketAt b.seeds = some b)
    (hown : ∀ b ∈ bs, b.subPool = id ∧ b.directionIsLong = d.isLong) :
    ∀ b ∈ bs, (s.dormant d).buckets.get? b.seeds.zeroPriceTick = some b := by
  intro b hb
  have hloc := hat b hb
  obtain ⟨-, hsub, hdir⟩ := h.bucketAt_seeds hloc
  obtain ⟨hid, hd⟩ := hown b hb
  rw [bucketAt, ← hsub, hid, hs, Option.bind_some, ← hdir, hd,
    Direction.isLong_ofIsLong] at hloc
  exact hloc

theorem BridgedRun.sides {st st' : Program} {id : Nat} {remaining : RemainingAccounts}
    {call : BridgedCall} {outcome : BridgedOutcome} {s : SubPoolState} {long short : BridgedSide}
    {view view' : SubPool} {long' short' : BridgedSide} (hp : st.Placed)
    (h : st.BridgedRun id remaining call st' outcome s long short view view' long' short') :
    st.subPools.get? id = some s ∧ s.account.key = id ∧
      long.buckets.map (·.seeds) ++ short.buckets.map (·.seeds) = remaining.accounts ∧
      ∀ d, (s.dormant d).Loaded id d (.of d long short) (view.side d).dormant ∧
        (view.side d).recoveryShares = (s.account.side d).recoveryShares := by
  have hl := h.loaded
  unfold loadBridged at hl
  obtain ⟨s0, hs, hl⟩ := except_bind_ok.mp hl
  obtain ⟨ll, hll, hl⟩ := except_bind_ok.mp hl
  obtain ⟨sl, hsl, hl⟩ := except_bind_ok.mp hl
  obtain ⟨⟨longs, shorts⟩, hsplit, hl⟩ := except_bind_ok.mp hl
  cases hl
  unfold splitRemainingBuckets at hsplit
  obtain ⟨_, -, hsplit⟩ := except_bind_ok.mp hsplit
  obtain ⟨ls, hls, hsplit⟩ := except_bind_ok.mp hsplit
  obtain ⟨ss, hss, hsplit⟩ := except_bind_ok.mp hsplit
  cases hsplit
  have hs := found_ok.mp hs
  have hkey : s.account.key = id := (hp id s hs).1
  have hv := h.hydrated
  unfold hydrate at hv
  obtain ⟨ld, hld, hv⟩ := except_bind_ok.mp hv
  obtain ⟨sd, hsd, hv⟩ := except_bind_ok.mp hv
  cases hv
  rw [hkey] at hld hsd
  obtain ⟨hlseeds, hlat⟩ := hp.loadBuckets_seeds hls
  obtain ⟨hsseeds, hsat⟩ := hp.loadBuckets_seeds hss
  refine ⟨hs, hkey, ?_, fun d => ?_⟩
  · rw [hlseeds, hsseeds, List.take_append_drop]
  · cases d with
    | long =>
      refine ⟨⟨found_ok.mp hll, ?_, hld⟩, rfl⟩
      exact hp.supplied hs hlat (unpackDirection_ok hld).1
    | short =>
      refine ⟨⟨found_ok.mp hsl, ?_, hsd⟩, rfl⟩
      exact hp.supplied hs hsat (unpackDirection_ok hsd).1

end Program

end MoleFinance
