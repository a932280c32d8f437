import MoleFinance.Chain.Invariant
import MoleFinance.Runtime.Accounts
import Mathlib.Data.List.TakeWhile

/-! What a write-back does: which accounts it may change, when it is accepted, what the accounts
hold then, and that a restored snapshot takes all of it back. -/
namespace MoleFinance
open MoleMath Call

namespace Runtime

theorem SideAccount.view_of (x : Side) : (SideAccount.of x).view x.dormant = x := by
  have hlog : (x.rotateLog.map RotateRecordAccount.of).map (·.record) = x.rotateLog := by
    rw [List.map_map]
    exact List.map_id _
  cases x
  simp only [SideAccount.view, SideAccount.of, Side.mk.injEq, true_and]
  exact hlog

def recordKey (subPoolId : Nat) (direction : Direction) (r : OnChainBucketRecord) : BucketKey :=
  bucketKey subPoolId direction r.zeroPriceTick

theorem recordKey_inj {sp : Nat} {d : Direction} {r r' : OnChainBucketRecord} :
    recordKey sp d r = recordKey sp d r' ↔ r.zeroPriceTick = r'.zeroPriceTick := by
  simp [recordKey, BucketKey.bucketKey_inj]

@[simp] theorem ledgerKey_inj {sp sp' : Nat} {d d' : Direction} :
    ledgerKey sp d = ledgerKey sp' d' ↔ sp = sp' ∧ d = d' := by
  constructor
  · intro h
    exact ⟨congrArg (fun k => (ofLex k).1) h, congrArg (fun k => (ofLex k).2) h⟩
  · rintro ⟨rfl, rfl⟩
    rfl

@[ext] theorem ChainRuntime.ext_fields {x y : ChainRuntime} (hm : x.market = y.market)
    (hs : x.subPools = y.subPools) (hb : x.buckets = y.buckets) (hl : x.ledgers = y.ledgers)
    (hp : x.positions = y.positions) (hv : x.vaultBalance = y.vaultBalance)
    (hf : x.feeVaultBalance = y.feeVaultBalance) (hd : x.totalDeposits = y.totalDeposits)
    (hw : x.totalWithdrawals = y.totalWithdrawals) (hn : x.nextPositionId = y.nextPositionId)
    (hst : x.strictPdaLifecycle = y.strictPdaLifecycle) : x = y := by
  cases x
  cases y
  simp_all

namespace ChainRuntime
variable {x y z : ChainRuntime} {id : Nat} {d : Direction} {store : DormantStore}

def rest (x : ChainRuntime) : ChainRuntime :=
  { x with subPools := .empty, buckets := .empty, ledgers := .empty, keyed := keyed_empty }

def withAccounts (x y : ChainRuntime) : ChainRuntime :=
  { x with subPools := y.subPools, buckets := y.buckets, ledgers := y.ledgers, keyed := y.keyed }

theorem withAccounts_of_rest (h : y.rest = x.rest) : y.withAccounts x = x := by
  have hm := congrArg ChainRuntime.market h
  have hp := congrArg ChainRuntime.positions h
  have hv := congrArg ChainRuntime.vaultBalance h
  have hf := congrArg ChainRuntime.feeVaultBalance h
  have hd := congrArg ChainRuntime.totalDeposits h
  have hw := congrArg ChainRuntime.totalWithdrawals h
  have hn := congrArg ChainRuntime.nextPositionId h
  have hs := congrArg ChainRuntime.strictPdaLifecycle h
  exact ext_fields hm rfl rfl rfl hp hv hf hd hw hn hs

/-- At most the accounts of one sub-pool changed. -/
structure Touches (id : Nat) (x y : ChainRuntime) : Prop where
  rest : y.rest = x.rest
  subPools : ∀ i, i ≠ id → y.subPools.get? i = x.subPools.get? i
  buckets : ∀ key, BucketKey.subPoolId key ≠ id → y.buckets.get? key = x.buckets.get? key
  ledgers : ∀ i e, i ≠ id → y.ledgers.get? (ledgerKey i e) = x.ledgers.get? (ledgerKey i e)

namespace Touches

theorem refl (id : Nat) (x : ChainRuntime) : Touches id x x :=
  ⟨rfl, fun _ _ => rfl, fun _ _ => rfl, fun _ _ _ => rfl⟩

theorem trans (h : Touches id x y) (h' : Touches id y z) : Touches id x z where
  rest := h'.rest.trans h.rest
  subPools := fun i hi => (h'.subPools i hi).trans (h.subPools i hi)
  buckets := fun key hk => (h'.buckets key hk).trans (h.buckets key hk)
  ledgers := fun i e hi => (h'.ledgers i e hi).trans (h.ledgers i e hi)

theorem withBuckets {bs : OrdMap BucketKey DormantBucketAccount}
    (h : ∀ key, BucketKey.subPoolId key ≠ id → bs.get? key = x.buckets.get? key) :
    Touches id x { x with buckets := bs } :=
  ⟨rfl, fun _ _ => rfl, h, fun _ _ _ => rfl⟩

theorem strict_eq (h : Touches id x y) : y.strictPdaLifecycle = x.strictPdaLifecycle := by
  have hs := congrArg ChainRuntime.strictPdaLifecycle h.rest
  exact hs

theorem market_eq (h : Touches id x y) : y.market = x.market := by
  have hm := congrArg ChainRuntime.market h.rest
  exact hm

end Touches

theorem restore_touched {snap : SubPoolSnapshot} (hs : x.snapshotSubPool id = some snap)
    (h : Touches id x y) : restoreSubPool snap y = y.withAccounts x := by
  unfold snapshotSubPool at hs
  obtain ⟨long, hlong, hs⟩ := Option.bind_eq_some_iff.mp hs
  obtain ⟨short, hshort, hs⟩ := Option.bind_eq_some_iff.mp hs
  obtain ⟨account, hacc, hs⟩ := Option.bind_eq_some_iff.mp hs
  cases hs
  have hid := x.keyed id account hacc
  refine ext_fields rfl ?_ ?_ ?_ rfl rfl rfl rfl rfl rfl rfl
  · refine OrdMap.ext_get? fun i => ?_
    simp only [restoreSubPool, putSubPool, withAccounts, OrdMap.get?_insert, hid]
    split_ifs with hi
    · rw [hi, hacc]
    · exact h.subPools i hi
  · simp only [restoreSubPool, withAccounts, hid]
    exact OrdMap.insertAll_filter fun key hk => h.buckets key (of_decide_eq_false hk)
  · refine OrdMap.ext_get? fun key => ?_
    obtain ⟨i, e, rfl⟩ : ∃ i e, key = ledgerKey i e := ⟨(ofLex key).1, (ofLex key).2, rfl⟩
    simp only [restoreSubPool, withAccounts, OrdMap.get?_insertAll_entries, OrdMap.get?_insert,
      ledgerKey_inj]
    by_cases hi : i = id
    · cases e with
      | long => simp [hi, hlong]
      | short => simp [hi, hshort]
    · simp only [hi, false_and, if_false]
      exact h.ledgers i e hi

theorem restore_self {snap : SubPoolSnapshot} (hs : x.snapshotSubPool id = some snap) :
    restoreSubPool snap x = x := restore_touched hs (.refl id x)

theorem zeroLeftovers_touches (x : ChainRuntime) (id : Nat) (d : Direction) (placed : List Int) :
    Touches id x (x.zeroLeftovers id d placed) := by
  refine .withBuckets fun key hk => ?_
  rw [OrdMap.get?_mapVal]
  cases x.buckets.get? key with
  | none => rfl
  | some account => simp [hk]

def recordFor (rs : List OnChainBucketRecord) (tick : Int) : Option OnChainBucketRecord :=
  rs.find? (fun r => r.zeroPriceTick = tick)

theorem recordFor_none {rs : List OnChainBucketRecord} {tick : Int} :
    recordFor rs tick = none ↔ tick ∉ rs.map (·.zeroPriceTick) := by
  simp [recordFor]

theorem mem_of_recordFor {rs : List OnChainBucketRecord} {tick : Int} {r : OnChainBucketRecord}
    (h : recordFor rs tick = some r) : r ∈ rs ∧ r.zeroPriceTick = tick := by
  unfold recordFor at h
  exact ⟨List.mem_of_find?_eq_some h, by simpa using List.find?_some h⟩

theorem recordFor_some {rs : List OnChainBucketRecord} (hn : (rs.map (·.zeroPriceTick)).Nodup)
    {tick : Int} {r : OnChainBucketRecord} :
    recordFor rs tick = some r ↔ r ∈ rs ∧ r.zeroPriceTick = tick := by
  refine ⟨mem_of_recordFor, ?_⟩
  rintro ⟨hr, rfl⟩
  cases hf : recordFor rs r.zeroPriceTick with
  | none => exact absurd (List.mem_map_of_mem hr) (recordFor_none.mp hf)
  | some r' =>
    obtain ⟨hr', ht⟩ := mem_of_recordFor hf
    rw [List.inj_on_of_nodup_map hn hr' hr ht]

theorem get?_writeBucketsLoose (x : ChainRuntime) (id : Nat) (d : Direction)
    {rs : List OnChainBucketRecord} (hn : (rs.map (·.zeroPriceTick)).Nodup) (key : BucketKey) :
    (x.writeBucketsLoose id d rs).buckets.get? key =
      if key.subPoolId = id ∧ key.direction = d then (recordFor rs key.tick).map (⟨id, ·⟩)
      else x.buckets.get? key := by
  have hmem : ∀ w, (key, w) ∈ rs.map (fun r => (bucketKey id d r.zeroPriceTick,
      DormantBucketAccount.mk id r)) ↔ (key.subPoolId = id ∧ key.direction = d) ∧
        ∃ r, recordFor rs key.tick = some r ∧ w = ⟨id, r⟩ := by
    intro w
    rw [List.mem_map]
    constructor
    · rintro ⟨r, hr, he⟩
      cases he
      exact ⟨⟨rfl, rfl⟩, r, (recordFor_some hn).mpr ⟨hr, rfl⟩, rfl⟩
    · rintro ⟨⟨rfl, rfl⟩, r, hr, rfl⟩
      obtain ⟨hr, ht⟩ := (recordFor_some hn).mp hr
      exact ⟨r, hr, by rw [ht]; rfl⟩
  have hkeys : ((rs.map (fun r => (bucketKey id d r.zeroPriceTick,
      DormantBucketAccount.mk id r))).map Prod.fst).Nodup := by
    rw [List.map_map]
    refine (List.Nodup.of_map _ hn).map_on fun r hr r' hr' he => ?_
    exact List.inj_on_of_nodup_map hn hr hr' (recordKey_inj.mp he)
  have hin : key ∈ (rs.map (fun r => (bucketKey id d r.zeroPriceTick,
      DormantBucketAccount.mk id r))).map Prod.fst ↔
        (key.subPoolId = id ∧ key.direction = d) ∧ key.tick ∈ rs.map (·.zeroPriceTick) := by
    rw [List.mem_map]
    constructor
    · rintro ⟨⟨k, w⟩, hw, rfl⟩
      obtain ⟨hk, r, hr, -⟩ := (hmem w).mp hw
      obtain ⟨hr, ht⟩ := (recordFor_some hn).mp hr
      exact ⟨hk, ht ▸ List.mem_map_of_mem hr⟩
    · rintro ⟨hk, ht⟩
      obtain ⟨r, hr, ht⟩ := List.mem_map.mp ht
      exact ⟨(key, ⟨id, r⟩), (hmem _).mpr ⟨hk, r, (recordFor_some hn).mpr ⟨hr, ht⟩, rfl⟩, rfl⟩
  apply Option.ext
  intro a
  rw [writeBucketsLoose, OrdMap.get?_insertAll hkeys, hmem, hin, OrdMap.get?_filter,
    Option.filter_eq_some_iff]
  split_ifs with hk
  · rw [Option.map_eq_some_iff]
    constructor
    · rintro (⟨-, r, hr, rfl⟩ | ⟨hout, -, hkeep⟩)
      · exact ⟨r, hr, rfl⟩
      · have hout' : key.tick ∉ rs.map (·.zeroPriceTick) := fun ht => hout ⟨hk, ht⟩
        simp [hk.1, hk.2] at hkeep
        exact absurd hkeep (by simpa using hout')
    · rintro ⟨r, hr, rfl⟩
      exact .inl ⟨hk, r, hr, rfl⟩
  · constructor
    · rintro (⟨hk', -⟩ | ⟨-, ha, -⟩)
      · exact absurd hk' hk
      · exact ha
    · intro ha
      refine .inr ⟨fun h => hk h.1, ha, ?_⟩
      simp only [Bool.not_eq_true', decide_eq_false_iff_not]
      exact fun h => hk ⟨h.1, h.2.1⟩

theorem writeBucketsLoose_touches (x : ChainRuntime) (id : Nat) (d : Direction)
    {rs : List OnChainBucketRecord} (hn : (rs.map (·.zeroPriceTick)).Nodup) :
    Touches id x (x.writeBucketsLoose id d rs) := by
  refine .withBuckets fun key hk => ?_
  have hget := get?_writeBucketsLoose x id d hn key
  rwa [if_neg fun h => hk h.1] at hget

/-! Strict mode: the records with an account, up to the first one without. -/

def slotted (x : ChainRuntime) (id : Nat) (d : Direction) (rs : List OnChainBucketRecord) :
    List OnChainBucketRecord :=
  rs.takeWhile (fun r => x.buckets.contains (recordKey id d r))

theorem slotted_eq_self {rs : List OnChainBucketRecord} : x.slotted id d rs = rs ↔
    ∀ r ∈ rs, x.buckets.contains (recordKey id d r) = true := List.takeWhile_eq_self_iff

/-- The accounts with these records written. -/
def refreshed (x : ChainRuntime) (id : Nat) (d : Direction) (rs : List OnChainBucketRecord) :
    ChainRuntime :=
  { x with
    buckets := x.buckets.mapVal (fun key account =>
      if key.subPoolId = id ∧ key.direction = d then
        { account with record := (recordFor rs key.tick).getD account.record }
      else account) }

theorem refreshed_nil (x : ChainRuntime) (id : Nat) (d : Direction) : x.refreshed id d [] = x := by
  refine ext_fields rfl rfl (OrdMap.ext_get? fun key => ?_) rfl rfl rfl rfl rfl rfl rfl rfl
  simp only [refreshed, OrdMap.get?_mapVal]
  cases x.buckets.get? key with
  | none => rfl
  | some account => simp [recordFor]

def withRecord (x : ChainRuntime) (id : Nat) (d : Direction) (slot : DormantBucketAccount)
    (r : OnChainBucketRecord) : ChainRuntime :=
  { x with
    buckets := x.buckets.insert (recordKey id d r) { slot with record := r } }

theorem refreshed_cons {r : OnChainBucketRecord} {rs : List OnChainBucketRecord}
    (hr : r.zeroPriceTick ∉ rs.map (·.zeroPriceTick)) {slot : DormantBucketAccount}
    (hslot : x.buckets.get? (recordKey id d r) = some slot) :
    (x.withRecord id d slot r).refreshed id d rs = x.refreshed id d (r :: rs) := by
  refine ext_fields rfl rfl (OrdMap.ext_get? fun key => ?_) rfl rfl rfl rfl rfl rfl rfl rfl
  simp only [refreshed, withRecord, OrdMap.get?_mapVal, OrdMap.get?_insert]
  by_cases hk : key = recordKey id d r
  · subst hk
    rw [if_pos rfl, hslot]
    have hnone : recordFor rs r.zeroPriceTick = none := recordFor_none.mpr hr
    have hsome : recordFor (r :: rs) r.zeroPriceTick = some r := by simp [recordFor]
    simp [recordKey, hnone, hsome]
  · rw [if_neg hk]
    cases x.buckets.get? key with
    | none => rfl
    | some account =>
      by_cases hd : key.subPoolId = id ∧ key.direction = d
      · have ht : ¬ r.zeroPriceTick = key.tick := by
          intro ht
          apply hk
          rw [recordKey, ht, ← hd.1, ← hd.2]
          rfl
        have hskip : recordFor (r :: rs) key.tick = recordFor rs key.tick := by
          simp [recordFor, ht]
        simp only [Option.map_some, hskip]
      · simp only [Option.map_some, if_neg hd]

theorem placeRecords_eq {rs : List OnChainBucketRecord} (hn : (rs.map (·.zeroPriceTick)).Nodup) :
    placeRecords id d rs x = if x.slotted id d rs = rs then .ok () (x.refreshed id d rs)
      else .error (.bucketSlotExhausted id d) (x.refreshed id d (x.slotted id d rs)) := by
  induction rs generalizing x with
  | nil =>
    rw [refreshed_nil]
    rfl
  | cons r rs ih =>
    obtain ⟨hr, hns⟩ := List.nodup_cons.mp hn
    cases hslot : x.buckets.get? (recordKey id d r) with
    | none =>
      have hno : x.slotted id d (r :: rs) = [] := by
        simp [slotted, OrdMap.contains, hslot]
      have hplace : placeRecords id d (r :: rs) x = .error (.bucketSlotExhausted id d) x := by
        rw [recordKey] at hslot
        simp only [placeRecords, get_bind, hslot]
        rfl
      rw [hno, if_neg (List.cons_ne_nil r rs).symm, refreshed_nil, hplace]
    | some slot =>
      have hcons : x.slotted id d (r :: rs) = r :: x.slotted id d rs := by
        simp [slotted, OrdMap.contains, hslot]
      have hsame : (x.withRecord id d slot r).slotted id d rs = x.slotted id d rs := by
        refine congrArg (fun p => List.takeWhile p rs) (funext fun r' => ?_)
        simp only [OrdMap.contains, withRecord, OrdMap.get?_insert]
        split_ifs with he
        · rw [he, hslot]
          rfl
        · rfl
      have hplace : placeRecords id d (r :: rs) x
          = placeRecords id d rs (x.withRecord id d slot r) := by
        rw [recordKey] at hslot
        simp only [placeRecords, get_bind, hslot]
        rfl
      have hpre : r.zeroPriceTick ∉ (x.slotted id d rs).map (·.zeroPriceTick) :=
        fun h => hr ((List.takeWhile_sublist _).map _ |>.subset h)
      rw [hplace, ih hns, hsame, hcons, refreshed_cons hr hslot, refreshed_cons hpre hslot]
      simp only [List.cons.injEq, true_and]

theorem get?_zeroLeftovers (x : ChainRuntime) (id : Nat) (d : Direction)
    (rs : List OnChainBucketRecord) (key : BucketKey) :
    ((x.refreshed id d rs).zeroLeftovers id d (rs.map (·.zeroPriceTick))).buckets.get? key =
      (x.buckets.get? key).map (fun account =>
        if key.subPoolId = id ∧ key.direction = d then
          { account with record := (recordFor rs key.tick).getD (zeroRecord account.record) }
        else account) := by
  simp only [zeroLeftovers, refreshed, OrdMap.get?_mapVal]
  cases x.buckets.get? key with
  | none => rfl
  | some account =>
    simp only [Option.map_some, Option.some.injEq]
    by_cases hd : key.subPoolId = id ∧ key.direction = d
    · cases hr : recordFor rs key.tick with
      | none =>
        have hout := recordFor_none.mp hr
        simp only [hd, hout, not_false_iff, and_self, if_true, Option.getD_none]
      | some r =>
        have hin : key.tick ∈ rs.map (·.zeroPriceTick) := by
          by_contra hout
          rw [recordFor_none.mpr hout] at hr
          cases hr
        simp only [hd, hin, not_true_eq_false, and_false, and_self, if_true, if_false,
          Option.getD_some]
    · rw [if_neg hd, if_neg fun h => hd ⟨h.1, h.2.1⟩, if_neg hd]

/-- The store fits the limits of the market. -/
def Capped (x : ChainRuntime) (store : DormantStore) : Prop :=
  store.bucketCount ≤ x.market.params.maxDormantBucketCountPerDirection ∧
    store.ledger.length ≤ x.market.params.maxDistributionLedgerSize

/-- In strict mode every bucket needs an account. -/
def Slotted (x : ChainRuntime) (id : Nat) (d : Direction) (store : DormantStore) : Prop :=
  x.strictPdaLifecycle = true →
    ∀ r ∈ store.records, x.buckets.contains (recordKey id d r) = true

def withLedger (x : ChainRuntime) (id : Nat) (d : Direction) (account : DistributionLedgerAccount)
    (store : DormantStore) : ChainRuntime :=
  { x with
    ledgers := x.ledgers.insert (ledgerKey id d)
      { account with ledger := store.image x.market.params.maxDistributionLedgerSize } }

/-- The bucket accounts after an accepted write-back. -/
def settled (x : ChainRuntime) (id : Nat) (d : Direction) (rs : List OnChainBucketRecord) :
    ChainRuntime :=
  if x.strictPdaLifecycle = true then
    (x.refreshed id d rs).zeroLeftovers id d (rs.map (·.zeroPriceTick))
  else x.writeBucketsLoose id d rs

/-- The accounts after an accepted write-back of one direction. -/
def stored (x : ChainRuntime) (id : Nat) (d : Direction) (account : DistributionLedgerAccount)
    (store : DormantStore) : ChainRuntime :=
  (x.withLedger id d account store).settled id d store.records

theorem records_nodup (store : DormantStore) : (store.records.map (·.zeroPriceTick)).Nodup := by
  rw [records_ticks]
  exact store.buckets.keys_nodup

theorem pack_cases (x : ChainRuntime) (store : DormantStore) :
    (x.Capped store ∧ packDormantStore store x.market.params.maxDormantBucketCountPerDirection
      x.market.params.maxDistributionLedgerSize
        = .ok (store.records, store.image x.market.params.maxDistributionLedgerSize)) ∨
    ¬ x.Capped store ∧ ∃ e, e ≠ .panic ∧ packDormantStore store
      x.market.params.maxDormantBucketCountPerDirection
      x.market.params.maxDistributionLedgerSize = .error e := by
  by_cases hb : store.bucketCount ≤ x.market.params.maxDormantBucketCountPerDirection
  · by_cases hl : store.ledger.length ≤ x.market.params.maxDistributionLedgerSize
    · exact .inl ⟨⟨hb, hl⟩, packDormantStore_of hb hl x.market.ledger_lt⟩
    · refine .inr ⟨fun h => hl h.2, .ledgerCapacityExceeded, by simp, ?_⟩
      rw [packDormantStore, ensure_of hb, ok_bind, ensure_not hl]
      rfl
  · refine .inr ⟨fun h => hb h.1, .dormantBucketCapExceeded, by simp, ?_⟩
    rw [packDormantStore, ensure_not hb]
    rfl

theorem writeDirection_cases (store : DormantStore) {account : DistributionLedgerAccount}
    (ha : x.ledgers.get? (ledgerKey id d) = some account) :
    (x.Capped store ∧ x.Slotted id d store ∧ writeDirection id d store x
      = .ok () (x.stored id d account store)) ∨
    (¬ x.Capped store ∧ ∃ e, MirrorError.Returned e ∧ writeDirection id d store x = .error e x) ∨
    (x.Capped store ∧ ¬ x.Slotted id d store ∧ writeDirection id d store x
      = .error (.bucketSlotExhausted id d) ((x.withLedger id d account store).refreshed id d
        (x.slotted id d store.records))) := by
  cases pack_cases x store with
  | inr h =>
    obtain ⟨hc, e, he, hp⟩ := h
    refine .inr (.inl ⟨hc, .clearing e, ⟨by simp, by simpa using he⟩, ?_⟩)
    simp only [writeDirection, get_bind, hp, clearing, orFail_error_bind]
  | inl h =>
    obtain ⟨hc, hp⟩ := h
    have hrun : writeDirection id d store x = (if x.strictPdaLifecycle = true
        then writeBucketsStrict id d store.records
        else modify (·.writeBucketsLoose id d store.records) : MirrorM Unit)
          (x.withLedger id d account store) := by
      simp only [writeDirection, get_bind, hp, clearing, orFail_ok_bind, ha, set_bind]
      rfl
    rw [hrun]
    by_cases hstrict : x.strictPdaLifecycle = true
    · have hs : (x.withLedger id d account store).strictPdaLifecycle = true := hstrict
      have hslots : (x.withLedger id d account store).slotted id d store.records
          = x.slotted id d store.records := rfl
      rw [if_pos hstrict, stored, settled, if_pos hs]
      by_cases hall : x.slotted id d store.records = store.records
      · have hslot : x.Slotted id d store := fun _ => slotted_eq_self.mp hall
        refine .inl ⟨hc, hslot, ?_⟩
        have hplace : placeRecords id d store.records (x.withLedger id d account store)
            = .ok () ((x.withLedger id d account store).refreshed id d store.records) := by
          rw [placeRecords_eq (records_nodup store), hslots, if_pos hall]
        exact bind_of_ok hplace _
      · have hslot : ¬ x.Slotted id d store := fun h => hall (slotted_eq_self.mpr (h hstrict))
        refine .inr (.inr ⟨hc, hslot, ?_⟩)
        have hplace : placeRecords id d store.records (x.withLedger id d account store)
            = .error (.bucketSlotExhausted id d) ((x.withLedger id d account store).refreshed id d
              (x.slotted id d store.records)) := by
          rw [placeRecords_eq (records_nodup store), hslots, if_neg hall]
        exact bind_of_error hplace _
    · have hs : ¬ (x.withLedger id d account store).strictPdaLifecycle = true := hstrict
      rw [if_neg hstrict, stored, settled, if_neg hs]
      exact .inl ⟨hc, fun h => absurd h hstrict, rfl⟩

theorem refreshed_touches (x : ChainRuntime) (id : Nat) (d : Direction)
    (rs : List OnChainBucketRecord) : Touches id x (x.refreshed id d rs) := by
  refine .withBuckets fun key hk => ?_
  rw [OrdMap.get?_mapVal]
  cases x.buckets.get? key with
  | none => rfl
  | some account => simp [hk]

theorem settled_touches (x : ChainRuntime) (id : Nat) (d : Direction) (store : DormantStore) :
    Touches id x (x.settled id d store.records) := by
  unfold settled
  split_ifs
  · exact (refreshed_touches x id d _).trans (zeroLeftovers_touches _ id d _)
  · exact writeBucketsLoose_touches x id d (records_nodup store)

theorem withLedger_touches (x : ChainRuntime) (id : Nat) (d : Direction)
    (account : DistributionLedgerAccount) (store : DormantStore) :
    Touches id x (x.withLedger id d account store) :=
  ⟨rfl, fun _ _ => rfl, fun _ _ => rfl, fun _ _ hi => OrdMap.get?_insert_ne _ _
    (fun h => hi (ledgerKey_inj.mp h).1)⟩

section Stored
variable {account : DistributionLedgerAccount}

theorem stored_strict_eq (hs : x.strictPdaLifecycle = true) : x.stored id d account store =
    ((x.withLedger id d account store).refreshed id d store.records).zeroLeftovers id d
      (store.records.map (·.zeroPriceTick)) := if_pos hs

theorem stored_loose_eq (hs : ¬ x.strictPdaLifecycle = true) : x.stored id d account store =
    (x.withLedger id d account store).writeBucketsLoose id d store.records := if_neg hs

theorem stored_touches (x : ChainRuntime) (id : Nat) (d : Direction)
    (account : DistributionLedgerAccount) (store : DormantStore) :
    Touches id x (x.stored id d account store) :=
  (withLedger_touches x id d account store).trans (settled_touches _ id d store)

theorem stored_subPools (x : ChainRuntime) (id : Nat) (d : Direction)
    (account : DistributionLedgerAccount) (store : DormantStore) :
    (x.stored id d account store).subPools = x.subPools := by
  unfold stored settled
  split_ifs <;> rfl

theorem stored_ledgers (x : ChainRuntime) (id : Nat) (d : Direction)
    (account : DistributionLedgerAccount) (store : DormantStore) :
    (x.stored id d account store).ledgers = (x.withLedger id d account store).ledgers := by
  unfold stored settled
  split_ifs <;> rfl

theorem stored_strict (x : ChainRuntime) (id : Nat) (d : Direction)
    (account : DistributionLedgerAccount) (store : DormantStore) :
    (x.stored id d account store).strictPdaLifecycle = x.strictPdaLifecycle :=
  (stored_touches x id d account store).strict_eq

theorem get?_stored (x : ChainRuntime) (id : Nat) (d : Direction)
    (account : DistributionLedgerAccount) (store : DormantStore) (key : BucketKey) :
    (x.stored id d account store).buckets.get? key =
      if key.subPoolId = id ∧ key.direction = d then
        if x.strictPdaLifecycle = true then
          (x.buckets.get? key).map (fun a => { a with
            record := (recordFor store.records key.tick).getD (zeroRecord a.record) })
        else (recordFor store.records key.tick).map (⟨id, ·⟩)
      else x.buckets.get? key := by
  by_cases hstrict : x.strictPdaLifecycle = true
  · rw [stored_strict_eq hstrict, get?_zeroLeftovers, if_pos hstrict]
    have hb : (x.withLedger id d account store).buckets = x.buckets := rfl
    rw [hb]
    split_ifs with hd
    · rfl
    · exact Option.map_id'
  · rw [stored_loose_eq hstrict, get?_writeBucketsLoose _ id d (records_nodup store),
      if_neg hstrict]
    rfl

theorem get?_stored_of_ne {e : Direction} (h : e ≠ d) (tick : Int) :
    (x.stored id d account store).buckets.get? (bucketKey id e tick)
      = x.buckets.get? (bucketKey id e tick) := by
  rw [get?_stored]
  exact if_neg fun hk => h hk.2

theorem stored_capped (store' : DormantStore) :
    (x.stored id d account store).Capped store' ↔ x.Capped store' := by
  unfold Capped
  rw [(stored_touches x id d account store).market_eq]

theorem stored_slotted {e : Direction} (h : e ≠ d) (store' : DormantStore) :
    (x.stored id d account store).Slotted id e store' ↔ x.Slotted id e store' := by
  unfold Slotted OrdMap.contains recordKey
  simp only [stored_strict, get?_stored_of_ne h]

end Stored

def Fits (x : ChainRuntime) (id : Nat) (core : SubPool) : Prop :=
  ∀ d, x.Capped (core.side d).dormant ∧ x.Slotted id d (core.side d).dormant

/-- The accounts of the sub-pool are all there. -/
structure Present (x : ChainRuntime) (id : Nat) (account : SubPoolAccount)
    (long short : DistributionLedgerAccount) : Prop where
  account : x.subPools.get? id = some account
  long : x.ledgers.get? (ledgerKey id .long) = some long
  short : x.ledgers.get? (ledgerKey id .short) = some short

section Write
variable {account : SubPoolAccount} {long short : DistributionLedgerAccount} {core : SubPool}

/-- The runtime after an accepted write-back. -/
def written (x : ChainRuntime) (id : Nat) (account : SubPoolAccount)
    (long short : DistributionLedgerAccount) (core : SubPool) : ChainRuntime :=
  ((x.stored id .long long core.long.dormant).stored id .short short core.short.dormant).putSubPool
    (account.writeBack core)

theorem Present.after_long (h : x.Present id account long short) (store : DormantStore) :
    (x.stored id .long long store).ledgers.get? (ledgerKey id .short) = some short := by
  rw [stored_ledgers]
  simp only [withLedger, OrdMap.get?_insert, ledgerKey_inj, reduceCtorEq, and_false, if_false]
  exact h.short

theorem writeCore_ok (h : x.Present id account long short) (hf : x.Fits id core) :
    writeCoreSubPool id core x = .ok () (x.written id account long short core) := by
  have hl : writeDirection id .long core.long.dormant x
      = .ok () (x.stored id .long long core.long.dormant) := by
    obtain hc | ⟨hc, -⟩ | ⟨-, hc, -⟩ := writeDirection_cases core.long.dormant h.long
    · exact hc.2.2
    · exact absurd (hf .long).1 hc
    · exact absurd (hf .long).2 hc
  have hs : writeDirection id .short core.short.dormant (x.stored id .long long core.long.dormant)
      = .ok () ((x.stored id .long long core.long.dormant).stored id .short short
        core.short.dormant) := by
    obtain hc | ⟨hc, -⟩ | ⟨-, hc, -⟩ := writeDirection_cases core.short.dormant
      (h.after_long core.long.dormant)
    · exact hc.2.2
    · exact absurd ((stored_capped _).mpr (hf .short).1) hc
    · exact absurd ((stored_slotted (by decide) _).mpr (hf .short).2) hc
  have hacc : ((x.stored id .long long core.long.dormant).stored id .short short
      core.short.dormant).subPools.get? id = some account := by
    rw [stored_subPools, stored_subPools]
    exact h.account
  unfold writeCoreSubPool
  refine (bind_of_ok hl _).trans ((bind_of_ok hs _).trans ?_)
  simp only [get_bind, hacc]
  rfl

theorem written_touches (h : x.Present id account long short) (core : SubPool) :
    Touches id x (x.written id account long short core) := by
  have hid := x.keyed id account h.account
  refine ((stored_touches x id .long long _).trans (stored_touches _ id .short short _)).trans
    ⟨rfl, fun i hi => ?_, fun _ _ => rfl, fun _ _ _ => rfl⟩
  refine OrdMap.get?_insert_ne _ _ ?_
  rw [SubPoolAccount.writeBack, hid]
  exact hi

theorem writeCore_refused (h : x.Present id account long short) (hf : ¬ x.Fits id core) :
    ∃ e y, MirrorError.Returned e ∧ writeCoreSubPool id core x = .error e y ∧ Touches id x y := by
  have hslot : ∀ e, MirrorError.Returned (.bucketSlotExhausted id e) :=
    fun e => ⟨by simp, by simp⟩
  obtain ⟨hlc, hls, hl⟩ | ⟨-, e, he, hl⟩ | ⟨-, -, hl⟩ :=
    writeDirection_cases core.long.dormant h.long
  · obtain ⟨hsc, hss, -⟩ | ⟨-, e, he, hs⟩ | ⟨-, -, hs⟩ :=
      writeDirection_cases core.short.dormant (h.after_long core.long.dormant)
    · refine absurd (fun d => ?_) hf
      cases d with
      | long => exact ⟨hlc, hls⟩
      | short => exact ⟨(stored_capped _).mp hsc, (stored_slotted (by decide) _).mp hss⟩
    · refine ⟨e, _, he, (bind_of_ok hl _).trans (bind_of_error hs _), ?_⟩
      exact stored_touches x id .long long _
    · refine ⟨_, _, hslot .short, (bind_of_ok hl _).trans (bind_of_error hs _), ?_⟩
      exact (stored_touches x id .long long _).trans ((withLedger_touches _ id .short short _).trans
        (refreshed_touches _ id .short _))
  · exact ⟨e, x, he, bind_of_error hl _, .refl id x⟩
  · refine ⟨_, _, hslot .long, bind_of_error hl _, ?_⟩
    exact (withLedger_touches x id .long long _).trans (refreshed_touches _ id .long _)

end Write

end ChainRuntime
end Runtime
end MoleFinance
