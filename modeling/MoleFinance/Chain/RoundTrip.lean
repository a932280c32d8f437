import MoleFinance.Chain.Packing

/-! Packing and unpacking of one direction: when the accounts give the engine's store back, and
when every bucket stays in the account of its tick. -/
namespace MoleFinance
open MoleMath Call

section Unpack
variable {key : Pubkey} {d : Direction}

theorem collectRecords_eq {bs : List BucketAccount}
    (h : ∀ b ∈ bs, b.subPool = key ∧ b.directionIsLong = d.isLong) :
    collectRecords key d bs
      = .ok ((bs.filter (fun b => !recordIsDead b)).map (·.record d.byte)) := by
  induction bs with
  | nil => rfl
  | cons b bs ih =>
    obtain ⟨hk, hd⟩ := h b List.mem_cons_self
    rw [collectRecords, ensure_of hk, ok_bind, ensure_of hd, ok_bind,
      ih (fun c hc => h c (List.mem_cons_of_mem b hc)), ok_bind]
    by_cases hl : recordIsDead b = true
    · rw [List.filter_cons_of_neg (by simp [hl]), if_pos hl]
      rfl
    · rw [List.filter_cons_of_pos (by simp [hl]), if_neg hl]
      rfl

theorem unpackBuckets_eq {rs : List OnChainBucketRecord}
    (h : ∀ r ∈ rs, r.direction = d.byte ∧ r.isDead = false) :
    unpackBuckets d d.byte rs = .ok (rs.map (unpackBucket d)) := by
  induction rs with
  | nil => rfl
  | cons r rs ih =>
    obtain ⟨hd, hl⟩ := h r List.mem_cons_self
    rw [unpackBuckets, ensure_of hd, ok_bind, ih (fun x hx => h x (List.mem_cons_of_mem r hx)),
      ok_bind, if_neg (by simp [hl])]
    rfl

theorem checkEntries_of {gc i : Nat} {es : List DistEntry} (hi : Indexed (gc + i) es)
    (hlt : gc + i + es.length < u64Size) : checkEntries gc i es = .ok () := by
  induction es generalizing i with
  | nil => rfl
  | cons e es ih =>
    rw [List.length_cons] at hlt
    rw [checkEntries, ensure_of (by omega), ok_bind, ensure_of hi.1, ok_bind]
    exact ih hi.2 (by omega)

theorem directionOfByte_byte (d : Direction) : directionOfByte d.byte = .ok d := by
  cases d <;> rfl

theorem unpackBucket_packBucket {s : DormantStore} {tick : Int} {b : DormantBucket}
    (h : s.BucketOk tick b) :
    unpackBucket s.direction (DormantStore.packBucket s.direction.byte tick b) = (tick, b) := by
  have hd := h.direction_eq
  have ht := h.tick_eq
  cases b
  simp only at hd ht
  simp [unpackBucket, DormantStore.packBucket, hd, ht]

theorem DormantStore.Produced.live {s : DormantStore} (h : s.Produced) :
    ∀ r ∈ s.records, r.isDead = false := by
  intro r hr
  obtain ⟨e, he, rfl⟩ := List.mem_map.mp hr
  have hg := OrdMap.get?_eq_some.mpr he
  have hst := h.stocked e.1 e.2.holding (by rw [DormantStore.holdings_get?, hg]; rfl)
  have hpos : e.2.totalRecoveryShares ≠ 0 := Nat.pos_iff_ne_zero.mp hst.1
  simp [OnChainBucketRecord.isDead, DormantStore.packBucket, hpos]

theorem unpackDormantStore_eq {s : DormantStore} (h : s.Produced)
    {rs : List OnChainBucketRecord} (hp : rs.Perm s.records) {l : OnChainLedger}
    (hd : l.direction = s.direction.byte) (hc : l.entryCount = s.ledger.length)
    (hm : s.ledger.length ≤ l.maxEntries) (he : l.entries = s.ledger)
    (hg : l.gcOffset = s.ledgerGcOffset) (hn : l.nextEventIndex = s.nextEventIndex)
    (ha : l.accruedValueTotal = s.accruedValueTotal)
    (hq : l.pendingDistributionTotal = s.pendingDistributionTotal) :
    unpackDormantStore rs l = .ok s := by
  have hinv := h.inv
  have hrs : ∀ r ∈ rs, r.direction = s.direction.byte ∧ r.isDead = false := by
    intro r hr
    have hr' := hp.mem_iff.mp hr
    exact ⟨records_direction s r hr', h.live r hr'⟩
  have hindexed : checkEntries s.ledgerGcOffset 0 s.ledger = .ok () := by
    have hlt : s.ledgerGcOffset + s.ledger.length < u64Size := hinv.window ▸ hinv.next_lt
    exact checkEntries_of hinv.indexed hlt
  have hparts : (rs.map (unpackBucket s.direction)).Perm s.buckets.entries := by
    refine (hp.map _).trans (List.Perm.of_eq ?_)
    rw [DormantStore.records, List.map_map]
    conv_rhs => rw [← List.map_id s.buckets.entries]
    refine List.map_congr_left fun e hmem => ?_
    exact unpackBucket_packBucket (hinv.bucketOk e.1 e.2 (OrdMap.get?_eq_some.mpr hmem))
  have hnodup : ((rs.map (unpackBucket s.direction)).map Prod.fst).Nodup :=
    ((hparts.map Prod.fst).nodup_iff).mpr s.buckets.keys_nodup
  have hload := DormantStore.fromOnchainParts_eq hinv hnodup (fun e => hparts.mem_iff)
  rw [if_pos ⟨h.accrued_lt, h.window_lt⟩] at hload
  rw [unpackDormantStore, hd, directionOfByte_byte, ok_bind, he, hc, ensure_of rfl, ok_bind,
    ensure_of hm, ok_bind, hg, hindexed, ok_bind, unpackBuckets_eq hrs, ok_bind, hn, ha, hq, hload]

theorem DormantStore.Produced.checked {s : DormantStore} (h : s.Produced) :
    s.checkInvariants = .ok () := by
  rw [DormantStore.checkInvariants_eq h.inv, if_pos ⟨h.accrued_lt, h.window_lt⟩]

theorem packDormantStore_ok {s : DormantStore} {maxBuckets maxLedger : Nat}
    {rs : List OnChainBucketRecord} {l : OnChainLedger}
    (h : packDormantStore s maxBuckets maxLedger = .ok (rs, l)) :
    l.gcOffset = s.ledgerGcOffset ∧ l.nextEventIndex = s.nextEventIndex ∧
      l.accruedValueTotal = s.accruedValueTotal ∧
      l.pendingDistributionTotal = s.pendingDistributionTotal ∧ l.entries = s.ledger ∧
      l.entryCount = s.ledger.length % u32Size := by
  unfold packDormantStore at h
  obtain ⟨_, -, h⟩ := except_bind_ok.mp h
  obtain ⟨_, -, h⟩ := except_bind_ok.mp h
  cases h
  exact ⟨rfl, rfl, rfl, rfl, rfl, rfl⟩

end Unpack

section Claims
variable {key : Pubkey} {d : Direction} {store : DormantStore}
  {ledger ledger' : LedgerAccount} {accounts accounts' : List BucketAccount}
  {maxBuckets maxLedger : Nat} {outcome : PackOutcome}
  {es : List (OnChainBucketRecord × BucketAccount)} {matched left : List BucketAccount}

theorem resetLeftover_dead (next : Nat) (b : BucketAccount) :
    recordIsDead (resetLeftover next ⟨true, b⟩) = true := by
  unfold resetLeftover
  by_cases hl : recordIsDead b = false
  · rw [if_pos ⟨rfl, hl⟩]
    rfl
  · rw [if_neg (fun hc => hl hc.2)]
    exact Bool.not_eq_false _ ▸ hl

theorem resetLeftover_identity (next : Nat) (b : BucketAccount) :
    (resetLeftover next ⟨true, b⟩).subPool = b.subPool ∧
      (resetLeftover next ⟨true, b⟩).directionIsLong = b.directionIsLong ∧
      (resetLeftover next ⟨true, b⟩).zeroPriceTick = b.zeroPriceTick ∧
      (resetLeftover next ⟨true, b⟩).seeds = b.seeds := by
  unfold resetLeftover
  split_ifs with h
  · exact ⟨rfl, rfl, rfl, rfl⟩
  · exact ⟨rfl, rfl, rfl, rfl⟩

theorem applyRecord_dead (r : OnChainBucketRecord) (b : BucketAccount) :
    recordIsDead (applyRecord key r b) = r.isDead := rfl

theorem applyRecord_owner {r : OnChainBucketRecord} (hr : r.direction = d.byte)
    (b : BucketAccount) : (applyRecord key r b).subPool = key ∧
      (applyRecord key r b).directionIsLong = d.isLong := by
  refine ⟨rfl, ?_⟩
  simp only [applyRecord, hr]
  cases d <;> rfl

theorem Packed.owner (h : Packed key d store accounts accounts' es matched left)
    (hd : store.direction = d)
    (ha : ∀ b ∈ accounts, b.subPool = key ∧ b.directionIsLong = d.isLong) :
    ∀ b ∈ accounts', b.subPool = key ∧ b.directionIsLong = d.isLong := by
  intro b hb
  have hdir : ∀ r ∈ store.records, r.direction = d.byte := hd ▸ records_direction store
  have hmem := h.accounts_perm.mem_iff.mp hb
  rw [List.mem_append, List.mem_append] at hmem
  obtain (hb | hb) | hb := hmem
  · obtain ⟨e, he, rfl⟩ := List.mem_map.mp hb
    have hr := (placements_fst h.placed).1.subset (List.mem_map_of_mem he)
    exact applyRecord_owner (hdir e.1 (List.mem_filter.mp hr).1) e.2
  · obtain ⟨a, -, r, hr, -, rfl⟩ := h.reused b hb
    exact applyRecord_owner (hdir r hr) a
  · obtain ⟨a, ha', rfl⟩ := List.mem_map.mp hb
    have hid := resetLeftover_identity store.nextEventIndex a
    rw [hid.1, hid.2.1]
    exact ha a (h.left_sub.subset ha')

/-- The records of the live accounts: what landed in pass 2 and in pass 1. -/
theorem Packed.live_records (h : Packed key d store accounts accounts' es matched left)
    (hd : store.direction = d) (hs : store.Produced) :
    ((accounts'.filter (fun b => !recordIsDead b)).map (·.record d.byte)).Perm
      (es.map Prod.fst ++ store.records.filter (fun r => accounts.any (matchesRecord d r))) := by
  have hdir : ∀ r ∈ store.records, r.direction = d.byte := hd ▸ records_direction store
  have hfst : ∀ e ∈ es, e.1 ∈ store.records := fun e he =>
    (List.mem_filter.mp ((placements_fst h.placed).1.subset (List.mem_map_of_mem he))).1
  have hplaced : (es.map (fun e => applyRecord key e.1 e.2)).filter (fun b => !recordIsDead b)
      = es.map (fun e => applyRecord key e.1 e.2) := by
    refine List.filter_eq_self.mpr fun b hb => ?_
    obtain ⟨e, he, rfl⟩ := List.mem_map.mp hb
    rw [applyRecord_dead, hs.live e.1 (hfst e he)]
    rfl
  have hmatched : matched.filter (fun b => !recordIsDead b) = matched := by
    refine List.filter_eq_self.mpr fun b hb => ?_
    obtain ⟨a, -, r, hr, -, rfl⟩ := h.reused b hb
    rw [applyRecord_dead, hs.live r hr]
    rfl
  have hleft : (left.map (fun b => resetLeftover store.nextEventIndex ⟨true, b⟩)).filter
      (fun b => !recordIsDead b) = [] := by
    refine List.filter_eq_nil_iff.mpr fun b hb => ?_
    obtain ⟨a, -, rfl⟩ := List.mem_map.mp hb
    simp [resetLeftover_dead]
  have hrecords : (es.map (fun e => applyRecord key e.1 e.2)).map (·.record d.byte)
      = es.map Prod.fst := by
    rw [List.map_map]
    exact List.map_congr_left fun e he => applyRecord_record (hdir e.1 (hfst e he))
  have hp := (h.accounts_perm.filter (fun b => !recordIsDead b)).map (·.record d.byte)
  rw [List.filter_append, List.filter_append, hplaced, hmatched, hleft, List.append_nil,
    List.map_append, hrecords] at hp
  exact hp.trans (h.landed.append_left _)

theorem records_split (d : Direction) (store : DormantStore) (accounts : List BucketAccount) :
    (newRecords d store.records accounts
      ++ store.records.filter (fun r => accounts.any (matchesRecord d r))).Perm store.records := by
  have hp := List.filter_append_perm (fun r => accounts.any (matchesRecord d r)) store.records
  exact List.perm_append_comm.trans hp

/-- The round trip gives the store back, each bucket in one account, exactly when its ledger
    fits the account and no new bucket meets a dead account, not yet taken when its turn comes,
    with the same tick, anchor and last applied index. -/
theorem pack_unpack_iff (hs : store.Produced) (hd : store.direction = d)
    (hl : ledger.subPool = key ∧ ledger.directionIsLong = d.isLong)
    (ha : ∀ b ∈ accounts, b.subPool = key ∧ b.directionIsLong = d.isLong)
    (h : packDirection ledger accounts key d store maxBuckets maxLedger
      = .ok (outcome, ledger', accounts')) :
    (unpackDirection ledger' accounts' key d = .ok store ∧
      ((accounts'.filter (fun b => !recordIsDead b)).map (·.record d.byte)).Perm
        store.records) ↔
    store.ledger.length ≤ ledger.maxEntries ∧
      ∀ k u, (newRecords d store.records accounts)[k]? = some u →
        ∀ b ∈ (deadAccounts accounts).drop k, sameIdentity u b = false := by
  obtain ⟨⟨l, hpack, rfl⟩, es, matched, left, hp⟩ :=
    packDirection_ok hd (fun b hb => (ha b hb).2) h
  obtain ⟨hg, hn, hac, hq, he, hc⟩ := packDormantStore_ok hpack
  rw [← placements_all_iff hp.placed]
  have howner := hp.owner hd ha
  have hlive := hp.live_records hd hs
  have hsplit := records_split d store accounts
  have hunpack : unpackDirection (ledger.flush l) accounts' key d = do
      let s ← engine (unpackDormantStore
        ((accounts'.filter (fun b => !recordIsDead b)).map (·.record d.byte)) {
          direction := d.byte
          maxEntries := ledger.maxEntries
          gcOffset := l.gcOffset
          nextEventIndex := l.nextEventIndex
          accruedValueTotal := l.accruedValueTotal
          pendingDistributionTotal := l.pendingDistributionTotal
          entryCount := l.entryCount
          entries := l.entries })
      engine s.checkInvariants
      return s := by
    unfold unpackDirection
    rw [ensure_of (show (ledger.flush l).subPool = key from hl.1), ok_bind,
      ensure_of (show (ledger.flush l).directionIsLong = d.isLong from hl.2), ok_bind,
      collectRecords_eq howner, ok_bind]
    rfl
  constructor
  · rintro ⟨hu, hperm⟩
    refine ⟨?_, ?_⟩
    · -- the ledger check of the unpack passed
      rw [hunpack] at hu
      obtain ⟨s, hs', -⟩ := except_bind_ok.mp hu
      rw [engine_ok, unpackDormantStore, directionOfByte_byte, ok_bind] at hs'
      obtain ⟨_, hcount, hs'⟩ := except_bind_ok.mp hs'
      obtain ⟨_, hmax, -⟩ := except_bind_ok.mp hs'
      have hcount := ensure_ok.mp hcount
      have hmax := ensure_ok.mp hmax
      simp only [he] at hcount hmax
      omega
    · -- as many records landed as there are new ones
      have hlen := (hlive.symm.trans (hperm.trans hsplit.symm)).length_eq
      rw [List.length_append, List.length_append] at hlen
      exact (placements_fst hp.placed).1.eq_of_length (by omega)
  · rintro ⟨hmax, hall⟩
    rw [hall] at hlive
    have hperm := hlive.trans hsplit
    have hlt : (ledger.maxEntries : Nat) < u32Size := ledger.maxEntries.2
    have hcount : l.entryCount = store.ledger.length := by
      rw [hc, Nat.mod_eq_of_lt (by omega)]
    refine ⟨?_, hperm⟩
    rw [hunpack, unpackDormantStore_eq hs hperm]
    · change (engine store.checkInvariants >>= fun _ => pure store) = _
      rw [hs.checked]
      rfl
    · exact hd ▸ rfl
    · exact hcount
    · exact hmax
    · exact he
    · exact hg
    · exact hn
    · exact hac
    · exact hq

/-- A long position wiped out at 80 goes to the bucket of that tick. -/
def wipedOut : List EngineOp :=
  [.open (quoteAt (amount 100)) .long (amount 100) (amount 1),
    .open (quoteAt (amount 100)) .short (amount 100) (amount 2), .sync (quoteAt (amount 80))]

def forfeited : List EngineOp := wipedOut ++ [.forceClose (quoteAt (amount 80)) 1 true]

def wipedOutAgain : List EngineOp :=
  forfeited ++ [.sync (quoteAt (amount 92)),
    .open (quoteAt (amount 92)) .long (amount 100) (amount 3), .sync (quoteAt (amount 80))]

def longStore (ops : List EngineOp) : DormantStore := (smallRun .eager ops).2.subPool.long.dormant

theorem longStore_produced (ops : List EngineOp) : (longStore ops).Produced :=
  (smallRun_reached .eager ops).produced .long

def emptyLedger : LedgerAccount := .init 7 true ⟨1024, by decide⟩

/-- The account of tick 80 while the bucket is there, and after it was reset. -/
def liveAccount : BucketAccount :=
  { BucketAccount.init 7 true 80 with
    anchorPrice := 80
    totalRecoveryShares := 100
    totalRecoveryNotional := 1000
    positionCount := 1 }

def resetAccount : BucketAccount := { BucketAccount.init 7 true 80 with anchorPrice := 80 }

theorem wipedOut_round_trip :
    unpackDirection emptyLedger [liveAccount, .init 7 true 90] 7 .long = .ok (longStore wipedOut) ∧
      (([liveAccount, BucketAccount.init 7 true 90].filter (fun b => !recordIsDead b)).map
        (·.record Direction.long.byte)).Perm (longStore wipedOut).records := by
  have hpack : packDirection emptyLedger [.init 7 true 80, .init 7 true 90] 7 .long
      (longStore wipedOut) 1024 1024
      = .ok (⟨[], 1⟩, emptyLedger, [liveAccount, .init 7 true 90]) := by decide +kernel
  have hnew : ∀ u ∈ newRecords .long (longStore wipedOut).records
      [.init 7 true 80, .init 7 true 90],
      ∀ b ∈ [BucketAccount.init 7 true 80, .init 7 true 90], sameIdentity u b = false := by
    decide +kernel
  refine (pack_unpack_iff (longStore_produced wipedOut) (by decide +kernel) ⟨rfl, rfl⟩
    (by decide) hpack).mpr ⟨by decide +kernel, fun k u hu b hb => ?_⟩
  exact hnew u (List.mem_of_getElem? hu) b (List.mem_of_mem_drop hb)

/-- The second bucket at 80 is taken for the first one, whose account was reset with the same
    anchor and index: the pack succeeds and the bucket is in no account. -/
theorem wipedOutAgain_loses_bucket :
    packDirection emptyLedger [.init 7 true 80] 7 .long (longStore wipedOut) 1024 1024
      = .ok (⟨[], 1⟩, emptyLedger, [liveAccount]) ∧
    packDirection emptyLedger [liveAccount] 7 .long (longStore forfeited) 1024 1024
      = .ok (⟨[0], 0⟩, emptyLedger, [resetAccount]) ∧
    packDirection emptyLedger [resetAccount] 7 .long (longStore wipedOutAgain) 1024 1024
      = .ok (⟨[], 0⟩, emptyLedger, [resetAccount]) ∧
    unpackDirection emptyLedger [resetAccount] 7 .long = .ok (.new .long) ∧
    (longStore wipedOutAgain).buckets.size = 1 := by
  decide +kernel

/-- The account still holds the tick its address was derived from. -/
def BucketAccount.AtSeed (b : BucketAccount) : Prop := b.zeroPriceTick = b.seeds.zeroPriceTick

instance (b : BucketAccount) : Decidable b.AtSeed := inferInstanceAs (Decidable (_ = _))

/-- What a client finds at the address of `tick`: an account there, and in every account there
the bucket. -/
def FoundAt (accounts : List BucketAccount) (key : Pubkey) (d : Direction) (tick : Int)
    (bucket : DormantBucket) : Prop :=
  (∃ b ∈ accounts, b.seeds = ⟨key, d.isLong, tick⟩) ∧
    ∀ b ∈ accounts, b.seeds = ⟨key, d.isLong, tick⟩ →
      b.record d.byte = DormantStore.packBucket d.byte tick bucket

def AtHome (key : Pubkey) (d : Direction) (accounts : List BucketAccount) : Prop :=
  ∀ b ∈ accounts, b.directionIsLong = d.isLong ∧ b.seeds = ⟨key, d.isLong, b.zeroPriceTick⟩

instance (accounts : List BucketAccount) : Decidable (AtHome key d accounts) :=
  inferInstanceAs (Decidable (∀ b ∈ accounts, _))

theorem new_ticks_nodup (d : Direction) (store : DormantStore) (accounts : List BucketAccount) :
    ((newRecords d store.records accounts).map (·.zeroPriceTick)).Nodup := by
  refine List.Nodup.sublist (List.filter_sublist.map _) ?_
  rw [records_ticks]
  exact store.buckets.keys_nodup

theorem Packed.atSeed_iff (h : Packed key d store accounts accounts' es matched left)
    (ha : AtHome key d accounts) :
    (∀ b ∈ accounts', b.AtSeed) ↔ ∀ e ∈ es, e.1.zeroPriceTick = e.2.zeroPriceTick := by
  have hhome : ∀ b ∈ accounts, b.AtSeed := fun b hb => by
    rw [BucketAccount.AtSeed, (ha b hb).2]
  have hsnd : ∀ e ∈ es, e.2.AtSeed := fun e he =>
    hhome e.2 (List.mem_filter.mp ((placements_fst h.placed).2 e he)).1
  constructor
  · intro hkeep e he
    have hb := hkeep (applyRecord key e.1 e.2) (h.accounts_perm.mem_iff.mpr
      (List.mem_append_left _ (List.mem_append_left _ (List.mem_map.mpr ⟨e, he, rfl⟩))))
    exact hb.trans (hsnd e he).symm
  · intro hticks b hb
    have hmem := h.accounts_perm.mem_iff.mp hb
    rw [List.mem_append, List.mem_append] at hmem
    obtain (hb | hb) | hb := hmem
    · obtain ⟨e, he, rfl⟩ := List.mem_map.mp hb
      exact (hticks e he).trans (hsnd e he)
    · obtain ⟨a, haa, r, -, hm, rfl⟩ := h.reused b hb
      exact (matchesRecord_live hm).2.symm.trans (hhome a haa)
    · obtain ⟨a, haa, rfl⟩ := List.mem_map.mp hb
      obtain ⟨-, -, ht, hseed⟩ := resetLeftover_identity store.nextEventIndex a
      unfold BucketAccount.AtSeed
      rw [ht, hseed]
      exact hhome a (h.left_sub.subset haa)

theorem PackedRows.count_seeds (h : PackedRows key accounts accounts' es)
    (ha : AtHome key d accounts) (tick : Int) :
    accounts'.countP (fun b => b.seeds = ⟨key, d.isLong, tick⟩)
      = (accounts.map (·.zeroPriceTick)).count tick := by
  have hs := congrArg (List.countP (fun s => decide (s = ⟨key, d.isLong, tick⟩))) h.seeds_eq
  rw [List.countP_map, List.countP_map] at hs
  refine hs.trans ?_
  rw [List.count, List.countP_map]
  refine List.countP_congr fun b hb => ?_
  simp [(ha b hb).2]

theorem mem_records {r : OnChainBucketRecord} (hd : store.direction = d) :
    r ∈ store.records ↔ ∃ tick bucket, store.buckets.get? tick = some bucket ∧
      DormantStore.packBucket d.byte tick bucket = r := by
  rw [DormantStore.records, List.mem_map, hd]
  constructor
  · rintro ⟨e, he, hr⟩
    exact ⟨e.1, e.2, OrdMap.get?_eq_some.mpr he, hr⟩
  · rintro ⟨tick, bucket, hb, hr⟩
    exact ⟨(tick, bucket), OrdMap.get?_eq_some.mp hb, hr⟩

theorem records_distinct (store : DormantStore) : store.records.Nodup := by
  refine List.Nodup.of_map (·.zeroPriceTick) ?_
  rw [records_ticks]
  exact store.buckets.keys_nodup

/-- An address was supplied once if all its accounts now hold the same record, which is one of
those that are live now. -/
theorem PackedRows.count_le_one (h : PackedRows key accounts accounts' es)
    (ha : AtHome key d accounts) {records : List OnChainBucketRecord} (hn : records.Nodup)
    (hlive : ((accounts'.filter (fun b => !recordIsDead b)).map (·.record d.byte)).Perm records)
    {tick : Int} {r : OnChainBucketRecord}
    (hall : ∀ b ∈ accounts', b.seeds = ⟨key, d.isLong, tick⟩ →
      b.record d.byte = r ∧ recordIsDead b = false) :
    (accounts.map (·.zeroPriceTick)).count tick ≤ 1 := by
  calc (accounts.map (·.zeroPriceTick)).count tick
      = accounts'.countP (fun b => b.seeds = ⟨key, d.isLong, tick⟩) := (h.count_seeds ha tick).symm
    _ ≤ accounts'.countP (fun b => !recordIsDead b && b.record d.byte == r) := by
        refine List.countP_mono_left fun b hb hseed => ?_
        obtain ⟨hrec, hdead⟩ := hall b hb (of_decide_eq_true hseed)
        simp [hrec, hdead]
    _ = ((accounts'.filter (fun b => !recordIsDead b)).map (·.record d.byte)).count r := by
        rw [List.count, List.countP_map, List.countP_filter]
        refine List.countP_congr fun b hb => ?_
        simp [and_comm]
    _ ≤ 1 := by
        rw [hlive.count_eq]
        exact List.nodup_iff_count_le_one.mp hn r

/-- Where every bucket is found, every new record landed and no address occurs twice. -/
theorem Packed.landed_of_found (h : Packed key d store accounts accounts' es matched left)
    (hr : PackedRows key accounts accounts' es) (hs : store.Produced)
    (hd : store.direction = d) (ha : AtHome key d accounts)
    (hf : ∀ tick bucket, store.buckets.get? tick = some bucket →
      FoundAt accounts' key d tick bucket) :
    es.map Prod.fst = newRecords d store.records accounts ∧
      ∀ tick ∈ store.buckets.keys, (accounts.map (·.zeroPriceTick)).count tick ≤ 1 := by
  have hlive := h.live_records hd hs
  have hsub := (placements_fst h.placed).1
  have hnew := new_ticks_nodup d store accounts
  have hfound : ∀ r ∈ store.records, ∃ b ∈ accounts',
      b.seeds = ⟨key, d.isLong, r.zeroPriceTick⟩ ∧ ∀ b ∈ accounts',
        b.seeds = ⟨key, d.isLong, r.zeroPriceTick⟩ →
          b.record d.byte = r ∧ recordIsDead b = false := by
    intro r hmem
    obtain ⟨tick, bucket, hb, rfl⟩ := (mem_records hd).mp hmem
    obtain ⟨⟨b, hb', hseed⟩, hall⟩ := hf tick bucket hb
    refine ⟨b, hb', hseed, fun c hc hcs => ?_⟩
    have hrec := hall c hc hcs
    have hdead := hs.live _ hmem
    rw [← hrec] at hdead
    exact ⟨hrec, hdead⟩
  constructor
  · refine hsub.eq_of_length_le (List.Nodup.subperm hnew.of_map fun u hu => ?_).length_le
    have hu' := List.mem_filter.mp hu
    obtain ⟨b, hb, hseed, hall⟩ := hfound u hu'.1
    obtain ⟨hrec, hdead⟩ := hall b hb hseed
    have hmem := hlive.mem_iff.mp (List.mem_map.mpr
      ⟨b, List.mem_filter.mpr ⟨hb, by rw [hdead]; rfl⟩, hrec⟩)
    cases List.mem_append.mp hmem with
    | inl hmem => exact hmem
    | inr hmem =>
      rw [(List.mem_filter.mp hmem).2] at hu'
      cases hu'.2
  · intro tick ht
    obtain ⟨bucket, hb⟩ := OrdMap.mem_keys.mp ht
    obtain ⟨r, hrdef⟩ : ∃ r, DormantStore.packBucket d.byte tick bucket = r := ⟨_, rfl⟩
    have hmem : r ∈ store.records := (mem_records hd).mpr ⟨tick, bucket, hb, hrdef⟩
    have htick : r.zeroPriceTick = tick := by rw [← hrdef]; rfl
    obtain ⟨-, -, -, hall⟩ := hfound r hmem
    rw [htick] at hall
    have hnodup : (es.map Prod.fst ++ store.records.filter
        (fun r => accounts.any (matchesRecord d r))).Nodup :=
      ((records_split d store accounts).nodup_iff.mpr (records_distinct store)).sublist
        (hsub.append_right _)
    exact hr.count_le_one ha hnodup hlive hall

theorem Packed.found_of_landed (h : Packed key d store accounts accounts' es matched left)
    (hr : PackedRows key accounts accounts' es) (hs : store.Produced)
    (hd : store.direction = d) (ha : AtHome key d accounts)
    (hfst : es.map Prod.fst = newRecords d store.records accounts)
    (hseed : ∀ b ∈ accounts', b.AtSeed)
    (hone : ∀ tick ∈ store.buckets.keys, (accounts.map (·.zeroPriceTick)).count tick ≤ 1) :
    ∀ tick bucket, store.buckets.get? tick = some bucket →
      FoundAt accounts' key d tick bucket := by
  intro tick bucket hb
  have hmem : DormantStore.packBucket d.byte tick bucket ∈ store.records :=
    (mem_records hd).mpr ⟨tick, bucket, hb, rfl⟩
  have hlive := h.live_records hd hs
  rw [hfst] at hlive
  obtain ⟨b, hb', hrec⟩ := List.mem_map.mp
    ((hlive.trans (records_split d store accounts)).mem_iff.mpr hmem)
  have hb' := (List.mem_filter.mp hb').1
  have htick : b.zeroPriceTick = tick := congrArg OnChainBucketRecord.zeroPriceTick hrec
  have haddress : b.seeds = ⟨key, d.isLong, tick⟩ := by
    have hmap : b.seeds ∈ accounts.map (·.seeds) := hr.seeds_eq ▸ List.mem_map_of_mem hb'
    obtain ⟨a, haa, he⟩ := List.mem_map.mp hmap
    have ht : b.zeroPriceTick = b.seeds.zeroPriceTick := hseed b hb'
    rw [← he, (ha a haa).2] at ht ⊢
    rw [← htick, ht]
  refine ⟨⟨b, hb', haddress⟩, fun c hc hcs => ?_⟩
  have hcount := hr.count_seeds ha tick ▸ hone tick (OrdMap.mem_keys.mpr ⟨bucket, hb⟩)
  rw [List.countP_eq_length_filter] at hcount
  have hin : ∀ x ∈ accounts', x.seeds = ⟨key, d.isLong, tick⟩ →
      x ∈ accounts'.filter (fun b => decide (b.seeds = ⟨key, d.isLong, tick⟩)) :=
    fun x hx hxs => List.mem_filter.mpr ⟨hx, decide_eq_true hxs⟩
  obtain ⟨a, hone⟩ := List.length_eq_one_iff.mp
    (Nat.le_antisymm hcount (List.length_pos_of_mem (hin b hb' haddress)))
  have hba := List.mem_singleton.mp (hone ▸ hin b hb' haddress)
  have hca := List.mem_singleton.mp (hone ▸ hin c hc hcs)
  rw [hca, ← hba, hrec]

/-- Every account keeps its tick and every bucket of the store is found at its address exactly
when no dead account looks like a new bucket, the new buckets have, in tick order, the ticks of
the first dead accounts supplied, and no account of a bucket's tick is supplied twice. -/
theorem pack_keeps_identity_iff (hs : store.Produced) (hd : store.direction = d)
    (ha : AtHome key d accounts)
    (h : packDirection ledger accounts key d store maxBuckets maxLedger
      = .ok (outcome, ledger', accounts')) :
    ((∀ b ∈ accounts', b.AtSeed) ∧
      ∀ tick bucket, store.buckets.get? tick = some bucket →
        FoundAt accounts' key d tick bucket) ↔
    (∀ u ∈ newRecords d store.records accounts, ∀ b ∈ deadAccounts accounts,
        sameIdentity u b = false) ∧
      (newRecords d store.records accounts).map (·.zeroPriceTick)
        <+: (deadAccounts accounts).map (·.zeroPriceTick) ∧
      ∀ tick ∈ store.buckets.keys, (accounts.map (·.zeroPriceTick)).count tick ≤ 1 := by
  obtain ⟨-, es, matched, left, hp, hr⟩ := packDirection_rows hd (fun b hb => (ha b hb).1) h
  rw [← and_assoc, ← placements_home_iff (new_ticks_nodup d store accounts) hp.placed,
    hp.atSeed_iff ha]
  constructor
  · rintro ⟨hticks, hfound⟩
    obtain ⟨hfst, hone⟩ := hp.landed_of_found hr hs hd ha hfound
    exact ⟨⟨hfst, hticks⟩, hone⟩
  · rintro ⟨⟨hfst, hticks⟩, hone⟩
    exact ⟨hticks, hp.found_of_landed hr hs hd ha hfst ((hp.atSeed_iff ha).mpr hticks) hone⟩

theorem wipedOut_keeps_identity :
    (∀ b ∈ [liveAccount, .init 7 true 90], b.AtSeed) ∧
      ∀ tick bucket, (longStore wipedOut).buckets.get? tick = some bucket →
        FoundAt [liveAccount, .init 7 true 90] 7 .long tick bucket := by
  have hpack : packDirection emptyLedger [.init 7 true 80, .init 7 true 90] 7 .long
      (longStore wipedOut) 1024 1024
      = .ok (⟨[], 1⟩, emptyLedger, [liveAccount, .init 7 true 90]) := by decide +kernel
  exact (pack_keeps_identity_iff (longStore_produced wipedOut) (by decide +kernel)
    (by decide) hpack).mpr (by decide +kernel)

/-- A rotation at 80 while only the account of tick 100 is supplied: the bucket of tick 80 is
    written into it. -/
theorem wipedOut_takes_other_account :
    (BucketAccount.init 7 true 100).AtSeed ∧
    packDirection emptyLedger [.init 7 true 100] 7 .long (longStore wipedOut) 1024 1024
      = .ok (⟨[], 1⟩, emptyLedger, [{ liveAccount with seeds := ⟨7, true, 100⟩ }]) ∧
    ¬ BucketAccount.AtSeed { liveAccount with seeds := ⟨7, true, 100⟩ } := by
  decide +kernel

end Claims
end MoleFinance
