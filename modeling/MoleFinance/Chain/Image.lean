import MoleFinance.Chain.RoundTrip

/-! The account image of a store. What the engine leaves behind is read back unchanged, and
whatever `unpack_dormant_store` accepts is the image of the store it returns, up to the order of
the records and the dead ones among them. -/
namespace MoleFinance
open MoleMath Call

/-- What the bucket loop of `from_onchain_parts` has checked when it returns. -/
theorem DormantStore.loadBuckets_ok {direction : Direction} {gc next total : Nat} {map : BucketMap}
    {buckets : List (Int × DormantBucket)} {loaded : Nat × BucketMap}
    (h : loadBuckets direction gc next total map buckets = .ok loaded) :
    loaded.2 = map.insertAll buckets ∧ (buckets.map Prod.fst).Nodup ∧
      ∀ e ∈ buckets, map.get? e.1 = none := by
  induction buckets generalizing total map with
  | nil =>
    cases h
    exact ⟨rfl, .nil, by simp⟩
  | cons e es ih =>
    rw [loadBuckets] at h
    obtain ⟨_, -, h⟩ := except_bind_ok.mp h
    obtain ⟨_, -, h⟩ := except_bind_ok.mp h
    obtain ⟨_, -, h⟩ := except_bind_ok.mp h
    obtain ⟨sum, -, h⟩ := except_bind_ok.mp h
    obtain ⟨_, hc, h⟩ := except_bind_ok.mp h
    have hnone : map.get? e.1 = none := by
      simpa [OrdMap.contains] using ensure_ok.mp hc
    obtain ⟨hl, hn, hf⟩ := ih h
    have hne : ∀ x ∈ es, x.1 ≠ e.1 := by
      intro x hx he
      have hx' := hf x hx
      rw [he, OrdMap.get?_insert_self] at hx'
      cases hx'
    refine ⟨hl, List.nodup_cons.mpr ⟨?_, hn⟩, ?_⟩
    · rintro hmem
      obtain ⟨x, hx, he⟩ := List.mem_map.mp hmem
      exact hne x hx he
    · intro x hx
      cases List.mem_cons.mp hx with
      | inl he => exact he ▸ hnone
      | inr hx =>
        have hx' := hf x hx
        rwa [OrdMap.get?_insert_ne _ _ (hne x hx)] at hx'

theorem OrdMap.entries_insertAll {κ ν : Type} [LinearOrder κ] {es : List (κ × ν)}
    (hn : (es.map Prod.fst).Nodup) : ((empty : OrdMap κ ν).insertAll es).entries.Perm es := by
  refine (List.perm_ext_iff_of_nodup ?_ (List.Nodup.of_map _ hn)).mpr ?_
  · exact List.Nodup.of_map _ (OrdMap.keys_nodup _)
  · intro e
    rw [← OrdMap.get?_eq_some, OrdMap.get?_insertAll hn]
    simp

theorem DormantStore.fromOnchainParts_ok {direction : Direction}
    {parts : List (Int × DormantBucket)} {ledger : List DistEntry} {gc next accrued pending : Nat}
    {s : DormantStore}
    (h : fromOnchainParts direction parts ledger gc next accrued pending = .ok s) :
    s.buckets.entries.Perm parts ∧ s.direction = direction ∧ s.ledger = ledger ∧
      s.ledgerGcOffset = gc ∧ s.nextEventIndex = next ∧ s.accruedValueTotal = accrued ∧
      s.pendingDistributionTotal = pending := by
  unfold fromOnchainParts at h
  obtain ⟨_, -, h⟩ := except_bind_ok.mp h
  obtain ⟨_, -, h⟩ := except_bind_ok.mp h
  obtain ⟨loaded, hl, h⟩ := except_bind_ok.mp h
  obtain ⟨_, -, h⟩ := except_bind_ok.mp h
  obtain ⟨_, -, h⟩ := except_bind_ok.mp h
  obtain ⟨_, -, h⟩ := except_bind_ok.mp h
  cases h
  obtain ⟨hm, hn, -⟩ := loadBuckets_ok hl
  refine ⟨?_, rfl, rfl, rfl, rfl, rfl, rfl⟩
  simp only [hm]
  exact OrdMap.entries_insertAll hn

theorem directionOfByte_ok {byte : Nat} {d : Direction} (h : directionOfByte byte = .ok d) :
    byte = d.byte := by
  unfold directionOfByte at h
  split at h
  · cases h
    rfl
  · cases h
    rfl
  · cases h

theorem unpackBuckets_ok {d : Direction} {byte : Nat} {rs : List OnChainBucketRecord}
    {pairs : List (Int × DormantBucket)} (h : unpackBuckets d byte rs = .ok pairs) :
    (∀ r ∈ rs, r.direction = byte) ∧
      pairs = (rs.filter (fun r => !r.isDead)).map (unpackBucket d) := by
  induction rs generalizing pairs with
  | nil =>
    cases h
    exact ⟨by simp, rfl⟩
  | cons r rs ih =>
    rw [unpackBuckets] at h
    obtain ⟨_, hd, h⟩ := except_bind_ok.mp h
    obtain ⟨tail, ht, h⟩ := except_bind_ok.mp h
    cases h
    obtain ⟨hrs, rfl⟩ := ih ht
    refine ⟨List.forall_mem_cons.mpr ⟨ensure_ok.mp hd, hrs⟩, ?_⟩
    by_cases hl : r.isDead = true
    · rw [if_pos hl, List.filter_cons_of_neg (by simp [hl])]
    · rw [if_neg hl, List.filter_cons_of_pos (by simp [hl])]
      rfl

theorem unpackBuckets_live {d : Direction} {byte : Nat} {rs : List OnChainBucketRecord}
    (h : ∀ r ∈ rs, r.direction = byte) :
    unpackBuckets d byte rs = unpackBuckets d byte (rs.filter (fun r => !r.isDead)) := by
  induction rs with
  | nil => rfl
  | cons r rs ih =>
    obtain ⟨hd, hrs⟩ := List.forall_mem_cons.mp h
    rw [unpackBuckets, ensure_of hd, ok_bind, ih hrs]
    by_cases hl : r.isDead = true
    · rw [List.filter_cons_of_neg (by simp [hl])]
      simp only [hl, if_true]
      exact bind_pure _
    · rw [List.filter_cons_of_pos (by simp [hl]), unpackBuckets, ensure_of hd, ok_bind]

theorem unpackDormantStore_live {rs : List OnChainBucketRecord} {l : OnChainLedger}
    (h : ∀ r ∈ rs, r.direction = l.direction) :
    unpackDormantStore rs l = unpackDormantStore (rs.filter (fun r => !r.isDead)) l := by
  simp only [unpackDormantStore, unpackBuckets_live h]

theorem packBucket_unpackBucket {d : Direction} {r : OnChainBucketRecord}
    (h : r.direction = d.byte) :
    DormantStore.packBucket d.byte (unpackBucket d r).1 (unpackBucket d r).2 = r := by
  cases r
  cases h
  rfl

theorem unpackDormantStore_ok {rs : List OnChainBucketRecord} {l : OnChainLedger}
    {s : DormantStore} (h : unpackDormantStore rs l = .ok s) :
    s.records.Perm (rs.filter (fun r => !r.isDead)) ∧ s.direction.byte = l.direction ∧
      l.entryCount = l.entries.length ∧ l.entryCount ≤ l.maxEntries ∧ s.ledger = l.entries ∧
      s.ledgerGcOffset = l.gcOffset ∧ s.nextEventIndex = l.nextEventIndex ∧
      s.accruedValueTotal = l.accruedValueTotal ∧
      s.pendingDistributionTotal = l.pendingDistributionTotal := by
  unfold unpackDormantStore at h
  obtain ⟨d, hd, h⟩ := except_bind_ok.mp h
  obtain ⟨_, hc, h⟩ := except_bind_ok.mp h
  obtain ⟨_, hm, h⟩ := except_bind_ok.mp h
  obtain ⟨_, -, h⟩ := except_bind_ok.mp h
  obtain ⟨pairs, hp, h⟩ := except_bind_ok.mp h
  obtain ⟨hrs, rfl⟩ := unpackBuckets_ok hp
  obtain ⟨he, hdir, hl, hg, hn, ha, hq⟩ := DormantStore.fromOnchainParts_ok h
  have hbyte := directionOfByte_ok hd
  refine ⟨?_, hdir ▸ hbyte.symm, ensure_ok.mp hc, ensure_ok.mp hm, hl, hg, hn, ha, hq⟩
  have hmap := he.map (fun e => DormantStore.packBucket s.direction.byte e.1 e.2)
  refine hmap.trans (List.Perm.of_eq ?_)
  rw [List.map_map, hdir]
  conv_rhs => rw [← List.map_id (rs.filter (fun r => !r.isDead))]
  refine List.map_congr_left fun r hr => ?_
  exact packBucket_unpackBucket ((hrs r (List.mem_filter.mp hr).1).trans hbyte)

theorem records_sorted (s : DormantStore) :
    (s.records.map (·.zeroPriceTick)).Pairwise (· < ·) := by
  rw [records_ticks, OrdMap.keys, List.pairwise_map]
  exact s.buckets.sorted

theorem packDormantStore_of {s : DormantStore} {maxBuckets maxLedger : Nat}
    (hb : s.bucketCount ≤ maxBuckets) (hl : s.ledger.length ≤ maxLedger)
    (hm : maxLedger < u32Size) :
    packDormantStore s maxBuckets maxLedger = .ok (s.records, {
      direction := s.direction.byte
      maxEntries := maxLedger
      gcOffset := s.ledgerGcOffset
      nextEventIndex := s.nextEventIndex
      accruedValueTotal := s.accruedValueTotal
      pendingDistributionTotal := s.pendingDistributionTotal
      entryCount := s.ledger.length
      entries := s.ledger }) := by
  rw [packDormantStore, ensure_of hb, ok_bind, ensure_of hl, ok_bind,
    Nat.mod_eq_of_lt (by omega)]
  rfl

/-- The two directions of the round trip. A store of a reached sub-pool that fits the limits is
    read back unchanged; an accepted image is packed again to its live records, in tick order,
    and the same ledger. -/
theorem store_image_round_trip :
    (∀ (w : World) (d : Direction) (maxBuckets maxLedger : U32), w.Reached →
      let s := (w.subPool.side d).dormant
      s.bucketCount ≤ maxBuckets → s.ledger.length ≤ maxLedger →
      ∃ rs l, packDormantStore s maxBuckets maxLedger = .ok (rs, l) ∧
        unpackDormantStore rs l = .ok s) ∧
    (∀ (rs : List OnChainBucketRecord) (l : OnChainLedger) (s : DormantStore) (maxBuckets : U32),
      l.maxEntries < u32Size → unpackDormantStore rs l = .ok s → s.bucketCount ≤ maxBuckets →
      ∃ rs', packDormantStore s maxBuckets l.maxEntries = .ok (rs', l) ∧
        rs'.Perm (rs.filter (fun r => !r.isDead)) ∧
        (rs'.map (·.zeroPriceTick)).Pairwise (· < ·)) := by
  constructor
  · intro w d maxBuckets maxLedger hw s hb hl
    refine ⟨_, _, packDormantStore_of hb hl maxLedger.isLt, ?_⟩
    exact unpackDormantStore_eq (hw.produced d) (.refl _) rfl rfl hl rfl rfl rfl rfl rfl
  · intro rs l s maxBuckets hm h hb
    obtain ⟨hp, hd, hc, hle, he, hg, hn, ha, hq⟩ := unpackDormantStore_ok h
    refine ⟨s.records, ?_, hp, records_sorted s⟩
    rw [packDormantStore_of hb (by rw [he]; omega) hm, hd, hg, hn, ha, hq, he, ← hc]

/-- An eager event is attributed; of two lazy ones the first is replayed by a keeper, and the
    shares of the second stay in flight. -/
def mixedOps : List (MarketParams × EngineOp) :=
  [.open (quoteAt (amount 100)) .long (amount 100) (amount 1),
    .open (quoteAt (amount 100)) .short (amount 300) (amount 2), .sync (quoteAt (amount 80)),
    .sync (quoteAt (amount 84)), .open (quoteAt (amount 84)) .long (amount 100) (amount 3)].map
      (smallMarket .eager, ·) ++
  [.sync (quoteAt (amount 88)), .preSync .long 80 1, .sync (quoteAt (amount 90))].map
      (smallMarket .lazy, ·)

def mixedRun : World := (Trace.run EngineOp.step mixedOps (.new 0 (amount 0) 0)).2

def emptyImage : OnChainLedger where
  direction := 0
  maxEntries := 1024
  gcOffset := 0
  nextEventIndex := 0
  accruedValueTotal := 0
  pendingDistributionTotal := 0
  entryCount := 0
  entries := []

theorem mixedRun_image :
    (∃ rs l, packDormantStore (mixedRun.subPool.side .long).dormant 1024 1024 = .ok (rs, l) ∧
      unpackDormantStore rs l = .ok (mixedRun.subPool.side .long).dormant) ∧
    (∃ rs', packDormantStore (longStore wipedOut) 1024 1024 = .ok (rs', emptyImage) ∧
      rs'.Perm [liveAccount.record 0] ∧ (rs'.map (·.zeroPriceTick)).Pairwise (· < ·)) := by
  constructor
  · have hb : (mixedRun.subPool.side .long).dormant.bucketCount ≤ 1024 := by decide +kernel
    have hl : (mixedRun.subPool.side .long).dormant.ledger.length ≤ 1024 := by decide +kernel
    exact store_image_round_trip.1 mixedRun .long ⟨1024, by decide⟩ ⟨1024, by decide⟩
      ⟨0, amount 0, 0, mixedOps, rfl⟩ hb hl
  · exact store_image_round_trip.2 [resetAccount.record 0, liveAccount.record 0] emptyImage
      (longStore wipedOut) ⟨1024, by decide⟩ (by decide) (by decide +kernel) (by decide +kernel)

end MoleFinance
