import MoleFinance.Chain.Supply

/-! The accounts of a sub-pool along every run. The buckets stored never claim more recovery
shares than the account of the sub-pool has; where they claim as many, the accounts hold a
sub-pool the engine could have left behind. -/
namespace MoleFinance
open MoleMath Call

def DormantStore.image (s : DormantStore) (maxEntries : Nat) : OnChainLedger where
  direction := s.direction.byte
  maxEntries := maxEntries
  gcOffset := s.ledgerGcOffset
  nextEventIndex := s.nextEventIndex
  accruedValueTotal := s.accruedValueTotal
  pendingDistributionTotal := s.pendingDistributionTotal
  entryCount := s.ledger.length
  entries := s.ledger

def writes (bs : List BucketAccount) : List (Int × BucketAccount) :=
  bs.map (fun b => (b.seeds.zeroPriceTick, b))

namespace DormantAccounts

/-- The ledger account; one that is not there yet counts as empty. -/
def ledgerOrEmpty (x : DormantAccounts) (key : Pubkey) (d : Direction) (maxEntries : U32) :
    LedgerAccount := x.ledger.getD (.init key d.isLong maxEntries)

/-- The store all accounts of a direction decode to. -/
def store (x : DormantAccounts) (key : Pubkey) (d : Direction) (maxEntries : U32) :
    Except ProgramError DormantStore :=
  unpackDirection (x.ledgerOrEmpty key d maxEntries) x.buckets.values key d

/-- The accounts hold a store the engine could have left behind. -/
structure Holds (x : DormantAccounts) (key : Pubkey) (d : Direction) (maxEntries : U32)
    (store : DormantStore) : Prop where
  produced : store.Produced
  direction_eq : store.direction = d
  records : (x.live.map (·.record d.byte)).Perm store.records
  length_le : store.ledger.length ≤ maxEntries
  ledger : (x.ledgerOrEmpty key d maxEntries).image d = store.image maxEntries

variable {x : DormantAccounts} {key : Pubkey} {d : Direction} {maxEntries : U32}
  {store : DormantStore}

theorem Holds.unpack (h : x.Holds key d maxEntries store) {rs : List OnChainBucketRecord}
    (hrs : rs.Perm (x.live.map (·.record d.byte))) :
    unpackDormantStore rs ((x.ledgerOrEmpty key d maxEntries).image d) = .ok store := by
  have hd := h.direction_eq
  rw [h.ledger]
  exact unpackDormantStore_eq h.produced (hrs.trans h.records) rfl rfl h.length_le rfl rfl rfl rfl
    rfl

theorem Holds.loaded_eq {side : BridgedSide} {store' : DormantStore}
    (h : x.Holds key d maxEntries store) (hl : x.Loaded key d side store')
    (hp : (side.buckets.filter (fun b => !recordIsDead b)).Perm x.live) : store' = store := by
  obtain ⟨-, -, -, hu⟩ := unpackDirection_ok hl.unpacked
  have hall := h.unpack (hp.map (·.record d.byte))
  rw [ledgerOrEmpty, hl.ledger, Option.getD_some, hu] at hall
  exact Except.ok.inj hall

theorem Addressed.owned (h : x.Addressed key d maxEntries) :
    ∀ b ∈ x.buckets.values, b.subPool = key ∧ b.directionIsLong = d.isLong := by
  intro b hb
  obtain ⟨e, he, rfl⟩ := List.mem_map.mp hb
  exact (h.bucket e.1 e.2 (OrdMap.get?_eq_some.mpr he)).2

theorem Holds.store_eq (h : x.Holds key d maxEntries store)
    (ha : x.Addressed key d maxEntries) : x.store key d maxEntries = .ok store := by
  have hledger : (x.ledgerOrEmpty key d maxEntries).subPool = key ∧
      (x.ledgerOrEmpty key d maxEntries).directionIsLong = d.isLong := by
    unfold ledgerOrEmpty
    cases hl : x.ledger with
    | none => exact ⟨rfl, rfl⟩
    | some l => exact ⟨(ha.ledger l hl).1, (ha.ledger l hl).2.1⟩
  have hchecked : engine store.checkInvariants = .ok () := by
    rw [h.produced.checked]
    rfl
  have hunpack := h.unpack (.refl _)
  unfold DormantAccounts.store unpackDirection
  rw [ensure_of hledger.1, ok_bind, ensure_of hledger.2, ok_bind, collectRecords_eq ha.owned,
    ok_bind]
  refine except_bind_ok.mpr ⟨store, engine_ok.mpr hunpack, ?_⟩
  rw [hchecked, ok_bind]
  rfl

theorem shares_of_store (h : x.store key d maxEntries = .ok store) :
    x.shares = store.totalRecoveryShares := by
  obtain ⟨-, -, hp, -⟩ := unpackDirection_ok h
  rw [x.shares_eq, totalRecoveryShares_records, (hp.map (·.totalRecoveryShares)).sum_nat,
    List.map_map]
  rfl

theorem produced_new (d : Direction) : (DormantStore.new d).Produced where
  inv := DormantStore.new_inv d
  stocked := by
    intro tick h hg
    cases hg
  accrued_lt := Nat.two_pow_pos 128
  window_lt := Nat.two_pow_pos 128

theorem holds_none (key : Pubkey) (d : Direction) (maxEntries : U32) :
    DormantAccounts.none.Holds key d maxEntries (.new d) where
  produced := produced_new d
  direction_eq := rfl
  records := .refl _
  length_le := Nat.zero_le _
  ledger := rfl

theorem addressed_none (key : Pubkey) (d : Direction) (maxEntries : U32) :
    DormantAccounts.none.Addressed key d maxEntries := by
  refine ⟨fun l h => ?_, fun tick b h => ?_, fun tick b h => ?_⟩ <;> cases h

end DormantAccounts

section Repack
variable {x : DormantAccounts} {key : Pubkey} {d : Direction} {maxEntries : U32}
  {side side' : BridgedSide} {store store' : DormantStore} {maxBuckets : Nat}
  {outcome : PackOutcome}

def DormantAccounts.written (x : DormantAccounts) (side : BridgedSide) : DormantAccounts :=
  ⟨some side.ledger, x.buckets.insertAll (writes side.buckets)⟩

structure Repack (x : DormantAccounts) (key : Pubkey) (d : Direction) (maxEntries : U32)
    (maxBuckets : Nat) (side side' : BridgedSide) (store' : DormantStore)
    (outcome : PackOutcome) : Prop where
  addressed : x.Addressed key d maxEntries
  ledger : x.ledger = some side.ledger
  supplied : ∀ b ∈ side.buckets, x.buckets.get? b.seeds.zeroPriceTick = some b
  complete : (side.buckets.filter (fun b => !recordIsDead b)).Perm x.live
  produced : store'.Produced
  direction_eq : store'.direction = d
  packed : packDirection side.ledger side.buckets key d store' maxBuckets maxEntries
    = .ok (outcome, side'.ledger, side'.buckets)

namespace Repack
variable (h : Repack x key d maxEntries maxBuckets side side' store' outcome)
include h

theorem owned : ∀ b ∈ side.buckets, b.seeds = ⟨key, d.isLong, b.seeds.zeroPriceTick⟩ ∧
    b.subPool = key ∧ b.directionIsLong = d.isLong :=
  fun b hb => h.addressed.bucket _ b (h.supplied b hb)

theorem rows : ∃ es matched left,
    Packed key d store' side.buckets side'.buckets es matched left ∧
      PackedRows key side.buckets side'.buckets es :=
  (packDirection_rows h.direction_eq (fun b hb => (h.owned b hb).2.2) h.packed).2

theorem seeds_eq : side'.buckets.map (·.seeds) = side.buckets.map (·.seeds) := by
  obtain ⟨es, matched, left, -, hr⟩ := h.rows
  exact hr.seeds_eq

/-- The copies written back are at the same addresses, and still of this direction. -/
theorem owned' : ∀ b ∈ side'.buckets, b.seeds = ⟨key, d.isLong, b.seeds.zeroPriceTick⟩ ∧
    b.subPool = key ∧ b.directionIsLong = d.isLong := by
  intro b hb
  have hmem : b.seeds ∈ side.buckets.map (·.seeds) := h.seeds_eq ▸ List.mem_map_of_mem hb
  obtain ⟨a, ha, he⟩ := List.mem_map.mp hmem
  obtain ⟨es, matched, left, hp, -⟩ := h.rows
  refine ⟨he ▸ (h.owned a ha).1, ?_⟩
  exact hp.owner h.direction_eq (fun c hc => (h.owned c hc).2) b hb

theorem live_records : ((side'.buckets.filter (fun b => !recordIsDead b)).map
    (·.record d.byte)).Subperm store'.records := by
  obtain ⟨es, matched, left, hp, -⟩ := h.rows
  have hlive := hp.live_records h.direction_eq h.produced
  have hsplit := records_split d store' side.buckets
  refine (hlive.subperm).trans (List.Subperm.trans ?_ hsplit.subperm)
  exact ((placements_fst hp.placed).1.append_right _).subperm

/-- The live accounts after the write: the last copy of each, where it is alive. -/
theorem live_perm : (x.written side').live.Perm
    (((OrdMap.lastWrites (writes side'.buckets)).map Prod.snd).filter
      (fun b => !recordIsDead b)) := by
  unfold DormantAccounts.live DormantAccounts.written OrdMap.values
  simp only
  rw [← OrdMap.insertAll_lastWrites]
  have hp := OrdMap.entries_insertAll_perm (m := x.buckets)
    (OrdMap.lastWrites_nodup (writes side'.buckets))
  have hp := (hp.map Prod.snd).filter (fun b => !recordIsDead b)
  rw [List.map_append, List.filter_append] at hp
  have hrest : ((x.buckets.entries.filter fun e => e.1 ∉
      (OrdMap.lastWrites (writes side'.buckets)).map Prod.fst).map Prod.snd).filter
        (fun b => !recordIsDead b) = [] := by
    refine List.filter_eq_nil_iff.mpr fun b hb hl => ?_
    obtain ⟨⟨tick, c⟩, he, rfl⟩ := List.mem_map.mp hb
    obtain ⟨hmem, hout⟩ := List.mem_filter.mp he
    have hget := OrdMap.get?_eq_some.mpr hmem
    have hlive : c ∈ x.live := DormantAccounts.mem_live.mpr ⟨⟨tick, hget⟩, by simpa using hl⟩
    obtain ⟨hc, -⟩ := List.mem_filter.mp (h.complete.mem_iff.mpr hlive)
    have htick : c.seeds.zeroPriceTick = tick := by rw [(h.addressed.bucket tick c hget).1]
    have hkeys : tick ∈ (writes side'.buckets).map Prod.fst := by
      have hmap : (writes side'.buckets).map Prod.fst
          = (side'.buckets.map (·.seeds)).map BucketSeeds.zeroPriceTick := by
        simp [writes, Function.comp_def]
      rw [hmap, h.seeds_eq, List.map_map]
      exact List.mem_map.mpr ⟨c, hc, htick⟩
    exact of_decide_eq_true hout (OrdMap.mem_keys_lastWrites.mpr hkeys)
  rwa [hrest, List.append_nil] at hp

theorem live_subperm : ((x.written side').live.map (·.record d.byte)).Subperm store'.records := by
  have hsub : (((OrdMap.lastWrites (writes side'.buckets)).map Prod.snd).filter
      (fun b => !recordIsDead b)).Sublist
        (side'.buckets.filter (fun b => !recordIsDead b)) := by
    refine List.Sublist.filter _ ?_
    have hw := (OrdMap.lastWrites_sublist (writes side'.buckets)).map Prod.snd
    rwa [writes, List.map_map, show Prod.snd ∘ (fun b : BucketAccount =>
      (b.seeds.zeroPriceTick, b)) = id from rfl, List.map_id] at hw
  exact ((h.live_perm.map _).subperm.trans (hsub.map _).subperm).trans h.live_records

theorem shares_le : (x.written side').shares ≤ store'.totalRecoveryShares := by
  have hle := subperm_weight_le (·.totalRecoveryShares) h.live_subperm
  rw [List.map_map] at hle
  rw [DormantAccounts.shares_eq, totalRecoveryShares_records]
  exact hle

theorem records_perm (hs : (x.written side').shares = store'.totalRecoveryShares) :
    ((x.written side').live.map (·.record d.byte)).Perm store'.records := by
  refine perm_of_subperm_weight (·.totalRecoveryShares) h.live_subperm (fun r hr => ?_) ?_
  · obtain ⟨e, he, rfl⟩ := List.mem_map.mp hr
    have hg := OrdMap.get?_eq_some.mpr he
    exact (h.produced.stocked e.1 e.2.holding
      (by rw [DormantStore.holdings_get?, hg]; rfl)).1
  · rw [← totalRecoveryShares_records, ← hs, DormantAccounts.shares_eq, List.map_map]
    exact le_rfl

theorem addressed' : (x.written side').Addressed key d maxEntries := by
  have hback : ∀ tick b, (x.written side').buckets.get? tick = some b →
      (b ∈ side'.buckets ∧ b.seeds.zeroPriceTick = tick) ∨ x.buckets.get? tick = some b := by
    intro tick b hb
    unfold DormantAccounts.written at hb
    simp only at hb
    rw [← OrdMap.insertAll_lastWrites,
      OrdMap.get?_insertAll (OrdMap.lastWrites_nodup _)] at hb
    cases hb with
    | inl hb =>
      obtain ⟨c, hc, he⟩ := List.mem_map.mp ((OrdMap.lastWrites_sublist _).subset hb)
      cases he
      exact .inl ⟨hc, rfl⟩
    | inr hb => exact .inr hb.2
  refine ⟨?_, fun tick b hb => ?_, fun tick b hb hl => ?_⟩
  · rintro l ⟨⟩
    obtain ⟨⟨l', -, hflush⟩, -⟩ :=
      packDirection_rows h.direction_eq (fun b hb => (h.owned b hb).2.2) h.packed
    rw [hflush]
    exact h.addressed.ledger side.ledger h.ledger
  · cases hback tick b hb with
    | inl hb =>
      obtain ⟨hseeds, hown⟩ := h.owned' b hb.1
      exact ⟨hb.2 ▸ hseeds, hown⟩
    | inr hb => exact h.addressed.bucket tick b hb
  · cases hback tick b hb with
    | inl hb =>
      have hmem : b.record d.byte ∈ store'.records := by
        refine h.live_records.subset (List.mem_map.mpr ⟨b, ?_, rfl⟩)
        exact List.mem_filter.mpr ⟨hb.1, by simp [hl]⟩
      obtain ⟨e, he, hr⟩ := List.mem_map.mp hmem
      have hpos := (h.produced.stocked e.1 e.2.holding
        (by rw [DormantStore.holdings_get?, OrdMap.get?_eq_some.mpr he]; rfl)).1
      have hsh : e.2.totalRecoveryShares = b.totalRecoveryShares :=
        congrArg OnChainBucketRecord.totalRecoveryShares hr
      exact hsh ▸ hpos
    | inr hb => exact h.addressed.stocked tick b hb hl

theorem ledger_image : side'.ledger.image d = store'.image maxEntries ∧
    store'.ledger.length ≤ maxEntries := by
  obtain ⟨⟨l, hpack, hflush⟩, -⟩ :=
    packDirection_rows h.direction_eq (fun b hb => (h.owned b hb).2.2) h.packed
  have hlen : store'.ledger.length ≤ maxEntries := by
    unfold packDormantStore at hpack
    obtain ⟨_, -, hpack⟩ := except_bind_ok.mp hpack
    obtain ⟨_, hle, -⟩ := except_bind_ok.mp hpack
    exact ensure_ok.mp hle
  obtain ⟨hg, hn, ha, hq, he, hc⟩ := packDormantStore_ok hpack
  have hmax := (h.addressed.ledger side.ledger h.ledger).2.2
  have hlt := maxEntries.isLt
  rw [Nat.mod_eq_of_lt (by omega)] at hc
  refine ⟨?_, hlen⟩
  rw [hflush]
  simp only [LedgerAccount.image, LedgerAccount.flush, DormantStore.image, hg, hn, ha, hq, he, hc,
    hmax, h.direction_eq]

theorem holds (hs : (x.written side').shares = store'.totalRecoveryShares) :
    (x.written side').Holds key d maxEntries store' :=
  ⟨h.produced, h.direction_eq, h.records_perm hs, h.ledger_image.2, h.ledger_image.1⟩

end Repack
end Repack

end MoleFinance
