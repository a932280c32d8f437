import MoleFinance.Runtime.Reach
import MoleFinance.Engine.CatchUp

/-! What the calls of a keeper do to the accounts: a pre-sync catches one bucket up and rewrites
the others as they are, an initialisation adds a dead account, a closing removes one. -/
namespace MoleFinance
open MoleMath Call Trace

namespace Runtime
namespace ChainRuntime
variable {x x' y : ChainRuntime} {id slot : Nat} {d : Direction} {tick : Int} {core : SubPool}
  {account : SubPoolAccount} {long short : DistributionLedgerAccount}

def head (x : ChainRuntime) (id : Nat) (d : Direction) : Option Nat :=
  (x.ledgers.get? (ledgerKey id d)).map (·.ledger.nextEventIndex)

/-- Neither the market nor the ledgers have moved, and the same sub-pools are there. -/
structure Upkept (x y : ChainRuntime) : Prop where
  market : y.market = x.market
  strict : y.strictPdaLifecycle = x.strictPdaLifecycle
  registered : ∀ i, y.subPools.contains i = x.subPools.contains i
  head : ∀ i e, y.head i e = x.head i e

theorem Upkept.refl (x : ChainRuntime) : Upkept x x := ⟨rfl, rfl, fun _ => rfl, fun _ _ => rfl⟩

theorem Upkept.trans {z : ChainRuntime} (h : Upkept x y) (h' : Upkept y z) : Upkept x z where
  market := h'.market.trans h.market
  strict := h'.strict.trans h.strict
  registered i := (h'.registered i).trans (h.registered i)
  head i e := (h'.head i e).trans (h.head i e)

theorem Present.ledger (h : x.Present id account long short) (d : Direction) :
    ∃ ledger, x.ledgers.get? (ledgerKey id d) = some ledger := by
  cases d with
  | long => exact ⟨long, h.long⟩
  | short => exact ⟨short, h.short⟩

theorem Sound.shaped (h : x.Sound) : x.Shaped := by
  obtain ⟨-, _, _, ht, -, -⟩ := h
  exact ht.shaped

theorem recordFor_records (store : DormantStore) (tick : Int) : recordFor store.records tick
    = (store.buckets.get? tick).map (DormantStore.packBucket store.direction.byte tick) := by
  cases hb : store.buckets.get? tick with
  | none =>
    refine recordFor_none.mpr ?_
    rw [records_ticks, OrdMap.mem_keys]
    rintro ⟨b, hb'⟩
    cases hb.symm.trans hb'
  | some b =>
    refine (recordFor_some (records_nodup store)).mpr ⟨?_, rfl⟩
    exact List.mem_map.mpr ⟨(tick, b), OrdMap.get?_eq_some.mp hb, rfl⟩

/-- The engine's record of a bucket is the one in its account, if that is in use. -/
theorem built_record (h : x.Shaped) (hb : x.buildCoreSubPool id = .ok core) (d : Direction)
    (tick : Int) : recordFor (core.side d).dormant.records tick
      = (x.live.get? (bucketKey id d tick)).map (·.record) := by
  have hu := built_dormant hb d
  unfold unpackDormant at hu
  cases hl : x.ledgers.get? (ledgerKey id d) with
  | none => simp [hl] at hu
  | some ledger =>
    rw [hl] at hu
    simp only [clearing_ok] at hu
    have hperm := (unpackDormantStore_ok hu).1
    refine Option.ext fun r => ?_
    rw [recordFor_some (records_nodup _), hperm.mem_iff, List.mem_filter, mem_bucketsOf,
      Option.map_eq_some_iff]
    constructor
    · rintro ⟨⟨⟨key, a, ha, rfl, rfl, rfl⟩, hlive⟩, htick⟩
      refine ⟨a, ?_, rfl⟩
      have hkey : bucketKey (BucketKey.subPoolId key) (BucketKey.direction key) tick = key := by
        rw [← htick, (h.bucket key a ha).2.2]
        rfl
      rw [hkey, get?_live, ha, Option.filter_some, if_pos hlive]
    · rintro ⟨a, ha, rfl⟩
      rw [get?_live, Option.filter_eq_some_iff] at ha
      exact ⟨⟨⟨_, a, ha.1, rfl, rfl, rfl⟩, ha.2⟩, (h.bucket _ a ha.1).2.2⟩

theorem replayed_live (store : DormantStore) {b : DormantBucket} {byte : Nat}
    (h : (DormantStore.packBucket byte tick b).isDead = false) :
    (DormantStore.packBucket byte tick (store.replayed b)).isDead = false := by
  simp only [OnChainBucketRecord.isDead, DormantStore.packBucket, DormantStore.replayed,
    Bool.and_eq_false_iff, beq_eq_false_iff_ne, ne_eq] at h ⊢
  omega

/-- One bucket has caught up. Of the other accounts at most dead ones are gone. -/
structure CaughtUp (x y : ChainRuntime) (id : Nat) (d : Direction) (tick : Int) : Prop extends
    Upkept x y where
  served : ∃ a b n, x.buckets.get? (bucketKey id d tick) = some a ∧ a.record.isDead = false ∧
    y.buckets.get? (bucketKey id d tick) = some b ∧ b.record.isDead = false ∧
    x.head id d = some n ∧ b.record.lastAppliedIndex = n
  others : ∀ key, key ≠ bucketKey id d tick → y.buckets.get? key = x.buckets.get? key ∨
    x.strictPdaLifecycle = false ∧ y.buckets.get? key = none ∧
      ∃ a, x.buckets.get? key = some a ∧ a.record.isDead = true

theorem recordFor_settled (hs : core.Sound) {e : Direction} {j : Int}
    (h : ¬ (e = d ∧ j = tick)) :
    recordFor ((core.settled d tick).side e).dormant.records j
      = recordFor (core.side e).dormant.records j := by
  rw [recordFor_records, recordFor_records, SubPool.settled_side]
  by_cases he : e = d
  · subst he
    have hj : j ≠ tick := fun hj => h ⟨rfl, hj⟩
    rw [if_pos rfl, DormantStore.settle_get?, if_neg hj,
      (DormantStore.settle_upkeep (hs e).1 tick).direction_eq]
  · rw [if_neg he]

theorem recordFor_settled_self (hs : core.Sound) {b : DormantBucket}
    (hb : (core.side d).dormant.buckets.get? tick = some b) :
    recordFor ((core.settled d tick).side d).dormant.records tick
      = some (DormantStore.packBucket (core.side d).dormant.direction.byte tick
        ((core.side d).dormant.replayed b)) := by
  rw [recordFor_records, SubPool.settled_side, if_pos rfl, DormantStore.settle_get?, if_pos rfl, hb,
    (DormantStore.settle_upkeep (hs d).1 tick).direction_eq]
  rfl

theorem settled_next (core : SubPool) (d e : Direction) (tick : Int) :
    ((core.settled d tick).side e).dormant.nextEventIndex
      = (core.side e).dormant.nextEventIndex := by
  rw [SubPool.settled_side]
  split_ifs
  · exact DormantStore.settle_next _ _
  · rfl

theorem Shaped.filed (h : x.Shaped) {a : DormantBucketAccount}
    (ha : x.buckets.get? (bucketKey id d tick) = some a) : a = ⟨id, a.record⟩ := by
  have hid := (h.bucket _ a ha).1
  cases a
  cases hid
  rfl

theorem written_upkept (hw : x.WroteBack id core (core.settled d tick) account long short) :
    Upkept x (x.written id account long short (core.settled d tick)) := by
  have htouch := written_touches hw.present (core.settled d tick)
  refine ⟨htouch.market_eq, htouch.strict_eq, fun i => ?_, fun i e => ?_⟩
  · by_cases hi : i = id
    · subst hi
      have hid : account.subPoolId = i := x.keyed i account hw.present.account
      have hthere : (x.written i account long short (core.settled d tick)).subPools.get? i
          = some (account.writeBack (core.settled d tick)) := by
        simp only [written, putSubPool, SubPoolAccount.writeBack, hid, OrdMap.get?_insert_self]
      rw [OrdMap.contains, OrdMap.contains, hthere, hw.present.account]
      rfl
    · rw [OrdMap.contains, OrdMap.contains, htouch.subPools i hi]
  · by_cases hi : i = id
    · subst hi
      obtain ⟨ledger, hl, himage⟩ := @ledger_written x i (core.settled d tick) account long short e
      obtain ⟨old, hold⟩ := hw.present.ledger e
      rw [head, head, hl, hold, Option.map_some, Option.map_some, himage,
        unpackDormant_head (built_dormant hw.built e) hold]
      exact congrArg some (settled_next core d e tick)
    · rw [head, head, htouch.ledgers i e hi]

theorem written_served (h : x.Shaped) (hs : core.Sound)
    (hw : x.WroteBack id core (core.settled d tick) account long short) {b : DormantBucket}
    (hb : (core.side d).dormant.buckets.get? tick = some b) :
    ∃ a c n, x.buckets.get? (bucketKey id d tick) = some a ∧ a.record.isDead = false ∧
      (x.written id account long short (core.settled d tick)).buckets.get? (bucketKey id d tick)
        = some c ∧ c.record.isDead = false ∧ x.head id d = some n ∧
      c.record.lastAppliedIndex = n := by
  have hself := built_record h hw.built d tick
  rw [recordFor_records, hb, Option.map_some] at hself
  obtain ⟨a, ha, hra⟩ := Option.map_eq_some_iff.mp hself.symm
  rw [get?_live, Option.filter_eq_some_iff, Bool.not_eq_true'] at ha
  obtain ⟨ledger, hl⟩ := hw.present.ledger d
  have hhead := unpackDormant_head (built_dormant hw.built d) hl
  have hlive := replayed_live (core.side d).dormant (hra ▸ ha.2)
  refine ⟨a, ⟨id, DormantStore.packBucket (core.side d).dormant.direction.byte tick
    ((core.side d).dormant.replayed b)⟩, ledger.ledger.nextEventIndex, ha.1, ha.2, ?_, hlive,
    by rw [head, hl]; rfl, hhead.symm⟩
  rw [get?_written, recordFor_settled_self hs hb, ha.1]
  have hfiled := h.filed ha.1
  split_ifs
  · rw [hfiled]
    rfl
  · rfl

theorem written_others (h : x.Shaped) (hs : core.Sound)
    (hw : x.WroteBack id core (core.settled d tick) account long short) {i : Nat} {e : Direction}
    {j : Int} (hne : bucketKey i e j ≠ bucketKey id d tick) :
    (x.written id account long short (core.settled d tick)).buckets.get? (bucketKey i e j)
        = x.buckets.get? (bucketKey i e j) ∨
      x.strictPdaLifecycle = false ∧
        (x.written id account long short (core.settled d tick)).buckets.get? (bucketKey i e j)
          = none ∧ ∃ a, x.buckets.get? (bucketKey i e j) = some a ∧ a.record.isDead = true := by
  by_cases hi : i = id
  · subst hi
    have hapart : ¬ (e = d ∧ j = tick) := by
      rintro ⟨rfl, rfl⟩
      exact hne rfl
    rw [get?_written, recordFor_settled hs hapart, built_record h hw.built, get?_live]
    cases ha : x.buckets.get? (bucketKey i e j) with
    | none =>
      refine .inl ?_
      split_ifs <;> rfl
    | some a =>
      have hfiled := h.filed ha
      cases hdead : a.record.isDead with
      | false =>
        refine .inl ?_
        simp only [Option.filter_some, hdead, Bool.not_false, if_true, Option.map_some,
          Option.getD_some]
        split_ifs
        · rfl
        · rw [← hfiled]
      | true =>
        -- strict mode keeps a dead account as it is, loose mode drops it
        simp only [Option.filter_some, hdead, Bool.not_true, Bool.false_eq_true, if_false,
          Option.map_none, Option.getD_none, Option.map_some]
        by_cases hstrict : x.strictPdaLifecycle = true
        · refine .inl ?_
          rw [if_pos hstrict, zeroRecord, if_pos hdead]
        · exact .inr ⟨by simpa using hstrict, if_neg hstrict, a, rfl, hdead⟩
  · have htouch := written_touches hw.present (core.settled d tick)
    exact .inl (htouch.buckets (bucketKey i e j) hi)

theorem written_caughtUp (h : x.Shaped) (hs : core.Sound)
    (hw : x.WroteBack id core (core.settled d tick) account long short) {b : DormantBucket}
    (hb : (core.side d).dormant.buckets.get? tick = some b) :
    CaughtUp x (x.written id account long short (core.settled d tick)) id d tick where
  toUpkept := written_upkept hw
  served := written_served h hs hw hb
  others key hkey := by
    rw [← BucketKey.bucketKey_eta key] at hkey ⊢
    exact written_others h hs hw hkey

theorem preSyncBucket_cases (h : x.Kept) (id : Nat) (d : Direction) (tick : Int) (slot : Nat) :
    (∃ e, preSyncBucket id d tick slot x = .error e x) ∨
      ∃ out y, preSyncBucket id d tick slot x = .ok out y ∧ CaughtUp x y id d tick := by
  unfold preSyncBucket
  rw [get_bind]
  by_cases hb : x.buckets.contains (bucketKey id d tick) = true
  · rw [ensure_of hb, orFail_ok_bind]
    obtain ⟨a, ha⟩ := OrdMap.contains_iff.mp hb
    obtain ⟨acc, hacc⟩ := h.indexed.lodged id d tick a ha
    obtain ⟨w, hw, hbuilt⟩ := h.hosts hacc
    cases hc : preSyncDormantBucket x.market.params w.subPool d tick slot with
    | error e => exact .inl ⟨_, onSubPool_error hbuilt hc⟩
    | ok r =>
      obtain ⟨core', out⟩ := r
      obtain ⟨hschema, -, rfl⟩ := preSync_within hw.reached.inv hc
      obtain ⟨b, hbucket⟩ := preSync_bucket hc
      by_cases hf : x.Fits id (w.subPool.settled d tick)
      · obtain ⟨account, long, short, _, _, hp, -⟩ := buildCore_ok hbuilt
        refine .inr ⟨out, _, (onSubPool_accepted hbuilt hc hf hp).trans rfl, ?_⟩
        exact written_caughtUp (h.sound_of hschema).shaped hw.reached.inv.sound ⟨hbuilt, hp, hf⟩
          hbucket
      · exact .inl (onSubPool_unfit hbuilt hc hf)
  · rw [ensure_not hb]
    exact .inl ⟨_, rfl⟩

structure Serves (market : MarketParams) (pending : Nat) : Prop where
  schema : market.schemaVersion = schemaVersionCurrent
  unpaused : market.paused = false
  budget : pending ≤ market.maxPendingApplyPerTx

theorem preSyncBucket_accepted (h : x.Kept) {a : DormantBucketAccount} {n : Nat}
    (ha : x.buckets.get? (bucketKey id d tick) = some a) (hlive : a.record.isDead = false)
    (hn : x.head id d = some n)
    (hserves : Serves x.market.params (n - a.record.lastAppliedIndex)) (slot : Nat) :
    ∃ out y, preSyncBucket id d tick slot x = .ok out y := by
  obtain ⟨acc, hacc⟩ := h.indexed.lodged id d tick a ha
  obtain ⟨w, hw, hbuilt⟩ := h.hosts hacc
  have hshaped := (h.sound_of hserves.schema).shaped
  have hrecord := built_record hshaped hbuilt d tick
  rw [get?_live, ha, Option.filter_some, if_pos (by simp [hlive]), recordFor_records] at hrecord
  obtain ⟨b, hb, hab⟩ := Option.map_eq_some_iff.mp hrecord
  have happlied : b.lastAppliedIndex = a.record.lastAppliedIndex :=
    congrArg OnChainBucketRecord.lastAppliedIndex hab
  obtain ⟨ledger, hl, hhead⟩ := Option.map_eq_some_iff.mp hn
  have hlag : w.subPool.lag d tick = n - a.record.lastAppliedIndex := by
    rw [SubPool.lag_of hb, happlied, ← hhead, unpackDormant_head (built_dormant hbuilt d) hl]
  obtain ⟨out, hc⟩ : ∃ out, preSyncDormantBucket x.market.params w.subPool d tick slot
      = .ok (w.subPool.settled d tick, out) :=
    preSync_of hw.reached.inv hb hserves.schema hserves.unpaused (hlag ▸ hserves.budget)
  have hcall : EngineOp.call x.market.params w (.preSync d tick slot)
      = some (.ok ({ w with subPool := w.subPool.settled d tick }, .preSynced out)) :=
    congrArg (fun r => some (w.withSubPool .preSynced <$> r)) hc
  have hw' := hw.call hcall
  obtain ⟨account, long, short, _, _, hp, -⟩ := buildCore_ok hbuilt
  have hfits : x.Fits id (w.subPool.settled d tick) := by
    refine fun e => ⟨⟨hw'.bucketCount_le e, hw'.within e⟩, fun _ r hr => ?_⟩
    obtain ⟨entry, hentry, rfl⟩ := List.mem_map.mp hr
    have hget := OrdMap.get?_eq_some.mpr hentry
    cases hold : (w.subPool.side e).dormant.buckets.get? entry.1 with
    | none =>
      rw [(SubPool.settled_get? w.subPool d e tick entry.1).mpr hold] at hget
      cases hget
    | some old => exact unpackDormant_contains hshaped (built_dormant hbuilt e) hold
  refine ⟨out, x.written id account long short (w.subPool.settled d tick), ?_⟩
  unfold preSyncBucket
  rw [get_bind, ensure_of (OrdMap.contains_iff.mpr ⟨a, ha⟩), orFail_ok_bind]
  exact (onSubPool_accepted hbuilt hc hfits hp).trans rfl

end ChainRuntime
end Runtime
end MoleFinance
