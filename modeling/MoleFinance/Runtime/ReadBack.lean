import MoleFinance.Chain.Image
import MoleFinance.Runtime.Modes

/-! Loose mode, read after written: the accounts of a sub-pool are the image of the engine's view
of it, with a bucket account for each of its buckets and no others. -/
namespace MoleFinance
open MoleMath Call

namespace Runtime
namespace ChainRuntime
variable {x y : ChainRuntime} {id : Nat} {d : Direction} {store : DormantStore}
  {core s : SubPool} {account : SubPoolAccount} {long short : DistributionLedgerAccount}

structure Holds (x : ChainRuntime) (id : Nat) (s : SubPool) : Prop where
  built : x.buildCoreSubPool id = .ok s
  slots : ∀ d tick, x.buckets.contains (bucketKey id d tick) = true ↔
    ∃ b, (s.side d).dormant.buckets.get? tick = some b

theorem Shaped.bucketsOf_nodup (h : x.Shaped) (id : Nat) (d : Direction) :
    ((x.bucketsOf id d).values.map (·.record)).Nodup := by
  refine List.Nodup.of_map (·.zeroPriceTick) ?_
  have hticks : ((x.bucketsOf id d).values.map (·.record)).map (·.zeroPriceTick)
      = (x.bucketsOf id d).keys.map BucketKey.tick := by
    simp only [OrdMap.values, OrdMap.keys, List.map_map]
    refine List.map_congr_left fun e he => ?_
    have hget := OrdMap.get?_eq_some.mpr he
    rw [bucketsOf, OrdMap.get?_filter, Option.filter_eq_some_iff] at hget
    exact (h.bucket e.1 e.2 hget.1).2.2
  rw [hticks]
  refine (x.bucketsOf id d).keys_nodup.map_on fun k hk j hj ht => ?_
  have hshape : ∀ key ∈ (x.bucketsOf id d).keys, key = bucketKey id d (BucketKey.tick key) := by
    intro key hkey
    obtain ⟨a, ha⟩ := OrdMap.mem_keys.mp hkey
    rw [bucketsOf, OrdMap.get?_filter, Option.filter_eq_some_iff, decide_eq_true_eq] at ha
    rw [← ha.2.1, ← ha.2.2]
    rfl
  rw [hshape k hk, hshape j hj, ht]

theorem unpackDormant_of (h : y.Shaped) (hs : store.Produced) (hd : store.direction = d) {m : Nat}
    (hm : store.ledger.length ≤ m) {ledger : DistributionLedgerAccount}
    (hl : y.ledgers.get? (ledgerKey id d) = some ledger) (hi : ledger.ledger = store.image m)
    (hb : ∀ tick, y.buckets.get? (bucketKey id d tick)
      = (recordFor store.records tick).map (⟨id, ·⟩)) :
    y.unpackDormant id d = .ok store := by
  have hmem : ∀ r, r ∈ (y.bucketsOf id d).values.map (·.record) ↔ r ∈ store.records := by
    intro r
    rw [mem_bucketsOf]
    constructor
    · rintro ⟨key, a, ha, rfl, rfl, rfl⟩
      have hget := hb (BucketKey.tick key)
      rw [BucketKey.bucketKey_eta, ha] at hget
      obtain ⟨r, hr, hra⟩ := Option.map_eq_some_iff.mp hget.symm
      rw [← hra]
      exact (mem_of_recordFor hr).1
    · intro hr
      have hget := hb r.zeroPriceTick
      rw [(recordFor_some (records_nodup store)).mpr ⟨hr, rfl⟩] at hget
      exact ⟨_, _, hget, rfl, rfl, rfl⟩
  have hn : store.records.Nodup := List.Nodup.of_map _ (records_nodup store)
  have hperm : ((y.bucketsOf id d).values.map (·.record)).Perm store.records :=
    (List.perm_ext_iff_of_nodup (h.bucketsOf_nodup id d) hn).mpr hmem
  unfold unpackDormant
  rw [hl]
  simp only [clearing_ok, hi]
  exact unpackDormantStore_eq hs hperm rfl rfl hm rfl rfl rfl rfl rfl

section Write

theorem get?_written (x : ChainRuntime) (id : Nat) (account : SubPoolAccount)
    (long short : DistributionLedgerAccount) (core : SubPool) (d : Direction) (tick : Int) :
    (x.written id account long short core).buckets.get? (bucketKey id d tick) =
      if x.strictPdaLifecycle = true then
        (x.buckets.get? (bucketKey id d tick)).map (fun a => { a with
          record := (recordFor (core.side d).dormant.records tick).getD (zeroRecord a.record) })
      else (recordFor (core.side d).dormant.records tick).map (⟨id, ·⟩) := by
  have hput : (x.written id account long short core).buckets
      = ((x.stored id .long long core.long.dormant).stored id .short short
        core.short.dormant).buckets := rfl
  rw [hput, get?_stored, stored_strict]
  cases d with
  | long =>
    rw [if_neg (fun h => by cases h.2), get?_stored, if_pos ⟨rfl, rfl⟩]
    rfl
  | short =>
    rw [if_pos ⟨rfl, rfl⟩, get?_stored_of_ne (by decide)]
    rfl

theorem get?_written_loose (hl : x.strictPdaLifecycle = false) (d : Direction) (tick : Int) :
    (x.written id account long short core).buckets.get? (bucketKey id d tick)
      = (recordFor (core.side d).dormant.records tick).map (⟨id, ·⟩) := by
  rw [get?_written, hl]
  rfl

theorem ledger_written (d : Direction) :
    ∃ ledger, (x.written id account long short core).ledgers.get? (ledgerKey id d) = some ledger ∧
      ledger.ledger = (core.side d).dormant.image x.market.params.maxDistributionLedgerSize := by
  have hput : (x.written id account long short core).ledgers
      = ((x.stored id .long long core.long.dormant).stored id .short short
        core.short.dormant).ledgers := rfl
  have hm := (stored_touches x id .long long core.long.dormant).market_eq
  rw [hput, stored_ledgers, withLedger, OrdMap.get?_insert, stored_ledgers]
  cases d with
  | long =>
    rw [if_neg (by simp), withLedger, OrdMap.get?_insert_self]
    exact ⟨_, rfl, rfl⟩
  | short =>
    rw [if_pos rfl, hm]
    exact ⟨_, rfl, rfl⟩

theorem written_holds (h : x.Shaped) (hl : x.strictPdaLifecycle = false)
    (hp : x.Present id account long short) (hid : core.subPoolId = account.subPoolId)
    (hf : x.Fits id core) (hs : ∀ d, (core.side d).dormant.Produced)
    (hd : ∀ d, (core.side d).dormant.direction = d) :
    (x.written id account long short core).Holds id core where
  built := by
    have hunpack : ∀ d, (x.written id account long short core).unpackDormant id d
        = .ok (core.side d).dormant := by
      intro d
      obtain ⟨ledger, hled, hi⟩ := @ledger_written x id core account long short d
      exact unpackDormant_of (h.written hd) (hs d) (hd d) (hf d).1.2
        hled hi (get?_written_loose hl d)
    have hacc : (x.written id account long short core).subPools.get? id
        = some (account.writeBack core) := by
      have hkey : account.subPoolId = id := x.keyed id account hp.account
      simp only [written, putSubPool, SubPoolAccount.writeBack, hkey, OrdMap.get?_insert_self]
    have hlong := hunpack .long
    have hshort := hunpack .short
    simp only [SubPool.side] at hlong hshort
    rw [buildCoreSubPool, hacc]
    simp only [hlong, hshort, ok_bind, SubPoolAccount.writeBack, SideAccount.view_of, ← hid]
    rfl
  slots d tick := by
    rw [OrdMap.contains_iff, get?_written_loose hl]
    constructor
    · rintro ⟨a, ha⟩
      obtain ⟨r, hr, -⟩ := Option.map_eq_some_iff.mp ha
      obtain ⟨hmem, ht⟩ := mem_of_recordFor hr
      have hkey : tick ∈ (core.side d).dormant.buckets.keys := by
        rw [← records_ticks, ← ht]
        exact List.mem_map_of_mem hmem
      exact OrdMap.mem_keys.mp hkey
    · intro hb
      have hkey := OrdMap.mem_keys.mpr hb
      rw [← records_ticks] at hkey
      obtain ⟨r, hr, ht⟩ := List.mem_map.mp hkey
      exact ⟨_, by rw [(recordFor_some (records_nodup _)).mpr ⟨hr, ht⟩]; rfl⟩

end Write

theorem Holds.touched {i : Nat} (h : x.Holds i s) (ht : Touches id x y) (hi : i ≠ id) :
    y.Holds i s := by
  have hbuckets : ∀ d, y.bucketsOf i d = x.bucketsOf i d := by
    intro d
    refine OrdMap.ext_get? fun key => ?_
    simp only [bucketsOf, OrdMap.get?_filter]
    by_cases hk : BucketKey.subPoolId key = i
    · rw [ht.buckets key (hk ▸ hi)]
    · simp [hk]
  have hunpack : ∀ d, y.unpackDormant i d = x.unpackDormant i d := by
    intro d
    rw [unpackDormant, unpackDormant, ht.ledgers i d hi, hbuckets]
  refine ⟨?_, fun d tick => ?_⟩
  · rw [buildCoreSubPool, ht.subPools i hi, hunpack, hunpack]
    exact h.built
  · rw [← h.slots, OrdMap.contains, OrdMap.contains, ht.buckets (bucketKey i d tick) hi]

theorem Holds.of_accounts (h : x.Holds id s) (hs : y.subPools = x.subPools)
    (hb : y.buckets = x.buckets) (hl : y.ledgers = x.ledgers) : y.Holds id s := by
  obtain ⟨hbuilt, hslots⟩ := h
  refine ⟨?_, fun d tick => ?_⟩
  · rw [← hbuilt]
    simp only [buildCoreSubPool, unpackDormant, bucketsOf, hs, hb, hl]
  · rw [hb]
    exact hslots d tick

end ChainRuntime
end Runtime
end MoleFinance
