import MoleFinance.Dormant.Book
import MoleFinance.Engine.Invariant
import MoleFinance.Lib.Lockstep

/-! Sub-pools that differ in their stores only, and in these only as two stores of one book do.
Engine calls in either distribution mode keep them so, given equal demands. -/
namespace MoleFinance
open MoleMath Call Trace

namespace DormantStore
variable {s t : DormantStore}

def SameBook (s t : DormantStore) : Prop := ∃ v, s.Rep v ∧ t.Rep v

theorem Rep.totalRecoveryShares_eq {v : Book} (h : s.Rep v) :
    s.totalRecoveryShares = v.buckets.sum (fun _ b => b.totalRecoveryShares) := by
  rw [← h.book_eq]
  exact (OrdMap.sum_mapVal (fun _ (b : DormantBucket) => b.totalRecoveryShares)
    (fun _ b => { b with accruedValue := b.accruedValue + s.owed b, lastAppliedIndex := 0 })
    s.buckets).symm

theorem SameBook.totalRecoveryShares_eq (h : s.SameBook t) :
    t.totalRecoveryShares = s.totalRecoveryShares := by
  obtain ⟨v, hs, ht⟩ := h
  rw [hs.totalRecoveryShares_eq, ht.totalRecoveryShares_eq]

theorem SameBook.insertOrMerge (h : s.SameBook t) (tick : Int)
    (anchor shares notional count cap : Nat) :
    Agrees SameBook (DormantStore.insertOrMerge tick anchor shares notional count cap s)
      (DormantStore.insertOrMerge tick anchor shares notional count cap t) := by
  obtain ⟨v, hs, ht⟩ := h
  exact (insertOrMerge_agrees hs tick anchor shares notional count cap).meet
    (insertOrMerge_agrees ht tick anchor shares notional count cap)

theorem SameBook.redeem (h : s.SameBook t) (tick : Int) (shares : Nat) :
    Agrees SameBook (DormantStore.redeem tick shares s) (DormantStore.redeem tick shares t) := by
  obtain ⟨v, hs, ht⟩ := h
  exact (redeem_agrees hs tick shares).meet (redeem_agrees ht tick shares)

theorem Rep.room {v : Book} {p a : Nat} (h : s.Rep v) (ha : s.funds + a < u128Size)
    (hn : s.nextEventIndex + 1 < u64Size) : v.Room p a := by
  obtain ⟨hi, -, rfl⟩ := h
  intro t hs ht0
  have hlt := (sumOutstanding_bounds hs).2 (by norm_num [u128Size])
  obtain ⟨total, hq, hle⟩ := quoteShares_of (by omega : a < u128Size) ht0 hlt (Nat.zero_mul t).le
    hs le_rfl
  have htotal := Nat.le_of_mul_le_mul_right hle (Nat.pos_of_ne_zero ht0)
  rw [← quoteShares_allocated hq, hi.book_funds]
  unfold funds at ha
  exact ⟨by omega, hn⟩

theorem SameBook.distributeBy (h : s.SameBook t) (m m' : DistributeMode) {p a ring : Nat}
    (ha : s.funds + a < u128Size) (hn : s.nextEventIndex + 1 < u64Size) :
    InStep .ledgerCapacityExceeded (fun r r' => r.1.SameBook r'.1 ∧ r.2 = r'.2)
      (commit (DormantStore.distributeBy m p a ring) s)
      (commit (DormantStore.distributeBy m' p a ring) t) := by
  obtain ⟨v, hs, ht⟩ := h
  have hroom := hs.room (p := p) ha hn
  have hlt : a < u128Size := by omega
  by_cases hfull : ∃ s', DormantStore.distributeBy m p a ring s
      = .error .ledgerCapacityExceeded s'
  · rw [commit_error.mpr hfull]
    exact .stopped _
  by_cases hfull' : ∃ t', DormantStore.distributeBy m' p a ring t
      = .error .ledgerCapacityExceeded t'
  · rw [commit_error.mpr hfull']
    exact .stopped' _
  exact .commit ((distributeBy_agrees hs m hlt hroom (fun s' he => hfull ⟨s', he⟩)).meet
    (distributeBy_agrees ht m' hlt hroom (fun t' he => hfull' ⟨t', he⟩)))

end DormantStore

/-- Two sides that differ in their stores only. -/
def Side.Twin (x y : Side) : Prop :=
  ∃ store, y = { x with dormant := store } ∧ x.dormant.SameBook store

structure SubPool.Twin (s t : SubPool) : Prop where
  id_eq : t.subPoolId = s.subPoolId
  price_eq : t.lastPrice = s.lastPrice
  slot_eq : t.lastSyncSlot = s.lastSyncSlot
  sides : ∀ d, (s.side d).Twin (t.side d)

def Twins {α : Type} (r r' : SubPool × α) : Prop := r.1.Twin r'.1 ∧ r.2 = r'.2

structure SubPool.Fit (s : SubPool) : Prop where
  sound : s.Sound
  value_lt : s.value < u128Size
  reserve_lt : s.reserve < u128Size

theorem SubPool.Fit.moved {s s' : SubPool} {paid : Nat} (h : s.Fit) (hm : Moved s s' paid 0) :
    s'.Fit where
  sound := hm.sound
  value_lt := by
    have := hm.value_eq
    have := h.value_lt
    omega
  reserve_lt := hm.reserve_le.trans_lt h.reserve_lt

def SubPool.StoresChecked (s : SubPool) : Prop :=
  ∀ d, (s.side d).dormant.checkInvariants = .ok ()

theorem SubPool.Fit.checked {s : SubPool} (h : s.Fit) : s.StoresChecked := by
  intro d
  have hvd := s.side_value_le d
  have hv := h.value_lt
  have hr := h.reserve_lt
  have hrd : (s.side d).reserve ≤ s.reserve := by
    cases d <;> simp only [SubPool.side, SubPool.reserve] <;> omega
  rw [DormantStore.checkInvariants_eq (h.sound d).1, if_pos]
  simp only [Side.value, Side.reserve, DormantStore.funds, DormantStore.window] at hvd hrd
  exact ⟨by omega, by omega⟩

theorem SubPool.StoresChecked.setSide {s : SubPool} {d : Direction} {x : Side}
    (h : s.StoresChecked) (hx : x.dormant = (s.side d).dormant) :
    (s.setSide d x).StoresChecked := by
  intro e
  rw [side_setSide_eq]
  by_cases he : e = d
  · rw [if_pos he, hx]
    exact h d
  · rw [if_neg he]
    exact h e

theorem World.Inv.fit {w : World} (h : w.Inv) : w.subPool.Fit :=
  ⟨h.sound, h.value_lt, h.reserve_lt⟩

def MarketParams.inMode (mode : DistributeMode) (market : MarketParams) : MarketParams :=
  { market with dormantDistributeMode := mode }

section Parts
variable {market : MarketParams} {m m' : DistributeMode} {s t : SubPool} {x y : Side}
  {d : Direction}

theorem SubPool.Twin.setSide (h : s.Twin t) (hx : x.Twin y) :
    (s.setSide d x).Twin (t.setSide d y) where
  id_eq := by rw [setSide_subPoolId, setSide_subPoolId, h.id_eq]
  price_eq := by rw [setSide_lastPrice, setSide_lastPrice, h.price_eq]
  slot_eq := by rw [setSide_lastSyncSlot, setSide_lastSyncSlot, h.slot_eq]
  sides e := by
    rw [side_setSide_eq, side_setSide_eq]
    by_cases he : e = d
    · rw [if_pos he, if_pos he]
      exact hx
    · rw [if_neg he, if_neg he]
      exact h.sides e

theorem SubPool.Twin.check_eq (h : s.Twin t) (hs : s.StoresChecked) (ht : t.StoresChecked) :
    checkSubpoolInvariants t = checkSubpoolInvariants s := by
  have hzero : ∀ d reason, checkZeroIff (t.side d) reason = checkZeroIff (s.side d) reason := by
    intro d reason
    obtain ⟨store, he, -⟩ := h.sides d
    rw [he]
    rfl
  have hrec : ∀ d reason, checkRecoveryShares (t.side d) reason
      = checkRecoveryShares (s.side d) reason := by
    intro d reason
    obtain ⟨store, he, hb⟩ := h.sides d
    simp only [checkRecoveryShares, he, hb.totalRecoveryShares_eq]
  change (checkZeroIff (t.side .long) _ >>= fun _ => checkZeroIff (t.side .short) _ >>= fun _ =>
      checkRecoveryShares (t.side .long) _ >>= fun _ => checkRecoveryShares (t.side .short) _ >>=
      fun _ => (t.side .long).dormant.checkInvariants >>= fun _ =>
      (t.side .short).dormant.checkInvariants)
    = (checkZeroIff (s.side .long) _ >>= fun _ => checkZeroIff (s.side .short) _ >>= fun _ =>
      checkRecoveryShares (s.side .long) _ >>= fun _ => checkRecoveryShares (s.side .short) _ >>=
      fun _ => (s.side .long).dormant.checkInvariants >>= fun _ =>
      (s.side .short).dormant.checkInvariants)
  simp only [hzero, hrec, hs _, ht _]

theorem transferToRecovery_twins {p a : Nat} (h : x.Twin y) (ha : x.dormant.funds + a < u128Size)
    (hn : x.dormant.nextEventIndex + 1 < u64Size) :
    InStep .ledgerCapacityExceeded (fun r r' => r.1.Twin r'.1 ∧ r.2 = r'.2)
      (transferToRecovery (market.inMode m) p a x)
      (transferToRecovery (market.inMode m') p a y) := by
  obtain ⟨store, rfl, hb⟩ := h
  unfold transferToRecovery
  refine .ite (fun _ => .ok ⟨⟨store, rfl, hb⟩, rfl⟩) fun _ => ?_
  refine .bind (hb.distributeBy m m' ha hn) fun r r' _ _ hr => ?_
  obtain ⟨dormant, receipt⟩ := r
  obtain ⟨dormant', receipt'⟩ := r'
  obtain ⟨hb', rfl⟩ := hr
  exact .same fun dust _ => .same fun inflow _ => .ok ⟨⟨dormant', rfl, hb'⟩, rfl⟩

theorem transferTo_twins {p : Nat} {demand : Demand} (h : s.Twin t) (hs : s.Fit)
    (hn : ∀ d, (s.side d).dormant.nextEventIndex + 1 < u64Size) :
    InStep .ledgerCapacityExceeded Twins (transferTo (market.inMode m) s p d demand)
      (transferTo (market.inMode m') t p d demand) := by
  obtain ⟨store, he, hb⟩ := h.sides d
  obtain ⟨lost, hl, hbl⟩ := h.sides d.opposite
  unfold transferTo
  simp only [he, hl]
  refine .ite (fun _ => .ok ⟨h, rfl⟩) fun _ => ?_
  refine .same fun toActive _ => .same fun toRecovery hrec => ?_
  refine .same fun equity _ => .same fun loserEquity hloser => ?_
  have hroom : (s.side d).dormant.funds + toRecovery < u128Size := by
    have hv := hs.value_lt
    obtain ⟨-, rfl⟩ := math_sub_ok.mp hrec
    have hle := Nat.min_le_right demand.total (s.side d.opposite).poolEquity
    cases d <;> simp only [SubPool.side, Direction.opposite, SubPool.value, Side.value]
      at hv hle ⊢ <;> omega
  refine .bind (transferToRecovery_twins ⟨store, rfl, hb⟩ hroom (hn d)) fun r r' _ _ hr => ?_
  obtain ⟨x, out⟩ := r
  obtain ⟨y, out'⟩ := r'
  obtain ⟨hx, rfl⟩ := hr
  exact .ok ⟨(h.setSide hx).setSide ⟨lost, rfl, hbl⟩, rfl⟩

theorem settleDemands_twins {p : Nat} {demands : Demand × Demand} (h : s.Twin t) (hs : s.Fit)
    (hn : ∀ d, (s.side d).dormant.nextEventIndex + 1 < u64Size) :
    InStep .ledgerCapacityExceeded Twins (settleDemands (market.inMode m) s p demands)
      (settleDemands (market.inMode m') t p demands) := by
  unfold settleDemands
  refine .ite (fun _ => ?_) fun _ => .ite (fun _ => ?_) fun _ => .ok ⟨h, rfl⟩
  · refine .bind (transferTo_twins h hs hn) fun r r' _ _ hr => ?_
    obtain ⟨s1, inflow⟩ := r
    obtain ⟨t1, inflow'⟩ := r'
    obtain ⟨(h1 : s1.Twin t1), rfl⟩ := hr
    exact .ok ⟨h1, rfl⟩
  · refine .bind (transferTo_twins h hs hn) fun r r' _ _ hr => ?_
    obtain ⟨s1, inflow⟩ := r
    obtain ⟨t1, inflow'⟩ := r'
    obtain ⟨(h1 : s1.Twin t1), rfl⟩ := hr
    exact .ok ⟨h1, rfl⟩

end Parts

section Sync
variable {market : MarketParams} {m m' : DistributeMode} {s t : SubPool} {d : Direction}
  {envelope : PriceEnvelope}

theorem SubPool.Twin.atPrice (h : s.Twin t) : (s.atPrice envelope).Twin (t.atPrice envelope) where
  id_eq := h.id_eq
  price_eq := rfl
  slot_eq := rfl
  sides e := by
    rw [side_atPrice, side_atPrice]
    exact h.sides e

theorem pushRotateRecord_twin {x y : Side} {record : RotateRecord} (h : x.Twin y) :
    InStep .ledgerCapacityExceeded Side.Twin (x.pushRotateRecord record)
      (y.pushRotateRecord record) := by
  obtain ⟨store, rfl, hb⟩ := h
  unfold Side.pushRotateRecord
  exact .guard fun _ => .ok ⟨store, rfl, hb⟩

theorem rotateActiveToRecovery_twins {p : Nat} (h : s.Twin t) :
    InStep .ledgerCapacityExceeded SubPool.Twin
      (rotateActiveToRecovery (market.inMode m) s d p)
      (rotateActiveToRecovery (market.inMode m') t d p) := by
  obtain ⟨store, he, hb⟩ := h.sides d
  unfold rotateActiveToRecovery
  simp only [he]
  refine .ite (fun _ => .ok h) fun _ => .same fun tick _ => ?_
  refine .bind (.commit (hb.insertOrMerge tick p _ _ 1 _)) fun r r' _ _ hr => ?_
  obtain ⟨dormant, u⟩ := r
  obtain ⟨dormant', u'⟩ := r'
  obtain ⟨hb', -⟩ := hr
  refine .same fun recoveryShares _ => ?_
  exact .bind (pushRotateRecord_twin ⟨dormant', rfl, hb'⟩) fun x y _ _ hx => .ok (h.setSide hx)

theorem rotateIfDrained_twins (h : s.Twin t) :
    InStep .ledgerCapacityExceeded Twins (rotateIfDrained (market.inMode m) s envelope d)
      (rotateIfDrained (market.inMode m') t envelope d) := by
  obtain ⟨store, he, -⟩ := h.sides d
  unfold rotateIfDrained
  simp only [he, h.id_eq]
  refine .ite (fun _ => .same fun tick _ => ?_) fun _ => .ok ⟨h, rfl⟩
  exact .bind (rotateActiveToRecovery_twins h) fun s1 t1 _ _ h1 => .ok ⟨h1, rfl⟩

theorem poolSyncEvent_twin (h : s.Twin t) (long short : Inflow) :
    poolSyncEvent t envelope long short = poolSyncEvent s envelope long short := by
  have hsnapshot : ∀ d, (t.side d).snapshot = (s.side d).snapshot := by
    intro d
    obtain ⟨store, he, -⟩ := h.sides d
    rw [he]
    rfl
  have hlong : t.long.snapshot = s.long.snapshot := hsnapshot .long
  have hshort : t.short.snapshot = s.short.snapshot := hsnapshot .short
  unfold poolSyncEvent
  rw [h.id_eq, h.price_eq, hlong, hshort]

theorem movePrice_twins (h : s.Twin t) (hs : s.Fit) (ht : t.Fit)
    (hd : syncDemands t envelope.pNow = syncDemands s envelope.pNow)
    (hn : ∀ d, (s.side d).dormant.nextEventIndex + 1 < u64Size) :
    InStep .ledgerCapacityExceeded Twins (movePrice (market.inMode m) s envelope)
      (movePrice (market.inMode m') t envelope) := by
  unfold movePrice
  rw [h.price_eq, hd]
  refine .same fun moveBps _ => .guard fun _ => .same fun demands _ => ?_
  refine .bind (settleDemands_twins h hs hn) fun r r' hx hy hr => ?_
  obtain ⟨s1, long, short⟩ := r
  obtain ⟨t1, long', short'⟩ := r'
  obtain ⟨(h1 : s1.Twin t1), hi⟩ := hr
  cases hi
  have hs1 := settleDemands_moved hs.sound hx
  have ht1 := settleDemands_moved ht.sound hy
  have hs2 := hs1.after (atPrice_moved hs1.sound envelope)
  have ht2 := ht1.after (atPrice_moved ht1.sound envelope)
  refine .bind (rotateIfDrained_twins h1.atPrice) fun r r' hx hy hr => ?_
  obtain ⟨s2, lr⟩ := r
  obtain ⟨t2, lr'⟩ := r'
  obtain ⟨(h2 : s2.Twin t2), hl⟩ := hr
  cases hl
  have hs3 := hs2.after (rotateIfDrained_moved hs2.sound hx)
  have ht3 := ht2.after (rotateIfDrained_moved ht2.sound hy)
  refine .bind (rotateIfDrained_twins h2) fun r r' hx hy hr => ?_
  obtain ⟨s3, sr⟩ := r
  obtain ⟨t3, sr'⟩ := r'
  obtain ⟨(h3 : s3.Twin t3), hsr⟩ := hr
  cases hsr
  have hs4 := hs3.after (rotateIfDrained_moved hs3.sound hx)
  have ht4 := ht3.after (rotateIfDrained_moved ht3.sound hy)
  simp only [h3.check_eq (hs.moved hs4).checked (ht.moved ht4).checked, poolSyncEvent_twin h]
  exact .same fun _ _ => .ok ⟨h3, rfl⟩

end Sync

section Calls
variable {market : MarketParams} {m m' : DistributeMode} {s t : SubPool} {d : Direction}
  {envelope : PriceEnvelope} {p : Position}

structure SubPool.MovesTo (market : MarketParams) (s : SubPool) (envelope : PriceEnvelope) :
    Prop where
  guards : syncGuards market envelope = .ok ()
  priced : s.lastPrice ≠ 0
  moves : envelope.pNow ≠ s.lastPrice
  near : ∃ bps, priceMoveBps s.lastPrice envelope.pNow = .ok bps ∧
    bps ≤ market.maxPriceMoveBpsPerSync

theorem syncPool_twins (h : s.Twin t) (hs : s.Fit) (ht : t.Fit)
    (hmove : s.MovesTo market envelope → syncDemands t envelope.pNow = syncDemands s envelope.pNow ∧
      ∀ d, (s.side d).dormant.nextEventIndex + 1 < u64Size) :
    InStep .ledgerCapacityExceeded Twins (syncPool (market.inMode m) s envelope)
      (syncPool (market.inMode m') t envelope) := by
  have hat : ∀ {s : SubPool}, s.Fit → (s.atPrice envelope).Fit :=
    fun hs => hs.moved (atPrice_moved hs.sound envelope)
  have hstill : ∀ {s : SubPool} price, s.Fit →
      SubPool.Fit { s with lastPrice := price, lastSyncSlot := envelope.slot } :=
    fun _ hs => ⟨hs.sound.of_sides (fun d => by cases d <;> rfl), hs.value_lt, hs.reserve_lt⟩
  unfold syncPool
  refine .same fun _ hg => ?_
  rw [h.price_eq]
  refine .ite (fun _ => ?_) fun h0 => .ite (fun _ => ?_) fun hp => ?_
  · rw [h.atPrice.check_eq (hat hs).checked (hat ht).checked]
    exact .same fun _ _ => .ok ⟨h.atPrice, rfl⟩
  · have hsame : SubPool.Twin { s with lastSyncSlot := envelope.slot }
        { t with lastPrice := s.lastPrice, lastSyncSlot := envelope.slot } :=
      ⟨h.id_eq, rfl, rfl, fun d => by
        have hd := h.sides d
        cases d <;> exact hd⟩
    simp only
    rw [hsame.check_eq (hstill s.lastPrice hs).checked (hstill s.lastPrice ht).checked]
    exact .same fun _ _ => .ok ⟨hsame, rfl⟩
  · by_cases hm : s.MovesTo market envelope
    · obtain ⟨hd, hn⟩ := hmove hm
      exact movePrice_twins h hs ht hd hn
    · -- a move too large fails in both modes before anything else
      unfold movePrice
      rw [h.price_eq]
      refine .same fun bps hb => .guard fun hle => ?_
      exact absurd ⟨hg, h0, hp, bps, math_ok.mp hb, hle⟩ hm

theorem lazyMigrate_twin (h : s.Twin t) :
    lazyMigratePosition t p = lazyMigratePosition s p := by
  obtain ⟨store, he, -⟩ := h.sides p.direction
  unfold lazyMigratePosition
  simp only [he, Side.findRotateRecord]

theorem burnActive_twins {value : Nat} (h : s.Twin t) :
    InStep .ledgerCapacityExceeded Twins (burnActive s p value) (burnActive t p value) := by
  obtain ⟨store, he, hb⟩ := h.sides p.direction
  unfold burnActive
  simp only [he]
  exact .same fun equity _ => .same fun shares _ => .same fun notional _ =>
    .ok ⟨h.setSide ⟨store, rfl, hb⟩, rfl⟩

theorem redeemActive_twins (h : s.Twin t) :
    InStep .ledgerCapacityExceeded Twins (redeemActive s p) (redeemActive t p) := by
  obtain ⟨store, he, -⟩ := h.sides p.direction
  unfold redeemActive
  simp only [he]
  refine .ite (fun _ => .ok ⟨h, rfl⟩) fun _ => .same fun value _ => ?_
  refine .bind (burnActive_twins h) fun r r' _ _ hr => ?_
  obtain ⟨s1, p1⟩ := r
  obtain ⟨t1, p1'⟩ := r'
  obtain ⟨(h1 : s1.Twin t1), rfl⟩ := hr
  exact .ok ⟨h1, rfl⟩

theorem forfeitActive_twins (h : s.Twin t) :
    InStep .ledgerCapacityExceeded Twins (forfeitActive s p) (forfeitActive t p) := by
  obtain ⟨store, he, -⟩ := h.sides p.direction
  unfold forfeitActive
  simp only [he, activeValue]
  refine .ite (fun _ => .ok ⟨h, rfl⟩) fun _ => .same fun value _ => .guard fun _ => ?_
  refine .bind (burnActive_twins h) fun r r' _ _ hr => ?_
  obtain ⟨s1, p1⟩ := r
  obtain ⟨t1, p1'⟩ := r'
  obtain ⟨(h1 : s1.Twin t1), rfl⟩ := hr
  exact .ok ⟨h1, rfl⟩

theorem redeemRecovery_twins (h : s.Twin t) :
    InStep .ledgerCapacityExceeded Twins (redeemRecovery s p) (redeemRecovery t p) := by
  obtain ⟨store, he, hb⟩ := h.sides p.direction
  unfold redeemRecovery
  cases p.recoveryBucketTick with
  | none => exact .failed _
  | some tick =>
    simp only [he]
    refine .bind (.commit (hb.redeem tick p.recoveryShares)) fun r r' _ _ hr => ?_
    obtain ⟨dormant, receipt⟩ := r
    obtain ⟨dormant', receipt'⟩ := r'
    obtain ⟨hb', rfl⟩ := hr
    exact .same fun shares _ => .ok ⟨h.setSide ⟨dormant', rfl, hb'⟩, rfl⟩

theorem settleRecovery_twins (h : s.Twin t) :
    InStep .ledgerCapacityExceeded Twins (settleRecovery s p) (settleRecovery t p) := by
  unfold settleRecovery
  refine .ite (fun _ => .ok ⟨h, rfl⟩) fun _ => ?_
  refine .bind (redeemRecovery_twins h) fun r r' _ _ hr => ?_
  obtain ⟨s1, p1, tick, receipt⟩ := r
  obtain ⟨t1, p1', tick', receipt'⟩ := r'
  obtain ⟨(h1 : s1.Twin t1), he⟩ := hr
  cases he
  exact .ok ⟨h1, rfl⟩

theorem addDust_twin {a : Nat} (h : s.Twin t) :
    InStep .ledgerCapacityExceeded SubPool.Twin (addDust s d a) (addDust t d a) := by
  obtain ⟨store, he, hb⟩ := h.sides d
  unfold addDust
  simp only [he]
  exact .same fun dust _ => .ok (h.setSide ⟨store, rfl, hb⟩)

theorem openPosition_twins {gross id : Nat} (hs : s.Fit) (ht : t.Fit)
    (hsync : market.frozenNewPosition = false →
      InStep .ledgerCapacityExceeded Twins (syncPool (market.inMode m) s envelope)
        (syncPool (market.inMode m') t envelope)) :
    InStep .ledgerCapacityExceeded Twins
      (openPosition (market.inMode m) s envelope d gross id)
      (openPosition (market.inMode m') t envelope d gross id) := by
  unfold openPosition
  refine .same fun _ _ => .guard fun hf => .bind (hsync hf) fun r r' hx hy hr => ?_
  obtain ⟨s1, sync⟩ := r
  obtain ⟨t1, sync'⟩ := r'
  obtain ⟨(h1 : s1.Twin t1), hout⟩ := hr
  cases hout
  have hs1 := hs.moved (syncPool_moved hs.sound hx)
  have ht1 := ht.moved (syncPool_moved ht.sound hy)
  obtain ⟨store, he, hb⟩ := h1.sides d
  simp only [he]
  refine .same fun fee _ => .same fun minted _ => .same fun notional _ => ?_
  refine .same fun equity _ => .same fun shares _ => .same fun total _ => .same fun dust _ => ?_
  have h2 := h1.setSide (d := d) (x := { s1.side d with
    poolEquity := equity
    activeShares := shares
    activeNotional := total
    dust := dust }) ⟨store, rfl, hb⟩
  rw [h2.check_eq (hs1.checked.setSide rfl) (ht1.checked.setSide (by rw [he]))]
  refine .same fun _ _ => .ok ⟨h2, ?_⟩
  simp only [SubPool.setSide_subPoolId, h1.id_eq]
  rfl

theorem closePosition_twins (hs : s.Fit) (ht : t.Fit)
    (hsync : p.schemaVersion = market.schemaVersion → p.status = .open ∨ p.status = .dormant →
      InStep .ledgerCapacityExceeded Twins (syncPool (market.inMode m) s envelope)
        (syncPool (market.inMode m') t envelope)) :
    InStep .ledgerCapacityExceeded Twins (closePosition (market.inMode m) s envelope p)
      (closePosition (market.inMode m') t envelope p) := by
  unfold closePosition
  refine .same fun _ _ => .guard fun hsch => .guard fun hst => ?_
  refine .bind (hsync hsch hst) fun r r' hx hy hr => ?_
  obtain ⟨s1, sync⟩ := r
  obtain ⟨t1, sync'⟩ := r'
  obtain ⟨(h1 : s1.Twin t1), hout⟩ := hr
  cases hout
  have hs1 := hs.moved (syncPool_moved hs.sound hx)
  have ht1 := ht.moved (syncPool_moved ht.sound hy)
  simp only [lazyMigrate_twin h1]
  refine .same fun migrated _ => .bind (redeemActive_twins h1) fun r r' hx hy hr => ?_
  obtain ⟨s2, p2, value⟩ := r
  obtain ⟨t2, p2', value'⟩ := r'
  obtain ⟨(h2 : s2.Twin t2), hout⟩ := hr
  cases hout
  have hs2 := hs1.moved (redeemActive_moved hs1.sound hx)
  have ht2 := ht1.moved (redeemActive_moved ht1.sound hy)
  refine .bind (settleRecovery_twins h2) fun r r' hx hy hr => ?_
  obtain ⟨s3, p3, receipt⟩ := r
  obtain ⟨t3, p3', receipt'⟩ := r'
  obtain ⟨(h3 : s3.Twin t3), hout⟩ := hr
  cases hout
  have hs3 := hs2.moved (settleRecovery_moved hs2.sound hx)
  have ht3 := ht2.moved (settleRecovery_moved ht2.sound hy)
  simp only [h3.check_eq hs3.checked ht3.checked, h3.id_eq]
  exact .same fun withdrawable _ => .same fun _ _ => .same fun _ _ => .ok ⟨h3, rfl⟩

theorem forceClose_twins {ack : Bool} (hs : s.Fit) (ht : t.Fit)
    (hsync : p.schemaVersion = market.schemaVersion → ack = true → p.status ≠ .closed →
      InStep .ledgerCapacityExceeded Twins (syncPool (market.inMode m) s envelope)
        (syncPool (market.inMode m') t envelope)) :
    InStep .ledgerCapacityExceeded Twins
      (forceCloseZeroValuePosition (market.inMode m) s envelope p ack)
      (forceCloseZeroValuePosition (market.inMode m') t envelope p ack) := by
  unfold forceCloseZeroValuePosition
  refine .same fun _ _ => .guard fun hsch => .guard fun hack => .guard fun hst => ?_
  refine .bind (hsync hsch hack hst) fun r r' hx hy hr => ?_
  obtain ⟨s1, sync⟩ := r
  obtain ⟨t1, sync'⟩ := r'
  obtain ⟨(h1 : s1.Twin t1), hout⟩ := hr
  cases hout
  have hs1 := hs.moved (syncPool_moved hs.sound hx)
  have ht1 := ht.moved (syncPool_moved ht.sound hy)
  simp only [lazyMigrate_twin h1]
  refine .same fun migrated _ => .bind (forfeitActive_twins h1) fun r r' hx hy hr => ?_
  obtain ⟨s2, p2, burned, removed⟩ := r
  obtain ⟨t2, p2', burned', removed'⟩ := r'
  obtain ⟨(h2 : s2.Twin t2), hout⟩ := hr
  cases hout
  have hs2 := hs1.moved (forfeitActive_moved hs1.sound hx)
  have ht2 := ht1.moved (forfeitActive_moved ht1.sound hy)
  refine .bind (settleRecovery_twins h2) fun r r' hx hy hr => ?_
  obtain ⟨s3, p3, receipt⟩ := r
  obtain ⟨t3, p3', receipt'⟩ := r'
  obtain ⟨(h3 : s3.Twin t3), hout⟩ := hr
  cases hout
  have hs3 := hs2.moved (settleRecovery_moved hs2.sound hx)
  have ht3 := ht2.moved (settleRecovery_moved ht2.sound hy)
  refine .bind (addDust_twin h3) fun s4 t4 hx hy h4 => ?_
  have hs4 : s4.StoresChecked := by
    rw [addDust_ok hx]
    exact hs3.checked.setSide rfl
  have ht4 : t4.StoresChecked := by
    rw [addDust_ok hy]
    exact ht3.checked.setSide rfl
  simp only [h4.check_eq hs4 ht4, h4.id_eq]
  exact .same fun _ _ => .ok ⟨h4, rfl⟩

theorem claim_twins (hs : s.Fit) (ht : t.Fit)
    (hsync : p.schemaVersion = market.schemaVersion →
      InStep .ledgerCapacityExceeded Twins (syncPool (market.inMode m) s envelope)
        (syncPool (market.inMode m') t envelope)) :
    InStep .ledgerCapacityExceeded Twins (claimDormantRecovery (market.inMode m) s envelope p)
      (claimDormantRecovery (market.inMode m') t envelope p) := by
  unfold claimDormantRecovery
  refine .same fun _ _ => .guard fun hsch => .bind (hsync hsch) fun r r' hx hy hr => ?_
  obtain ⟨s1, sync⟩ := r
  obtain ⟨t1, sync'⟩ := r'
  obtain ⟨(h1 : s1.Twin t1), hout⟩ := hr
  cases hout
  have hs1 := hs.moved (syncPool_moved hs.sound hx)
  have ht1 := ht.moved (syncPool_moved ht.sound hy)
  simp only [lazyMigrate_twin h1]
  refine .same fun migrated _ => .guard fun h0 => ?_
  refine .bind (redeemRecovery_twins h1) fun r r' hx hy hr => ?_
  obtain ⟨s2, p2, tick, receipt⟩ := r
  obtain ⟨t2, p2', tick', receipt'⟩ := r'
  obtain ⟨(h2 : s2.Twin t2), hout⟩ := hr
  cases hout
  have hs2 := hs1.moved (redeemRecovery_moved hs1.sound h0 hx)
  have ht2 := ht1.moved (redeemRecovery_moved ht1.sound h0 hy)
  simp only [h2.check_eq hs2.checked ht2.checked, h2.id_eq]
  exact .same fun _ _ => .ok ⟨h2, rfl⟩

theorem harvestDust_twins (h : s.Twin t) (hs : s.Fit) (ht : t.Fit) :
    InStep .ledgerCapacityExceeded Twins (harvestDust (market.inMode m) s d)
      (harvestDust (market.inMode m') t d) := by
  obtain ⟨store, he, hb⟩ := h.sides d
  unfold harvestDust
  refine .same fun _ _ => .same fun _ _ => ?_
  simp only [he]
  have h1 := h.setSide (d := d) (x := { s.side d with dust := 0 }) ⟨store, rfl, hb⟩
  rw [h1.check_eq (hs.checked.setSide rfl) (ht.checked.setSide (by rw [he]))]
  refine .same fun _ _ => .ok ⟨h1, ?_⟩
  simp only [SubPool.setSide_subPoolId, h.id_eq]

end Calls

end MoleFinance
