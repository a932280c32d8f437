import MoleFinance.Indexer.Events
import MoleFinance.Engine.Stream

/-! Parity of the indexer's buckets with those of the engine, over whole runs. -/
namespace MoleFinance
open MoleMath Call Trace

namespace Indexer

/-- The replay from `x0` stopped at a sync, with a position that has no room for its credit. -/
def Overflowed (x0 : IndexerState) (events : List EngineEvent) (e : IndexerError)
    (x : IndexerState) : Prop :=
  ∃ pre ev post x1, events = pre ++ .poolSync ev :: post ∧ applyAll pre x0 = .ok () x1 ∧
    apply (.poolSync ev) x1 = .error e x ∧ Full (Credit ev x1) e x

/-- The replay takes a record with `P` to one with `Q`, or a position has no room. -/
def Replays (P : IndexerState → Prop) (events : List EngineEvent) (Q : IndexerState → Prop) :
    Prop :=
  ∀ x0, P x0 → Meets (· = x0) (applyAll events) (fun _ => Q) (Overflowed x0 events)

section Replays
variable {P Q R : IndexerState → Prop} {E : IndexerError → IndexerState → Prop}
  {events rest : List EngineEvent} {x0 x1 x : IndexerState} {e : IndexerError}

theorem applyAll_append (events rest : List EngineEvent) :
    applyAll (events ++ rest) = (do applyAll events; applyAll rest) := by
  induction events with
  | nil => rfl
  | cons event events ih => simp only [List.cons_append, applyAll, ih, bind_assoc]

theorem Overflowed.followed (h : Overflowed x0 events e x) (rest : List EngineEvent) :
    Overflowed x0 (events ++ rest) e x := by
  obtain ⟨pre, ev, post, x1, rfl, hpre, hev, hfull⟩ := h
  exact ⟨pre, ev, post ++ rest, x1, by simp, hpre, hev, hfull⟩

theorem Overflowed.after (h : Overflowed x1 rest e x) (hr : applyAll events x0 = .ok () x1) :
    Overflowed x0 (events ++ rest) e x := by
  obtain ⟨pre, ev, post, x2, rfl, hpre, hev, hfull⟩ := h
  refine ⟨events ++ pre, ev, post, x2, by simp, ?_, hev, hfull⟩
  rw [applyAll_append, bind_of_ok hr, hpre]

theorem Replays.append (h : Replays P events Q) (h' : Replays Q rest R) :
    Replays P (events ++ rest) R := by
  intro x0 hx0
  have h1 := h x0 hx0
  rw [applyAll_append]
  refine .intro (fun x u x' hx hr => ?_) (fun x e x' hx hr => ?_)
  · obtain ⟨_, x1, hr1, hr⟩ := bind_ok.mp hr
    exact (h' x1 (h1.ok hx hr1)).ok rfl hr
  · cases hr1 : applyAll events x with
    | ok u x1 =>
      rw [bind_of_ok hr1] at hr
      exact ((h' x1 (h1.ok hx hr1)).error rfl hr).after (hx ▸ hr1)
    | error e' x1 =>
      rw [bind_of_error hr1] at hr
      cases hr
      exact (h1.error hx hr1).followed rest

theorem Replays.safe (h : Meets P (applyAll events) (fun _ => Q) (fun _ _ => False)) :
    Replays P events Q :=
  fun x0 hx0 => (h.weaken fun x (hx : x = x0) => hx ▸ hx0).weakenError fun _ _ hf => hf.elim

theorem replay_one {event : EngineEvent}
    (h : Meets P (apply event) (fun _ => Q) E) : Meets P (applyAll [event]) (fun _ => Q) E :=
  Meets.bind h fun _ => .pure fun _ hx => hx

theorem Replays.sync {ev : PoolSyncEvent}
    (h : ∀ x0, P x0 → Meets P (apply (.poolSync ev)) (fun _ => Q) (Full (Credit ev x0))) :
    Replays P [.poolSync ev] Q := by
  intro x0 hx0
  refine replay_one (.intro (fun x u x' hx hr => ?_) (fun x e x' hx hr => ?_))
  · exact (h x0 hx0).ok (hx ▸ hx0) hr
  · obtain rfl := hx
    exact ⟨[], ev, [], x, rfl, rfl, hr, (h x hx0).error hx0 hr⟩

end Replays

theorem rotation_mirrors {market : MarketParams} {envelope : PriceEnvelope} {d : Direction}
    {s s' : SubPool} {es : List EngineEvent} {ps : Positions} (hs : s.Sound)
    (hv : s.value < u128Size) (hsh : Shared s ps)
    (hrest : ∀ k p, ps.get? k = some p → p.Resting) (h : Rotation market envelope d s es s') :
    Replays (Mirrors s.subPoolId s.side (booksOf s) ps) es
      (Mirrors s'.subPoolId s'.side (booksOf s') ps) := by
  refine .safe ?_
  cases h with
  | none => exact .pure fun _ hx => hx
  | rotated tick y h0 hpos ht hy =>
    rw [SubPool.setSide_subPoolId]
    exact replay_one (applyRotate_mirrors hs hv hsh hrest ht hy)

theorem sync_mirrors {market : MarketParams} {w : World} {s' : SubPool} {es : List EngineEvent}
    (h : w.Inv) (hs : SyncPart market w.subPool es s') :
    Replays (Mirrored w) es (Mirrored { w with subPool := s' }) := by
  cases hs with
  | kept s' hid hsides =>
    have hseries : SameSeries w.subPool s' :=
      ⟨hid, fun d => by rw [hsides d], fun d => by rw [hsides d]⟩
    have hbooks : booksOf s' = booksOf w.subPool := by
      funext d
      rw [booksOf, hsides d]
      rfl
    refine .safe (.pure fun x hx => ?_)
    have hx' := hseries.mirrors hx
    rw [← hbooks] at hx'
    exact hx'
  | moved envelope demands s1 s2 s3 long short longEvents shortEvents h0 hp hdem hset hlong
      hshort =>
    have hmoved := (settleDemands_moved h.sound hset).after (atPrice_moved
      (settleDemands_moved h.sound hset).sound envelope)
    have hshared := atPrice_shared (settleDemands_shared h.sound h.shared hset) envelope
    obtain ⟨hmoved2, hshared2⟩ := hlong.sound hmoved.sound hshared
    have hv := h.value_lt
    have hv1 := hmoved.value_eq
    have hv2 := hmoved2.value_eq
    have hseries : SameSeries w.subPool (s1.atPrice envelope) := by
      refine ⟨(settleDemands_framed hset).id_eq, fun d => ?_, fun d => ?_⟩
      · rw [SubPool.side_atPrice]
        exact (settleDemands_same h.sound hset d).log
      · rw [SubPool.side_atPrice]
        exact (settleDemands_same h.sound hset d).generation
    have hbooks : booksOf (s1.atPrice envelope) = booksOf s1 := by
      funext d
      rw [booksOf, SubPool.side_atPrice]
      rfl
    have hsync : Replays (Mirrored w) [.poolSync (poolSyncEvent w.subPool envelope long short)]
        (Mirrors (s1.atPrice envelope).subPoolId (s1.atPrice envelope).side
          (booksOf (s1.atPrice envelope)) w.positions) := by
      refine .sync fun x0 hx0 => ?_
      have hone := applyPoolSync_mirrors h.sound hv h.shared
        (fun k p hk => (h.resting k p hk).toOk) h.zeroIff h0 hdem hset hx0
      rw [hbooks]
      exact hone.imp fun _ _ hx => hseries.mirrors hx
    exact hsync.append
      ((rotation_mirrors hmoved.sound (by omega) hshared h.resting hlong).append
        (rotation_mirrors hmoved2.sound (by omega) hshared2 h.resting hshort))

theorem act_mirrors {w w' : World} {burns : Option Nat} {es : List EngineEvent} (h : w.Inv)
    (h' : w'.Inv) (ha : Act w burns es w') : Replays (Mirrored w) es (Mirrored w') := by
  refine .safe ?_
  have hheld : ∀ {k : Nat} {q q1 : Position} {b : Bool}, w.positions.get? k = some q →
      lazyMigratePosition w.subPool q = .ok (q1, b) →
      Holds w.subPool (w.positions.insert k q1) k q1 := by
    intro k q q1 b hk hm
    have h0 : Holds w.subPool w.positions k q :=
      ⟨h.sound, h.shared, hk, (h.resting k q hk).toOk, h.price_lt, h.price_pos k q hk⟩
    exact (migrate_holds h0 (lazyMigratePosition_ok hm)).1
  cases ha with
  | idle => exact .pure fun _ hx => hx
  | opened market s envelope d gross id s' p out sync hk ho =>
    exact replay_one (opened_mirrors ho h' _ _ _ _)
  | closed slot k p p1 p2 p3 s2 s3 b v paid r hk hm hact hrec hp hopen =>
    have h1 := hheld hk hm
    have hmoved := redeemActive_moved h1.sound hact
    have hv2 := hmoved.value_eq
    have hv := h.value_lt
    obtain ⟨hseries, hbooks, hrec2, htick2, hdir2⟩ := redeemActive_series hact
    have hcarried := (settleRecovery_carried hrec).1
    have hpast := (lazyMigratePosition_ok hm).carried.trans
      ((redeemActive_carried hact).1.trans hcarried)
    have hlast := hseries.trans (settleRecovery_series hrec)
    have hclosed := (h'.resting k _ (OrdMap.get?_insert_self _ _ _)).closed rfl
    exact replay_one (close_mirrors h hk hopen hm hmoved.sound (by omega) hbooks hrec2 htick2 hrec
      hlast rfl hpast.direction hclosed (hpast.id.trans (h.keyed k p hk).1) hlast.id
      hcarried.direction rfl)
  | forceClosed slot k p p1 p2 p3 s2 s3 s4 b burned removed r hk hm hact hrec hd hopen =>
    have h1 := hheld hk hm
    have hmoved := forfeitActive_moved h1.sound hact
    have hv2 := hmoved.value_eq
    have hv := h.value_lt
    obtain ⟨hseries, hbooks, hrec2, htick2, hdir2⟩ := forfeitActive_series hact
    have hcarried := (settleRecovery_carried hrec).1
    have hpast := (lazyMigratePosition_ok hm).carried.trans
      ((forfeitActive_carried hact).1.trans hcarried)
    have hdust : SameSeries s3 s4 ∧ booksOf s4 = booksOf s3 := by
      rw [addDust_ok hd]
      exact ⟨.setSide rfl rfl, booksOf_same rfl⟩
    have hlast := (hseries.trans (settleRecovery_series hrec)).trans hdust.1
    have hclosed := (h'.resting k _ (OrdMap.get?_insert_self _ _ _)).closed rfl
    have hburned : burned = p1.activeShares := by
      cases forfeitActive_ok hact with
      | inl h =>
        obtain ⟨h0, -, -, rfl, -⟩ := h
        exact h0.symm
      | inr h => exact h.2.2.1
    exact replay_one (close_mirrors h hk hopen hm hmoved.sound (by omega) hbooks hrec2 htick2 hrec
      hlast hdust.2 hpast.direction hclosed (hpast.id.trans (h.keyed k p hk).1) hlast.id
      hcarried.direction hburned)
  | claimed slot k p p1 p2 s2 b tick r hk hm h0 hrec =>
    exact replay_one (claimed_mirrors h hk hm h0 hrec)
  | harvested d =>
    refine .pure fun x hx => ?_
    have hx' := (SameSeries.setSide (s := w.subPool) (d := d)
      (y := { w.subPool.side d with dust := 0 }) rfl rfl).mirrors hx
    rw [← booksOf_same (d := d) (y := { w.subPool.side d with dust := 0 }) rfl] at hx'
    exact hx'
  | preSynced d tick n dormant ev hsub happ =>
    have hu := DormantStore.applyPendingToBucket_upkeep (h.sound d).1 happ
    refine .pure fun x hx => ?_
    have hx' := (SameSeries.setSide (s := w.subPool) (d := d)
      (y := { w.subPool.side d with dormant := dormant }) rfl rfl).mirrors hx
    rw [← booksOf_same (d := d) (y := { w.subPool.side d with dormant := dormant }) hu.book_eq]
      at hx'
    exact hx'

theorem new_mirrored (id : Nat) (price : U64) (slot : Nat) :
    Mirrored (World.new id price slot) .new where
  series := fun d => by cases d <;> rfl
  buckets := fun d tick => by cases d <;> rfl
  alone := fun key hkey => by cases hkey
  found := fun id p hp => by cases hp
  known := fun id pos hpos => by cases hpos

theorem step_mirrors {w : World} (h : w.Inv) (op : MarketParams × EngineOp) :
    Replays (Mirrored w) (EngineOp.step op w).1.events (Mirrored (EngineOp.step op w).2) := by
  obtain ⟨market, op⟩ := op
  cases hc : op.call market w with
  | none =>
    simp only [EngineOp.step, hc]
    exact .safe (.pure fun _ hx => hx)
  | some r =>
    cases r with
    | error e =>
      simp only [EngineOp.step, hc]
      exact .safe (.pure fun _ hx => hx)
    | ok wr =>
      obtain ⟨w', reply⟩ := wr
      simp only [EngineOp.step, hc, Answer.events]
      obtain ⟨s1, es1, es2, hsync, h1, hact, hev⟩ := op.call_parts h hc
      rw [hev]
      exact (sync_mirrors h hsync).append (act_mirrors h1 (World.step_inv h hc) hact)

theorem run_mirrors {w : World} (h : w.Inv) (ops : List (MarketParams × EngineOp)) :
    Replays (Mirrored w) (eventsOf ops w) (Mirrored (run EngineOp.step ops w).2) := by
  induction ops generalizing w with
  | nil => exact .safe (.pure fun _ hx => hx)
  | cons op ops ih =>
    rw [eventsOf_cons]
    exact (step_mirrors h op).append (ih (step_names h op).1)

/-- The indexer has exactly the buckets of the engine, with their funds still on the ledger. -/
structure Parity (w : World) (x : IndexerState) : Prop where
  alone : ∀ key, (x.buckets.get? key).isSome → key.subPoolId = w.subPool.subPoolId
  missing : ∀ d tick, (w.subPool.side d).dormant.buckets.get? tick = none →
    x.buckets.get? (bucketKey w.subPool.subPoolId d tick) = none
  present : ∀ d tick b, (w.subPool.side d).dormant.buckets.get? tick = some b →
    ∃ v pending, x.buckets.get? (bucketKey w.subPool.subPoolId d tick) = some v ∧
      (w.subPool.side d).dormant.pendingForBucket tick = .ok pending ∧
      v.totalRecoveryShares = b.totalRecoveryShares ∧
      v.totalRecoveryNotional = b.totalRecoveryNotional ∧ v.accruedValue = b.accruedValue + pending

theorem Mirrored.parity {w : World} {x : IndexerState} (h : w.Inv) (hx : Mirrored w x) :
    Parity w x where
  alone := hx.alone
  missing := by
    intro d tick hb
    rw [hx.buckets, booksOf, DormantStore.view, OrdMap.get?_mapVal, hb]
    rfl
  present := by
    intro d tick b hb
    have hv := hx.buckets d tick
    rw [booksOf, DormantStore.view, OrdMap.get?_mapVal, hb] at hv
    exact ⟨_, _, hv, DormantStore.pendingForBucket_eq (h.sound d).1 hb, rfl, rfl, rfl⟩

end Indexer

/-- The replay of any run keeps every bucket in parity, or it stops with `MathOverflow` at a
sync that credits a position which has no room for its credit. -/
theorem indexer_parity (id : Nat) (price : U64) (slot : Nat)
    (ops : List (MarketParams × EngineOp)) :
    (∃ x, Indexer.applyAll (eventsOf ops (World.new id price slot)) .new = .ok () x ∧
      Indexer.Parity (run EngineOp.step ops (World.new id price slot)).2 x) ∨
    ∃ pre ev post x1 x, eventsOf ops (World.new id price slot) = pre ++ .poolSync ev :: post ∧
      Indexer.applyAll pre .new = .ok () x1 ∧
      Indexer.apply (.poolSync ev) x1 = .error .mathOverflow x ∧
      ∃ k pos share, x.positions.get? k = some pos ∧ Indexer.Credit ev x1 pos share ∧
        u128Size ≤ pos.realizedProfitBalance + share := by
  have hinv := World.new_inv id price slot
  have hreached : (run EngineOp.step ops (World.new id price slot)).2.Inv :=
    World.Reached.inv ⟨id, price, slot, ops, rfl⟩
  have hrun := Indexer.run_mirrors hinv ops .new (Indexer.new_mirrored id price slot)
  cases hr : Indexer.applyAll (eventsOf ops (World.new id price slot)) .new with
  | ok u x => exact .inl ⟨x, rfl, Indexer.Mirrored.parity hreached (hrun.ok rfl hr)⟩
  | error e x =>
    obtain ⟨pre, ev, post, x1, hev, hpre, hstop, rfl, hfull⟩ := hrun.error rfl hr
    exact .inr ⟨pre, ev, post, x1, x, hev, hpre, hstop, hfull⟩

/-! A balance that grows in every cycle of prices. -/

theorem eventsOf_append (ops ops' : List (MarketParams × EngineOp)) (w : World) :
    eventsOf (ops ++ ops') w = eventsOf ops w ++ eventsOf ops' (run EngineOp.step ops w).2 := by
  simp only [eventsOf, run_append, List.flatMap_append]

namespace Drift
open Indexer

def opens : List (MarketParams × EngineOp) :=
  [.open (quoteAt (amount 100)) .long (amount 5) (amount 1),
    .open (quoteAt (amount 100)) .long (amount 5) (amount 2),
    .open (quoteAt (amount 100)) .short (amount 15) (amount 3)].map (smallMarket .lazy, ·)

def cycle : List (MarketParams × EngineOp) :=
  [102, 101, 100].map fun price => (smallMarket .lazy, .sync (quoteAt (amount price)))

def start : World := World.new 0 (amount 0) 0

def opened : World := (run EngineOp.step opens start).2

theorem cycle_returns : (run EngineOp.step cycle opened).2 = opened := by decide +kernel

def syncEvent (pLast pNow longEquity shortEquity : Nat) (long short : Inflow) : EngineEvent :=
  .poolSync ⟨0, pLast, pNow, 1, ⟨10, 100, longEquity⟩, ⟨15, 150, shortEquity⟩, long, short⟩

theorem cycle_events : eventsOf cycle opened = [syncEvent 100 102 10 15 ⟨2, 0, 0⟩ .zero,
    syncEvent 102 101 12 13 .zero ⟨1, 0, 0⟩, syncEvent 101 100 11 14 .zero ⟨1, 0, 0⟩] := by
  decide +kernel

def longView (id profit : Nat) : PositionView :=
  ⟨id, 0, .long, 5, 50, 5, 0, none, 0, 0, profit, false⟩

def shortView (locked profit : Nat) : PositionView :=
  ⟨3, 0, .short, 15, 150, 15, 0, none, 0, locked, profit, false⟩

def ledger (r locked profit : Nat) : IndexerState where
  positions := ((OrdMap.empty.insert 1 (longView 1 r)).insert 2 (longView 2 r)).insert 3
    (shortView locked profit)
  buckets := .empty
  subPools := OrdMap.empty.insert 0 .default

theorem opens_replayed : applyAll (eventsOf opens start) .new = .ok () (ledger 0 0 0) := by
  have h : (match applyAll (eventsOf opens start) .new with
    | .ok _ x => some x
    | .error _ _ => none) = some (ledger 0 0 0) := by decide +kernel
  cases hr : applyAll (eventsOf opens start) .new with
  | ok u x =>
    rw [hr] at h
    cases h
    rfl
  | error e x =>
    rw [hr] at h
    cases h

/-! The two long positions gain 1 each on the way up and lose nothing on the way down. -/

theorem gain_long (id : Nat) {r : Nat} (h : r + 1 < u128Size) :
    gain 2 5 10 (longView id r) = .ok (longView id (r + 1)) := by
  have hshare : mulDivFloor 2 5 10 = .ok 1 := by decide
  have hadd : checkedAdd (longView id r).realizedProfitBalance 1 = .ok (r + 1) :=
    checkedAdd_ok.mpr ⟨h, rfl⟩
  unfold gain
  rw [hshare, orIndexer_ok, ok_bind, hadd]
  rfl

theorem gain_long_full (id : Nat) {r : Nat} (h : r + 1 = u128Size) :
    gain 2 5 10 (longView id r) = .error .mathOverflow := by
  have hshare : mulDivFloor 2 5 10 = .ok 1 := by decide
  have hadd : checkedAdd (longView id r).realizedProfitBalance 1 = .error .overflow :=
    if_neg (by simp only [longView]; omega)
  unfold gain
  rw [hshare, orIndexer_ok, ok_bind, hadd]
  rfl

theorem lose_long (id r : Nat) : lose 1 10 (longView id r) = .ok (longView id r) := by
  have hshare : mulDivFloor 1 5 10 = .ok 0 := by decide
  have hsub : checkedSub r 0 = .ok r := checkedSub_ok.mpr ⟨Nat.zero_le _, rfl⟩
  unfold lose
  simp only [longView, hshare, orIndexer_ok, ok_bind, Nat.min_zero, hsub]
  rfl

theorem up_replayed {r : Nat} (h : r + 1 < u128Size) {locked profit locked' profit' : Nat}
    (hs : lose 2 15 (shortView locked profit) = .ok (shortView locked' profit')) :
    apply (syncEvent 100 102 10 15 ⟨2, 0, 0⟩ .zero) (ledger r locked profit)
      = .ok () (ledger (r + 1) locked' profit') := by
  have hlong : syncActive 0 .long 2 10 (ledger r locked profit)
      = .ok () (ledger (r + 1) locked profit) := by
    have hone : ∀ id es x, updateEach (fun pos => gain 2 pos.activeShares 10 pos)
        ((id, longView id r) :: es) x = updateEach (fun pos => gain 2 pos.activeShares 10 pos) es
          { x with positions := x.positions.insert id (longView id (r + 1)) } :=
      fun id => updateEach_cons (f := fun pos => gain 2 pos.activeShares 10 pos) (gain_long id h)
    show updateEach (fun pos => gain 2 pos.activeShares 10 pos)
      [(1, longView 1 r), (2, longView 2 r)] (ledger r locked profit) = _
    rw [hone, hone]
    rfl
  have hshort : syncLoss 0 .short 2 15 (ledger (r + 1) locked profit)
      = .ok () (ledger (r + 1) locked' profit') := by
    show updateEach (lose 2 15) [(3, shortView locked profit)] (ledger (r + 1) locked profit) = _
    rw [updateEach_cons hs]
    rfl
  refine (bind_of_ok hlong _).trans ?_
  show (do syncLoss 0 .short 2 15; syncLoss 0 .long 0 10 : IndexM Unit)
    (ledger (r + 1) locked profit) = _
  exact (bind_of_ok hshort _).trans rfl

theorem down_replayed (r : Nat) {pLast pNow longEquity shortEquity locked profit profit' : Nat}
    (hs : gain 1 15 15 (shortView locked profit) = .ok (shortView locked profit')) :
    apply (syncEvent pLast pNow longEquity shortEquity .zero ⟨1, 0, 0⟩) (ledger r locked profit)
      = .ok () (ledger r locked profit') := by
  have hshort : syncActive 0 .short 1 15 (ledger r locked profit)
      = .ok () (ledger r locked profit') := by
    exact (updateEach_cons (f := fun pos => gain 1 pos.activeShares 15 pos) hs []
      (ledger r locked profit)).trans rfl
  have hlong : syncLoss 0 .long 1 10 (ledger r locked profit') = .ok ()
      (ledger r locked profit') := by
    show updateEach (lose 1 10) [(1, longView 1 r), (2, longView 2 r)] (ledger r locked profit') = _
    rw [updateEach_cons (lose_long 1 r), updateEach_cons (lose_long 2 r)]
    rfl
  refine (bind_of_ok hshort _).trans ?_
  show (do syncLoss 0 .short 0 15; syncLoss 0 .long 1 10 : IndexM Unit)
    (ledger r locked profit') = _
  exact (bind_of_ok rfl _).trans hlong

theorem cycle_replayed {r : Nat} (h : r + 1 < u128Size) :
    applyAll (eventsOf cycle opened) (ledger r 2 2) = .ok () (ledger (r + 1) 2 2) := by
  rw [cycle_events]
  have h0 : lose 2 15 (shortView 2 2) = .ok (shortView 2 0) := rfl
  have h1 : gain 1 15 15 (shortView 2 0) = .ok (shortView 2 1) := rfl
  have h2 : gain 1 15 15 (shortView 2 1) = .ok (shortView 2 2) := rfl
  refine (bind_of_ok (up_replayed h h0) _).trans ?_
  refine (bind_of_ok (down_replayed _ h1) _).trans ?_
  exact (bind_of_ok (down_replayed _ h2) _).trans rfl

theorem first_cycle_replayed :
    applyAll (eventsOf cycle opened) (ledger 0 0 0) = .ok () (ledger 1 2 2) := by
  rw [cycle_events]
  have h0 : lose 2 15 (shortView 0 0) = .ok (shortView 2 0) := rfl
  have h1 : gain 1 15 15 (shortView 2 0) = .ok (shortView 2 1) := rfl
  have h2 : gain 1 15 15 (shortView 2 1) = .ok (shortView 2 2) := rfl
  refine (bind_of_ok (up_replayed (r := 0) (by decide) h0) _).trans ?_
  refine (bind_of_ok (down_replayed _ h1) _).trans ?_
  exact (bind_of_ok (down_replayed _ h2) _).trans rfl

def drifting (n : Nat) : List (MarketParams × EngineOp) := opens ++ (List.replicate n cycle).flatten

theorem cycles_return (n : Nat) :
    (run EngineOp.step (List.replicate n cycle).flatten opened).2 = opened := by
  induction n with
  | zero => rfl
  | succ n ih =>
    rw [List.replicate_succ, List.flatten_cons, run_append]
    show (run EngineOp.step (List.replicate n cycle).flatten
      (run EngineOp.step cycle opened).2).2 = opened
    rw [cycle_returns, ih]

theorem drifting_succ (n : Nat) :
    eventsOf (drifting (n + 1)) start = eventsOf (drifting n) start ++ eventsOf cycle opened := by
  have hflat : drifting (n + 1) = drifting n ++ cycle := by
    rw [drifting, drifting, List.replicate_succ', List.flatten_append, List.flatten_singleton,
      List.append_assoc]
  have hfinal : (run EngineOp.step (drifting n) start).2 = opened := by
    rw [drifting, run_append]
    exact cycles_return n
  rw [hflat, eventsOf_append, hfinal]

theorem drifting_replayed {n : Nat} (h : n + 1 < u128Size) :
    applyAll (eventsOf (drifting (n + 1)) start) .new = .ok () (ledger (n + 1) 2 2) := by
  induction n with
  | zero =>
    have hzero : eventsOf (drifting 0) start = eventsOf opens start := by
      rw [drifting, List.replicate_zero, List.flatten_nil, List.append_nil]
    rw [drifting_succ, applyAll_append, hzero]
    exact (bind_of_ok opens_replayed _).trans first_cycle_replayed
  | succ n ih =>
    rw [drifting_succ, applyAll_append]
    exact (bind_of_ok (ih (by omega)) _).trans (cycle_replayed h)

theorem up_refused {r : Nat} (h : r + 1 = u128Size) (locked profit : Nat) :
    apply (syncEvent 100 102 10 15 ⟨2, 0, 0⟩ .zero) (ledger r locked profit)
      = .error .mathOverflow (ledger r locked profit) := by
  have hlong : syncActive 0 .long 2 10 (ledger r locked profit)
      = .error .mathOverflow (ledger r locked profit) := by
    show updateEach (fun pos => gain 2 pos.activeShares 10 pos)
      [(1, longView 1 r), (2, longView 2 r)] (ledger r locked profit) = _
    have hgain : gain 2 (longView 1 r).activeShares 10 (longView 1 r) = .error .mathOverflow :=
      gain_long_full 1 h
    have hfull : orFail (gain 2 (longView 1 r).activeShares 10 (longView 1 r))
        (ledger r locked profit) = .error .mathOverflow (ledger r locked profit) := by
      rw [hgain]
      rfl
    exact bind_of_error hfull _
  exact bind_of_error hlong _

end Drift

/-- The balance of a position fills up, and the replay of the run stops short of its end. -/
theorem indexer_parity_overflows :
    ¬ ∀ (id : Nat) (price : U64) (slot : Nat) (ops : List (MarketParams × EngineOp)),
      ∃ x, Indexer.applyAll (eventsOf ops (World.new id price slot)) .new = .ok () x ∧
        Indexer.Parity (run EngineOp.step ops (World.new id price slot)).2 x := by
  intro h
  obtain ⟨n, hn⟩ : ∃ n, n + 1 + 1 = u128Size := ⟨u128Size - 2, by decide⟩
  obtain ⟨x, hx, -⟩ := h 0 (amount 0) 0 (Drift.drifting (n + 1 + 1))
  have hstop : Indexer.applyAll (eventsOf (Drift.drifting (n + 1 + 1)) Drift.start) .new
      = .error .mathOverflow (Drift.ledger (n + 1) 2 2) := by
    rw [Drift.drifting_succ, Indexer.applyAll_append]
    refine (bind_of_ok (Drift.drifting_replayed (by omega)) _).trans ?_
    rw [Drift.cycle_events]
    exact bind_of_error (Drift.up_refused hn 2 2) _
  have hfalse := hstop.symm.trans hx
  cases hfalse

end MoleFinance
