import MoleFinance.Engine.Invariant

/-! What a successful call emits, part by part: a sync settles the price and rotates drained
sides, then the call itself acts on one position or one side. -/
namespace MoleFinance
open MoleMath Call

def Reply.events : Reply → List EngineEvent
  | .synced out => out.events
  | .opened _ out => out.events
  | .closed _ out => out.events
  | .forceClosed _ out => out.events
  | .claimed _ out => out.events
  | .harvested out => out.events
  | .preSynced out => out.events

/-- A failed call is rolled back and emits nothing. -/
def Answer.events : Answer → List EngineEvent
  | .done reply => reply.events
  | .failed _ => []
  | .notCalled => []

def rotationEvent (s : SubPool) (envelope : PriceEnvelope) (d : Direction) (tick : Int) :
    ActiveRotatedToRecoveryEvent where
  subPoolId := s.subPoolId
  direction := d
  bucketTick := tick
  anchorPrice := envelope.pNow
  migratedShares := (s.side d).activeShares
  migratedNotional := (s.side d).activeNotional
  generationJustEnded := (s.side d).activeGeneration
  slot := envelope.slot

inductive Rotation (market : MarketParams) (envelope : PriceEnvelope) (d : Direction)
    (s : SubPool) : List EngineEvent → SubPool → Prop
  | none (h : ¬ ((s.side d).poolEquity = 0 ∧ 0 < (s.side d).activeShares)) :
      Rotation market envelope d s [] s
  | rotated (tick : Int) (x : Side) (h0 : (s.side d).poolEquity = 0)
      (hpos : 0 < (s.side d).activeShares) (ht : bucketTickOf market envelope.pNow = .ok tick)
      (hx : Rotated market envelope.pNow (s.side d) x) :
      Rotation market envelope d s
        [.activeRotatedToRecovery (rotationEvent s envelope d tick)] (s.setSide d x)

theorem rotateIfDrained_rotation {market : MarketParams} {s s' : SubPool}
    {envelope : PriceEnvelope} {d : Direction} {ev : Option ActiveRotatedToRecoveryEvent}
    (h : rotateIfDrained market s envelope d = .ok (s', ev)) :
    Rotation market envelope d s (ev.toList.map .activeRotatedToRecovery) s' := by
  unfold rotateIfDrained at h
  by_cases hc : (s.side d).poolEquity = 0 ∧ 0 < (s.side d).activeShares
  · rw [if_pos hc] at h
    obtain ⟨tick, htick, h⟩ := except_bind_ok.mp h
    obtain ⟨t, ht, h⟩ := except_bind_ok.mp h
    cases h
    obtain ⟨x, hx, rfl⟩ := rotateActiveToRecovery_ok hc.2.ne' ht
    exact .rotated tick x hc.1 hc.2 htick hx
  · rw [if_neg hc] at h
    cases h
    exact .none hc

inductive SyncPart (market : MarketParams) (s : SubPool) : List EngineEvent → SubPool → Prop
  | kept (s' : SubPool) (hid : s'.subPoolId = s.subPoolId) (hs : ∀ d, s'.side d = s.side d) :
      SyncPart market s [] s'
  | moved (envelope : PriceEnvelope) (demands : Demand × Demand) (s1 s2 s3 : SubPool)
      (long short : Inflow) (longEvents shortEvents : List EngineEvent) (h0 : s.lastPrice ≠ 0)
      (hp : envelope.pNow ≠ s.lastPrice) (hdem : syncDemands s envelope.pNow = .ok demands)
      (hset : settleDemands market s envelope.pNow demands = .ok (s1, long, short))
      (hlong : Rotation market envelope .long (s1.atPrice envelope) longEvents s2)
      (hshort : Rotation market envelope .short s2 shortEvents s3) :
      SyncPart market s
        (.poolSync (poolSyncEvent s envelope long short) :: (longEvents ++ shortEvents)) s3

theorem syncPool_part {market : MarketParams} {s s' : SubPool} {envelope : PriceEnvelope}
    {out : SyncOutcome} (h : syncPool market s envelope = .ok (s', out)) :
    SyncPart market s out.events s' := by
  unfold syncPool at h
  obtain ⟨_, -, h⟩ := except_bind_ok.mp h
  split_ifs at h with h0 hp
  · obtain ⟨_, -, h⟩ := except_bind_ok.mp h
    cases h
    exact .kept _ rfl (s.side_atPrice envelope)
  · obtain ⟨_, -, h⟩ := except_bind_ok.mp h
    cases h
    exact .kept _ rfl (fun d => by cases d <;> rfl)
  · unfold movePrice at h
    obtain ⟨_, -, h⟩ := except_bind_ok.mp h
    obtain ⟨_, -, h⟩ := except_bind_ok.mp h
    obtain ⟨demands, hdem, h⟩ := except_bind_ok.mp h
    obtain ⟨⟨s1, long, short⟩, hset, h⟩ := except_bind_ok.mp h
    obtain ⟨⟨s2, lr⟩, hl, h⟩ := except_bind_ok.mp h
    obtain ⟨⟨s3, sr⟩, hsh, h⟩ := except_bind_ok.mp h
    obtain ⟨_, -, h⟩ := except_bind_ok.mp h
    cases h
    simp only [List.map_append]
    exact .moved envelope demands s1 s2 _ long short _ _ h0 hp hdem hset
      (rotateIfDrained_rotation hl) (rotateIfDrained_rotation hsh)

def EngineOp.burns : EngineOp → Option Nat
  | .close _ id => some id
  | .forceClose _ id _ => some id
  | .claim _ id => some id
  | _ => none

def EngineOp.envelope : EngineOp → Option PriceEnvelope
  | .sync envelope => some envelope
  | .open envelope _ _ _ => some envelope
  | .close envelope _ => some envelope
  | .forceClose envelope _ _ => some envelope
  | .claim envelope _ => some envelope
  | .harvest _ => none
  | .preSync _ _ _ => none

inductive EngineOp.Settles (market : MarketParams) (s : SubPool) (op : EngineOp) :
    List EngineEvent → SubPool → Prop
  | idle (he : op.envelope = none) : Settles market s op [] s
  | synced (envelope : PriceEnvelope) (sync : SyncOutcome) (s' : SubPool)
      (he : op.envelope = some envelope) (hs : syncPool market s envelope = .ok (s', sync)) :
      Settles market s op sync.events s'

theorem EngineOp.Settles.part {market : MarketParams} {s s' : SubPool} {op : EngineOp}
    {es : List EngineEvent} (h : op.Settles market s es s') : SyncPart market s es s' := by
  cases h with
  | idle => exact .kept _ rfl (fun _ => rfl)
  | synced envelope sync _ he hs => exact syncPool_part hs

/-- What a call does once the price is settled, with the position whose shares it burns. -/
inductive Act (w : World) : Option Nat → List EngineEvent → World → Prop
  | idle : Act w none [] w
  | opened (market : MarketParams) (s : SubPool) (envelope : PriceEnvelope) (d : Direction)
      (gross id : U64) (s' : SubPool) (p : Position) (out : OpenOutcome) (sync : SyncOutcome)
      (hk : w.positions.get? id = none)
      (ho : Opening market s envelope d gross id s' p out w.subPool sync) :
      Act w none [.positionOpened {
        positionId := id
        subPoolId := w.subPool.subPoolId
        direction := d
        principal := p.principal
        notional := p.notional
        sharesMinted := p.activeShares
        principalIntoPool := out.principalIntoPool
        dust := out.dust
        openFee := out.openFee
        entryPrice := envelope.pNow
        activeGeneration := p.activeGeneration
        slot := envelope.slot }] ⟨s', w.positions.insert id p⟩
  | closed (slot k : Nat) (p p1 p2 p3 : Position) (s2 s3 : SubPool) (b : Bool) (v paid : Nat)
      (r : RedeemReceipt) (hk : w.positions.get? k = some p)
      (hm : lazyMigratePosition w.subPool p = .ok (p1, b))
      (ha : redeemActive w.subPool p1 = .ok (s2, p2, v))
      (hr : settleRecovery s2 p2 = .ok (s3, p3, r)) (hp : paid = v + r.redeemable)
      (hopen : p.status ≠ .closed) :
      Act w (some k) [.positionClosed {
        positionId := p3.positionId
        subPoolId := s3.subPoolId
        direction := p3.direction
        activeSharesBurned := p1.activeShares
        recoverySharesBurned := r.burnedShares
        recoveryNotionalBurned := r.burnedNotional
        activeValue := v
        recoveryValue := r.redeemable
        withdrawable := paid
        notionalRemoved := p3.notional
        slot := slot }] ⟨s3, w.positions.insert k (finishPosition p3 slot)⟩
  | forceClosed (slot k : Nat) (p p1 p2 p3 : Position) (s2 s3 s4 : SubPool) (b : Bool)
      (burned removed : Nat) (r : RedeemReceipt) (hk : w.positions.get? k = some p)
      (hm : lazyMigratePosition w.subPool p = .ok (p1, b))
      (ha : forfeitActive w.subPool p1 = .ok (s2, p2, burned, removed))
      (hr : settleRecovery s2 p2 = .ok (s3, p3, r))
      (hd : addDust s3 p3.direction r.redeemable = .ok s4) (hopen : p.status ≠ .closed) :
      Act w (some k) [.positionForceClosed {
        positionId := p3.positionId
        subPoolId := s4.subPoolId
        direction := p3.direction
        activeSharesBurned := burned
        recoverySharesBurned := r.burnedShares
        recoveryNotionalBurned := r.burnedNotional
        forfeitedRecoveryValue := r.redeemable
        notionalRemoved := removed
        slot := slot }] ⟨s4, w.positions.insert k (finishPosition p3 slot)⟩
  | claimed (slot k : Nat) (p p1 p2 : Position) (s2 : SubPool) (b : Bool) (tick : Int)
      (r : RedeemReceipt) (hk : w.positions.get? k = some p)
      (hm : lazyMigratePosition w.subPool p = .ok (p1, b)) (h0 : p1.recoveryShares ≠ 0)
      (hr : redeemRecovery w.subPool p1 = .ok (s2, p2, tick, r)) :
      Act w (some k) [.dormantRecoveryClaimed {
        positionId := p2.positionId
        subPoolId := s2.subPoolId
        direction := p2.direction
        bucketTick := tick
        recoverySharesBurned := r.burnedShares
        recoveryNotionalBurned := r.burnedNotional
        redeemable := r.redeemable
        slot := slot }] ⟨s2, w.positions.insert k { p2 with updatedAtSlot := slot }⟩
  | harvested (d : Direction) :
      Act w none [.dustHarvested ⟨w.subPool.subPoolId, d, (w.subPool.side d).dust⟩]
        ⟨w.subPool.setSide d { w.subPool.side d with dust := 0 }, w.positions⟩
  | preSynced (d : Direction) (tick : Int) (n : Nat) (dormant : DormantStore)
      (ev : DormantBucketPendingAppliedEvent) (hsub : ev.subPoolId = w.subPool.subPoolId)
      (ha : DormantStore.applyPendingToBucket tick (w.subPool.side d).dormant = .ok n dormant) :
      Act w none [.dormantBucketPendingApplied ev]
        ⟨w.subPool.setSide d { w.subPool.side d with dormant := dormant }, w.positions⟩

section Calls
variable {market : MarketParams} {s s' : SubPool} {envelope : PriceEnvelope} {p p' : Position}
  {w : World} {k : Nat}

/-- A call from the state its sync leaves: what it does there, and its event. -/
def ActsFrom (w : World) (burns : Option Nat) (events : List EngineEvent) (w' : World)
    (sync : SyncOutcome) (s1 : SubPool) : Prop :=
  ∃ es, Act { w with subPool := s1 } burns es w' ∧ events = sync.events ++ es

theorem openPosition_acts {d : Direction} {gross id : U64} {out : OpenOutcome}
    (hk : w.positions.get? id = none)
    (h : openPosition market w.subPool envelope d gross id = .ok (s', p, out)) :
    ∃ s1 sync, syncPool market w.subPool envelope = .ok (s1, sync) ∧
      ActsFrom w none out.events ⟨s', w.positions.insert id p⟩ sync s1 := by
  obtain ⟨s1, sync, ho⟩ := openPosition_ok h
  refine ⟨s1, sync, ho.synced, _,
    .opened (w := { w with subPool := s1 }) market w.subPool envelope d gross id s' p out sync
      hk ho, ?_⟩
  unfold openPosition at h
  obtain ⟨_, -, h⟩ := except_bind_ok.mp h
  obtain ⟨_, -, h⟩ := except_bind_ok.mp h
  rw [ho.synced, ok_bind] at h
  obtain ⟨⟨fee, principal⟩, -, h⟩ := except_bind_ok.mp h
  obtain ⟨⟨shares, acc, dust⟩, -, h⟩ := except_bind_ok.mp h
  obtain ⟨_, -, h⟩ := except_bind_ok.mp h
  obtain ⟨_, -, h⟩ := except_bind_ok.mp h
  obtain ⟨_, -, h⟩ := except_bind_ok.mp h
  obtain ⟨_, -, h⟩ := except_bind_ok.mp h
  obtain ⟨_, -, h⟩ := except_bind_ok.mp h
  obtain ⟨_, -, h⟩ := except_bind_ok.mp h
  cases h
  simp only [SubPool.setSide_subPoolId]

theorem open_of_status {status : PositionStatus} {e : ClearingError} {u : Unit}
    (h : ensure (status = .open ∨ status = .dormant) e = .ok u) : status ≠ .closed := by
  rintro rfl
  cases ensure_ok.mp h with
  | inl h => cases h
  | inr h => cases h

theorem closePosition_acts {out : CloseOutcome} (hk : w.positions.get? k = some p)
    (h : closePosition market w.subPool envelope p = .ok (s', p', out)) :
    ∃ s1 sync, syncPool market w.subPool envelope = .ok (s1, sync) ∧
      ActsFrom w (some k) out.events ⟨s', w.positions.insert k p'⟩ sync s1 := by
  unfold closePosition at h
  obtain ⟨_, -, h⟩ := except_bind_ok.mp h
  obtain ⟨_, -, h⟩ := except_bind_ok.mp h
  obtain ⟨_, hstatus, h⟩ := except_bind_ok.mp h
  obtain ⟨⟨s1, sync⟩, hsync, h⟩ := except_bind_ok.mp h
  obtain ⟨⟨p1, b⟩, hmig, h⟩ := except_bind_ok.mp h
  obtain ⟨⟨s2, p2, v⟩, hact, h⟩ := except_bind_ok.mp h
  obtain ⟨⟨s3, p3, r⟩, hrec, h⟩ := except_bind_ok.mp h
  obtain ⟨paid, hw, h⟩ := except_bind_ok.mp h
  obtain ⟨_, -, h⟩ := except_bind_ok.mp h
  obtain ⟨_, -, h⟩ := except_bind_ok.mp h
  cases h
  exact ⟨s1, sync, hsync, _, .closed (w := { w with subPool := s1 }) envelope.slot k p p1 p2 p3 s2
    _ b v paid r hk hmig hact hrec (math_add_ok.mp hw).2 (open_of_status hstatus), rfl⟩

theorem forceClose_acts {ack : Bool} {out : ForceCloseOutcome}
    (hk : w.positions.get? k = some p)
    (h : forceCloseZeroValuePosition market w.subPool envelope p ack = .ok (s', p', out)) :
    ∃ s1 sync, syncPool market w.subPool envelope = .ok (s1, sync) ∧
      ActsFrom w (some k) out.events ⟨s', w.positions.insert k p'⟩ sync s1 := by
  unfold forceCloseZeroValuePosition at h
  obtain ⟨_, -, h⟩ := except_bind_ok.mp h
  obtain ⟨_, -, h⟩ := except_bind_ok.mp h
  obtain ⟨_, -, h⟩ := except_bind_ok.mp h
  obtain ⟨_, hstatus, h⟩ := except_bind_ok.mp h
  obtain ⟨⟨s1, sync⟩, hsync, h⟩ := except_bind_ok.mp h
  obtain ⟨⟨p1, b⟩, hmig, h⟩ := except_bind_ok.mp h
  obtain ⟨⟨s2, p2, burned, removed⟩, hact, h⟩ := except_bind_ok.mp h
  obtain ⟨⟨s3, p3, r⟩, hrec, h⟩ := except_bind_ok.mp h
  obtain ⟨s4, hdust, h⟩ := except_bind_ok.mp h
  obtain ⟨_, -, h⟩ := except_bind_ok.mp h
  cases h
  exact ⟨s1, sync, hsync, _, .forceClosed (w := { w with subPool := s1 }) envelope.slot k p p1 p2
    p3 s2 s3 _ b burned removed r hk hmig hact hrec hdust (ensure_ok.mp hstatus), rfl⟩

theorem claim_acts {out : ClaimRecoveryOutcome} (hk : w.positions.get? k = some p)
    (h : claimDormantRecovery market w.subPool envelope p = .ok (s', p', out)) :
    ∃ s1 sync, syncPool market w.subPool envelope = .ok (s1, sync) ∧
      ActsFrom w (some k) out.events ⟨s', w.positions.insert k p'⟩ sync s1 := by
  unfold claimDormantRecovery at h
  obtain ⟨_, -, h⟩ := except_bind_ok.mp h
  obtain ⟨_, -, h⟩ := except_bind_ok.mp h
  obtain ⟨⟨s1, sync⟩, hsync, h⟩ := except_bind_ok.mp h
  obtain ⟨⟨p1, b⟩, hmig, h⟩ := except_bind_ok.mp h
  obtain ⟨_, h0, h⟩ := except_bind_ok.mp h
  obtain ⟨⟨s2, p2, tick, r⟩, hrec, h⟩ := except_bind_ok.mp h
  obtain ⟨_, -, h⟩ := except_bind_ok.mp h
  cases h
  exact ⟨s1, sync, hsync, _, .claimed (w := { w with subPool := s1 }) envelope.slot k p p1 p2 _ b
    tick r hk hmig (ensure_ok.mp h0) hrec, rfl⟩

theorem harvest_act {d : Direction} {out : HarvestOutcome}
    (h : harvestDust market w.subPool d = .ok (s', out)) :
    Act w none out.events { w with subPool := s' } := by
  unfold harvestDust at h
  obtain ⟨_, -, h⟩ := except_bind_ok.mp h
  obtain ⟨_, -, h⟩ := except_bind_ok.mp h
  obtain ⟨_, -, h⟩ := except_bind_ok.mp h
  cases h
  simp only [SubPool.setSide_subPoolId]
  exact .harvested d

theorem preSync_act {d : Direction} {tick : Int} {slot : Nat} {out : PreSyncOutcome}
    (h : preSyncDormantBucket market w.subPool d tick slot = .ok (s', out)) :
    Act w none out.events { w with subPool := s' } := by
  unfold preSyncDormantBucket at h
  obtain ⟨_, -, h⟩ := except_bind_ok.mp h
  obtain ⟨_, -, h⟩ := except_bind_ok.mp h
  obtain ⟨before, -, h⟩ := except_bind_ok.mp h
  obtain ⟨pending, -, h⟩ := except_bind_ok.mp h
  obtain ⟨_, -, h⟩ := except_bind_ok.mp h
  obtain ⟨⟨dormant, n⟩, hd, h⟩ := except_bind_ok.mp h
  obtain ⟨after, -, h⟩ := except_bind_ok.mp h
  obtain ⟨remaining, -, h⟩ := except_bind_ok.mp h
  obtain ⟨_, -, h⟩ := except_bind_ok.mp h
  cases h
  exact .preSynced d tick n dormant _ (SubPool.setSide_subPoolId _ _ _) (commit_ok.mp hd)

end Calls

/-! The position an action works on keeps its identity. -/

section Identity
variable {s s' : SubPool} {p p' : Position}

theorem Migrated.carried {x : Side} (h : Migrated x p p') : Carried p p' := by
  cases h <;> exact ⟨rfl, rfl, rfl, rfl⟩

theorem burnActive_carried {value : Nat} (h : burnActive s p value = .ok (s', p')) :
    Carried p p' ∧ s'.subPoolId = s.subPoolId := by
  obtain ⟨-, -, -, rfl, rfl⟩ := burnActive_ok h
  exact ⟨⟨rfl, rfl, rfl, rfl⟩, SubPool.setSide_subPoolId _ _ _⟩

theorem redeemActive_carried {value : Nat} (h : redeemActive s p = .ok (s', p', value)) :
    Carried p p' ∧ s'.subPoolId = s.subPoolId := by
  cases redeemActive_ok h with
  | inl h =>
    obtain ⟨-, rfl, rfl, -⟩ := h
    exact ⟨.refl p', rfl⟩
  | inr h => exact burnActive_carried h.2.2.2.2

theorem forfeitActive_carried {burned removed : Nat}
    (h : forfeitActive s p = .ok (s', p', burned, removed)) :
    Carried p p' ∧ s'.subPoolId = s.subPoolId := by
  cases forfeitActive_ok h with
  | inl h =>
    obtain ⟨-, rfl, rfl, -⟩ := h
    exact ⟨.refl p', rfl⟩
  | inr h => exact burnActive_carried h.2.1

theorem redeemRecovery_carried {tick : Int} {r : RedeemReceipt}
    (h : redeemRecovery s p = .ok (s', p', tick, r)) :
    Carried p p' ∧ s'.subPoolId = s.subPoolId := by
  obtain ⟨-, dormant, -, -, rfl, rfl⟩ := redeemRecovery_ok h
  exact ⟨⟨rfl, rfl, rfl, rfl⟩, SubPool.setSide_subPoolId _ _ _⟩

theorem settleRecovery_carried {r : RedeemReceipt}
    (h : settleRecovery s p = .ok (s', p', r)) : Carried p p' ∧ s'.subPoolId = s.subPoolId := by
  cases settleRecovery_ok h with
  | inl h =>
    obtain ⟨-, rfl, rfl, -⟩ := h
    exact ⟨.refl p', rfl⟩
  | inr h =>
    obtain ⟨-, tick, h⟩ := h
    exact redeemRecovery_carried h

end Identity

/-- Every successful call settles the price, then acts; its events come in that order. -/
theorem EngineOp.call_settled {market : MarketParams} {op : EngineOp} {w w' : World}
    {reply : Reply} (h : w.Inv) (hr : op.call market w = some (.ok (w', reply))) :
    ∃ s1 es1 es2, op.Settles market w.subPool es1 s1 ∧ World.Inv { w with subPool := s1 } ∧
      Act { w with subPool := s1 } op.burns es2 w' ∧ reply.events = es1 ++ es2 := by
  have hsynced : ∀ {envelope : PriceEnvelope} {burns : Option Nat} {events : List EngineEvent}
      {w' : World}, op.envelope = some envelope →
      (∃ s1 sync, syncPool market w.subPool envelope = .ok (s1, sync) ∧
        ActsFrom w burns events w' sync s1) →
      ∃ s1 es1 es2, op.Settles market w.subPool es1 s1 ∧ World.Inv { w with subPool := s1 } ∧
        Act { w with subPool := s1 } burns es2 w' ∧ events = es1 ++ es2 := by
    intro envelope burns events w' he hw
    obtain ⟨s1, sync, hsync, es, hact, hev⟩ := hw
    exact ⟨s1, sync.events, es, .synced envelope sync s1 he hsync, World.sync_inv h hsync, hact,
      hev⟩
  cases op with
  | sync envelope =>
    obtain ⟨⟨s, out⟩, hs, he⟩ := except_map_ok.mp (Option.some.inj hr)
    cases he
    exact hsynced rfl ⟨s, out, hs, [], .idle, (List.append_nil _).symm⟩
  | «open» envelope d gross id =>
    simp only [EngineOp.call] at hr
    split_ifs at hr with hk
    obtain ⟨⟨s, p, out⟩, hs, he⟩ := except_map_ok.mp (Option.some.inj hr)
    cases he
    exact hsynced rfl (openPosition_acts (by simpa [OrdMap.contains] using hk) hs)
  | close envelope k =>
    obtain ⟨p, hk, hr⟩ := Option.map_eq_some_iff.mp hr
    obtain ⟨⟨s, p', out⟩, hs, he⟩ := except_map_ok.mp hr
    cases he
    exact hsynced rfl (closePosition_acts hk hs)
  | forceClose envelope k ack =>
    obtain ⟨p, hk, hr⟩ := Option.map_eq_some_iff.mp hr
    obtain ⟨⟨s, p', out⟩, hs, he⟩ := except_map_ok.mp hr
    cases he
    exact hsynced rfl (forceClose_acts hk hs)
  | claim envelope k =>
    obtain ⟨p, hk, hr⟩ := Option.map_eq_some_iff.mp hr
    obtain ⟨⟨s, p', out⟩, hs, he⟩ := except_map_ok.mp hr
    cases he
    exact hsynced rfl (claim_acts hk hs)
  | harvest d =>
    obtain ⟨⟨s, out⟩, hs, he⟩ := except_map_ok.mp (Option.some.inj hr)
    cases he
    exact ⟨w.subPool, [], out.events, .idle rfl, h, harvest_act hs, rfl⟩
  | preSync d tick slot =>
    obtain ⟨⟨s, out⟩, hs, he⟩ := except_map_ok.mp (Option.some.inj hr)
    cases he
    exact ⟨w.subPool, [], out.events, .idle rfl, h, preSync_act hs, rfl⟩

theorem EngineOp.call_parts {market : MarketParams} {op : EngineOp} {w w' : World} {reply : Reply}
    (h : w.Inv) (hr : op.call market w = some (.ok (w', reply))) :
    ∃ s1 es1 es2, SyncPart market w.subPool es1 s1 ∧ World.Inv { w with subPool := s1 } ∧
      Act { w with subPool := s1 } op.burns es2 w' ∧ reply.events = es1 ++ es2 := by
  obtain ⟨s1, es1, es2, hset, hrest⟩ := EngineOp.call_settled h hr
  exact ⟨s1, es1, es2, hset.part, hrest⟩

end MoleFinance
