import MoleFinance.Engine.Events

/-! The engine on a sub-pool whose rotate logs have lost their beginning. Every call does what it
did before, unless its position was rotated out by a record that is lost. -/
namespace MoleFinance
open MoleMath Call Trace

abbrev RotateLogs := Direction → List RotateRecord

def Side.relog (lost : List RotateRecord) (x : Side) : Side :=
  { x with rotateLog := lost ++ x.rotateLog }

/-- The sub-pool with the lost records in front of its logs. -/
def SubPool.relog (lost : RotateLogs) (s : SubPool) : SubPool :=
  { s with long := s.long.relog (lost .long), short := s.short.relog (lost .short) }

def relogged {α : Type} (lost : RotateLogs) (r : SubPool × α) : SubPool × α :=
  (r.1.relog lost, r.2)

section Relog
variable {lost : RotateLogs} {market : MarketParams} {s : SubPool} {envelope : PriceEnvelope}
  {α β γ : Type}

theorem SubPool.side_relog (s : SubPool) (d : Direction) :
    (s.relog lost).side d = (s.side d).relog (lost d) := by cases d <;> rfl

theorem SubPool.setSide_relog (s : SubPool) (d : Direction) (x : Side) :
    (s.relog lost).setSide d (x.relog (lost d)) = (s.setSide d x).relog lost := by
  cases d <;> rfl

theorem bind_relogged {x : Except ClearingError β}
    {f g : β → Except ClearingError (SubPool × α)} (h : ∀ b, g b = relogged lost <$> f b) :
    (x >>= g) = relogged lost <$> (x >>= f) := by
  rw [map_bind]
  exact bind_congr h

theorem ensure_relogged {c : Prop} [Decidable c] {e : ClearingError}
    {f g : Unit → Except ClearingError (SubPool × α)} (h : c → g () = relogged lost <$> f ()) :
    (ensure c e >>= g) = relogged lost <$> (ensure c e >>= f) := by
  by_cases hc : c
  · rw [ensure_of hc]
    exact h hc
  · rw [ensure_not hc]
    rfl

theorem relogged_bind {x : Except ClearingError (SubPool × β)}
    {f g : SubPool × β → Except ClearingError (SubPool × α)}
    (h : ∀ r, g (relogged lost r) = relogged lost <$> f r) :
    (relogged lost <$> x >>= g) = relogged lost <$> (x >>= f) := by
  rw [bind_map_left, map_bind]
  exact bind_congr h

theorem check_relog : checkSubpoolInvariants (s.relog lost) = checkSubpoolInvariants s := rfl

theorem syncDemands_relog (p : Nat) : syncDemands (s.relog lost) p = syncDemands s p := rfl

theorem transferToRecovery_relog {p a : Nat} {x : Side} {log : List RotateRecord} :
    transferToRecovery market p a (x.relog log)
      = (fun r => (r.1.relog log, r.2)) <$> transferToRecovery market p a x := by
  unfold transferToRecovery
  split_ifs
  · rfl
  · rw [map_bind]
    refine bind_congr fun _ => ?_
    rw [map_bind]
    refine bind_congr fun _ => ?_
    rw [map_bind]
    exact bind_congr fun _ => rfl

theorem transferTo_relog {p : Nat} {w : Direction} {demand : Demand} :
    transferTo market (s.relog lost) p w demand
      = relogged lost <$> transferTo market s p w demand := by
  have hloser : ((s.relog lost).side w.opposite).poolEquity = (s.side w.opposite).poolEquity := by
    rw [SubPool.side_relog]
    rfl
  unfold transferTo
  simp only [hloser]
  split_ifs
  · rfl
  · refine bind_relogged fun toActive => bind_relogged fun toRecovery => ?_
    rw [SubPool.side_relog]
    refine bind_relogged fun equity => bind_relogged fun loserEquity => ?_
    have hx := @transferToRecovery_relog market p toRecovery
      { s.side w with poolEquity := equity } (lost w)
    refine (congrArg (· >>= _) hx).trans ?_
    rw [bind_map_left]
    refine bind_relogged fun r => ?_
    have hset : ((s.relog lost).setSide w (r.1.relog (lost w))).setSide w.opposite
        { (s.side w.opposite).relog (lost w.opposite) with poolEquity := loserEquity }
          = ((s.setSide w r.1).setSide w.opposite
            { s.side w.opposite with poolEquity := loserEquity }).relog lost := by
      rw [SubPool.setSide_relog]
      exact SubPool.setSide_relog _ w.opposite
        { s.side w.opposite with poolEquity := loserEquity }
    rw [SubPool.side_relog]
    exact congrArg (fun t => Except.ok (t, _)) hset

theorem settleDemands_relog {p : Nat} {demands : Demand × Demand} :
    settleDemands market (s.relog lost) p demands
      = relogged lost <$> settleDemands market s p demands := by
  unfold settleDemands
  split_ifs
  · rw [transferTo_relog]
    exact relogged_bind fun r => rfl
  · rw [transferTo_relog]
    exact relogged_bind fun r => rfl
  · rfl

theorem pushRotateRecord_relog {x : Side} {log : List RotateRecord} {record : RotateRecord} :
    (x.relog log).pushRotateRecord record = Side.relog log <$> x.pushRotateRecord record := by
  unfold Side.pushRotateRecord
  rw [map_bind]
  refine bind_congr fun _ => ?_
  have hlog : log ++ x.rotateLog ++ [record] = log ++ (x.rotateLog ++ [record]) :=
    List.append_assoc _ _ _
  exact congrArg (fun l => Except.ok
    { x with rotateLog := l, activeGeneration := x.activeGeneration + 1 }) hlog

theorem rotateActiveToRecovery_relog {d : Direction} {p : Nat} :
    rotateActiveToRecovery market (s.relog lost) d p
      = SubPool.relog lost <$> rotateActiveToRecovery market s d p := by
  unfold rotateActiveToRecovery
  rw [SubPool.side_relog]
  have hshares : ((s.side d).relog (lost d)).activeShares = (s.side d).activeShares := rfl
  simp only [hshares]
  split_ifs
  · rfl
  · rw [map_bind]
    refine bind_congr fun tick => ?_
    rw [map_bind]
    refine bind_congr fun r => ?_
    rw [map_bind]
    refine bind_congr fun recoveryShares => ?_
    have hx := @pushRotateRecord_relog { s.side d with
      dormant := r.1
      recoveryShares := recoveryShares
      activeShares := 0
      activeNotional := 0 } (lost d) ⟨(s.side d).activeGeneration, tick, p⟩
    refine (congrArg (· >>= _) hx).trans ?_
    rw [bind_map_left, map_bind]
    exact bind_congr fun x => congrArg Except.ok (s.setSide_relog d x)

theorem rotateIfDrained_relog {d : Direction} :
    rotateIfDrained market (s.relog lost) envelope d
      = relogged lost <$> rotateIfDrained market s envelope d := by
  have hside := @SubPool.side_relog lost s d
  have hequity : ((s.relog lost).side d).poolEquity = (s.side d).poolEquity := by
    rw [hside]
    rfl
  have hshares : ((s.relog lost).side d).activeShares = (s.side d).activeShares := by
    rw [hside]
    rfl
  unfold rotateIfDrained
  simp only [hequity, hshares]
  split_ifs
  · refine bind_relogged fun tick => ?_
    rw [rotateActiveToRecovery_relog, bind_map_left]
    refine bind_relogged fun rotated => ?_
    rw [hside]
    rfl
  · rfl

theorem movePrice_relog : movePrice market (s.relog lost) envelope
    = relogged lost <$> movePrice market s envelope := by
  unfold movePrice
  refine bind_relogged fun moveBps => bind_relogged fun _ => ?_
  rw [syncDemands_relog]
  refine bind_relogged fun demands => ?_
  rw [settleDemands_relog]
  refine relogged_bind fun r => ?_
  have hat : (r.1.relog lost).atPrice envelope = (r.1.atPrice envelope).relog lost := rfl
  simp only [relogged, hat]
  rw [rotateIfDrained_relog]
  refine relogged_bind fun r2 => ?_
  simp only [relogged]
  rw [rotateIfDrained_relog]
  refine relogged_bind fun r3 => ?_
  simp only [relogged]
  rw [check_relog]
  exact bind_relogged fun _ => rfl

theorem syncPool_relog : syncPool market (s.relog lost) envelope
    = relogged lost <$> syncPool market s envelope := by
  have hlast : (s.relog lost).lastPrice = s.lastPrice := rfl
  unfold syncPool
  refine bind_relogged fun _ => ?_
  simp only [hlast]
  split_ifs
  · exact bind_relogged fun _ => rfl
  · exact bind_relogged fun _ => rfl
  · exact movePrice_relog

/-- The engine needs no lost record to migrate the position; it takes positions of its own
    schema only. -/
def Unforgotten (lost : RotateLogs) (p : Position) : Prop :=
  p.schemaVersion = schemaVersionCurrent → p.activeShares ≠ 0 →
    ∀ r ∈ lost p.direction, r.generationJustEnded ≠ p.activeGeneration

theorem findRotateRecord_relog {x : Side} {log : List RotateRecord} {generation : Nat}
    (h : ∀ r ∈ log, r.generationJustEnded ≠ generation) :
    (x.relog log).findRotateRecord generation = x.findRotateRecord generation := by
  have hnone : log.find? (fun r => r.generationJustEnded = generation) = none := by
    rw [List.find?_eq_none]
    intro r hr
    simpa using h r hr
  unfold Side.findRotateRecord Side.relog
  rw [List.find?_append, hnone, Option.none_or]

theorem lazyMigratePosition_relog {p : Position} (h : Unforgotten lost p)
    (hp : p.schemaVersion = schemaVersionCurrent) :
    lazyMigratePosition (s.relog lost) p = lazyMigratePosition s p := by
  unfold lazyMigratePosition
  rw [SubPool.side_relog]
  have hgen : ((s.side p.direction).relog (lost p.direction)).activeGeneration
      = (s.side p.direction).activeGeneration := rfl
  by_cases h0 : p.activeShares = 0
  · simp only [if_pos h0, hgen]
  · simp only [hgen, findRotateRecord_relog (h hp h0)]

theorem redeemRecovery_relog {p : Position} :
    redeemRecovery (s.relog lost) p = relogged lost <$> redeemRecovery s p := by
  unfold redeemRecovery
  cases p.recoveryBucketTick with
  | none => rfl
  | some tick =>
    simp only
    rw [SubPool.side_relog]
    refine bind_relogged fun r => bind_relogged fun recoveryShares => ?_
    exact congrArg (fun t => Except.ok (t, _)) (s.setSide_relog p.direction
      { s.side p.direction with dormant := r.1, recoveryShares := recoveryShares })

theorem settleRecovery_relog {p : Position} :
    settleRecovery (s.relog lost) p = relogged lost <$> settleRecovery s p := by
  unfold settleRecovery
  split_ifs
  · rfl
  · rw [redeemRecovery_relog]
    exact relogged_bind fun r => rfl

theorem burnActive_relog {p : Position} {value : Nat} :
    burnActive (s.relog lost) p value = relogged lost <$> burnActive s p value := by
  unfold burnActive
  rw [SubPool.side_relog]
  refine bind_relogged fun equity => bind_relogged fun shares => bind_relogged fun notional => ?_
  exact congrArg (fun t => Except.ok (t, _)) (s.setSide_relog p.direction
    { s.side p.direction with
      poolEquity := equity, activeShares := shares, activeNotional := notional })

theorem redeemActive_relog {p : Position} :
    redeemActive (s.relog lost) p = relogged lost <$> redeemActive s p := by
  have hequity : ((s.side p.direction).relog (lost p.direction)).poolEquity
      = (s.side p.direction).poolEquity := rfl
  have hshares : ((s.side p.direction).relog (lost p.direction)).activeShares
      = (s.side p.direction).activeShares := rfl
  unfold redeemActive
  simp only [SubPool.side_relog, hequity, hshares]
  split_ifs
  · rfl
  · refine bind_relogged fun value => ?_
    rw [burnActive_relog]
    exact relogged_bind fun r => rfl

theorem forfeitActive_relog {p : Position} :
    forfeitActive (s.relog lost) p = relogged lost <$> forfeitActive s p := by
  unfold forfeitActive
  rw [SubPool.side_relog]
  split_ifs
  · rfl
  · refine bind_relogged fun value => bind_relogged fun _ => ?_
    rw [burnActive_relog]
    exact relogged_bind fun r => rfl

theorem addDust_relog {d : Direction} {amount : Nat} :
    addDust (s.relog lost) d amount = SubPool.relog lost <$> addDust s d amount := by
  unfold addDust
  rw [SubPool.side_relog, map_bind]
  exact bind_congr fun dust => congrArg Except.ok (s.setSide_relog d { s.side d with dust := dust })

theorem openPosition_relog {d : Direction} {gross id : Nat} :
    openPosition market (s.relog lost) envelope d gross id
      = relogged lost <$> openPosition market s envelope d gross id := by
  unfold openPosition
  refine bind_relogged fun _ => bind_relogged fun _ => ?_
  rw [syncPool_relog]
  refine relogged_bind fun r => bind_relogged fun fee => ?_
  simp only
  rw [SubPool.side_relog]
  refine bind_relogged fun minted => bind_relogged fun notional => bind_relogged fun equity =>
    bind_relogged fun shares => bind_relogged fun total => bind_relogged fun dust => ?_
  have hx : { (r.1.side d).relog (lost d) with
      poolEquity := equity, activeShares := shares, activeNotional := total, dust := dust }
        = Side.relog (lost d) { r.1.side d with
          poolEquity := equity, activeShares := shares, activeNotional := total, dust := dust } :=
    rfl
  simp only [hx, SubPool.setSide_relog, check_relog]
  exact bind_relogged fun _ => rfl

theorem closePosition_relog {p : Position} (h : Unforgotten lost p) :
    closePosition market (s.relog lost) envelope p
      = relogged lost <$> closePosition market s envelope p := by
  unfold closePosition
  refine ensure_relogged fun hschema => ensure_relogged fun hp => bind_relogged fun _ => ?_
  rw [syncPool_relog]
  refine relogged_bind fun r => ?_
  simp only [relogged]
  rw [lazyMigratePosition_relog h (hp.trans hschema)]
  refine bind_relogged fun migrated => ?_
  rw [redeemActive_relog]
  refine relogged_bind fun r2 => ?_
  simp only [relogged]
  rw [settleRecovery_relog]
  refine relogged_bind fun r3 => bind_relogged fun _ => bind_relogged fun _ => ?_
  simp only [relogged]
  rw [check_relog]
  exact bind_relogged fun _ => rfl

theorem forceClose_relog {p : Position} {ack : Bool} (h : Unforgotten lost p) :
    forceCloseZeroValuePosition market (s.relog lost) envelope p ack
      = relogged lost <$> forceCloseZeroValuePosition market s envelope p ack := by
  unfold forceCloseZeroValuePosition
  refine ensure_relogged fun hschema => ensure_relogged fun hp => bind_relogged fun _ =>
    bind_relogged fun _ => ?_
  rw [syncPool_relog]
  refine relogged_bind fun r => ?_
  simp only [relogged]
  rw [lazyMigratePosition_relog h (hp.trans hschema)]
  refine bind_relogged fun migrated => ?_
  rw [forfeitActive_relog]
  refine relogged_bind fun r2 => ?_
  simp only [relogged]
  rw [settleRecovery_relog]
  refine relogged_bind fun r3 => ?_
  simp only [relogged]
  rw [addDust_relog, bind_map_left]
  refine bind_relogged fun t => ?_
  rw [check_relog]
  exact bind_relogged fun _ => rfl

theorem claim_relog {p : Position} (h : Unforgotten lost p) :
    claimDormantRecovery market (s.relog lost) envelope p
      = relogged lost <$> claimDormantRecovery market s envelope p := by
  unfold claimDormantRecovery
  refine ensure_relogged fun hschema => ensure_relogged fun hp => ?_
  rw [syncPool_relog]
  refine relogged_bind fun r => ?_
  simp only [relogged]
  rw [lazyMigratePosition_relog h (hp.trans hschema)]
  refine bind_relogged fun migrated => bind_relogged fun _ => ?_
  rw [redeemRecovery_relog]
  refine relogged_bind fun r2 => ?_
  simp only [relogged]
  rw [check_relog]
  exact bind_relogged fun _ => rfl

theorem harvestDust_relog {d : Direction} : harvestDust market (s.relog lost) d
    = relogged lost <$> harvestDust market s d := by
  unfold harvestDust
  refine bind_relogged fun _ => bind_relogged fun _ => ?_
  rw [SubPool.side_relog]
  have hx : { (s.side d).relog (lost d) with dust := 0 }
      = Side.relog (lost d) { s.side d with dust := 0 } := rfl
  simp only [hx, SubPool.setSide_relog, check_relog]
  exact bind_relogged fun _ => rfl

theorem preSync_relog {d : Direction} {tick : Int} {slot : Nat} :
    preSyncDormantBucket market (s.relog lost) d tick slot
      = relogged lost <$> preSyncDormantBucket market s d tick slot := by
  unfold preSyncDormantBucket
  refine bind_relogged fun _ => bind_relogged fun _ => ?_
  rw [SubPool.side_relog]
  refine bind_relogged fun before => bind_relogged fun pending => bind_relogged fun _ =>
    bind_relogged fun applied => bind_relogged fun after => bind_relogged fun remaining => ?_
  have hx : { (s.side d).relog (lost d) with dormant := applied.1 }
      = Side.relog (lost d) { s.side d with dormant := applied.1 } := rfl
  simp only [hx, SubPool.setSide_relog, check_relog]
  exact bind_relogged fun _ => rfl

end Relog

structure Side.Logged (x x' : Side) : Prop where
  generation_le : x.activeGeneration ≤ x'.activeGeneration
  log : ∃ added, x'.rotateLog = x.rotateLog ++ added ∧
    ∀ r ∈ added, r.generationJustEnded < x'.activeGeneration

def SubPool.Logged (s s' : SubPool) : Prop := ∀ d, (s.side d).Logged (s'.side d)

namespace Side.Logged
variable {x y z : Side}

theorem of_same (hg : y.activeGeneration = x.activeGeneration) (hl : y.rotateLog = x.rotateLog) :
    Logged x y :=
  ⟨hg.ge, [], by rw [hl, List.append_nil], fun r hr => absurd hr List.not_mem_nil⟩

theorem refl (x : Side) : Logged x x := of_same rfl rfl

theorem trans (h : Logged x y) (h' : Logged y z) : Logged x z := by
  obtain ⟨added, hl, ha⟩ := h.log
  obtain ⟨added', hl', ha'⟩ := h'.log
  refine ⟨h.generation_le.trans h'.generation_le, added ++ added', ?_, fun r hr => ?_⟩
  · rw [hl', hl, List.append_assoc]
  · cases List.mem_append.mp hr with
    | inl hr => exact (ha r hr).trans_le h'.generation_le
    | inr hr => exact ha' r hr

theorem rotated {market : MarketParams} {p : Nat} (h : Rotated market p x y) : Logged x y := by
  obtain ⟨tick, dormant, -, -, -, -, rfl⟩ := h.tick
  refine ⟨Nat.le_succ _, _, rfl, fun r hr => ?_⟩
  rw [List.mem_singleton.mp hr]
  exact Nat.lt_succ_self _

end Side.Logged

namespace SubPool.Logged
variable {s s' s'' : SubPool}

theorem refl (s : SubPool) : Logged s s := fun _ => .refl _

theorem trans (h : Logged s s') (h' : Logged s' s'') : Logged s s'' :=
  fun d => (h d).trans (h' d)

theorem of_sides (hs : ∀ d, s'.side d = s.side d) : Logged s s' := by
  intro d
  rw [hs]
  exact .refl _

theorem setSide {d : Direction} {x : Side} (h : (s.side d).Logged x) :
    Logged s (s.setSide d x) := by
  intro e
  rw [side_setSide_eq]
  split_ifs with he
  · rw [he]
    exact h
  · exact .refl _

end SubPool.Logged

section Logs
variable {market : MarketParams} {s s' : SubPool} {envelope : PriceEnvelope} {p p' : Position}
  {d : Direction}

theorem transferTo_logged {price : Nat} {w : Direction} {demand : Demand} {inflow : Inflow}
    (h : transferTo market s price w demand = .ok (s', inflow)) : s.Logged s' := by
  cases transferTo_ok h with
  | inl h =>
    obtain ⟨-, rfl, -⟩ := h
    exact .refl _
  | inr h =>
    obtain ⟨t, a, x, -, -, -, -, -, hx, -, rfl⟩ := h
    have hw : (s.side w).Logged x := by
      cases transferToRecovery_ok hx with
      | inl h =>
        obtain ⟨-, rfl, -⟩ := h
        exact .of_same rfl rfl
      | inr h =>
        obtain ⟨dormant, r, -, -, rfl, -⟩ := h
        exact .of_same rfl rfl
    refine (SubPool.Logged.setSide hw).trans (.setSide ?_)
    rw [SubPool.side_setSide_opposite]
    exact .of_same rfl rfl

theorem settleDemands_logged {price : Nat} {demands : Demand × Demand} {long short : Inflow}
    (h : settleDemands market s price demands = .ok (s', long, short)) : s.Logged s' := by
  unfold settleDemands at h
  split_ifs at h with h1 h2
  · obtain ⟨⟨t, i⟩, ht, h⟩ := except_bind_ok.mp h
    cases h
    exact transferTo_logged ht
  · obtain ⟨⟨t, i⟩, ht, h⟩ := except_bind_ok.mp h
    cases h
    exact transferTo_logged ht
  · cases h
    exact .refl _

theorem rotateIfDrained_logged {ev : Option ActiveRotatedToRecoveryEvent}
    (h : rotateIfDrained market s envelope d = .ok (s', ev)) : s.Logged s' := by
  cases rotateIfDrained_ok h with
  | inl h =>
    obtain ⟨-, rfl, -⟩ := h
    exact .refl _
  | inr h =>
    obtain ⟨-, -, x, hx, rfl⟩ := h
    exact .setSide (.rotated hx)

theorem syncPool_logged {out : SyncOutcome} (h : syncPool market s envelope = .ok (s', out)) :
    s.Logged s' := by
  obtain ⟨-, hsync, -⟩ := syncPool_ok h
  cases hsync with
  | seeded h0 => exact .of_sides (s.side_atPrice envelope)
  | still h0 hp => exact .of_sides (fun d => by cases d <;> rfl)
  | moved demands s1 s2 _ long short lr sr _ h0 hp hdem hset hl hsh =>
    have h1 : s.Logged (s1.atPrice envelope) :=
      (settleDemands_logged hset).trans (.of_sides (s1.side_atPrice envelope))
    exact h1.trans ((rotateIfDrained_logged hl).trans (rotateIfDrained_logged hsh))

/-- What is left of a position: active shares only of the generation they had. -/
structure Follows (p p' : Position) : Prop where
  carried : Carried p p'
  active : p'.activeShares ≠ 0 → p.activeShares ≠ 0 ∧ p'.activeGeneration = p.activeGeneration

theorem Follows.refl (p : Position) : Follows p p := ⟨.refl p, fun h => ⟨h, rfl⟩⟩

theorem Follows.trans {q : Position} (h : Follows p q) (h' : Follows q p') : Follows p p' := by
  refine ⟨h.carried.trans h'.carried, fun h0 => ?_⟩
  obtain ⟨hq, hg⟩ := h'.active h0
  exact ⟨(h.active hq).1, hg.trans (h.active hq).2⟩

theorem Follows.burned (h : Carried p p') (h0 : p'.activeShares = 0) : Follows p p' :=
  ⟨h, fun hne => absurd h0 hne⟩

theorem Follows.unforgotten {lost : RotateLogs} (h : Follows p p') (hu : Unforgotten lost p) :
    Unforgotten lost p' := by
  intro hschema h0
  obtain ⟨hp, hg⟩ := h.active h0
  rw [h.carried.direction, hg]
  exact hu (h.carried.schema.symm.trans hschema) hp

theorem Migrated.follows {x : Side} (h : Migrated x p p') : Follows p p' := by
  have hc := h.carried
  cases h with
  | empty h0 => exact .burned hc h0
  | current h0 hg => exact .refl p
  | moved r h0 hg hr => exact .burned hc rfl

theorem burnActive_logged {value : Nat} (h : burnActive s p value = .ok (s', p')) :
    s.Logged s' ∧ Follows p p' := by
  obtain ⟨-, -, -, rfl, rfl⟩ := burnActive_ok h
  exact ⟨.setSide (.of_same rfl rfl), .burned ⟨rfl, rfl, rfl, rfl⟩ rfl⟩

theorem redeemActive_logged {value : Nat} (h : redeemActive s p = .ok (s', p', value)) :
    s.Logged s' ∧ Follows p p' := by
  cases redeemActive_ok h with
  | inl h =>
    obtain ⟨-, rfl, rfl, -⟩ := h
    exact ⟨.refl _, .refl _⟩
  | inr h => exact burnActive_logged h.2.2.2.2

theorem forfeitActive_logged {burned removed : Nat}
    (h : forfeitActive s p = .ok (s', p', burned, removed)) : s.Logged s' ∧ Follows p p' := by
  cases forfeitActive_ok h with
  | inl h =>
    obtain ⟨-, rfl, rfl, -⟩ := h
    exact ⟨.refl _, .refl _⟩
  | inr h => exact burnActive_logged h.2.1

theorem redeemRecovery_logged {tick : Int} {r : RedeemReceipt}
    (h : redeemRecovery s p = .ok (s', p', tick, r)) : s.Logged s' ∧ Follows p p' := by
  obtain ⟨-, dormant, -, -, rfl, rfl⟩ := redeemRecovery_ok h
  exact ⟨.setSide (.of_same rfl rfl), ⟨⟨rfl, rfl, rfl, rfl⟩, fun h => ⟨h, rfl⟩⟩⟩

theorem settleRecovery_logged {r : RedeemReceipt} (h : settleRecovery s p = .ok (s', p', r)) :
    s.Logged s' ∧ Follows p p' := by
  cases settleRecovery_ok h with
  | inl h =>
    obtain ⟨-, rfl, rfl, -⟩ := h
    exact ⟨.refl _, .refl _⟩
  | inr h =>
    obtain ⟨-, tick, h⟩ := h
    exact redeemRecovery_logged h

theorem openPosition_logged {gross id : Nat} {out : OpenOutcome}
    (h : openPosition market s envelope d gross id = .ok (s', p, out)) :
    s.Logged s' ∧ p.direction = d ∧ (s.side d).activeGeneration ≤ p.activeGeneration := by
  obtain ⟨s1, sync, ho⟩ := openPosition_ok h
  have hsync := syncPool_logged ho.synced
  refine ⟨?_, by rw [ho.position], ?_⟩
  · rw [ho.state]
    exact hsync.trans (.setSide (.of_same rfl rfl))
  · rw [ho.position]
    exact (hsync d).generation_le

theorem closePosition_logged {out : CloseOutcome}
    (h : closePosition market s envelope p = .ok (s', p', out)) : s.Logged s' ∧ Follows p p' := by
  obtain ⟨s1, s2, sync, p1, p2, p3, b, r, hc⟩ := closePosition_ok h
  obtain ⟨ha, hp2⟩ := redeemActive_logged hc.active
  obtain ⟨hr, hp3⟩ := settleRecovery_logged hc.recovery
  refine ⟨(syncPool_logged hc.synced).trans (ha.trans hr), ?_⟩
  rw [hc.state]
  have hp := (lazyMigratePosition_ok hc.migrated).follows.trans (hp2.trans hp3)
  exact ⟨⟨hp.carried.direction, hp.carried.id, hp.carried.principal, hp.carried.schema⟩, hp.active⟩

theorem forceClose_logged {ack : Bool} {out : ForceCloseOutcome}
    (h : forceCloseZeroValuePosition market s envelope p ack = .ok (s', p', out)) :
    s.Logged s' ∧ Follows p p' := by
  obtain ⟨s1, s2, s3, sync, p1, p2, p3, b, burned, removed, r, hc⟩ := forceClose_ok h
  obtain ⟨ha, hp2⟩ := forfeitActive_logged hc.active
  obtain ⟨hr, hp3⟩ := settleRecovery_logged hc.recovery
  have hd : s3.Logged s' := by
    rw [addDust_ok hc.dust]
    exact .setSide (.of_same rfl rfl)
  refine ⟨(syncPool_logged hc.synced).trans (ha.trans (hr.trans hd)), ?_⟩
  rw [hc.state]
  have hp := (lazyMigratePosition_ok hc.migrated).follows.trans (hp2.trans hp3)
  exact ⟨⟨hp.carried.direction, hp.carried.id, hp.carried.principal, hp.carried.schema⟩, hp.active⟩

theorem claim_logged {out : ClaimRecoveryOutcome}
    (h : claimDormantRecovery market s envelope p = .ok (s', p', out)) :
    s.Logged s' ∧ Follows p p' := by
  obtain ⟨s1, sync, p1, p2, b, tick, r, hc⟩ := claim_ok h
  obtain ⟨hr, hp2⟩ := redeemRecovery_logged hc.recovery
  refine ⟨(syncPool_logged hc.synced).trans hr, ?_⟩
  rw [hc.state]
  have hp := (lazyMigratePosition_ok hc.migrated).follows.trans hp2
  exact ⟨⟨hp.carried.direction, hp.carried.id, hp.carried.principal, hp.carried.schema⟩, hp.active⟩

theorem harvest_logged {out : HarvestOutcome} (h : harvestDust market s d = .ok (s', out)) :
    s.Logged s' := by
  obtain ⟨-, rfl, -⟩ := harvest_ok h
  exact .setSide (.of_same rfl rfl)

theorem preSync_logged {tick : Int} {slot : Nat} {out : PreSyncOutcome}
    (h : preSyncDormantBucket market s d tick slot = .ok (s', out)) : s.Logged s' := by
  obtain ⟨n, dormant, -, rfl, -⟩ := preSync_ok h
  exact .setSide (.of_same rfl rfl)

end Logs

namespace World
variable {lost : RotateLogs} {w : World}

def relog (lost : RotateLogs) (w : World) : World := { w with subPool := w.subPool.relog lost }

/-- No position of the world needs a lost record, nor will one opened later. -/
structure Remembers (lost : RotateLogs) (w : World) : Prop where
  older : ∀ d, ∀ r ∈ lost d, r.generationJustEnded < (w.subPool.side d).activeGeneration
  positions : ∀ id p, w.positions.get? id = some p → Unforgotten lost p

theorem Remembers.withSubPool (h : w.Remembers lost) {s : SubPool} (hs : w.subPool.Logged s) :
    Remembers lost { w with subPool := s } :=
  ⟨fun d r hr => (h.older d r hr).trans_le (hs d).generation_le, h.positions⟩

theorem Remembers.withPosition (h : w.Remembers lost) {s : SubPool} (hs : w.subPool.Logged s)
    {id : Nat} {p : Position} (hp : Unforgotten lost p) :
    Remembers lost ⟨s, w.positions.insert id p⟩ := by
  refine ⟨(h.withSubPool hs).older, fun k q hq => ?_⟩
  rw [OrdMap.get?_insert] at hq
  split_ifs at hq with hk
  · cases hq
    exact hp
  · exact h.positions k q hq

end World

namespace EngineOp
variable {lost : RotateLogs} {w w' : World} {market : MarketParams} {reply : Reply}

theorem call_remembers (h : w.Remembers lost) {op : EngineOp}
    (hr : op.call market w = some (.ok (w', reply))) : w'.Remembers lost := by
  cases op with
  | sync envelope =>
    obtain ⟨⟨s, out⟩, hs, he⟩ := except_map_ok.mp (Option.some.inj hr)
    cases he
    exact h.withSubPool (syncPool_logged hs)
  | «open» envelope d gross id =>
    simp only [call] at hr
    split_ifs at hr with hk
    obtain ⟨⟨s, p, out⟩, hs, he⟩ := except_map_ok.mp (Option.some.inj hr)
    cases he
    obtain ⟨hl, hd, hg⟩ := openPosition_logged hs
    refine h.withPosition hl fun _ _ r hrec => ?_
    rw [hd] at hrec
    exact ((h.older d r hrec).trans_le hg).ne
  | close envelope k =>
    obtain ⟨p, hk, hr⟩ := Option.map_eq_some_iff.mp hr
    obtain ⟨⟨s, p', out⟩, hs, he⟩ := except_map_ok.mp hr
    cases he
    obtain ⟨hl, hp⟩ := closePosition_logged hs
    exact h.withPosition hl (hp.unforgotten (h.positions k p hk))
  | forceClose envelope k ack =>
    obtain ⟨p, hk, hr⟩ := Option.map_eq_some_iff.mp hr
    obtain ⟨⟨s, p', out⟩, hs, he⟩ := except_map_ok.mp hr
    cases he
    obtain ⟨hl, hp⟩ := forceClose_logged hs
    exact h.withPosition hl (hp.unforgotten (h.positions k p hk))
  | claim envelope k =>
    obtain ⟨p, hk, hr⟩ := Option.map_eq_some_iff.mp hr
    obtain ⟨⟨s, p', out⟩, hs, he⟩ := except_map_ok.mp hr
    cases he
    obtain ⟨hl, hp⟩ := claim_logged hs
    exact h.withPosition hl (hp.unforgotten (h.positions k p hk))
  | harvest d =>
    obtain ⟨⟨s, out⟩, hs, he⟩ := except_map_ok.mp (Option.some.inj hr)
    cases he
    exact h.withSubPool (harvest_logged hs)
  | preSync d tick slot =>
    obtain ⟨⟨s, out⟩, hs, he⟩ := except_map_ok.mp (Option.some.inj hr)
    cases he
    exact h.withSubPool (preSync_logged hs)

def relogged (lost : RotateLogs) (r : World × Reply) : World × Reply := (r.1.relog lost, r.2)

theorem call_relog (h : w.Remembers lost) (op : EngineOp) :
    op.call market (w.relog lost) = (op.call market w).map (relogged lost <$> ·) := by
  have onPosition : ∀ {α : Type} (k : Nat) (reply : Position → α → Reply)
      (f : SubPool → Position → Except ClearingError (SubPool × Position × α)),
      (∀ p, w.positions.get? k = some p →
        f (w.subPool.relog lost) p = MoleFinance.relogged lost <$> f w.subPool p) →
      ((w.relog lost).positions.get? k).map (fun p =>
          (w.relog lost).withPosition k reply <$> f (w.subPool.relog lost) p)
        = ((w.positions.get? k).map (fun p => w.withPosition k reply <$> f w.subPool p)).map
          (relogged lost <$> ·) := by
    intro α k reply f hf
    have hget : (w.relog lost).positions.get? k = w.positions.get? k := rfl
    rw [hget]
    cases hk : w.positions.get? k with
    | none => rfl
    | some p =>
      simp only [Option.map_some, hf p hk, Functor.map_map]
      rfl
  have onSubPool : ∀ {α : Type} (reply : α → Reply) {x y : Except ClearingError (SubPool × α)},
      y = MoleFinance.relogged lost <$> x → some ((w.relog lost).withSubPool reply <$> y)
        = (some (w.withSubPool reply <$> x)).map (relogged lost <$> ·) := by
    intro α reply x y hy
    rw [hy, Option.map_some, Functor.map_map, Functor.map_map]
    rfl
  cases op with
  | sync envelope => exact onSubPool .synced syncPool_relog
  | «open» envelope d gross id =>
    simp only [call]
    have hget : (w.relog lost).positions = w.positions := rfl
    have hopen := @openPosition_relog lost market w.subPool envelope d gross id
    rw [hget]
    split_ifs
    · rfl
    · refine congrArg some ((congrArg (_ <$> ·) hopen).trans ?_)
      simp only [Functor.map_map]
      rfl
  | close envelope k =>
    exact onPosition k .closed (fun s p => closePosition market s envelope p)
      fun p hk => closePosition_relog (h.positions k p hk)
  | forceClose envelope k ack =>
    exact onPosition k .forceClosed (fun s p => forceCloseZeroValuePosition market s envelope p ack)
      fun p hk => forceClose_relog (h.positions k p hk)
  | claim envelope k =>
    exact onPosition k .claimed (fun s p => claimDormantRecovery market s envelope p)
      fun p hk => claim_relog (h.positions k p hk)
  | harvest d => exact onSubPool .harvested harvestDust_relog
  | preSync d tick slot => exact onSubPool .preSynced preSync_relog

theorem step_relog (h : w.Remembers lost) (op : MarketParams × EngineOp) :
    step op (w.relog lost) = ((step op w).1, (step op w).2.relog lost) ∧
      (step op w).2.Remembers lost := by
  unfold step
  rw [call_relog h]
  cases hc : op.2.call op.1 w with
  | none => exact ⟨rfl, h⟩
  | some r =>
    cases r with
    | error e => exact ⟨rfl, h⟩
    | ok res => exact ⟨rfl, call_remembers h hc⟩

theorem run_relog (h : w.Remembers lost) (ops : List (MarketParams × EngineOp)) :
    (run step ops (w.relog lost)).1 = (run step ops w).1 := by
  induction ops generalizing w with
  | nil => rfl
  | cons op ops ih =>
    obtain ⟨hstep, hnext⟩ := step_relog h op
    simp only [run, hstep, ih hnext]

end EngineOp

end MoleFinance
