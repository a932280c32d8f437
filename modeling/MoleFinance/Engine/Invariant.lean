import MoleFinance.Engine.Aggregates

/-! The invariant over whole engine runs, and the aggregates of a sub-pool as sums over its
live positions. -/
namespace MoleFinance
open MoleMath Call

def principals (ps : Positions) : Nat := ps.sum (fun _ p => p.principal)

/-- Distinct `u64` ids and `u64` principals keep all deposits within a `u128`. -/
theorem principals_lt {ps : Positions}
    (h : ∀ k p, ps.get? k = some p → k < u64Size ∧ p.principal < u64Size) :
    principals ps < u128Size := by
  have hlen : ps.size ≤ u64Size := by
    have hsub : ps.keys ⊆ List.range u64Size := by
      intro k hk
      obtain ⟨p, hp⟩ := OrdMap.mem_keys.mp hk
      exact List.mem_range.mpr (h k p hp).1
    have := (List.subperm_of_subset ps.keys_nodup hsub).length_le
    simpa [OrdMap.keys, OrdMap.size] using this
  have hsum : principals ps ≤ ps.size * (u64Size - 1) :=
    OrdMap.sum_le_size_mul (fun k p hk => by
      have := (h k p hk).2
      omega)
  calc principals ps ≤ ps.size * (u64Size - 1) := hsum
    _ ≤ u64Size * (u64Size - 1) := Nat.mul_le_mul_right _ hlen
    _ < u128Size := by norm_num [u64Size, u128Size]

namespace World

structure Inv (w : World) : Prop where
  sound : w.subPool.Sound
  shared : Shared w.subPool w.positions
  zeroIff : ∀ d, (w.subPool.side d).poolEquity = 0 ↔ (w.subPool.side d).activeShares = 0
  resting : ∀ k p, w.positions.get? k = some p → p.Resting
  keyed : ∀ k p, w.positions.get? k = some p → p.positionId = k ∧ k < u64Size
  value_le : w.subPool.value ≤ principals w.positions
  reserve_le : w.subPool.reserve ≤ principals w.positions
  price_lt : w.subPool.lastPrice < u64Size
  price_pos : ∀ k p, w.positions.get? k = some p → w.subPool.lastPrice ≠ 0

theorem Inv.principals_lt {w : World} (h : w.Inv) : principals w.positions < u128Size :=
  MoleFinance.principals_lt fun k p hk => ⟨(h.keyed k p hk).2, (h.resting k p hk).principal_lt⟩

theorem Inv.value_lt {w : World} (h : w.Inv) : w.subPool.value < u128Size :=
  h.value_le.trans_lt h.principals_lt

theorem Inv.reserve_lt {w : World} (h : w.Inv) : w.subPool.reserve < u128Size :=
  h.reserve_le.trans_lt h.principals_lt

theorem attributed_new (d : Direction) : Attributed d (.new d) .empty where
  log := rfl
  older := by simp
  shares := rfl
  notional := rfl
  recovery := fun _ => rfl
  total := rfl
  total_lt := by simp [Side.new, u128Size]
  active_lt := by simp [Side.new, u128Size]
  notional_lt := by simp [Side.new, u128Size]
  stocked := by
    intro tick h hg
    cases hg

theorem new_inv (id : Nat) (price : U64) (slot : Nat) : (new id price slot).Inv where
  sound := SubPool.new_sound id price slot
  shared := by
    intro d
    simp only [new, SubPool.side_new]
    exact attributed_new d
  zeroIff := by
    intro d
    simp [new, Side.new]
  resting := by simp [new]
  keyed := by simp [new]
  value_le := Nat.zero_le _
  reserve_le := Nat.zero_le _
  price_lt := price.isLt
  price_pos := by simp [new]

theorem Inv.withSubPool {w : World} (h : w.Inv) {s : SubPool} {paid : Nat}
    (hm : Moved w.subPool s paid 0) (hs : Shared s w.positions)
    (hc : checkSubpoolInvariants s = .ok ())
    (hp : s.lastPrice = w.subPool.lastPrice ∨ s.lastPrice < u64Size ∧ s.lastPrice ≠ 0) :
    Inv { w with subPool := s } where
  sound := hm.sound
  shared := hs
  zeroIff := check_zeroIff hc
  resting := h.resting
  keyed := h.keyed
  value_le := by
    have := hm.value_eq
    have := h.value_le
    simp only
    omega
  reserve_le := hm.reserve_le.trans h.reserve_le
  price_lt := by
    cases hp with
    | inl hp => exact hp ▸ h.price_lt
    | inr hp => exact hp.1
  price_pos := by
    intro k p hk
    cases hp with
    | inl hp => exact hp ▸ h.price_pos k p hk
    | inr hp => exact hp.2

theorem Inv.withPosition {w : World} (h : w.Inv) {s : SubPool} {k : Nat} {p p' : Position}
    (hk : w.positions.get? k = some p) (hh : Holds s (w.positions.insert k p') k p')
    (hcar : Carried p p')
    (hrest : p'.status = .closed → p'.activeShares = 0 ∧ p'.recoveryShares = 0)
    (hnot : p'.activeShares = 0 → p'.notional = 0)
    (hc : checkSubpoolInvariants s = .ok ()) (hv : s.value ≤ w.subPool.value)
    (hr : s.reserve ≤ w.subPool.reserve) :
    Inv ⟨s, w.positions.insert k p'⟩ := by
  have hsum : principals (w.positions.insert k p') = principals w.positions := by
    have := OrdMap.sum_insert_old (fun _ (p : Position) => p.principal) p' hk
    have := hcar.principal
    unfold principals
    omega
  have hold := h.resting k p hk
  have hkey := h.keyed k p hk
  have hget : ∀ {j q}, (w.positions.insert k p').get? j = some q →
      (j = k ∧ q = p') ∨ w.positions.get? j = some q := by
    intro j q hq
    rw [OrdMap.get?_insert] at hq
    split_ifs at hq with hj
    · cases hq
      exact .inl ⟨hj, rfl⟩
    · exact .inr hq
  refine ⟨hh.sound, hh.shared, check_zeroIff hc, ?_, ?_, ?_, ?_, hh.price.1,
    fun _ _ _ => hh.price.2⟩
  · intro j q hq
    cases hget hq with
    | inl hj =>
      rw [hj.2]
      exact ⟨hh.ok, hrest, hnot, hcar.schema.trans hold.schema,
        hcar.principal ▸ hold.principal_lt⟩
    | inr hq => exact h.resting j q hq
  · intro j q hq
    cases hget hq with
    | inl hj =>
      rw [hj.1, hj.2]
      exact ⟨hcar.id.trans hkey.1, hkey.2⟩
    | inr hq => exact h.keyed j q hq
  · rw [hsum]
    exact hv.trans h.value_le
  · rw [hsum]
    exact hr.trans h.reserve_le

theorem Inv.holds {w : World} (h : w.Inv) {s : SubPool} {market : MarketParams}
    {envelope : PriceEnvelope} {out : SyncOutcome} {k : Nat} {p : Position}
    (hk : w.positions.get? k = some p) (hs : syncPool market w.subPool envelope = .ok (s, out)) :
    Holds s w.positions k p ∧ s.value = w.subPool.value ∧
      ∀ d, (s.side d).poolEquity = 0 ↔ (s.side d).activeShares = 0 := by
  have hm := syncPool_moved h.sound hs
  obtain ⟨hp, hpos⟩ := syncPool_price hs
  refine ⟨⟨hm.sound, syncPool_shared h.sound h.shared hs, hk, (h.resting k p hk).toOk,
    hp ▸ envelope.pNow_lt, hp ▸ hpos⟩, hm.value_eq, ?_⟩
  exact check_zeroIff (syncPool_ok hs).2.2

end World

/-- Active shares of the current series are backed: the side is not empty. -/
theorem Holds.active_le {s : SubPool} {ps : Positions} {k : Nat} {p : Position}
    (h : Holds s ps k p) (hg : p.activeGeneration = (s.side p.direction).activeGeneration) :
    p.activeShares ≤ (s.side p.direction).activeShares := by
  have hle := le_sumOn (s.side p.direction).activeOf h.found rfl
  rw [← (h.shared p.direction).shares] at hle
  simpa [Side.activeOf, hg] using hle

theorem redeemActive_holds {s s' : SubPool} {ps : Positions} {k : Nat} {p p' : Position}
    {value : Nat} (h : Holds s ps k p)
    (hz : ∀ d, (s.side d).poolEquity = 0 ↔ (s.side d).activeShares = 0)
    (hg : p.activeShares = 0 ∨ p.activeGeneration = (s.side p.direction).activeGeneration)
    (hr : redeemActive s p = .ok (s', p', value)) :
    Holds s' (ps.insert k p') k p' ∧ Carried p p' ∧ p'.activeShares = 0 := by
  cases redeemActive_ok hr with
  | inl hc =>
    obtain ⟨hc, rfl, rfl, -⟩ := hc
    rw [OrdMap.insert_get?_self h.found]
    refine ⟨h, .refl p', ?_⟩
    by_contra h0
    have hle := h.active_le (hg.resolve_left h0)
    have hne : (s'.side p'.direction).activeShares ≠ 0 := by omega
    have hpe := mt (hz p'.direction).mp hne
    exact hc.elim h0 (fun hc => hc.elim hne hpe)
  | inr hc =>
    obtain ⟨h0, -, -, -, hb⟩ := hc
    exact burnActive_holds h h0 (hg.resolve_left h0) hb

theorem forfeitActive_holds {s s' : SubPool} {ps : Positions} {k : Nat} {p p' : Position}
    {burned removed : Nat} (h : Holds s ps k p)
    (hg : p.activeShares = 0 ∨ p.activeGeneration = (s.side p.direction).activeGeneration)
    (hr : forfeitActive s p = .ok (s', p', burned, removed)) :
    Holds s' (ps.insert k p') k p' ∧ Carried p p' ∧ p'.activeShares = 0 := by
  cases forfeitActive_ok hr with
  | inl hc =>
    obtain ⟨h0, rfl, rfl, -⟩ := hc
    rw [OrdMap.insert_get?_self h.found]
    exact ⟨h, .refl p', h0⟩
  | inr hc =>
    obtain ⟨h0, hb, -⟩ := hc
    exact burnActive_holds h h0 (hg.resolve_left h0) hb

theorem addDust_holds {s s' : SubPool} {ps : Positions} {k : Nat} {p : Position} {a : Nat}
    (h : Holds s ps k p) (hr : addDust s p.direction a = .ok s') : Holds s' ps k p := by
  have hm := addDust_moved h.sound hr
  obtain rfl := addDust_ok hr
  exact ⟨hm.sound, h.shared.setSide_same ⟨rfl, rfl, rfl, rfl, rfl, rfl⟩, h.found, h.ok,
    by simpa using h.price⟩

theorem migrated_notional {x : Side} {p p' : Position} (hz : p.activeShares = 0 → p.notional = 0)
    (hm : Migrated x p p') (h0 : p'.activeShares = 0) : p'.notional = 0 := by
  cases hm with
  | empty h => exact hz h
  | current h hg => exact absurd h0 h
  | moved r h hg hr => rfl

theorem Opening.notional_of_empty {market : MarketParams} {s s' s1 : SubPool}
    {envelope : PriceEnvelope} {d : Direction} {gross id : Nat} {p : Position} {out : OpenOutcome}
    {sync : SyncOutcome} (h : Opening market s envelope d gross id s' p out s1 sync)
    (h0 : out.sharesMinted = 0) : out.notionalAdded = 0 := by
  obtain ⟨-, hempty, hpos⟩ := mintShares_ok h.minted
  have he : (s1.side d).poolEquity = 0 := by
    by_contra hne
    exact hpos hne h0
  have hp : p.principal = 0 := (hempty he).2.1 ▸ h0
  have hn := h.notional
  rw [hp, mulDivFloor_zero (by norm_num [bpsScale])] at hn
  exact (Except.ok.inj hn).symm

theorem Attributed.opened {market : MarketParams} {s s' s1 : SubPool} {envelope : PriceEnvelope}
    {d : Direction} {gross id : Nat} {p : Position} {out : OpenOutcome} {sync : SyncOutcome}
    {ps : Positions} (h : Attributed d (s1.side d) ps) (hk : ps.get? id = none)
    (ho : Opening market s envelope d gross id s' p out s1 sync) :
    Attributed d { s1.side d with
      poolEquity := (s1.side d).poolEquity + out.principalIntoPool
      activeShares := (s1.side d).activeShares + out.sharesMinted
      activeNotional := (s1.side d).activeNotional + out.notionalAdded
      dust := (s1.side d).dust + out.dust } (ps.insert id p) := by
  have hd : p.direction = d := by rw [ho.position]
  have hg : p.activeGeneration = (s1.side d).activeGeneration := by rw [ho.position]
  have hact : p.activeShares = out.sharesMinted := by rw [ho.position]
  have hnot : p.notional = out.notionalAdded := by rw [ho.position]
  have hrec : p.recoveryShares = 0 := by rw [ho.position]
  have hzero := ho.notional_of_empty
  refine ⟨h.log, ?_, ?_, ?_, ?_, h.total, h.total_lt, ho.shares_lt, ho.notional_lt, h.stocked⟩
  · intro j q hj hq
    rw [OrdMap.get?_insert] at hj
    split_ifs at hj
    · cases hj
      exact hg.le
    · exact h.older j q hj hq
  · have hs := sumOn_insert_new (s1.side d).activeOf hk hd
    simp only [Side.activeOf, hg, if_true, hact] at hs
    exact (congrArg (· + out.sharesMinted) h.shares).trans hs.symm
  · have hs := sumOn_insert_new (s1.side d).notionalOf hk hd
    have hn : (s1.side d).notionalOf p = out.notionalAdded := by
      simp only [Side.notionalOf, hg, hact, hnot, true_and]
      split_ifs with hne
      · rfl
      · exact (hzero (not_not.mp hne)).symm
    rw [hn] at hs
    exact (congrArg (· + out.notionalAdded) h.notional).trans hs.symm
  · intro tick
    have hs := sumOn_insert_new ((s1.side d).recoveryAt tick) hk hd
    have hn : (s1.side d).recoveryAt tick p = 0 := by
      simp [Side.recoveryAt, Side.rotatedInto, hg, hrec]
    rw [hn] at hs
    exact (h.recovery tick).trans hs.symm

namespace World

section Calls
variable {w : World} {market : MarketParams} {envelope : PriceEnvelope} {k : Nat}
  {p p' : Position} {s : SubPool}

theorem close_inv {out : CloseOutcome} (h : w.Inv) (hk : w.positions.get? k = some p)
    (hr : closePosition market w.subPool envelope p = .ok (s, p', out)) :
    Inv ⟨s, w.positions.insert k p'⟩ := by
  have hmv := closePosition_moved h.sound hr
  obtain ⟨s1, s2, sync, p1, p2, p3, b, r, hc⟩ := closePosition_ok hr
  obtain ⟨h0, hv, hz⟩ := h.holds hk hc.synced
  obtain ⟨h1, c1, g1⟩ := migrate_holds h0 (lazyMigratePosition_ok hc.migrated)
  obtain ⟨h2, c2, a2⟩ := redeemActive_holds h1 hz g1 hc.active
  have hv2 := (redeemActive_moved h1.sound hc.active).value_eq
  have hlt := h.value_lt
  obtain ⟨h3, c3, a3, r3⟩ := settleRecovery_holds h2 (by omega) a2 hc.recovery
  have hval := hmv.value_eq
  obtain rfl := hc.state
  have hcar : Carried p3 (finishPosition p3 envelope.slot) := ⟨rfl, rfl, rfl, rfl⟩
  have h4 := finish_holds h3 a3 hcar rfl rfl rfl rfl
  simp only [OrdMap.insert_insert] at h4
  exact h.withPosition hk h4 (c1.trans (c2.trans (c3.trans hcar))) (fun _ => ⟨a3, r3⟩)
    (fun _ => rfl) hc.checked (by omega) hmv.reserve_le

theorem forceClose_inv {ack : Bool} {out : ForceCloseOutcome} (h : w.Inv)
    (hk : w.positions.get? k = some p)
    (hr : forceCloseZeroValuePosition market w.subPool envelope p ack = .ok (s, p', out)) :
    Inv ⟨s, w.positions.insert k p'⟩ := by
  obtain ⟨-, hval, hres⟩ := forceClose_moved h.sound hr
  obtain ⟨s1, s2, s3, sync, p1, p2, p3, b, burned, removed, r, hc⟩ := forceClose_ok hr
  obtain ⟨h0, hv, -⟩ := h.holds hk hc.synced
  obtain ⟨h1, c1, g1⟩ := migrate_holds h0 (lazyMigratePosition_ok hc.migrated)
  obtain ⟨h2, c2, a2⟩ := forfeitActive_holds h1 g1 hc.active
  have hv2 := (forfeitActive_moved h1.sound hc.active).value_eq
  have hlt := h.value_lt
  obtain ⟨h3, c3, a3, r3⟩ := settleRecovery_holds h2 (by omega) a2 hc.recovery
  have h4 := addDust_holds h3 hc.dust
  obtain rfl := hc.state
  have hcar : Carried p3 (finishPosition p3 envelope.slot) := ⟨rfl, rfl, rfl, rfl⟩
  have h5 := finish_holds h4 a3 hcar rfl rfl rfl rfl
  simp only [OrdMap.insert_insert] at h5
  exact h.withPosition hk h5 (c1.trans (c2.trans (c3.trans hcar))) (fun _ => ⟨a3, r3⟩)
    (fun _ => rfl) hc.checked hval.le hres

theorem claim_inv {out : ClaimRecoveryOutcome} (h : w.Inv) (hk : w.positions.get? k = some p)
    (hr : claimDormantRecovery market w.subPool envelope p = .ok (s, p', out)) :
    Inv ⟨s, w.positions.insert k p'⟩ := by
  have hmv := claim_moved h.sound hr
  obtain ⟨s1, sync, p1, p2, b, tick, r, hc⟩ := claim_ok hr
  obtain ⟨h0, hv, -⟩ := h.holds hk hc.synced
  obtain ⟨h1, c1, -⟩ := migrate_holds h0 (lazyMigratePosition_ok hc.migrated)
  have hlt := h.value_lt
  obtain ⟨h2, c2, a2, r2⟩ := redeemRecovery_holds h1 hc.shares hc.recovery
  have hval := hmv.value_eq
  have hn : p2.notional = 0 := by
    obtain ⟨-, -, -, -, -, he⟩ := redeemRecovery_ok hc.recovery
    have ha1 : p1.activeShares = 0 := by
      rw [he] at a2
      exact a2
    have hn1 : p1.notional = 0 :=
      migrated_notional (h.resting k p hk).notional (lazyMigratePosition_ok hc.migrated) ha1
    rw [he]
    exact hn1
  obtain rfl := hc.state
  have hcar : Carried p2 { p2 with updatedAtSlot := envelope.slot } := ⟨rfl, rfl, rfl, rfl⟩
  have h3 := finish_holds h2 a2 hcar rfl rfl rfl rfl
  simp only [OrdMap.insert_insert] at h3
  exact h.withPosition hk h3 (c1.trans (c2.trans hcar)) (fun _ => ⟨a2, r2⟩) (fun _ => hn)
    hc.checked (by omega) hmv.reserve_le

theorem open_inv {d : Direction} {gross id : U64} {out : OpenOutcome} (h : w.Inv)
    (hk : w.positions.get? id = none)
    (hr : openPosition market w.subPool envelope d gross id = .ok (s, p, out)) :
    Inv ⟨s, w.positions.insert id p⟩ := by
  obtain ⟨hmv, -, hprin⟩ := openPosition_moved h.sound hr
  obtain ⟨s1, sync, ho⟩ := openPosition_ok hr
  obtain ⟨hp1, hp0⟩ := syncPool_price ho.synced
  have hsum : principals (w.positions.insert id p) = principals w.positions + p.principal :=
    OrdMap.sum_insert_new _ p hk
  have hgross := gross.isLt
  have hdir : p.direction = d := by rw [ho.position]
  have hact : p.activeShares = out.sharesMinted := by rw [ho.position]
  have hrec : p.recoveryShares = 0 := by rw [ho.position]
  have hshared : Shared s (w.positions.insert id p) := by
    have hs1 := syncPool_shared h.sound h.shared ho.synced
    rw [ho.state]
    refine hs1.update (fun q hq => ?_) hdir ((hs1 d).opened hk ho)
    rw [hk] at hq
    cases hq
  have hprice : s.lastPrice = envelope.pNow := by
    rw [ho.state, SubPool.setSide_lastPrice, hp1]
  have hget : ∀ {j q}, (w.positions.insert id p).get? j = some q →
      (j = id.val ∧ q = p) ∨ w.positions.get? j = some q := by
    intro j q hq
    rw [OrdMap.get?_insert] at hq
    split_ifs at hq with hj
    · cases hq
      exact .inl ⟨hj, rfl⟩
    · exact .inr hq
  refine ⟨hmv.sound, hshared, check_zeroIff ho.checked, ?_, ?_, ?_, ?_, ?_, ?_⟩
  · intro j q hq
    cases hget hq with
    | inl hj =>
      rw [hj.2]
      refine ⟨⟨.inr hrec, fun hc => absurd hrec hc⟩, fun hc => ?_, fun h0 => ?_, ?_, by omega⟩
      · rw [ho.position] at hc
        cases hc
      · rw [ho.position]
        exact ho.notional_of_empty (hact ▸ h0)
      · rw [ho.position]
        exact ho.schema
    | inr hq => exact h.resting j q hq
  · intro j q hq
    cases hget hq with
    | inl hj =>
      rw [hj.1, hj.2, ho.position]
      exact ⟨rfl, id.isLt⟩
    | inr hq => exact h.keyed j q hq
  · have := hmv.value_eq
    have := h.value_le
    rw [hsum]
    simp only
    omega
  · have := hmv.reserve_le
    have := h.reserve_le
    rw [hsum]
    simp only
    omega
  · rw [hprice]
    exact envelope.pNow_lt
  · intro _ _ _
    rw [hprice]
    exact hp0

end Calls

theorem sync_inv {w : World} {market : MarketParams} {envelope : PriceEnvelope} {s : SubPool}
    {out : SyncOutcome} (h : w.Inv) (hr : syncPool market w.subPool envelope = .ok (s, out)) :
    Inv { w with subPool := s } := by
  obtain ⟨hp, hp0⟩ := syncPool_price hr
  exact h.withSubPool (syncPool_moved h.sound hr) (syncPool_shared h.sound h.shared hr)
    (syncPool_ok hr).2.2 (.inr (hp ▸ ⟨envelope.pNow_lt, hp0⟩))

theorem harvest_inv {w : World} {market : MarketParams} {d : Direction} {s : SubPool}
    {out : HarvestOutcome} (h : w.Inv) (hr : harvestDust market w.subPool d = .ok (s, out)) :
    Inv { w with subPool := s } := by
  have hmv := harvest_moved h.sound hr
  obtain ⟨-, rfl, hc⟩ := harvest_ok hr
  exact h.withSubPool hmv (h.shared.setSide_same ⟨rfl, rfl, rfl, rfl, rfl, rfl⟩) hc
    (.inl (SubPool.setSide_lastPrice _ _ _))

theorem preSync_inv {w : World} {market : MarketParams} {d : Direction} {tick : Int}
    {slot : Nat} {s : SubPool} {out : PreSyncOutcome} (h : w.Inv)
    (hr : preSyncDormantBucket market w.subPool d tick slot = .ok (s, out)) :
    Inv { w with subPool := s } := by
  have hmv := preSync_moved h.sound hr
  obtain ⟨n, dormant, hd, rfl, hc⟩ := preSync_ok hr
  have hu := DormantStore.applyPendingToBucket_upkeep (h.sound d).1 hd
  exact h.withSubPool hmv (h.shared.setSide_same ⟨rfl, rfl, rfl, rfl, rfl, hu.holdings_eq⟩) hc
    (.inl (SubPool.setSide_lastPrice _ _ _))

theorem step_inv {w w' : World} {market : MarketParams} {op : EngineOp} {reply : Reply}
    (h : w.Inv) (hr : op.call market w = some (.ok (w', reply))) : w'.Inv := by
  cases op with
  | sync envelope =>
    obtain ⟨⟨s, out⟩, hs, he⟩ := except_map_ok.mp (Option.some.inj hr)
    cases he
    exact sync_inv h hs
  | «open» envelope d gross id =>
    simp only [EngineOp.call] at hr
    split_ifs at hr with hk
    obtain ⟨⟨s, p, out⟩, hs, he⟩ := except_map_ok.mp (Option.some.inj hr)
    cases he
    exact open_inv h (by simpa [OrdMap.contains] using hk) hs
  | close envelope k =>
    obtain ⟨p, hk, hr⟩ := Option.map_eq_some_iff.mp hr
    obtain ⟨⟨s, p', out⟩, hs, he⟩ := except_map_ok.mp hr
    cases he
    exact close_inv h hk hs
  | forceClose envelope k ack =>
    obtain ⟨p, hk, hr⟩ := Option.map_eq_some_iff.mp hr
    obtain ⟨⟨s, p', out⟩, hs, he⟩ := except_map_ok.mp hr
    cases he
    exact forceClose_inv h hk hs
  | claim envelope k =>
    obtain ⟨p, hk, hr⟩ := Option.map_eq_some_iff.mp hr
    obtain ⟨⟨s, p', out⟩, hs, he⟩ := except_map_ok.mp hr
    cases he
    exact claim_inv h hk hs
  | harvest d =>
    obtain ⟨⟨s, out⟩, hs, he⟩ := except_map_ok.mp (Option.some.inj hr)
    cases he
    exact harvest_inv h hs
  | preSync d tick slot =>
    obtain ⟨⟨s, out⟩, hs, he⟩ := except_map_ok.mp (Option.some.inj hr)
    cases he
    exact preSync_inv h hs

theorem Reached.inv {w : World} (h : w.Reached) : w.Inv :=
  h.induct new_inv (fun _ _ _ _ _ hi hr => step_inv hi hr)

end World

/-! The aggregates as sums over live positions. -/

def Position.live (p : Position) : Bool := p.status ≠ .closed

def sumLive (d : Direction) (f : Position → Nat) (ps : Positions) : Nat :=
  ps.sum (fun _ p => if p.live = true ∧ p.direction = d then f p else 0)

theorem sumOn_eq_sumLive {d : Direction} {f g : Position → Nat} {ps : Positions}
    (hf : ∀ k p, ps.get? k = some p → p.direction = d → f p = if p.live = true then g p else 0) :
    sumOn d f ps = sumLive d g ps := by
  apply OrdMap.sum_congr
  intro k p hk
  by_cases hd : p.direction = d
  · simp only [hd, if_true, and_true, hf k p hk hd]
  · simp [hd]

/-- The bucket that a position with shares of an older generation was rotated into. -/
def Side.namesBucket (x : Side) (p : Position) (tick : Int) : Prop :=
  p.activeGeneration ≠ x.activeGeneration ∧
    ∃ r ∈ x.rotateLog, r.generationJustEnded = p.activeGeneration ∧ r.bucketTick = tick

instance (x : Side) (p : Position) (tick : Int) : Decidable (x.namesBucket p tick) :=
  inferInstanceAs (Decidable (_ ∧ _))

theorem rotatedInto_iff {d : Direction} {x : Side} {ps : Positions} (h : Attributed d x ps)
    {k : Nat} {p : Position} (hk : ps.get? k = some p) (hd : p.direction = d) (tick : Int) :
    x.rotatedInto p = some tick ↔ x.namesBucket p tick := by
  unfold Side.rotatedInto Side.namesBucket
  by_cases hg : p.activeGeneration = x.activeGeneration
  · simp [hg]
  have hlt : p.activeGeneration < x.activeGeneration :=
    lt_of_le_of_ne (h.older k p hk hd) hg
  obtain ⟨r, hr, hone⟩ := findRotateRecord_some h hlt
  rw [if_neg hg, hr]
  simp only [Option.map_some, Option.some.injEq, hg, ne_eq, not_false_eq_true, true_and]
  have hmem : ∀ q, q ∈ x.rotateLog ∧ q.generationJustEnded = p.activeGeneration ↔ q = r := by
    intro q
    have := congrArg (q ∈ ·) hone
    simpa using this
  constructor
  · intro ht
    obtain ⟨hm, hgen⟩ := (hmem r).mpr rfl
    exact ⟨r, hm, hgen, ht⟩
  · rintro ⟨q, hm, hgen, ht⟩
    exact (hmem q).mp ⟨hm, hgen⟩ ▸ ht

/-- In every reached state the aggregates of a direction are the sums of its live positions,
    through rotation and lazy migration. -/
theorem World.aggregates_are_sums (w : World) (h : w.Reached) (d : Direction) :
    let x := w.subPool.side d
    x.activeShares = sumLive d
      (fun p => if p.activeGeneration = x.activeGeneration then p.activeShares else 0)
      w.positions ∧
    x.activeNotional = sumLive d
      (fun p => if p.activeGeneration = x.activeGeneration then p.notional else 0) w.positions ∧
    (∀ k p, w.positions.get? k = some p → p.live = true → p.direction = d → 0 < p.activeShares →
      p.activeGeneration ≠ x.activeGeneration →
      ∃ r, x.rotateLog.filter (fun r => r.generationJustEnded = p.activeGeneration) = [r] ∧
        ∃ bucket, x.dormant.get r.bucketTick = some bucket) ∧
    (∀ tick, ((x.dormant.get tick).map (·.totalRecoveryShares)).getD 0 = sumLive d
      (fun p => (if p.recoveryBucketTick = some tick then p.recoveryShares else 0)
        + if x.namesBucket p tick then p.activeShares else 0) w.positions) ∧
    x.recoveryShares = x.dormant.totalRecoveryShares := by
  have hi := h.inv
  have ha := hi.shared d
  have hclosed : ∀ k p, w.positions.get? k = some p → ¬ p.live = true →
      p.activeShares = 0 ∧ p.recoveryShares = 0 := by
    intro k p hk hl
    refine (hi.resting k p hk).closed ?_
    simpa [Position.live] using hl
  have hat : ∀ tick, ((w.subPool.side d).dormant.holdings.sharesAt tick)
      = (((w.subPool.side d).dormant.get tick).map (·.totalRecoveryShares)).getD 0 := by
    intro tick
    rw [Holdings.sharesAt, DormantStore.holdings_get?, Option.map_map]
    rfl
  refine ⟨?_, ?_, ?_, ?_, ?_⟩
  · refine ha.shares.trans (sumOn_eq_sumLive fun k p hk _ => ?_)
    by_cases hl : p.live = true
    · rw [if_pos hl]
      rfl
    · rw [if_neg hl]
      simp [Side.activeOf, (hclosed k p hk hl).1]
  · refine ha.notional.trans (sumOn_eq_sumLive fun k p hk _ => ?_)
    by_cases h0 : p.activeShares = 0
    · simp [Side.notionalOf, h0, (hi.resting k p hk).notional h0]
    · have hl : p.live = true := by
        by_contra hl
        exact h0 (hclosed k p hk hl).1
      simp [Side.notionalOf, h0, hl]
  · intro k p hk hl hd hpos hg
    have hlt : p.activeGeneration < (w.subPool.side d).activeGeneration :=
      lt_of_le_of_ne (ha.older k p hk hd) hg
    obtain ⟨r, hr, hone⟩ := findRotateRecord_some ha hlt
    refine ⟨r, hone, ?_⟩
    have hle := le_sumOn ((w.subPool.side d).recoveryAt r.bucketTick) hk hd
    rw [← ha.recovery, hat] at hle
    have hin : p.activeShares ≤ (w.subPool.side d).recoveryAt r.bucketTick p := by
      simp [Side.recoveryAt, Side.rotatedInto, hg, hr]
    cases hb : (w.subPool.side d).dormant.get r.bucketTick with
    | none =>
      rw [hb] at hle
      simp only [Option.map_none, Option.getD_none] at hle
      omega
    | some bucket => exact ⟨bucket, rfl⟩
  · intro tick
    rw [← hat, ha.recovery]
    refine sumOn_eq_sumLive fun k p hk hd => ?_
    by_cases hl : p.live = true
    · rw [if_pos hl]
      simp only [Side.recoveryAt, rotatedInto_iff ha hk hd tick]
    · obtain ⟨h0, h1⟩ := hclosed k p hk hl
      simp [Side.recoveryAt, h0, h1, hl]
  · rw [DormantStore.totalRecoveryShares_eq]
    exact ha.total

/-- A long series is wiped out at 80 and a new one opened before the price recovers. -/
def rotatedWorld : World := (smallRun .lazy
  [.open (quote 100) .long ⟨100, by decide⟩ ⟨1, by decide⟩,
    .open (quote 100) .short ⟨100, by decide⟩ ⟨2, by decide⟩,
    .sync (quote 80), .open (quote 80) .long ⟨50, by decide⟩ ⟨3, by decide⟩,
    .sync (quote 88)]).2

theorem rotatedWorld_aggregates :
    rotatedWorld.subPool.long.activeShares = 50 ∧
    ((rotatedWorld.subPool.long.dormant.get 80).map (·.totalRecoveryShares)).getD 0 =
      sumLive .long (fun p => (if p.recoveryBucketTick = some 80 then p.recoveryShares else 0)
        + if rotatedWorld.subPool.long.namesBucket p 80 then p.activeShares else 0)
        rotatedWorld.positions := by
  have h := World.aggregates_are_sums rotatedWorld (smallRun_reached _ _) .long
  exact ⟨by decide +kernel, h.2.2.2.1 80⟩

end MoleFinance
