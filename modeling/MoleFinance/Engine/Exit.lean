import MoleFinance.Engine.Invariant

/-! Exits at the last price. Every live position can leave, and a sub-pool whose positions have
all left is empty but for dust. -/
namespace MoleFinance
open MoleMath Call

/-- Close a position, or forfeit it when it is worth nothing. -/
def exitPosition (market : MarketParams) (envelope : PriceEnvelope) (w : World) (id : Nat) :
    Except ClearingError (World × Nat) :=
  match w.positions.get? id with
  | none => .error .positionNotOpen
  | some p =>
    match closePosition market w.subPool envelope p with
    | .ok (s, p', out) => .ok (⟨s, w.positions.insert id p'⟩, out.withdrawable)
    | .error e =>
      if e = .withdrawableZero then do
        let (s, p', _) ← forceCloseZeroValuePosition market w.subPool envelope p true
        return (⟨s, w.positions.insert id p'⟩, 0)
      else .error e

def exitAll (market : MarketParams) :
    List (Nat × PriceEnvelope) → World → Except ClearingError (World × Nat)
  | [], w => .ok (w, 0)
  | (id, envelope) :: exits, w => do
    let (w, paid) ← exitPosition market envelope w id
    let (w, rest) ← exitAll market exits w
    return (w, paid + rest)

def PriceEnvelope.AtLast (envelope : PriceEnvelope) (s : SubPool) : Prop :=
  envelope.pNow = s.lastPrice ∧ envelope.expectedMin ≤ envelope.pNow ∧
    envelope.pNow ≤ envelope.expectedMax

theorem check_of {s : SubPool} {ps : Positions} (hs : s.Sound) (hsh : Shared s ps)
    (hz : ∀ d, (s.side d).poolEquity = 0 ↔ (s.side d).activeShares = 0)
    (hv : s.value < u128Size) (hr : s.reserve < u128Size) :
    checkSubpoolInvariants s = .ok () := by
  have hrec : ∀ d reason, checkRecoveryShares (s.side d) reason = .ok () := by
    intro d reason
    have ht := (hsh d).total
    have hlt := (hsh d).total_lt
    have he := (s.side d).dormant.totalRecoveryShares_eq
    rw [checkRecoveryShares, ensure_of (by omega), ok_bind, ensure_of (by omega)]
  have hstore : ∀ d, (s.side d).dormant.checkInvariants = .ok () := by
    intro d
    have hvd := s.side_value_le d
    have hrd : (s.side d).reserve ≤ s.reserve := by
      cases d <;> simp only [SubPool.side, SubPool.reserve] <;> omega
    rw [DormantStore.checkInvariants_eq (hs d).1, if_pos]
    simp only [Side.value, Side.reserve, DormantStore.funds, DormantStore.window] at hvd hrd
    exact ⟨by omega, by omega⟩
  have hzero : ∀ d reason, checkZeroIff (s.side d) reason = .ok () :=
    fun d reason => ensure_of (hz d) _
  change (checkZeroIff (s.side .long) _ >>= fun _ => checkZeroIff (s.side .short) _ >>= fun _ =>
    checkRecoveryShares (s.side .long) _ >>= fun _ => checkRecoveryShares (s.side .short) _ >>=
    fun _ => (s.side .long).dormant.checkInvariants >>= fun _ =>
    (s.side .short).dormant.checkInvariants) = .ok ()
  rw [hzero, ok_bind, hzero, ok_bind, hrec, ok_bind, hrec, ok_bind, hstore, ok_bind, hstore]

theorem World.Inv.check {w : World} (h : w.Inv) : checkSubpoolInvariants w.subPool = .ok () :=
  check_of h.sound h.shared h.zeroIff h.value_lt h.reserve_lt

theorem syncPool_still {market : MarketParams} {s : SubPool} {envelope : PriceEnvelope}
    (hsch : market.schemaVersion = schemaVersionCurrent) (hp : market.paused = false)
    (h0 : s.lastPrice ≠ 0) (ha : envelope.AtLast s)
    (hc : checkSubpoolInvariants { s with lastSyncSlot := envelope.slot } = .ok ()) :
    syncPool market s envelope = .ok ({ s with lastSyncSlot := envelope.slot }, .default) := by
  obtain ⟨hpl, hb⟩ := ha
  have hg : syncGuards market envelope = .ok () := by
    rw [syncGuards, assertSchemaVersion, ensure_of hsch, ok_bind, ensure_of hp, ok_bind,
      ensure_of (hpl ▸ h0), ok_bind, ensure_of hb]
  rw [syncPool, hg, ok_bind, if_neg h0, if_pos hpl]
  simp only [hc, ok_bind]
  rfl

section Parts
variable {s : SubPool} {ps : Positions} {k : Nat} {p : Position}

theorem lazyMigratePosition_of (h : Holds s ps k p) :
    ∃ p' b, lazyMigratePosition s p = .ok (p', b) := by
  unfold lazyMigratePosition
  by_cases h0 : p.activeShares = 0
  · exact ⟨_, _, if_pos h0⟩
  rw [if_neg h0]
  by_cases hg : p.activeGeneration = (s.side p.direction).activeGeneration
  · exact ⟨_, _, if_pos hg⟩
  rw [if_neg hg]
  have ha := h.shared p.direction
  obtain ⟨r, hr, -⟩ := findRotateRecord_some ha
    (lt_of_le_of_ne (ha.older k p h.found rfl) hg)
  have hle := le_sumOn ((s.side p.direction).recoveryAt r.bucketTick) h.found rfl
  rw [← ha.recovery] at hle
  have hin : p.activeShares ≤ (s.side p.direction).recoveryAt r.bucketTick p := by
    simp [Side.recoveryAt, Side.rotatedInto, hg, hr]
  have htot := Holdings.sharesAt_le_total (s.side p.direction).dormant.holdings r.bucketTick
  rw [← ha.total] at htot
  have hlt := ha.total_lt
  have hrec := h.ok.apart.resolve_left h0
  rw [hr]
  simp only [math_add_of (show p.recoveryShares + p.activeShares < u128Size by omega), ok_bind]
  exact ⟨_, _, rfl⟩

theorem notional_le (h : Holds s ps k p) (h0 : p.activeShares ≠ 0)
    (hg : p.activeGeneration = (s.side p.direction).activeGeneration) :
    p.notional ≤ (s.side p.direction).activeNotional := by
  have hle := le_sumOn (s.side p.direction).notionalOf h.found rfl
  rw [← (h.shared p.direction).notional] at hle
  simpa [Side.notionalOf, hg, h0] using hle

theorem burnActive_of (h : Holds s ps k p) (h0 : p.activeShares ≠ 0)
    (hg : p.activeGeneration = (s.side p.direction).activeGeneration) {value : Nat}
    (hv : value ≤ (s.side p.direction).poolEquity) :
    ∃ s' p', burnActive s p value = .ok (s', p') := by
  rw [burnActive, math_sub_of hv, ok_bind, math_sub_of (h.active_le hg), ok_bind,
    math_sub_of (notional_le h h0 hg), ok_bind]
  exact ⟨_, _, rfl⟩

/-- A share of a pool is worth the whole pool exactly when it is all of it. -/
theorem floor_eq_iff {e a t : Nat} (he : 0 < e) (ha : a ≤ t) (ht : 0 < t) :
    e - e * a / t = 0 ↔ t - a = 0 := by
  constructor
  · intro h
    by_contra hne
    have hlt : e * a / t < e := by
      rw [Nat.div_lt_iff_lt_mul ht]
      exact Nat.mul_lt_mul_of_pos_left (by omega) he
    omega
  · intro h
    obtain rfl : a = t := by omega
    rw [Nat.mul_div_cancel _ ht, Nat.sub_self]

/-- The active part of an exit; when it pays nothing, forfeiting does the same. -/
theorem redeemActive_of (h : Holds s ps k p)
    (hz : ∀ d, (s.side d).poolEquity = 0 ↔ (s.side d).activeShares = 0)
    (hv : s.value < u128Size)
    (hg : p.activeShares = 0 ∨ p.activeGeneration = (s.side p.direction).activeGeneration) :
    ∃ s' p' value, redeemActive s p = .ok (s', p', value) ∧
      (∀ d, (s'.side d).poolEquity = 0 ↔ (s'.side d).activeShares = 0) ∧
      (value = 0 → ∃ burned removed, forfeitActive s p = .ok (s', p', burned, removed)) := by
  by_cases h0 : p.activeShares = 0
  · refine ⟨s, p, 0, ?_, hz, fun _ => ⟨0, 0, ?_⟩⟩
    · rw [redeemActive, if_pos (.inl h0)]
      rfl
    · rw [forfeitActive, if_pos h0]
      rfl
  have hgen := hg.resolve_left h0
  have hle := h.active_le hgen
  have hsh : (s.side p.direction).activeShares ≠ 0 := by omega
  have heq : (s.side p.direction).poolEquity ≠ 0 := mt (hz p.direction).mp hsh
  have hslt := (h.shared p.direction).active_lt
  have helt : (s.side p.direction).poolEquity < u128Size := by
    have := s.side_value_le p.direction
    simp only [Side.value] at this
    omega
  have hval := mulDivFloor_le hslt hle (Nat.pos_of_ne_zero hsh) helt
  have hiff := floor_eq_iff (Nat.pos_of_ne_zero heq) hle (Nat.pos_of_ne_zero hsh)
  generalize hvd : (s.side p.direction).poolEquity * p.activeShares
    / (s.side p.direction).activeShares = value at hval hiff
  have hvle : value ≤ (s.side p.direction).poolEquity := by
    rw [← hvd, Nat.div_le_iff_le_mul_add_pred (Nat.pos_of_ne_zero hsh)]
    nlinarith
  obtain ⟨s', p', hb⟩ := burnActive_of h h0 hgen hvle
  refine ⟨s', p', value, ?_, ?_, ?_⟩
  · rw [redeemActive, if_neg (by simp only [not_or]; exact ⟨h0, hsh, heq⟩), hval, math_ok_eq,
      ok_bind, hb]
    rfl
  · intro d
    obtain ⟨-, -, -, rfl, -⟩ := burnActive_ok hb
    rw [SubPool.side_setSide_eq]
    split_ifs with hd
    · exact hiff
    · exact hz d
  · intro hv0
    rw [hv0] at hval hb
    refine ⟨p.activeShares, p.notional, ?_⟩
    rw [forfeitActive, if_neg h0, activeValue,
      if_pos ⟨Nat.pos_of_ne_zero hsh, Nat.pos_of_ne_zero heq⟩, hval, math_ok_eq, ok_bind,
      ensure_of rfl, ok_bind, hb]
    rfl

theorem settleRecovery_of (h : Holds s ps k p) (hv : s.value < u128Size) :
    ∃ s' p' r, settleRecovery s p = .ok (s', p', r) ∧
      ∀ d, (s'.side d).poolEquity = (s.side d).poolEquity ∧
        (s'.side d).activeShares = (s.side d).activeShares := by
  by_cases h0 : p.recoveryShares = 0
  · refine ⟨s, p, ⟨0, 0, 0⟩, ?_, fun _ => ⟨rfl, rfl⟩⟩
    rw [settleRecovery, if_pos h0]
    rfl
  obtain ⟨tick, ht⟩ := h.ok.tick h0
  have ha := h.shared p.direction
  have hi := (h.sound p.direction).1
  have hat : p.recoveryShares ≤ (s.side p.direction).dormant.holdings.sharesAt tick := by
    rw [ha.recovery]
    refine le_trans ?_ (le_sumOn ((s.side p.direction).recoveryAt tick) h.found rfl)
    simp [Side.recoveryAt, ht]
  obtain ⟨r, dormant, hr⟩ := DormantStore.redeem_of hi (bounded_of_value hv p.direction)
    ha.total_shares_lt ha.stocked h0 hat
  have hburn : r.burnedShares ≤ (s.side p.direction).recoveryShares := by
    rw [(DormantStore.redeem_effect hi h0 hr).burned_eq, ha.total]
    exact hat.trans (Holdings.sharesAt_le_total _ tick)
  refine ⟨s.setSide p.direction { s.side p.direction with
      dormant := dormant
      recoveryShares := (s.side p.direction).recoveryShares - r.burnedShares },
    { p with recoveryShares := 0, recoveryBucketTick := none }, r, ?_, ?_⟩
  · rw [settleRecovery, if_neg h0, redeemRecovery]
    simp only [ht, commit_ok.mpr hr, ok_bind, math_sub_of hburn]
    rfl
  · intro d
    rw [SubPool.side_setSide_eq]
    split_ifs with hd
    · exact hd ▸ ⟨rfl, rfl⟩
    · exact ⟨rfl, rfl⟩

theorem redeemActive_price {s' : SubPool} {p' : Position} {value : Nat}
    (h : redeemActive s p = .ok (s', p', value)) : s'.lastPrice = s.lastPrice := by
  cases redeemActive_ok h with
  | inl h => rw [h.2.1]
  | inr h =>
    obtain ⟨-, -, -, rfl, -⟩ := burnActive_ok h.2.2.2.2
    exact s.setSide_lastPrice _ _

theorem settleRecovery_price {s' : SubPool} {p' : Position} {r : RedeemReceipt}
    (h : settleRecovery s p = .ok (s', p', r)) : s'.lastPrice = s.lastPrice := by
  cases settleRecovery_ok h with
  | inl h => rw [h.2.1]
  | inr h =>
    obtain ⟨-, tick, h⟩ := h
    obtain ⟨-, dormant, -, -, rfl, -⟩ := redeemRecovery_ok h
    exact s.setSide_lastPrice _ _

end Parts

structure Exited (w w' : World) (id paid : Nat) : Prop where
  inv : w'.Inv
  positions : ∃ p', w'.positions = w.positions.insert id p' ∧ p'.live = false
  value_eq : w'.subPool.value + paid = w.subPool.value
  price_eq : w'.subPool.lastPrice = w.subPool.lastPrice

section Exits
variable {w : World} {market : MarketParams} {envelope : PriceEnvelope} {id : Nat} {p : Position}

theorem exit_one (h : w.Inv) (hsch : market.schemaVersion = schemaVersionCurrent)
    (hpa : market.paused = false) (hk : w.positions.get? id = some p) (hl : p.live = true)
    (ha : envelope.AtLast w.subPool) :
    (∃ s p' out, closePosition market w.subPool envelope p = .ok (s, p', out) ∧
      Exited w ⟨s, w.positions.insert id p'⟩ id out.withdrawable) ∨
    (closePosition market w.subPool envelope p = .error .withdrawableZero ∧
      ∃ s p' out, forceCloseZeroValuePosition market w.subPool envelope p true
        = .ok (s, p', out) ∧ Exited w ⟨s, w.positions.insert id p'⟩ id 0) := by
  have hcheck : checkSubpoolInvariants { w.subPool with lastSyncSlot := envelope.slot } = .ok () :=
    h.check
  have hsync := syncPool_still hsch hpa (h.price_pos id p hk) ha hcheck
  obtain ⟨h0, hv0, hz0⟩ := h.holds hk hsync
  generalize hs1 : { w.subPool with lastSyncSlot := envelope.slot } = s1 at hsync h0 hv0 hz0
  have hprice1 : s1.lastPrice = w.subPool.lastPrice := by rw [← hs1]
  have hres1 : s1.reserve = w.subPool.reserve := by rw [← hs1]; rfl
  obtain ⟨p1, b, hmig⟩ := lazyMigratePosition_of h0
  obtain ⟨h1, c1, g1⟩ := migrate_holds h0 (lazyMigratePosition_ok hmig)
  have hlt := h.value_lt
  obtain ⟨s2, p2, v, hact, hz2, hforfeit⟩ := redeemActive_of h1 hz0 (by omega) g1
  obtain ⟨h2, c2, a2⟩ := redeemActive_holds h1 hz0 g1 hact
  have m2 := redeemActive_moved h1.sound hact
  have hv2 := m2.value_eq
  obtain ⟨s3, p3, r, hrec, hsame⟩ := settleRecovery_of h2 (by omega)
  obtain ⟨h3, c3, a3, r3⟩ := settleRecovery_holds h2 (by omega) a2 hrec
  have m3 := settleRecovery_moved h2.sound hrec
  have hv3 := m3.value_eq
  have hz3 : ∀ d, (s3.side d).poolEquity = 0 ↔ (s3.side d).activeShares = 0 := by
    intro d
    rw [(hsame d).1, (hsame d).2]
    exact hz2 d
  have hr3 := m3.reserve_le
  have hr2 := m2.reserve_le
  have hrlt := h.reserve_lt
  have hc3 := check_of h3.sound h3.shared hz3 (by omega) (by omega)
  have hst : p.status = .open ∨ p.status = .dormant := by
    cases hps : p.status <;> simp [Position.live, hps] at hl ⊢
  have hps : p.schemaVersion = market.schemaVersion := by
    rw [(h.resting id p hk).schema, hsch]
  have hprice3 : s3.lastPrice = w.subPool.lastPrice := by
    rw [settleRecovery_price hrec, redeemActive_price hact, hprice1]
  by_cases hw : v + r.redeemable = 0
  · right
    constructor
    · rw [closePosition, assertSchemaVersion, ensure_of hsch, ok_bind, ensure_of hps, ok_bind,
        ensure_of hst, ok_bind, hsync, ok_bind]
      simp only [hmig, hact, hrec, ok_bind,
        math_add_of (show v + r.redeemable < u128Size by omega), hw]
      rfl
    · obtain ⟨burned, removed, hf⟩ := hforfeit (by omega)
      have hred : r.redeemable = 0 := by omega
      have hdust : addDust s3 p3.direction r.redeemable = .ok s3 := by
        rw [hred, addDust, addShare, if_pos rfl, ok_bind]
        cases p3.direction <;> rfl
      have hfc : ∃ out, forceCloseZeroValuePosition market w.subPool envelope p true
          = .ok (s3, finishPosition p3 envelope.slot, out) := by
        rw [forceCloseZeroValuePosition, assertSchemaVersion, ensure_of hsch, ok_bind,
          ensure_of hps, ok_bind, ensure_of rfl, ok_bind,
          ensure_of (by cases hst with | inl h => simp [h] | inr h => simp [h]), ok_bind, hsync,
          ok_bind]
        simp only [hmig, hf, hrec, hdust, hc3, ok_bind]
        exact ⟨_, rfl⟩
      obtain ⟨out, hfc⟩ := hfc
      exact ⟨_, _, out, hfc, World.forceClose_inv h hk hfc, ⟨_, rfl, rfl⟩,
        (forceClose_moved h.sound hfc).2.1, hprice3⟩
  · left
    have hcl : ∃ out, closePosition market w.subPool envelope p
        = .ok (s3, finishPosition p3 envelope.slot, out) := by
      rw [closePosition, assertSchemaVersion, ensure_of hsch, ok_bind, ensure_of hps, ok_bind,
        ensure_of hst, ok_bind, hsync, ok_bind]
      simp only [hmig, hact, hrec, ok_bind,
        math_add_of (show v + r.redeemable < u128Size by omega), ensure_of hw, hc3]
      exact ⟨_, rfl⟩
    obtain ⟨out, hcl⟩ := hcl
    exact ⟨_, _, out, hcl, World.close_inv h hk hcl, ⟨_, rfl, rfl⟩,
      (closePosition_moved h.sound hcl).value_eq, hprice3⟩

theorem exitPosition_of (h : w.Inv) (hsch : market.schemaVersion = schemaVersionCurrent)
    (hpa : market.paused = false) (hk : w.positions.get? id = some p) (hl : p.live = true)
    (ha : envelope.AtLast w.subPool) :
    ∃ w' paid, exitPosition market envelope w id = .ok (w', paid) ∧ Exited w w' id paid := by
  unfold exitPosition
  cases exit_one h hsch hpa hk hl ha with
  | inl hc =>
    obtain ⟨s, p', out, hcl, hx⟩ := hc
    simp only [hk, hcl]
    exact ⟨_, _, rfl, hx⟩
  | inr hc =>
    obtain ⟨hcl, s, p', out, hfc, hx⟩ := hc
    simp only [hk, hcl, if_true, hfc, ok_bind]
    exact ⟨_, _, rfl, hx⟩

end Exits

def World.AllLive (w : World) (ids : List Nat) : Prop :=
  ids.Nodup ∧ ∀ id, id ∈ ids ↔ ∃ p, w.positions.get? id = some p ∧ p.live = true

instance (w : World) (ids : List Nat) : Decidable (w.AllLive ids) :=
  decidable_of_iff (ids.Nodup ∧
      (∀ id ∈ ids, ∃ e ∈ w.positions.entries, e.1 = id ∧ e.2.live = true) ∧
      ∀ e ∈ w.positions.entries, e.2.live = true → e.1 ∈ ids) (by
    unfold World.AllLive
    refine and_congr_right fun _ => ?_
    simp only [OrdMap.get?_eq_some]
    constructor
    · rintro ⟨hto, hfrom⟩ id
      constructor
      · intro hid
        obtain ⟨e, he, rfl, hl⟩ := hto id hid
        exact ⟨e.2, he, hl⟩
      · rintro ⟨p, he, hl⟩
        exact hfrom (id, p) he hl
    · intro hall
      refine ⟨fun id hid => ?_, fun e he hl => (hall e.1).mpr ⟨e.2, he, hl⟩⟩
      obtain ⟨p, he, hl⟩ := (hall id).mp hid
      exact ⟨(id, p), he, rfl, hl⟩)

theorem exitAll_of {market : MarketParams} (hsch : market.schemaVersion = schemaVersionCurrent)
    (hpa : market.paused = false) {exits : List (Nat × PriceEnvelope)} {w : World} (h : w.Inv)
    (hids : w.AllLive (exits.map Prod.fst)) (ha : ∀ e ∈ exits, e.2.AtLast w.subPool) :
    ∃ w' paid, exitAll market exits w = .ok (w', paid) ∧ w'.Inv ∧ w'.AllLive [] ∧
      w'.subPool.value + paid = w.subPool.value := by
  induction exits generalizing w with
  | nil => exact ⟨w, 0, rfl, h, hids, rfl⟩
  | cons e exits ih =>
    obtain ⟨hnd, hmem⟩ := hids
    rw [List.map_cons] at hnd hmem
    obtain ⟨hne, hnd⟩ := List.nodup_cons.mp hnd
    obtain ⟨p, hk, hl⟩ := (hmem e.1).mp List.mem_cons_self
    obtain ⟨w1, paid, hx, hexit⟩ := exitPosition_of h hsch hpa hk hl (ha e List.mem_cons_self)
    obtain ⟨p', hpos, hdead⟩ := hexit.positions
    have hids1 : w1.AllLive (exits.map Prod.fst) := by
      refine ⟨hnd, fun id => ?_⟩
      rw [hpos]
      by_cases hid : id = e.1
      · subst hid
        simp [hne, hdead]
      · have := hmem id
        simp only [List.mem_cons, hid, false_or] at this
        rw [this, OrdMap.get?_insert_ne _ _ hid]
    have ha1 : ∀ x ∈ exits, x.2.AtLast w1.subPool := by
      intro x hxm
      have := ha x (List.mem_cons_of_mem e hxm)
      unfold PriceEnvelope.AtLast at this ⊢
      rwa [hexit.price_eq]
    obtain ⟨w2, rest, hr, hi2, hl2, hv2⟩ := ih hexit.inv hids1 ha1
    refine ⟨w2, paid + rest, ?_, hi2, hl2, ?_⟩
    · rw [exitAll, hx, ok_bind]
      simp only [hr, ok_bind]
      rfl
    · have := hexit.value_eq
      omega

/-- A side nobody holds shares of: only dust may be left. -/
structure Side.Drained (x : Side) : Prop where
  poolEquity : x.poolEquity = 0
  activeShares : x.activeShares = 0
  recoveryShares : x.recoveryShares = 0
  activeNotional : x.activeNotional = 0
  buckets : x.dormant.buckets = .empty
  accruedValueTotal : x.dormant.accruedValueTotal = 0
  pendingDistributionTotal : x.dormant.pendingDistributionTotal = 0

theorem drained_of_allLive {w : World} (h : w.Inv) (hl : w.AllLive []) (d : Direction) :
    (w.subPool.side d).Drained := by
  have ha := h.shared d
  have hi := (h.sound d).1
  have hnone : ∀ k p, w.positions.get? k = some p → p.activeShares = 0 ∧ p.recoveryShares = 0 := by
    intro k p hk
    refine (h.resting k p hk).closed ?_
    have : ¬ p.live = true := fun hlive => absurd ((hl.2 k).mpr ⟨p, hk, hlive⟩) (by simp)
    simpa [Position.live] using this
  have hactive : (w.subPool.side d).activeShares = 0 := by
    rw [ha.shares]
    refine sumOn_zero fun k p hk _ => ?_
    simp [Side.activeOf, (hnone k p hk).1]
  have hnotional : (w.subPool.side d).activeNotional = 0 := by
    rw [ha.notional]
    refine sumOn_zero fun k p hk _ => ?_
    simp [Side.notionalOf, (hnone k p hk).1]
  have hempty : (w.subPool.side d).dormant.buckets = .empty := by
    apply OrdMap.ext_get?
    intro tick
    rw [OrdMap.get?_empty]
    cases hb : (w.subPool.side d).dormant.buckets.get? tick with
    | none => rfl
    | some b =>
      exfalso
      have hg : (w.subPool.side d).dormant.holdings.get? tick = some b.holding := by
        rw [DormantStore.holdings_get?, hb]
        rfl
      have hpos := (ha.stocked tick _ hg).1
      have hz : (w.subPool.side d).dormant.holdings.sharesAt tick = 0 := by
        rw [ha.recovery]
        refine sumOn_zero fun k p hk _ => ?_
        simp [Side.recoveryAt, hnone k p hk]
      rw [Holdings.sharesAt_some hg] at hz
      omega
  refine ⟨(h.zeroIff d).mpr hactive, hactive, ?_, hnotional, hempty, ?_, ?_⟩
  · rw [ha.total, ← DormantStore.totalRecoveryShares_eq, DormantStore.totalRecoveryShares, hempty]
    rfl
  · rw [hi.accrued_eq, hempty]
    rfl
  · rw [hi.pending_eq, hempty]
    rfl

/-- Every live position of a reached state can leave at the last price, and once all have left,
    in any order, nothing but dust remains. -/
theorem World.every_position_exits (w : World) (h : w.Reached) (market : MarketParams)
    (hsch : market.schemaVersion = schemaVersionCurrent) (hpa : market.paused = false) :
    (∀ id p (envelope : PriceEnvelope), w.positions.get? id = some p → p.live = true →
      envelope.AtLast w.subPool →
      (∃ r, closePosition market w.subPool envelope p = .ok r) ∨
      closePosition market w.subPool envelope p = .error .withdrawableZero ∧
        ∃ r, forceCloseZeroValuePosition market w.subPool envelope p true = .ok r) ∧
    (∀ exits : List (Nat × PriceEnvelope), w.AllLive (exits.map Prod.fst) →
      (∀ e ∈ exits, e.2.AtLast w.subPool) →
      ∃ w' paid, exitAll market exits w = .ok (w', paid) ∧
        (∀ d, (w'.subPool.side d).Drained) ∧
        paid + w'.subPool.long.dust + w'.subPool.short.dust = w.subPool.value) := by
  have hi := h.inv
  constructor
  · intro id p envelope hk hl ha
    cases exit_one hi hsch hpa hk hl ha with
    | inl hc =>
      obtain ⟨s, p', out, hcl, -⟩ := hc
      exact .inl ⟨_, hcl⟩
    | inr hc =>
      obtain ⟨hcl, s, p', out, hfc, -⟩ := hc
      exact .inr ⟨hcl, _, hfc⟩
  · intro exits hids ha
    obtain ⟨w', paid, hx, hi', hl', hv⟩ := exitAll_of hsch hpa hi hids ha
    have hd := drained_of_allLive hi' hl'
    refine ⟨w', paid, hx, hd, ?_⟩
    have hlong := hd .long
    have hshort := hd .short
    have e1 := hlong.poolEquity
    have e2 := hlong.accruedValueTotal
    have e3 := hlong.pendingDistributionTotal
    have e4 := hshort.poolEquity
    have e5 := hshort.accruedValueTotal
    have e6 := hshort.pendingDistributionTotal
    simp only [SubPool.side] at e1 e2 e3 e4 e5 e6
    simp only [SubPool.value, Side.value, DormantStore.funds] at hv ⊢
    omega

theorem rotatedWorld_exits : ∃ w' paid,
    exitAll (smallMarket .eager) [(3, quote 88), (1, quote 88), (2, quote 88)] rotatedWorld
      = .ok (w', paid) ∧
    (∀ d, (w'.subPool.side d).Drained) ∧
    paid + w'.subPool.long.dust + w'.subPool.short.dust = rotatedWorld.subPool.value := by
  have h := World.every_position_exits rotatedWorld (smallRun_reached _ _) (smallMarket .eager)
    rfl rfl
  refine h.2 _ ?_ ?_
  · decide +kernel
  · have hp : rotatedWorld.subPool.lastPrice = 88 := by decide +kernel
    simp [PriceEnvelope.AtLast, hp, quote]

end MoleFinance
