import MoleFinance.Engine.Events
import MoleFinance.Engine.Exit
import MoleFinance.Dormant.Worth

/-! What the recovery shares of a position are worth while others use the sub-pool. -/
namespace MoleFinance
open MoleMath Call Trace

namespace World

def migrated (w : World) (id : Nat) : Option Position :=
  match w.positions.get? id with
  | none => none
  | some p =>
    match lazyMigratePosition w.subPool p with
    | .error _ => none
    | .ok (p, _) => some p

/-- What the recovery shares of a position would be redeemed for now. -/
def redeemable (w : World) (id : Nat) : Nat :=
  match w.migrated id with
  | none => 0
  | some p =>
    match settleRecovery w.subPool p with
    | .error _ => 0
    | .ok (_, _, receipt) => receipt.redeemable

end World

/-- What a direction owes the other one at a new price: at most one of them owes. -/
def owes (demands : Demand × Demand) : Direction → Nat
  | .long => if 0 < demands.1.total then 0 else demands.2.total
  | .short => demands.1.total

/-- What a sync at a new price checks before it settles. -/
def syncAdmits (market : MarketParams) (s : SubPool) (envelope : PriceEnvelope) :
    Except ClearingError Unit := do
  syncGuards market envelope
  let moveBps ← math (priceMoveBps s.lastPrice envelope.pNow)
  ensure (moveBps ≤ market.maxPriceMoveBpsPerSync) .priceMoveTooLarge

/-- A sync that takes the whole pool behind the active shares of a direction. -/
def Drains (market : MarketParams) (s : SubPool) (envelope : PriceEnvelope) (d : Direction) :
    Prop :=
  s.lastPrice ≠ 0 ∧ envelope.pNow ≠ s.lastPrice ∧ syncAdmits market s envelope = .ok () ∧
    (s.side d).activeShares ≠ 0 ∧ ∃ demands ∈ (syncDemands s envelope.pNow).toOption,
      (s.side d).poolEquity ≤ owes demands d

instance (market : MarketParams) (s : SubPool) (envelope : PriceEnvelope) (d : Direction) :
    Decidable (Drains market s envelope d) :=
  inferInstanceAs (Decidable (_ ∧ _))

/-- A call whose sync merges new shares into the bucket of a position that has funds for it. -/
def Dilutes (id : Nat) (op : MarketParams × EngineOp) (w : World) : Prop :=
  w.redeemable id ≠ 0 ∧ ∃ envelope ∈ op.2.envelope, ∃ p ∈ w.migrated id,
    Drains op.1 w.subPool envelope p.direction ∧
      ∃ tick ∈ p.recoveryBucketTick, bucketTickOf op.1 envelope.pNow = .ok tick

instance (id : Nat) (op : MarketParams × EngineOp) (w : World) : Decidable (Dilutes id op w) :=
  inferInstanceAs (Decidable (_ ∧ _))

namespace Side
variable {x x' : Side} {p : Position}

/-- The bucket that holds the recovery shares of a position, migrated or not. -/
def bucketOf (x : Side) (p : Position) : Option Int :=
  if p.activeShares = 0 then p.recoveryBucketTick else x.rotatedInto p

def worth (x : Side) (p : Position) : Nat :=
  match x.bucketOf p with
  | none => 0
  | some tick => x.dormant.book.worthAt tick (p.recoveryShares + p.activeShares)

theorem worth_none (h : x.bucketOf p = none) : x.worth p = 0 := by rw [worth, h]

theorem worth_some {tick : Int} (h : x.bucketOf p = some tick) :
    x.worth p = x.dormant.book.worthAt tick (p.recoveryShares + p.activeShares) := by
  rw [worth, h]

theorem bucketOf_congr (hl : x'.rotateLog = x.rotateLog)
    (hg : x'.activeGeneration = x.activeGeneration) (p : Position) :
    x'.bucketOf p = x.bucketOf p := by
  simp only [bucketOf, rotatedInto_congr hg hl]

theorem worth_le (hb : x'.bucketOf p = x.bucketOf p)
    (hw : ∀ tick, x.bucketOf p = some tick →
      x.dormant.book.worthAt tick (p.recoveryShares + p.activeShares)
        ≤ x'.dormant.book.worthAt tick (p.recoveryShares + p.activeShares)) :
    x.worth p ≤ x'.worth p := by
  cases ht : x.bucketOf p with
  | none =>
    rw [worth_none ht]
    exact Nat.zero_le _
  | some tick =>
    rw [worth_some ht, worth_some (hb.trans ht)]
    exact hw tick ht

theorem worth_same (hl : x'.rotateLog = x.rotateLog)
    (hg : x'.activeGeneration = x.activeGeneration) (hd : x'.dormant.book = x.dormant.book)
    (p : Position) : x.worth p ≤ x'.worth p :=
  worth_le (bucketOf_congr hl hg p) (fun _ _ => by rw [hd])

/-- The shares behind the worth are those attributed to the position in its bucket. -/
theorem recoveryAt_bucketOf (hok : p.Ok) {tick : Int} (h : x.bucketOf p = some tick) :
    x.recoveryAt tick p = p.recoveryShares + p.activeShares := by
  unfold bucketOf at h
  unfold recoveryAt
  by_cases h0 : p.activeShares = 0
  · rw [if_pos h0] at h
    simp [h, h0]
  · rw [if_neg h0] at h
    simp [h, hok.apart.resolve_left h0]

end Side

theorem setSide_worth {s : SubPool} {d e : Direction} {x : Side} {p : Position}
    (h : (s.side e).worth p ≤ x.worth p) :
    (s.side d).worth p ≤ ((s.setSide e x).side d).worth p := by
  rw [SubPool.side_setSide_eq]
  split_ifs with hd
  · exact hd ▸ h
  · exact le_rfl

theorem transferTo_worth {market : MarketParams} {s s' : SubPool} {price : Nat} {winner : Direction}
    {demand : Demand} {inflow : Inflow} (hs : s.Sound)
    (h : transferTo market s price winner demand = .ok (s', inflow)) (d : Direction)
    (p : Position) : (s.side d).worth p ≤ (s'.side d).worth p := by
  cases transferTo_ok h with
  | inl h =>
    obtain ⟨-, rfl, -⟩ := h
    exact le_rfl
  | inr h =>
    obtain ⟨t, a, x, -, -, -, -, -, hx, -, rfl⟩ := h
    by_cases hd : d = winner
    · subst hd
      rw [SubPool.side_setSide_both]
      cases transferToRecovery_ok hx with
      | inl h =>
        obtain ⟨-, rfl, -⟩ := h
        exact Side.worth_same rfl rfl rfl p
      | inr h =>
        obtain ⟨dormant, r, -, hr, rfl, -⟩ := h
        refine Side.worth_le (Side.bucketOf_congr rfl rfl p) (fun tick _ => ?_)
        have hbook := DormantStore.distributeBy_book (hs d).1 hr
        cases Book.distribute_ok hbook with
        | inl h => exact (congrArg (Book.worthAt · tick _) h).ge
        | inr h =>
          obtain ⟨t', h⟩ := h
          simp only [h]
          exact Book.credit_worthAt _ _ _ _ _ _
    · rw [Direction.ne_iff.mp hd, SubPool.side_setSide]
      exact Side.worth_same rfl rfl rfl p

theorem settleDemands_worth {market : MarketParams} {s s' : SubPool} {price : Nat}
    {demands : Demand × Demand} {long short : Inflow} (hs : s.Sound)
    (h : settleDemands market s price demands = .ok (s', long, short)) (d : Direction)
    (p : Position) : (s.side d).worth p ≤ (s'.side d).worth p := by
  unfold settleDemands at h
  split_ifs at h with h1 h2
  · obtain ⟨⟨t, i⟩, ht, h⟩ := except_bind_ok.mp h
    cases h
    exact transferTo_worth hs ht d p
  · obtain ⟨⟨t, i⟩, ht, h⟩ := except_bind_ok.mp h
    cases h
    exact transferTo_worth hs ht d p
  · cases h
    exact le_rfl

theorem settleDemands_bucketOf {market : MarketParams} {s s' : SubPool} {price : Nat}
    {demands : Demand × Demand} {long short : Inflow} (hs : s.Sound)
    (h : settleDemands market s price demands = .ok (s', long, short)) (d : Direction)
    (p : Position) : (s'.side d).bucketOf p = (s.side d).bucketOf p := by
  have hsame := settleDemands_same hs h d
  exact Side.bucketOf_congr hsame.log hsame.generation p

theorem bucketOf_rotated {d : Direction} {x x' : Side} {ps : Positions} (h : Attributed d x ps)
    {tick : Int} {price : Nat}
    (hl : x'.rotateLog = x.rotateLog ++ [⟨x.activeGeneration, tick, price⟩])
    (hg : x'.activeGeneration = x.activeGeneration + 1) {k : Nat} {p : Position}
    (hk : ps.get? k = some p) (hd : p.direction = d) {j : Int} (hj : x.bucketOf p = some j) :
    x'.bucketOf p = some j := by
  have hle := h.older k p hk hd
  unfold Side.bucketOf at hj ⊢
  split_ifs at hj ⊢ with h0
  · exact hj
  unfold Side.rotatedInto at hj ⊢
  split_ifs at hj with hc
  rw [if_neg (by omega), findRotateRecord_rotated h hl hle, if_neg hc]
  exact hj

theorem Rotated.worth_le {d : Direction} {market : MarketParams} {price : Nat} {x x' : Side}
    {ps : Positions} {tick : Int} (h : Attributed d x ps) (hi : x.dormant.Inv)
    (hb : x.dormant.Bounded) (hr : Rotated market price x x')
    (htick : bucketTickOf market price = .ok tick) {k : Nat} {p : Position}
    (hk : ps.get? k = some p) (hd : p.direction = d)
    (hno : x.bucketOf p = some tick → x.worth p = 0) : x.worth p ≤ x'.worth p := by
  obtain ⟨tick', dormant, ht, hm, -, -, rfl⟩ := hr
  rw [htick] at ht
  cases ht
  cases hj : x.bucketOf p with
  | none =>
    rw [Side.worth_none hj]
    exact Nat.zero_le _
  | some j =>
    have hj' : Side.bucketOf { x with
        dormant := dormant
        recoveryShares := x.recoveryShares + x.activeShares
        activeShares := 0
        activeNotional := 0
        rotateLog := x.rotateLog ++ [⟨x.activeGeneration, tick, price⟩]
        activeGeneration := x.activeGeneration + 1 } p = some j :=
      bucketOf_rotated h rfl rfl hk hd hj
    rw [Side.worth_some hj']
    by_cases hjt : j = tick
    · rw [hno (hjt ▸ hj)]
      exact Nat.zero_le _
    · rw [Side.worth_some hj]
      exact Book.insertOrMerge_worthAt (DormantStore.insertOrMerge_book hi hb hm) (.inl hjt)

theorem Attributed.total_lt_of_book {d : Direction} {x : Side} {ps : Positions}
    (h : Attributed d x ps) {tick : Int} {b : DormantBucket}
    (hb : x.dormant.book.buckets.get? tick = some b) : b.totalRecoveryShares < u128Size := by
  have hle := Holdings.sharesAt_le_total x.dormant.holdings tick
  rw [DormantStore.sharesAt_of_book hb, ← h.total] at hle
  exact hle.trans_lt h.total_lt

theorem le_sumOn_two {d : Direction} (f : Position → Nat) {ps : Positions} {j k : Nat}
    {p q : Position} (hj : ps.get? j = some p) (hk : ps.get? k = some q) (hne : j ≠ k)
    (hp : p.direction = d) (hq : q.direction = d) : f q + f p ≤ sumOn d f ps := by
  have hsum := OrdMap.sum_erase (fun _ (p : Position) => if p.direction = d then f p else 0) hk
  have hle := OrdMap.le_sum (fun _ (p : Position) => if p.direction = d then f p else 0)
    (show (ps.erase k).get? j = some p by rw [OrdMap.get?_erase, if_neg hne, hj])
  simp only [hq, if_true] at hsum
  simp only [hp, if_true] at hle
  unfold sumOn
  omega

section Burns
variable {s s' : SubPool} {ps : Positions} {j k : Nat} {p q q' : Position}

theorem redeemRecovery_worth {tick : Int} {r : RedeemReceipt} (h : Holds s ps k q)
    (hv : s.value < u128Size) (h0 : q.recoveryShares ≠ 0)
    (hr : redeemRecovery s q = .ok (s', q', tick, r)) (hj : ps.get? j = some p) (hne : j ≠ k)
    (hok : p.Ok) : (s.side p.direction).worth p ≤ (s'.side p.direction).worth p := by
  obtain ⟨ht, dormant, hd, -, rfl, -⟩ := redeemRecovery_ok hr
  rw [SubPool.side_setSide_eq]
  split_ifs with hdir
  · have ha := h.shared q.direction
    have hbook := DormantStore.redeem_book (h.sound _).1 (bounded_of_value hv q.direction) hd
    rw [hdir]
    refine Side.worth_le (Side.bucketOf_congr rfl rfl p) (fun i hi => ?_)
    refine Book.redeem_worthAt h0 (fun b hb => ha.total_lt_of_book hb) hbook ?_
    intro hit b hb
    subst hit
    rw [← Side.recoveryAt_bucketOf hok hi, ← DormantStore.sharesAt_of_book hb, ha.recovery]
    have hq : q.recoveryShares ≤ (s.side q.direction).recoveryAt i q := by
      simp [Side.recoveryAt, ht]
    have hsum := le_sumOn_two ((s.side q.direction).recoveryAt i) hj h.found hne hdir rfl
    omega
  · exact le_rfl

theorem settleRecovery_worth {r : RedeemReceipt} (h : Holds s ps k q) (hv : s.value < u128Size)
    (hr : settleRecovery s q = .ok (s', q', r)) (hj : ps.get? j = some p) (hne : j ≠ k)
    (hok : p.Ok) : (s.side p.direction).worth p ≤ (s'.side p.direction).worth p := by
  cases settleRecovery_ok hr with
  | inl h =>
    obtain ⟨-, rfl, -⟩ := h
    exact le_rfl
  | inr hc =>
    obtain ⟨h0, tick, hc⟩ := hc
    exact redeemRecovery_worth h hv h0 hc hj hne hok

theorem burnActive_worth {value : Nat} (hb : burnActive s q value = .ok (s', q')) (d : Direction)
    (p : Position) : (s.side d).worth p ≤ (s'.side d).worth p := by
  obtain ⟨-, -, -, rfl, -⟩ := burnActive_ok hb
  exact setSide_worth (Side.worth_same rfl rfl rfl p)

theorem redeemActive_worth {value : Nat} (hb : redeemActive s q = .ok (s', q', value))
    (d : Direction) (p : Position) : (s.side d).worth p ≤ (s'.side d).worth p := by
  cases redeemActive_ok hb with
  | inl h =>
    obtain ⟨-, rfl, -⟩ := h
    exact le_rfl
  | inr h => exact burnActive_worth h.2.2.2.2 d p

theorem forfeitActive_worth {burned removed : Nat}
    (hb : forfeitActive s q = .ok (s', q', burned, removed)) (d : Direction) (p : Position) :
    (s.side d).worth p ≤ (s'.side d).worth p := by
  cases forfeitActive_ok hb with
  | inl h =>
    obtain ⟨-, rfl, -⟩ := h
    exact le_rfl
  | inr h => exact burnActive_worth h.2.1 d p

end Burns

/-- Once the price is settled, a call by someone else takes nothing away. -/
theorem Act.worth_le {w w' : World} {burns : Option Nat} {es : List EngineEvent} (h : w.Inv)
    (ha : Act w burns es w') {j : Nat} {p : Position} (hj : w.positions.get? j = some p)
    (hne : burns ≠ some j) : w'.positions.get? j = some p ∧
      (w.subPool.side p.direction).worth p ≤ (w'.subPool.side p.direction).worth p := by
  have hok := (h.resting j p hj).toOk
  have hv := h.value_lt
  have hheld : ∀ {k : Nat} {q q1 : Position} {b : Bool}, w.positions.get? k = some q →
      lazyMigratePosition w.subPool q = .ok (q1, b) →
        Holds w.subPool (w.positions.insert k q1) k q1 ∧
        (q1.activeShares = 0 ∨
            q1.activeGeneration = (w.subPool.side q1.direction).activeGeneration) := by
    intro k q q1 b hk hm
    have h0 : Holds w.subPool w.positions k q :=
      ⟨h.sound, h.shared, hk, (h.resting k q hk).toOk, h.price_lt, h.price_pos k q hk⟩
    obtain ⟨h1, -, g1⟩ := migrate_holds h0 (lazyMigratePosition_ok hm)
    exact ⟨h1, g1⟩
  have hother : ∀ {k : Nat} {q : Position}, some k ≠ some j →
      (w.positions.insert k q).get? j = some p := by
    intro k q hk
    rw [OrdMap.get?_insert_ne _ _ (fun he => hk (congrArg some he.symm)), hj]
  cases ha with
  | idle => exact ⟨hj, le_rfl⟩
  | opened market s envelope d gross id s' q out sync hk ho =>
    have hid : j ≠ id.val := by
      intro he
      rw [← he, hj] at hk
      cases hk
    refine ⟨(OrdMap.get?_insert_ne _ _ hid).trans hj, ?_⟩
    rw [ho.state]
    exact setSide_worth (Side.worth_same rfl rfl rfl p)
  | closed slot k q q1 q2 q3 s2 s3 b v paid r hk hm hact hrec hp =>
    obtain ⟨h1, g1⟩ := hheld hk hm
    obtain ⟨h2, -, -⟩ := redeemActive_holds h1 h.zeroIff g1 hact
    rw [OrdMap.insert_insert] at h2
    have hv2 := (redeemActive_moved h1.sound hact).value_eq
    have hj2 := hother (q := q2) hne
    have hjk : j ≠ k := fun he => hne (congrArg some he.symm)
    refine ⟨hother hne, (redeemActive_worth hact _ p).trans ?_⟩
    exact settleRecovery_worth h2 (by omega) hrec hj2 hjk hok
  | forceClosed slot k q q1 q2 q3 s2 s3 s4 b burned removed r hk hm hact hrec hdust =>
    obtain ⟨h1, g1⟩ := hheld hk hm
    obtain ⟨h2, -, -⟩ := forfeitActive_holds h1 g1 hact
    rw [OrdMap.insert_insert] at h2
    have hv2 := (forfeitActive_moved h1.sound hact).value_eq
    have hj2 := hother (q := q2) hne
    have hjk : j ≠ k := fun he => hne (congrArg some he.symm)
    refine ⟨hother hne, (forfeitActive_worth hact _ p).trans
      ((settleRecovery_worth h2 (by omega) hrec hj2 hjk hok).trans ?_)⟩
    rw [addDust_ok hdust]
    exact setSide_worth (Side.worth_same rfl rfl rfl p)
  | claimed slot k q q1 q2 s2 b tick r hk hm h0 hrec =>
    obtain ⟨h1, -⟩ := hheld hk hm
    have hjk : j ≠ k := fun he => hne (congrArg some he.symm)
    exact ⟨hother hne, redeemRecovery_worth h1 hv h0 hrec (hother hne) hjk hok⟩
  | harvested d => exact ⟨hj, setSide_worth (Side.worth_same rfl rfl rfl p)⟩
  | preSynced d tick n dormant ev hsub happ =>
    have hu := DormantStore.applyPendingToBucket_upkeep (h.sound d).1 happ
    refine ⟨hj, setSide_worth ?_⟩
    refine Side.worth_same ?_ ?_ hu.book_eq p
    · rfl
    · rfl

theorem Rotation.sound {market : MarketParams} {envelope : PriceEnvelope} {d : Direction}
    {s s' : SubPool} {es : List EngineEvent} {ps : Positions} (hs : s.Sound) (hsh : Shared s ps)
    (h : Rotation market envelope d s es s') : Moved s s' 0 0 ∧ Shared s' ps := by
  cases h with
  | none h => exact ⟨.refl hs, hsh⟩
  | rotated tick x h0 hpos ht hx =>
    refine ⟨?_, hsh.setSide ((hsh d).rotated (hs d).1 hpos hx)⟩
    obtain ⟨tick', dormant, -, hd, -, -, rfl⟩ := hx
    have he := DormantStore.insertOrMerge_effect (hs d).1 hd
    refine .setSide hs he.inv (he.direction_eq.trans (hs d).2) ?_ ?_
    · simp only [Side.value, he.funds_eq]
    · exact Nat.add_le_add_left he.window_le _

/-- A rotation takes from a position only when it joins the bucket that holds its funds. -/
theorem Rotation.worth_le {market : MarketParams} {envelope : PriceEnvelope} {d : Direction}
    {s s' : SubPool} {es : List EngineEvent} {ps : Positions} (hs : s.Sound) (hsh : Shared s ps)
    (hv : s.value < u128Size) (h : Rotation market envelope d s es s') {j : Nat} {p : Position}
    (hj : ps.get? j = some p)
    (hno : ∀ ev, .activeRotatedToRecovery ev ∈ es → ev.direction = p.direction →
      (s.side p.direction).bucketOf p ≠ some ev.bucketTick) :
    (s.side p.direction).worth p ≤ (s'.side p.direction).worth p := by
  cases h with
  | none h => exact le_rfl
  | rotated tick x h0 hpos ht hx =>
    by_cases hd : p.direction = d
    · refine setSide_worth (hx.worth_le (hsh d) (hs d).1 (bounded_of_value hv d) ht hj hd ?_)
      intro hb
      rw [← hd] at hb
      exact absurd hb (hno _ (List.mem_singleton_self _) hd.symm)
    · rw [SubPool.side_setSide_of_ne _ _ hd]

theorem Rotation.bucketOf {market : MarketParams} {envelope : PriceEnvelope} {d : Direction}
    {s s' : SubPool} {es : List EngineEvent} {ps : Positions} (hsh : Shared s ps)
    (h : Rotation market envelope d s es s') {j : Nat} {p : Position}
    (hj : ps.get? j = some p) {tick : Int} (hb : (s.side p.direction).bucketOf p = some tick) :
    (s'.side p.direction).bucketOf p = some tick := by
  cases h with
  | none h => exact hb
  | rotated i x h0 hpos ht hx =>
    rw [SubPool.side_setSide_eq]
    split_ifs with hd
    · obtain ⟨i', dormant, -, -, -, -, rfl⟩ := hx
      rw [hd] at hb
      exact bucketOf_rotated (hsh d) rfl rfl hj hd hb
    · exact hb

/-- A sync takes from a position only when it merges new shares into its bucket. -/
theorem SyncPart.worth_le {market : MarketParams} {w : World} {s' : SubPool}
    {es : List EngineEvent} (h : w.Inv) (hsync : SyncPart market w.subPool es s') {j : Nat}
    {p : Position} (hj : w.positions.get? j = some p)
    (hno : ∀ ev, .activeRotatedToRecovery ev ∈ es → ev.direction = p.direction →
      (w.subPool.side p.direction).bucketOf p ≠ some ev.bucketTick) :
    (w.subPool.side p.direction).worth p ≤ (s'.side p.direction).worth p := by
  cases hsync with
  | kept s' hid hs => rw [hs]
  | moved envelope demands s1 s2 s3 long short longEvents shortEvents h0 hp hdem hset hlong
      hshort =>
    cases hb : (w.subPool.side p.direction).bucketOf p with
    | none =>
      rw [Side.worth_none hb]
      exact Nat.zero_le _
    | some tick =>
      have m1 := settleDemands_moved h.sound hset
      have m2 := atPrice_moved m1.sound envelope
      have hsh := atPrice_shared (settleDemands_shared h.sound h.shared hset) envelope
      obtain ⟨m3, hsh2⟩ := hlong.sound m2.sound hsh
      have hv := h.value_lt
      have v1 := m1.value_eq
      have v2 := m2.value_eq
      have v3 := m3.value_eq
      have hb1 : ((s1.atPrice envelope).side p.direction).bucketOf p = some tick := by
        rw [SubPool.side_atPrice, settleDemands_bucketOf h.sound hset, hb]
      have hb2 := hlong.bucketOf hsh hj hb1
      rw [hb] at hno
      have hw1 := settleDemands_worth h.sound hset p.direction p
      rw [← SubPool.side_atPrice s1 envelope] at hw1
      refine hw1.trans ((hlong.worth_le m2.sound hsh (by omega) hj ?_).trans
        (hshort.worth_le m3.sound hsh2 (by omega) hj ?_))
      · intro ev hev hd
        rw [hb1]
        exact hno ev (List.mem_cons_of_mem _ (List.mem_append_left _ hev)) hd
      · intro ev hev hd
        rw [hb2]
        exact hno ev (List.mem_cons_of_mem _ (List.mem_append_right _ hev)) hd

/-- A transfer to `w` empties only the other pool, which owes all it has. -/
theorem transferTo_drained {market : MarketParams} {s t : SubPool} {p : Nat} {w d : Direction}
    {demand : Demand} {inflow : Inflow} (h : transferTo market s p w demand = .ok (t, inflow))
    (h0 : (s.side d).poolEquity ≠ 0) (h1 : (t.side d).poolEquity = 0) :
    d = w.opposite ∧ (s.side d).poolEquity ≤ demand.total := by
  cases transferTo_ok h with
  | inl hc =>
    obtain ⟨-, rfl, -⟩ := hc
    exact absurd h1 h0
  | inr hc =>
    obtain ⟨a, b, x, ha, -, -, -, -, hx, -, rfl⟩ := hc
    by_cases hd : d = w.opposite
    · refine ⟨hd, ?_⟩
      rw [hd, SubPool.side_setSide] at h1
      rw [hd]
      simp only at h1
      omega
    · have hw : d = w := by
        rw [Direction.ne_iff.mp hd, Direction.opposite_opposite]
      rw [hw, SubPool.side_setSide_both] at h1
      have hkeep : x.poolEquity = (s.side w).poolEquity + b := by
        cases transferToRecovery_ok hx with
        | inl hc =>
          obtain ⟨-, rfl, -⟩ := hc
          rfl
        | inr hc =>
          obtain ⟨dormant, r, -, -, rfl, -⟩ := hc
          rfl
      rw [hw] at h0
      omega

theorem settleDemands_drained {market : MarketParams} {s s' : SubPool} {p : Nat}
    {demands : Demand × Demand} {long short : Inflow}
    (h : settleDemands market s p demands = .ok (s', long, short)) {d : Direction}
    (h0 : (s.side d).poolEquity ≠ 0) (h1 : (s'.side d).poolEquity = 0) :
    (s.side d).poolEquity ≤ owes demands d := by
  unfold settleDemands at h
  split_ifs at h with hl hs
  · obtain ⟨⟨t, i⟩, ht, h⟩ := except_bind_ok.mp h
    cases h
    obtain ⟨rfl, hle⟩ := transferTo_drained ht h0 h1
    exact hle
  · obtain ⟨⟨t, i⟩, ht, h⟩ := except_bind_ok.mp h
    cases h
    obtain ⟨hd, hle⟩ := transferTo_drained ht h0 h1
    have howes : owes demands d = demands.2.total := by
      rw [show d = .long from hd, owes, if_neg hl]
    exact howes ▸ hle
  · cases h
    exact absurd h1 h0

theorem rotateIfDrained_event {market : MarketParams} {s s' : SubPool} {envelope : PriceEnvelope}
    {d : Direction} {ev : ActiveRotatedToRecoveryEvent}
    (h : rotateIfDrained market s envelope d = .ok (s', some ev)) :
    (s.side d).poolEquity = 0 ∧ 0 < (s.side d).activeShares ∧ ev.direction = d ∧
      bucketTickOf market envelope.pNow = .ok ev.bucketTick := by
  unfold rotateIfDrained at h
  by_cases hc : (s.side d).poolEquity = 0 ∧ 0 < (s.side d).activeShares
  · rw [if_pos hc] at h
    obtain ⟨tick, htick, h⟩ := except_bind_ok.mp h
    obtain ⟨t, -, h⟩ := except_bind_ok.mp h
    cases h
    exact ⟨hc.1, hc.2, rfl, htick⟩
  · rw [if_neg hc] at h
    cases h

theorem syncPool_rotates {market : MarketParams} {s s' : SubPool} {envelope : PriceEnvelope}
    {out : SyncOutcome} (hs : s.Sound)
    (hzero : ∀ d, (s.side d).poolEquity = 0 ↔ (s.side d).activeShares = 0)
    (h : syncPool market s envelope = .ok (s', out)) {ev : ActiveRotatedToRecoveryEvent}
    (hev : .activeRotatedToRecovery ev ∈ out.events) :
    Drains market s envelope ev.direction ∧
      bucketTickOf market envelope.pNow = .ok ev.bucketTick := by
  unfold syncPool at h
  obtain ⟨u, hguards, h⟩ := except_bind_ok.mp h
  split_ifs at h with h0 hp
  · obtain ⟨_, -, h⟩ := except_bind_ok.mp h
    cases h
    cases hev
  · obtain ⟨_, -, h⟩ := except_bind_ok.mp h
    cases h
    cases hev
  unfold movePrice at h
  obtain ⟨bps, hbps, h⟩ := except_bind_ok.mp h
  obtain ⟨u', hmove, h⟩ := except_bind_ok.mp h
  obtain ⟨demands, hdem, h⟩ := except_bind_ok.mp h
  obtain ⟨⟨s1, long, short⟩, hset, h⟩ := except_bind_ok.mp h
  obtain ⟨⟨s2, lr⟩, hl, h⟩ := except_bind_ok.mp h
  obtain ⟨⟨s3, sr⟩, hsh, h⟩ := except_bind_ok.mp h
  obtain ⟨_, -, h⟩ := except_bind_ok.mp h
  cases h
  have hadmits : syncAdmits market s envelope = .ok () := by
    rw [syncAdmits, hguards, ok_bind, hbps, ok_bind]
    exact hmove
  have hdrains : ∀ d, (s1.side d).poolEquity = 0 → 0 < (s1.side d).activeShares →
      Drains market s envelope d := by
    intro d hz hpos
    have hshares : (s.side d).activeShares ≠ 0 :=
      (settleDemands_same hs hset d).shares ▸ hpos.ne'
    have hpool : (s.side d).poolEquity ≠ 0 := fun hc => hshares ((hzero d).mp hc)
    exact ⟨h0, hp, hadmits, hshares, demands, by rw [hdem]; rfl,
      settleDemands_drained hset hpool hz⟩
  have hmem : lr = some ev ∨ sr = some ev := by
    simpa using hev
  cases hmem with
  | inl hmem =>
    subst hmem
    obtain ⟨hz, hpos, hd, htick⟩ := rotateIfDrained_event hl
    rw [SubPool.side_atPrice] at hz hpos
    exact ⟨hd ▸ hdrains .long hz hpos, htick⟩
  | inr hmem =>
    subst hmem
    obtain ⟨hz, hpos, hd, htick⟩ := rotateIfDrained_event hsh
    have hside : s2.side .short = s1.side .short := by
      rw [← SubPool.side_atPrice s1 envelope]
      exact rotateIfDrained_other hl (by decide)
    rw [hside] at hz hpos
    exact ⟨hd ▸ hdrains .short hz hpos, htick⟩

theorem World.Inv.migrated_of {w : World} (h : w.Inv) {id : Nat} {p : Position}
    (hk : w.positions.get? id = some p) : ∃ q, w.migrated id = some q ∧
      Migrated (w.subPool.side p.direction) p q ∧
        Holds w.subPool (w.positions.insert id q) id q := by
  have h0 : Holds w.subPool w.positions id p :=
    ⟨h.sound, h.shared, hk, (h.resting id p hk).toOk, h.price_lt, h.price_pos id p hk⟩
  obtain ⟨q, b, hm⟩ := lazyMigratePosition_of h0
  refine ⟨q, ?_, lazyMigratePosition_ok hm, (migrate_holds h0 (lazyMigratePosition_ok hm)).1⟩
  unfold World.migrated
  simp only [hk, hm]

theorem Migrated.worth_eq {x : Side} {p q : Position} (hok : p.Ok) (hm : Migrated x p q) :
    x.worth p = match q.recoveryBucketTick with
      | none => 0
      | some tick => if q.recoveryShares = 0 then 0
        else x.dormant.book.worthAt tick q.recoveryShares := by
  have hzero : ∀ {tick : Int} {n : Nat}, x.dormant.book.worthAt tick n
      = if n = 0 then 0 else x.dormant.book.worthAt tick n := by
    intro tick n
    split_ifs with hn
    · unfold Book.worthAt
      split <;> simp [hn]
    · rfl
  cases hm with
  | empty h0 =>
    have hb : x.bucketOf p = p.recoveryBucketTick := if_pos h0
    unfold Side.worth
    rw [hb, h0, Nat.add_zero]
    cases p.recoveryBucketTick with
    | none => rfl
    | some tick => exact hzero
  | current h0 hg =>
    have hb : x.bucketOf p = none := by
      rw [Side.bucketOf, if_neg h0, Side.rotatedInto, if_pos hg]
    rw [Side.worth_none hb, hok.apart.resolve_left h0]
    cases p.recoveryBucketTick <;> rfl
  | moved r h0 hg hr =>
    have hb : x.bucketOf p = some r.bucketTick := by
      rw [Side.bucketOf, if_neg h0, Side.rotatedInto, if_neg hg, hr, Option.map_some]
    rw [Side.worth_some hb]
    exact hzero

theorem Migrated.bucketOf_eq {x : Side} {p q : Position} (hm : Migrated x p q)
    (hw : x.worth p ≠ 0) : q.recoveryBucketTick = x.bucketOf p := by
  cases hm with
  | empty h0 => exact (if_pos h0).symm
  | current h0 hg =>
    have hb : x.bucketOf p = none := by
      rw [Side.bucketOf, if_neg h0, Side.rotatedInto, if_pos hg]
    exact absurd (Side.worth_none hb) hw
  | moved r h0 hg hr =>
    rw [Side.bucketOf, if_neg h0, Side.rotatedInto, if_neg hg, hr, Option.map_some]

theorem World.Inv.redeemable_eq {w : World} (h : w.Inv) {id : Nat} {p : Position}
    (hk : w.positions.get? id = some p) :
    w.redeemable id = (w.subPool.side p.direction).worth p := by
  obtain ⟨q, hq, hm, hold⟩ := h.migrated_of hk
  obtain ⟨s', q', r, hr, -⟩ := settleRecovery_of hold h.value_lt
  have hdir : q.direction = p.direction := by cases hm <;> rfl
  have hv : w.redeemable id = r.redeemable := by
    unfold World.redeemable
    simp only [hq, hr]
  rw [hv, hm.worth_eq (h.resting id p hk).toOk]
  cases settleRecovery_ok hr with
  | inl hc =>
    obtain ⟨h0, -, -, rfl⟩ := hc
    cases q.recoveryBucketTick with
    | none => rfl
    | some tick => simp [h0]
  | inr hc =>
    obtain ⟨h0, tick, hc⟩ := hc
    obtain ⟨ht, dormant, hd, -⟩ := redeemRecovery_ok hc
    have ha := hold.shared q.direction
    have hbook := DormantStore.redeem_book (hold.sound _).1
      (bounded_of_value h.value_lt q.direction) hd
    simp only [ht, if_neg h0]
    rw [← hdir]
    exact Book.redeem_pays h0 (fun b hb => ha.total_lt_of_book hb) hbook

theorem call_redeemable {market : MarketParams} {op : EngineOp} {w w' : World} {reply : Reply}
    (h : w.Inv) (hr : op.call market w = some (.ok (w', reply))) {id : Nat} {p : Position}
    (hk : w.positions.get? id = some p) (hburns : op.burns ≠ some id)
    (hno : ¬ Dilutes id (market, op) w) :
    w'.positions.get? id = some p ∧ w.redeemable id ≤ w'.redeemable id := by
  have h' := World.step_inv h hr
  obtain ⟨s1, es1, es2, hset, h1, hact, hev⟩ := op.call_settled h hr
  obtain ⟨hk', hact'⟩ := hact.worth_le h1 (p := p) hk hburns
  refine ⟨hk', ?_⟩
  rw [h.redeemable_eq hk, h'.redeemable_eq hk']
  by_cases h0 : (w.subPool.side p.direction).worth p = 0
  · rw [h0]
    exact Nat.zero_le _
  refine (hset.part.worth_le h hk fun ev hmem hd hb => hno ⟨?_, ?_⟩).trans hact'
  · rw [h.redeemable_eq hk]
    exact h0
  · cases hset with
    | idle => cases hmem
    | synced envelope sync s1 he hs =>
      obtain ⟨q, hq, hm, -⟩ := h.migrated_of hk
      have hdir : q.direction = p.direction := by cases hm <;> rfl
      obtain ⟨hdrains, htick⟩ := syncPool_rotates h.sound h.zeroIff hs hmem
      refine ⟨envelope, he, q, hq, ?_, ev.bucketTick, ?_, htick⟩
      · rw [hdir, ← hd]
        exact hdrains
      · rw [hm.bucketOf_eq h0, hb]
        rfl

/-- Calls by others never lower what a position could redeem, as long as none of their syncs
    merges new shares into its bucket while there is something to redeem. -/
theorem holders_undiluted (w : World) (h : w.Reached) (id : Nat) (p : Position)
    (hk : w.positions.get? id = some p) (ops : List (MarketParams × EngineOp))
    (hothers : ∀ op ∈ ops, op.2.burns ≠ some id)
    (hno : AlongRun EngineOp.step (fun op w => ¬ Dilutes id op w) ops w) :
    w.redeemable id ≤ (run EngineOp.step ops w).2.redeemable id := by
  have hi := h.inv
  clear h
  induction ops generalizing w with
  | nil => exact le_rfl
  | cons op ops ih =>
    obtain ⟨hstep, hrest⟩ := hno
    have hone := hothers op List.mem_cons_self
    have hlater := fun op' h' => hothers op' (List.mem_cons_of_mem _ h')
    obtain ⟨market, op⟩ := op
    cases hc : op.call market w with
    | none =>
      have hs : (EngineOp.step (market, op) w).2 = w := by simp only [EngineOp.step, hc]
      simp only [run, hs] at hrest ⊢
      exact ih w hk hlater hrest hi
    | some r =>
      cases r with
      | error e =>
        have hs : (EngineOp.step (market, op) w).2 = w := by simp only [EngineOp.step, hc]
        simp only [run, hs] at hrest ⊢
        exact ih w hk hlater hrest hi
      | ok wr =>
        obtain ⟨w', reply⟩ := wr
        have hs : (EngineOp.step (market, op) w).2 = w' := by simp only [EngineOp.step, hc]
        obtain ⟨hk', hle⟩ := call_redeemable hi hc hk hone hstep
        simp only [run, hs] at hrest ⊢
        exact hle.trans (ih w' hk' hlater hrest (World.step_inv hi hc))

def heldWorld : World := (smallRun .lazy
  [.open (quoteAt (amount 100)) .long (amount 100) (amount 1),
    .open (quoteAt (amount 100)) .long (amount 50) (amount 4),
    .open (quoteAt (amount 100)) .short (amount 200) (amount 2), .sync (quoteAt (amount 90)),
      .sync (quoteAt (amount 99))]).2

def othersLeave : List (MarketParams × EngineOp) :=
  [(smallMarket .lazy, .claim (quoteAt (amount 99)) 4),
    (smallMarket .lazy, .open (quoteAt (amount 99)) .long (amount 50) (amount 3)),
    (smallMarket .lazy, .sync (quoteAt (amount 91)))]

theorem heldWorld_undiluted :
    heldWorld.redeemable 1 ≤ (run EngineOp.step othersLeave heldWorld).2.redeemable 1 := by
  obtain ⟨p, hk⟩ : ∃ p, heldWorld.positions.get? 1 = some p :=
    Option.isSome_iff_exists.mp (by decide +kernel)
  exact holders_undiluted heldWorld (smallRun_reached _ _) 1 p hk othersLeave (by decide)
    ⟨by decide +kernel, by decide +kernel, by decide +kernel, trivial⟩

/-- A new long opens and is rotated into the same bucket: the holders share with it. -/
def othersMerge : List (MarketParams × EngineOp) :=
  [(smallMarket .lazy, .open (quoteAt (amount 99)) .long (amount 50) (amount 3)),
    (smallMarket .lazy, .sync (quoteAt (amount 90)))]

theorem holders_diluted : ¬ ∀ w : World, w.Reached → ∀ id p, w.positions.get? id = some p →
    ∀ ops : List (MarketParams × EngineOp), (∀ op ∈ ops, op.2.burns ≠ some id) →
      w.redeemable id ≤ (run EngineOp.step ops w).2.redeemable id
        + (ops.filter (fun op => op.2.burns.isSome)).length := by
  intro h
  obtain ⟨p, hk⟩ : ∃ p, heldWorld.positions.get? 1 = some p :=
    Option.isSome_iff_exists.mp (by decide +kernel)
  have hle := h heldWorld (smallRun_reached _ _) 1 p hk othersMerge (by decide)
  have h0 : heldWorld.redeemable 1 = 100 := by decide +kernel
  have h1 : (run EngineOp.step othersMerge heldWorld).2.redeemable 1 = 75 := by decide +kernel
  rw [h0, h1] at hle
  exact absurd hle (by decide)

end MoleFinance
