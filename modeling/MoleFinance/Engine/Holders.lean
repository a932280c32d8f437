import MoleFinance.Engine.Events
import MoleFinance.Engine.Exit
import MoleFinance.Lib.ProRata

/-! What active shares are worth while others use the sub-pool at a price that stands still: a
deposit rounds at most one unit away, a withdrawal nothing, and a deposit taken back at once
pays what it accounted for. -/
namespace MoleFinance
open MoleMath Call

def Side.activeWorth (x : Side) (p : Position) : Nat :=
  proRata x.poolEquity x.activeShares p.activeShares

def Position.Running (p : Position) (x : Side) : Prop :=
  p.activeShares ≠ 0 ∧ p.activeGeneration = x.activeGeneration

structure SamePool (x x' : Side) : Prop where
  equity : x'.poolEquity = x.poolEquity
  shares : x'.activeShares = x.activeShares
  generation : x'.activeGeneration = x.activeGeneration

namespace SamePool
variable {x x' x'' : Side} {p : Position}

theorem refl (x : Side) : SamePool x x := ⟨rfl, rfl, rfl⟩

theorem activeWorth (h : SamePool x x') (p : Position) : x'.activeWorth p = x.activeWorth p := by
  rw [Side.activeWorth, h.equity, h.shares]
  rfl

end SamePool

theorem syncPool_unmoved {market : MarketParams} {s s' : SubPool} {envelope : PriceEnvelope}
    {out : SyncOutcome} (hp : envelope.pNow = s.lastPrice)
    (h : syncPool market s envelope = .ok (s', out)) (d : Direction) : s'.side d = s.side d := by
  obtain ⟨-, hsync, -⟩ := syncPool_ok h
  cases hsync with
  | seeded h0 => exact s.side_atPrice envelope d
  | still h0 hp => cases d <;> rfl
  | moved _ _ _ _ _ _ _ _ _ _ hne => exact absurd hp hne

section Parts
variable {s s' : SubPool} {p q q' : Position} {d : Direction}

theorem setSide_samePool {x : Side} (hx : SamePool (s.side d) x) (e : Direction) :
    SamePool (s.side e) ((s.setSide d x).side e) := by
  rw [SubPool.side_setSide_eq]
  split_ifs with he
  · rw [he]
    exact hx
  · exact .refl _

theorem redeemRecovery_samePool {tick : Int} {r : RedeemReceipt}
    (h : redeemRecovery s q = .ok (s', q', tick, r)) (e : Direction) :
    SamePool (s.side e) (s'.side e) := by
  obtain ⟨-, dormant, -, -, rfl, -⟩ := redeemRecovery_ok h
  refine setSide_samePool ?_ e
  exact ⟨rfl, rfl, rfl⟩

theorem addDust_samePool {a : Nat} (h : addDust s d a = .ok s') (e : Direction) :
    SamePool (s.side e) (s'.side e) := by
  rw [addDust_ok h]
  refine setSide_samePool ?_ e
  exact ⟨rfl, rfl, rfl⟩

theorem settleRecovery_samePool {r : RedeemReceipt} (h : settleRecovery s q = .ok (s', q', r))
    (e : Direction) : SamePool (s.side e) (s'.side e) := by
  cases settleRecovery_ok h with
  | inl h =>
    obtain ⟨-, rfl, -⟩ := h
    exact .refl _
  | inr h =>
    obtain ⟨-, tick, h⟩ := h
    exact redeemRecovery_samePool h e

/-- Shares that leave for no more than they are worth take nothing from the others. -/
theorem burnActive_activeWorth {value : Nat} (h : burnActive s q value = .ok (s', q'))
    (hv : value ≤ (s.side q.direction).activeWorth q)
    (hsum : q.direction = d → q.activeShares + p.activeShares ≤ (s.side d).activeShares) :
    (s.side d).activeWorth p ≤ (s'.side d).activeWorth p ∧
      (s'.side d).activeGeneration = (s.side d).activeGeneration := by
  obtain ⟨-, -, -, rfl, -⟩ := burnActive_ok h
  by_cases hd : q.direction = d
  · have hleave : (s.side d).activeWorth p ≤ proRata ((s.side d).poolEquity
        - (s.side d).activeWorth q) ((s.side d).activeShares - q.activeShares) p.activeShares :=
      proRata_leave (hsum hd)
    rw [hd] at hv ⊢
    rw [SubPool.side_setSide]
    exact ⟨hleave.trans (proRata_mono (Nat.sub_le_sub_left hv _)), rfl⟩
  · rw [SubPool.side_setSide_of_ne _ _ (Ne.symm hd)]
    exact ⟨le_rfl, rfl⟩

theorem redeemActive_activeWorth {value : Nat} (h : redeemActive s q = .ok (s', q', value))
    (hlt : (s.side q.direction).activeShares < u128Size)
    (hsum : q.activeShares ≠ 0 → q.direction = d →
      q.activeShares + p.activeShares ≤ (s.side d).activeShares) :
    (s.side d).activeWorth p ≤ (s'.side d).activeWorth p ∧
      (s'.side d).activeGeneration = (s.side d).activeGeneration := by
  cases redeemActive_ok h with
  | inl h =>
    obtain ⟨-, rfl, -⟩ := h
    exact ⟨le_rfl, rfl⟩
  | inr h =>
    obtain ⟨h0, -, -, hv, hb⟩ := h
    exact burnActive_activeWorth hb (mulDivFloor_ok hlt hv).2.le (hsum h0)

theorem forfeitActive_activeWorth {burned removed : Nat}
    (h : forfeitActive s q = .ok (s', q', burned, removed))
    (hsum : q.activeShares ≠ 0 → q.direction = d →
      q.activeShares + p.activeShares ≤ (s.side d).activeShares) :
    (s.side d).activeWorth p ≤ (s'.side d).activeWorth p ∧
      (s'.side d).activeGeneration = (s.side d).activeGeneration := by
  cases forfeitActive_ok h with
  | inl h =>
    obtain ⟨-, rfl, -⟩ := h
    exact ⟨le_rfl, rfl⟩
  | inr h =>
    obtain ⟨h0, hb, -⟩ := h
    exact burnActive_activeWorth hb (Nat.zero_le _) (hsum h0)

end Parts

theorem Shared.pair_le {s : SubPool} {ps : Positions} (h : Shared s ps) {j k : Nat}
    {p q : Position} (hj : ps.get? j = some p) (hk : ps.get? k = some q) (hne : j ≠ k)
    (hd : q.direction = p.direction) (hp : p.Running (s.side p.direction))
    (hq : q.activeGeneration = (s.side p.direction).activeGeneration) :
    q.activeShares + p.activeShares ≤ (s.side p.direction).activeShares := by
  have hle := add_le_sumOn (s.side p.direction).activeOf hj hk hne rfl hd
  rw [← (h p.direction).shares] at hle
  simp only [Side.activeOf, hp.2, hq, if_true] at hle
  omega

/-- What a call leaves to a holder: the same shares, for all but `loss` units of their worth. -/
structure Kept (w w' : World) (j : Nat) (p : Position) (loss : Nat) : Prop where
  found : w'.positions.get? j = some p
  running : p.Running (w'.subPool.side p.direction)
  worth_le : (w.subPool.side p.direction).activeWorth p
    ≤ (w'.subPool.side p.direction).activeWorth p + loss

/-- An action on another position leaves the pool's holders what they had. -/
theorem Act.kept {w w' : World} {k : Nat} {es : List EngineEvent} (h : w.Inv)
    (ha : Act w (some k) es w') {j : Nat} {p : Position} (hj : w.positions.get? j = some p)
    (hne : k ≠ j) (hp : p.Running (w.subPool.side p.direction)) : Kept w w' j p 0 := by
  have hlt := fun d => (h.shared d).active_lt
  have hpair : ∀ {q q1 : Position} {b : Bool}, w.positions.get? k = some q →
      lazyMigratePosition w.subPool q = .ok (q1, b) → q1.activeShares ≠ 0 →
      q1.direction = p.direction →
      q1.activeShares + p.activeShares ≤ (w.subPool.side p.direction).activeShares := by
    intro q q1 b hk hm h0 hd
    cases lazyMigratePosition_ok hm with
    | empty hz => exact absurd hz h0
    | current _ hg => exact h.shared.pair_le hj hk (Ne.symm hne) hd hp (hd ▸ hg)
    | moved r _ _ _ => exact absurd rfl h0
  have hother : ∀ {q : Position}, (w.positions.insert k q).get? j = some p := by
    intro q
    rw [OrdMap.get?_insert_ne _ _ (Ne.symm hne), hj]
  cases ha with
  | closed slot _ q q1 q2 q3 s2 s3 b v paid r hk hm hact hrec hpaid hopen =>
    obtain ⟨hle, hg⟩ := redeemActive_activeWorth hact (hlt _) (hpair hk hm)
    have hsame := settleRecovery_samePool hrec p.direction
    exact ⟨hother, ⟨hp.1, hp.2.trans (hsame.generation.trans hg).symm⟩,
      hle.trans_eq (hsame.activeWorth p).symm⟩
  | forceClosed slot _ q q1 q2 q3 s2 s3 s4 b burned removed r hk hm hact hrec hdust hopen =>
    obtain ⟨hle, hg⟩ := forfeitActive_activeWorth hact (hpair hk hm)
    have hsame := settleRecovery_samePool hrec p.direction
    have hdusted := addDust_samePool hdust p.direction
    exact ⟨hother,
      ⟨hp.1, hp.2.trans (hdusted.generation.trans (hsame.generation.trans hg)).symm⟩,
      (hle.trans_eq (hsame.activeWorth p).symm).trans_eq (hdusted.activeWorth p).symm⟩
  | claimed slot _ q q1 q2 s2 b tick r hk hm h0 hrec =>
    have hsame := redeemRecovery_samePool hrec p.direction
    exact ⟨hother, ⟨hp.1, hp.2.trans hsame.generation.symm⟩, (hsame.activeWorth p).ge⟩

theorem mintShares_parts {market : MarketParams} {x : Side}
    {principal shares accounted dust : Nat} (he : x.poolEquity ≠ 0)
    (hlt : x.activeShares < u128Size)
    (h : mintShares market x principal = .ok (shares, accounted, dust)) :
    0 < x.activeShares ∧ accounted = proRata x.poolEquity x.activeShares shares := by
  unfold mintShares at h
  rw [if_neg he] at h
  obtain ⟨_, -, h⟩ := except_bind_ok.mp h
  obtain ⟨_, -, h⟩ := except_bind_ok.mp h
  obtain ⟨_, -, h⟩ := except_bind_ok.mp h
  obtain ⟨sh, -, h⟩ := except_bind_ok.mp h
  obtain ⟨_, -, h⟩ := except_bind_ok.mp h
  obtain ⟨ac, hac, h⟩ := except_bind_ok.mp h
  obtain ⟨du, -, h⟩ := except_bind_ok.mp h
  cases h
  obtain ⟨h0, hq⟩ := mulDivFloor_ok hlt (math_ok.mp hac)
  refine ⟨Nat.pos_of_ne_zero h0, ?_⟩
  rw [hq, Nat.mul_comm]
  rfl

section Opens
variable {market : MarketParams} {s s' s1 : SubPool} {envelope : PriceEnvelope} {d : Direction}
  {gross id : Nat} {q : Position} {out : OpenOutcome} {sync : SyncOutcome}

theorem Opening.activeWorth_le {ps : Positions}
    (ho : Opening market s envelope d gross id s' q out s1 sync)
    (hsh : Shared s1 ps) (hz : ∀ d, (s1.side d).poolEquity = 0 ↔ (s1.side d).activeShares = 0)
    {j : Nat} {p : Position} (hj : ps.get? j = some p) (hp : p.Running (s1.side p.direction)) :
    (s1.side p.direction).activeWorth p ≤ (s'.side p.direction).activeWorth p + 1 ∧
      (s'.side p.direction).activeGeneration = (s1.side p.direction).activeGeneration := by
  rw [ho.state]
  by_cases hd : p.direction = d
  · have hle := le_sumOn (s1.side p.direction).activeOf hj rfl
    rw [← (hsh p.direction).shares] at hle
    simp only [Side.activeOf, hp.2, if_true] at hle
    have hlt := (hsh p.direction).active_lt
    have h0 := hp.1
    rw [hd] at hle hlt ⊢
    have he : (s1.side d).poolEquity ≠ 0 := by
      rw [Ne, hz]
      omega
    obtain ⟨hs, hacc⟩ := mintShares_parts he hlt ho.minted
    rw [SubPool.side_setSide]
    refine ⟨?_, rfl⟩
    rw [Side.activeWorth, Side.activeWorth, hacc]
    exact proRata_join hle hs
  · rw [SubPool.side_setSide_of_ne _ _ hd]
    exact ⟨Nat.le_succ _, rfl⟩

theorem Opening.worth_eq (ho : Opening market s envelope d gross id s' q out s1 sync)
    (hlt : (s1.side d).activeShares < u128Size) (h0 : q.activeShares ≠ 0) :
    (s'.side d).activeWorth q = out.principalIntoPool := by
  have hq : q.activeShares = out.sharesMinted := by rw [ho.position]
  rw [ho.state, SubPool.side_setSide, Side.activeWorth, hq]
  rw [hq] at h0
  obtain ⟨hsplit, hempty, -⟩ := mintShares_ok ho.minted
  by_cases he : (s1.side d).poolEquity = 0
  · obtain ⟨hz, hshares, hacc⟩ := hempty he
    simp only [he, hz, hacc, ← hshares, Nat.zero_add]
    exact Nat.mul_div_cancel _ (Nat.pos_of_ne_zero h0)
  · obtain ⟨hs, hacc⟩ := mintShares_parts he hlt ho.minted
    rw [hacc]
    exact proRata_round_trip hs _

end Opens

theorem closePosition_pays {market : MarketParams} {s s' : SubPool} {envelope : PriceEnvelope}
    {p p' : Position} {out : CloseOutcome}
    (h : closePosition market s envelope p = .ok (s', p', out)) : out.withdrawable ≠ 0 := by
  unfold closePosition at h
  obtain ⟨_, -, h⟩ := except_bind_ok.mp h
  obtain ⟨_, -, h⟩ := except_bind_ok.mp h
  obtain ⟨_, -, h⟩ := except_bind_ok.mp h
  obtain ⟨_, -, h⟩ := except_bind_ok.mp h
  obtain ⟨_, -, h⟩ := except_bind_ok.mp h
  obtain ⟨_, -, h⟩ := except_bind_ok.mp h
  obtain ⟨_, -, h⟩ := except_bind_ok.mp h
  obtain ⟨_, -, h⟩ := except_bind_ok.mp h
  obtain ⟨_, hne, h⟩ := except_bind_ok.mp h
  obtain ⟨_, -, h⟩ := except_bind_ok.mp h
  cases h
  exact ensure_ok.mp hne

section RoundTrip
variable {s s1 s2 s3 : SubPool} {q q1 q2 q3 : Position} {b : Bool} {a : Nat}

theorem fresh_redeemed (hlt : (s.side q.direction).activeShares < u128Size)
    (hz : ∀ d, (s.side d).poolEquity = 0 ↔ (s.side d).activeShares = 0)
    (hle : q.activeShares ≤ (s.side q.direction).activeShares)
    (hg : q.activeGeneration = (s.side q.direction).activeGeneration)
    (hrec : q.recoveryShares = 0) (hm : lazyMigratePosition s q = .ok (q1, b))
    (hr : redeemActive s q1 = .ok (s2, q2, a)) :
    a = (if q.activeShares = 0 then 0 else (s.side q.direction).activeWorth q) ∧
      q2.recoveryShares = 0 := by
  cases lazyMigratePosition_ok hm with
  | empty h0 =>
    cases redeemActive_ok hr with
    | inl h =>
      obtain ⟨-, -, rfl, rfl⟩ := h
      exact ⟨(if_pos h0).symm, hrec⟩
    | inr h => exact absurd h0 h.1
  | current h0 _ =>
    rw [if_neg h0]
    cases redeemActive_ok hr with
    | inl h =>
      have hs : (s.side q.direction).activeShares ≠ 0 := by omega
      exact absurd h.1 (by
        rw [hz]
        simp only [h0, hs, or_self, not_false_eq_true])
    | inr h =>
      obtain ⟨-, -, -, hv, hb⟩ := h
      obtain ⟨-, -, -, -, rfl⟩ := burnActive_ok hb
      exact ⟨(mulDivFloor_ok hlt hv).2, hrec⟩
  | moved r _ hne _ => exact absurd hg hne

theorem forfeitActive_worthless {burned removed : Nat}
    (h : forfeitActive s q = .ok (s1, q1, burned, removed)) (h0 : q.activeShares ≠ 0)
    (hlt : (s.side q.direction).activeShares < u128Size)
    (hs : 0 < (s.side q.direction).activeShares) (he : 0 < (s.side q.direction).poolEquity) :
    (s.side q.direction).activeWorth q = 0 := by
  unfold forfeitActive at h
  rw [if_neg h0] at h
  obtain ⟨v, hv, h⟩ := except_bind_ok.mp h
  obtain ⟨_, hz, -⟩ := except_bind_ok.mp h
  rw [activeValue, if_pos ⟨hs, he⟩] at hv
  rw [← ensure_ok.mp hz]
  exact (mulDivFloor_ok hlt (math_ok.mp hv)).2.symm

end RoundTrip

theorem Opening.value_eq {market : MarketParams} {s s' s1 : SubPool} {envelope : PriceEnvelope}
    {d : Direction} {gross id : Nat} {q : Position} {out : OpenOutcome} {sync : SyncOutcome}
    (ho : Opening market s envelope d gross id s' q out s1 sync)
    (hlt : (s1.side d).activeShares < u128Size) :
    (if q.activeShares = 0 then 0 else (s'.side d).activeWorth q) = out.principalIntoPool := by
  split_ifs with h0
  · have hq : q.activeShares = out.sharesMinted := by rw [ho.position]
    obtain ⟨-, hempty, hpos⟩ := mintShares_ok ho.minted
    have he : (s1.side d).poolEquity = 0 := by
      by_contra hne
      exact hpos hne (hq ▸ h0)
    obtain ⟨-, hshares, hacc⟩ := hempty he
    omega
  · exact ho.worth_eq hlt h0

theorem fresh_closes {w : World} (h : w.Inv) {market : MarketParams} {envelope : PriceEnvelope}
    {d : Direction} {gross id : U64} {s : SubPool} {p : Position} {out : OpenOutcome}
    (hk : w.positions.get? id = none)
    (ho : openPosition market w.subPool envelope d gross id = .ok (s, p, out))
    {market' : MarketParams} (hsch : market'.schemaVersion = schemaVersionCurrent)
    (hpa : market'.paused = false) {envelope' : PriceEnvelope} (hat : envelope'.AtLast s) :
    (closePosition market' s envelope' p = .error .withdrawableZero ∧ out.principalIntoPool = 0) ∨
    ∃ s' p' out', closePosition market' s envelope' p = .ok (s', p', out') ∧
      out'.withdrawable = out.principalIntoPool := by
  have hi := World.open_inv h hk ho
  obtain ⟨s1, sync, hop⟩ := openPosition_ok ho
  have hlt1 := ((World.sync_inv h hop.synced).shared d).active_lt
  have hvalue := hop.value_eq hlt1
  have hdir : p.direction = d := by rw [hop.position]
  have hrec : p.recoveryShares = 0 := by rw [hop.position]
  have hlive : p.live = true := by
    rw [Position.live, hop.position]
    rfl
  have hg : p.activeGeneration = (s.side p.direction).activeGeneration := by
    rw [hdir, hop.state, SubPool.side_setSide, hop.position]
  have hle : p.activeShares ≤ (s.side p.direction).activeShares := by
    rw [hdir, hop.state, SubPool.side_setSide, hop.position]
    exact Nat.le_add_left _ _
  have hlt := (hi.shared p.direction).active_lt
  have hz := hi.zeroIff
  simp only at hlt hz
  rw [← hdir] at hvalue
  cases exit_one hi hsch hpa (OrdMap.get?_insert_self _ _ _) hlive hat with
  | inl hc =>
    obtain ⟨s', p', out', hclose, -⟩ := hc
    refine .inr ⟨s', p', out', hclose, ?_⟩
    obtain ⟨t, t2, sync', p1, p2, p3, b, r, hcl⟩ := closePosition_ok hclose
    have hside := syncPool_unmoved hat.1 hcl.synced
    have hred := fresh_redeemed (by rw [hside]; exact hlt) (fun e => by rw [hside]; exact hz e)
      (by rw [hside]; exact hle) (by rw [hside]; exact hg) hrec hcl.migrated hcl.active
    rw [hside, hvalue] at hred
    rw [hcl.paid, hred.1]
    cases settleRecovery_ok hcl.recovery with
    | inl hr =>
      rw [hr.2.2.2]
      rfl
    | inr hr => exact absurd hred.2 hr.1
  | inr hc =>
    obtain ⟨hclose, s', p', out', hforce, -⟩ := hc
    refine .inl ⟨hclose, ?_⟩
    rw [← hvalue]
    split_ifs with h0
    · rfl
    · obtain ⟨t, t2, t3, sync', p1, p2, p3, b, burned, removed, r, hfc⟩ := forceClose_ok hforce
      have hside := syncPool_unmoved hat.1 hfc.synced
      have hs : 0 < (s.side p.direction).activeShares := by omega
      have he : 0 < (s.side p.direction).poolEquity := by
        refine Nat.pos_of_ne_zero fun he => ?_
        have := (hz p.direction).mp he
        omega
      have hp1 : p1 = p := by
        cases lazyMigratePosition_ok hfc.migrated with
        | empty hempty => exact absurd hempty h0
        | current _ _ => rfl
        | moved _ _ hne _ => exact absurd (by rw [hside]; exact hg) hne
      have hworth := forfeitActive_worthless (hp1 ▸ hfc.active) h0 (by rw [hside]; exact hlt)
        (by rw [hside]; exact hs) (by rw [hside]; exact he)
      rwa [hside] at hworth

namespace EngineOp

def AtLast (s : SubPool) : EngineOp → Prop
  | .sync envelope => envelope.pNow = s.lastPrice
  | .open envelope _ _ _ => envelope.pNow = s.lastPrice
  | .close envelope _ => envelope.pNow = s.lastPrice
  | .forceClose envelope _ _ => envelope.pNow = s.lastPrice
  | .claim envelope _ => envelope.pNow = s.lastPrice
  | .harvest _ => True
  | .preSync _ _ _ => True

/-- Units a call of someone else may round away from a holder. -/
def rounding : EngineOp → Nat
  | .open .. => 1
  | _ => 0

end EngineOp

section Calls
variable {market : MarketParams} {w w' : World} {j : Nat} {p : Position}

theorem Kept.of_samePool (hj : w'.positions.get? j = some p)
    (hp : p.Running (w.subPool.side p.direction))
    (h : SamePool (w.subPool.side p.direction) (w'.subPool.side p.direction)) :
    Kept w w' j p 0 :=
  ⟨hj, ⟨hp.1, hp.2.trans h.generation.symm⟩, (h.activeWorth p).ge⟩

theorem call_kept {op : EngineOp} {reply : Reply} (h : w.Inv)
    (hr : op.call market w = some (.ok (w', reply))) (hat : op.AtLast w.subPool)
    (hj : w.positions.get? j = some p) (hne : op.burns ≠ some j)
    (hp : p.Running (w.subPool.side p.direction)) : Kept w w' j p op.rounding := by
  have hacted : ∀ {envelope : PriceEnvelope} {k : Nat} {events : List EngineEvent} {w' : World},
      envelope.pNow = w.subPool.lastPrice → k ≠ j →
      (∃ s1 sync, syncPool market w.subPool envelope = .ok (s1, sync) ∧
        ActsFrom w (some k) events w' sync s1) → Kept w w' j p 0 := by
    intro envelope k events w' hpl hkj hw
    obtain ⟨s1, sync, hsync, es, hact, -⟩ := hw
    have hside := syncPool_unmoved hpl hsync p.direction
    have hp1 : p.Running (s1.side p.direction) := hside.symm ▸ hp
    obtain ⟨hfound, hrun, hle⟩ := hact.kept (World.sync_inv h hsync) hj hkj hp1
    refine ⟨hfound, hrun, ?_⟩
    rw [← hside]
    exact hle
  cases op with
  | sync envelope =>
    obtain ⟨⟨s, out⟩, hs, he⟩ := except_map_ok.mp (Option.some.inj hr)
    cases he
    have hside : s.side p.direction = w.subPool.side p.direction :=
      syncPool_unmoved hat hs p.direction
    refine .of_samePool hj hp ?_
    change SamePool _ (s.side p.direction)
    rw [hside]
    exact .refl _
  | «open» envelope d gross id =>
    simp only [EngineOp.call] at hr
    split_ifs at hr with hk
    obtain ⟨⟨s, q, out⟩, hs, he⟩ := except_map_ok.mp (Option.some.inj hr)
    cases he
    obtain ⟨s1, sync, ho⟩ := openPosition_ok hs
    have hside := syncPool_unmoved hat ho.synced p.direction
    have hi := World.sync_inv h ho.synced
    have hp1 : p.Running (s1.side p.direction) := hside.symm ▸ hp
    obtain ⟨hle, hg⟩ := ho.activeWorth_le hi.shared hi.zeroIff hj hp1
    have hid : j ≠ id.val := by
      rintro rfl
      exact hk (OrdMap.contains_iff.mpr ⟨p, hj⟩)
    refine ⟨(OrdMap.get?_insert_ne _ _ hid).trans hj, ⟨hp1.1, hp1.2.trans hg.symm⟩, ?_⟩
    rw [← hside]
    exact hle
  | close envelope k =>
    obtain ⟨q, hk, hr⟩ := Option.map_eq_some_iff.mp hr
    obtain ⟨⟨s, p', out⟩, hs, he⟩ := except_map_ok.mp hr
    cases he
    exact hacted hat (fun hkj => hne (congrArg some hkj)) (closePosition_acts hk hs)
  | forceClose envelope k ack =>
    obtain ⟨q, hk, hr⟩ := Option.map_eq_some_iff.mp hr
    obtain ⟨⟨s, p', out⟩, hs, he⟩ := except_map_ok.mp hr
    cases he
    exact hacted hat (fun hkj => hne (congrArg some hkj)) (forceClose_acts hk hs)
  | claim envelope k =>
    obtain ⟨q, hk, hr⟩ := Option.map_eq_some_iff.mp hr
    obtain ⟨⟨s, p', out⟩, hs, he⟩ := except_map_ok.mp hr
    cases he
    exact hacted hat (fun hkj => hne (congrArg some hkj)) (claim_acts hk hs)
  | harvest d =>
    obtain ⟨⟨s, out⟩, hs, he⟩ := except_map_ok.mp (Option.some.inj hr)
    cases he
    obtain ⟨-, rfl, -⟩ := harvest_ok hs
    refine .of_samePool hj hp (setSide_samePool ?_ p.direction)
    exact ⟨rfl, rfl, rfl⟩
  | preSync d tick slot =>
    obtain ⟨⟨s, out⟩, hs, he⟩ := except_map_ok.mp (Option.some.inj hr)
    cases he
    obtain ⟨n, dormant, -, rfl, -⟩ := preSync_ok hs
    refine .of_samePool hj hp (setSide_samePool ?_ p.direction)
    exact ⟨rfl, rfl, rfl⟩

end Calls

/-- At a standing price holders lose at most one unit to a deposit and nothing to any other call
    of someone else, and a deposit closed at once pays the principal without its dust. -/
theorem active_holders_protected (w : World) (h : w.Reached) :
    (∀ j p, w.positions.get? j = some p → p.Running (w.subPool.side p.direction) →
      ∀ market op w' reply, EngineOp.call market w op = some (.ok (w', reply)) →
        op.burns ≠ some j → op.AtLast w.subPool → Kept w w' j p op.rounding) ∧
    (∀ market envelope d, ∀ gross id : U64, ∀ s p out, w.positions.get? id = none →
      openPosition market w.subPool envelope d gross id = .ok (s, p, out) →
      out.dust ≤ p.principal ∧
      ∀ market' envelope', market'.schemaVersion = schemaVersionCurrent →
        market'.paused = false → PriceEnvelope.AtLast envelope' s →
        (p.principal - out.dust = 0 →
          closePosition market' s envelope' p = .error .withdrawableZero) ∧
        (p.principal - out.dust ≠ 0 → ∃ s' p' out',
          closePosition market' s envelope' p = .ok (s', p', out') ∧
          out'.withdrawable = p.principal - out.dust)) := by
  have hi := h.inv
  constructor
  · intro j p hj hp market op w' reply hr hne hat
    exact call_kept hi hr hat hj hne hp
  · intro market envelope d gross id s p out hk ho
    obtain ⟨s1, sync, hop⟩ := openPosition_ok ho
    have hsplit := (mintShares_ok hop.minted).1
    have hpaid : p.principal - out.dust = out.principalIntoPool := by omega
    refine ⟨by omega, fun market' envelope' hsch hpa hat => ?_⟩
    rw [hpaid]
    cases fresh_closes hi hk ho hsch hpa hat with
    | inl hc => exact ⟨fun _ => hc.1, fun hne => absurd hc.2 hne⟩
    | inr hc =>
      obtain ⟨s', p', out', hclose, hpays⟩ := hc
      have hne := closePosition_pays hclose
      exact ⟨fun h0 => absurd (hpays.trans h0) hne, fun _ => ⟨s', p', out', hclose, hpays⟩⟩

/-- A long pool at a ninth of its first worth: a share is worth a fraction of a unit. -/
def thinPool : World := (smallRun .eager
  [.open (quoteAt (amount 100)) .long (amount 101) (amount 1),
    .open (quoteAt (amount 100)) .short (amount 300) (amount 2), .sync (quoteAt (amount 97))]).2

def thinDeposit : Except ClearingError (SubPool × Position × OpenOutcome) :=
  openPosition (smallMarket .eager) thinPool.subPool (quoteAt (amount 97)) .long (amount 50)
    (amount 3)

/-- Of 50 deposited one unit is dust; the other 49 are paid out again. -/
theorem thinPool_protected : ∃ s p out, thinDeposit = .ok (s, p, out) ∧
    (∃ s' p' out', closePosition (smallMarket .eager) s (quoteAt (amount 97)) p
      = .ok (s', p', out') ∧
      out'.withdrawable = 49) ∧
    ∀ q, thinPool.positions.get? 1 = some q → (thinPool.subPool.side q.direction).activeWorth q
      ≤ (s.side q.direction).activeWorth q + 1 := by
  have h := active_holders_protected thinPool (smallRun_reached _ _)
  have hfacts : thinDeposit.toOption.map (fun r => (r.2.1.principal, r.2.2.dust, r.1.lastPrice))
      = some (50, 1, 97) := by decide +kernel
  have hnew : thinPool.positions.get? (amount 3) = none := by decide +kernel
  have hrunning : ∀ q, thinPool.positions.get? 1 = some q → q.activeShares ≠ 0 ∧
      q.activeGeneration = (thinPool.subPool.side q.direction).activeGeneration := by
    have hq : (thinPool.positions.get? 1).all (fun q => decide (q.activeShares ≠ 0 ∧
        q.activeGeneration = (thinPool.subPool.side q.direction).activeGeneration)) = true := by
      decide +kernel
    intro q hk
    rw [hk] at hq
    exact of_decide_eq_true hq
  have hprice : thinPool.subPool.lastPrice = 97 := by decide +kernel
  cases hr : thinDeposit with
  | error e =>
    rw [hr] at hfacts
    cases hfacts
  | ok r =>
    obtain ⟨s, p, out⟩ := r
    rw [hr] at hfacts
    obtain ⟨hp, hd, hs⟩ : p.principal = 50 ∧ out.dust = 1 ∧ s.lastPrice = 97 := by
      simpa [Except.toOption] using hfacts
    refine ⟨s, p, out, rfl, ?_, fun q hk => ?_⟩
    · have hclose := ((h.2 _ _ _ _ _ s p out hnew hr).2 (smallMarket .eager)
        (quoteAt (amount 97)) rfl rfl
        ⟨hs.symm, by decide, by decide⟩).2
      rw [hp, hd] at hclose
      exact hclose (by decide)
    · have hcall : EngineOp.call (smallMarket .eager) thinPool
          (.open (quoteAt (amount 97)) .long (amount 50) (amount 3))
          = some (.ok (⟨s, thinPool.positions.insert (amount 3) p⟩, .opened p out)) := by
        have hcontains : thinPool.positions.contains (amount 3) = false := by
          rw [OrdMap.contains, hnew]
          rfl
        have hr' : openPosition (smallMarket .eager) thinPool.subPool (quoteAt (amount 97)) .long
          (amount 50)
          (amount 3) = .ok (s, p, out) := hr
        simp only [EngineOp.call, hcontains, Bool.false_eq_true, if_false, hr']
        rfl
      exact (h.1 1 q hk (hrunning q hk) _ _ _ _ hcall (by decide) hprice.symm).worth_le

end MoleFinance
