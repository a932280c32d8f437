import MoleFinance.Dormant.Frame
import MoleFinance.Engine.Events

/-! What every call of a dormant store keeps, every call of the engine keeps on both sides. -/
namespace MoleFinance
open MoleMath Call Trace

structure DormantStore.Kept (market : MarketParams) (P : DormantStore → Prop) : Prop where
  distributed : ∀ {s s' : DormantStore} {price amount : Nat} {r : DistributionReceipt}, s.Inv →
    P s → distributeBy market.dormantDistributeMode price amount market.maxDistributionLedgerSize s
      = .ok r s' → P s'
  joined : ∀ {s s' : DormantStore} {tick : Int} {anchor shares notional count : Nat} {u : Unit},
    s.Inv → P s → insertOrMerge tick anchor shares notional count
      market.maxDormantBucketCountPerDirection s = .ok u s' → P s'
  redeemed : ∀ {s s' : DormantStore} {tick : Int} {shares : Nat} {r : RedeemReceipt}, s.Inv →
    P s → redeem tick shares s = .ok r s' → P s'
  applied : ∀ {s s' : DormantStore} {tick : Int} {n : Nat}, s.Inv →
    P s → applyPendingToBucket tick s = .ok n s' → P s'

def SubPool.Stores (P : DormantStore → Prop) (s : SubPool) : Prop := ∀ d, P (s.side d).dormant

variable {market : MarketParams} {P : DormantStore → Prop} {s s' : SubPool} {p p' : Position}

namespace SubPool.Stores

theorem of_stores (h : s.Stores P) (hd : ∀ d, (s'.side d).dormant = (s.side d).dormant) :
    s'.Stores P := by
  intro d
  rw [hd]
  exact h d

theorem setSide (h : s.Stores P) {d : Direction} {x : Side} (hx : P x.dormant) :
    (s.setSide d x).Stores P := by
  intro e
  rw [SubPool.side_setSide_eq]
  split_ifs with he
  · exact hx
  · exact h e

theorem setSide_same (h : s.Stores P) {d : Direction} {x : Side}
    (hx : x.dormant = (s.side d).dormant) : (s.setSide d x).Stores P :=
  h.setSide (hx ▸ h d)

end SubPool.Stores

theorem transferTo_stores (hk : DormantStore.Kept market P) {price : Nat} {w : Direction}
    {demand : Demand} {inflow : Inflow} (hs : s.Sound) (hc : s.Stores P)
    (h : transferTo market s price w demand = .ok (s', inflow)) : s'.Stores P := by
  cases transferTo_ok h with
  | inl h =>
    obtain ⟨-, rfl, -⟩ := h
    exact hc
  | inr h =>
    obtain ⟨t, a, x, -, -, -, -, -, hx, -, rfl⟩ := h
    have hw : (s.setSide w x).Stores P := by
      cases transferToRecovery_ok hx with
      | inl h =>
        obtain ⟨-, rfl, -⟩ := h
        exact hc.setSide_same rfl
      | inr h =>
        obtain ⟨dormant, r, -, hr, rfl, -⟩ := h
        exact hc.setSide (hk.distributed (hs w).1 (hc w) hr)
    exact hw.setSide_same (by rw [SubPool.side_setSide_opposite])

theorem settleDemands_stores (hk : DormantStore.Kept market P) {price : Nat}
    {demands : Demand × Demand} {long short : Inflow} (hs : s.Sound) (hc : s.Stores P)
    (h : settleDemands market s price demands = .ok (s', long, short)) : s'.Stores P := by
  unfold settleDemands at h
  split_ifs at h with h1 h2
  · obtain ⟨⟨t, i⟩, ht, h⟩ := except_bind_ok.mp h
    cases h
    exact transferTo_stores hk hs hc ht
  · obtain ⟨⟨t, i⟩, ht, h⟩ := except_bind_ok.mp h
    cases h
    exact transferTo_stores hk hs hc ht
  · cases h
    exact hc

theorem Rotation.stores (hk : DormantStore.Kept market P) {envelope : PriceEnvelope}
    {d : Direction} {es : List EngineEvent} (hs : s.Sound) (hc : s.Stores P)
    (h : Rotation market envelope d s es s') : s'.Sound ∧ s'.Stores P := by
  cases h with
  | none _ => exact ⟨hs, hc⟩
  | rotated tick x h0 hpos ht hx =>
    obtain ⟨tick', dormant, -, hd, -, -, rfl⟩ := hx
    have he := DormantStore.insertOrMerge_effect (hs d).1 hd
    exact ⟨hs.setSide he.inv (he.direction_eq.trans (hs d).2),
      hc.setSide (hk.joined (hs d).1 (hc d) hd)⟩

theorem SyncPart.stores (hk : DormantStore.Kept market P) {es : List EngineEvent} (hs : s.Sound)
    (hc : s.Stores P) (h : SyncPart market s es s') : s'.Stores P := by
  cases h with
  | kept _ _ hsides => exact hc.of_stores fun d => by rw [hsides]
  | moved envelope demands s1 s2 _ long short le se h0 hp hdem hset hl hsh =>
    have h1 := settleDemands_moved hs hset
    have c1 := settleDemands_stores hk hs hc hset
    have c1' : (s1.atPrice envelope).Stores P := c1.of_stores fun d => by rw [SubPool.side_atPrice]
    obtain ⟨h2, c2⟩ := hl.stores hk (atPrice_moved h1.sound envelope).sound c1'
    exact (hsh.stores hk h2 c2).2

theorem burnActive_stores {value : Nat} (hc : s.Stores P)
    (h : burnActive s p value = .ok (s', p')) : s'.Stores P := by
  obtain ⟨-, -, -, rfl, -⟩ := burnActive_ok h
  exact hc.setSide_same rfl

theorem redeemActive_stores {value : Nat} (hc : s.Stores P)
    (h : redeemActive s p = .ok (s', p', value)) : s'.Stores P := by
  cases redeemActive_ok h with
  | inl h =>
    obtain ⟨-, rfl, -⟩ := h
    exact hc
  | inr h => exact burnActive_stores hc h.2.2.2.2

theorem forfeitActive_stores {burned removed : Nat} (hc : s.Stores P)
    (h : forfeitActive s p = .ok (s', p', burned, removed)) : s'.Stores P := by
  cases forfeitActive_ok h with
  | inl h =>
    obtain ⟨-, rfl, -⟩ := h
    exact hc
  | inr h => exact burnActive_stores hc h.2.1

theorem redeemRecovery_stores (hk : DormantStore.Kept market P) {tick : Int} {r : RedeemReceipt}
    (hs : s.Sound) (hc : s.Stores P) (h : redeemRecovery s p = .ok (s', p', tick, r)) :
    s'.Stores P := by
  obtain ⟨-, dormant, hd, -, rfl, -⟩ := redeemRecovery_ok h
  exact hc.setSide (hk.redeemed (hs _).1 (hc _) hd)

theorem settleRecovery_stores (hk : DormantStore.Kept market P) {r : RedeemReceipt} (hs : s.Sound)
    (hc : s.Stores P) (h : settleRecovery s p = .ok (s', p', r)) : s'.Stores P := by
  cases settleRecovery_ok h with
  | inl h =>
    obtain ⟨-, rfl, -⟩ := h
    exact hc
  | inr h =>
    obtain ⟨-, tick, h⟩ := h
    exact redeemRecovery_stores hk hs hc h

theorem Act.stores (hk : DormantStore.Kept market P) {w w' : World} {burns : Option Nat}
    {es : List EngineEvent} (hs : w.subPool.Sound) (hc : w.subPool.Stores P)
    (h : Act w burns es w') : w'.subPool.Stores P := by
  cases h with
  | idle => exact hc
  | opened market s envelope d gross id s' p out sync hk ho =>
    simp only [ho.state]
    exact hc.setSide_same rfl
  | closed slot k p p1 p2 p3 s2 s3 b v paid r _ hm hact hrec hp hopen =>
    have h2 := redeemActive_moved hs hact
    exact settleRecovery_stores hk h2.sound (redeemActive_stores hc hact) hrec
  | forceClosed slot k p p1 p2 p3 s2 s3 s4 b burned removed r _ hm hact hrec hd hopen =>
    have h2 := forfeitActive_moved hs hact
    have c3 := settleRecovery_stores hk h2.sound (forfeitActive_stores hc hact) hrec
    simp only [addDust_ok hd]
    exact c3.setSide_same rfl
  | claimed slot k p p1 p2 s2 b tick r _ hm h0 hrec => exact redeemRecovery_stores hk hs hc hrec
  | harvested d => exact hc.setSide_same rfl
  | preSynced d tick n dormant ev hsub ha => exact hc.setSide (hk.applied (hs d).1 (hc d) ha)

theorem EngineOp.call_stores (hk : DormantStore.Kept market P) {op : EngineOp} {w w' : World}
    {reply : Reply} (h : w.Inv) (hr : op.call market w = some (.ok (w', reply)))
    (hc : w.subPool.Stores P) : w'.subPool.Stores P := by
  obtain ⟨s1, es1, es2, hsync, h1, hact, -⟩ := op.call_parts h hr
  exact hact.stores hk h1.sound (hsync.stores hk h.sound hc)

namespace DormantStore

theorem Upkeep.size_eq {s s' : DormantStore} (h : s.Upkeep s') :
    s'.buckets.size = s.buckets.size := by
  have hview := congrArg OrdMap.size h.view_eq
  simpa only [view, OrdMap.size_mapVal] using hview

theorem size_kept (market : MarketParams)
    (hcap : market.maxDormantBucketCountPerDirection < 2 ^ 32) :
    Kept market (fun s => s.buckets.size ≤ market.maxDormantBucketCountPerDirection) where
  distributed := by
    intro s s' price amount r h hle hr
    have hsize := congrArg OrdMap.size (distributeBy_framed hr).profiles_eq
    simp only [profiles, OrdMap.size_mapVal] at hsize
    exact hsize.trans_le hle
  joined := by
    intro s s' tick anchor shares notional count u h hle hr
    have hm := insertOrMerge_cases h tick anchor shares notional count
      market.maxDormantBucketCountPerDirection
    rw [hr] at hm
    cases hm with
    | merged s1 b b' hu hc hb hm =>
      rw [setBucket, OrdMap.size_insert_old _ hb, hu.size_eq]
      exact hle
    | inserted hb hn =>
      have hcount : s.bucketCount = s.buckets.size := Nat.mod_eq_of_lt (hle.trans_lt hcap)
      rw [setBucket, OrdMap.size_insert_new _ hb, ← hcount]
      exact hn
  redeemed := by
    intro s s' tick shares r h hle hr
    have hm := redeem_cases h tick shares
    rw [hr] at hm
    cases hm with
    | burned s1 b b' _ hu hc hb h0 hlt hm =>
      refine le_trans ?_ (hu.size_eq.trans_le hle)
      unfold replaceBucket
      split_ifs
      · exact OrdMap.size_erase_le _ _
      · exact (OrdMap.size_insert_old _ hb).le
    | nothing _ b hu hc hb h0 => exact hu.size_eq.trans_le hle
  applied := by
    intro s s' tick n h hle hr
    exact (applyPendingToBucket_upkeep h hr).size_eq.trans_le hle

theorem Keeps.next_le {s s' : DormantStore} (h : s.Inv) (hk : s.Keeps s') :
    s.nextEventIndex ≤ s'.nextEventIndex := by
  obtain ⟨k, new, hle, hl, hg⟩ := hk.window
  have hw := h.window
  have hw' := hk.inv.window
  rw [hl, List.length_append, List.length_drop] at hw'
  omega

theorem head_kept (market : MarketParams) (d : Direction) (n : Nat) :
    Kept market (fun s => s.direction = d → n ≤ s.nextEventIndex) where
  distributed h hn hr hd := by
    rw [(distributeBy_framed hr).direction_eq] at hd
    exact (hn hd).trans ((distributeBy_keeps _ h hr).next_le h)
  joined h hn hr hd := by
    rw [(insertOrMerge_effect h hr).direction_eq] at hd
    exact (hn hd).trans ((insertOrMerge_keeps h hr).next_le h)
  redeemed h hn hr hd := by
    rw [(redeem_shifted hr).direction_eq] at hd
    exact (hn hd).trans ((redeem_keeps h hr).next_le h)
  applied h hn hr hd := by
    have hu := applyPendingToBucket_upkeep h hr
    rw [hu.direction_eq] at hd
    exact (hn hd).trans (hu.keeps.next_le h)

end DormantStore

theorem EngineOp.call_head {op : EngineOp} {w w' : World} {reply : Reply} (h : w.Inv)
    (h' : w'.Inv) (hr : op.call market w = some (.ok (w', reply))) (d : Direction) :
    (w.subPool.side d).dormant.nextEventIndex ≤ (w'.subPool.side d).dormant.nextEventIndex := by
  refine op.call_stores (DormantStore.head_kept market d _) h hr (fun e he => ?_) d (h'.sound d).2
  rw [← he, (h.sound e).2]

end MoleFinance
