import MoleFinance.Dormant.Pending

/-! What a successful store call does to the aggregates of a store: its funds, the shares and
notional its buckets hold, and the allocations in the ledger window. -/
namespace MoleFinance
open MoleMath Call

structure Holding where
  shares : Nat
  notional : Nat
deriving DecidableEq

def DormantBucket.holding (b : DormantBucket) : Holding :=
  ⟨b.totalRecoveryShares, b.totalRecoveryNotional⟩

abbrev Holdings := OrdMap Int Holding

namespace Holdings

def total (m : Holdings) : Nat := m.sum (fun _ h => h.shares)

def sharesAt (m : Holdings) (tick : Int) : Nat := ((m.get? tick).map Holding.shares).getD 0

theorem sharesAt_some {m : Holdings} {tick : Int} {h : Holding} (hg : m.get? tick = some h) :
    m.sharesAt tick = h.shares := by simp [sharesAt, hg]

theorem sharesAt_none {m : Holdings} {tick : Int} (hg : m.get? tick = none) :
    m.sharesAt tick = 0 := by simp [sharesAt, hg]

theorem sharesAt_le_total (m : Holdings) (tick : Int) : m.sharesAt tick ≤ m.total := by
  cases hg : m.get? tick with
  | none => simp [sharesAt_none hg]
  | some h =>
    rw [sharesAt_some hg]
    exact OrdMap.le_sum (fun _ (h : Holding) => h.shares) hg

def join (m : Holdings) (tick : Int) (shares notional : Nat) : Holdings :=
  match m.get? tick with
  | none => m.insert tick ⟨shares, notional⟩
  | some h => m.insert tick ⟨h.shares + shares, h.notional + notional⟩

theorem sharesAt_join (m : Holdings) (tick j : Int) (shares notional : Nat) :
    (m.join tick shares notional).sharesAt j
      = m.sharesAt j + if j = tick then shares else 0 := by
  unfold join
  cases hg : m.get? tick with
  | none =>
    simp only [sharesAt, OrdMap.get?_insert]
    split_ifs with hj
    · simp [hj, hg]
    · rfl
  | some h =>
    simp only [sharesAt, OrdMap.get?_insert]
    split_ifs with hj
    · simp [hj, hg]
    · rfl

theorem total_join (m : Holdings) (tick : Int) (shares notional : Nat) :
    (m.join tick shares notional).total = m.total + shares := by
  unfold join total
  cases hg : m.get? tick with
  | none => exact OrdMap.sum_insert_new _ _ hg
  | some h =>
    have := OrdMap.sum_insert_old (fun _ h => h.shares)
      (⟨h.shares + shares, h.notional + notional⟩ : Holding) hg
    simp only at this ⊢
    omega

/-- Shares and notional leave a bucket, which is removed with its last share. -/
def leave (m : Holdings) (tick : Int) (shares notional : Nat) : Holdings :=
  match m.get? tick with
  | none => m
  | some h =>
    if h.shares = shares then m.erase tick
    else m.insert tick ⟨h.shares - shares, h.notional - notional⟩

theorem leave_last {m : Holdings} {tick : Int} {h : Holding} (hg : m.get? tick = some h)
    (notional : Nat) : m.leave tick h.shares notional = m.erase tick := by
  simp [leave, hg]

theorem leave_part {m : Holdings} {tick : Int} {h : Holding} (hg : m.get? tick = some h)
    {shares : Nat} (hs : h.shares ≠ shares) (notional : Nat) :
    m.leave tick shares notional
      = m.insert tick ⟨h.shares - shares, h.notional - notional⟩ := by
  simp [leave, hg, hs]

theorem sharesAt_leave (m : Holdings) (tick j : Int) (shares notional : Nat) :
    (m.leave tick shares notional).sharesAt j
      = m.sharesAt j - if j = tick then shares else 0 := by
  unfold leave
  cases hg : m.get? tick with
  | none =>
    simp only
    split_ifs with hj
    · simp [hj, sharesAt_none hg]
    · rfl
  | some h =>
    simp only
    split_ifs with hs hj hj
    · simp [sharesAt, OrdMap.get?_erase, hj, hg, hs]
    · simp [sharesAt, OrdMap.get?_erase, hj]
    · simp [sharesAt, hj, hg]
    · simp [sharesAt, OrdMap.get?_insert, hj]

theorem total_leave {m : Holdings} {tick : Int} {shares : Nat} (notional : Nat)
    (hle : shares ≤ m.sharesAt tick) :
    (m.leave tick shares notional).total + shares = m.total := by
  unfold leave total
  cases hg : m.get? tick with
  | none =>
    rw [sharesAt_none hg] at hle
    simp only
    omega
  | some h =>
    rw [sharesAt_some hg] at hle
    simp only
    split_ifs with hs
    · rw [← hs]
      exact OrdMap.sum_erase (fun _ h => h.shares) hg
    · have := OrdMap.sum_insert_old (fun _ h => h.shares)
        (⟨h.shares - shares, h.notional - notional⟩ : Holding) hg
      simp only at this
      omega

/-- Every bucket holds shares, and its notional fits the word. -/
def Stocked (m : Holdings) : Prop :=
  ∀ tick h, m.get? tick = some h → 0 < h.shares ∧ h.notional < u128Size

theorem stocked_join {m : Holdings} (hm : m.Stocked) {tick : Int} {shares notional : Nat}
    (hs : 0 < shares) (hn : ∀ h, (m.join tick shares notional).get? tick = some h →
      h.notional < u128Size) : (m.join tick shares notional).Stocked := by
  intro j h hj
  by_cases hjt : j = tick
  · subst hjt
    refine ⟨?_, hn h hj⟩
    have := sharesAt_join m j j shares notional
    rw [sharesAt_some hj, if_pos rfl] at this
    omega
  · have hold : m.get? j = some h := by
      unfold join at hj
      cases hg : m.get? tick with
      | none => simpa [hg, OrdMap.get?_insert, hjt] using hj
      | some h' => simpa [hg, OrdMap.get?_insert, hjt] using hj
    exact hm j h hold

theorem stocked_leave {m : Holdings} (hm : m.Stocked) {tick : Int} {shares : Nat}
    (notional : Nat) (hle : shares ≤ m.sharesAt tick) :
    (m.leave tick shares notional).Stocked := by
  intro j h hj
  unfold leave at hj
  cases hg : m.get? tick with
  | none =>
    simp only [hg] at hj
    exact hm j h hj
  | some h0 =>
    rw [sharesAt_some hg] at hle
    simp only [hg] at hj
    split_ifs at hj with hs
    · rw [OrdMap.get?_erase] at hj
      split_ifs at hj
      exact hm j h hj
    · rw [OrdMap.get?_insert] at hj
      split_ifs at hj
      · cases hj
        have := hm tick h0 hg
        simp only
        omega
      · exact hm j h hj

end Holdings

namespace DormantStore

def holdings (s : DormantStore) : Holdings := s.buckets.mapVal (fun _ b => b.holding)

def funds (s : DormantStore) : Nat := s.accruedValueTotal + s.pendingDistributionTotal

def window (s : DormantStore) : Nat := windowAlloc s.ledger

theorem totalRecoveryShares_eq (s : DormantStore) : s.totalRecoveryShares = s.holdings.total :=
  (OrdMap.sum_mapVal (fun _ (h : Holding) => h.shares) (fun _ (b : DormantBucket) => b.holding)
    s.buckets).symm

theorem holdings_get? (s : DormantStore) (tick : Int) :
    s.holdings.get? tick = (s.buckets.get? tick).map DormantBucket.holding :=
  OrdMap.get?_mapVal _ _ _

theorem windowAlloc_drop_le (ledger : List DistEntry) (k : Nat) :
    windowAlloc (ledger.drop k) ≤ windowAlloc ledger := by
  have h := congrArg windowAlloc (List.take_append_drop k ledger)
  simp only [windowAlloc, List.map_append, List.sum_append] at h ⊢
  omega

theorem Upkeep.holdings_eq {s s' : DormantStore} (h : s.Upkeep s') : s'.holdings = s.holdings := by
  have hv := congrArg (fun m : BucketMap => m.mapVal (fun _ b => b.holding)) h.view_eq
  have hh : ∀ t : DormantStore, t.view.mapVal (fun _ b => b.holding) = t.holdings := by
    intro t
    apply OrdMap.ext_get?
    intro k
    simp only [view, holdings, OrdMap.get?_mapVal, Option.map_map]
    rfl
  simpa only [hh] using hv

theorem Upkeep.window_le {s s' : DormantStore} (h : s.Upkeep s') : s'.window ≤ s.window := by
  obtain ⟨k, -, hl, -⟩ := h.dropped
  rw [window, hl]
  exact windowAlloc_drop_le s.ledger k

theorem Upkeep.funds_same {s s' : DormantStore} (h : s.Upkeep s') : s'.funds = s.funds :=
  h.funds_eq

structure Credited (s s' : DormantStore) (amount : Nat) (r : DistributionReceipt) : Prop where
  inv : s'.Inv
  direction_eq : s'.direction = s.direction
  holdings_eq : s'.holdings = s.holdings
  split : r.allocated + r.residual = amount
  funds_eq : s'.funds = s.funds + r.allocated
  window_le : s'.window ≤ s.window + r.allocated

theorem distributeBy_effect {mode : DistributeMode} {s s' : DormantStore} {p a m : Nat}
    {r : DistributionReceipt} (h : s.Inv) (hr : distributeBy mode p a m s = .ok r s') :
    s.Credited s' a r := by
  have hd := distributeBy_cases h mode p a m
  rw [hr] at hd
  cases hd with
  | idle _ hu _ =>
    exact ⟨hu.inv, hu.direction_eq, hu.holdings_eq, Nat.zero_add a, hu.funds_same, hu.window_le⟩
  | recorded s1 t total ha ht hrec =>
    have hu := hrec.upkeep
    have hev := hrec.event
    have hup := recordBy_upkeep mode hu.inv hev
    have hl : (s1.recordLazy (s1.entryOf p a t total)).window = s1.window + total := by
      simp [window, recordLazy, windowAlloc, entryOf]
    have hf : (s1.recordLazy (s1.entryOf p a t total)).funds = s1.funds + total :=
      (Nat.add_assoc _ _ _).symm
    refine ⟨hup.inv, hup.direction_eq.trans hu.direction_eq,
      hup.holdings_eq.trans hu.holdings_eq, Nat.add_sub_cancel' hrec.le, ?_, ?_⟩
    · rw [hup.funds_same, hf, hu.funds_same]
    · have h1 := hup.window_le
      have h2 := hu.window_le
      simp only at h1 h2 ⊢
      omega

structure Joined (s s' : DormantStore) (tick : Int) (shares notional : Nat) : Prop where
  inv : s'.Inv
  direction_eq : s'.direction = s.direction
  holdings_eq : s'.holdings = s.holdings.join tick shares notional
  notional_lt : notional < u128Size →
    ∀ h, s'.holdings.get? tick = some h → h.notional < u128Size
  funds_eq : s'.funds = s.funds
  window_le : s'.window ≤ s.window

theorem insertOrMerge_effect {s s' : DormantStore} {tick : Int} {anchor shares notional count
    cap : Nat} {u : Unit} (h : s.Inv)
    (hr : insertOrMerge tick anchor shares notional count cap s = .ok u s') :
    s.Joined s' tick shares notional := by
  have hk := insertOrMerge_keeps h hr
  have hd := insertOrMerge_cases h tick anchor shares notional count cap
  rw [hr] at hd
  cases hd with
  | merged s1 b b' hu hc hb hm =>
    obtain ⟨-, hn, -, rfl⟩ := mergeBucket_ok hm
    have hg : s1.holdings.get? tick = some b.holding := by rw [holdings_get?, hb]; rfl
    refine ⟨hk.inv, hu.direction_eq, ?_, ?_, hu.funds_same, hu.window_le⟩
    · have hset : ∀ b'', (s1.setBucket tick b'').holdings = s1.holdings.insert tick b''.holding :=
        fun b'' => OrdMap.mapVal_insert _ _ _ _
      rw [hset, ← hu.holdings_eq, Holdings.join, hg]
      rfl
    · intro _ x hx
      rw [holdings_get?] at hx
      simp only [setBucket, OrdMap.get?_insert_self, Option.map_some, Option.some.injEq] at hx
      rw [← hx]
      exact hn
  | inserted hb hcap =>
    have hg : s.holdings.get? tick = none := by rw [holdings_get?, hb]; rfl
    refine ⟨hk.inv, rfl, ?_, ?_, rfl, le_rfl⟩
    · rw [Holdings.join, hg]
      exact OrdMap.mapVal_insert _ _ _ _
    · intro hn x hx
      rw [holdings_get?] at hx
      simp only [setBucket, OrdMap.get?_insert_self, Option.map_some, Option.some.injEq] at hx
      rw [← hx]
      exact hn

structure Released (s s' : DormantStore) (tick : Int) (shares : Nat) (r : RedeemReceipt) :
    Prop where
  inv : s'.Inv
  direction_eq : s'.direction = s.direction
  burned_eq : r.burnedShares = shares
  shares_le : shares ≤ s.holdings.sharesAt tick
  holdings_eq : s.totalRecoveryShares < u128Size →
    s'.holdings = s.holdings.leave tick shares r.burnedNotional
  funds_eq : s'.funds + r.redeemable = s.funds
  window_le : s'.window ≤ s.window

theorem redeem_effect {s s' : DormantStore} {tick : Int} {shares : Nat} {r : RedeemReceipt}
    (h : s.Inv) (h0 : shares ≠ 0) (hr : redeem tick shares s = .ok r s') :
    s.Released s' tick shares r := by
  have hk := redeem_keeps h hr
  have hd := redeem_cases h tick shares
  rw [hr] at hd
  cases hd with
  | nothing _ b hu hc hb hz => exact absurd hz h0
  | burned s1 b b' _ hu hc hb _ hle hm =>
    obtain ⟨hv, -, hbs, hred, -, -, rfl⟩ := burnShares_ok hm
    have hg : s1.holdings.get? tick = some b.holding := by rw [holdings_get?, hb]; rfl
    have hg' : s.holdings.get? tick = some b.holding := by rw [← hu.holdings_eq, hg]
    have hacc := hu.inv.accrued_le hb
    refine ⟨hk.inv, hu.direction_eq, hbs, ?_, ?_, ?_, hu.window_le⟩
    · rw [Holdings.sharesAt_some hg']
      exact hle
    · intro ht
      rw [← hu.holdings_eq]
      simp only [holdings, replaceBucket]
      by_cases hs : b.totalRecoveryShares = shares
      · -- the last shares take all the funds
        have hsl : b.totalRecoveryShares < u128Size := by
          have h1 := Holdings.sharesAt_le_total s.holdings tick
          rw [Holdings.sharesAt_some hg', ← totalRecoveryShares_eq] at h1
          exact h1.trans_lt ht
        have hpos : 0 < b.totalRecoveryShares := by omega
        rw [← hs, mulDivFloor_eq hsl, if_neg hpos.ne', Nat.mul_div_cancel _ hpos] at hv
        split_ifs at hv
        have hvr : b.accruedValue = r.redeemable := Except.ok.inj hv
        rw [if_pos ⟨by omega, by omega⟩, ← hs]
        exact (OrdMap.mapVal_erase _ _ _).trans (Holdings.leave_last hg _).symm
      · have hne : ¬ (b.totalRecoveryShares - shares = 0 ∧ b.accruedValue - r.redeemable = 0) := by
          omega
        rw [if_neg hne]
        exact (OrdMap.mapVal_insert _ _ _ _).trans (Holdings.leave_part hg hs _).symm
    · have hfu := hu.funds_same
      unfold funds at hfu ⊢
      simp only
      omega

theorem redeem_of {s : DormantStore} {tick : Int} {shares : Nat} (h : s.Inv) (hf : s.Bounded)
    (ht : s.totalRecoveryShares < u128Size) (hst : s.holdings.Stocked) (h0 : shares ≠ 0)
    (hle : shares ≤ s.holdings.sharesAt tick) : ∃ r s', redeem tick shares s = .ok r s' := by
  have hd := redeem_cases h tick shares
  have hhold : ∀ {s1 : DormantStore} {b : DormantBucket}, s.Upkeep s1 →
      s1.buckets.get? tick = some b → s.holdings.get? tick = some b.holding := by
    intro s1 b hu hb
    rw [← hu.holdings_eq, holdings_get?, hb]
    rfl
  cases hr : redeem tick shares s with
  | ok r s' => exact ⟨r, s', rfl⟩
  | error e s' =>
    rw [hr] at hd
    cases hd with
    | missing hb =>
      have hg : s.holdings.get? tick = none := by rw [holdings_get?, hb]; rfl
      rw [Holdings.sharesAt_none hg] at hle
      omega
    | exceeds _ b hu hc hb hz hlt =>
      rw [Holdings.sharesAt_some (hhold hu hb)] at hle
      exact absurd hle (by simpa [DormantBucket.holding] using hlt)
    | failed _ b _ hu hc hb hz hle' hm =>
      exfalso
      have hg := hhold hu hb
      have hsl : b.totalRecoveryShares < u128Size := by
        have h1 := Holdings.sharesAt_le_total s.holdings tick
        rw [Holdings.sharesAt_some hg, ← totalRecoveryShares_eq] at h1
        exact h1.trans_lt ht
      have hal : b.accruedValue < u128Size := by
        have h2 := hu.bounded.mpr hf
        have h3 := hu.inv.accrued_le hb
        unfold Bounded at h2
        omega
      have hnl : b.totalRecoveryNotional < u128Size := (hst tick _ hg).2
      have hpos : 0 < b.totalRecoveryShares := by omega
      have hdiv : ∀ a, a * shares / b.totalRecoveryShares ≤ a := by
        intro a
        rw [Nat.div_le_iff_le_mul_add_pred hpos]
        nlinarith
      rw [burnShares, mulDivFloor_le hsl hle' hpos hal, math_ok_eq, ok_bind,
        mulDivFloor_le hsl hle' hpos hnl, math_ok_eq, ok_bind, math_sub_of (hdiv _), ok_bind,
        math_sub_of hle', ok_bind, math_sub_of (hdiv _), ok_bind] at hm
      cases hm
    | tooMuch _ hb => exact absurd hf hb

end DormantStore
end MoleFinance
