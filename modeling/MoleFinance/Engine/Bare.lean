import MoleFinance.Engine.Stock
import MoleFinance.Engine.Aggregates

/-! Engine calls on a sub-pool without buckets. Nothing goes to recovery then, and a sync that
rotates no side runs the same with any other stores that have no buckets. -/
namespace MoleFinance
open MoleMath Call

/-- Empty stores of the same directions, and no rotate logs. -/
def SubPool.shell (s : SubPool) : SubPool :=
  { s with
    long := { s.long with dormant := .new .long, rotateLog := [] }
    short := { s.short with dormant := .new .short, rotateLog := [] } }

def SubPool.Bare (s : SubPool) : Prop := ∀ d, (s.side d).dormant.buckets = .empty

def Side.shell (x : Side) (d : Direction) : Side := { x with dormant := .new d, rotateLog := [] }

theorem SubPool.side_shell (s : SubPool) (d : Direction) : s.shell.side d = (s.side d).shell d := by
  cases d <;> rfl

theorem SubPool.shell_setSide (s : SubPool) (d : Direction) (x : Side) :
    (s.setSide d x).shell = s.shell.setSide d (x.shell d) := by cases d <;> rfl

theorem SubPool.shell_bare (s : SubPool) : s.shell.Bare := fun d => by cases d <;> rfl

structure Demand.Active (demand : Demand) : Prop where
  eq : demand.total = demand.active
  lt : demand.total < u128Size

theorem totalOutstandingClaimAt_bare {store : DormantStore} (h : store.buckets = .empty)
    (p : Nat) : store.totalOutstandingClaimAt p = .ok 0 := by
  unfold DormantStore.totalOutstandingClaimAt
  rw [h]
  rfl

theorem syncDemands_bare {s : SubPool} (h : s.Bare) {p : Nat} {demands : Demand × Demand}
    (hd : syncDemands s p = .ok demands) : demands.1.Active ∧ demands.2.Active := by
  have hl := totalOutstandingClaimAt_bare (h .long)
  have hs := totalOutstandingClaimAt_bare (h .short)
  simp only [SubPool.side] at hl hs
  unfold syncDemands at hd
  simp only [hl, hs, ok_bind] at hd
  obtain ⟨longPnl, -, hd⟩ := except_bind_ok.mp hd
  obtain ⟨shortPnl, -, hd⟩ := except_bind_ok.mp hd
  obtain ⟨longTotal, h1, hd⟩ := except_bind_ok.mp hd
  obtain ⟨shortTotal, h2, hd⟩ := except_bind_ok.mp hd
  cases hd
  obtain ⟨hlt1, rfl⟩ := math_add_ok.mp h1
  obtain ⟨hlt2, rfl⟩ := math_add_ok.mp h2
  exact ⟨⟨rfl, hlt1⟩, ⟨rfl, hlt2⟩⟩

theorem mulDivFloor_self_ok {a d q : Nat} (hd : d < u128Size) (h : mulDivFloor a d d = .ok q) :
    q = a := by
  rw [mulDivFloor_eq hd] at h
  split_ifs at h with h0 hlt
  have hpos : 0 < d := Nat.pos_of_ne_zero h0
  rw [Nat.mul_div_cancel _ hpos] at h
  exact (Except.ok.inj h).symm

def SubPool.SameStores (s s' : SubPool) : Prop :=
  ∀ d, (s'.side d).dormant = (s.side d).dormant ∧ (s'.side d).rotateLog = (s.side d).rotateLog

theorem SubPool.SameStores.setSide {s : SubPool} {d : Direction} {x : Side}
    (hd : x.dormant = (s.side d).dormant) (hr : x.rotateLog = (s.side d).rotateLog) :
    s.SameStores (s.setSide d x) := by
  intro e
  rw [side_setSide_eq]
  split_ifs with he
  · rw [he]
    exact ⟨hd, hr⟩
  · exact ⟨rfl, rfl⟩

theorem SubPool.SameStores.trans {s s' s'' : SubPool} (h : s.SameStores s')
    (h' : s'.SameStores s'') : s.SameStores s'' :=
  fun d => ⟨(h' d).1.trans (h d).1, (h' d).2.trans (h d).2⟩

section Sync
variable {market : MarketParams} {s s' : SubPool}

theorem transferToRecovery_none {p : Nat} (x : Side) :
    transferToRecovery market p 0 x = .ok (x, 0, 0) := rfl

theorem transferTo_bare {p : Nat} {w : Direction} {demand : Demand} {inflow : Inflow}
    (hd : demand.Active) (h : transferTo market s p w demand = .ok (s', inflow)) :
    s.SameStores s' := by
  cases transferTo_ok h with
  | inl h =>
    obtain ⟨-, rfl, -⟩ := h
    exact fun d => ⟨rfl, rfl⟩
  | inr h =>
    obtain ⟨t, a, x, -, -, ha, -, -, hx, -, rfl⟩ := h
    rw [← hd.eq] at ha
    rw [mulDivFloor_self_ok hd.lt ha, Nat.sub_self, transferToRecovery_none] at hx
    obtain ⟨rfl, -⟩ := Prod.mk.inj (Except.ok.inj hx)
    refine (SubPool.SameStores.setSide ?_ ?_).trans (.setSide ?_ ?_)
    · rfl
    · rfl
    · rw [SubPool.side_setSide_opposite]
    · rw [SubPool.side_setSide_opposite]

theorem settleDemands_bare {p : Nat} {demands : Demand × Demand} {long short : Inflow}
    (hd : demands.1.Active ∧ demands.2.Active)
    (h : settleDemands market s p demands = .ok (s', long, short)) : s.SameStores s' := by
  unfold settleDemands at h
  split_ifs at h with h1 h2
  · obtain ⟨⟨t, i⟩, ht, h⟩ := except_bind_ok.mp h
    cases h
    exact transferTo_bare hd.1 ht
  · obtain ⟨⟨t, i⟩, ht, h⟩ := except_bind_ok.mp h
    cases h
    exact transferTo_bare hd.2 ht
  · cases h
    exact fun d => ⟨rfl, rfl⟩

/-- The checks of the shell: as those of the sub-pool, but against empty stores. -/
theorem check_shell (h : checkSubpoolInvariants s = .ok ())
    (hr : ∀ d, (s.side d).recoveryShares = 0) : checkSubpoolInvariants s.shell = .ok () := by
  have hz := check_zeroIff h
  have hrec : ∀ d reason, checkRecoveryShares ((s.side d).shell d) reason = .ok () := by
    intro d reason
    have h0 : ((s.side d).shell d).dormant.totalRecoveryShares = 0 := rfl
    rw [checkRecoveryShares, h0, ensure_of (show 0 < u128Size by norm_num [u128Size]), ok_bind]
    exact ensure_of (hr d).symm _
  have hzero : ∀ d reason, checkZeroIff ((s.side d).shell d) reason = .ok () :=
    fun d reason => ensure_of (hz d) _
  have hstore : ∀ d, (DormantStore.new d).checkInvariants = .ok () := fun d => rfl
  change (checkZeroIff ((s.side .long).shell .long) _ >>= fun _ =>
    checkZeroIff ((s.side .short).shell .short) _ >>= fun _ =>
    checkRecoveryShares ((s.side .long).shell .long) _ >>= fun _ =>
    checkRecoveryShares ((s.side .short).shell .short) _ >>= fun _ =>
    (DormantStore.new .long).checkInvariants >>= fun _ =>
    (DormantStore.new .short).checkInvariants) = .ok ()
  rw [hzero, ok_bind, hzero, ok_bind, hrec, ok_bind, hrec, ok_bind, hstore, ok_bind, hstore]

theorem syncDemands_shell (hb : s.Bare) (p : Nat) : syncDemands s.shell p = syncDemands s p := by
  have hold := fun d q => totalOutstandingClaimAt_bare (hb d) q
  have hnew := fun d q => totalOutstandingClaimAt_bare (s.shell_bare d) q
  have hl := hold .long
  have hs := hold .short
  have hl' := hnew .long
  have hs' := hnew .short
  simp only [SubPool.side] at hl hs hl' hs'
  unfold syncDemands
  simp only [hl, hs, hl', hs']
  rfl

theorem transferTo_shell {p : Nat} {w : Direction} {demand : Demand} {inflow : Inflow}
    (hd : demand.Active) (h : transferTo market s p w demand = .ok (s', inflow)) :
    transferTo market s.shell p w demand = .ok (s'.shell, inflow) := by
  unfold transferTo at h ⊢
  simp only [SubPool.side_shell, Side.shell] at h ⊢
  by_cases ht : min demand.total (s.side w.opposite).poolEquity = 0
  · rw [if_pos ht] at h ⊢
    cases h
    rfl
  rw [if_neg ht] at h ⊢
  obtain ⟨a, ha, h⟩ := except_bind_ok.mp h
  obtain ⟨rec, hrec, h⟩ := except_bind_ok.mp h
  obtain ⟨eq, heq, h⟩ := except_bind_ok.mp h
  obtain ⟨leq, hleq, h⟩ := except_bind_ok.mp h
  have hall := math_ok.mp ha
  rw [← hd.eq] at hall
  have hnone : rec = 0 := by
    rw [(math_sub_ok.mp hrec).2, mulDivFloor_self_ok hd.lt hall, Nat.sub_self]
  subst hnone
  rw [transferToRecovery_none, ok_bind] at h
  cases h
  rw [ha, ok_bind, hrec, ok_bind, heq, ok_bind, hleq, ok_bind, transferToRecovery_none, ok_bind,
    SubPool.shell_setSide, SubPool.shell_setSide]
  rfl

theorem settleDemands_shell {p : Nat} {demands : Demand × Demand} {long short : Inflow}
    (hd : demands.1.Active ∧ demands.2.Active)
    (h : settleDemands market s p demands = .ok (s', long, short)) :
    settleDemands market s.shell p demands = .ok (s'.shell, long, short) := by
  unfold settleDemands at h ⊢
  split_ifs at h ⊢ with h1 h2
  · obtain ⟨⟨t, i⟩, ht, h⟩ := except_bind_ok.mp h
    cases h
    rw [transferTo_shell hd.1 ht, ok_bind]
    rfl
  · obtain ⟨⟨t, i⟩, ht, h⟩ := except_bind_ok.mp h
    cases h
    rw [transferTo_shell hd.2 ht, ok_bind]
    rfl
  · cases h
    rfl

theorem rotateIfDrained_still {envelope : PriceEnvelope} {d : Direction}
    {ev : Option ActiveRotatedToRecoveryEvent}
    (h : rotateIfDrained market s envelope d = .ok (s', ev))
    (hr : (s'.side d).recoveryShares = 0) :
    s' = s ∧ ev = none ∧ rotateIfDrained market s.shell envelope d = .ok (s.shell, none) := by
  cases rotateIfDrained_ok h with
  | inl h =>
    obtain ⟨hc, rfl, rfl⟩ := h
    refine ⟨rfl, rfl, ?_⟩
    unfold rotateIfDrained
    simp only [SubPool.side_shell, Side.shell]
    rw [if_neg hc]
    rfl
  | inr h =>
    obtain ⟨-, hpos, x, ⟨tick, dormant, -, -, -, -, rfl⟩, rfl⟩ := h
    rw [SubPool.side_setSide] at hr
    simp only at hr
    omega

theorem atPrice_shell (s : SubPool) (envelope : PriceEnvelope) :
    (s.atPrice envelope).shell = s.shell.atPrice envelope := rfl

/-- A sync without buckets that rotates nothing leaves the stores alone, and gives the same on
    the shell. -/
theorem syncPool_shell {envelope : PriceEnvelope} {out : SyncOutcome} (hb : s.Bare)
    (hr' : ∀ d, (s'.side d).recoveryShares = 0)
    (h : syncPool market s envelope = .ok (s', out)) :
    s.SameStores s' ∧ syncPool market s.shell envelope = .ok (s'.shell, out) := by
  unfold syncPool at h ⊢
  obtain ⟨_, hg, h⟩ := except_bind_ok.mp h
  rw [hg, ok_bind]
  change (if s.lastPrice = 0 then _ else _) = _ at h
  by_cases h0 : s.lastPrice = 0
  · rw [if_pos h0] at h
    obtain ⟨_, hc, h⟩ := except_bind_ok.mp h
    cases h
    refine ⟨fun d => by rw [s.side_atPrice]; exact ⟨rfl, rfl⟩, ?_⟩
    rw [if_pos (show s.shell.lastPrice = 0 from h0), ← atPrice_shell, check_shell hc hr', ok_bind]
    rfl
  rw [if_neg h0] at h
  rw [if_neg (show ¬ s.shell.lastPrice = 0 from h0)]
  by_cases hp : envelope.pNow = s.lastPrice
  · rw [if_pos hp] at h
    obtain ⟨_, hc, h⟩ := except_bind_ok.mp h
    cases h
    refine ⟨fun d => by cases d <;> exact ⟨rfl, rfl⟩, ?_⟩
    have hc' := check_shell hc hr'
    rw [if_pos (show envelope.pNow = s.shell.lastPrice from hp)]
    exact except_bind_ok.mpr ⟨(), hc', rfl⟩
  rw [if_neg hp] at h
  rw [if_neg (show ¬ envelope.pNow = s.shell.lastPrice from hp)]
  unfold movePrice at h ⊢
  obtain ⟨bps, hbps, h⟩ := except_bind_ok.mp h
  obtain ⟨_, hmax, h⟩ := except_bind_ok.mp h
  obtain ⟨demands, hdem, h⟩ := except_bind_ok.mp h
  obtain ⟨⟨s1, long, short⟩, hset, h⟩ := except_bind_ok.mp h
  obtain ⟨⟨s2, lr⟩, hl, h⟩ := except_bind_ok.mp h
  obtain ⟨⟨s3, sr⟩, hsh, h⟩ := except_bind_ok.mp h
  obtain ⟨_, hc, h⟩ := except_bind_ok.mp h
  cases h
  obtain ⟨rfl, rfl, hsh'⟩ := rotateIfDrained_still hsh (hr' .short)
  obtain ⟨rfl, rfl, hl'⟩ := rotateIfDrained_still hl (hr' .long)
  have hactive := syncDemands_bare hb hdem
  have hkept := settleDemands_bare hactive hset
  refine ⟨fun d => by rw [s1.side_atPrice]; exact hkept d, ?_⟩
  rw [show s.shell.lastPrice = s.lastPrice from rfl, hbps, ok_bind, hmax, ok_bind,
    syncDemands_shell hb, hdem, ok_bind, settleDemands_shell hactive hset, ok_bind]
  simp only
  rw [← atPrice_shell, hl', ok_bind]
  simp only
  rw [hsh', ok_bind]
  simp only
  rw [check_shell hc hr', ok_bind]
  rfl

theorem openPosition_shell {envelope : PriceEnvelope} {d : Direction} {gross id : Nat}
    {p : Position} {out : OpenOutcome} (hb : s.Bare)
    (hr' : ∀ e, (s'.side e).recoveryShares = 0)
    (h : openPosition market s envelope d gross id = .ok (s', p, out)) :
    s.SameStores s' ∧
      openPosition market s.shell envelope d gross id = .ok (s'.shell, p, out) := by
  unfold openPosition at h ⊢
  obtain ⟨_, hsch, h⟩ := except_bind_ok.mp h
  obtain ⟨_, hfrozen, h⟩ := except_bind_ok.mp h
  obtain ⟨⟨s1, sync⟩, hsync, h⟩ := except_bind_ok.mp h
  obtain ⟨⟨fee, principal⟩, hfee, h⟩ := except_bind_ok.mp h
  obtain ⟨⟨shares, acc, dust⟩, hmint, h⟩ := except_bind_ok.mp h
  obtain ⟨n, hn, h⟩ := except_bind_ok.mp h
  obtain ⟨eq, heq, h⟩ := except_bind_ok.mp h
  obtain ⟨sh, hsh, h⟩ := except_bind_ok.mp h
  obtain ⟨no, hno, h⟩ := except_bind_ok.mp h
  obtain ⟨du, hdu, h⟩ := except_bind_ok.mp h
  obtain ⟨_, hc, h⟩ := except_bind_ok.mp h
  cases h
  have hr1 : ∀ e, (s1.side e).recoveryShares = 0 := by
    intro e
    have he := hr' e
    rw [SubPool.side_setSide_eq] at he
    split_ifs at he with hd
    · rw [hd]
      exact he
    · exact he
  obtain ⟨hkept, hsync'⟩ := syncPool_shell hb hr1 hsync
  refine ⟨hkept.trans (.setSide rfl rfl), ?_⟩
  have hmint' : mintShares market (s1.shell.side d) principal = .ok (shares, acc, dust) := by
    rw [s1.side_shell]
    exact hmint
  rw [hsch, ok_bind, hfrozen, ok_bind, hsync', ok_bind]
  simp only
  rw [hfee, ok_bind]
  simp only
  rw [hmint', ok_bind]
  simp only [SubPool.side_shell, Side.shell]
  rw [hn, ok_bind, heq, ok_bind, hsh, ok_bind, hno, ok_bind, hdu, ok_bind]
  have hc' := check_shell hc hr'
  rw [SubPool.shell_setSide] at hc' ⊢
  refine except_bind_ok.mpr ⟨(), hc', ?_⟩
  simp only [SubPool.setSide_subPoolId]
  rfl

theorem harvestDust_shell {d : Direction} {out : HarvestOutcome}
    (hr : ∀ e, (s.side e).recoveryShares = 0)
    (h : harvestDust market s d = .ok (s', out)) :
    s.SameStores s' ∧ harvestDust market s.shell d = .ok (s'.shell, out) := by
  unfold harvestDust at h ⊢
  obtain ⟨_, hsch, h⟩ := except_bind_ok.mp h
  obtain ⟨_, hp, h⟩ := except_bind_ok.mp h
  obtain ⟨_, hc, h⟩ := except_bind_ok.mp h
  cases h
  refine ⟨.setSide rfl rfl, ?_⟩
  have hr' : ∀ e, ((s.setSide d { s.side d with dust := 0 }).side e).recoveryShares = 0 := by
    intro e
    rw [SubPool.side_setSide_eq]
    split_ifs
    · exact hr d
    · exact hr e
  have hc' := check_shell hc hr'
  rw [hsch, ok_bind, hp, ok_bind, SubPool.side_shell]
  rw [SubPool.shell_setSide] at hc' ⊢
  refine except_bind_ok.mpr ⟨(), hc', ?_⟩
  simp only [SubPool.setSide_subPoolId]
  rfl

end Sync

end MoleFinance
