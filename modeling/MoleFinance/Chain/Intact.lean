import MoleFinance.Chain.Invariant

/-! Every state the program reaches is sane: each sub-pool without a gap is intact, and a
bridged call needs a sub-pool without one. -/
namespace MoleFinance
open MoleMath Call

/-- The sub-pool of an account and two stores, as a bridged call puts it together. -/
def SubPoolAccount.withStores (s : SubPoolAccount) (long short : DormantStore) : SubPool :=
  { clearingView s with
    long := { (clearingView s).long with dormant := long }
    short := { (clearingView s).short with dormant := short } }

def SubPool.unlogged (s : SubPool) : SubPool :=
  { s with
    long := { s.long with rotateLog := [] }
    short := { s.short with rotateLog := [] } }

theorem SubPool.side_unlogged (s : SubPool) (d : Direction) :
    s.unlogged.side d = { s.side d with rotateLog := [] } := by cases d <;> rfl

theorem withStores_applyClearingView {a : SubPoolAccount} {view : SubPool}
    (h : view.subPoolId = a.subPoolId) :
    (applyClearingView a view).withStores view.long.dormant view.short.dormant
      = view.unlogged := by
  cases a
  cases view
  cases h
  rfl

theorem SubPoolAccount.side_withStores (s : SubPoolAccount) (long short : DormantStore)
    (d : Direction) : ((s.withStores long short).side d).recoveryShares
      = (s.side d).recoveryShares := by cases d <;> rfl

theorem SubPoolAccount.side_apply (s : SubPoolAccount) (view : SubPool) (d : Direction) :
    (applyClearingView s view).side d = .apply (view.side d) := by cases d <;> rfl

theorem Program.hydrate_ok {account : SubPoolAccount} {long short : BridgedSide} {view : SubPool}
    (h : hydrate account long short = .ok view) :
    view = account.withStores (view.side .long).dormant (view.side .short).dormant := by
  unfold hydrate at h
  obtain ⟨_, -, h⟩ := except_bind_ok.mp h
  obtain ⟨_, -, h⟩ := except_bind_ok.mp h
  cases h
  rfl

/-- The checks of a returned call, on a sound sub-pool with stocked buckets. -/
theorem produced_of_checked {s : SubPool} (hs : s.Sound) (hst : s.Stocked)
    (hc : checkSubpoolInvariants s = .ok ()) (d : Direction) : (s.side d).dormant.Produced := by
  have hstore : (s.side d).dormant.checkInvariants = .ok () := by
    unfold checkSubpoolInvariants at hc
    obtain ⟨_, -, hc⟩ := except_bind_ok.mp hc
    obtain ⟨_, -, hc⟩ := except_bind_ok.mp hc
    obtain ⟨_, -, hc⟩ := except_bind_ok.mp hc
    obtain ⟨_, -, hc⟩ := except_bind_ok.mp hc
    obtain ⟨_, hl, hsh⟩ := except_bind_ok.mp hc
    cases d with
    | long => exact hl
    | short => exact hsh
  rw [DormantStore.checkInvariants_eq (hs d).1] at hstore
  split_ifs at hstore with hb
  exact ⟨(hs d).1, (hst d).buckets, hb.1, hb.2⟩

namespace DormantAccounts
variable {x : DormantAccounts} {key : Pubkey} {d : Direction} {maxEntries : U32}
  {store : DormantStore}

theorem live_without {tick : Int}
    (h : ∀ b, x.buckets.get? tick = some b → recordIsDead b = true) :
    ((x.buckets.entries.filter (fun e => e.1 ≠ tick)).map Prod.snd).filter
      (fun b => !recordIsDead b) = x.live := by
  have hdead : ∀ e ∈ x.buckets.entries, e.1 = tick → recordIsDead e.2 = true :=
    fun e he ht => h e.2 (ht ▸ OrdMap.get?_eq_some.mpr he)
  unfold live OrdMap.values
  generalize x.buckets.entries = es at hdead
  induction es with
  | nil => rfl
  | cons e es ih =>
    have ih := ih fun a ha => hdead a (List.mem_cons_of_mem e ha)
    by_cases ht : e.1 = tick
    · have hd := hdead e List.mem_cons_self ht
      rw [List.filter_cons_of_neg (by simp [ht]), List.map_cons,
        List.filter_cons_of_neg (by simp [hd]), ih]
    · rw [List.filter_cons_of_pos (by simp [ht]), List.map_cons, List.map_cons, List.filter_cons,
        List.filter_cons, ih]

theorem live_erase {tick : Int}
    (h : ∀ b, x.buckets.get? tick = some b → recordIsDead b = true) :
    live ⟨x.ledger, x.buckets.erase tick⟩ = x.live := live_without h

theorem live_insert {tick : Int} {b : BucketAccount} (hb : recordIsDead b = true)
    (h : x.buckets.get? tick = .none) :
    (live ⟨x.ledger, x.buckets.insert tick b⟩).Perm x.live := by
  have hp : (x.buckets.insertAll [(tick, b)]).entries.Perm _ :=
    OrdMap.entries_insertAll_perm (List.nodup_singleton tick)
  have hp := (hp.map Prod.snd).filter (fun b => !recordIsDead b)
  have hdrop : (([(tick, b)] ++ x.buckets.entries.filter
      (fun e => e.1 ∉ [(tick, b)].map Prod.fst)).map Prod.snd).filter (fun b => !recordIsDead b)
        = x.live := by
    rw [List.singleton_append, List.map_cons, List.filter_cons_of_neg (by simp [hb])]
    have hrest := live_without (x := x) fun c hc => by
      rw [h] at hc
      cases hc
    rw [← hrest]
    simp only [List.map_cons, List.map_nil, List.mem_singleton]
  rw [hdrop] at hp
  exact hp

theorem Holds.of_same {x' : DormantAccounts} (h : x.Holds key d maxEntries store)
    (hl : x'.live.Perm x.live)
    (he : x'.ledgerOrEmpty key d maxEntries = x.ledgerOrEmpty key d maxEntries) :
    x'.Holds key d maxEntries store :=
  ⟨h.produced, h.direction_eq, (hl.map _).trans h.records, h.length_le, he ▸ h.ledger⟩

theorem shares_of_live {x' : DormantAccounts} (hl : x'.live.Perm x.live) :
    x'.shares = x.shares := by
  rw [x'.shares_eq, x.shares_eq, (hl.map _).sum_nat]

end DormantAccounts

theorem Arranged.dormant {maxEntries : U32} {s s' : SubPoolState} (h : Arranged maxEntries s s')
    (ha : ∀ d, (s.dormant d).Addressed s.account.key d maxEntries) (d : Direction) :
    (s'.dormant d).Addressed s.account.key d maxEntries ∧
      (s'.dormant d).live.Perm (s.dormant d).live ∧
      (s'.dormant d).ledgerOrEmpty s.account.key d maxEntries
        = (s.dormant d).ledgerOrEmpty s.account.key d maxEntries := by
  cases h with
  | ledger e hnone =>
    rw [SubPoolState.setLedger, SubPoolState.dormant_setDormant]
    split_ifs with he
    · subst he
      refine ⟨⟨?_, (ha d).bucket, (ha d).stocked⟩, .refl _, ?_⟩
      · rintro l ⟨⟩
        exact ⟨rfl, rfl, rfl⟩
      · rw [DormantAccounts.ledgerOrEmpty, DormantAccounts.ledgerOrEmpty, hnone]
        rfl
    · exact ⟨ha d, .refl _, rfl⟩
  | bucket e tick hnone =>
    simp only [SubPoolState.setBucket, BucketAccount.init, Direction.isLong_ofIsLong]
    rw [SubPoolState.dormant_setDormant]
    split_ifs with he
    · subst he
      refine ⟨⟨(ha d).ledger, fun t b hb => ?_, fun t b hb hlive => ?_⟩,
        DormantAccounts.live_insert rfl hnone, rfl⟩
      · rw [OrdMap.get?_insert] at hb
        split_ifs at hb with ht
        · cases hb
          exact ⟨by rw [ht], rfl, rfl⟩
        · exact (ha d).bucket t b hb
      · rw [OrdMap.get?_insert] at hb
        split_ifs at hb with ht
        · cases hb
          cases hlive
        · exact (ha d).stocked t b hb hlive
    · exact ⟨ha d, .refl _, rfl⟩
  | closed e tick b hget hdead =>
    rw [SubPoolState.dormant_setDormant]
    split_ifs with he
    · subst he
      refine ⟨⟨(ha d).ledger, fun t c hc => ?_, fun t c hc hlive => ?_⟩, List.Perm.of_eq ?_, rfl⟩
      · rw [OrdMap.get?_erase] at hc
        split_ifs at hc
        exact (ha d).bucket t c hc
      · rw [OrdMap.get?_erase] at hc
        split_ifs at hc
        exact (ha d).stocked t c hc hlive
      · refine DormantAccounts.live_erase fun c hc => ?_
        rw [hget] at hc
        cases hc
        exact hdead
    · exact ⟨ha d, .refl _, rfl⟩

namespace SubPoolState

/-- The accounts hold a sub-pool the engine could have left behind. -/
structure Intact (s : SubPoolState) (maxEntries : U32) (t : SubPool) : Prop where
  eq : t = s.account.withStores (t.side .long).dormant (t.side .short).dormant
  holds : ∀ d, (s.dormant d).Holds s.account.key d maxEntries (t.side d).dormant
  stocked : t.Stocked
  zeroIff : ∀ d, (t.side d).poolEquity = 0 ↔ (t.side d).activeShares = 0

structure Sane (s : SubPoolState) (id : Nat) (maxEntries : U32) : Prop where
  id_eq : s.account.subPoolId = id
  addressed : ∀ d, (s.dormant d).Addressed id d maxEntries
  shares_le : ∀ d, (s.dormant d).shares ≤ (s.account.side d).recoveryShares
  intact : (∀ d, (s.dormant d).shares = (s.account.side d).recoveryShares) →
    ∃ t, s.Intact maxEntries t

variable {s s' : SubPoolState} {id : Nat} {maxEntries : U32} {t : SubPool}

theorem Intact.sound (h : s.Intact maxEntries t) : t.Sound :=
  fun d => ⟨(h.holds d).produced.inv, (h.holds d).direction_eq⟩

theorem Intact.side_eq (h : s.Intact maxEntries t) (d : Direction) :
    t.side d = { (s.account.side d).view d with dormant := (t.side d).dormant } := by
  have he := h.eq
  cases d with
  | long => exact congrArg SubPool.long he
  | short => exact congrArg SubPool.short he

theorem Sane.arranged (h : s.Sane id maxEntries) (ha : Arranged maxEntries s s') :
    s'.Sane id maxEntries := by
  have hkey : s.account.key = id := h.id_eq
  have hacc := ha.account_eq
  have hd := ha.dormant (hkey ▸ h.addressed)
  have hsh : ∀ d, (s'.dormant d).shares = (s.dormant d).shares :=
    fun d => DormantAccounts.shares_of_live (hd d).2.1
  refine ⟨hacc ▸ h.id_eq, hkey ▸ fun d => (hd d).1, fun d => ?_, fun heq => ?_⟩
  · rw [hsh, hacc]
    exact h.shares_le d
  · obtain ⟨t, ht⟩ := h.intact fun d => by rw [← hsh, ← hacc, heq]
    refine ⟨t, hacc ▸ ht.eq, fun d => ?_, ht.stocked, ht.zeroIff⟩
    rw [hacc]
    exact (ht.holds d).of_same (hd d).2.1 (hd d).2.2

end SubPoolState

theorem clearingView_sound (a : SubPoolAccount) : (clearingView a).Sound := by
  intro d
  cases d with
  | long => exact ⟨DormantStore.new_inv _, rfl⟩
  | short => exact ⟨DormantStore.new_inv _, rfl⟩

theorem clearingView_side (a : SubPoolAccount) (d : Direction) :
    (clearingView a).side d = (a.side d).view d := by cases d <;> rfl

/-- A call on the view that returned: no direction had any recovery shares before. -/
theorem clearingView_gapless {a : SubPoolAccount} {view : SubPool} {m : Nat}
    (hf : (clearingView a).Framed m view) (hc : checkSubpoolInvariants view = .ok ())
    (d : Direction) : (a.side d).recoveryShares = 0 := by
  have hgap := (hf.sides d).gap_eq
  have hend := check_recovery hc d
  rw [clearingView_side] at hgap
  have hempty : (((a.side d).view d).dormant).totalRecoveryShares = 0 := rfl
  have hrec : ((a.side d).view d).recoveryShares = (a.side d).recoveryShares := rfl
  omega

theorem clearingView_stocked {a : SubPoolAccount} (h : ∀ d, (a.side d).recoveryShares = 0)
    (hn : ∀ d, (a.side d).activeNotional < u128Size) : (clearingView a).Stocked := by
  intro d
  rw [clearingView_side]
  refine ⟨?_, h d, ?_, hn d⟩
  · intro tick x hx
    cases hx
  · exact (h d).trans_lt (Nat.two_pow_pos 128)

theorem SubPoolState.Sane.viewed {s : SubPoolState} {id m : Nat} {maxEntries : U32}
    {view : SubPool} (h : s.Sane id maxEntries) (hf : (clearingView s.account).Framed m view)
    (hc : checkSubpoolInvariants view = .ok ())
    (hst : (clearingView s.account).Stocked → view.Stocked) :
    SubPoolState.Sane { s with account := applyClearingView s.account view } id maxEntries := by
  have hr0 := clearingView_gapless hf hc
  have hsh : ∀ d, (s.dormant d).shares = 0 := by
    intro d
    have hle := h.shares_le d
    rw [hr0] at hle
    omega
  have hdormant : ∀ d, SubPoolState.dormant
      { s with account := applyClearingView s.account view } d = s.dormant d :=
    fun d => by cases d <;> rfl
  refine ⟨h.id_eq, fun d => hdormant d ▸ h.addressed d, fun d => ?_, fun heq => ?_⟩
  · rw [hdormant, hsh]
    exact Nat.zero_le _
  · obtain ⟨t, ht⟩ := h.intact fun d => by rw [hsh, hr0]
    have hstocked := hst <| clearingView_stocked hr0 fun d => by
      have hn := (ht.stocked d).notional_lt
      rw [ht.side_eq] at hn
      exact hn
    have hr' : ∀ d, (view.side d).recoveryShares = 0 := by
      intro d
      have := heq d
      rw [hdormant, hsh, SubPoolAccount.side_apply] at this
      exact this.symm
    refine ⟨(applyClearingView s.account view).withStores (t.side .long).dormant
      (t.side .short).dormant, rfl, fun d => ?_, fun d => ?_, fun d => ?_⟩
    · have hd := ht.holds d
      rw [hdormant]
      cases d with
      | long => exact hd
      | short => exact hd
    · have hb := (ht.stocked d).buckets
      have htot := (ht.stocked d).total_eq
      rw [ht.side_eq] at htot
      have hzero : (s.account.side d).recoveryShares = (t.side d).dormant.holdings.total := htot
      rw [hr0] at hzero
      have hnew := hr' d
      have hn := (hstocked d).notional_lt
      cases d with
      | long => exact ⟨hb, hnew.trans hzero, hnew.trans_lt (Nat.two_pow_pos 128), hn⟩
      | short => exact ⟨hb, hnew.trans hzero, hnew.trans_lt (Nat.two_pow_pos 128), hn⟩
    · have hz := check_zeroIff hc d
      cases d with
      | long => exact hz
      | short => exact hz

namespace SubPoolState

theorem setDormant_dormant (s : SubPoolState) (d : Direction) :
    s.setDormant d (s.dormant d) = s := by
  cases d <;> rfl

theorem setDormant_setDormant (s : SubPoolState) (d : Direction) (x y : DormantAccounts) :
    (s.setDormant d x).setDormant d y = s.setDormant d y := by cases d <;> rfl

end SubPoolState

namespace Program
variable {token : TokenProgram} {st st' : Program} {id : Nat} {s : SubPoolState}

theorem exitAllBuckets_eq (st : Program) (bs : List BucketAccount) {s : SubPoolState}
    (hs : st.subPools.get? id = some s) {d : Direction}
    (hown : ∀ b ∈ bs, b.seeds = ⟨id, d.isLong, b.seeds.zeroPriceTick⟩) :
    st.exitAllBuckets bs = { st with subPools := st.subPools.insert id (s.setDormant d
      { s.dormant d with buckets := (s.dormant d).buckets.insertAll (writes bs) }) } := by
  induction bs generalizing st s with
  | nil =>
    have hsame : s.setDormant d { s.dormant d with
        buckets := (s.dormant d).buckets.insertAll (writes []) } = s := s.setDormant_dormant d
    rw [hsame, OrdMap.insert_get?_self hs]
    rfl
  | cons b bs ih =>
    have hb := hown b List.mem_cons_self
    have hset : s.setBucket b = s.setDormant d { s.dormant d with
        buckets := (s.dormant d).buckets.insert b.seeds.zeroPriceTick b } := by
      rw [SubPoolState.setBucket, hb, Direction.isLong_ofIsLong]
    rw [exitAllBuckets, List.foldl_cons, congrArg BucketSeeds.subPool hb, modifySubPool_of hs, hset]
    have hnext := ih { st with subPools := st.subPools.insert id (s.setDormant d
        { s.dormant d with
          buckets := (s.dormant d).buckets.insert b.seeds.zeroPriceTick b }) }
      (OrdMap.get?_insert_self _ _ _) (fun c hc => hown c (List.mem_cons_of_mem b hc))
    refine hnext.trans ?_
    rw [OrdMap.insert_insert, SubPoolState.setDormant_setDormant,
      SubPoolState.dormant_setDormant, if_pos rfl]
    rfl

theorem exitAllBuckets_append (st : Program) (bs cs : List BucketAccount) :
    st.exitAllBuckets (bs ++ cs) = (st.exitAllBuckets bs).exitAllBuckets cs :=
  List.foldl_append

theorem packSide_ok {params : MarketParams} {key : Pubkey} {d : Direction} {store : DormantStore}
    {x x' : BridgedSide} (h : packSide params key d store x = .ok x') :
    ∃ outcome, packDirection x.ledger x.buckets key d store
      params.maxDormantBucketCountPerDirection params.maxDistributionLedgerSize
        = .ok (outcome, x'.ledger, x'.buckets) := by
  unfold packSide at h
  obtain ⟨⟨outcome, ledger, buckets⟩, hp, h⟩ := except_bind_ok.mp h
  cases h
  exact ⟨outcome, hp⟩

def Sane (st : Program) : Prop :=
  ∀ id s, st.subPools.get? id = some s → s.Sane id st.market.maxDistributionLedgerSize

theorem Sane.placed (h : st.Sane) : st.Placed :=
  fun id s hs => ⟨(h id s hs).id_eq, (h id s hs).addressed⟩

/-- A bridged call that returned: it ran on the sub-pool the accounts hold, and wrote every
    copy of an account it was given. -/
structure Carried (st : Program) (id : Nat) (remaining : RemainingAccounts) (call : BridgedCall)
    (st' : Program) (outcome : BridgedOutcome) (s : SubPoolState) (t view : SubPool)
    (long short long' short' : BridgedSide) : Prop where
  found : st.subPools.get? id = some s
  loaded : st.loadBridged id remaining = .ok (s, long, short)
  hydrated : hydrate s.account long short = .ok t
  intact : s.Intact st.market.maxDistributionLedgerSize t
  ran : call.run (marketParamsFrom st.market) t = .ok (view, outcome)
  supplied : long.buckets.map (·.seeds) ++ short.buckets.map (·.seeds) = remaining.accounts
  repack : ∀ d, ∃ o, Repack (s.dormant d) id d st.market.maxDistributionLedgerSize
    st.market.maxDormantBucketCountPerDirection (.of d long short) (.of d long' short')
    (view.side d).dormant o
  state : st' = { st with
    subPools := st.subPools.insert id {
      account := applyClearingView s.account view
      long := s.long.written long'
      short := s.short.written short' } }

namespace Carried
variable {remaining : RemainingAccounts} {call : BridgedCall} {outcome : BridgedOutcome}
  {t view : SubPool} {long short long' short' : BridgedSide}

theorem moved (h : st.Carried id remaining call st' outcome s t view long short long' short') :
    view.Sound ∧ view.value + outcome.paid = t.value :=
  BridgedCall.run_moved h.intact.sound h.ran

theorem stocked (h : st.Carried id remaining call st' outcome s t view long short long' short') :
    view.Stocked := BridgedCall.run_stocked h.intact.sound h.intact.stocked h.ran

end Carried

theorem Sane.bridged (hst : st.Sane) {remaining : RemainingAccounts} {call : BridgedCall}
    {outcome : BridgedOutcome} (h : st.runBridged id remaining call = .ok (st', outcome)) :
    ∃ s t view long short long' short',
      st.Carried id remaining call st' outcome s t view long short long' short' := by
  obtain ⟨s, long, short, view, view', long', short', hrun⟩ := runBridged_ok h
  obtain ⟨hs, hkey, hsupplied, hsides⟩ := hrun.sides hst.placed
  have hsane := hst id s hs
  have hgapless := BridgedCall.run_gapless hrun.ran
  have hcover : ∀ d, (s.dormant d).shares = (s.account.side d).recoveryShares ∧
      ((BridgedSide.of d long short).buckets.filter (fun b => !recordIsDead b)).Perm
        (s.dormant d).live := by
    intro d
    obtain ⟨hload, hrec⟩ := hsides d
    have hle := hsane.shares_le d
    have heq := hgapless d
    have hsub := subperm_weight_le (·.totalRecoveryShares) hload.live_subperm
    have htot := hload.total_eq
    have hsh := (s.dormant d).shares_eq
    exact ⟨by omega, hload.live_perm (hsane.addressed d).stocked (by omega)⟩
  obtain ⟨t, ht⟩ := hsane.intact fun d => (hcover d).1
  have hstore : ∀ d, (view.side d).dormant = (t.side d).dormant := by
    intro d
    have hholds := ht.holds d
    rw [hkey] at hholds
    exact hholds.loaded_eq (hsides d).1 (hcover d).2
  have hview : view = t := by
    rw [hydrate_ok hrun.hydrated, hstore, hstore, ← ht.eq]
  subst hview
  obtain ⟨hsound, -⟩ := BridgedCall.run_moved ht.sound hrun.ran
  have hstocked := BridgedCall.run_stocked ht.sound ht.stocked hrun.ran
  have hproduced := produced_of_checked hsound hstocked (BridgedCall.run_checked hrun.ran)
  have hrepack : ∀ d, ∃ o, Repack (s.dormant d) id d st.market.maxDistributionLedgerSize
      st.market.maxDormantBucketCountPerDirection (.of d long short) (.of d long' short')
      (view'.side d).dormant o := by
    intro d
    have hpacked : packSide (marketParamsFrom st.market) id d (view'.side d).dormant
        (.of d long short) = .ok (.of d long' short') := by
      cases d with
      | long => exact hkey ▸ hrun.longPacked
      | short => exact hkey ▸ hrun.shortPacked
    obtain ⟨o, ho⟩ := packSide_ok hpacked
    have hload := (hsides d).1
    exact ⟨o, hsane.addressed d, hload.ledger, hload.supplied, (hcover d).2, hproduced d,
      (hsound d).2, ho⟩
  refine ⟨s, view, view', long, short, long', short', hs, hrun.loaded, hrun.hydrated, ht, hrun.ran,
    hsupplied, hrepack, ?_⟩
  obtain ⟨o, hlong⟩ := hrepack .long
  obtain ⟨o', hshort⟩ := hrepack .short
  have hl := exitAllBuckets_eq st long'.buckets (d := .long) hs
    fun b hb => (hlong.owned' b hb).1
  have hmid := OrdMap.get?_insert_self st.subPools id (s.setDormant .long { s.dormant .long with
    buckets := (s.dormant .long).buckets.insertAll (writes long'.buckets) })
  have hsh := exitAllBuckets_eq (st.exitAllBuckets long'.buckets) short'.buckets (d := .short)
    (by rw [hl]; exact hmid) fun b hb => (hshort.owned' b hb).1
  rw [hrun.state, exitAllBuckets_append, hsh, hl]
  rw [modifySubPool_of (OrdMap.get?_insert_self _ _ _), OrdMap.insert_insert, OrdMap.insert_insert]
  rfl

theorem Carried.sane {remaining : RemainingAccounts} {call : BridgedCall}
    {outcome : BridgedOutcome} {t view : SubPool} {long short long' short' : BridgedSide}
    (hst : st.Sane)
    (h : st.Carried id remaining call st' outcome s t view long short long' short') :
    SubPoolState.Sane {
      account := applyClearingView s.account view
      long := s.long.written long'
      short := s.short.written short' } id st.market.maxDistributionLedgerSize := by
  have hsane := hst id s h.found
  have hkey : s.account.key = id := hsane.id_eq
  have hc := BridgedCall.run_checked h.ran
  generalize hs' : SubPoolState.mk (applyClearingView s.account view) (s.long.written long')
    (s.short.written short') = s'
  have hacc : s'.account = applyClearingView s.account view := by rw [← hs']
  have hwritten : ∀ d, s'.dormant d = (s.dormant d).written (.of d long' short') := by
    rw [← hs']
    exact fun d => by cases d <;> rfl
  have hview : view.subPoolId = s.account.subPoolId := by
    rw [(BridgedCall.run_framed h.ran).id_eq, h.intact.eq]
    rfl
  have hrec : ∀ d, (s'.account.side d).recoveryShares
      = (view.side d).dormant.totalRecoveryShares := by
    intro d
    rw [check_recovery hc, hacc, SubPoolAccount.side_apply]
    rfl
  refine ⟨?_, fun d => ?_, fun d => ?_, fun heq => ?_⟩
  · rw [hacc]
    exact hsane.id_eq
  · obtain ⟨o, hr⟩ := h.repack d
    rw [hwritten]
    exact hr.addressed'
  · obtain ⟨o, hr⟩ := h.repack d
    rw [hwritten, hrec]
    exact hr.shares_le
  · refine ⟨view.unlogged, ?_, fun d => ?_, fun d => ?_, fun d => ?_⟩
    · rw [hacc, SubPool.side_unlogged, SubPool.side_unlogged]
      exact (withStores_applyClearingView hview).symm
    · obtain ⟨o, hr⟩ := h.repack d
      have hd := heq d
      rw [hwritten, hrec] at hd
      rw [hwritten, SubPool.side_unlogged, hacc]
      exact (hkey.symm ▸ hr.holds hd : _)
    · rw [SubPool.side_unlogged]
      exact (h.stocked d).of_same rfl rfl le_rfl
    · rw [SubPool.side_unlogged]
      exact check_zeroIff hc d

theorem Sane.insert (h : st.Sane) {s' : SubPoolState}
    (hs : s'.Sane id st.market.maxDistributionLedgerSize) :
    Sane { st with subPools := st.subPools.insert id s' } := by
  intro j x hx
  simp only [OrdMap.get?_insert] at hx
  split_ifs at hx with hj
  · cases hx
    exact hj ▸ hs
  · exact h j x hx

theorem Sane.effect {reads : Bool} {o : Option DirectCall} (hst : st.Sane)
    (h : Effect token st reads o st') : st'.Sane := by
  have written : ∀ {id remaining call st1 outcome}, st.runBridged id remaining call
      = .ok (st1, outcome) → st1.Sane := by
    intro id remaining call st1 outcome hr
    obtain ⟨s, t, view, long, short, long', short', hc⟩ := hst.bridged hr
    rw [hc.state]
    exact hst.insert (hc.sane hst)
  cases h with
  | outside slot feed tokens hslot hv hf => exact hst
  | governed config market hm =>
    have hmax : market.maxDistributionLedgerSize = st.market.maxDistributionLedgerSize :=
      congrArg (·.maxDistributionLedgerSize) hm
    intro id s hs
    have hsane := hst id s hs
    rwa [← hmax] at hsane
  | created id hnone =>
    refine hst.insert ⟨rfl, fun d => ?_, fun d => ?_, fun _ => ?_⟩
    · cases d <;> exact DormantAccounts.addressed_none id _ _
    · cases d <;> exact le_rfl
    · refine ⟨(SubPoolAccount.init id).withStores (.new .long) (.new .short), rfl, fun d => ?_,
        fun d => ?_, fun d => ?_⟩
      · cases d <;> exact DormantAccounts.holds_none id _ _
      · have h0 := clearingView_stocked (a := .init id) (fun d => by cases d <;> rfl)
          (fun d => by cases d <;> exact Nat.two_pow_pos 128)
        exact h0.of_sides (fun d => by cases d <;> rfl) d
      · cases d <;> exact iff_of_true rfl rfl
  | arranged id s s' hs ha => exact hst.insert ((hst id s hs).arranged ha)
  | engaged h =>
    cases h with
    | bridged id remaining call st' outcome hp hn h => exact written h
    | settled id key remaining p call st1 outcome tokens hk hs hp hc h hpay =>
      have hw := written h
      exact hw
    | opened id owner wallet params s view pos out tokens hs hk h hpay =>
      obtain ⟨s1, sync, ho⟩ := openPosition_ok h
      have hv := (hst id s hs).viewed (openPosition_framed h) ho.checked
        fun h0 => openPosition_stocked (clearingView_sound _) h0 h
      exact hst.insert hv
    | harvested id d s view out tokens hs h hpay =>
      obtain ⟨-, hstate, hc⟩ := harvest_ok h
      have hv := (hst id s hs).viewed (m := 0) (harvest_framed h) hc fun h0 => by
        rw [hstate]
        exact h0.setSide ((h0 d).of_same rfl rfl le_rfl)
      exact hst.insert hv

theorem Reached.sane (h : st.Reached token) : st.Sane := by
  refine Reached.induct (fun st hf id s hs => ?_) (fun st reads o st' hst he => hst.effect he) h
  rw [hf.subPools] at hs
  cases hs

end Program

end MoleFinance
