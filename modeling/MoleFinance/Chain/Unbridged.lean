import MoleFinance.Chain.Custody
import MoleFinance.Chain.Persist

/-! The two instructions that run the engine on the view alone, `open_position` and
`harvest_dust`, against the engine on the sub-pool with its stores. -/
namespace MoleFinance
open MoleMath Call

def SubPoolState.full (s : SubPoolState) (maxEntries : U32) : Except ProgramError SubPool := do
  let long ← s.long.store s.account.key .long maxEntries
  let short ← s.short.store s.account.key .short maxEntries
  return s.account.withStores long short

namespace SubPoolState
variable {s : SubPoolState} {id : Nat} {maxEntries : U32} {t : SubPool}

theorem full_ok : s.full maxEntries = .ok t ↔
    t = s.account.withStores (t.side .long).dormant (t.side .short).dormant ∧
      ∀ d, (s.dormant d).store s.account.key d maxEntries = .ok (t.side d).dormant := by
  unfold full
  constructor
  · intro h
    obtain ⟨long, hl, h⟩ := except_bind_ok.mp h
    obtain ⟨short, hs, h⟩ := except_bind_ok.mp h
    cases h
    refine ⟨rfl, fun d => ?_⟩
    cases d with
    | long => exact hl
    | short => exact hs
  · rintro ⟨heq, hd⟩
    have hl := hd .long
    have hs := hd .short
    simp only [dormant] at hl hs
    rw [hl, ok_bind, hs, ok_bind, heq]
    rfl

theorem Sane.intact_of_full (h : s.Sane id maxEntries) (ht : s.full maxEntries = .ok t)
    (hgap : ∀ d, (t.side d).dormant.totalRecoveryShares = (t.side d).recoveryShares) :
    s.Intact maxEntries t := by
  obtain ⟨heq, hd⟩ := full_ok.mp ht
  have hkey : s.account.key = id := h.id_eq
  have hrec : ∀ d, (t.side d).recoveryShares = (s.account.side d).recoveryShares := by
    intro d
    rw [heq, SubPoolAccount.side_withStores]
  obtain ⟨u, hu⟩ := h.intact fun d => by
    rw [DormantAccounts.shares_of_store (hd d), hgap, hrec]
  have hstore : ∀ d, (u.side d).dormant = (t.side d).dormant := by
    intro d
    have hud := (hu.holds d).store_eq (hkey ▸ h.addressed d)
    rw [hd] at hud
    exact (Except.ok.inj hud).symm
  have : t = u := by rw [heq, ← hstore, ← hstore, ← hu.eq]
  exact this ▸ hu

theorem Sane.intact_of_checked {m : Nat} {t' : SubPool} (h : s.Sane id maxEntries)
    (ht : s.full maxEntries = .ok t) (hf : t.Framed m t')
    (hc : checkSubpoolInvariants t' = .ok ()) : s.Intact maxEntries t := by
  refine h.intact_of_full ht fun d => ?_
  have hgap := (hf.sides d).gap_eq
  have hend := check_recovery hc d
  omega

theorem Intact.shell_eq (h : s.Intact maxEntries t) : t.shell = clearingView s.account := by
  rw [h.eq]
  rfl

theorem Intact.bare (h : s.Intact maxEntries t) (hr : ∀ d, (t.side d).recoveryShares = 0) :
    t.Bare := by
  intro d
  have hst := h.stocked d
  have htotal := hst.total_eq
  rw [hr] at htotal
  have hzero := OrdMap.sum_zero_iff.mp htotal.symm
  apply OrdMap.ext_get?
  intro tick
  rw [OrdMap.get?_empty]
  cases hb : (t.side d).dormant.buckets.get? tick with
  | none => rfl
  | some b =>
    have hget : (t.side d).dormant.holdings.get? tick = some b.holding := by
      rw [DormantStore.holdings_get?, hb]
      rfl
    have hpos := (hst.buckets tick _ hget).1
    have h0 := hzero tick _ hget
    omega

/-- The accounts of a call on the view that left the stores as they were. -/
theorem full_applyClearingView {t' : SubPool} (h : s.full maxEntries = .ok t)
    (hid : t'.subPoolId = t.subPoolId) (hkept : t.SameStores t') :
    SubPoolState.full { s with account := applyClearingView s.account t'.shell } maxEntries
      = .ok t'.unlogged := by
  obtain ⟨heq, hd⟩ := full_ok.mp h
  have hidS : t'.subPoolId = s.account.subPoolId := by
    rw [hid, heq]
    rfl
  rw [full_ok]
  refine ⟨?_, fun d => ?_⟩
  · rw [SubPool.side_unlogged, SubPool.side_unlogged]
    exact (withStores_applyClearingView hidS).symm
  · have hstore := hd d
    rw [SubPool.side_unlogged, (hkept d).1]
    cases d with
    | long => exact hstore
    | short => exact hstore

theorem stores_of_full {view t' : SubPool} (h : s.full maxEntries = .ok t)
    (h' : SubPoolState.full { s with account := applyClearingView s.account view } maxEntries
      = .ok t') (d : Direction) : (t'.side d).dormant = (t.side d).dormant := by
  have hd := (full_ok.mp h).2 d
  have hd' := (full_ok.mp h').2 d
  cases d with
  | long => exact Except.ok.inj (hd'.symm.trans hd)
  | short => exact Except.ok.inj (hd'.symm.trans hd)

end SubPoolState

namespace Program
variable {token : TokenProgram} {st st' : Program} {id : Nat} {s : SubPoolState} {view : SubPool}

def Vaulted (st : Program) : Prop :=
  (st.tokens.get? st.market.vault).isSome = true ∧ (st.tokens.get? st.market.feeVault).isSome = true

instance (st : Program) : Decidable st.Vaulted := inferInstanceAs (Decidable (_ ∧ _))

theorem vaulted_iff : st.Vaulted ↔ ∃ v f, st.tokens.get? st.market.vault = some v ∧
    st.tokens.get? st.market.feeVault = some f := by
  unfold Vaulted
  rw [Option.isSome_iff_exists, Option.isSome_iff_exists]
  exact ⟨fun ⟨⟨v, hv⟩, f, hf⟩ => ⟨v, f, hv, hf⟩, fun ⟨v, f, hv, hf⟩ => ⟨⟨v, hv⟩, f, hf⟩⟩

/-- What a harvest needs beside the engine: the treasury, and a transfer that goes through. -/
structure Sweeps (token : TokenProgram) (st : Program) (signer : Pubkey) (amount : Nat) : Prop where
  vaulted : st.Vaulted
  signer_eq : signer = st.globalConfig.protocolTreasury
  amount_lt : amount < u64Size
  paid : ∃ tokens, Transfers token st.tokens amount st.market.vault st.market.feeVault
    .vaultAuthority amount tokens

/-- What an open needs beside the engine: a free position account, and the owner's tokens. -/
def Affords (token : TokenProgram) (st : Program) (owner wallet : Pubkey) (params : OpenParams)
    (p : Position) (out : OpenOutcome) : Prop :=
  st.positions.get? (positionKey owner params.positionId) = none ∧ st.Vaulted ∧
    ∃ w st1, st.userTokenAccount owner wallet = .ok w ∧
      payIn token st owner wallet p.principal out = .ok st1

theorem harvestDust_handler {signer : Pubkey} {isLong : Bool}
    (hs : st.subPools.get? id = some s)
    (h : st.harvestDust token id signer isLong = .ok st') :
    ∃ view out, MoleFinance.harvestDust (marketParamsFrom st.market) (clearingView s.account)
        (.ofIsLong isLong) = .ok (view, out) ∧ st.Sweeps token signer out.amount ∧
      st'.subPools.get? id = some { s with account := applyClearingView s.account view } := by
  unfold harvestDust at h
  rw [found_ok.mpr hs, ok_bind] at h
  obtain ⟨v, hv, h⟩ := except_bind_ok.mp h
  obtain ⟨f, hf, h⟩ := except_bind_ok.mp h
  obtain ⟨_, hsigner, h⟩ := except_bind_ok.mp h
  obtain ⟨⟨view, out⟩, ho, h⟩ := except_bind_ok.mp h
  simp only [modifySubPool_of hs] at h
  obtain ⟨_, hlt, h⟩ := except_bind_ok.mp h
  obtain ⟨tokens, hmoves, rfl⟩ := transferDue_ok.mp h
  exact ⟨view, out, engine_ok.mp ho, ⟨vaulted_iff.mpr ⟨v, f, found_ok.mp hv, found_ok.mp hf⟩,
    ensure_ok.mp hsigner, ensure_ok.mp hlt, tokens, hmoves⟩, OrdMap.get?_insert_self _ _ _⟩

theorem harvestDust_of {signer : Pubkey} {isLong : Bool} {out : HarvestOutcome}
    (hs : st.subPools.get? id = some s)
    (ho : MoleFinance.harvestDust (marketParamsFrom st.market) (clearingView s.account)
      (.ofIsLong isLong) = .ok (view, out)) (hsw : st.Sweeps token signer out.amount) :
    ∃ st', st.harvestDust token id signer isLong = .ok st' ∧
      st'.subPools.get? id = some { s with account := applyClearingView s.account view } := by
  obtain ⟨v, f, hv, hf⟩ := vaulted_iff.mp hsw.vaulted
  obtain ⟨tokens, hmoves⟩ := hsw.paid
  unfold harvestDust
  rw [found_ok.mpr hs, ok_bind, found_ok.mpr hv, ok_bind, found_ok.mpr hf, ok_bind,
    ensure_of hsw.signer_eq, ok_bind, ho]
  simp only [engine, ok_bind, modifySubPool_of hs]
  rw [ensure_of hsw.amount_lt, ok_bind]
  exact ⟨_, transferDue_ok.mpr ⟨tokens, hmoves, rfl⟩, OrdMap.get?_insert_self _ _ _⟩

theorem openPosition_handler {owner wallet : Pubkey} {params : OpenParams}
    (hs : st.subPools.get? id = some s)
    (h : st.openPosition token id owner wallet params = .ok st') :
    ∃ view p out, MoleFinance.openPosition (marketParamsFrom st.market) (clearingView s.account)
        params.envelope (.ofIsLong params.directionIsLong) params.grossAmount params.positionId
          = .ok (view, p, out) ∧ st.Affords token owner wallet params p out ∧
      st'.subPools.get? id = some { s with account := applyClearingView s.account view } := by
  unfold openPosition at h
  rw [found_ok.mpr hs, ok_bind] at h
  obtain ⟨_, hvacant, h⟩ := except_bind_ok.mp h
  obtain ⟨v, hv, h⟩ := except_bind_ok.mp h
  obtain ⟨f, hf, h⟩ := except_bind_ok.mp h
  obtain ⟨w, hw, h⟩ := except_bind_ok.mp h
  obtain ⟨⟨view, p, out⟩, ho, h⟩ := except_bind_ok.mp h
  obtain ⟨st1, hpay, h⟩ := except_bind_ok.mp h
  cases h
  refine ⟨view, p, out, engine_ok.mp ho, ⟨vacant_ok.mp hvacant,
    vaulted_iff.mpr ⟨v, f, found_ok.mp hv, found_ok.mp hf⟩, w, st1, hw, hpay⟩, ?_⟩
  obtain ⟨tokens, rfl, -⟩ := payIn_ok hpay
  have hpaid : ({ st with tokens := tokens : Program }).subPools.get? id = some s := hs
  rw [modifySubPool_of hpaid]
  exact OrdMap.get?_insert_self _ _ _

theorem openPosition_of {owner wallet : Pubkey} {params : OpenParams} {p : Position}
    {out : OpenOutcome} (hs : st.subPools.get? id = some s)
    (ho : MoleFinance.openPosition (marketParamsFrom st.market) (clearingView s.account)
      params.envelope (.ofIsLong params.directionIsLong) params.grossAmount params.positionId
        = .ok (view, p, out)) (haff : st.Affords token owner wallet params p out) :
    ∃ st', st.openPosition token id owner wallet params = .ok st' ∧
      st'.subPools.get? id = some { s with account := applyClearingView s.account view } := by
  obtain ⟨hfree, hvaulted, w, st1, hw, hpay⟩ := haff
  obtain ⟨v, f, hv, hf⟩ := vaulted_iff.mp hvaulted
  unfold openPosition
  rw [found_ok.mpr hs, ok_bind]
  have hvacant : vacant (st.positions.get? (positionKey owner params.positionId)) = .ok () :=
    vacant_ok.mpr hfree
  simp only
  rw [hvacant, ok_bind, found_ok.mpr hv, ok_bind, found_ok.mpr hf, ok_bind, hw, ok_bind, ho]
  simp only [engine, ok_bind]
  rw [hpay, ok_bind]
  refine ⟨_, rfl, ?_⟩
  obtain ⟨tokens, rfl, -⟩ := payIn_ok hpay
  have hpaid : ({ st with tokens := tokens : Program }).subPools.get? id = some s := hs
  rw [modifySubPool_of hpaid]
  exact OrdMap.get?_insert_self _ _ _

end Program

/-- What the instruction does is what the engine does on the sub-pool with its stores. -/
def Program.Matches (st : Program) (id : Nat) (res : Except ProgramError Program) (t : SubPool) :
    Prop :=
  ∃ st' s', res = .ok st' ∧ st'.subPools.get? id = some s' ∧
    s'.full st.market.maxDistributionLedgerSize = .ok t.unlogged

section Refine
variable {token : TokenProgram} {st : Program} {id : Nat} {s : SubPoolState} {t t' : SubPool}

theorem harvestDust_matches_iff (hst : st.Sane) (hs : st.subPools.get? id = some s)
    (ht : s.full st.market.maxDistributionLedgerSize = .ok t) {signer : Pubkey} {isLong : Bool}
    {out : HarvestOutcome}
    (h : harvestDust (marketParamsFrom st.market) t (.ofIsLong isLong) = .ok (t', out)) :
    st.Matches id (st.harvestDust token id signer isLong) t' ↔
      st.Sweeps token signer out.amount ∧ ∀ d, (t.side d).recoveryShares = 0 := by
  have hframed := harvest_framed (m := 0) h
  have hintact := (hst id s hs).intact_of_checked ht hframed (harvest_ok h).2.2
  constructor
  · rintro ⟨st', s', hok, hs', hfull⟩
    obtain ⟨view, out', hview, hsw, hget⟩ := Program.harvestDust_handler hs hok
    have hr : ∀ d, (t.side d).recoveryShares = 0 := by
      intro d
      rw [hintact.side_eq]
      exact clearingView_gapless (m := 0) (harvest_framed hview) (harvest_ok hview).2.2 d
    have hshell := (harvestDust_shell hr h).2
    rw [hintact.shell_eq, hview] at hshell
    cases hshell
    exact ⟨hsw, hr⟩
  · rintro ⟨hsw, hr⟩
    obtain ⟨hkept, hshell⟩ := harvestDust_shell hr h
    rw [hintact.shell_eq] at hshell
    obtain ⟨st', hok, hget⟩ := Program.harvestDust_of hs hshell hsw
    exact ⟨st', _, hok, hget, SubPoolState.full_applyClearingView ht hframed.id_eq hkept⟩

theorem openPosition_matches_iff (hst : st.Sane) (hs : st.subPools.get? id = some s)
    (ht : s.full st.market.maxDistributionLedgerSize = .ok t) {owner wallet : Pubkey}
    {params : Program.OpenParams} {p : Position} {out : OpenOutcome}
    (h : openPosition (marketParamsFrom st.market) t params.envelope
      (.ofIsLong params.directionIsLong) params.grossAmount params.positionId = .ok (t', p, out)) :
    st.Matches id (st.openPosition token id owner wallet params) t' ↔
      st.Affords token owner wallet params p out ∧
      (∀ d, (t.side d).recoveryShares = 0) ∧
      ∀ t1 sync, syncPool (marketParamsFrom st.market) t params.envelope = .ok (t1, sync) →
        ∀ d, (t1.side d).recoveryShares = 0 := by
  have hframed := openPosition_framed h
  obtain ⟨u, sync, ho⟩ := openPosition_ok h
  have hgap : ∀ d, (t.side d).dormant.totalRecoveryShares = (t.side d).recoveryShares := by
    intro d
    have hgap := (hframed.sides d).gap_eq
    have hend := check_recovery ho.checked d
    omega
  have hintact := (hst id s hs).intact_of_full ht hgap
  have hafter : ∀ d, (t'.side d).recoveryShares = (u.side d).recoveryShares := by
    intro d
    rw [ho.state, SubPool.side_setSide_eq]
    split_ifs with hd
    · rw [hd]
    · rfl
  have hshellOf : (∀ d, (t.side d).recoveryShares = 0) →
      (∀ d, (u.side d).recoveryShares = 0) → t.SameStores t' ∧
        openPosition (marketParamsFrom st.market) (clearingView s.account) params.envelope
          (.ofIsLong params.directionIsLong) params.grossAmount params.positionId
            = .ok (t'.shell, p, out) := by
    intro hr hu
    have hshell := openPosition_shell (hintact.bare hr) (fun e => (hafter e).trans (hu e)) h
    rwa [hintact.shell_eq] at hshell
  constructor
  · rintro ⟨st', s', hok, hs', hfull⟩
    obtain ⟨view, p', out', hview, haff, hget⟩ := Program.openPosition_handler hs hok
    have hr : ∀ d, (t.side d).recoveryShares = 0 := by
      intro d
      obtain ⟨v1, vsync, hv⟩ := openPosition_ok hview
      rw [hintact.side_eq]
      exact clearingView_gapless (openPosition_framed hview) hv.checked d
    have hu : ∀ d, (u.side d).recoveryShares = 0 := by
      intro d
      rw [hget] at hs'
      cases hs'
      have hstores := SubPoolState.stores_of_full ht hfull d
      rw [SubPool.side_unlogged] at hstores
      have hend := check_recovery ho.checked d
      have hsame : (t'.side d).dormant = (t.side d).dormant := hstores
      rw [hsame, hgap, hr, hafter] at hend
      exact hend.symm
    have hshell := (hshellOf hr hu).2
    rw [hview] at hshell
    cases hshell
    refine ⟨haff, hr, fun t1 sync1 h1 => ?_⟩
    rw [ho.synced] at h1
    cases h1
    exact hu
  · rintro ⟨haff, hr, hu⟩
    obtain ⟨hkept, hshell⟩ := hshellOf hr (hu u sync ho.synced)
    obtain ⟨st', hok, hget⟩ := Program.openPosition_of hs hshell haff
    exact ⟨st', _, hok, hget, SubPoolState.full_applyClearingView ht hframed.id_eq hkept⟩

/-- Without the bridge, an instruction does what the engine does on the whole sub-pool exactly
    when there is no recovery at all, before and after its sync. -/
theorem unbridged_refines_iff (token : TokenProgram) (st : Program) (hreached : st.Reached token)
    (id : Nat) (s : SubPoolState) (hs : st.subPools.get? id = some s) (t : SubPool)
    (ht : s.full st.market.maxDistributionLedgerSize = .ok t) :
    (∀ signer isLong t' out,
      harvestDust (marketParamsFrom st.market) t (.ofIsLong isLong) = .ok (t', out) →
      (st.Matches id (st.harvestDust token id signer isLong) t' ↔
        st.Sweeps token signer out.amount ∧ ∀ d, (t.side d).recoveryShares = 0)) ∧
    ∀ owner wallet (params : Program.OpenParams) t' p out,
      openPosition (marketParamsFrom st.market) t params.envelope
        (.ofIsLong params.directionIsLong) params.grossAmount params.positionId
          = .ok (t', p, out) →
      (st.Matches id (st.openPosition token id owner wallet params) t' ↔
        st.Affords token owner wallet params p out ∧
        (∀ d, (t.side d).recoveryShares = 0) ∧
        ∀ t1 sync, syncPool (marketParamsFrom st.market) t params.envelope = .ok (t1, sync) →
          ∀ d, (t1.side d).recoveryShares = 0) := by
  constructor
  · intro signer isLong t' out h
    exact harvestDust_matches_iff hreached.sane hs ht h
  · intro owner wallet params t' p out h
    exact openPosition_matches_iff hreached.sane hs ht h

end Refine

namespace Program

/-- Whatever harvest the engine accepts, the instruction carries it out. -/
def HarvestRefines (token : TokenProgram) (st : Program) (id : Nat) (t : SubPool) : Prop :=
  ∀ signer isLong t' out,
    MoleFinance.harvestDust (marketParamsFrom st.market) t (.ofIsLong isLong) = .ok (t', out) →
    st.Sweeps token signer out.amount →
    st.Matches id (st.harvestDust token id signer isLong) t'

def OpenRefines (token : TokenProgram) (st : Program) (id : Nat) (t : SubPool) : Prop :=
  ∀ owner wallet (params : OpenParams) t' p out,
    MoleFinance.openPosition (marketParamsFrom st.market) t params.envelope
      (.ofIsLong params.directionIsLong) params.grossAmount params.positionId = .ok (t', p, out) →
    st.Affords token owner wallet params p out →
    st.Matches id (st.openPosition token id owner wallet params) t'

def firstFull (st : Program) : Option (SubPoolState × SubPool) := do
  let s ← st.subPools.get? 0
  let t ← (s.full st.market.maxDistributionLedgerSize).toOption
  return (s, t)

theorem firstFull_some {st : Program} {s : SubPoolState} {t : SubPool}
    (h : st.firstFull = some (s, t)) :
    st.subPools.get? 0 = some s ∧ s.full st.market.maxDistributionLedgerSize = .ok t := by
  unfold firstFull at h
  obtain ⟨s0, hs, h⟩ := Option.bind_eq_some_iff.mp h
  obtain ⟨t0, ht, h⟩ := Option.bind_eq_some_iff.mp h
  cases h
  exact ⟨hs, toOption_some.mp ht⟩

end Program

def shortDeposit : Program.OpenParams := ⟨quoteAt (amount 90), false, amount 10, amount 3⟩

/-- A rotated side cannot be harvested on chain; and a deposit at the price that drains the long
    side leaves its recovery shares behind and its bucket out. -/
theorem unbridged_not_refined :
    (¬ ∀ st : Program, st.Reached splToken → ∀ id s t, st.subPools.get? id = some s →
      s.full st.market.maxDistributionLedgerSize = .ok t → st.HarvestRefines splToken id t) ∧
    ¬ ∀ st : Program, st.Reached splToken → ∀ id s t, st.subPools.get? id = some s →
      s.full st.market.maxDistributionLedgerSize = .ok t → st.OpenRefines splToken id t := by
  constructor
  · intro hall
    have hrun : ((chainRun 0 longDrained).2.firstFull.bind fun r =>
        ((harvestDust (marketParamsFrom (chainRun 0 longDrained).2.market) r.2
          .long).toOption.map fun h => h.2.amount)) = some 0 := by decide +kernel
    have hfail : ((chainRun 0 longDrained).2.harvestDust splToken 0 3 true).isOk = false := by
      decide +kernel
    obtain ⟨⟨s, t⟩, hst, hrun⟩ := Option.bind_eq_some_iff.mp hrun
    obtain ⟨⟨t', out⟩, hh, hamount⟩ := Option.map_eq_some_iff.mp hrun
    obtain ⟨hs, ht⟩ := Program.firstFull_some hst
    have hm := hall _ (chainRun_reached (by decide) longDrained) 0 s t hs ht 3 true t' out
      (toOption_some.mp hh)
      ⟨by decide +kernel, by decide +kernel, hamount ▸ Nat.two_pow_pos 64, _, .inl ⟨hamount, rfl⟩⟩
    obtain ⟨st', s', hok, -, -⟩ := hm
    rw [hok] at hfail
    cases hfail
  · intro hall
    have hrun : (beforeDrain.firstFull.bind fun r =>
        ((openPosition (marketParamsFrom beforeDrain.market) r.2 shortDeposit.envelope .short
          shortDeposit.grossAmount shortDeposit.positionId).toOption.map fun h =>
            ((h.1.side .long).dormant.buckets.size, h.2.1.principal, h.2.2.principalIntoPool,
              h.2.2.openFee))) = some (1, 10, 10, 0) := by decide +kernel
    have hread : ((beforeDrain.openPosition splToken 0 8 8 shortDeposit).toOption.bind fun st' =>
        (st'.subPools.get? 0).bind fun s => (s.full
          beforeDrain.market.maxDistributionLedgerSize).toOption.map fun t =>
            (t.side .long).dormant.buckets.size) = some 0 := by
      decide +kernel
    obtain ⟨⟨s, t⟩, hst, hrun⟩ := Option.bind_eq_some_iff.mp hrun
    obtain ⟨⟨t', p, out⟩, ho, hvals⟩ := Option.map_eq_some_iff.mp hrun
    obtain ⟨hs, ht⟩ := Program.firstFull_some hst
    simp only [Prod.mk.injEq] at hvals
    obtain ⟨hsize, hp, hinto, hfee⟩ := hvals
    have haff : beforeDrain.Affords splToken 8 8 shortDeposit p out := by
      have hw : (beforeDrain.userTokenAccount 8 8).toOption = some ⟨6, .user 8, 800⟩ := by
        decide +kernel
      have hv : beforeDrain.positions.get? (positionKey 8 (amount 3)) = none := by decide +kernel
      have hmove : (tokenTransfer splToken beforeDrain 8 beforeDrain.market.vault (.user 8) 10).isOk
          = true := by decide +kernel
      have hpay : ∃ st1, Program.payIn splToken beforeDrain 8 8 p.principal out = .ok st1 := by
        unfold Program.payIn transferDue
        simp only [hinto, hfee, hp, if_pos (show 0 < 10 by decide), if_neg (lt_irrefl 0)]
        cases hm : tokenTransfer splToken beforeDrain 8 beforeDrain.market.vault (.user 8) 10 with
        | error e =>
          rw [hm] at hmove
          cases hmove
        | ok st1 => exact ⟨st1, rfl⟩
      obtain ⟨st1, hpay⟩ := hpay
      exact ⟨hv, by decide +kernel, _, st1, toOption_some.mp hw, hpay⟩
    obtain ⟨st', s', hok, hs', hfull⟩ := hall beforeDrain
      (chainRun_reached (by decide) (bothSides ++ dormantAccounts)) 0 s t hs ht 8 8 shortDeposit
      t' p out (toOption_some.mp ho) haff
    rw [hok, Except.toOption, Option.bind_some, hs', Option.bind_some, hfull] at hread
    simp only [Except.toOption, Option.map_some, Option.some.injEq] at hread
    rw [SubPool.side_unlogged] at hread
    exact absurd (hread.symm.trans hsize) (by decide)

/-- Before the drain the treasury collects an empty dust pot. -/
theorem beforeDrain_harvest_refined :
    ∃ s t t' out, beforeDrain.firstFull = some (s, t) ∧
      harvestDust (marketParamsFrom beforeDrain.market) t .long = .ok (t', out) ∧
      beforeDrain.Matches 0 (beforeDrain.harvestDust splToken 0 3 true) t' := by
  have hrun : (beforeDrain.firstFull.bind fun r =>
      ((harvestDust (marketParamsFrom beforeDrain.market) r.2 .long).toOption.map fun h =>
        (h.2.amount, (r.2.side .long).recoveryShares, (r.2.side .short).recoveryShares)))
          = some (0, 0, 0) := by decide +kernel
  obtain ⟨⟨s, t⟩, hst, hrun⟩ := Option.bind_eq_some_iff.mp hrun
  obtain ⟨⟨t', out⟩, hh, hvals⟩ := Option.map_eq_some_iff.mp hrun
  obtain ⟨hs, ht⟩ := Program.firstFull_some hst
  simp only [Prod.mk.injEq] at hvals
  obtain ⟨hamount, hlong, hshort⟩ := hvals
  have hsweeps : beforeDrain.Sweeps splToken 3 out.amount :=
    ⟨by decide +kernel, by decide +kernel, hamount ▸ Nat.two_pow_pos 64, _, .inl ⟨hamount, rfl⟩⟩
  refine ⟨s, t, t', out, hst, toOption_some.mp hh, ?_⟩
  refine ((unbridged_refines_iff splToken beforeDrain (chainRun_reached (by decide)
    (bothSides ++ dormantAccounts)) 0 s hs t ht).1 3 true t' out (toOption_some.mp hh)).mpr
      ⟨hsweeps, fun d => ?_⟩
  cases d with
  | long => exact hlong
  | short => exact hshort

end MoleFinance
