import MoleFinance.Chain.Coverage
import MoleFinance.Engine.Bare

/-! Custody: the tokens in the vault against what the accounts of all sub-pools stand for. -/
namespace MoleFinance
open MoleMath Call Trace

/-- `accrued_value_total` and `pending_distribution_total` of the ledger account. -/
def DormantAccounts.funds (x : DormantAccounts) : Nat :=
  (x.ledger.map (fun l => l.accruedValueTotal + l.pendingDistributionTotal)).getD 0

def SideAccount.funds (x : SideAccount) : Nat := x.poolEquity + x.dust

def SubPoolAccount.funds (s : SubPoolAccount) : Nat := s.long.funds + s.short.funds

def SubPoolState.funds (s : SubPoolState) : Nat := s.account.funds + (s.long.funds + s.short.funds)

def Program.funds (st : Program) : Nat := st.subPools.sum (fun _ s => s.funds)

section Stores
variable {x : DormantAccounts} {key : Pubkey} {d : Direction} {maxEntries : U32}
  {store : DormantStore}

theorem LedgerAccount.image_funds {l : LedgerAccount} (h : l.image d = store.image maxEntries) :
    l.accruedValueTotal + l.pendingDistributionTotal = store.funds := by
  have ha := congrArg OnChainLedger.accruedValueTotal h
  have hp := congrArg OnChainLedger.pendingDistributionTotal h
  exact congrArg₂ (· + ·) ha hp

theorem DormantAccounts.Holds.funds_eq (h : x.Holds key d maxEntries store) :
    x.funds = store.funds := by
  rw [← LedgerAccount.image_funds h.ledger]
  unfold DormantAccounts.funds ledgerOrEmpty
  cases x.ledger with
  | none => rfl
  | some l => rfl

end Stores

theorem SubPoolState.Intact.value_eq {s : SubPoolState} {maxEntries : U32} {t : SubPool}
    (h : s.Intact maxEntries t) : t.value = s.funds := by
  have hside : ∀ d, (t.side d).value = (s.account.side d).funds + (s.dormant d).funds := by
    intro d
    have hf := (h.holds d).funds_eq
    rw [h.side_eq]
    simp only [Side.value, SideAccount.view, SideAccount.funds]
    omega
  have hl := hside .long
  have hs := hside .short
  simp only [SubPool.side, SubPoolAccount.side, SubPoolState.dormant] at hl hs
  simp only [SubPool.value, SubPoolState.funds, SubPoolAccount.funds]
  omega

/-- Written back, a view stands for its value less what its own stores hold. -/
theorem applyClearingView_funds (a : SubPoolAccount) (view : SubPool) :
    (applyClearingView a view).funds + (view.long.dormant.funds + view.short.dormant.funds)
      = view.value := by
  simp only [SubPoolAccount.funds, SideAccount.funds, applyClearingView, SideAccount.apply,
    SubPool.value, Side.value]
  omega

namespace Program
variable {token : TokenProgram} {st st' : Program} {id : Nat} {s : SubPoolState}

theorem funds_insert (h : st.subPools.get? id = some s) (s' : SubPoolState) :
    Program.funds { st with subPools := st.subPools.insert id s' } + s.funds
      = st.funds + s'.funds := OrdMap.sum_insert_old (fun _ s => s.funds) s' h

theorem funds_ge (h : st.subPools.get? id = some s) : s.funds ≤ st.funds :=
  OrdMap.le_sum (fun _ (s : SubPoolState) => s.funds) h

theorem Carried.funds {remaining : RemainingAccounts} {call : BridgedCall}
    {outcome : BridgedOutcome} {t view : SubPool} {long short long' short' : BridgedSide}
    (h : st.Carried id remaining call st' outcome s t view long short long' short') :
    st'.funds + outcome.paid = st.funds ∧ outcome.paid ≤ st.funds := by
  have hledger : ∀ d, (BridgedSide.of d long' short').ledger.accruedValueTotal
      + (BridgedSide.of d long' short').ledger.pendingDistributionTotal
        = (view.side d).dormant.funds := by
    intro d
    obtain ⟨o, hr⟩ := h.repack d
    exact LedgerAccount.image_funds hr.ledger_image.1
  have hl := hledger .long
  have hs := hledger .short
  have hview := applyClearingView_funds s.account view
  have hmoved := h.moved.2
  have hvalue := h.intact.value_eq
  have hins := funds_insert h.found {
    account := applyClearingView s.account view
    long := s.long.written long'
    short := s.short.written short' }
  have hge := funds_ge h.found
  rw [h.state]
  simp only [SubPoolState.funds, DormantAccounts.funds, DormantAccounts.written, Option.map_some,
    Option.getD_some, BridgedSide.of, SubPool.side] at hl hs hvalue hins hge ⊢
  omega

end Program

/-- One token into a pool that is not empty and does not divide the active shares. -/
def Side.Skims (x : Side) (principal : Nat) : Prop :=
  principal = 1 ∧ 0 < x.poolEquity ∧ ¬ x.poolEquity ∣ x.activeShares

def Program.synced (st : Program) (c : OpenCall) : Except ProgramError SubPool := do
  let s ← found (st.subPools.get? c.subPoolId)
  let (view, _) ← engine (MoleFinance.syncPool (marketParamsFrom st.market)
    (clearingView s.account) c.params.envelope)
  return view

/-- How a deposit brings more or less than its principal into the vault: it is skimmed, its fee
    goes there too, or it is drawn on the vault itself. -/
inductive Program.Strays (st : Program) (wallet : Pubkey) (x : Side) (fee principal : Nat) : Prop
  | skimmed (hw : wallet ≠ st.market.vault) (hf : st.market.feeVault ≠ st.market.vault)
      (h : x.Skims principal)
  | shared (hw : wallet ≠ st.market.vault) (hf : st.market.feeVault = st.market.vault)
      (h : ¬ x.Skims principal) (hfee : fee ≠ 0)
  | sharedSkimmed (hw : wallet ≠ st.market.vault) (hf : st.market.feeVault = st.market.vault)
      (h : x.Skims principal) (hfee : fee ≠ 1)
  | drawn (hw : wallet = st.market.vault)
      (h : ¬ (principal = 0 ∧ (fee = 0 ∨ st.market.feeVault = st.market.vault)))

section Strays
variable {st : Program} {wallet : Pubkey} {x : Side} {fee principal : Nat}

theorem Program.strays_drawn (hw : wallet = st.market.vault) : st.Strays wallet x fee principal ↔
    ¬ (principal = 0 ∧ (fee = 0 ∨ st.market.feeVault = st.market.vault)) := by
  refine ⟨fun h => ?_, .drawn hw⟩
  cases h with
  | drawn _ h => exact h
  | skimmed hne _ _ => exact absurd hw hne
  | shared hne _ _ _ => exact absurd hw hne
  | sharedSkimmed hne _ _ _ => exact absurd hw hne

theorem Program.strays_shared (hw : wallet ≠ st.market.vault)
    (hf : st.market.feeVault = st.market.vault) : st.Strays wallet x fee principal ↔
      x.Skims principal ∧ fee ≠ 1 ∨ ¬ x.Skims principal ∧ fee ≠ 0 := by
  constructor
  · intro h
    cases h with
    | skimmed _ hne _ => exact absurd hf hne
    | shared _ _ h hfee => exact .inr ⟨h, hfee⟩
    | sharedSkimmed _ _ h hfee => exact .inl ⟨h, hfee⟩
    | drawn he _ => exact absurd he hw
  · intro h
    cases h with
    | inl h => exact .sharedSkimmed hw hf h.1 h.2
    | inr h => exact .shared hw hf h.1 h.2

theorem Program.strays_apart (hw : wallet ≠ st.market.vault)
    (hf : st.market.feeVault ≠ st.market.vault) :
    st.Strays wallet x fee principal ↔ x.Skims principal := by
  refine ⟨fun h => ?_, .skimmed hw hf⟩
  cases h with
  | skimmed _ _ h => exact h
  | shared _ he _ _ => exact absurd he hf
  | sharedSkimmed _ he _ _ => exact absurd he hf
  | drawn he _ => exact absurd he hw

end Strays

namespace ChainOp

end ChainOp

section Steps
variable {token : TokenProgram} {st st' : Program}

theorem Transfers.balance_eq (ht : token.Exact) {tokens tokens' : TokenAccounts} {due n : Nat}
    {source dest : Pubkey} {authority : TokenOwner}
    (h : Transfers token tokens due source dest authority n tokens') (key : Pubkey) :
    balanceOf tokens' key + (if key = source ∧ due ≠ 0 then n else 0)
      = balanceOf tokens key + (if key = dest ∧ due ≠ 0 then n else 0) := by
  cases h with
  | inl h =>
    obtain ⟨rfl, rfl⟩ := h
    simp
  | inr h =>
    obtain ⟨hdue, h⟩ := h
    simpa [Nat.ne_of_gt hdue] using ht.moved h key

/-- A user's account is not the vault where the program signs for the vault. -/
theorem Pays.vault_eq (ht : token.Exact) {n : Nat} {tokens' : TokenAccounts}
    (h : Pays token st n tokens') : balanceOf tokens' st.market.vault + n = st.vault := by
  cases h with
  | inl h =>
    obtain ⟨rfl, rfl⟩ := h
    rfl
  | inr h =>
    obtain ⟨wallet, w, owner, hw, howner, h⟩ := h
    obtain ⟨a, ha, hauthority⟩ := ht.signed h
    have hne : st.market.vault ≠ wallet := by
      intro he
      rw [he, hw] at ha
      cases ha
      rw [howner] at hauthority
      cases hauthority
    have hmoved := ht.moved h st.market.vault
    rw [if_pos rfl, if_neg hne] at hmoved
    exact hmoved

/-- A deposit leaves the vault with its principal more just where it does not stray. -/
theorem Collects.vault_eq (ht : token.Exact) {owner wallet : Pubkey} {principal : Nat}
    {out : OpenOutcome} {tokens' : TokenAccounts} {x : Side}
    (h : Collects token st owner wallet principal out tokens')
    (hskims : out.principalIntoPool = 0 ∧ principal ≠ 0 ↔ x.Skims principal) :
    balanceOf tokens' st.market.vault = st.vault + principal ↔
      ¬ st.Strays wallet x out.openFee principal := by
  obtain ⟨tokens, hprincipal, hfee⟩ := h
  have hinto := hprincipal.balance_eq ht st.market.vault
  have hthen := hfee.balance_eq ht st.market.vault
  change _ = st.vault + _ at hinto
  have hone : x.Skims principal → principal = 1 := fun h => h.1
  simp only [true_and] at hinto
  by_cases hw : wallet = st.market.vault
  · rw [Program.strays_drawn hw, not_not]
    simp only [hw, true_and] at hinto hthen
    by_cases hf : st.market.feeVault = st.market.vault
    · simp only [hf, true_and] at hthen
      simp only [hf, or_true, and_true]
      omega
    · simp only [Ne.symm hf, false_and, if_false] at hthen
      simp only [hf, or_false]
      split_ifs at hthen with hzero <;> omega
  · simp only [Ne.symm hw, false_and, if_false] at hinto hthen
    by_cases hf : st.market.feeVault = st.market.vault
    · rw [Program.strays_shared hw hf, ← hskims]
      simp only [hf, true_and] at hthen
      rw [← hskims] at hone
      split_ifs at hinto hthen with h1 h2 <;> omega
    · rw [Program.strays_apart hw hf, ← hskims]
      simp only [Ne.symm hf, false_and, if_false] at hthen
      split_ifs at hinto with h1 <;> omega

theorem Arranged.funds_eq {maxEntries : U32} {s s' : SubPoolState} (h : Arranged maxEntries s s') :
    s'.funds = s.funds := by
  have hd : ∀ d, (s'.dormant d).funds = (s.dormant d).funds := by
    cases h with
    | ledger e hnone =>
      intro d
      rw [SubPoolState.setLedger, SubPoolState.dormant_setDormant]
      split_ifs with he
      · rw [he, DormantAccounts.funds, DormantAccounts.funds, hnone]
        rfl
      · rfl
    | bucket e tick hnone =>
      intro d
      rw [SubPoolState.setBucket, SubPoolState.dormant_setDormant]
      split_ifs with he
      · rw [he]
        rfl
      · rfl
    | closed e tick b hget hdead =>
      intro d
      rw [SubPoolState.dormant_setDormant]
      split_ifs with he
      · rw [he]
        rfl
      · rfl
  have hl := hd .long
  have hs := hd .short
  simp only [SubPoolState.dormant] at hl hs
  rw [SubPoolState.funds, SubPoolState.funds, h.account_eq, hl, hs]

end Steps

theorem Program.Fresh.funds_eq {st : Program} (h : st.Fresh) : st.funds = 0 := by
  rw [Program.funds, h.subPools, OrdMap.sum_empty]

theorem Program.Fresh.sane {st : Program} (h : st.Fresh) : st.Sane := by
  intro id s hs
  rw [h.subPools] at hs
  cases hs

end MoleFinance
