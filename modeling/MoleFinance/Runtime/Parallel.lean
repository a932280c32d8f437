import MoleFinance.Host.Housing
import MoleFinance.Indexer.Replay
import MoleFinance.Runtime.ReadBack

/-! The harness and the loose runtime side by side: the states of the two, how their funds move,
and how the outcomes of two calls compare. -/
namespace MoleFinance
open MoleMath Call Trace

def indexerView : IndexerView IndexerState IndexerError where
  applyAll := Indexer.applyAll
  equity x positionId := ((x.positions.get? positionId).map (·.equity)).getD 0

/-! The three movements of funds, on either side. -/

namespace Harness
variable {ι ε : Type} {h : Harness ι} {amount gross : Nat} {out : OpenOutcome}

def paid (h : Harness ι) (amount : Nat) : Harness ι :=
  { h with
    vaultBalance := h.vaultBalance - amount
    totalWithdrawals := h.totalWithdrawals + amount }

def swept (h : Harness ι) (amount : Nat) : Harness ι :=
  { h with
    vaultBalance := h.vaultBalance - amount
    feeVaultBalance := h.feeVaultBalance + amount
    feesCollected := h.feesCollected + amount
    dustSwept := h.dustSwept + amount }

def deposited (h : Harness ι) (gross : Nat) (out : OpenOutcome) : Harness ι :=
  { h with
    vaultBalance := h.vaultBalance + (out.principalIntoPool + out.dust)
    feeVaultBalance := h.feeVaultBalance + out.openFee
    feesCollected := h.feesCollected + out.openFee
    totalDeposits := h.totalDeposits + gross }

theorem withdraw_eq (hb : Balanced amount 0 0 h) (reason : String) :
    (withdraw reason amount : Run ι ε Unit) h = .ok () (h.paid amount) := by
  have hp := hb.paid_le
  obtain ⟨hlt, hwv, -⟩ := hb.bounds
  rw [withdraw, get_bind, ensure_of hp, orFail_ok_bind, plus_of (by omega), orFail_ok_bind]
  rfl

theorem sweep_eq (hb : Balanced amount 0 0 h) :
    (sweep amount : Run ι ε Unit) h = .ok () (h.swept amount) := by
  have hp := hb.paid_le
  have hs := hb.swept_le
  have hf := hb.fees_eq
  obtain ⟨hlt, -, hcv⟩ := hb.bounds
  rw [sweep, get_bind, ensure_of hp, orFail_ok_bind, plus_of (by omega), orFail_ok_bind,
    plus_of (by omega), orFail_ok_bind, plus_of (by omega), orFail_ok_bind]
  rfl

theorem deposit_eq (hb : Balanced 0 (out.principalIntoPool + out.dust) out.openFee h)
    (hsum : out.principalIntoPool + out.dust + out.openFee = gross) :
    (deposit gross out : Run ι ε Unit) h = .ok () (h.deposited gross out) := by
  have hf := hb.fees_eq
  obtain ⟨hlt, -, hcv⟩ := hb.bounds
  rw [deposit, get_bind, ensure_of (by omega), orFail_ok_bind, ensure_of (by omega),
    orFail_ok_bind, ensure_of hsum, orFail_ok_bind, plus_of (by omega), orFail_ok_bind,
    plus_of (by omega), orFail_ok_bind, plus_of (by omega), orFail_ok_bind, plus_of (by omega),
    orFail_ok_bind]
  rfl

theorem Balanced.paid (hb : Balanced amount 0 0 h) : Balanced 0 0 0 (h.paid amount) :=
  (withdraw_meets (ε := Empty) "" amount (fun _ _ => True)).ok hb (withdraw_eq hb "")

theorem Balanced.swept (hb : Balanced amount 0 0 h) : Balanced 0 0 0 (h.swept amount) :=
  (sweep_meets (ε := Empty) amount (fun _ _ => True)).ok hb (sweep_eq hb)

theorem Balanced.deposited (hb : Balanced 0 (out.principalIntoPool + out.dust) out.openFee h)
    (hsum : out.principalIntoPool + out.dust + out.openFee = gross) :
    Balanced 0 0 0 (h.deposited gross out) :=
  (deposit_meets (ε := Empty) hsum (fun _ _ => True)).ok hb (deposit_eq hb hsum)

end Harness

namespace Runtime
namespace ChainRuntime
variable {x : ChainRuntime} {amount gross : Nat} {out : OpenOutcome}

def paid (x : ChainRuntime) (amount : Nat) : ChainRuntime :=
  { x with
    vaultBalance := x.vaultBalance - amount
    totalWithdrawals := x.totalWithdrawals + amount }

def swept (x : ChainRuntime) (amount : Nat) : ChainRuntime :=
  { x with
    vaultBalance := x.vaultBalance - amount
    feeVaultBalance := x.feeVaultBalance + amount }

def deposited (x : ChainRuntime) (gross : Nat) (out : OpenOutcome) : ChainRuntime :=
  { x with
    vaultBalance := x.vaultBalance + (out.principalIntoPool + out.dust)
    feeVaultBalance := x.feeVaultBalance + out.openFee
    totalDeposits := x.totalDeposits + gross }

theorem plus_of {a b : Nat} (h : a + b < u128Size) : plus a b = .ok (a + b) := by
  rw [plus, ensure_of h]
  rfl

theorem payOut_eq (hv : amount ≤ x.vaultBalance) (hw : x.totalWithdrawals + amount < u128Size)
    (reason : String) : payOut reason amount x = .ok () (x.paid amount) := by
  rw [payOut, get_bind, ensure_of hv, orFail_ok_bind, plus_of hw, orFail_ok_bind]
  rfl

theorem sweep_eq (hv : amount ≤ x.vaultBalance) (hf : x.feeVaultBalance + amount < u128Size) :
    sweep amount x = .ok () (x.swept amount) := by
  rw [sweep, get_bind, ensure_of hv, orFail_ok_bind, plus_of hf, orFail_ok_bind]
  rfl

theorem bookDeposit_eq (hv : x.vaultBalance + (out.principalIntoPool + out.dust) < u128Size)
    (hf : x.feeVaultBalance + out.openFee < u128Size)
    (hd : x.totalDeposits + gross < u128Size) :
    bookDeposit gross out x = .ok () (x.deposited gross out) := by
  rw [bookDeposit, get_bind, ensure_of (by omega), orFail_ok_bind, plus_of hv, orFail_ok_bind,
    plus_of hf, orFail_ok_bind, plus_of hd, orFail_ok_bind]
  rfl

end ChainRuntime

section Parallel
variable {ι : Type} {h g : Harness ι} {x : ChainRuntime} {ids : List Nat} {id k amount : Nat}
  {account : SubPoolAccount} {long short : DistributionLedgerAccount} {w : World} {p : Position}

/-- The accounts hold what the harness has in memory. -/
structure Parallel (h : Harness ι) (x : ChainRuntime) : Prop where
  market : x.market.params = h.market
  loose : x.strictPdaLifecycle = false
  shaped : x.Shaped
  subPool : ∀ id s, h.subPools.get? id = some s → x.Holds id s
  absent : ∀ id, h.subPools.get? id = none → x.subPools.get? id = none
  position : ∀ k, x.positions.get? k = (h.positions.get? k).map (fun p => ⟨p.subPoolId, p⟩)
  vaultBalance : x.vaultBalance = h.vaultBalance
  feeVaultBalance : x.feeVaultBalance = h.feeVaultBalance
  totalDeposits : x.totalDeposits = h.totalDeposits
  totalWithdrawals : x.totalWithdrawals = h.totalWithdrawals
  nextPositionId : x.nextPositionId = h.nextPositionId

namespace Parallel

theorem fits (par : Parallel h x) (hw : w.Housed h.market id) : x.Fits id w.subPool := by
  refine fun d => ⟨⟨?_, ?_⟩, fun hs => ?_⟩
  · rw [par.market]
    exact hw.bucketCount_le d
  · rw [par.market]
    exact hw.within d
  · rw [par.loose] at hs
    cases hs

theorem written (par : Parallel h x) (hp : x.Present id account long short)
    (hw : w.Housed h.market id) :
    Parallel { h with subPools := h.subPools.insert id w.subPool }
      (x.written id account long short w.subPool) := by
  have htouch := ChainRuntime.written_touches hp w.subPool
  have hkey : account.subPoolId = id := x.keyed id account hp.account
  have hdir : ∀ d, (w.subPool.side d).dormant.direction = d :=
    fun d => (hw.reached.inv.sound d).2
  have hholds : (x.written id account long short w.subPool).Holds id w.subPool :=
    ChainRuntime.written_holds par.shaped par.loose hp (hw.id_eq.trans hkey.symm) (par.fits hw)
      (fun d => hw.reached.produced d) hdir
  have hshaped : (x.written id account long short w.subPool).Shaped := par.shaped.written hdir
  have hrest := ChainRuntime.withAccounts_of_rest htouch.rest.symm
  refine ⟨?_, ?_, hshaped, ?_, ?_, ?_, ?_, ?_, ?_, ?_, ?_⟩
  · exact (congrArg (·.params) htouch.market_eq).trans par.market
  · exact htouch.strict_eq.trans par.loose
  · intro i s hs
    simp only [OrdMap.get?_insert] at hs
    split_ifs at hs with hi
    · cases hs
      exact hi ▸ hholds
    · exact (par.subPool i s hs).touched htouch hi
  · intro i hi
    simp only [OrdMap.get?_insert] at hi
    split_ifs at hi with hne
    rw [htouch.subPools i hne]
    exact par.absent i hi
  all_goals rw [← hrest]
  · exact par.position
  · exact par.vaultBalance
  · exact par.feeVaultBalance
  · exact par.totalDeposits
  · exact par.totalWithdrawals
  · exact par.nextPositionId

theorem withPosition (par : Parallel h x) (k : Nat) (p : Position) :
    Parallel { h with positions := h.positions.insert k p }
      { x with positions := x.positions.insert k ⟨p.subPoolId, p⟩ } :=
  { par with
    shaped := ⟨par.shaped.bucket, par.shaped.ledger⟩
    subPool := fun i s hs => (par.subPool i s hs).of_accounts rfl rfl rfl
    position := by
      intro j
      simp only [OrdMap.get?_insert]
      split_ifs
      · rfl
      · exact par.position j }

theorem withNextId (par : Parallel h x) (n : Nat) :
    Parallel { h with nextPositionId := n } { x with nextPositionId := n } :=
  { par with
    shaped := ⟨par.shaped.bucket, par.shaped.ledger⟩
    subPool := fun i s hs => (par.subPool i s hs).of_accounts rfl rfl rfl
    nextPositionId := rfl }

theorem paid (par : Parallel h x) (amount : Nat) : Parallel (h.paid amount) (x.paid amount) :=
  { par with
    shaped := ⟨par.shaped.bucket, par.shaped.ledger⟩
    subPool := fun i s hs => (par.subPool i s hs).of_accounts rfl rfl rfl
    vaultBalance := congrArg (· - amount) par.vaultBalance
    totalWithdrawals := congrArg (· + amount) par.totalWithdrawals }

theorem swept (par : Parallel h x) (amount : Nat) : Parallel (h.swept amount) (x.swept amount) :=
  { par with
    shaped := ⟨par.shaped.bucket, par.shaped.ledger⟩
    subPool := fun i s hs => (par.subPool i s hs).of_accounts rfl rfl rfl
    vaultBalance := congrArg (· - amount) par.vaultBalance
    feeVaultBalance := congrArg (· + amount) par.feeVaultBalance }

theorem deposited (par : Parallel h x) (gross : Nat) (out : OpenOutcome) :
    Parallel (h.deposited gross out) (x.deposited gross out) :=
  { par with
    shaped := ⟨par.shaped.bucket, par.shaped.ledger⟩
    subPool := fun i s hs => (par.subPool i s hs).of_accounts rfl rfl rfl
    vaultBalance := congrArg (· + (out.principalIntoPool + out.dust)) par.vaultBalance
    feeVaultBalance := congrArg (· + out.openFee) par.feeVaultBalance
    totalDeposits := congrArg (· + gross) par.totalDeposits }

theorem indexed (par : Parallel h x) (indexer : ι) : Parallel { h with indexer := indexer } x :=
  { par with }

end Parallel

structure Paired (ids : List Nat) (h : Harness ι) (x : ChainRuntime) : Prop where
  hosting : h.Hosting ids
  balanced : h.Balanced 0 0 0
  parallel : Parallel h x

theorem Paired.indexed (hp : Paired ids h x) (indexer : ι) :
    Paired ids { h with indexer := indexer } x where
  hosting := hp.hosting.of_pools rfl rfl rfl rfl
  balanced := hp.balanced.of_funds rfl rfl rfl rfl rfl rfl rfl rfl
  parallel := hp.parallel.indexed indexer

end Parallel

section Alike
variable {ι ε α β α' β' : Type} {S : Harness ι → ChainRuntime → Prop}
  {E : HarnessError ε → MirrorError → Prop} {R : α → β → Prop}

/-- Two calls that both return or both fail. Only the harness has an indexer to refuse events. -/
inductive Alike (S : Harness ι → ChainRuntime → Prop) (E : HarnessError ε → MirrorError → Prop)
    (R : α → β → Prop) : EStateM.Result (HarnessError ε) (Harness ι) α →
      EStateM.Result MirrorError ChainRuntime β → Prop where
  | done {a : α} {b : β} {h : Harness ι} {x : ChainRuntime} (hr : R a b) (hs : S h x) :
      Alike S E R (.ok a h) (.ok b x)
  | failed {e : HarnessError ε} {e' : MirrorError} {h : Harness ι} {x : ChainRuntime}
      (he : E e e') (hs : S h x) : Alike S E R (.error e h) (.error e' x)
  | unindexed {e : ε} {b : β} {h : Harness ι} {x : ChainRuntime} (hs : S h x) :
      Alike S E R (.error (.indexer e) h) (.ok b x)

theorem Alike.map {m : Harness.Run ι ε α} {n : MirrorM β} {h : Harness ι} {x : ChainRuntime}
    (halike : Alike S E R (m h) (n x)) {f : α → α'} {g : β → β'} {Q : α' → β' → Prop}
    (hq : ∀ a b, R a b → Q (f a) (g b)) :
    Alike S E Q ((do return f (← m) : Harness.Run ι ε α') h)
      ((do return g (← n) : MirrorM β') x) := by
  generalize hm : m h = r at halike
  generalize hn : n x = r' at halike
  cases halike with
  | done hr hs =>
    rw [bind_of_ok hm, bind_of_ok hn]
    exact .done (hq _ _ hr) hs
  | failed he hs =>
    rw [bind_of_error hm, bind_of_error hn]
    exact .failed he hs
  | unindexed hs =>
    rw [bind_of_error hm, bind_of_ok hn]
    exact .unindexed hs

theorem Alike.imp {r : EStateM.Result (HarnessError ε) (Harness ι) α}
    {r' : EStateM.Result MirrorError ChainRuntime β} {E' : HarnessError ε → MirrorError → Prop}
    (halike : Alike S E R r r') (hE : ∀ e e', E e e' → E' e e') : Alike S E' R r r' := by
  cases halike with
  | done hr hs => exact .done hr hs
  | failed he hs => exact .failed (hE _ _ he) hs
  | unindexed hs => exact .unindexed hs

theorem Alike.events (view : IndexerView ι ε) (events : List EngineEvent) {a : α} {b : β}
    {h : Harness ι} {x : ChainRuntime} (hr : R a b)
    (hs : ∀ indexer, S { h with indexer := indexer } x) :
    Alike S E R ((do Harness.applyEvents view events; return a : Harness.Run ι ε α) h)
      (.ok b x) := by
  cases hi : view.applyAll events h.indexer with
  | ok u indexer =>
    have happly : Harness.applyEvents view events h = .ok () { h with indexer := indexer } := by
      rw [Harness.applyEvents, get_bind, hi]
      rfl
    rw [bind_of_ok happly]
    exact .done hr (hs indexer)
  | error e indexer =>
    have happly : Harness.applyEvents view events h
        = .error (.indexer e) { h with indexer := indexer } := by
      rw [Harness.applyEvents, get_bind, hi]
      rfl
    rw [bind_of_error happly]
    exact .unindexed (hs indexer)

/-- The same error; an overflowing counter aborts either call. -/
inductive SameError : HarnessError ε → MirrorError → Prop where
  | clearing (e : ClearingError) : SameError (.clearing e) (.clearing e)
  | positionNotFound (positionId : Nat) :
      SameError (.positionNotFound positionId) (.positionNotFound positionId)
  | aborted : SameError (.clearing .panic) .panic

end Alike

end Runtime
end MoleFinance
