import MoleFinance.Runtime.Parallel

/-! The loose runtime follows the harness. Both carry out the same engine calls, the runtime on a
sub-pool read from its accounts and written back to them, and show the same state after each. -/
namespace MoleFinance
open MoleMath Call Trace

namespace Runtime

section Calls
variable {ι ε α β γ : Type} {view : IndexerView ι ε} {ids : List Nat} {h : Harness ι}
  {x : ChainRuntime} {id k : Nat} {s : SubPool} {p : Position}

theorem Paired.owing {s' : SubPool} {amount : Nat} {positions : OrdMap Nat Position}
    (hp : Paired ids h x) (hs : h.subPools.get? id = some s) (hsound : s'.Sound)
    (hvalue : s'.value + amount = s.value) :
    Harness.Balanced amount 0 0 { h with
      subPools := h.subPools.insert id s'
      positions := positions } :=
  hp.balanced.withSubPool hs hsound hvalue rfl hp.balanced.deposits_le hp.balanced.next_pos
    hp.balanced.next_lt rfl rfl rfl rfl rfl rfl

theorem Paired.present (hp : Paired ids h x) (hs : h.subPools.get? id = some s) :
    ∃ account long short, x.Present id account long short ∧ x.buildCoreSubPool id = .ok s := by
  have hb := (hp.parallel.subPool id s hs).built
  obtain ⟨account, long, short, _, _, hpres, -⟩ := ChainRuntime.buildCore_ok hb
  exact ⟨account, long, short, hpres, hb⟩

theorem onPosition_alike (hp : Paired ids h x)
    {call : MarketParams → SubPool → Position → Except ClearingError (SubPool × Position × α)}
    {op : EngineOp} {reply : Position → α → Reply} {amount : α → Nat}
    {pay : α → Harness.Run ι ε Unit} {pay' : α → MirrorM Unit} {events : α → List EngineEvent}
    {result : α → Nat → β} {result' : α → γ} {R : β → γ → Prop}
    (hop : ∀ market w p, w.positions.get? k = some p → op.call market w
      = some (w.withPosition k reply <$> call market w.subPool p))
    (hmoved : ∀ {market s p s' p' out}, s.Sound → call market s p = .ok (s', p', out) →
      s'.Sound ∧ s'.value + amount out = s.value)
    (hkept : ∀ {market s p s' p' out}, call market s p = .ok (s', p', out) →
      p'.subPoolId = p.subPoolId)
    (hpay : ∀ {out g}, Harness.Balanced (amount out) 0 0 g →
      pay out g = .ok () (g.paid (amount out)))
    (hpay' : ∀ {out y}, amount out ≤ y.vaultBalance →
      y.totalWithdrawals + amount out < u128Size → pay' out y = .ok () (y.paid (amount out)))
    (hR : ∀ out n, R (result out n) (result' out)) :
    Alike (Paired ids) SameError R
      (Harness.onPosition view k call pay events result h)
      (ChainRuntime.onPosition k call pay' result' x) := by
  have hget := hp.parallel.position k
  cases hk : h.positions.get? k with
  | none =>
    have hrun : Harness.onPosition view k call pay events result h
        = .error (.positionNotFound k) h := by
      rw [Harness.onPosition, get_bind, hk]
      rfl
    rw [hk] at hget
    rw [hrun, ChainRuntime.onPosition_missing hget]
    exact .failed (.positionNotFound k) hp
  | some p =>
    rw [hk] at hget
    obtain ⟨s, hs⟩ := hp.hosting.lodged k p hk
    obtain ⟨account, long, short, hpres, hb⟩ := hp.present hs
    cases hc : call h.market s p with
    | error e =>
      have hrun : Harness.onPosition view k call pay events result h
          = .error (.clearing e) h := by
        simp only [Harness.onPosition, get_bind, hk, hs, hc]
        rfl
      rw [hrun, ChainRuntime.onPosition_error hget hb (hp.parallel.market ▸ hc)]
      exact .failed (.clearing e) hp
    | ok r =>
      obtain ⟨s', p', out⟩ := r
      obtain ⟨hsound, hvalue⟩ := hmoved (hp.balanced.sound _ _ hs) hc
      have hid := hkept hc
      have howing : Harness.Balanced (amount out) 0 0 { h with
          subPools := h.subPools.insert p.subPoolId s'
          positions := h.positions.erase k } := hp.owing hs hsound hvalue
      have hcall : op.call h.market (h.world p.subPoolId s)
          = some (.ok (⟨s', (h.world p.subPoolId s).positions.insert k p'⟩, reply p' out)) := by
        rw [hop _ _ p (Harness.world_get? hk s)]
        exact congrArg (fun r => some (_ <$> r)) hc
      have hhoused := (hp.hosting.housed _ s hs).call hcall
      have hpar : Parallel { h with subPools := h.subPools.insert p.subPoolId s' }
          (x.written p.subPoolId account long short s') := hp.parallel.written hpres hhoused
      have hpos := hpar.withPosition k p'
      obtain ⟨hlt, hwv, -⟩ := howing.bounds
      have hle : amount out ≤ h.vaultBalance := howing.paid_le
      have hroom : h.totalWithdrawals + amount out < u128Size := by
        simp only at hlt hwv
        omega
      have hafter : x.afterCall k ⟨p.subPoolId, p⟩ account long short s' p'
          = { x.written p.subPoolId account long short s' with
              positions := (x.written p.subPoolId account long short s').positions.insert k
                ⟨p'.subPoolId, p'⟩ } := by
        have hrest := congrArg ChainRuntime.positions
          (ChainRuntime.written_touches hpres s').rest
        rw [ChainRuntime.afterCall, hid]
        exact congrArg (fun ps : OrdMap Nat PositionAccount =>
          { x.written p.subPoolId account long short s' with
            positions := ps.insert k ⟨p.subPoolId, p'⟩ }) hrest.symm
      have hright : ChainRuntime.onPosition k call pay' result' x = _ :=
        ChainRuntime.onPosition_accepted hget hb (hp.parallel.market ▸ hc)
          (hp.parallel.fits hhoused) hpres
      rw [hright, hafter, bind_of_ok (hpay' (hpos.vaultBalance.symm ▸ hle)
        (hpos.totalWithdrawals.symm ▸ hroom))]
      have hleft : Harness.onPosition view k call pay events result h
          = (do Harness.applyEvents view (events out)
                return result out (view.equity h.indexer k) : Harness.Run ι ε β)
            (Harness.paid { h with
              subPools := h.subPools.insert p.subPoolId s'
              positions := h.positions.insert k p' } (amount out)) := by
        simp only [Harness.onPosition, get_bind, hk, hs, hc, set_bind]
        rw [bind_of_ok (hpay howing), Harness.paid,
          ← OrdMap.insert_erase h.positions k p']
        rfl
      rw [hleft]
      refine .events view _ (hR out _) fun indexer => Paired.indexed ⟨?_, ?_, ?_⟩ indexer
      · exact hp.hosting.withPosition hs hcall hid (fun q hq => by cases hk.symm.trans hq; rfl)
          rfl rfl rfl le_rfl (hp.hosting.fresh k p hk)
      · exact howing.paid.of_funds rfl rfl rfl rfl rfl rfl rfl rfl
      · exact hpos.paid (amount out)

theorem onSubPool_alike (hp : Paired ids h x) (hs : h.subPools.get? id = some s)
    {call : MarketParams → SubPool → Except ClearingError (SubPool × α)} {op : EngineOp}
    {reply : α → Reply} {amount : α → Nat} {pay : α → Harness.Run ι ε Unit}
    {pay' : α → MirrorM Unit} {events : α → List EngineEvent} {result : α → β} {m : MirrorM α}
    {E : HarnessError ε → MirrorError → Prop} {R : β → α → Prop}
    (hop : ∀ market w, op.call market w = some (w.withSubPool reply <$> call market w.subPool))
    (hmoved : ∀ {market s s' out}, s.Sound → call market s = .ok (s', out) →
      s'.Sound ∧ s'.value + amount out = s.value)
    (hpay : ∀ {out g}, Harness.Balanced (amount out) 0 0 g →
      pay out g = .ok () (g.swept (amount out)))
    (hpay' : ∀ {out y}, amount out ≤ y.vaultBalance →
      y.feeVaultBalance + amount out < u128Size → pay' out y = .ok () (y.swept (amount out)))
    (herror : ∀ {e}, x.buildCoreSubPool id = .ok s → call x.market.params s = .error e →
      m x = .error (.clearing e) x)
    (hdone : ∀ {s' out account long short}, x.buildCoreSubPool id = .ok s →
      call x.market.params s = .ok (s', out) → x.Fits id s' → x.Present id account long short →
      m x = (do pay' out; return out : MirrorM α) (x.written id account long short s'))
    (hE : ∀ e, E (.clearing e) (.clearing e)) (hR : ∀ out, R (result out) out) :
    Alike (Paired ids) E R (Harness.onSubPool view id call pay events result h) (m x) := by
  obtain ⟨account, long, short, hpres, hb⟩ := hp.present hs
  cases hc : call h.market s with
  | error e =>
    have hrun : Harness.onSubPool view id call pay events result h = .error (.clearing e) h := by
      simp only [Harness.onSubPool, get_bind, hs, hc]
      rfl
    rw [hrun, herror hb (hp.parallel.market ▸ hc)]
    exact .failed (hE e) hp
  | ok r =>
    obtain ⟨s', out⟩ := r
    obtain ⟨hsound, hvalue⟩ := hmoved (hp.balanced.sound _ _ hs) hc
    have howing : Harness.Balanced (amount out) 0 0
        { h with subPools := h.subPools.insert id s' } := hp.owing hs hsound hvalue
    have hcall : op.call h.market (h.world id s)
        = some (.ok ({ h.world id s with subPool := s' }, reply out)) := by
      rw [hop]
      exact congrArg (fun r => some (_ <$> r)) hc
    have hhoused := (hp.hosting.housed _ s hs).call hcall
    have hpar : Parallel { h with subPools := h.subPools.insert id s' }
        (x.written id account long short s') := hp.parallel.written hpres hhoused
    obtain ⟨hlt, -, hcv⟩ := howing.bounds
    have hle : amount out ≤ h.vaultBalance := howing.paid_le
    have hroom : h.feeVaultBalance + amount out < u128Size := by
      have hfees := hp.balanced.fees_eq
      simp only at hlt hcv
      omega
    rw [hdone hb (hp.parallel.market ▸ hc) (hp.parallel.fits hhoused) hpres,
      bind_of_ok (hpay' (hpar.vaultBalance.symm ▸ hle) (hpar.feeVaultBalance.symm ▸ hroom))]
    have hleft : Harness.onSubPool view id call pay events result h
        = (do Harness.applyEvents view (events out); return result out : Harness.Run ι ε β)
          (Harness.swept { h with subPools := h.subPools.insert id s' } (amount out)) := by
      simp only [Harness.onSubPool, get_bind, hs, hc, set_bind]
      rw [bind_of_ok (hpay howing)]
    rw [hleft]
    refine .events view _ (hR out) fun indexer => Paired.indexed ⟨?_, ?_, ?_⟩ indexer
    · exact hp.hosting.withSubPool hs hcall rfl rfl rfl rfl
    · exact howing.swept
    · exact hpar.swept (amount out)

theorem open_alike (hp : Paired ids h x) (hs : h.subPools.get? id = some s) (d : Direction)
    (gross : U64) (envelope : PriceEnvelope) :
    Alike (Paired ids) SameError (fun a b => b.positionId = a.positionId ∧
        b.sharesMinted = a.sharesMinted ∧ b.openFee = a.openFee)
      (Harness.open view id d gross envelope h) (ChainRuntime.open id d gross envelope x) := by
  have hnext := hp.parallel.nextPositionId
  obtain ⟨account, long, short, hpres, hb⟩ := hp.present hs
  by_cases hroom : h.nextPositionId + 1 < u64Size
  · have hnew : h.positions.get? h.nextPositionId = none := by
      cases hk : h.positions.get? h.nextPositionId with
      | none => rfl
      | some p => exact absurd (hp.hosting.fresh _ p hk) (lt_irrefl _)
    have hdup : ¬ h.positions.contains h.nextPositionId = true := by
      simp [OrdMap.contains, hnew]
    have hroom' : x.nextPositionId + 1 < u64Size := hnext.symm ▸ hroom
    cases hc : openPosition h.market s envelope d gross h.nextPositionId with
    | error e =>
      have hrun : Harness.open view id d gross envelope h = .error (.clearing e) h := by
        simp only [Harness.open, get_bind, hs, ensure_of hroom, orFail_ok_bind, if_neg hdup, hc]
        rfl
      have hc' : openPosition x.market.params s envelope d gross x.nextPositionId = .error e := by
        rw [hp.parallel.market, hnext, hc]
      rw [hrun, ChainRuntime.open_error hroom' hb hc']
      exact .failed (.clearing e) hp
    | ok r =>
      obtain ⟨s', p, out⟩ := r
      obtain ⟨hm, hfee, hprincipal⟩ := openPosition_moved (hp.balanced.sound _ _ hs) hc
      obtain ⟨s1, sync, ho⟩ := openPosition_ok hc
      obtain ⟨hsplit, -, -⟩ := mintShares_ok ho.minted
      have hsum : out.principalIntoPool + out.dust + out.openFee = gross := by omega
      have hgross : (gross : Nat) < u64Size := gross.2
      have hid : p.subPoolId = id :=
        (openPosition_subPoolId hc).trans (hp.hosting.housed id s hs).id_eq
      have hp' : { p with subPoolId := id } = p := by rw [← hid]
      have hc' : openPosition x.market.params s envelope d gross x.nextPositionId
          = .ok (s', p, out) := by
        rw [hp.parallel.market, hnext, hc]
      have howing : Harness.Balanced 0 (out.principalIntoPool + out.dust) out.openFee { h with
          nextPositionId := h.nextPositionId + 1
          subPools := h.subPools.insert id s'
          positions := h.positions.insert h.nextPositionId p } := by
        have hvalue : s'.value + 0 = s.value + (out.principalIntoPool + out.dust) := by
          rw [hm.value_eq, hsplit]
        refine hp.balanced.withSubPool hs hm.sound hvalue rfl ?_ (Nat.succ_pos _) hroom rfl rfl
          rfl rfl rfl rfl
        have hpos := hp.balanced.next_pos
        have hle := hp.balanced.deposits_le
        have hstep : (h.nextPositionId - 1) * u64Size + u64Size
            = (h.nextPositionId + 1 - 1) * u64Size := by
          rw [← Nat.succ_mul]
          congr 1
          omega
        simp only
        omega
      have hcall : EngineOp.call h.market (h.world id s)
          (.open envelope d gross ⟨h.nextPositionId, hp.balanced.next_lt⟩)
          = some (.ok (⟨s', (h.world id s).positions.insert h.nextPositionId p⟩,
            .opened p out)) := by
        have hfree : ¬ (h.world id s).positions.contains h.nextPositionId = true := by
          simp [OrdMap.contains, Harness.world, OrdMap.get?_filter, hnew]
        simp only [EngineOp.call, if_neg hfree]
        exact congrArg (fun r => some (_ <$> r)) hc
      have hhoused := (hp.hosting.housed id s hs).call hcall
      have hpar : Parallel { h with subPools := h.subPools.insert id s' }
          (x.written id account long short s') := hp.parallel.written hpres hhoused
      have hpos := (hpar.withPosition h.nextPositionId p).withNextId (h.nextPositionId + 1)
      have hafter : x.afterOpen id account long short s' p
          = { x.written id account long short s' with
              positions := (x.written id account long short s').positions.insert h.nextPositionId
                ⟨p.subPoolId, p⟩
              nextPositionId := h.nextPositionId + 1 } := by
        have hrest := congrArg ChainRuntime.positions
          (ChainRuntime.written_touches hpres s').rest
        rw [ChainRuntime.afterOpen, hp', hid, hnext]
        exact congrArg (fun ps : OrdMap Nat PositionAccount =>
          { x.written id account long short s' with
            positions := ps.insert h.nextPositionId ⟨id, p⟩
            nextPositionId := h.nextPositionId + 1 }) hrest.symm
      have hright : ChainRuntime.open id d gross envelope x = _ :=
        ChainRuntime.open_accepted hroom' hb hc' (hp.parallel.fits hhoused) hpres
      obtain ⟨hlt, -, hcv⟩ := howing.bounds
      have hfees := hp.balanced.fees_eq
      have hvault := hpos.vaultBalance
      have hfee' := hpos.feeVaultBalance
      have hdeposits := hpos.totalDeposits
      simp only at hlt hcv hvault hfee' hdeposits
      rw [hright, hafter, bind_of_ok (ChainRuntime.bookDeposit_eq (by simp only; omega)
        (by simp only; omega) (by simp only; omega))]
      have hleft : Harness.open view id d gross envelope h
          = (do Harness.applyEvents view out.events
                return ⟨h.nextPositionId, out.sharesMinted, out.openFee⟩ :
              Harness.Run ι ε MoleFinance.OpenSummary)
            (Harness.deposited { h with
              nextPositionId := h.nextPositionId + 1
              subPools := h.subPools.insert id s'
              positions := h.positions.insert h.nextPositionId p } gross out) := by
        simp only [Harness.open, get_bind, hs, ensure_of hroom, orFail_ok_bind, if_neg hdup, hc,
          set_bind, hp']
        rw [bind_of_ok (Harness.deposit_eq howing hsum)]
      rw [hleft]
      refine .events view _ ⟨hnext, rfl, rfl⟩ fun indexer => Paired.indexed ⟨?_, ?_, ?_⟩ indexer
      · exact hp.hosting.withPosition hs hcall hid (fun q hq => by cases hnew.symm.trans hq)
          rfl rfl rfl (Nat.le_succ _) (Nat.lt_succ_self _)
      · exact howing.deposited hsum
      · exact hpos.deposited gross out
  · have hrun : Harness.open view id d gross envelope h = .error (.clearing .panic) h := by
      simp only [Harness.open, get_bind, hs, ensure_not hroom]
      rfl
    have haborts : x.snapshotSubPool id = none ∨ u64Size ≤ x.nextPositionId + 1 :=
      .inr (by omega)
    rw [hrun, ChainRuntime.open_aborts haborts]
    exact .failed .aborted hp

end Calls

inductive SameReply : HarnessReply → MirrorReply → Prop where
  | opened (positionId sharesMinted openFee : Nat) (events : List EngineEvent) :
      SameReply (.opened ⟨positionId, sharesMinted, openFee⟩)
        (.opened ⟨positionId, sharesMinted, openFee, events⟩)
  | closed (withdrawable indexerPreEquity : Nat) (out : CloseOutcome) :
      SameReply (.closed ⟨withdrawable, indexerPreEquity⟩) (.closed ⟨withdrawable, out⟩)
  | forceClosed (out : ForceCloseOutcome) : SameReply .forceClosed (.forceClosed out)
  | claimed (indexerPreEquity : Nat) (out : ClaimRecoveryOutcome) :
      SameReply (.claimed ⟨out.redeemable, indexerPreEquity⟩) (.claimed out)
  | synced (out : SyncOutcome) : SameReply .synced (.synced out)
  | preSynced (out : PreSyncOutcome) : SameReply (.preSynced out) (.preSynced out)
  | harvested (out : HarvestOutcome) : SameReply (.harvested out.amount) (.harvested out)

/-- Why the two refuse an operation. The runtime looks for the account of a bucket before it asks
    the engine. -/
inductive SameRefusal {ι ε : Type} (h : Harness ι) :
    MirrorOp → HarnessError ε → MirrorError → Prop where
  | same {op : MirrorOp} {e : HarnessError ε} {e' : MirrorError} (he : SameError e e') :
      SameRefusal h op e e'
  | unslotted {id : Nat} {d : Direction} {tick : Int} {slot : Nat} {s : SubPool}
      {e : ClearingError} (hs : h.subPools.get? id = some s)
      (hb : (s.side d).dormant.get tick = none)
      (he : preSyncDormantBucket h.market s d tick slot = .error e) :
      SameRefusal h (.preSyncBucket id d tick slot) (.clearing e) (.bucketNotInitialized id d tick)

namespace MirrorOp
variable {ι ε : Type} {view : IndexerView ι ε} {ids : List Nat} {h : Harness ι}
  {x : ChainRuntime} {id k : Nat} {s : SubPool}

def hosted : MirrorOp → HarnessOp
  | .open id d gross envelope => .open id d gross envelope
  | .close k envelope => .close k envelope
  | .forceClose k envelope ack => .forceClose k envelope ack
  | .claimRecovery k envelope => .claimRecovery k envelope
  | .sync id envelope => .sync id envelope
  | .preSyncBucket id d tick slot => .preSyncBucket id d tick slot
  | .harvestDust id d => .harvestDust id d

def Names (ids : List Nat) : MirrorOp → Prop
  | .open id _ _ _ => id ∈ ids
  | .sync id _ => id ∈ ids
  | .preSyncBucket id _ _ _ => id ∈ ids
  | .harvestDust id _ => id ∈ ids
  | .close _ _ => True
  | .forceClose _ _ _ => True
  | .claimRecovery _ _ => True

theorem close_alike (hp : Paired ids h x) (k : Nat) (envelope : PriceEnvelope) :
    Alike (Paired ids) SameError (fun a b => b.withdrawable = a.withdrawable)
      (Harness.close view k envelope h) (ChainRuntime.close k envelope x) := by
  have hop : ∀ market w p, OrdMap.get? w.positions k = some p →
      EngineOp.call market w (.close envelope k)
        = some (w.withPosition k .closed <$> closePosition market w.subPool envelope p) := by
    intro market w p hk
    simp only [EngineOp.call, hk, Option.map_some]
  exact onPosition_alike hp hop
    (fun hs h => ⟨(closePosition_moved hs h).sound, (closePosition_moved hs h).value_eq⟩)
    closePosition_subPoolId (fun hb => Harness.withdraw_eq hb _)
    (fun hv hw => ChainRuntime.payOut_eq hv hw _) (fun _ _ => rfl)

theorem forceClose_alike (hp : Paired ids h x) (k : Nat) (envelope : PriceEnvelope) (ack : Bool) :
    Alike (Paired ids) SameError (fun _ _ => True) (Harness.forceClose view k envelope ack h)
      (ChainRuntime.forceClose k envelope ack x) := by
  have hop : ∀ market w p, OrdMap.get? w.positions k = some p →
      EngineOp.call market w (.forceClose envelope k ack) = some (w.withPosition k .forceClosed <$>
        forceCloseZeroValuePosition market w.subPool envelope p ack) := by
    intro market w p hk
    simp only [EngineOp.call, hk, Option.map_some]
  have hmoved : ∀ {market : MarketParams} {s s' : SubPool} {p p' : Position}
      {out : ForceCloseOutcome}, s.Sound →
      forceCloseZeroValuePosition market s envelope p ack = .ok (s', p', out) →
      s'.Sound ∧ s'.value + 0 = s.value :=
    fun hs h => ⟨(forceClose_moved hs h).1, (forceClose_moved hs h).2.1⟩
  exact onPosition_alike hp hop hmoved forceClose_subPoolId (fun _ => rfl) (fun _ _ => rfl)
    (fun _ _ => trivial)

theorem claimRecovery_alike (hp : Paired ids h x) (k : Nat) (envelope : PriceEnvelope) :
    Alike (Paired ids) SameError (fun a b => b.redeemable = a.withdrawable)
      (Harness.claimRecovery view k envelope h) (ChainRuntime.claimRecovery k envelope x) := by
  have hop : ∀ market w p, OrdMap.get? w.positions k = some p →
      EngineOp.call market w (.claim envelope k) = some
        (w.withPosition k .claimed <$> claimDormantRecovery market w.subPool envelope p) := by
    intro market w p hk
    simp only [EngineOp.call, hk, Option.map_some]
  exact onPosition_alike hp hop
    (fun hs h => ⟨(claim_moved hs h).sound, (claim_moved hs h).value_eq⟩)
    claim_subPoolId (fun hb => Harness.withdraw_eq hb _)
    (fun hv hw => ChainRuntime.payOut_eq hv hw _) (fun _ _ => rfl)

theorem sync_alike (hp : Paired ids h x) (hs : h.subPools.get? id = some s)
    (envelope : PriceEnvelope) :
    Alike (Paired ids) SameError (fun _ _ => True) (Harness.sync view id envelope h)
      (ChainRuntime.sync id envelope x) := by
  have hop : ∀ market w, EngineOp.call market w (.sync envelope)
      = some (w.withSubPool .synced <$> syncPool market w.subPool envelope) :=
    fun _ _ => rfl
  exact onSubPool_alike hp hs hop
    (fun hs h => ⟨(syncPool_moved hs h).sound, (syncPool_moved hs h).value_eq⟩)
    (fun _ => rfl) (fun _ _ => rfl) ChainRuntime.sync_error ChainRuntime.sync_accepted
    .clearing (fun _ => trivial)

theorem harvestDust_alike (hp : Paired ids h x) (hs : h.subPools.get? id = some s)
    (d : Direction) :
    Alike (Paired ids) SameError (fun a b => b.amount = a) (Harness.harvestDust view id d h)
      (ChainRuntime.harvestDust id d x) := by
  have hop : ∀ market w, EngineOp.call market w (.harvest d)
      = some (w.withSubPool .harvested <$> MoleFinance.harvestDust market w.subPool d) :=
    fun _ _ => rfl
  exact onSubPool_alike hp hs hop
    (fun hs h => ⟨(harvest_moved hs h).sound, (harvest_moved hs h).value_eq⟩)
    Harness.sweep_eq ChainRuntime.sweep_eq (fun hb hc => ChainRuntime.onSubPool_error hb hc)
    (fun hb hc hf hpres => ChainRuntime.onSubPool_accepted hb hc hf hpres) .clearing (fun _ => rfl)

theorem preSyncBucket_alike (hp : Paired ids h x) (hs : h.subPools.get? id = some s)
    (d : Direction) (tick : Int) (slot : Nat) :
    Alike (Paired ids) (SameRefusal h (.preSyncBucket id d tick slot)) (fun a b => b = a)
      (Harness.preSyncBucket view id d tick slot h)
      (ChainRuntime.preSyncBucket id d tick slot x) := by
  have hslots := (hp.parallel.subPool id s hs).slots d tick
  by_cases hin : x.buckets.contains (bucketKey id d tick) = true
  · have hop : ∀ market w, EngineOp.call market w (.preSync d tick slot) = some
        (w.withSubPool .preSynced <$> preSyncDormantBucket market w.subPool d tick slot) :=
      fun _ _ => rfl
    have hrun : ChainRuntime.preSyncBucket id d tick slot x = ChainRuntime.onSubPool id
        (preSyncDormantBucket · · d tick slot) (fun _ => pure ()) x := by
      rw [ChainRuntime.preSyncBucket, get_bind, ensure_of hin, orFail_ok_bind]
    rw [hrun]
    exact onSubPool_alike hp hs hop
      (fun hs h => ⟨(preSync_moved hs h).sound, (preSync_moved hs h).value_eq⟩)
      (fun _ => rfl) (fun _ _ => rfl) (fun hb hc => ChainRuntime.onSubPool_error hb hc)
      (fun hb hc hf hpres => ChainRuntime.onSubPool_accepted hb hc hf hpres)
      (fun e => .same (.clearing e)) (fun _ => rfl)
  · have hnone : (s.side d).dormant.get tick = none := by
      cases hb : (s.side d).dormant.get tick with
      | none => rfl
      | some b => exact absurd (hslots.mpr ⟨b, hb⟩) hin
    cases hc : preSyncDormantBucket h.market s d tick slot with
    | ok r =>
      obtain ⟨b, hb⟩ := preSync_bucket hc
      cases hnone.symm.trans hb
    | error e =>
      have hleft : Harness.preSyncBucket view id d tick slot h = .error (.clearing e) h := by
        simp only [Harness.preSyncBucket, Harness.onSubPool, get_bind, hs, hc]
        rfl
      have hright : ChainRuntime.preSyncBucket id d tick slot x
          = .error (.bucketNotInitialized id d tick) x := by
        rw [ChainRuntime.preSyncBucket, get_bind, ensure_not hin, orFail_error_bind]
      rw [hleft, hright]
      exact .failed (.unslotted hs hnone hc) hp

theorem call_alike (hp : Paired ids h x) (op : MirrorOp) (hn : op.Names ids) :
    Alike (Paired ids) (SameRefusal h op) SameReply (op.hosted.call view h) (op.call x) := by
  cases op with
  | «open» id d gross envelope =>
    obtain ⟨s, hs⟩ := hp.hosting.listed id hn
    refine ((open_alike hp hs d gross envelope).imp fun _ _ => .same).map fun a b hr => ?_
    obtain ⟨positionId, shares, fee⟩ := a
    obtain ⟨positionId', shares', fee', events⟩ := b
    obtain ⟨rfl : positionId' = positionId, rfl : shares' = shares, rfl : fee' = fee⟩ := hr
    exact .opened _ _ _ _
  | close k envelope =>
    refine ((close_alike hp k envelope).imp fun _ _ => .same).map fun a b hr => ?_
    obtain ⟨withdrawable, preEquity⟩ := a
    obtain ⟨withdrawable', out⟩ := b
    obtain rfl : withdrawable' = withdrawable := hr
    exact .closed _ _ _
  | forceClose k envelope ack =>
    refine ((forceClose_alike hp k envelope ack).imp fun _ _ => .same).map fun a b _ => ?_
    exact .forceClosed b
  | claimRecovery k envelope =>
    refine ((claimRecovery_alike hp k envelope).imp fun _ _ => .same).map fun a b hr => ?_
    obtain ⟨redeemable, preEquity⟩ := a
    obtain rfl : b.redeemable = redeemable := hr
    exact .claimed _ _
  | sync id envelope =>
    obtain ⟨s, hs⟩ := hp.hosting.listed id hn
    exact ((sync_alike hp hs envelope).imp fun _ _ => .same).map fun a b _ => .synced b
  | preSyncBucket id d tick slot =>
    obtain ⟨s, hs⟩ := hp.hosting.listed id hn
    refine (preSyncBucket_alike hp hs d tick slot).map fun a b hr => ?_
    cases hr
    exact .preSynced _
  | harvestDust id d =>
    obtain ⟨s, hs⟩ := hp.hosting.listed id hn
    refine ((harvestDust_alike hp hs d).imp fun _ _ => .same).map fun a b hr => ?_
    cases hr
    exact .harvested _

end MirrorOp

namespace ChainRuntime

def registered (market : MarketAccount) (strict : Bool) (pools : List (Nat × U64 × Nat)) :
    ChainRuntime :=
  pools.foldl (fun x p => x.addSubPool p.1 p.2.1 p.2.2) (.new market strict)

theorem addSubPool_touches (x : ChainRuntime) (id : Nat) (price : U64) (slot : Nat) :
    Touches id x (x.addSubPool id price slot) where
  rest := rfl
  subPools i hi := OrdMap.get?_insert_ne _ _ hi
  buckets _ _ := rfl
  ledgers i d hi := by
    simp only [addSubPool, OrdMap.get?_insert, ledgerKey_inj, hi, false_and, if_false]

theorem addSubPool_holds {x : ChainRuntime} {id : Nat} (hs : x.Shaped)
    (hb : ∀ d tick, x.buckets.get? (bucketKey id d tick) = none) (price : U64) (slot : Nat) :
    (x.addSubPool id price slot).Holds id (.new id price slot) where
  built := by
    have hunpack : ∀ d, (x.addSubPool id price slot).unpackDormant id d
        = .ok (DormantStore.new d) := by
      intro d
      have hproduced : (DormantStore.new d).Produced := by
        have hnew := (World.new_housed x.market.params id price slot).reached.produced d
        rw [World.new, SubPool.side_new] at hnew
        exact hnew
      obtain ⟨ledger, hl, hi⟩ : ∃ ledger,
          (x.addSubPool id price slot).ledgers.get? (ledgerKey id d) = some ledger ∧
            ledger.ledger = (DormantStore.new d).image
              x.market.params.maxDistributionLedgerSize := by
        cases d with
        | long =>
          simp only [addSubPool, OrdMap.get?_insert, ledgerKey_inj, reduceCtorEq, and_false,
            if_false, if_true]
          exact ⟨_, rfl, rfl⟩
        | short =>
          simp only [addSubPool, OrdMap.get?_insert_self]
          exact ⟨_, rfl, rfl⟩
      exact unpackDormant_of (addSubPool_shaped hs id price slot) hproduced rfl
        (Nat.zero_le _) hl hi fun tick => hb d tick
    have hacc : (x.addSubPool id price slot).subPools.get? id = some (.new id price slot) :=
      OrdMap.get?_insert_self _ _ _
    rw [buildCoreSubPool, hacc]
    simp only [hunpack, ok_bind]
    rfl
  slots d tick := by
    have hget : (x.addSubPool id price slot).buckets.get? (bucketKey id d tick) = none := hb d tick
    rw [OrdMap.contains, hget]
    cases d <;> simp [SubPool.side, SubPool.new, Side.new, DormantStore.new]

end ChainRuntime

structure Pristine {ι : Type} (ids : List Nat) (h : Harness ι) (x : ChainRuntime) : Prop
    extends Paired ids h x where
  positions : h.positions = .empty
  buckets : x.buckets = .empty
  vault : h.vaultBalance = 0

theorem Pristine.addSubPool {ι : Type} {ids : List Nat} {h : Harness ι} {x : ChainRuntime}
    (hp : Pristine ids h x) (id : Nat) (price : U64) (slot : Nat) :
    Pristine (ids ++ [id]) (h.addSubPool id price slot) (x.addSubPool id price slot) where
  hosting := by
    refine ⟨fun i hi => ?_, fun i s hs => ?_, fun k p hk => ?_, fun k p hk => ?_⟩
    · cases List.mem_append.mp hi with
      | inl hi =>
        obtain ⟨s, hs⟩ := hp.hosting.listed i hi
        exact Harness.get?_insert_subPool h id _ hs
      | inr hi =>
        obtain rfl := List.mem_singleton.mp hi
        exact ⟨_, OrdMap.get?_insert_self _ _ _⟩
    · have hworld : (h.addSubPool id price slot).world i s = ⟨s, .empty⟩ := by
        rw [Harness.world]
        exact congrArg (World.mk s) ((congrArg _ hp.positions).trans (OrdMap.filter_empty _))
      simp only [Harness.addSubPool, OrdMap.get?_insert] at hs
      split_ifs at hs with hi
      · cases hs
        rw [hworld, hi]
        exact World.new_housed h.market id price slot
      · have hold : h.world i s = ⟨s, .empty⟩ := by
          rw [Harness.world, hp.positions, OrdMap.filter_empty]
        rw [hworld, ← hold]
        exact hp.hosting.housed i s hs
    · rw [Harness.addSubPool, hp.positions] at hk
      cases hk
    · rw [Harness.addSubPool, hp.positions] at hk
      cases hk
  balanced := Harness.addSubPool_balanced hp.balanced (.inl hp.vault) price slot
  parallel := by
    have htouch := ChainRuntime.addSubPool_touches x id price slot
    have hnone : ∀ d tick, x.buckets.get? (bucketKey id d tick) = none := by
      rw [hp.buckets]
      exact fun _ _ => rfl
    have hholds := ChainRuntime.addSubPool_holds hp.parallel.shaped hnone price slot
    refine { hp.parallel with
      shaped := ChainRuntime.addSubPool_shaped hp.parallel.shaped id price slot
      subPool := fun i s hs => ?_
      absent := fun i hi => ?_ }
    · simp only [Harness.addSubPool, OrdMap.get?_insert] at hs
      split_ifs at hs with hi
      · cases hs
        exact hi ▸ hholds
      · exact (hp.parallel.subPool i s hs).touched htouch hi
    · simp only [Harness.addSubPool, OrdMap.get?_insert] at hi
      split_ifs at hi with hne
      rw [htouch.subPools i hne]
      exact hp.parallel.absent i hi
  positions := hp.positions
  buckets := hp.buckets
  vault := hp.vault

theorem registered_pristine {ι : Type} (market : MarketAccount) (indexer : ι)
    (pools : List (Nat × U64 × Nat)) :
    Pristine (pools.map Prod.fst) (Harness.registered market.params indexer pools)
      (ChainRuntime.registered market false pools) := by
  have hnew : Pristine [] (Harness.new market.params indexer) (ChainRuntime.new market false) :=
    { hosting := ⟨by simp, fun id s hs => (by cases hs), fun k p hk => (by cases hk),
        fun k p hk => (by cases hk)⟩
      balanced := Harness.new_balanced market.params indexer
      parallel :=
        { market := rfl
          loose := rfl
          shaped := ChainRuntime.new_shaped market false
          subPool := fun id s hs => (by cases hs)
          absent := fun _ _ => rfl
          position := fun _ => rfl
          vaultBalance := rfl
          feeVaultBalance := rfl
          totalDeposits := rfl
          totalWithdrawals := rfl
          nextPositionId := rfl }
      positions := rfl
      buckets := rfl
      vault := rfl }
  have hall : ∀ ids (h : Harness ι) x, Pristine ids h x → Pristine (ids ++ pools.map Prod.fst)
      (pools.foldl (fun h p => h.addSubPool p.1 p.2.1 p.2.2) h)
      (pools.foldl (fun x p => x.addSubPool p.1 p.2.1 p.2.2) x) := by
    induction pools with
    | nil =>
      intro ids h x hp
      simpa using hp
    | cons p pools ih =>
      intro ids h x hp
      have hrest := ih _ _ _ (hp.addSubPool p.1 p.2.1 p.2.2)
      rw [List.append_assoc] at hrest
      exact hrest
  exact hall [] _ _ hnew

inductive SameAnswer {ε : Type} (E : HarnessError ε → MirrorError → Prop) :
    Except (HarnessError ε) HarnessReply → Except MirrorError MirrorReply → Prop where
  | done {a : HarnessReply} {b : MirrorReply} (hr : SameReply a b) : SameAnswer E (.ok a) (.ok b)
  | failed {e : HarnessError ε} {e' : MirrorError} (he : E e e') :
      SameAnswer E (.error e) (.error e')

structure SameBooks {ι : Type} (h : Harness ι) (x : ChainRuntime) : Prop where
  subPool : ∀ id, (x.buildCoreSubPool id).toOption = h.subPools.get? id
  position : ∀ k, (x.positions.get? k).map (·.position) = h.positions.get? k
  vaultBalance : x.vaultBalance = h.vaultBalance
  feeVaultBalance : x.feeVaultBalance = h.feeVaultBalance
  totalDeposits : x.totalDeposits = h.totalDeposits
  totalWithdrawals : x.totalWithdrawals = h.totalWithdrawals
  nextPositionId : x.nextPositionId = h.nextPositionId

section Runs
variable {ι ε : Type}

theorem Parallel.sameBooks {h : Harness ι} {x : ChainRuntime} (par : Parallel h x) :
    SameBooks h x where
  subPool id := by
    cases hs : h.subPools.get? id with
    | none =>
      rw [ChainRuntime.buildCoreSubPool, par.absent id hs]
      rfl
    | some s =>
      rw [(par.subPool id s hs).built]
      rfl
  position k := by
    rw [par.position, Option.map_map]
    exact Option.map_id'
  vaultBalance := par.vaultBalance
  feeVaultBalance := par.feeVaultBalance
  totalDeposits := par.totalDeposits
  totalWithdrawals := par.totalWithdrawals
  nextPositionId := par.nextPositionId

def hostStep (view : IndexerView ι ε) (op : MirrorOp) :
    Harness ι → Except (HarnessError ε) HarnessReply × Harness ι :=
  op.hosted.step view

theorem step_alike (view : IndexerView ι ε) {ids : List Nat} {h : Harness ι} {x : ChainRuntime}
    (hp : Paired ids h x) {op : MirrorOp} (hn : op.Names ids) :
    (SameAnswer (SameRefusal h op) (hostStep view op h).1 (op.step x).1 ∨
      ∃ e reply, (hostStep view op h).1 = .error (.indexer e) ∧ (op.step x).1 = .ok reply) ∧
    Paired ids (hostStep view op h).2 (op.step x).2 := by
  have halike : Alike (Paired ids) (SameRefusal h op) SameReply (op.hosted.call view h)
      (op.call x) := MirrorOp.call_alike hp op hn
  unfold hostStep HarnessOp.step MirrorOp.step
  generalize op.hosted.call view h = r at halike
  generalize op.call x = r' at halike
  cases halike with
  | done hr hs => exact ⟨.inl (.done hr), hs⟩
  | failed he hs => exact ⟨.inl (.failed he), hs⟩
  | unindexed hs => exact ⟨.inr ⟨_, _, rfl, rfl⟩, hs⟩

/-- The loose runtime answers like the harness and shows the same state after every operation. A
    pre-sync of a bucket that is not there is refused before the engine refuses it, and only the
    harness can be stopped by its indexer, with the operation carried out. -/
theorem loose_parity (view : IndexerView ι ε) (indexer : ι) (market : MarketAccount)
    (pools : List (Nat × U64 × Nat)) (ops : List MirrorOp)
    (hops : ∀ op ∈ ops, op.Names (pools.map Prod.fst)) :
    ∀ before op after, ops = before ++ op :: after →
      let h := (run (hostStep view) before
        (Harness.registered market.params indexer pools)).2
      let x := (run MirrorOp.step before (ChainRuntime.registered market false pools)).2
      (SameAnswer (SameRefusal h op) (hostStep view op h).1 (op.step x).1 ∨
        ∃ e reply, (hostStep view op h).1 = .error (.indexer e) ∧ (op.step x).1 = .ok reply) ∧
      SameBooks (hostStep view op h).2 (op.step x).2 := by
  rintro before op after rfl h x
  have hp : Paired (pools.map Prod.fst) h x := by
    refine run_related (fun o ho h x hp => ?_) (registered_pristine market indexer pools).toPaired
    exact (step_alike view hp (hops o (List.mem_append_left _ ho))).2
  have hnames := hops op (List.mem_append_right _ List.mem_cons_self)
  obtain ⟨hanswer, hp'⟩ := step_alike view hp hnames
  exact ⟨hanswer, hp'.parallel.sameBooks⟩

end Runs

/-! Two sub-pools with the indexer of the source. -/

def smallPools : List (Nat × U64 × Nat) := [(0, amount 0, 0), (1, amount 0, 0)]

def smallHarness (mode : DistributeMode) : Harness IndexerState :=
  .registered (smallMarket mode) .new smallPools

def smallRuntime (mode : DistributeMode) : ChainRuntime :=
  .registered (smallAccount mode) false smallPools

/-- The long pool is wiped out and its bucket gets its share of a later move from a keeper. -/
def keptOps : List MirrorOp :=
  [.open 0 .long (amount 100) (quoteAt (amount 100)),
    .open 0 .short (amount 300) (quoteAt (amount 100)),
    .open 1 .long (amount 50) (quoteAt (amount 70)), .sync 0 (quoteAt (amount 80)),
    .sync 0 (quoteAt (amount 84)), .preSyncBucket 0 .long 81 1, .preSyncBucket 0 .long 80 1,
    .harvestDust 0 .short, .close 2 (quoteAt (amount 84))]

def keptHarness : Harness IndexerState :=
  (run (hostStep indexerView) keptOps (smallHarness .lazy)).2

def keptRuntime : ChainRuntime := (run MirrorOp.step keptOps (smallRuntime .lazy)).2

/-- The claim that follows pays the same on both sides. -/
theorem keptOps_alike :
    (SameAnswer (SameRefusal keptHarness (.claimRecovery 1 (quoteAt (amount 84))))
        (hostStep indexerView (.claimRecovery 1 (quoteAt (amount 84))) keptHarness).1
        (MirrorOp.step (.claimRecovery 1 (quoteAt (amount 84))) keptRuntime).1 ∨
      ∃ e reply, (hostStep indexerView (.claimRecovery 1 (quoteAt (amount 84))) keptHarness).1
          = .error (.indexer e) ∧
        (MirrorOp.step (.claimRecovery 1 (quoteAt (amount 84))) keptRuntime).1 = .ok reply) ∧
    SameBooks (hostStep indexerView (.claimRecovery 1 (quoteAt (amount 84))) keptHarness).2
      (MirrorOp.step (.claimRecovery 1 (quoteAt (amount 84))) keptRuntime).2 := by
  have hops : ∀ op ∈ keptOps ++ [.claimRecovery 1 (quoteAt (amount 84))],
      op.Names (smallPools.map Prod.fst) := by
    simp [keptOps, smallPools, MirrorOp.Names]
  exact loose_parity indexerView .new (smallAccount .lazy) smallPools _ hops keptOps
    (.claimRecovery 1 (quoteAt (amount 84))) [] rfl

/-- No bucket was ever made, and the two name different reasons. -/
theorem preSync_refused_apart :
    ¬ ∀ (market : MarketAccount) (pools : List (Nat × U64 × Nat)) (ops : List MirrorOp),
      ∀ before op after, ops = before ++ op :: after →
      let h := (run (hostStep indexerView) before (.registered market.params .new pools)).2
      let x := (run MirrorOp.step before (.registered market false pools)).2
      SameAnswer SameError (hostStep indexerView op h).1 (op.step x).1 ∧
      SameBooks (hostStep indexerView op h).2 (op.step x).2 := by
  intro hall
  have hanswer := (hall (smallAccount .lazy) smallPools [.preSyncBucket 0 .long 80 1] []
    (.preSyncBucket 0 .long 80 1) [] rfl).1
  have hleft : (hostStep indexerView (.preSyncBucket 0 .long 80 1) (smallHarness .lazy)).1
      = .error (.clearing .dormantBucketMissing) := rfl
  have hright : (MirrorOp.step (.preSyncBucket 0 .long 80 1) (smallRuntime .lazy)).1
      = .error (.bucketNotInitialized 0 .long 80) := rfl
  simp only [run] at hanswer
  rw [smallHarness] at hleft
  rw [smallRuntime] at hright
  have hparams : (smallAccount .lazy).params = smallMarket .lazy := rfl
  rw [hparams, hleft, hright] at hanswer
  cases hanswer with
  | failed he => cases he

end Runtime
end MoleFinance
