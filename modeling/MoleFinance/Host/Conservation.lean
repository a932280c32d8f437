import MoleFinance.Host.Harness

/-! The books of the harness: every deposit is a withdrawal, in the vault or in the fee vault,
and the vault is the value of the sub-pools. -/
namespace MoleFinance
open MoleMath Call

namespace Harness
variable {ι ε α β : Type}

/-- The funds add up, with `paid` still to leave the vault and `received` (and the fee of that
    deposit) still to be booked. -/
structure Balanced (paid received fee : Nat) (h : Harness ι) : Prop where
  sound : ∀ id s, h.subPools.get? id = some s → s.Sound
  vault_eq : h.vaultBalance + received = h.subPools.sum (fun _ s => s.value) + paid
  deposits_eq : h.totalDeposits = h.totalWithdrawals + h.vaultBalance + h.feeVaultBalance
  fees_eq : h.feeVaultBalance = h.feesCollected
  swept_le : h.dustSwept ≤ h.feesCollected
  next_pos : 0 < h.nextPositionId
  next_lt : h.nextPositionId < u64Size
  deposits_le : h.totalDeposits + received + fee ≤ (h.nextPositionId - 1) * u64Size

/-- No accounting error: the payouts never find the vault short. -/
def Accounted : HarnessError ε → Prop
  | .invariant _ => False
  | _ => True

def Keeps (x : Run ι ε α) : Prop :=
  Meets (Balanced 0 0 0) x (fun _ => Balanced 0 0 0) (fun e h => Balanced 0 0 0 h ∧ Accounted e)

namespace Balanced
variable {paid received fee : Nat} {h k : Harness ι}

theorem bounds (hb : Balanced paid received fee h) :
    h.totalDeposits + received + fee < u128Size ∧ h.totalWithdrawals + h.vaultBalance ≤
      h.totalDeposits ∧ h.feesCollected + h.vaultBalance ≤ h.totalDeposits := by
  have hd := hb.deposits_eq
  have hf := hb.fees_eq
  refine ⟨?_, by omega, by omega⟩
  have hn := hb.next_lt
  calc h.totalDeposits + received + fee
      ≤ (h.nextPositionId - 1) * u64Size := hb.deposits_le
    _ ≤ (u64Size - 1) * u64Size := Nat.mul_le_mul_right _ (by omega)
    _ < u128Size := by decide

theorem paid_le (hb : Balanced paid 0 fee h) : paid ≤ h.vaultBalance := by
  have := hb.vault_eq
  omega

theorem of_funds (hb : Balanced paid received fee h) (hs : k.subPools = h.subPools)
    (hn : k.nextPositionId = h.nextPositionId) (hv : k.vaultBalance = h.vaultBalance)
    (hf : k.feeVaultBalance = h.feeVaultBalance) (hd : k.totalDeposits = h.totalDeposits)
    (hw : k.totalWithdrawals = h.totalWithdrawals) (hc : k.feesCollected = h.feesCollected)
    (hds : k.dustSwept = h.dustSwept) : Balanced paid received fee k := by
  obtain ⟨h1, h2, h3, h4, h5, h6, h7, h8⟩ := hb
  constructor <;> simp only [hs, hn, hv, hf, hd, hw, hc, hds] <;> assumption

theorem withSubPool (hb : Balanced 0 0 0 h) {id : Nat} {s s' : SubPool}
    (hs : h.subPools.get? id = some s) (hsound : s'.Sound)
    (hvalue : s'.value + paid = s.value + received) (hk : k.subPools = h.subPools.insert id s')
    (hd : k.totalDeposits + received + fee ≤ (k.nextPositionId - 1) * u64Size)
    (hpos : 0 < k.nextPositionId) (hlt : k.nextPositionId < u64Size)
    (hv : k.vaultBalance = h.vaultBalance) (hf : k.feeVaultBalance = h.feeVaultBalance)
    (hde : k.totalDeposits = h.totalDeposits) (hw : k.totalWithdrawals = h.totalWithdrawals)
    (hc : k.feesCollected = h.feesCollected) (hds : k.dustSwept = h.dustSwept) :
    Balanced paid received fee k where
  sound := by
    intro i t ht
    rw [hk, OrdMap.get?_insert] at ht
    split_ifs at ht with hi
    · cases ht
      exact hsound
    · exact hb.sound i t ht
  vault_eq := by
    have hv' := hb.vault_eq
    have hi := OrdMap.sum_insert_old (fun _ (t : SubPool) => t.value) s' hs
    rw [hk, hv]
    omega
  deposits_eq := by rw [hde, hw, hv, hf, hb.deposits_eq]
  fees_eq := by rw [hf, hc, hb.fees_eq]
  swept_le := by rw [hds, hc]; exact hb.swept_le
  next_pos := hpos
  next_lt := hlt
  deposits_le := hd

end Balanced

theorem plus_of {a b : Nat} (h : a + b < u128Size) :
    (plus a b : Except (HarnessError ε) Nat) = .ok (a + b) := by
  simp only [plus, ensure_of h, ok_bind]
  rfl

theorem withdraw_meets (reason : String) (amount : Nat) (E : HarnessError ε → Harness ι → Prop) :
    Meets (Balanced amount 0 0) (withdraw reason amount) (fun _ => Balanced 0 0 0) E := by
  refine .get_bind fun h hb => ?_
  have hp := hb.paid_le
  obtain ⟨hlt, hwv, -⟩ := hb.bounds
  rw [ensure_of hp, plus_of (by omega)]
  refine .set ?_
  have hv := hb.vault_eq
  have hd := hb.deposits_eq
  exact {
    sound := hb.sound
    vault_eq := by simp only; omega
    deposits_eq := by simp only; omega
    fees_eq := hb.fees_eq
    swept_le := hb.swept_le
    next_pos := hb.next_pos
    next_lt := hb.next_lt
    deposits_le := hb.deposits_le }

theorem sweep_meets (amount : Nat) (E : HarnessError ε → Harness ι → Prop) :
    Meets (Balanced amount 0 0) (sweep amount) (fun _ => Balanced 0 0 0) E := by
  refine .get_bind fun h hb => ?_
  have hp := hb.paid_le
  have hs := hb.swept_le
  have hf := hb.fees_eq
  obtain ⟨hlt, -, hcv⟩ := hb.bounds
  rw [ensure_of hp, plus_of (by omega), plus_of (by omega), plus_of (by omega)]
  refine .set ?_
  have hv := hb.vault_eq
  have hd := hb.deposits_eq
  exact {
    sound := hb.sound
    vault_eq := by simp only; omega
    deposits_eq := by simp only; omega
    fees_eq := by simp only; omega
    swept_le := by simp only; omega
    next_pos := hb.next_pos
    next_lt := hb.next_lt
    deposits_le := hb.deposits_le }

theorem deposit_meets {gross : Nat} {out : OpenOutcome}
    (hsum : out.principalIntoPool + out.dust + out.openFee = gross)
    (E : HarnessError ε → Harness ι → Prop) :
    Meets (Balanced 0 (out.principalIntoPool + out.dust) out.openFee) (deposit gross out)
      (fun _ => Balanced 0 0 0) E := by
  refine .get_bind fun h hb => ?_
  have hf := hb.fees_eq
  obtain ⟨hlt, -, hcv⟩ := hb.bounds
  rw [ensure_of (by omega), ensure_of (by omega), ensure_of hsum, plus_of (by omega),
    plus_of (by omega), plus_of (by omega), plus_of (by omega)]
  refine .set ?_
  have hv := hb.vault_eq
  have hd := hb.deposits_eq
  have hs := hb.swept_le
  have hl := hb.deposits_le
  exact {
    sound := hb.sound
    vault_eq := by simp only; omega
    deposits_eq := by simp only; omega
    fees_eq := by simp only; omega
    swept_le := by simp only; omega
    next_pos := hb.next_pos
    next_lt := hb.next_lt
    deposits_le := by simp only; omega }

theorem applyEvents_keeps (view : IndexerView ι ε) (events : List EngineEvent) :
    Keeps (applyEvents view events) := by
  refine .get_bind fun h hb => ?_
  cases view.applyAll events h.indexer with
  | ok u indexer => exact .set (hb.of_funds rfl rfl rfl rfl rfl rfl rfl rfl)
  | error e indexer =>
    refine .set_bind (.throw ?_)
    rintro k rfl
    exact ⟨hb.of_funds rfl rfl rfl rfl rfl rfl rfl rfl, trivial⟩

theorem open_keeps (view : IndexerView ι ε) (subPoolId : Nat) (d : Direction) (gross : U64)
    (envelope : PriceEnvelope) : Keeps (Harness.open view subPoolId d gross envelope) := by
  refine .get_bind fun h hb => ?_
  cases hs : h.subPools.get? subPoolId with
  | none =>
    refine .throw ?_
    rintro k rfl
    exact ⟨hb, trivial⟩
  | some s =>
    refine .ensure_bind (fun hlt => ?_) ?_
    · split_ifs with hdup
      · refine .set_bind (.throw ?_)
        rintro k rfl
        have hl := hb.deposits_le
        have hm := Nat.mul_le_mul_right u64Size
          (show h.nextPositionId - 1 ≤ h.nextPositionId by omega)
        exact ⟨{
          sound := hb.sound
          vault_eq := hb.vault_eq
          deposits_eq := hb.deposits_eq
          fees_eq := hb.fees_eq
          swept_le := hb.swept_le
          next_pos := Nat.succ_pos _
          next_lt := hlt
          deposits_le := hl.trans hm }, trivial⟩
      · cases hc : openPosition h.market s envelope d gross h.nextPositionId with
        | error e =>
          refine .throw ?_
          rintro k rfl
          exact ⟨hb, trivial⟩
        | ok r =>
          obtain ⟨s', p, out⟩ := r
          obtain ⟨hm, hfee, hp⟩ := openPosition_moved (hb.sound _ _ hs) hc
          obtain ⟨s1, sync, ho⟩ := openPosition_ok hc
          obtain ⟨hsplit, -, -⟩ := mintShares_ok ho.minted
          have hsum : out.principalIntoPool + out.dust + out.openFee = gross := by omega
          have hgross : (gross : Nat) < u64Size := gross.2
          have hl := hb.deposits_le
          have hpos := hb.next_pos
          refine .set_bind (.bind ?_ fun _ => .bind (applyEvents_keeps view out.events)
            fun _ => .pure fun _ hb => hb)
          refine (deposit_meets hsum _).weaken ?_
          rintro k rfl
          refine hb.withSubPool hs hm.sound ?_ rfl ?_ (Nat.succ_pos _) hlt rfl rfl rfl rfl rfl rfl
          · rw [hm.value_eq, hsplit]
          · -- the new id makes room for one more deposit
            have hstep : (h.nextPositionId - 1) * u64Size + u64Size
                = (h.nextPositionId + 1 - 1) * u64Size := by
              rw [← Nat.succ_mul]
              congr 1
              omega
            simp only
            omega
    · rintro k rfl
      exact ⟨hb, trivial⟩

theorem onPosition_keeps (view : IndexerView ι ε) (positionId : Nat)
    {call : MarketParams → SubPool → Position → Except ClearingError (SubPool × Position × α)}
    {pay : α → Run ι ε Unit} {events : α → List EngineEvent} {result : α → Nat → β}
    (amount : α → Nat)
    (hcall : ∀ market s p s' p' out, s.Sound → call market s p = .ok (s', p', out) →
      s'.Sound ∧ s'.value + amount out = s.value)
    (hpay : ∀ out, Meets (Balanced (amount out) 0 0) (pay out) (fun _ => Balanced 0 0 0)
      (fun e h => Balanced 0 0 0 h ∧ Accounted e)) :
    Keeps (onPosition view positionId call pay events result) := by
  refine .get_bind fun h hb => ?_
  cases hp : h.positions.get? positionId with
  | none =>
    refine .throw ?_
    rintro k rfl
    exact ⟨hb, trivial⟩
  | some p =>
    simp only
    cases hs : h.subPools.get? p.subPoolId with
    | none =>
      refine .set_bind (.throw ?_)
      rintro k rfl
      exact ⟨hb.of_funds rfl rfl rfl rfl rfl rfl rfl rfl, trivial⟩
    | some s =>
      simp only
      cases hc : call h.market s p with
      | error e =>
        refine .throw ?_
        rintro k rfl
        exact ⟨hb, trivial⟩
      | ok r =>
        obtain ⟨s', p', out⟩ := r
        obtain ⟨hsound, hvalue⟩ := hcall _ _ _ _ _ _ (hb.sound _ _ hs) hc
        refine .set_bind (.bind ((hpay out).weaken ?_) fun _ => .modify_bind ?_
          (.bind (applyEvents_keeps view _) fun _ => .pure fun _ hb => hb))
        · rintro k rfl
          exact hb.withSubPool hs hsound hvalue rfl hb.deposits_le hb.next_pos hb.next_lt rfl rfl
            rfl rfl rfl rfl
        · intro k hk
          exact hk.of_funds rfl rfl rfl rfl rfl rfl rfl rfl

theorem onSubPool_keeps (view : IndexerView ι ε) (subPoolId : Nat)
    {call : MarketParams → SubPool → Except ClearingError (SubPool × α)}
    {pay : α → Run ι ε Unit} {events : α → List EngineEvent} {result : α → β} (amount : α → Nat)
    (hcall : ∀ market s s' out, s.Sound → call market s = .ok (s', out) →
      s'.Sound ∧ s'.value + amount out = s.value)
    (hpay : ∀ out, Meets (Balanced (amount out) 0 0) (pay out) (fun _ => Balanced 0 0 0)
      (fun e h => Balanced 0 0 0 h ∧ Accounted e)) :
    Keeps (onSubPool view subPoolId call pay events result) := by
  refine .get_bind fun h hb => ?_
  cases hs : h.subPools.get? subPoolId with
  | none =>
    refine .throw ?_
    rintro k rfl
    exact ⟨hb, trivial⟩
  | some s =>
    simp only
    cases hc : call h.market s with
    | error e =>
      refine .throw ?_
      rintro k rfl
      exact ⟨hb, trivial⟩
    | ok r =>
      obtain ⟨s', out⟩ := r
      obtain ⟨hsound, hvalue⟩ := hcall _ _ _ _ (hb.sound _ _ hs) hc
      refine .set_bind (.bind ((hpay out).weaken ?_) fun _ =>
        .bind (applyEvents_keeps view _) fun _ => .pure fun _ hb => hb)
      rintro k rfl
      exact hb.withSubPool hs hsound hvalue rfl hb.deposits_le hb.next_pos hb.next_lt rfl rfl
        rfl rfl rfl rfl

theorem close_keeps (view : IndexerView ι ε) (positionId : Nat) (envelope : PriceEnvelope) :
    Keeps (close view positionId envelope) :=
  onPosition_keeps view positionId (·.withdrawable)
    (fun _ _ _ _ _ _ hs h => ⟨(closePosition_moved hs h).sound,
      (closePosition_moved hs h).value_eq⟩)
    (fun _ => withdraw_meets _ _ _)

theorem forceClose_keeps (view : IndexerView ι ε) (positionId : Nat) (envelope : PriceEnvelope)
    (ack : Bool) : Keeps (forceClose view positionId envelope ack) :=
  onPosition_keeps view positionId (fun _ => 0)
    (fun _ _ _ _ _ _ hs h => ⟨(forceClose_moved hs h).1, (forceClose_moved hs h).2.1⟩)
    (fun _ => .pure fun _ hb => hb)

theorem claimRecovery_keeps (view : IndexerView ι ε) (positionId : Nat)
    (envelope : PriceEnvelope) : Keeps (claimRecovery view positionId envelope) :=
  onPosition_keeps view positionId (·.redeemable)
    (fun _ _ _ _ _ _ hs h => ⟨(claim_moved hs h).sound, (claim_moved hs h).value_eq⟩)
    (fun _ => withdraw_meets _ _ _)

theorem sync_keeps (view : IndexerView ι ε) (subPoolId : Nat) (envelope : PriceEnvelope) :
    Keeps (sync view subPoolId envelope) :=
  onSubPool_keeps view subPoolId (fun _ => 0)
    (fun _ _ _ _ hs h => ⟨(syncPool_moved hs h).sound, (syncPool_moved hs h).value_eq⟩)
    (fun _ => .pure fun _ hb => hb)

theorem preSyncBucket_keeps (view : IndexerView ι ε) (subPoolId : Nat) (d : Direction)
    (tick : Int) (slot : Nat) : Keeps (preSyncBucket view subPoolId d tick slot) :=
  onSubPool_keeps view subPoolId (fun _ => 0)
    (fun _ _ _ _ hs h => ⟨(preSync_moved hs h).sound, (preSync_moved hs h).value_eq⟩)
    (fun _ => .pure fun _ hb => hb)

theorem harvestDust_keeps (view : IndexerView ι ε) (subPoolId : Nat) (d : Direction) :
    Keeps (harvestDust view subPoolId d) :=
  onSubPool_keeps view subPoolId (·.amount)
    (fun _ _ _ _ hs h => ⟨(harvest_moved hs h).sound, (harvest_moved hs h).value_eq⟩)
    (fun _ => sweep_meets _ _)

theorem drainTicks_cons (view : IndexerView ι ε) (subPoolId slot : Nat) (d : Direction)
    (tick : Int) (ticks : List (Direction × Int)) (total : Nat) (h : Harness ι) :
    (∃ out h', preSyncBucket view subPoolId d tick slot h = .ok out h' ∧
      drainTicks view subPoolId slot ((d, tick) :: ticks) total h = drainTicks view subPoolId slot
        ticks (min (total + out.eventsApplied) (u64Size - 1)) h') ∨
    (∃ e h', preSyncBucket view subPoolId d tick slot h = .error e h' ∧
      (drainTicks view subPoolId slot ((d, tick) :: ticks) total h
          = drainTicks view subPoolId slot ticks total h' ∨
        drainTicks view subPoolId slot ((d, tick) :: ticks) total h = .error e h')) := by
  cases hx : preSyncBucket view subPoolId d tick slot h with
  | ok out h' => exact .inl ⟨out, h', rfl, by simp only [drainTicks, hx]⟩
  | error e h' =>
    refine .inr ⟨e, h', rfl, ?_⟩
    simp only [drainTicks, hx]
    split
    · next heq => cases heq
    · next heq =>
      cases heq
      exact .inl rfl
    · next heq =>
      cases heq
      exact .inr rfl

/-- One bucket after the other; a missing one leaves the books as they were. -/
theorem drainTicks_keeps (view : IndexerView ι ε) (subPoolId slot : Nat)
    (ticks : List (Direction × Int)) (total : Nat) :
    Keeps (drainTicks view subPoolId slot ticks total) := by
  induction ticks generalizing total with
  | nil => exact .pure fun _ hb => hb
  | cons dt ticks ih =>
    intro h hb
    have hk := preSyncBucket_keeps view subPoolId dt.1 dt.2 slot
    cases drainTicks_cons view subPoolId slot dt.1 dt.2 ticks total h with
    | inl hc =>
      obtain ⟨out, h', hx, hd⟩ := hc
      rw [hd]
      exact ih _ h' (hk.ok hb hx)
    | inr hc =>
      obtain ⟨e, h', hx, hd⟩ := hc
      cases hd with
      | inl hd =>
        rw [hd]
        exact ih _ h' (hk.error hb hx).1
      | inr hd =>
        rw [hd]
        exact hk.error hb hx

theorem drainAllBuckets_keeps (view : IndexerView ι ε) (subPoolId slot : Nat) :
    Keeps (drainAllBuckets view subPoolId slot) := by
  refine .get_bind fun h hb => ?_
  cases hs : h.subPools.get? subPoolId with
  | none =>
    refine .throw ?_
    rintro k rfl
    exact ⟨hb, trivial⟩
  | some s =>
    refine (drainTicks_keeps view subPoolId slot _ _).weaken ?_
    rintro k rfl
    exact hb

theorem call_keeps (view : IndexerView ι ε) (op : HarnessOp) : Keeps (op.call view) := by
  have wrap : ∀ {α : Type} {x : Run ι ε α} (f : α → HarnessReply), Keeps x →
      Keeps (do let a ← x; return f a) :=
    fun f hx => .bind hx fun _ => .pure fun _ hb => hb
  cases op with
  | «open» subPoolId d gross envelope =>
    exact wrap .opened (open_keeps view subPoolId d gross envelope)
  | close positionId envelope => exact wrap .closed (close_keeps view positionId envelope)
  | forceClose positionId envelope ack =>
    exact wrap (fun _ => .forceClosed) (forceClose_keeps view positionId envelope ack)
  | claimRecovery positionId envelope =>
    exact wrap .claimed (claimRecovery_keeps view positionId envelope)
  | sync subPoolId envelope => exact wrap (fun _ => .synced) (sync_keeps view subPoolId envelope)
  | preSyncBucket subPoolId d tick slot =>
    exact wrap .preSynced (preSyncBucket_keeps view subPoolId d tick slot)
  | drainAllBuckets subPoolId slot =>
    exact wrap .drained (drainAllBuckets_keeps view subPoolId slot)
  | harvestDust subPoolId d => exact wrap .harvested (harvestDust_keeps view subPoolId d)

/-- A harness with its sub-pools registered, each at an initial price and slot. -/
def registered (market : MarketParams) (indexer : ι) (pools : List (Nat × U64 × Nat)) :
    Harness ι :=
  pools.foldl (fun h p => h.addSubPool p.1 p.2.1 p.2.2) (.new market indexer)

theorem new_balanced (market : MarketParams) (indexer : ι) :
    Balanced 0 0 0 (.new market indexer : Harness ι) where
  sound := by
    intro id s hs
    cases hs
  vault_eq := rfl
  deposits_eq := rfl
  fees_eq := rfl
  swept_le := le_rfl
  next_pos := Nat.one_pos
  next_lt := (by decide : 1 < u64Size)
  deposits_le := Nat.zero_le _

/-- Nothing is lost by a new pool, or when one that holds nothing is overwritten. -/
theorem addSubPool_balanced {h : Harness ι} {id : Nat} (hb : Balanced 0 0 0 h)
    (h0 : h.vaultBalance = 0 ∨ h.subPools.get? id = none) (price : U64) (slot : Nat) :
    Balanced 0 0 0 (h.addSubPool id price slot) where
  sound := by
    intro i s hs
    simp only [addSubPool, OrdMap.get?_insert] at hs
    split_ifs at hs with hi
    · cases hs
      exact SubPool.new_sound id price slot
    · exact hb.sound i s hs
  vault_eq := by
    have hv := hb.vault_eq
    have hn : (SubPool.new id price slot).value = 0 := rfl
    simp only [addSubPool]
    cases ho : h.subPools.get? id with
    | none =>
      have := OrdMap.sum_insert_new (fun _ (s : SubPool) => s.value) (.new id price slot) ho
      omega
    | some w =>
      have h0 := h0.resolve_right (by simp [ho])
      have := OrdMap.sum_insert_old (fun _ (s : SubPool) => s.value) (.new id price slot) ho
      omega
  deposits_eq := hb.deposits_eq
  fees_eq := hb.fees_eq
  swept_le := hb.swept_le
  next_pos := hb.next_pos
  next_lt := hb.next_lt
  deposits_le := hb.deposits_le

theorem registered_balanced (market : MarketParams) (indexer : ι)
    (pools : List (Nat × U64 × Nat)) : Balanced 0 0 0 (registered market indexer pools) := by
  have hall : ∀ (h : Harness ι), Balanced 0 0 0 h → h.vaultBalance = 0 →
      Balanced 0 0 0 (pools.foldl (fun h p => h.addSubPool p.1 p.2.1 p.2.2) h) := by
    induction pools with
    | nil => exact fun h hb _ => hb
    | cons p pools ih =>
      exact fun h hb h0 => ih _ (addSubPool_balanced hb (.inl h0) p.2.1 p.2.2) h0
  exact hall _ (new_balanced market indexer) rfl

/-- Every step leaves the books in order and answers without an accounting error. -/
theorem step_balanced (view : IndexerView ι ε) (op : HarnessOp) {h : Harness ι}
    (hb : Balanced 0 0 0 h) :
    Balanced 0 0 0 (op.step view h).2 ∧ ∀ e, (op.step view h).1 = .error e → Accounted e := by
  unfold HarnessOp.step
  cases hx : op.call view h with
  | ok reply h' =>
    refine ⟨(call_keeps view op).ok hb hx, ?_⟩
    rintro e he
    cases he
  | error e h' =>
    obtain ⟨hb', ha⟩ := (call_keeps view op).error hb hx
    refine ⟨hb', ?_⟩
    rintro e' he
    cases he
    exact ha

theorem run_balanced (view : IndexerView ι ε) (ops : List HarnessOp) {h : Harness ι}
    (hb : Balanced 0 0 0 h) :
    Balanced 0 0 0 (Trace.run (HarnessOp.step view) ops h).2 ∧
      ∀ e, .error e ∈ (Trace.run (HarnessOp.step view) ops h).1 → Accounted e := by
  induction ops generalizing h with
  | nil =>
    refine ⟨hb, ?_⟩
    rintro e he
    cases he
  | cons op ops ih =>
    obtain ⟨hb', ha⟩ := step_balanced view op hb
    obtain ⟨hbs, has⟩ := ih hb'
    refine ⟨hbs, ?_⟩
    intro e he
    cases List.mem_cons.mp he with
    | inl he => exact ha e he.symm
    | inr he => exact has e he

theorem summary_vault {h : Harness ι} (hb : Balanced 0 0 0 h) :
    h.summary.vaultBalance = h.summary.poolEquityTotal + h.summary.dormantAccruedTotal
      + h.summary.dormantPendingTotal + h.summary.dustTotal := by
  have hv := hb.vault_eq
  simp only [summary, ← OrdMap.sum_add]
  rw [Nat.add_zero, Nat.add_zero] at hv
  rw [hv]
  refine OrdMap.sum_congr fun id s _ => ?_
  simp only [SubPool.value, Side.value, DormantStore.funds]
  omega

/-- Funds are conserved over whole runs: whatever the operations do, deposits are withdrawals
    plus the two vaults, the vault is what its users hold, and no payout finds it short. -/
theorem funds_conserved (view : IndexerView ι ε) (market : MarketParams) (indexer : ι)
    (pools : List (Nat × U64 × Nat)) (ops : List HarnessOp) :
    let r := Trace.run (HarnessOp.step view) ops (registered market indexer pools)
    let s := r.2.summary
    s.totalDeposits = s.totalWithdrawals + s.vaultBalance + s.feeVaultBalance ∧
      s.vaultBalance = s.poolEquityTotal + s.dormantAccruedTotal + s.dormantPendingTotal
        + s.dustTotal ∧
      ∀ reason, .error (.invariant reason) ∉ r.1 := by
  intro r s
  obtain ⟨hb, ha⟩ := run_balanced view ops (registered_balanced market indexer pools)
  exact ⟨hb.deposits_eq, summary_vault hb, fun reason he => ha _ he⟩

end Harness
end MoleFinance
