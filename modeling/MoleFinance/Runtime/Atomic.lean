import MoleFinance.Runtime.Handlers
import MoleFinance.Engine.Aggregates

/-! Which failed calls leave the runtime as it was. -/
namespace MoleFinance
open MoleMath Call Trace

namespace Runtime
namespace ChainRuntime
variable {α β : Type} {x y : ChainRuntime} {id : Nat} {d : Direction} {store : DormantStore}
  {account : DistributionLedgerAccount}

/-! A write-back that writes what is there already. -/

theorem zeroRecord_eq_iff {r : OnChainBucketRecord} : zeroRecord r = r ↔ r.isDead = true := by
  unfold zeroRecord
  by_cases h : r.isDead = true
  · simp [h]
  · rw [if_neg h]
    refine ⟨fun he => ?_, fun hd => absurd hd h⟩
    rw [← he]
    rfl

def HasLedger (x : ChainRuntime) (id : Nat) (d : Direction) (store : DormantStore) : Prop :=
  ∃ account, x.ledgers.get? (ledgerKey id d) = some account ∧
    account.ledger = store.image x.market.params.maxDistributionLedgerSize

def HasRecord (x : ChainRuntime) (id : Nat) (d : Direction) (r : OnChainBucketRecord) : Prop :=
  ∃ account, x.buckets.get? (recordKey id d r) = some account ∧ account.record = r

def HasBuckets (x : ChainRuntime) (id : Nat) (d : Direction) (store : DormantStore) : Prop :=
  ∀ tick, if x.strictPdaLifecycle = true then
      ∀ account, x.buckets.get? (bucketKey id d tick) = some account →
        match recordFor store.records tick with
        | some r => account.record = r
        | none => account.record.isDead = true
    else x.buckets.get? (bucketKey id d tick) = (recordFor store.records tick).map (⟨id, ·⟩)

theorem withLedger_ledgers_iff (ha : x.ledgers.get? (ledgerKey id d) = some account) :
    (x.withLedger id d account store).ledgers = x.ledgers ↔ x.HasLedger id d store := by
  constructor
  · intro h
    have hget := congrArg (fun m => OrdMap.get? m (ledgerKey id d)) h
    simp only [withLedger, OrdMap.get?_insert, if_true, ha, Option.some.injEq] at hget
    exact ⟨account, ha, (congrArg DistributionLedgerAccount.ledger hget).symm⟩
  · rintro ⟨account', ha', hled⟩
    cases ha.symm.trans ha'
    refine OrdMap.insert_get?_self (ha.trans ?_)
    rw [← hled]

theorem refreshed_buckets_iff {rs : List OnChainBucketRecord}
    (hn : (rs.map (·.zeroPriceTick)).Nodup)
    (hslots : ∀ r ∈ rs, x.buckets.contains (recordKey id d r) = true) :
    (x.refreshed id d rs).buckets = x.buckets ↔ ∀ r ∈ rs, x.HasRecord id d r := by
  constructor
  · intro h r hr
    obtain ⟨a, ha⟩ := OrdMap.contains_iff.mp (hslots r hr)
    have hget := congrArg (fun m => OrdMap.get? m (recordKey id d r)) h
    have hfor : recordFor rs r.zeroPriceTick = some r := (recordFor_some hn).mpr ⟨hr, rfl⟩
    simp only [refreshed, OrdMap.get?_mapVal, ha, Option.map_some, Option.some.injEq] at hget
    rw [if_pos ⟨rfl, rfl⟩] at hget
    refine ⟨a, ha, ?_⟩
    have hrec := congrArg DormantBucketAccount.record hget
    simp only [recordKey, BucketKey.tick_bucketKey, hfor, Option.getD_some] at hrec
    exact hrec.symm
  · intro h
    refine OrdMap.ext_get? fun key => ?_
    simp only [refreshed, OrdMap.get?_mapVal]
    cases hk : x.buckets.get? key with
    | none => rfl
    | some a =>
      by_cases hd : key.subPoolId = id ∧ key.direction = d
      · cases hr : recordFor rs key.tick with
        | none => simp
        | some r =>
          obtain ⟨hmem, ht⟩ := mem_of_recordFor hr
          obtain ⟨a', ha', hrec⟩ := h r hmem
          have hkey : recordKey id d r = key := by
            rw [recordKey, ht, ← hd.1, ← hd.2]
            rfl
          rw [hkey, hk] at ha'
          cases ha'
          simp [hd, ← hrec]
      · simp only [Option.map_some, if_neg hd]

/-- The records before the first one without an account are there already. -/
theorem refused_iff (ha : x.ledgers.get? (ledgerKey id d) = some account) :
    (x.withLedger id d account store).refreshed id d (x.slotted id d store.records) = x ↔
      x.HasLedger id d store ∧ ∀ r ∈ x.slotted id d store.records, x.HasRecord id d r := by
  have hsub : (x.slotted id d store.records).Sublist store.records := List.takeWhile_sublist _
  have hslots : ∀ r ∈ x.slotted id d store.records, x.buckets.contains (recordKey id d r) = true :=
    fun r hr => List.mem_takeWhile_imp (p := fun r => x.buckets.contains (recordKey id d r)) hr
  have hn : ((x.slotted id d store.records).map (·.zeroPriceTick)).Nodup :=
    (records_nodup store).sublist (hsub.map _)
  rw [← withLedger_ledgers_iff ha, ← refreshed_buckets_iff hn hslots]
  constructor
  · intro h
    have hl := congrArg ledgers h
    have hb := congrArg buckets h
    exact ⟨hl, hb⟩
  · rintro ⟨hl, hb⟩
    exact ext_fields rfl rfl hb hl rfl rfl rfl rfl rfl rfl rfl

theorem stored_eq_iff (ha : x.ledgers.get? (ledgerKey id d) = some account) :
    x.stored id d account store = x ↔ x.HasLedger id d store ∧ x.HasBuckets id d store := by
  rw [← withLedger_ledgers_iff ha, ← stored_ledgers]
  have hbuckets : (x.stored id d account store).buckets = x.buckets ↔ x.HasBuckets id d store := by
    constructor
    · intro h tick
      have hget := congrArg (fun m => OrdMap.get? m (bucketKey id d tick)) h
      simp only [get?_stored, BucketKey.subPoolId_bucketKey, BucketKey.direction_bucketKey,
        and_self, if_true, BucketKey.tick_bucketKey] at hget
      split_ifs with hs
      · intro a hacc
        rw [if_pos hs, hacc, Option.map_some, Option.some.injEq] at hget
        have hrec := congrArg DormantBucketAccount.record hget
        cases hr : recordFor store.records tick with
        | none =>
          rw [hr, Option.getD_none] at hrec
          exact zeroRecord_eq_iff.mp hrec
        | some r =>
          rw [hr, Option.getD_some] at hrec
          exact hrec.symm
      · rw [if_neg hs] at hget
        exact hget.symm
    · intro h
      refine OrdMap.ext_get? fun key => ?_
      rw [get?_stored]
      by_cases hd : key.subPoolId = id ∧ key.direction = d
      · have hkey : bucketKey id d key.tick = key := by
          rw [← hd.1, ← hd.2]
          rfl
        have ht := h key.tick
        rw [hkey] at ht
        rw [if_pos hd]
        split_ifs at ht ⊢ with hs
        · cases hk : x.buckets.get? key with
          | none => rfl
          | some a =>
            have hrec := ht a hk
            cases hr : recordFor store.records key.tick with
            | none =>
              rw [hr] at hrec
              simp [zeroRecord_eq_iff.mpr hrec]
            | some r =>
              rw [hr] at hrec
              simp [← hrec]
        · exact ht.symm
      · rw [if_neg hd]
  rw [← hbuckets]
  constructor
  · intro h
    exact ⟨congrArg ledgers h, congrArg buckets h⟩
  · rintro ⟨hl, hb⟩
    have hrest := withAccounts_of_rest (stored_touches x id d account store).rest
    have hsub := stored_subPools x id d account store
    have hfields : (x.stored id d account store).withAccounts x = x.stored id d account store :=
      ext_fields rfl hsub.symm hb.symm hl.symm rfl rfl rfl rfl rfl rfl rfl
    exact hfields.symm.trans hrest

/-- The direction is refused, and what is written before that is there already. -/
def Refuses (x : ChainRuntime) (id : Nat) (d : Direction) (store : DormantStore) : Prop :=
  ¬ x.Capped store ∨ x.Capped store ∧ ¬ x.Slotted id d store ∧ x.HasLedger id d store ∧
    ∀ r ∈ x.slotted id d store.records, x.HasRecord id d r

def Keeps (x : ChainRuntime) (id : Nat) (d : Direction) (store : DormantStore) : Prop :=
  x.Capped store ∧ x.Slotted id d store ∧ x.HasLedger id d store ∧ x.HasBuckets id d store

/-- The write-back is refused without having changed an account. -/
def Unmoved (x : ChainRuntime) (id : Nat) (core : SubPool) : Prop :=
  x.Refuses id .long core.long.dormant ∨
    x.Keeps id .long core.long.dormant ∧ x.Refuses id .short core.short.dormant

section Unmoved
variable {acc : SubPoolAccount} {long short : DistributionLedgerAccount} {core : SubPool}

theorem stored_of_second {rs : List OnChainBucketRecord} {store' : DormantStore}
    (h : (((x.stored id .long long store).withLedger id .short short store').refreshed id .short
      rs) = x) : x.stored id .long long store = x := by
  have hledgers : (x.stored id .long long store).ledgers = x.ledgers := by
    refine OrdMap.ext_get? fun key => ?_
    obtain ⟨i, e, rfl⟩ : ∃ i e, key = ledgerKey i e := ⟨(ofLex key).1, (ofLex key).2, rfl⟩
    have hget := congrArg (fun m => OrdMap.get? m (ledgerKey i e)) (congrArg ledgers h)
    rw [stored_ledgers]
    simp only [refreshed, withLedger, OrdMap.get?_insert, ledgerKey_inj, stored_ledgers]
      at hget ⊢
    cases e with
    | long => simpa using hget
    | short => simp
  have hbuckets : (x.stored id .long long store).buckets = x.buckets := by
    refine OrdMap.ext_get? fun key => ?_
    have hget := congrArg (fun m => OrdMap.get? m key) (congrArg buckets h)
    by_cases hd : key.direction = .short
    · rw [get?_stored, if_neg]
      rintro ⟨-, he⟩
      rw [hd] at he
      cases he
    · simp only [refreshed, withLedger, OrdMap.get?_mapVal] at hget
      rw [← hget]
      cases (x.stored id .long long store).buckets.get? key with
      | none => rfl
      | some a => simp [hd]
  have hrest := withAccounts_of_rest (stored_touches x id .long long store).rest
  have hfields : (x.stored id .long long store).withAccounts x = x.stored id .long long store :=
    ext_fields rfl (stored_subPools x id .long long store).symm hbuckets.symm hledgers.symm rfl rfl
      rfl rfl rfl rfl rfl
  exact hfields.symm.trans hrest

/-- A refused write-back leaves the accounts as they were exactly if it is `Unmoved`. -/
theorem writeCore_unmoved (h : x.Present id acc long short) (hf : ¬ x.Fits id core)
    {e : MirrorError}
    (hw : writeCoreSubPool id core x = .error e y) : y = x ↔ x.Unmoved id core := by
  obtain ⟨hlc, hls, hl⟩ | ⟨hlc, e', -, hl⟩ | ⟨hlc, hls, hl⟩ :=
    writeDirection_cases core.long.dormant h.long
  · have hlong : ¬ x.Refuses id .long core.long.dormant := by
      rintro (hc | ⟨-, hs, -⟩)
      · exact hc hlc
      · exact hs hls
    have hkeeps : x.Keeps id .long core.long.dormant ↔
        x.stored id .long long core.long.dormant = x := by
      rw [stored_eq_iff h.long]
      exact ⟨fun hk => hk.2.2, fun hk => ⟨hlc, hls, hk⟩⟩
    obtain ⟨hsc, hss, -⟩ | ⟨hsc, e', -, hs⟩ | ⟨hsc, hss, hs⟩ :=
      writeDirection_cases core.short.dormant (h.after_long core.long.dormant)
    · refine absurd (fun d => ?_) hf
      cases d with
      | long => exact ⟨hlc, hls⟩
      | short => exact ⟨(stored_capped _).mp hsc, (stored_slotted (by decide) _).mp hss⟩
    · have hrun : writeCoreSubPool id core x = .error e' _ :=
        (bind_of_ok hl _).trans (bind_of_error hs _)
      cases hw.symm.trans hrun
      have hshort : x.Refuses id .short core.short.dormant :=
        .inl fun hc => hsc ((stored_capped _).mpr hc)
      simp only [Unmoved, hlong, false_or, hkeeps, hshort, and_true]
    · have hrun : writeCoreSubPool id core x = .error _ _ :=
        (bind_of_ok hl _).trans (bind_of_error hs _)
      cases hw.symm.trans hrun
      simp only [Unmoved, hlong, false_or, hkeeps]
      have hsc' := (stored_capped _).mp hsc
      have hss' : ¬ x.Slotted id .short core.short.dormant :=
        fun hc => hss ((stored_slotted (by decide) _).mpr hc)
      constructor
      · intro hx
        have hstored : x.stored id .long long core.long.dormant = x := stored_of_second hx
        refine ⟨hstored, .inr ⟨hsc', hss', ?_⟩⟩
        have hx' := hx
        rw [hstored] at hx'
        exact (refused_iff h.short).mp hx'
      · rintro ⟨hstored, hc | ⟨-, -, hheld⟩⟩
        · exact absurd hsc' hc
        · rw [hstored]
          exact (refused_iff h.short).mpr hheld
  · cases hw.symm.trans (bind_of_error hl _)
    exact ⟨fun _ => .inl (.inl hlc), fun _ => rfl⟩
  · cases hw.symm.trans (bind_of_error hl _)
    rw [refused_iff h.long]
    constructor
    · exact fun hheld => .inl (.inr ⟨hlc, hls, hheld⟩)
    · rintro ((hc | ⟨-, -, hheld⟩) | ⟨hk, -⟩)
      · exact absurd hlc hc
      · exact hheld
      · exact absurd hk.2.1 hls

end Unmoved

section Pay
variable {k : Nat} {held : PositionAccount} {acc : SubPoolAccount}
  {long short : DistributionLedgerAccount} {core core' : SubPool} {p' : Position} {e : MirrorError}

/-- Every error handed to the caller comes with the runtime as it was. -/
def Spotless (m : MirrorM α) (x : ChainRuntime) : Prop :=
  ∀ e y, m x = .error e y → e.Returned → y = x

theorem spotless_of_error {m : MirrorM α} (h : m x = .error e x) : Spotless m x := by
  intro e' y hm _
  cases h.symm.trans hm
  rfl

theorem spotless_of_exists {m : MirrorM α} (h : ∃ e, m x = .error e x) : Spotless m x := by
  obtain ⟨e, h⟩ := h
  exact spotless_of_error h

theorem spotless_map {m : MirrorM α} {f : α → β} :
    Spotless (do return f (← m) : MirrorM β) x ↔ Spotless m x := by
  unfold Spotless
  cases hm : m x with
  | ok a y => simp [bind_of_ok hm]
  | error e y => simp [bind_of_error hm]

theorem plus_error {a b : Nat} (h : plus a b = .error e) : e = .panic := by
  unfold plus at h
  by_cases hlt : a + b < u128Size
  · rw [ensure_of hlt] at h
    cases h
  · rw [ensure_not hlt] at h
    cases h
    rfl

theorem payOut_cases (reason : String) (amount : Nat) (y : ChainRuntime) (a : α) :
    (¬ amount ≤ y.vaultBalance ∧
      (do payOut reason amount; return a : MirrorM α) y = .error (.invariant reason) y) ∨
    amount ≤ y.vaultBalance ∧
      ∀ e z, (do payOut reason amount; return a : MirrorM α) y = .error e z → e = .panic := by
  by_cases hv : amount ≤ y.vaultBalance
  · refine .inr ⟨hv, fun e z h => ?_⟩
    simp only [payOut, bind_assoc, get_bind, ensure_of hv, orFail_ok_bind] at h
    cases hp : plus y.totalWithdrawals amount with
    | ok w =>
      rw [hp] at h
      cases h
    | error e' =>
      rw [hp] at h
      cases h
      exact plus_error hp
  · refine .inl ⟨hv, ?_⟩
    simp only [payOut, bind_assoc, get_bind, ensure_not hv]
    rfl

theorem sweep_cases (amount : Nat) (y : ChainRuntime) (a : α) :
    (¬ amount ≤ y.vaultBalance ∧ (do sweep amount; return a : MirrorM α) y
      = .error (.invariant "harvest: vault underflow") y) ∨
    amount ≤ y.vaultBalance ∧
      ∀ e z, (do sweep amount; return a : MirrorM α) y = .error e z → e = .panic := by
  by_cases hv : amount ≤ y.vaultBalance
  · refine .inr ⟨hv, fun e z h => ?_⟩
    simp only [sweep, bind_assoc, get_bind, ensure_of hv, orFail_ok_bind] at h
    cases hp : plus y.feeVaultBalance amount with
    | ok w =>
      rw [hp] at h
      cases h
    | error e' =>
      rw [hp] at h
      cases h
      exact plus_error hp
  · refine .inl ⟨hv, ?_⟩
    simp only [sweep, bind_assoc, get_bind, ensure_not hv]
    rfl

theorem bookDeposit_error {gross : Nat} {out : OpenOutcome} {a : α}
    (hlt : out.principalIntoPool + out.dust < u128Size) {z : ChainRuntime}
    (h : (do bookDeposit gross out; return a : MirrorM α) y = .error e z) : e = .panic := by
  simp only [bookDeposit, bind_assoc, get_bind, ensure_of hlt, orFail_ok_bind] at h
  cases hv : plus y.vaultBalance (out.principalIntoPool + out.dust) with
  | error e' =>
    rw [hv] at h
    cases h
    exact plus_error hv
  | ok v =>
    rw [hv, orFail_ok_bind] at h
    cases hf : plus y.feeVaultBalance out.openFee with
    | error e' =>
      rw [hf] at h
      cases h
      exact plus_error hf
    | ok f =>
      rw [hf, orFail_ok_bind] at h
      cases hd : plus y.totalDeposits gross with
      | error e' =>
        rw [hd] at h
        cases h
        exact plus_error hd
      | ok w =>
        rw [hd] at h
        cases h

theorem afterCall_vault (hp : x.Present held.subPoolId acc long short) (core : SubPool)
    (p : Position) : (x.afterCall k held acc long short core p).vaultBalance = x.vaultBalance := by
  have hrest := congrArg ChainRuntime.vaultBalance (written_touches hp core).rest
  exact hrest

theorem afterCall_ne (hk : x.positions.get? k = some held) (core : SubPool)
    (hne : p' ≠ held.position) : x.afterCall k held acc long short core p' ≠ x := by
  intro h
  have hget := congrArg (fun y => y.positions.get? k) h
  simp only [afterCall, OrdMap.get?_insert, if_true, hk, Option.some.injEq] at hget
  exact hne (congrArg PositionAccount.position hget)

end Pay

theorem close_changes {market : MarketParams} {s s' : SubPool} {envelope : PriceEnvelope}
    {p p' : Position} {out : CloseOutcome}
    (h : closePosition market s envelope p = .ok (s', p', out)) : p' ≠ p := by
  obtain ⟨_, _, _, _, _, p3, _, _, hc⟩ := closePosition_ok h
  rintro rfl
  have hst := hc.status
  rw [hc.state] at hst
  simp [finishPosition] at hst

theorem claim_changes {market : MarketParams} {s s' : SubPool} {envelope : PriceEnvelope}
    {p p' : Position} {out : ClaimRecoveryOutcome}
    (h : claimDormantRecovery market s envelope p = .ok (s', p', out)) : p' ≠ p := by
  obtain ⟨s1, _, p1, p2, _, _, _, hc⟩ := claim_ok h
  obtain ⟨-, _, -, -, -, hp2⟩ := redeemRecovery_ok hc.recovery
  have hrec : p'.recoveryShares = 0 := by
    rw [hc.state, hp2]
  have hact : p'.activeShares = p1.activeShares := by
    rw [hc.state, hp2]
  rintro rfl
  have hshares := hc.shares
  cases lazyMigratePosition_ok hc.migrated with
  | empty h0 => exact hshares hrec
  | current h0 hg => exact hshares hrec
  | moved r h0 hg hr => exact h0 hact

section Calls
variable {k : Nat} {call : MarketParams → SubPool → Position →
    Except ClearingError (SubPool × Position × α)} {result : α → β}

def Covered (x : ChainRuntime) (k : Nat) (call : MarketParams → SubPool → Position →
    Except ClearingError (SubPool × Position × α)) (amount : α → Nat) : Prop :=
  ∀ held core core' p' out, x.positions.get? k = some held →
    x.buildCoreSubPool held.subPoolId = .ok core →
    call x.market.params core held.position = .ok (core', p', out) →
    x.Fits held.subPoolId core' → amount out ≤ x.vaultBalance

variable (x k call result) in
theorem onPosition_cases (pay : α → MirrorM Unit) :
    (∃ e, onPosition k call pay result x = .error e x) ∨
    ∃ held core core' p' out acc long short, x.positions.get? k = some held ∧
      x.buildCoreSubPool held.subPoolId = .ok core ∧
      call x.market.params core held.position = .ok (core', p', out) ∧
      x.Fits held.subPoolId core' ∧ x.Present held.subPoolId acc long short ∧
      onPosition k call pay result x = (do pay out; return result out : MirrorM β)
        (x.afterCall k held acc long short core' p') := by
  cases hk : x.positions.get? k with
  | none => exact .inl ⟨_, onPosition_missing hk⟩
  | some held =>
    cases hb : x.buildCoreSubPool held.subPoolId with
    | error e => exact .inl (onPosition_unread hk fun core hc => by simp [hb] at hc)
    | ok core =>
      cases hc : call x.market.params core held.position with
      | error e => exact .inl ⟨_, onPosition_error hk hb hc⟩
      | ok r =>
        obtain ⟨core', p', out⟩ := r
        by_cases hf : x.Fits held.subPoolId core'
        · obtain ⟨acc, long, short, _, _, hp, -⟩ := buildCore_ok hb
          exact .inr ⟨held, core, core', p', out, acc, long, short, rfl, hb, hc, hf, hp,
            onPosition_accepted hk hb hc hf hp⟩
        · exact .inl (onPosition_unfit hk hb hc hf)

theorem onPosition_paid_iff {amount : α → Nat} {reason : String}
    (hchange : ∀ market s p s' p' out, call market s p = .ok (s', p', out) → p' ≠ p) :
    Spotless (onPosition k call (fun out => payOut reason (amount out)) result) x ↔
      x.Covered k call amount := by
  constructor
  · intro h held core core' p' out hk hb hc hf
    obtain ⟨acc, long, short, _, _, hp, -⟩ := buildCore_ok hb
    have hrun : onPosition k call (fun out => payOut reason (amount out)) result x = _ :=
      onPosition_accepted hk hb hc hf hp
    cases payOut_cases reason (amount out)
        (x.afterCall k held acc long short core' p') (result out) with
    | inl hshort =>
      have hback := h _ _ (hrun.trans hshort.2) ⟨by simp, by simp⟩
      exact absurd hback (afterCall_ne hk core' (hchange _ _ _ _ _ _ hc))
    | inr hpaid =>
      rw [afterCall_vault hp] at hpaid
      exact hpaid.1
  · intro h
    cases onPosition_cases x k call result
        (fun out => payOut reason (amount out)) with
    | inl he => exact spotless_of_exists he
    | inr hx =>
      obtain ⟨held, core, core', p', out, acc, long, short, hk, hb, hc, hf, hp, hrun⟩ := hx
      intro e y hm he
      rw [hrun] at hm
      have hv := h held core core' p' out hk hb hc hf
      cases payOut_cases reason (amount out)
          (x.afterCall k held acc long short core' p') (result out) with
      | inl hshort =>
        rw [afterCall_vault hp] at hshort
        exact absurd hv hshort.1
      | inr hpaid => exact absurd (hpaid.2 e y hm) he.1

theorem onPosition_free : Spotless (onPosition k call (fun _ => pure ()) result) x := by
  cases onPosition_cases x k call result
      (fun _ => pure ()) with
  | inl he => exact spotless_of_exists he
  | inr hx =>
    obtain ⟨held, core, core', p', out, acc, long, short, -, -, -, -, -, hrun⟩ := hx
    intro e y hm _
    rw [hrun] at hm
    cases hm

variable {callPool : MarketParams → SubPool → Except ClearingError (SubPool × α)}

variable (x id callPool) in
theorem onSubPool_cases (pay : α → MirrorM Unit) :
    (∃ e, onSubPool id callPool pay x = .error e x) ∨
    ∃ core core' out acc long short, x.buildCoreSubPool id = .ok core ∧
      callPool x.market.params core = .ok (core', out) ∧ x.Fits id core' ∧
      x.Present id acc long short ∧ onSubPool id callPool pay x
        = (do pay out; return out : MirrorM α) (x.written id acc long short core') := by
  cases hb : x.buildCoreSubPool id with
  | error e => exact .inl (onSubPool_unread fun core hc => by simp [hb] at hc)
  | ok core =>
    cases hc : callPool x.market.params core with
    | error e => exact .inl ⟨_, onSubPool_error hb hc⟩
    | ok r =>
      obtain ⟨core', out⟩ := r
      by_cases hf : x.Fits id core'
      · obtain ⟨acc, long, short, _, _, hp, -⟩ := buildCore_ok hb
        exact .inr ⟨core, core', out, acc, long, short, rfl, hc, hf, hp,
          onSubPool_accepted hb hc hf hp⟩
      · exact .inl (onSubPool_unfit hb hc hf)

theorem onSubPool_free : Spotless (onSubPool id callPool (fun _ => pure ())) x := by
  cases onSubPool_cases x id callPool (fun _ => pure ()) with
  | inl he => exact spotless_of_exists he
  | inr hx =>
    obtain ⟨core, core', out, acc, long, short, -, -, -, -, hrun⟩ := hx
    intro e y hm _
    rw [hrun] at hm
    cases hm

end Calls

theorem written_ne {acc : SubPoolAccount} {long short : DistributionLedgerAccount}
    {core core' : SubPool} (hp : x.Present id acc long short)
    (hb : x.buildCoreSubPool id = .ok core) (hd : (core'.side d).dust ≠ (core.side d).dust) :
    x.written id acc long short core' ≠ x := by
  intro h
  obtain ⟨acc', _, _, l, s, hp', -, -, rfl⟩ := buildCore_ok hb
  obtain ⟨rfl, -, -⟩ := hp.eq hp'
  have hid := x.keyed id acc' hp.account
  have hget := congrArg (fun y => OrdMap.get? y.subPools id) h
  simp only [written, putSubPool, SubPoolAccount.writeBack, hid, OrdMap.get?_insert, if_true,
    hp.account, Option.some.injEq] at hget
  apply hd
  cases d with
  | long => exact congrArg (fun a : SubPoolAccount => a.long.dust) hget
  | short => exact congrArg (fun a : SubPoolAccount => a.short.dust) hget

/-- What keeps a failed call of each handler from leaving traces: a sync whose result the
    accounts take, or refuse before anything changed; a sub-pool that can be read when a position
    is opened; a vault that covers what the engine pays out. -/
def Guarded (x : ChainRuntime) : MirrorOp → Prop
  | .sync id envelope => ∀ core core' out, x.buildCoreSubPool id = .ok core →
      syncPool x.market.params core envelope = .ok (core', out) →
        x.Fits id core' ∨ x.Unmoved id core'
  | .open id _ _ _ => ∀ e, x.buildCoreSubPool id = .error e → e.Returned →
      x.snapshotSubPool id = none ∨ u64Size ≤ x.nextPositionId + 1
  | .close k envelope => x.Covered k (closePosition · · envelope ·) (·.withdrawable)
  | .claimRecovery k envelope => x.Covered k (claimDormantRecovery · · envelope ·) (·.redeemable)
  | .harvestDust id d => ∀ core core' out, x.buildCoreSubPool id = .ok core →
      MoleFinance.harvestDust x.market.params core d = .ok (core', out) → x.Fits id core' →
        out.amount ≤ x.vaultBalance
  | .forceClose _ _ _ => True
  | .preSyncBucket _ _ _ _ => True

theorem sync_spotless_iff {envelope : PriceEnvelope} :
    Spotless (ChainRuntime.sync id envelope) x ↔ x.Guarded (.sync id envelope) := by
  constructor
  · intro h core core' out hb hc
    by_cases hf : x.Fits id core'
    · exact .inl hf
    · obtain ⟨acc, long, short, _, _, hp, -⟩ := buildCore_ok hb
      obtain ⟨e, y, he, hw, -⟩ := writeCore_refused hp hf
      exact .inr ((writeCore_unmoved hp hf hw).mp (h e y (sync_unfit hb hc hw) he))
  · intro h
    cases hb : x.buildCoreSubPool id with
    | error e => exact spotless_of_exists (sync_unread fun core hc => by simp [hb] at hc)
    | ok core =>
      cases hc : syncPool x.market.params core envelope with
      | error e => exact spotless_of_error (sync_error hb hc)
      | ok r =>
        obtain ⟨core', out⟩ := r
        obtain ⟨acc, long, short, _, _, hp, -⟩ := buildCore_ok hb
        intro e y hm _
        by_cases hf : x.Fits id core'
        · rw [sync_accepted hb hc hf hp] at hm
          cases hm
        · obtain ⟨e', y', -, hw, -⟩ := writeCore_refused hp hf
          cases (sync_unfit hb hc hw).symm.trans hm
          exact (writeCore_unmoved hp hf hw).mpr ((h core core' out hb hc).resolve_left hf)

theorem open_spotless_iff {d : Direction} {gross : U64} {envelope : PriceEnvelope} :
    Spotless (ChainRuntime.open id d gross envelope) x ↔ x.Guarded (.open id d gross envelope) := by
  have habort : ∀ {e y}, ChainRuntime.open id d gross envelope x = .error e y →
      (x.snapshotSubPool id = none ∨ u64Size ≤ x.nextPositionId + 1) → e = .panic := by
    intro e y hm h
    cases (open_aborts h).symm.trans hm
    rfl
  constructor
  · intro h e hb he
    by_contra hno
    rw [not_or, not_le] at hno
    obtain ⟨snap, hs⟩ := Option.ne_none_iff_exists'.mp hno.1
    have hback := h e _ (open_unread hno.2 hs hb) he
    have hnext := congrArg ChainRuntime.nextPositionId hback
    simp at hnext
  · intro h e y hm he
    by_cases hab : x.snapshotSubPool id = none ∨ u64Size ≤ x.nextPositionId + 1
    · exact absurd (habort hm hab) he.1
    rw [not_or, not_le] at hab
    obtain ⟨snap, hs⟩ := Option.ne_none_iff_exists'.mp hab.1
    cases hb : x.buildCoreSubPool id with
    | error e' =>
      cases (open_unread hab.2 hs hb).symm.trans hm
      cases h e hb he with
      | inl hn => exact absurd hn hab.1
      | inr hn => omega
    | ok core =>
      cases hc : openPosition x.market.params core envelope d gross x.nextPositionId with
      | error e' =>
        cases (open_error hab.2 hb hc).symm.trans hm
        rfl
      | ok r =>
        obtain ⟨core', p', out⟩ := r
        by_cases hf : x.Fits id core'
        · obtain ⟨acc, long, short, _, _, hp, -⟩ := buildCore_ok hb
          rw [open_accepted hab.2 hb hc hf hp] at hm
          obtain ⟨_, _, ho⟩ := openPosition_ok hc
          obtain ⟨hsplit, -, -⟩ := mintShares_ok ho.minted
          have hprincipal : out.principalIntoPool + out.dust < u128Size := by
            have hgross : (gross : Nat) < u64Size := gross.2
            rw [hsplit, (takeFee_ok ho.fee).2]
            simp only [u64Size, u128Size] at hgross ⊢
            omega
          exact absurd (bookDeposit_error hprincipal hm) he.1
        · obtain ⟨e', hx⟩ := open_unfit hab.2 hb hc hf
          cases hx.symm.trans hm
          rfl

theorem harvest_spotless_iff :
    Spotless (ChainRuntime.harvestDust id d) x ↔ x.Guarded (.harvestDust id d) := by
  constructor
  · intro h core core' out hb hc hf
    obtain ⟨acc, long, short, _, _, hp, -⟩ := buildCore_ok hb
    have hrun : onSubPool id (MoleFinance.harvestDust · · d) (fun out => sweep out.amount) x
        = _ := onSubPool_accepted hb hc hf hp
    have hvault : (x.written id acc long short core').vaultBalance = x.vaultBalance := by
      have hrest := congrArg ChainRuntime.vaultBalance (written_touches hp core').rest
      exact hrest
    cases sweep_cases out.amount (x.written id acc long short core') out with
    | inl hshort =>
      have hback := h _ _ (hrun.trans hshort.2) ⟨by simp, by simp⟩
      obtain ⟨hamount, rfl, -⟩ := harvest_ok hc
      refine absurd hback (written_ne hp hb (d := d) ?_)
      rw [SubPool.side_setSide]
      have hv := hshort.1
      simp only
      omega
    | inr hpaid =>
      rw [hvault] at hpaid
      exact hpaid.1
  · intro h
    cases onSubPool_cases x id (MoleFinance.harvestDust · · d)
        (fun out => sweep out.amount) with
    | inl he => exact spotless_of_exists he
    | inr hx =>
      obtain ⟨core, core', out, acc, long, short, hb, hc, hf, hp, hrun⟩ := hx
      intro e y hm he
      have hvault : (x.written id acc long short core').vaultBalance = x.vaultBalance := by
        have hrest := congrArg ChainRuntime.vaultBalance (written_touches hp core').rest
        exact hrest
      have hcall : ChainRuntime.harvestDust id d x = _ := hrun
      rw [hcall] at hm
      have hv := h core core' out hb hc hf
      cases sweep_cases out.amount (x.written id acc long short core') out with
      | inl hshort =>
        rw [hvault] at hshort
        exact absurd hv hshort.1
      | inr hpaid => exact absurd (hpaid.2 e y hm) he.1

theorem preSync_spotless {tick : Int} {slot : Nat} :
    Spotless (preSyncBucket id d tick slot) x := by
  by_cases hb : x.buckets.contains (bucketKey id d tick) = true
  · have hrun : preSyncBucket id d tick slot x
        = onSubPool id (preSyncDormantBucket · · d tick slot) (fun _ => pure ()) x := by
      unfold preSyncBucket
      rw [get_bind, ensure_of hb, orFail_ok_bind]
    intro e y hm he
    rw [hrun] at hm
    exact onSubPool_free e y hm he
  · refine spotless_of_error (e := .bucketNotInitialized id d tick) ?_
    unfold preSyncBucket
    rw [get_bind, ensure_not hb, orFail_error_bind]

end ChainRuntime

/-- A failed call hands its error to a caller who finds everything as it was. -/
def MirrorOp.Atomic (op : MirrorOp) (x : ChainRuntime) : Prop :=
  ∀ e, (op.step x).1 = .error e → e.Returned → (op.step x).2 = x

theorem MirrorOp.atomic_iff_spotless (op : MirrorOp) (x : ChainRuntime) :
    op.Atomic x ↔ ChainRuntime.Spotless op.call x := by
  unfold MirrorOp.Atomic ChainRuntime.Spotless MirrorOp.step
  cases hx : op.call x with
  | ok a y => simp [answer]
  | error e y => simp [answer, final]

/-- The handlers of every runtime, in either mode, leave no trace of a failed call exactly where
    they are guarded. -/
theorem handlers_atomic_iff (op : MirrorOp) (x : ChainRuntime) :
    op.Atomic x ↔ x.Guarded op := by
  rw [op.atomic_iff_spotless]
  cases op with
  | «open» id d gross envelope =>
    exact ChainRuntime.spotless_map.trans ChainRuntime.open_spotless_iff
  | close k envelope =>
    exact ChainRuntime.spotless_map.trans
      (ChainRuntime.onPosition_paid_iff fun _ _ _ _ _ _ h => ChainRuntime.close_changes h)
  | forceClose k envelope ack =>
    exact ChainRuntime.spotless_map.trans (iff_true_intro ChainRuntime.onPosition_free)
  | claimRecovery k envelope =>
    exact ChainRuntime.spotless_map.trans
      (ChainRuntime.onPosition_paid_iff fun _ _ _ _ _ _ h => ChainRuntime.claim_changes h)
  | sync id envelope => exact ChainRuntime.spotless_map.trans ChainRuntime.sync_spotless_iff
  | preSyncBucket id d tick slot =>
    exact ChainRuntime.spotless_map.trans (iff_true_intro ChainRuntime.preSync_spotless)
  | harvestDust id d => exact ChainRuntime.spotless_map.trans ChainRuntime.harvest_spotless_iff

/-! A sync that distributes to one direction and has no account for the new bucket of the other. -/

theorem smallMarket_ledger_lt (mode : DistributeMode) :
    (smallMarket mode).maxDistributionLedgerSize < u32Size := by
  show 1024 < u32Size
  decide

def smallAccount (mode : DistributeMode) : MarketAccount :=
  ⟨smallMarket mode, smallMarket_ledger_lt mode⟩

def oneSlot : ChainRuntime :=
  final (ChainRuntime.preInitDormantBucket 0 .long 80
    ((ChainRuntime.new (smallAccount .eager) true).addSubPool 0 (amount 0) 0))

def wiped : ChainRuntime :=
  (run MirrorOp.step [.open 0 .long (amount 100) (quoteAt (amount 100)),
    .open 0 .short (amount 100) (quoteAt (amount 100)), .sync 0 (quoteAt (amount 80))] oneSlot).2

def storedAt (x : ChainRuntime) (d : Direction) (tick : Int) : Option Nat :=
  (x.buckets.get? (bucketKey 0 d tick)).map (·.record.accruedValue)

/-- At 96 the short pool is drained into the long bucket, and has no account for its own. -/
theorem refused_sync_written :
    ¬ ∀ (op : MirrorOp) (x : ChainRuntime), op.Atomic x := by
  intro h
  have herror : (MirrorOp.step (.sync 0 (quoteAt (amount 96))) wiped).1
      = .error (.bucketSlotExhausted 0 .short) := by decide +kernel
  have hback := h _ wiped _ herror ⟨by simp, by simp⟩
  have hnew : storedAt (MirrorOp.step (.sync 0 (quoteAt (amount 96))) wiped).2 .long 80
      = some 200 := by decide +kernel
  have hold : storedAt wiped .long 80 = some 0 := by decide +kernel
  rw [hback, hold] at hnew
  cases hnew

end Runtime
end MoleFinance
