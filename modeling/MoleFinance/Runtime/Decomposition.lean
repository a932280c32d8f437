import MoleFinance.Runtime.Reach

/-! The vault of a runtime is split over its accounts: pool equity, what the buckets hold, what
the ledgers still owe them, and dust. -/
namespace MoleFinance
open MoleMath Call Trace

namespace OrdMap
variable {κ ν ι : Type} [LinearOrder κ] [DecidableEq ι]

theorem sum_sides (f : κ → ν → Nat) (index : κ → ι) (side : κ → Direction) {m : OrdMap κ ν}
    {js : List ι} (hn : js.Nodup) (h : ∀ k v, m.get? k = some v → index k ∈ js) :
    m.sum f = (js.map (fun j => (m.filter (fun k _ => index k = j ∧ side k = .long)).sum f +
      (m.filter (fun k _ => index k = j ∧ side k = .short)).sum f)).sum := by
  rw [sum_fibres f index hn h]
  refine congrArg List.sum (List.map_congr_left fun j _ => ?_)
  have hall : ∀ k v, (m.filter (fun k _ => index k = j)).get? k = some v →
      side k ∈ [Direction.long, .short] := by
    intro k _ _
    cases side k <;> simp
  rw [sum_fibres f side (by decide) hall]
  simp only [List.map_cons, List.map_nil, List.sum_cons, List.sum_nil, Nat.add_zero, filter_and,
    Bool.decide_and]

end OrdMap

namespace Runtime

def tally {α : Type} (f : α → Except MirrorError Nat) (as : List α) : Except MirrorError Nat :=
  as.foldlM (fun total a => do plus total (← f a)) 0

theorem tally_of {α : Type} {f : α → Except MirrorError Nat} {g : α → Nat} {as : List α}
    (hf : ∀ a ∈ as, g a < u128Size → f a = .ok (g a)) (h : (as.map g).sum < u128Size) :
    tally f as = .ok (as.map g).sum := by
  have hfrom : ∀ start, start + (as.map g).sum < u128Size →
      as.foldlM (fun total a => do plus total (← f a)) start = .ok (start + (as.map g).sum) := by
    induction as with
    | nil => exact fun _ _ => rfl
    | cons a as ih =>
      intro start hlt
      rw [List.map_cons, List.sum_cons] at h hlt
      have htail := ih (fun b hb => hf b (List.mem_cons_of_mem a hb)) (by omega)
      rw [List.foldlM_cons, hf a List.mem_cons_self (by omega), ok_bind,
        ChainRuntime.plus_of (by omega), ok_bind, htail _ (by omega), List.map_cons,
        List.sum_cons, Nat.add_assoc]
  rw [tally, hfrom 0 (by omega), Nat.zero_add]

namespace ChainRuntime
variable {x : ChainRuntime} {id : Nat} {d : Direction} {store : DormantStore}

def checkVaultDecomposition (x : ChainRuntime) : Except MirrorError Unit := do
  let poolEquity ← tally (fun a => plus a.long.poolEquity a.short.poolEquity) x.subPools.values
  let dust ← tally (fun a => plus a.long.dust a.short.dust) x.subPools.values
  let accrued ← tally (fun a => return a.record.accruedValue) x.buckets.values
  let pending ← tally (fun a => return a.ledger.pendingDistributionTotal) x.ledgers.values
  let expected ← plus (← plus (← plus poolEquity accrued) pending) dust
  ensure (x.vaultBalance = expected)
    (.invariant "vault_balance != pool_equity + dormant_accrued + dormant_pending + dust")

def equityTotal (x : ChainRuntime) : Nat :=
  x.subPools.sum (fun _ a => a.long.poolEquity + a.short.poolEquity)

def dustTotal (x : ChainRuntime) : Nat :=
  x.subPools.sum (fun _ a => a.long.dust + a.short.dust)

def accruedTotal (x : ChainRuntime) : Nat := x.buckets.sum (fun _ a => a.record.accruedValue)

def pendingTotal (x : ChainRuntime) : Nat :=
  x.ledgers.sum (fun _ a => a.ledger.pendingDistributionTotal)

theorem checkVaultDecomposition_of (hv : x.vaultBalance
    = x.equityTotal + x.accruedTotal + x.pendingTotal + x.dustTotal)
    (hlt : x.vaultBalance < u128Size) : x.checkVaultDecomposition = .ok () := by
  have hequity : tally (fun a => plus a.long.poolEquity a.short.poolEquity) x.subPools.values
      = .ok x.equityTotal := by
    have hsum : (x.subPools.values.map (fun a => a.long.poolEquity + a.short.poolEquity)).sum
        = x.equityTotal := by
      simp only [OrdMap.values, List.map_map, equityTotal, OrdMap.sum, Function.comp_def]
    rw [← hsum]
    exact tally_of (fun _ _ h => plus_of h) (by omega)
  have hdust : tally (fun a => plus a.long.dust a.short.dust) x.subPools.values
      = .ok x.dustTotal := by
    have hsum : (x.subPools.values.map (fun a => a.long.dust + a.short.dust)).sum
        = x.dustTotal := by
      simp only [OrdMap.values, List.map_map, dustTotal, OrdMap.sum, Function.comp_def]
    rw [← hsum]
    exact tally_of (fun _ _ h => plus_of h) (by omega)
  have haccrued : tally (fun a => return a.record.accruedValue) x.buckets.values
      = .ok x.accruedTotal := by
    have hsum : (x.buckets.values.map (fun a => a.record.accruedValue)).sum = x.accruedTotal := by
      simp only [OrdMap.values, List.map_map, accruedTotal, OrdMap.sum, Function.comp_def]
    rw [← hsum]
    exact tally_of (fun _ _ _ => rfl) (by omega)
  have hpending : tally (fun a => return a.ledger.pendingDistributionTotal) x.ledgers.values
      = .ok x.pendingTotal := by
    have hsum : (x.ledgers.values.map (fun a => a.ledger.pendingDistributionTotal)).sum
        = x.pendingTotal := by
      simp only [OrdMap.values, List.map_map, pendingTotal, OrdMap.sum, Function.comp_def]
    rw [← hsum]
    exact tally_of (fun _ _ _ => rfl) (by omega)
  unfold checkVaultDecomposition
  rw [hequity, ok_bind, hdust, ok_bind, haccrued, ok_bind, hpending, ok_bind,
    plus_of (by omega), ok_bind, plus_of (by omega), ok_bind, plus_of (by omega), ok_bind,
    ensure_of hv]

theorem accrued_live (rs : List OnChainBucketRecord) :
    ((rs.filter (fun r => !r.isDead)).map (·.accruedValue)).sum
      = (rs.map (·.accruedValue)).sum := by
  induction rs with
  | nil => rfl
  | cons r rs ih =>
    cases hr : r.isDead with
    | true =>
      have hzero : r.accruedValue = 0 := by
        simp only [OnChainBucketRecord.isDead, Bool.and_eq_true, beq_iff_eq] at hr
        exact hr.1.2
      simp [hr, hzero, ih]
    | false => simp [hr, ih]

theorem unpackDormant_funds (hu : x.unpackDormant id d = .ok store) (hi : store.Inv) :
    ∃ ledger, x.ledgers.get? (ledgerKey id d) = some ledger ∧
      (x.bucketsOf id d).sum (fun _ a => a.record.accruedValue) +
        ledger.ledger.pendingDistributionTotal = store.funds := by
  unfold unpackDormant at hu
  cases hl : x.ledgers.get? (ledgerKey id d) with
  | none => simp [hl] at hu
  | some ledger =>
    rw [hl] at hu
    simp only [clearing_ok] at hu
    obtain ⟨hperm, -, -, -, -, -, -, -, hpending⟩ := unpackDormantStore_ok hu
    refine ⟨ledger, rfl, ?_⟩
    have haccrued : (x.bucketsOf id d).sum (fun _ a => a.record.accruedValue)
        = store.accruedValueTotal :=
      calc (x.bucketsOf id d).sum (fun _ a => a.record.accruedValue)
          = (((x.bucketsOf id d).values.map (·.record)).map (·.accruedValue)).sum := by
            simp only [OrdMap.sum, OrdMap.values, List.map_map, Function.comp_def]
        _ = (store.records.map (·.accruedValue)).sum := by
            rw [← accrued_live, (hperm.map _).sum_eq]
        _ = store.buckets.sum (fun _ b => b.accruedValue) := by
            simp only [DormantStore.records, OrdMap.sum, List.map_map]
            rfl
        _ = store.accruedValueTotal := hi.accrued_eq.symm
    rw [haccrued, ← hpending]
    rfl

theorem built_value {core : SubPool} (hb : x.buildCoreSubPool id = .ok core) (hs : core.Sound) :
    (x.subPools.filter (fun k _ => k = id)).sum
        (fun _ a => a.long.poolEquity + a.short.poolEquity) +
      (x.subPools.filter (fun k _ => k = id)).sum (fun _ a => a.long.dust + a.short.dust) +
      ((x.bucketsOf id .long).sum (fun _ a => a.record.accruedValue) +
        (x.bucketsOf id .short).sum (fun _ a => a.record.accruedValue)) +
      ((x.ledgers.filter (fun k _ => (ofLex k).1 = id ∧ (ofLex k).2 = .long)).sum
          (fun _ a => a.ledger.pendingDistributionTotal) +
        (x.ledgers.filter (fun k _ => (ofLex k).1 = id ∧ (ofLex k).2 = .short)).sum
          (fun _ a => a.ledger.pendingDistributionTotal)) = core.value := by
  have hpending : ∀ d ledger, x.ledgers.get? (ledgerKey id d) = some ledger →
      (x.ledgers.filter (fun k _ => (ofLex k).1 = id ∧ (ofLex k).2 = d)).sum
        (fun _ a => a.ledger.pendingDistributionTotal)
            = ledger.ledger.pendingDistributionTotal := by
    intro d ledger hl
    have hsingle := OrdMap.sum_fibre_single
      (fun _ (a : DistributionLedgerAccount) => a.ledger.pendingDistributionTotal)
      (fun k : LedgerKey => ofLex k) hl fun j hj => hj
    simp only [Prod.ext_iff] at hsingle
    exact hsingle
  obtain ⟨longLedger, hll, hlong⟩ := unpackDormant_funds (built_dormant hb .long) (hs .long).1
  obtain ⟨shortLedger, hsl, hshort⟩ := unpackDormant_funds (built_dormant hb .short) (hs .short).1
  obtain ⟨account, _, _, l, s, hpres, -, -, rfl⟩ := buildCore_ok hb
  have hacc := hpres.account
  rw [OrdMap.sum_fibre_single _ (fun k : Nat => k) hacc fun _ h => h,
    OrdMap.sum_fibre_single _ (fun k : Nat => k) hacc fun _ h => h, hpending _ _ hll,
    hpending _ _ hsl]
  simp only [SubPool.value, Side.value, SideAccount.view] at hlong hshort ⊢
  simp only [SubPool.side] at hlong hshort
  omega

theorem Sound.decomposed (h : x.Sound) : x.vaultBalance
    = x.equityTotal + x.accruedTotal + x.pendingTotal + x.dustTotal ∧
      x.vaultBalance < u128Size := by
  obtain ⟨hindexed, g, y, ht, hp, -⟩ := h
  have hlisted : ∀ {id account}, x.subPools.get? id = some account → id ∈ g.subPools.keys := by
    intro id account hacc
    cases hs : g.subPools.get? id with
    | some s => exact OrdMap.mem_keys.mpr ⟨s, hs⟩
    | none =>
      have hnone := hp.parallel.absent id hs
      rw [ht.subPools, hacc] at hnone
      cases hnone
  have hnodup := g.subPools.keys_nodup
  have hpools : ∀ f, x.subPools.sum f = (g.subPools.keys.map
      (fun j => (x.subPools.filter (fun k _ => k = j)).sum f)).sum := fun f =>
    OrdMap.sum_fibres f (fun k => k) hnodup fun _ _ hacc => hlisted hacc
  have hbuckets : x.accruedTotal = _ := OrdMap.sum_sides
    (fun _ (a : DormantBucketAccount) => a.record.accruedValue) BucketKey.subPoolId
    BucketKey.direction hnodup fun k a ha => by
      have ha : x.buckets.get? (bucketKey (BucketKey.subPoolId k) (BucketKey.direction k)
        (BucketKey.tick k)) = some a := ha
      obtain ⟨_, hacc⟩ := hindexed.lodged _ _ _ a ha
      exact hlisted hacc
  have hledgers : x.pendingTotal = _ := OrdMap.sum_sides
    (fun _ (a : DistributionLedgerAccount) => a.ledger.pendingDistributionTotal)
    (fun k => (ofLex k).1) (fun k => (ofLex k).2) hnodup fun k a ha => by
      obtain ⟨_, hacc⟩ := hindexed.owned (ofLex k).1 (ofLex k).2 a ha
      exact hlisted hacc
  have hvalues : g.subPools.sum (fun _ s => s.value) = (g.subPools.keys.map
      (fun j => (x.subPools.filter (fun k _ => k = j)).sum
          (fun _ a => a.long.poolEquity + a.short.poolEquity) +
        (x.subPools.filter (fun k _ => k = j)).sum (fun _ a => a.long.dust + a.short.dust) +
        ((x.bucketsOf j .long).sum (fun _ a => a.record.accruedValue) +
          (x.bucketsOf j .short).sum (fun _ a => a.record.accruedValue)) +
        ((x.ledgers.filter (fun k _ => (ofLex k).1 = j ∧ (ofLex k).2 = .long)).sum
            (fun _ a => a.ledger.pendingDistributionTotal) +
          (x.ledgers.filter (fun k _ => (ofLex k).1 = j ∧ (ofLex k).2 = .short)).sum
            (fun _ a => a.ledger.pendingDistributionTotal)))).sum := by
    rw [OrdMap.sum_fibres _ (fun k => k) hnodup fun k s hs => OrdMap.mem_keys.mpr ⟨s, hs⟩]
    refine congrArg List.sum (List.map_congr_left fun j hj => ?_)
    obtain ⟨s, hs⟩ := OrdMap.mem_keys.mp hj
    have hbuilt : x.buildCoreSubPool j = .ok s := ht.built j ▸ (hp.parallel.subPool j s hs).built
    rw [OrdMap.sum_fibre_single _ (fun k : Nat => k) hs fun _ h => h]
    exact (built_value hbuilt (hp.balanced.sound j s hs)).symm
  have hvault : x.vaultBalance = g.vaultBalance := ht.vaultBalance ▸ hp.parallel.vaultBalance
  have heq := hp.balanced.vault_eq
  have hbound := hp.balanced.bounds
  simp only [List.sum_map_add] at hvalues hbuckets hledgers
  have hequity : x.equityTotal = _ := hpools _
  have hdust : x.dustTotal = _ := hpools _
  refine ⟨?_, by omega⟩
  rw [hequity, hdust, hbuckets, hledgers, hvault]
  simp only [bucketsOf] at hvalues
  omega

theorem Sound.deposits (h : x.Sound) :
    x.totalDeposits = x.totalWithdrawals + x.vaultBalance + x.feeVaultBalance := by
  obtain ⟨-, g, y, ht, hp, -⟩ := h
  rw [← ht.totalDeposits, ← ht.totalWithdrawals, ← ht.vaultBalance, ← ht.feeVaultBalance,
    hp.parallel.totalDeposits, hp.parallel.totalWithdrawals, hp.parallel.vaultBalance,
    hp.parallel.feeVaultBalance]
  exact hp.balanced.deposits_eq

theorem Kept.decomposed (h : x.Kept) : x.checkVaultDecomposition = .ok () ∧
    x.totalDeposits = x.totalWithdrawals + x.vaultBalance + x.feeVaultBalance := by
  obtain ⟨z, hz, hx, -⟩ := h
  rw [hx]
  have hsplit := hz.decomposed
  exact ⟨checkVaultDecomposition_of (x := z) hsplit.1 hsplit.2, hz.deposits⟩

end ChainRuntime

/-- In either mode, in every state of every tidy run with pauses, freezes, schema bumps,
    migrations and bucket accounts opened and closed at any point, the vault passes its check, and
    what was paid in is in the two vaults or was paid out. -/
theorem vault_decomposes (market : MarketAccount) (strict : Bool)
    (ops : List (RuntimeOp ⊕ UpkeepOp))
    (ht : Along RuntimeOp.step UpkeepOp.apply RuntimeOp.Tidy ops (.new market strict)) :
    let x := (trace RuntimeOp.step UpkeepOp.apply ops (.new market strict)).2
    x.checkVaultDecomposition = .ok () ∧
      x.totalDeposits = x.totalWithdrawals + x.vaultBalance + x.feeVaultBalance :=
  (ChainRuntime.trace_kept market strict ht).decomposed

theorem upkeepRun_decomposes :
    let x := (trace RuntimeOp.step UpkeepOp.apply upkeepRun (.new (smallAccount .lazy) true)).2
    x.checkVaultDecomposition = .ok () ∧
      x.totalDeposits = x.totalWithdrawals + x.vaultBalance + x.feeVaultBalance :=
  vault_decomposes (smallAccount .lazy) true upkeepRun upkeepRun_tidy

end Runtime
end MoleFinance
