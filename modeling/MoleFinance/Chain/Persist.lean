import MoleFinance.Chain.Coverage

/-! What a bridged call leaves in the accounts, read back. Every occurrence of an account is a
copy of its own, and the copy serialised last wins, so a new bucket can be overwritten by an
empty copy of the account it went to. -/
namespace MoleFinance
open MoleMath Call

def DormantAccounts.decode (x : DormantAccounts) (key : Pubkey) (d : Direction) :
    Except ProgramError DormantStore := do
  let ledger ← found x.ledger
  unpackDirection ledger x.buckets.values key d

namespace Program

def suppliedBuckets (st : Program) (id : Nat) (remaining : RemainingAccounts) (d : Direction) :
    Except ProgramError (List BucketAccount) := do
  let (_, long, short) ← st.loadBridged id remaining
  return (BridgedSide.of d long short).buckets

/-- The store an engine call produces from what the accounts decode to. -/
def producedStore (st : Program) (id : Nat) (remaining : RemainingAccounts) (call : BridgedCall)
    (d : Direction) : Except ProgramError DormantStore := do
  let (s, long, short) ← st.loadBridged id remaining
  let view ← hydrate s.account long short
  let (view, _) ← engine (call.run (marketParamsFrom st.market) view)
  return (view.side d).dormant

end Program

/-- When the turn of a new bucket comes, the next dead copy is the last one of its account, and
    no dead copy from there on looks like the bucket. -/
def LandsOnce (d : Direction) (store : DormantStore) (accounts : List BucketAccount) : Prop :=
  ∀ k u, (newRecords d store.records accounts)[k]? = some u →
    (∀ b ∈ (deadAccounts accounts).drop k, sameIdentity u b = false) ∧
    ∀ b, (deadAccounts accounts)[k]? = some b →
      b.seeds ∉ ((deadAccounts accounts).drop (k + 1)).map (·.seeds)

section Repack
variable {x : DormantAccounts} {key : Pubkey} {d : Direction} {maxEntries : U32}
  {side side' : BridgedSide} {store' : DormantStore} {maxBuckets : Nat} {outcome : PackOutcome}

theorem DormantAccounts.Addressed.live_ticks (h : x.Addressed key d maxEntries) :
    (x.live.map (·.seeds.zeroPriceTick)).Nodup := by
  have hkeys : x.buckets.values.map (·.seeds.zeroPriceTick) = x.buckets.keys := by
    rw [OrdMap.values, OrdMap.keys, List.map_map]
    refine List.map_congr_left fun e he => ?_
    have hb := (h.bucket e.1 e.2 (OrdMap.get?_eq_some.mpr he)).1
    simp only [Function.comp_apply, hb]
  have hsub : (x.live.map (·.seeds.zeroPriceTick)).Sublist x.buckets.keys :=
    hkeys ▸ (List.filter_sublist (l := x.buckets.values)).map _
  exact hsub.nodup x.buckets.keys_nodup

namespace Repack
variable (h : Repack x key d maxEntries maxBuckets side side' store' outcome)
include h

theorem decode_iff_shares : (x.written side').decode key d = .ok store' ↔
    (x.written side').shares = store'.totalRecoveryShares := by
  have hstore : (x.written side').decode key d = (x.written side').store key d maxEntries := rfl
  rw [hstore]
  exact ⟨DormantAccounts.shares_of_store, fun hs => (h.holds hs).store_eq h.addressed'⟩

theorem shares_iff_length : (x.written side').shares = store'.totalRecoveryShares ↔
    (x.written side').live.length = store'.records.length := by
  constructor
  · intro hs
    have hlen := (h.records_perm hs).length_eq
    rwa [List.length_map] at hlen
  · intro hlen
    have hp := h.live_subperm.perm_of_length_le (by rw [List.length_map, hlen])
    rw [DormantAccounts.shares_eq, totalRecoveryShares_records,
      ← (hp.map (·.totalRecoveryShares)).sum_nat, List.map_map]
    rfl

theorem dead_of_tick : ∃ q : Int → Bool, ∀ b ∈ side.buckets,
    recordIsDead b = q b.seeds.zeroPriceTick := by
  refine ⟨fun tick => ((x.buckets.get? tick).map recordIsDead).getD false, fun b hb => ?_⟩
  simp only [h.supplied b hb, Option.map_some, Option.getD_some]

/-- At the places of the dead copies: the new buckets first, then copies that stayed dead. -/
theorem dead_places {es : List (OnChainBucketRecord × BucketAccount)}
    {matched left : List BucketAccount}
    (hp : Packed key d store' side.buckets side'.buckets es matched left)
    (hr : PackedRows key side.buckets side'.buckets es) :
    ∃ landed rest, pick recordIsDead side.buckets side'.buckets = landed ++ rest ∧
      landed.length = es.length ∧ (∀ b ∈ landed, recordIsDead b = false) ∧
      ∀ b ∈ rest, recordIsDead b = true := by
  refine ⟨_, _, hr.dead, ?_, fun b hb => ?_, fun b hb => ?_⟩
  · rw [List.length_zipWith, List.length_map, Nat.min_eq_left hr.length_le]
  · rw [← List.map_uncurry_zip_eq_zipWith] at hb
    obtain ⟨⟨u, a⟩, he, rfl⟩ := List.mem_map.mp hb
    have hu := (placements_fst hp.placed).1.subset (List.of_mem_zip he).1
    exact h.produced.live u (List.mem_filter.mp hu).1
  · exact (List.mem_filter.mp (List.mem_of_mem_drop hb)).2

/-- The places of the live copies keep as many buckets as found their account again; those of
    the dead ones keep what no later copy overwrites. -/
theorem live_length {es : List (OnChainBucketRecord × BucketAccount)}
    {matched left : List BucketAccount}
    (hp : Packed key d store' side.buckets side'.buckets es matched left)
    (hr : PackedRows key side.buckets side'.buckets es) :
    (x.written side').live.length = ((OrdMap.lastWrites (writes
      (pick recordIsDead side.buckets side'.buckets))).filter
        (fun e => !recordIsDead e.2)).length +
      (store'.records.filter (fun r => side.buckets.any (matchesRecord d r))).length := by
  obtain ⟨q, hq⟩ := h.dead_of_tick
  have hticks : side'.buckets.map (·.seeds.zeroPriceTick)
      = side.buckets.map (·.seeds.zeroPriceTick) := by
    have := congrArg (List.map BucketSeeds.zeroPriceTick) hr.seeds_eq
    rwa [List.map_map, List.map_map] at this
  have hdead := pick_eq_filter hticks hq
  have hlive := pick_eq_filter (q := fun b => !recordIsDead b) (r := fun t => !q t) hticks
    fun b hb => by rw [hq b hb]
  have hlen : side.buckets.length = side'.buckets.length := by
    have := congrArg List.length hticks
    rw [List.length_map, List.length_map] at this
    exact this.symm
  have hnodup : ((writes (pick (fun b => !recordIsDead b) side.buckets side'.buckets)).map
      Prod.fst).Nodup := by
    have hkeys : (writes (pick (fun b => !recordIsDead b) side.buckets side'.buckets)).map Prod.fst
        = (side.buckets.filter (fun b => !recordIsDead b)).map (·.seeds.zeroPriceTick) := by
      rw [writes, List.map_map, ← pick_self, ← pick_map, ← pick_map]
      exact congrArg _ hticks
    rw [hkeys]
    exact ((h.complete.map _).nodup_iff).mpr h.addressed.live_ticks
  have hsel : ∀ r : Int → Bool, (OrdMap.lastWrites (writes side'.buckets)).filter
      (fun e => r e.1) = OrdMap.lastWrites (writes (side'.buckets.filter
        (fun b => r b.seeds.zeroPriceTick))) := by
    intro r
    rw [← OrdMap.lastWrites_filter, writes, writes, List.filter_map]
    rfl
  have hsplit := ((List.filter_append_perm (fun e => q e.1)
    (OrdMap.lastWrites (writes side'.buckets))).filter (fun e => !recordIsDead e.2)).length_eq
  rw [hsel, hsel (fun t => !q t), ← hdead, ← hlive, List.filter_append,
    OrdMap.lastWrites_of_nodup hnodup, List.length_append] at hsplit
  have hcount : ((writes (pick (fun b => !recordIsDead b) side.buckets side'.buckets)).filter
      (fun e => !recordIsDead e.2)).length
        = (store'.records.filter (fun r => side.buckets.any (matchesRecord d r))).length := by
    obtain ⟨landed, rest, hpick, hll, hla, hre⟩ := h.dead_places hp hr
    have hall := (hp.live_records h.direction_eq h.produced).length_eq
    have hparts := ((pick_perm recordIsDead hlen).filter (fun b => !recordIsDead b)).length_eq
    rw [hpick, List.filter_append, List.filter_append,
      List.filter_eq_self.mpr fun b hb => by simp [hla b hb],
      List.filter_eq_nil_iff.mpr fun b hb => by simp [hre b hb], List.append_nil,
      List.length_append] at hparts
    rw [List.length_map, List.length_append, List.length_map] at hall
    rw [writes, List.filter_map, List.length_map]
    change ((pick _ _ _).filter (fun b => !recordIsDead b)).length = _
    omega
  have hlast := h.live_perm.length_eq
  rw [List.filter_map, List.length_map] at hlast
  rw [hlast, ← hcount]
  exact hsplit.symm

theorem decode_iff : (x.written side').decode key d = .ok store' ↔
    LandsOnce d store' side.buckets := by
  obtain ⟨es, matched, left, hp, hr⟩ := h.rows
  obtain ⟨landed, rest, hpick, hll, hla, hre⟩ := h.dead_places hp hr
  have hticks : (landed ++ rest).map (·.seeds.zeroPriceTick)
      = (deadAccounts side.buckets).map (·.seeds.zeroPriceTick) := by
    have hall := congrArg (List.map BucketSeeds.zeroPriceTick) hr.seeds_eq
    rw [List.map_map, List.map_map] at hall
    rw [← hpick, deadAccounts, ← pick_self, ← pick_map, ← pick_map]
    exact congrArg _ hall
  have hkeys : ((writes landed ++ writes rest).map Prod.fst)
      = (deadAccounts side.buckets).map (·.seeds.zeroPriceTick) := by
    rw [← hticks, writes, writes, ← List.map_append, List.map_map]
    rfl
  have halive : ∀ e ∈ writes landed, (!recordIsDead e.2) = true := by
    rintro e he
    obtain ⟨b, hb, rfl⟩ := List.mem_map.mp he
    simp only [hla b hb, Bool.not_false]
  have hgone : ∀ e ∈ writes rest, (!recordIsDead e.2) = false := by
    rintro e he
    obtain ⟨b, hb, rfl⟩ := List.mem_map.mp he
    simp only [hre b hb, Bool.not_true]
  have hlast := OrdMap.lastWrites_length_iff halive hgone
  have hle : ((OrdMap.lastWrites (writes landed ++ writes rest)).filter
      (fun e => !recordIsDead e.2)).length ≤ landed.length := by
    have hkept : (writes landed ++ writes rest).filter (fun e => !recordIsDead e.2)
        = writes landed := by
      rw [List.filter_append, List.filter_eq_self.mpr halive,
        List.filter_eq_nil_iff.mpr fun e he => by simp [hgone e he], List.append_nil]
    have hsub := ((OrdMap.lastWrites_sublist (writes landed ++ writes rest)).filter
      (fun e => !recordIsDead e.2)).length_le
    rwa [hkept, show (writes landed).length = landed.length from List.length_map _] at hsub
  have hfst := (placements_fst hp.placed).1
  have hes := hfst.length_le
  rw [List.length_map] at hes
  have hsplit := (records_split d store' side.buckets).length_eq
  rw [List.length_append] at hsplit
  have hlen := h.live_length hp hr
  rw [hpick, show writes (landed ++ rest) = writes landed ++ writes rest from List.map_append]
    at hlen
  rw [show (writes landed).length = landed.length from List.length_map _, hkeys] at hlast
  rw [h.decode_iff_shares, h.shares_iff_length]
  have hseeds : ∀ {k : Nat} {b : BucketAccount}, (deadAccounts side.buckets)[k]? = some b →
      (b.seeds ∉ ((deadAccounts side.buckets).drop (k + 1)).map (·.seeds) ↔
        b.seeds.zeroPriceTick ∉ ((deadAccounts side.buckets).map (·.seeds.zeroPriceTick)).drop
          (k + 1)) := by
    intro k b hb
    have hown : ∀ c ∈ deadAccounts side.buckets,
        c.seeds = ⟨key, d.isLong, c.seeds.zeroPriceTick⟩ :=
      fun c hc => (h.owned c (List.mem_filter.mp hc).1).1
    have hb := hown b (List.mem_of_getElem? hb)
    rw [← List.map_drop, List.mem_map, List.mem_map]
    refine not_congr (exists_congr fun c => and_congr_right fun hc => ?_)
    have hc := hown c (List.mem_of_mem_drop hc)
    exact ⟨congrArg _, fun he => by rw [hc, hb, he]⟩
  constructor
  · intro heq
    have hall : es.map Prod.fst = newRecords d store'.records side.buckets :=
      hfst.eq_of_length (by rw [List.length_map]; omega)
    have hid := (placements_all_iff hp.placed).mp hall
    have hkept := hlast.mp (by omega)
    intro k u hu
    refine ⟨hid k u hu, fun b hb => (hseeds hb).mpr (hkept k _ ?_ ?_)⟩
    · have hk := (List.getElem?_eq_some_iff.mp hu).1
      rw [← hall, List.length_map] at hk
      omega
    · rw [List.getElem?_map, hb]
      rfl
  · intro hland
    have hall : es.map Prod.fst = newRecords d store'.records side.buckets :=
      (placements_all_iff hp.placed).mpr fun k u hu => (hland k u hu).1
    have hcount := congrArg List.length hall
    rw [List.length_map] at hcount
    have hkept := hlast.mpr fun k tick hk ht => by
      rw [List.getElem?_map] at ht
      obtain ⟨b, hb, rfl⟩ := Option.map_eq_some_iff.mp ht
      have hu := List.getElem?_eq_getElem (l := newRecords d store'.records side.buckets)
        (show k < _ by omega)
      exact (hseeds hb).mp ((hland k _ hu).2 b hb)
    omega

end Repack
end Repack

/-- After a bridged call that returned, the accounts decode to the stores the engine produced
    exactly when every new bucket of both directions lands once. -/
theorem persisted_iff (token : TokenProgram) (st : Program) (h : st.Reached token) (id : Nat)
    (remaining : RemainingAccounts) (call : BridgedCall) (st' : Program)
    (outcome : BridgedOutcome) (hr : st.runBridged id remaining call = .ok (st', outcome)) :
    (∀ s' d, st'.subPools.get? id = some s' →
      (s'.dormant d).decode s'.account.key d = st.producedStore id remaining call d) ↔
    ∀ d store accounts, st.producedStore id remaining call d = .ok store →
      st.suppliedBuckets id remaining d = .ok accounts → LandsOnce d store accounts := by
  obtain ⟨s, t, view, long, short, long', short', hc⟩ := h.sane.bridged hr
  have hkey : s.account.key = id := (h.sane id s hc.found).id_eq
  have hproduced : ∀ d, st.producedStore id remaining call d = .ok (view.side d).dormant := by
    intro d
    rw [Program.producedStore, hc.loaded, ok_bind]
    simp only
    rw [hc.hydrated, ok_bind, hc.ran]
    rfl
  have hsupplied : ∀ d, st.suppliedBuckets id remaining d
      = .ok (BridgedSide.of d long short).buckets := by
    intro d
    rw [Program.suppliedBuckets, hc.loaded]
    rfl
  have hstate : st'.subPools.get? id = some {
      account := applyClearingView s.account view
      long := s.long.written long'
      short := s.short.written short' } := by
    rw [hc.state]
    exact OrdMap.get?_insert_self _ _ _
  have hdecode : ∀ d, ((s.dormant d).written (.of d long' short')).decode id d
      = .ok (view.side d).dormant ↔
        LandsOnce d (view.side d).dormant (BridgedSide.of d long short).buckets := by
    intro d
    obtain ⟨o, hrepack⟩ := hc.repack d
    exact hrepack.decode_iff
  constructor
  · intro hall d store accounts hst ha
    rw [hproduced] at hst
    rw [hsupplied] at ha
    cases hst
    cases ha
    have hd := hall _ d hstate
    rw [hproduced] at hd
    refine (hdecode d).mp (Eq.trans ?_ hd)
    cases d with
    | long => exact congrArg (fun k => DormantAccounts.decode _ k _) hkey.symm
    | short => exact congrArg (fun k => DormantAccounts.decode _ k _) hkey.symm
  · intro hall s' d hs'
    rw [hstate] at hs'
    cases hs'
    rw [hproduced]
    have hd := (hdecode d).mpr (hall d _ _ (hproduced d) (hsupplied d))
    refine Eq.trans ?_ hd
    cases d with
    | long => exact congrArg (fun k => DormantAccounts.decode _ k _) hkey
    | short => exact congrArg (fun k => DormantAccounts.decode _ k _) hkey

def beforeDrain : Program := (chainRun 0 (bothSides ++ dormantAccounts)).2

def drain (ticks : List Int) : Except ProgramError (Program × BridgedOutcome) :=
  beforeDrain.runBridged 0 ⟨ticks.map longBucket, ticks.length, 0⟩ (.sync (quoteAt (amount 90)))

theorem drain_ok (ticks : List Int) (h : (drain ticks).isOk = true) :
    ∃ st' outcome, drain ticks = .ok (st', outcome) := by
  cases hd : drain ticks with
  | error e =>
    rw [hd] at h
    cases h
  | ok res => exact ⟨res.1, res.2, rfl⟩

/-- Given twice, the account is written by its first copy and emptied by its second: the engine
    has produced a bucket, and none is read back. -/
theorem repeated_account_loses_bucket :
    ¬ ∀ st : Program, st.Reached splToken → ∀ (id : Nat) (remaining : RemainingAccounts)
      (call : BridgedCall) (st' : Program) (outcome : BridgedOutcome),
      st.runBridged id remaining call = .ok (st', outcome) →
      ∀ s' d, st'.subPools.get? id = some s' →
        (s'.dormant d).decode s'.account.key d = st.producedStore id remaining call d := by
  intro hall
  have hall := hall beforeDrain (chainRun_reached (by decide) (bothSides ++ dormantAccounts)) 0
  obtain ⟨st', outcome, hd⟩ := drain_ok [90, 90] (by decide +kernel)
  have hread : ((drain [90, 90]).toOption.bind fun res => (res.1.subPools.get? 0).map fun s =>
      ((s.dormant .long).decode s.account.key .long).map (·.buckets.size)) = some (.ok 0) := by
    decide +kernel
  have hproduced : (beforeDrain.producedStore 0 ⟨[90, 90].map longBucket, 2, 0⟩
      (.sync (quoteAt (amount 90))) .long).map (·.buckets.size) = .ok 1 := by decide +kernel
  rw [hd] at hread
  obtain ⟨s', hs', hdec⟩ := Option.map_eq_some_iff.mp hread
  have heq := hall _ _ st' outcome hd s' .long hs'
  rw [heq] at hdec
  exact absurd (hdec.symm.trans hproduced) (by decide)

theorem single_account_persisted :
    ∃ st' outcome, drain [90] = .ok (st', outcome) ∧
      ((∀ s' d, st'.subPools.get? 0 = some s' → (s'.dormant d).decode s'.account.key d
          = beforeDrain.producedStore 0 ⟨[longBucket 90], 1, 0⟩ (.sync (quoteAt (amount 90))) d) ↔
        ∀ d store accounts, beforeDrain.producedStore 0 ⟨[longBucket 90], 1, 0⟩
            (.sync (quoteAt (amount 90))) d = .ok store →
          beforeDrain.suppliedBuckets 0 ⟨[longBucket 90], 1, 0⟩ d = .ok accounts →
          LandsOnce d store accounts) := by
  obtain ⟨st', outcome, hd⟩ := drain_ok [90] (by decide +kernel)
  exact ⟨st', outcome, hd, persisted_iff splToken beforeDrain
    (chainRun_reached (by decide) (bothSides ++ dormantAccounts)) 0 _ _ st' outcome hd⟩

end MoleFinance
