import MoleFinance.Dormant.Holdings

/-! What a successful store call leaves alone, whatever store it is given: a store rebuilt from
some of its buckets need not keep the store invariant. -/
namespace MoleFinance
open MoleMath Call

def Rewound (b b' : DormantBucket) : Prop :=
  ∃ accrued index, b' = { b with accruedValue := accrued, lastAppliedIndex := index }

theorem Rewound.refl (b : DormantBucket) : Rewound b b := ⟨_, _, rfl⟩

theorem Rewound.trans {b b' b'' : DormantBucket} (h : Rewound b b') (h' : Rewound b' b'') :
    Rewound b b'' := by
  obtain ⟨a, i, rfl⟩ := h
  obtain ⟨a', i', rfl⟩ := h'
  exact ⟨a', i', rfl⟩

def DormantBucket.profile (b : DormantBucket) : DormantBucket :=
  { b with accruedValue := 0, lastAppliedIndex := 0 }

theorem Rewound.profile {b b' : DormantBucket} (h : Rewound b b') : b'.profile = b.profile := by
  obtain ⟨a, i, rfl⟩ := h
  rfl

theorem replayEntry_rewound {direction : Direction} {delta n : Nat} {entry : DistEntry}
    {b b' : DormantBucket} (h : replayEntry direction delta entry b = .ok n b') :
    Rewound b b' := by
  rw [replayEntry, get_bind, orFail_bind_run_ok] at h
  obtain ⟨share, -, h⟩ := h
  rw [orFail_bind_run_ok] at h
  obtain ⟨accrued, -, h⟩ := h
  rw [set_bind, orFail_bind_run_ok] at h
  obtain ⟨delta', -, h⟩ := h
  rw [orFail_bind_run_ok] at h
  obtain ⟨index, -, h⟩ := h
  cases h
  exact ⟨accrued, index, rfl⟩

theorem replayEntries_rewound {direction : Direction} {entries : List DistEntry} {delta n : Nat}
    {b b' : DormantBucket} (h : replayEntries direction delta entries b = .ok n b') :
    Rewound b b' := by
  induction entries generalizing delta b with
  | nil =>
    cases h
    exact .refl _
  | cons e es ih =>
    obtain ⟨d, b1, h1, h⟩ := bind_ok.mp h
    exact (replayEntry_rewound h1).trans (ih h)

namespace DormantStore

def profiles (s : DormantStore) : BucketMap := s.buckets.mapVal (fun _ b => b.profile)

theorem profiles_get? (s : DormantStore) (tick : Int) :
    s.profiles.get? tick = (s.buckets.get? tick).map DormantBucket.profile :=
  OrdMap.get?_mapVal _ _ _

theorem holdings_of_profiles {s s' : DormantStore} (h : s'.profiles = s.profiles) :
    s'.holdings = s.holdings := by
  have hh : ∀ t : DormantStore, t.profiles.mapVal (fun _ b => b.holding) = t.holdings := by
    intro t
    apply OrdMap.ext_get?
    intro k
    simp only [profiles, holdings, OrdMap.get?_mapVal, Option.map_map]
    rfl
  rw [← hh s', h, hh s]

def Anchored (s : DormantStore) : Prop :=
  ∀ tick b, s.buckets.get? tick = some b → b.anchorPrice < u64Size

theorem Anchored.insert {s : DormantStore} (h : s.Anchored) (tick : Int) {b : DormantBucket}
    (hb : b.anchorPrice < u64Size) {j : Int} {c : DormantBucket}
    (hc : (s.buckets.insert tick b).get? j = some c) : c.anchorPrice < u64Size := by
  rw [OrdMap.get?_insert] at hc
  split_ifs at hc
  · exact Option.some.inj hc ▸ hb
  · exact h j c hc

theorem anchored_of_profiles {s s' : DormantStore} (h : s'.profiles = s.profiles)
    (ha : s.Anchored) : s'.Anchored := by
  intro tick b' hb'
  have hp := congrArg (fun m : BucketMap => m.get? tick) h
  simp only [profiles_get?, hb', Option.map_some] at hp
  obtain ⟨b, hb, he⟩ := Option.map_eq_some_iff.mp hp.symm
  have hanchor : b'.anchorPrice = b.anchorPrice :=
    (congrArg DormantBucket.anchorPrice he).symm
  rw [hanchor]
  exact ha tick b hb

/-- Upkeep of the buckets: no shares move and the ledger stays. -/
structure Framed (s s' : DormantStore) : Prop where
  direction_eq : s'.direction = s.direction
  profiles_eq : s'.profiles = s.profiles
  ledger_eq : s'.ledger = s.ledger

theorem Framed.holdings_eq {s s' : DormantStore} (h : s.Framed s') : s'.holdings = s.holdings :=
  holdings_of_profiles h.profiles_eq

theorem Framed.refl (s : DormantStore) : s.Framed s := ⟨rfl, rfl, rfl⟩

theorem Framed.trans {s s' s'' : DormantStore} (h : s.Framed s') (h' : s'.Framed s'') :
    s.Framed s'' :=
  ⟨h'.direction_eq.trans h.direction_eq, h'.profiles_eq.trans h.profiles_eq,
    h'.ledger_eq.trans h.ledger_eq⟩

theorem holdings_setBucket (s : DormantStore) (tick : Int) (b : DormantBucket) :
    (s.setBucket tick b).holdings = s.holdings.insert tick b.holding :=
  OrdMap.mapVal_insert _ _ _ _

theorem setBucket_framed {s : DormantStore} {tick : Int} {b b' : DormantBucket}
    (hb : s.buckets.get? tick = some b) (h : b'.profile = b.profile) :
    s.Framed (s.setBucket tick b') := by
  refine ⟨rfl, ?_, rfl⟩
  have hi : (s.setBucket tick b').profiles = s.profiles.insert tick b'.profile :=
    OrdMap.mapVal_insert _ _ _ _
  rw [hi, h]
  exact OrdMap.insert_get?_self (by rw [profiles_get?, hb]; rfl)

theorem applyPendingToBucket_framed {s s' : DormantStore} {tick : Int} {n : Nat}
    (h : applyPendingToBucket tick s = .ok n s') : s.Framed s' := by
  unfold applyPendingToBucket at h
  cases hb : s.buckets.get? tick with
  | none =>
    simp only [hb] at h
    cases h
    exact .refl s
  | some b =>
    simp only [hb] at h
    split_ifs at h
    · cases h
      exact .refl s
    · cases hr : replayEntries s.direction 0
        (s.ledger.drop (b.lastAppliedIndex - s.ledgerGcOffset)) b with
      | error e b' =>
        rw [hr] at h
        cases h
      | ok delta b' =>
        have hf := setBucket_framed hb (replayEntries_rewound hr).profile
        rw [hr] at h
        simp only at h
        split_ifs at h
        · cases h
          exact hf
        · cases hm : math (checkedAdd (s.setBucket tick b').accruedValueTotal delta) with
          | error e =>
            rw [hm] at h
            cases h
          | ok total =>
            rw [hm] at h
            cases h
            exact ⟨hf.direction_eq, hf.profiles_eq, hf.ledger_eq⟩

theorem drainBuckets_framed {keys : List Int} {s s' : DormantStore} {u : Unit}
    (h : drainBuckets keys s = .ok u s') : s.Framed s' := by
  induction keys generalizing s with
  | nil =>
    cases h
    exact .refl _
  | cons key keys ih =>
    obtain ⟨a, s1, h1, h⟩ := bind_ok.mp h
    exact (applyPendingToBucket_framed h1).trans (ih h)

theorem drainAndSum_framed {keys : List Int} {p total t : Nat} {s s' : DormantStore}
    (h : drainAndSum p total keys s = .ok t s') : s.Framed s' := by
  induction keys generalizing s total with
  | nil =>
    cases h
    exact .refl _
  | cons key keys ih =>
    obtain ⟨a, s1, h1, h⟩ := bind_ok.mp h
    rw [get_bind, orFail_bind_run_ok] at h
    obtain ⟨c, -, h⟩ := h
    exact (applyPendingToBucket_framed h1).trans (ih h)

theorem attributeShares_framed {p a t index : Nat} {keys : List Int} {acc total : Nat}
    {s s' : DormantStore} (h : attributeShares p a t index acc keys s = .ok total s') :
    s.Framed s' := by
  induction keys generalizing s acc with
  | nil =>
    cases h
    exact .refl _
  | cons key keys ih =>
    obtain ⟨c, s1, h1, h⟩ := bind_ok.mp h
    obtain ⟨b, hb, -, -, rfl⟩ := attributeShare_ok h1
    have hs : (credited p a t (index + 1) b).profile = b.profile := rfl
    exact (setBucket_framed hb hs).trans (ih h)

structure FramedWithin (m : Nat) (s s' : DormantStore) : Prop where
  direction_eq : s'.direction = s.direction
  profiles_eq : s'.profiles = s.profiles
  length_le : s.ledger.length ≤ m → s'.ledger.length ≤ m

theorem Framed.within {s s' : DormantStore} (h : s.Framed s') (m : Nat) : FramedWithin m s s' :=
  ⟨h.direction_eq, h.profiles_eq, fun hl => by rw [h.ledger_eq]; exact hl⟩

theorem compactLedger_framed {s s' : DormantStore} {n : Nat}
    (h : compactLedger s = .ok n s') :
    s'.direction = s.direction ∧ s'.profiles = s.profiles := by
  unfold compactLedger at h
  simp only at h
  split_ifs at h <;> cases h <;> exact ⟨rfl, rfl⟩

theorem reserveEntry_framed {m : Nat} {s s' : DormantStore} {u : Unit}
    (h : reserveEntry m s = .ok u s') :
    s'.direction = s.direction ∧ s'.profiles = s.profiles ∧ s'.ledger.length < m := by
  rw [reserveEntry, get_bind] at h
  by_cases hl : m ≤ s.ledger.length
  · rw [if_pos hl] at h
    obtain ⟨n, s1, h1, h⟩ := bind_ok.mp h
    obtain ⟨hd, hh⟩ := compactLedger_framed h1
    rw [get_bind] at h
    by_cases hl' : m ≤ s1.ledger.length
    · rw [if_pos hl'] at h
      cases h
    · rw [if_neg hl'] at h
      cases h
      exact ⟨hd, hh, not_le.mp hl'⟩
  · rw [if_neg hl] at h
    cases h
    exact ⟨rfl, rfl, not_le.mp hl⟩

structure Appended (s s' : DormantStore) : Prop where
  direction_eq : s'.direction = s.direction
  profiles_eq : s'.profiles = s.profiles
  length_eq : s'.ledger.length = s.ledger.length + 1

theorem eventBy_appended {mode : DistributeMode} {p a t : Nat} {keys : List Int}
    {r : DistributionReceipt} {s s' : DormantStore} (h : eventBy mode p a t keys s = .ok r s') :
    s.Appended s' := by
  cases mode with
  | eager =>
    rw [eventBy, attributeEvent, get_bind] at h
    obtain ⟨total, s1, h1, h⟩ := bind_ok.mp h
    have hf := attributeShares_framed h1
    rw [get_bind, orFail_bind_run_ok] at h
    obtain ⟨sum, -, h⟩ := h
    rw [set_bind, orFail_bind_run_ok] at h
    obtain ⟨res, -, h⟩ := h
    obtain ⟨_, s2, hp, h⟩ := bind_ok.mp h
    obtain ⟨-, rfl⟩ := pushEntry_ok hp
    cases h
    exact ⟨hf.direction_eq, hf.profiles_eq, by simp [hf.ledger_eq]⟩
  | lazy =>
    rw [eventBy, deferEvent, get_bind, orFail_bind_run_ok] at h
    obtain ⟨total, -, h⟩ := h
    rw [orFail_bind_run_ok] at h
    obtain ⟨res, -, h⟩ := h
    obtain ⟨_, s2, hp, h⟩ := bind_ok.mp h
    obtain ⟨-, rfl⟩ := pushEntry_ok hp
    rw [get_bind, orFail_bind_run_ok] at h
    obtain ⟨pend, -, h⟩ := h
    cases h
    exact ⟨rfl, rfl, by simp⟩

theorem distributeBy_framed {mode : DistributeMode} {p a m : Nat} {r : DistributionReceipt}
    {s s' : DormantStore} (h : distributeBy mode p a m s = .ok r s') : FramedWithin m s s' := by
  by_cases ha : a = 0
  · cases mode with
    | eager =>
      rw [distributeBy, distribute, if_pos ha] at h
      cases h
      exact (Framed.refl s).within m
    | lazy =>
      rw [distributeBy, distributeLazy, if_pos ha] at h
      cases h
      exact (Framed.refl s).within m
  · -- both paths reserve a place, bring buckets to the head and append at most one entry
    have tail : ∀ (s1 s2 : DormantStore) t keys, s1.direction = s.direction →
        s1.profiles = s.profiles → s1.ledger.length < m → s1.Framed s2 →
        (s' = s2 ∨ eventBy mode p a t keys s2 = .ok r s') → FramedWithin m s s' := by
      intro s1 s2 t keys hd hh hl hf hr
      cases hr with
      | inl he =>
        rw [he]
        exact ⟨hf.direction_eq.trans hd, hf.profiles_eq.trans hh,
          fun _ => by rw [hf.ledger_eq]; exact hl.le⟩
      | inr he =>
        have hp := eventBy_appended he
        refine ⟨hp.direction_eq.trans (hf.direction_eq.trans hd),
          hp.profiles_eq.trans (hf.profiles_eq.trans hh), fun _ => ?_⟩
        rw [hp.length_eq, hf.ledger_eq]
        exact hl
    cases mode with
    | eager =>
      rw [distributeBy, distribute, if_neg ha, get_bind] at h
      obtain ⟨_, s1, h1, h⟩ := bind_ok.mp h
      obtain ⟨hd, hh, hl⟩ := reserveEntry_framed h1
      obtain ⟨_, s2, h2, h⟩ := bind_ok.mp h
      have hf := drainBuckets_framed h2
      rw [get_bind, orFail_bind_run_ok] at h
      obtain ⟨t, -, h⟩ := h
      by_cases h0 : t = 0
      · rw [if_pos h0] at h
        cases h
        exact tail s1 s' t [] hd hh hl hf (.inl rfl)
      · rw [if_neg h0] at h
        exact tail s1 s2 t _ hd hh hl hf (.inr h)
    | lazy =>
      rw [distributeBy, distributeLazy, if_neg ha] at h
      obtain ⟨_, s1, h1, h⟩ := bind_ok.mp h
      obtain ⟨hd, hh, hl⟩ := reserveEntry_framed h1
      rw [get_bind] at h
      obtain ⟨t, s2, h2, h⟩ := bind_ok.mp h
      have hf := drainAndSum_framed h2
      by_cases h0 : t = 0
      · rw [if_pos h0] at h
        cases h
        exact tail s1 s' t [] hd hh hl hf (.inl rfl)
      · rw [if_neg h0] at h
        exact tail s1 s2 t _ hd hh hl hf (.inr h)

structure Shifted (s s' : DormantStore) (joined left : Nat) : Prop where
  direction_eq : s'.direction = s.direction
  total_eq : s'.holdings.total + left = s.holdings.total + joined
  ledger_eq : s'.ledger = s.ledger
  anchored : s.Anchored → s'.Anchored

theorem insertOrMerge_shifted {s s' : DormantStore} {tick : Int} {anchor shares notional count
    cap : Nat} {u : Unit}
    (hanchor : anchor < u64Size)
    (h : insertOrMerge tick anchor shares notional count cap s = .ok u s') :
    s.Shifted s' shares 0 := by
  rw [insertOrMerge, get_bind] at h
  by_cases hk : s.buckets.contains tick = true
  · rw [if_pos hk] at h
    obtain ⟨_, s1, h1, h⟩ := bind_ok.mp h
    have hf := applyPendingToBucket_framed h1
    unfold onBucket at h
    cases hb : s1.buckets.get? tick with
    | none =>
      simp only [hb] at h
      cases h
    | some b =>
      simp only [hb] at h
      cases hm : mergeBucket shares notional count b with
      | error e b' =>
        rw [hm] at h
        cases h
      | ok u b' =>
        rw [hm] at h
        cases h
        obtain ⟨-, -, -, rfl⟩ := mergeBucket_ok hm
        refine ⟨hf.direction_eq, ?_, hf.ledger_eq, fun ha => ?_⟩
        swap
        · have ha1 := anchored_of_profiles hf.profiles_eq ha
          intro j c hc
          refine ha1.insert tick ?_ hc
          exact ha1 tick b hb
        have hg : s1.holdings.get? tick = some b.holding := by rw [holdings_get?, hb]; rfl
        have hs := OrdMap.sum_insert_old (fun _ (h : Holding) => h.shares)
          (⟨b.totalRecoveryShares + shares, b.totalRecoveryNotional + notional⟩ : Holding) hg
        rw [holdings_setBucket, ← hf.holdings_eq]
        simp only [DormantBucket.holding, Holdings.total] at hs ⊢
        omega
  · rw [if_neg hk] at h
    split_ifs at h with hcap
    · cases h
    · cases h
      have hb : s.buckets.get? tick = none := by simpa [OrdMap.contains] using hk
      refine ⟨rfl, ?_, rfl, fun ha j c hc => ha.insert tick hanchor hc⟩
      rw [holdings_setBucket, Holdings.total, OrdMap.sum_insert_new]
      · rfl
      · rw [holdings_get?, hb]
        rfl

theorem redeem_shifted {s s' : DormantStore} {tick : Int} {shares : Nat} {r : RedeemReceipt}
    (h : redeem tick shares s = .ok r s') : s.Shifted s' 0 r.burnedShares := by
  rw [redeem] at h
  obtain ⟨_, s1, h1, h⟩ := bind_ok.mp h
  have hf := applyPendingToBucket_framed h1
  rw [get_bind] at h
  cases hb : s1.buckets.get? tick with
  | none =>
    simp only [hb] at h
    cases h
  | some b =>
    simp only [hb] at h
    by_cases h0 : shares = 0
    · rw [if_pos h0] at h
      cases h
      exact ⟨hf.direction_eq, congrArg Holdings.total hf.holdings_eq, hf.ledger_eq,
        anchored_of_profiles hf.profiles_eq⟩
    rw [if_neg h0] at h
    by_cases hlt : b.totalRecoveryShares < shares
    · rw [if_pos hlt] at h
      cases h
    rw [if_neg hlt, orFail_bind_run_ok] at h
    obtain ⟨⟨r', b'⟩, hm, h⟩ := h
    rw [set_bind, orFail_bind_run_ok] at h
    obtain ⟨total, -, h⟩ := h
    cases h
    obtain ⟨-, -, hbs, -, -, hle, hb'⟩ := burnShares_ok hm
    have hg : s1.holdings.get? tick = some b.holding := by rw [holdings_get?, hb]; rfl
    have hsh : b'.totalRecoveryShares = b.totalRecoveryShares - shares := by rw [hb']
    have hkeep : s.Anchored → ∀ j c, (replaceBucket s1.buckets tick b').get? j = some c →
        c.anchorPrice < u64Size := by
      intro ha j c hc
      have ha1 := anchored_of_profiles hf.profiles_eq ha
      unfold replaceBucket at hc
      split_ifs at hc
      · rw [OrdMap.get?_erase] at hc
        split_ifs at hc
        exact ha1 j c hc
      · have hanchor : b'.anchorPrice = b.anchorPrice := by rw [hb']
        exact ha1.insert tick (hanchor ▸ ha1 tick b hb) hc
    refine ⟨hf.direction_eq, ?_, hf.ledger_eq, hkeep⟩
    rw [← hf.holdings_eq, hbs]
    unfold replaceBucket
    split_ifs with he
    · -- the removed bucket has no shares left
      have hh : OrdMap.mapVal (fun _ b => b.holding) (s1.buckets.erase tick)
          = s1.holdings.erase tick := OrdMap.mapVal_erase _ _ _
      have hs := OrdMap.sum_erase (fun _ (h : Holding) => h.shares) hg
      simp only [holdings, Holdings.total, DormantBucket.holding] at hs hh ⊢
      rw [hh]
      have hz : b'.totalRecoveryShares = 0 := he.1
      omega
    · have hh : OrdMap.mapVal (fun _ b => b.holding) (s1.buckets.insert tick b')
          = s1.holdings.insert tick b'.holding := OrdMap.mapVal_insert _ _ _ _
      have hs := OrdMap.sum_insert_old (fun _ (h : Holding) => h.shares) b'.holding hg
      simp only [holdings, Holdings.total, DormantBucket.holding] at hs hh ⊢
      rw [hh]
      omega

end DormantStore
end MoleFinance
