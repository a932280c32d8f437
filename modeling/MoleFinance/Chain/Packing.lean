import MoleFinance.Chain.Bridge
import MoleFinance.Engine.Exit

/-! What the three passes of packing leave in the accounts. A record without a live account
at its tick is new; the new ones go, in tick order, to the dead accounts in the order they were
supplied, except those that a dead account already looks like. -/
namespace MoleFinance
open MoleMath Call

structure DormantStore.Produced (s : DormantStore) : Prop where
  inv : s.Inv
  stocked : s.holdings.Stocked
  accrued_lt : s.accruedValueTotal < u128Size
  window_lt : s.window < u128Size

theorem World.Reached.produced {w : World} (h : w.Reached) (d : Direction) :
    (w.subPool.side d).dormant.Produced := by
  have hi := h.inv
  have hv := hi.value_lt
  have hr := hi.reserve_lt
  have hvd := w.subPool.side_value_le d
  have hrd : (w.subPool.side d).reserve ≤ w.subPool.reserve := by
    cases d <;> simp only [SubPool.side, SubPool.reserve] <;> omega
  simp only [Side.value, Side.reserve, DormantStore.funds] at hvd hrd
  exact ⟨(hi.sound d).1, (hi.shared d).stocked, by omega, by omega⟩

def newRecords (direction : Direction) (records : List OnChainBucketRecord)
    (accounts : List BucketAccount) : List OnChainBucketRecord :=
  records.filter (fun r => !accounts.any (matchesRecord direction r))

def deadAccounts (accounts : List BucketAccount) : List BucketAccount :=
  accounts.filter recordIsDead

/-- Pass 2 on the new records and the dead accounts: which record lands where, as long as the
    dead accounts last. -/
def placements : List OnChainBucketRecord → List BucketAccount →
    Option (List (OnChainBucketRecord × BucketAccount))
  | [], _ => some []
  | _ :: _, [] => none
  | r :: rs, b :: bs =>
    if (b :: bs).any (sameIdentity r) = true then placements rs (b :: bs)
    else (placements rs bs).map ((r, b) :: ·)

@[simp] theorem applyRecord_record {key : Pubkey} {r : OnChainBucketRecord} {b : BucketAccount}
    {byte : Nat} (h : r.direction = byte) : (applyRecord key r b).record byte = r := by
  cases r
  cases h
  rfl

section Passes
variable {key : Pubkey} {d : Direction} {slots slots' : List (Slot BucketAccount)}
  {records : List OnChainBucketRecord} {n n' : Nat}

theorem matchesRecord_live {r : OnChainBucketRecord} {b : BucketAccount}
    (h : matchesRecord d r b = true) : recordIsDead b = false ∧
      b.zeroPriceTick = r.zeroPriceTick := by
  simp only [matchesRecord, Bool.and_eq_true, Bool.not_eq_true', beq_iff_eq] at h
  exact ⟨h.1.1, h.1.2⟩

/-- Filling the slot of one record leaves the live accounts of other ticks. -/
theorem any_matches_eraseP {r r' : OnChainBucketRecord} (h : r.zeroPriceTick ≠ r'.zeroPriceTick)
    (bs : List BucketAccount) :
    (bs.eraseP (matchesRecord d r)).any (matchesRecord d r') = bs.any (matchesRecord d r') := by
  induction bs with
  | nil => rfl
  | cons b bs ih =>
    by_cases hb : matchesRecord d r b = true
    · rw [List.eraseP_cons_of_pos hb, List.any_cons]
      have hb' : matchesRecord d r' b = false := by
        refine Bool.not_eq_true _ ▸ fun hc => h ?_
        rw [← (matchesRecord_live hb).2, (matchesRecord_live hc).2]
      rw [hb', Bool.false_or]
    · rw [List.eraseP_cons_of_neg hb, List.any_cons, List.any_cons, ih]

/-- Pass 1: exactly the records with a live account land, and dead accounts stay. -/
theorem reuseSlots_spec (hn : (records.map (·.zeroPriceTick)).Nodup)
    (hd : ∀ r ∈ records, r.direction = d.byte)
    (h : reuseSlots key d records (slots, n) = (slots', n')) :
    ((Slot.taken slots').map (·.record d.byte)).Perm
        (records.filter (fun r => (Slot.free slots).any (matchesRecord d r))
          ++ (Slot.taken slots).map (·.record d.byte)) ∧
      (Slot.free slots').filter recordIsDead = (Slot.free slots).filter recordIsDead ∧
      (Slot.free slots').Sublist (Slot.free slots) ∧
      ∀ b ∈ Slot.taken slots', b ∈ Slot.taken slots ∨ ∃ a ∈ Slot.free slots, ∃ r ∈ records,
        matchesRecord d r a = true ∧ b = applyRecord key r a := by
  induction records generalizing slots n with
  | nil =>
    cases h
    exact ⟨.refl _, rfl, .refl _, fun b hb => .inl hb⟩
  | cons r rs ih =>
    obtain ⟨hr, hns⟩ := List.nodup_cons.mp hn
    have hds := fun x hx => hd x (List.mem_cons_of_mem r hx)
    unfold reuseSlots at h
    cases hf : Slot.fillFirst (matchesRecord d r) (applyRecord key r) slots with
    | none =>
      simp only [hf] at h
      obtain ⟨hp, hdead, hsub, hold⟩ := ih hns hds h
      have hno := Slot.fillFirst_none.mp hf
      rw [List.filter_cons_of_neg (by
        simp only [List.any_eq_true, not_exists, not_and, Bool.not_eq_true]
        exact hno)]
      refine ⟨hp, hdead, hsub, fun b hb => (hold b hb).imp_right ?_⟩
      rintro ⟨a, ha, x, hx, hax⟩
      exact ⟨a, ha, x, List.mem_cons_of_mem r hx, hax⟩
    | some slots1 =>
      simp only [hf] at h
      obtain ⟨b, hfind, hfree, htaken⟩ := Slot.fillFirst_some hf
      obtain ⟨hp, hdead, hsub, hold⟩ := ih hns hds h
      have hsame : rs.filter (fun x => (Slot.free slots1).any (matchesRecord d x))
          = rs.filter (fun x => (Slot.free slots).any (matchesRecord d x)) := by
        refine List.filter_congr fun x hx => ?_
        have hne : r.zeroPriceTick ≠ x.zeroPriceTick :=
          fun he => hr (List.mem_map.mpr ⟨x, hx, he.symm⟩)
        rw [hfree, any_matches_eraseP hne]
      have hmem := List.mem_of_find?_eq_some hfind
      have hmatch := List.find?_some hfind
      have hlive : ∀ a, matchesRecord d r a = true → recordIsDead a = false :=
        fun a ha => (matchesRecord_live ha).1
      refine ⟨?_, by rw [hdead, hfree, filter_eraseP hlive], ?_, ?_⟩
      · have hany : (Slot.free slots).any (matchesRecord d r) = true :=
          List.any_eq_true.mpr ⟨b, hmem, hmatch⟩
        rw [List.filter_cons, if_pos hany]
        refine hp.trans ?_
        rw [hsame]
        have hrec := htaken.map (·.record d.byte)
        rw [List.map_cons, applyRecord_record (hd r List.mem_cons_self)] at hrec
        exact (hrec.append_left _).trans List.perm_middle
      · rw [hfree] at hsub
        exact hsub.trans List.eraseP_sublist
      · intro c hc
        cases hold c hc with
        | inl hc =>
          cases List.mem_cons.mp (htaken.mem_iff.mp hc) with
          | inl he => exact .inr ⟨b, hmem, r, List.mem_cons_self, hmatch, he⟩
          | inr hc => exact .inl hc
        | inr hc =>
          obtain ⟨a, ha, x, hx, hax⟩ := hc
          rw [hfree] at ha
          exact .inr ⟨a, List.mem_of_mem_eraseP ha, x, List.mem_cons_of_mem r hx, hax⟩

theorem any_items (q : BucketAccount → Bool) (slots : List (Slot BucketAccount)) :
    (Slot.items slots).any q = true ↔ (∃ b ∈ Slot.taken slots, q b = true) ∨
      ∃ b ∈ Slot.free slots, q b = true := by
  rw [List.any_eq_true]
  simp only [(Slot.items_perm slots).mem_iff, List.mem_append, or_and_right, exists_or]

theorem sameIdentity_tick {r : OnChainBucketRecord} {b : BucketAccount}
    (h : sameIdentity r b = true) : b.zeroPriceTick = r.zeroPriceTick := by
  simp only [sameIdentity, Bool.and_eq_true, beq_iff_eq] at h
  exact h.1.1

theorem sameIdentity_record (b : BucketAccount) (byte : Nat) :
    sameIdentity (b.record byte) b = true := by
  simp [sameIdentity, BucketAccount.record]

/-- Pass 2: the records that did not land in pass 1 are placed as `placements` says. -/
theorem placeNew_spec {new : OnChainBucketRecord → Bool}
    (hn : (records.map (·.zeroPriceTick)).Nodup)
    (hplaced : ∀ r ∈ records, new r = false → ∃ b ∈ Slot.taken slots, b.record d.byte = r)
    (hnew : ∀ r ∈ records, new r = true →
      (∀ b ∈ Slot.taken slots, b.zeroPriceTick ≠ r.zeroPriceTick) ∧
      ∀ b ∈ Slot.free slots, recordIsDead b = false → b.zeroPriceTick ≠ r.zeroPriceTick)
    (h : placeNew key records (slots, n) = .ok (slots', n')) :
    ∃ es, placements (records.filter new) ((Slot.free slots).filter recordIsDead) = some es ∧
      (Slot.taken slots').Perm (es.map (fun e => applyRecord key e.1 e.2) ++ Slot.taken slots) ∧
      (Slot.free slots').Sublist (Slot.free slots) ∧
      Slot.fillEach recordIsDead (es.map (fun e => applyRecord key e.1)) slots = some slots' := by
  induction records generalizing slots n with
  | nil =>
    cases h
    exact ⟨[], rfl, .refl _, .refl _, rfl⟩
  | cons r rs ih =>
    obtain ⟨hr, hns⟩ := List.nodup_cons.mp hn
    have hps := fun x hx => hplaced x (List.mem_cons_of_mem r hx)
    have hnews := fun x hx => hnew x (List.mem_cons_of_mem r hx)
    unfold placeNew at h
    by_cases hnr : new r = true
    · obtain ⟨ht, hf⟩ := hnew r List.mem_cons_self hnr
      have hany : (Slot.items slots).any (sameIdentity r) = true ↔
          ((Slot.free slots).filter recordIsDead).any (sameIdentity r) = true := by
        rw [any_items, List.any_eq_true]
        simp only [List.mem_filter]
        constructor
        · rintro (⟨b, hb, hs⟩ | ⟨b, hb, hs⟩)
          · exact absurd (sameIdentity_tick hs) (ht b hb)
          · refine ⟨b, ⟨hb, ?_⟩, hs⟩
            by_contra hl
            exact hf b hb (Bool.not_eq_true _ ▸ hl) (sameIdentity_tick hs)
        · rintro ⟨b, ⟨hb, -⟩, hs⟩
          exact .inr ⟨b, hb, hs⟩
      rw [List.filter_cons_of_pos hnr]
      by_cases hskip : ((Slot.free slots).filter recordIsDead).any (sameIdentity r) = true
      · rw [if_pos (hany.mpr hskip)] at h
        have hplace : placements (r :: rs.filter new) ((Slot.free slots).filter recordIsDead)
            = placements (rs.filter new) ((Slot.free slots).filter recordIsDead) := by
          cases hD : (Slot.free slots).filter recordIsDead with
          | nil => simp [hD] at hskip
          | cons b bs =>
            rw [hD] at hskip
            rw [placements, if_pos hskip]
        rw [hplace]
        exact ih hns hps hnews h
      · rw [if_neg (fun hc => hskip (hany.mp hc))] at h
        cases hfill : Slot.fillFirst recordIsDead (applyRecord key r) slots with
        | none => simp [hfill] at h
        | some slots1 =>
          simp only [hfill] at h
          obtain ⟨b, hfind, hfree, htaken⟩ := Slot.fillFirst_some hfill
          have hD := filter_of_find? hfind
          rw [← hfree] at hD
          rw [hD] at hskip ⊢
          rw [placements, if_neg hskip]
          have hps1 : ∀ x ∈ rs, new x = false → ∃ c ∈ Slot.taken slots1, c.record d.byte = x := by
            intro x hx hxn
            obtain ⟨c, hc, hcx⟩ := hps x hx hxn
            exact ⟨c, htaken.mem_iff.mpr (List.mem_cons_of_mem _ hc), hcx⟩
          have hnews1 : ∀ x ∈ rs, new x = true →
              (∀ c ∈ Slot.taken slots1, c.zeroPriceTick ≠ x.zeroPriceTick) ∧
              ∀ c ∈ Slot.free slots1, recordIsDead c = false →
                c.zeroPriceTick ≠ x.zeroPriceTick := by
            intro x hx hxn
            refine ⟨fun c hc => ?_, fun c hc => (hnews x hx hxn).2 c ?_⟩
            · cases List.mem_cons.mp (htaken.mem_iff.mp hc) with
              | inl he =>
                rw [he]
                exact fun he => hr (List.mem_map.mpr ⟨x, hx, he.symm⟩)
              | inr hc => exact (hnews x hx hxn).1 c hc
            · rw [hfree] at hc
              exact List.mem_of_mem_eraseP hc
          obtain ⟨es, hes, hp, hsub, heach⟩ := ih hns hps1 hnews1 h
          refine ⟨(r, b) :: es, by rw [hes]; rfl, hp.trans ?_, hsub.trans ?_, ?_⟩
          · exact (htaken.append_left _).trans List.perm_middle
          · rw [hfree]
            exact List.eraseP_sublist
          · rw [List.map_cons, Slot.fillEach, hfill]
            exact heach
    · rw [List.filter_cons_of_neg hnr]
      obtain ⟨b, hb, hbr⟩ := hplaced r List.mem_cons_self (Bool.not_eq_true _ ▸ hnr)
      have hs : sameIdentity r b = true := hbr ▸ sameIdentity_record b d.byte
      rw [if_pos ((any_items _ _).mpr (.inl ⟨b, hb, hs⟩))] at h
      exact ih hns hps hnews h

theorem pick_not_not {α β : Type} (q : β → Bool) (as : List β) (bs : List α) :
    pick (fun a => !(!q a)) as bs = pick q as bs := by
  simp only [Bool.not_not]

/-- The row of slots over the accounts supplied: slots over dead accounts are untouched, and an
    available slot over a live one holds a live account. -/
structure ReuseRow (accounts : List BucketAccount) (slots : List (Slot BucketAccount)) : Prop where
  length_eq : accounts.length = slots.length
  dead : pick recordIsDead accounts slots = (deadAccounts accounts).map (⟨true, ·⟩)
  live : ∀ s ∈ pick (fun b => !recordIsDead b) accounts slots,
    ¬ (s.available = true ∧ recordIsDead s.item = true)

theorem ReuseRow.ofList (accounts : List BucketAccount) :
    ReuseRow accounts (Slot.ofList accounts) where
  length_eq := by simp [Slot.ofList]
  dead := by
    rw [Slot.ofList, pick_map, pick_self]
    rfl
  live := by
    intro s hs
    rw [Slot.ofList, pick_map, pick_self] at hs
    obtain ⟨b, hb, rfl⟩ := List.mem_map.mp hs
    have hl := (List.mem_filter.mp hb).2
    simp only [Bool.not_eq_true'] at hl
    simp [hl]

theorem reuseSlots_row {accounts : List BucketAccount} (hrow : ReuseRow accounts slots)
    (h : reuseSlots key d records (slots, n) = (slots', n')) :
    ReuseRow accounts slots' ∧
      (Slot.items slots').map (·.seeds) = (Slot.items slots).map (·.seeds) := by
  induction records generalizing slots n with
  | nil =>
    cases h
    exact ⟨hrow, rfl⟩
  | cons r rs ih =>
    unfold reuseSlots at h
    cases hf : Slot.fillFirst (matchesRecord d r) (applyRecord key r) slots with
    | none =>
      simp only [hf] at h
      exact ih hrow h
    | some slots1 =>
      simp only [hf] at h
      have hout : ∀ s ∈ pick (fun b => !(!recordIsDead b)) accounts slots,
          ¬ (s.available = true ∧ matchesRecord d r s.item = true) := by
        intro s hs
        rw [pick_not_not, hrow.dead] at hs
        obtain ⟨b, hb, rfl⟩ := List.mem_map.mp hs
        have hd := (List.mem_filter.mp hb).2
        rintro ⟨-, hm⟩
        rw [(matchesRecord_live hm).1] at hd
        cases hd
      obtain ⟨hfill, hpick, hlen⟩ := Slot.fillFirst_pick hrow.length_eq hout hf
      rw [pick_not_not, pick_not_not] at hpick
      have hrow1 : ReuseRow accounts slots1 := by
        refine ⟨hlen, hpick.trans hrow.dead, fun s hs => ?_⟩
        cases Slot.fillFirst_mem hfill s hs with
        | inl hs => exact hrow.live s hs
        | inr hs =>
          rintro ⟨ha, -⟩
          rw [hs] at ha
          cases ha
      obtain ⟨hrow', hseeds⟩ := ih hrow1 h
      have hkeep : ∀ b : BucketAccount, (applyRecord key r b).seeds = b.seeds := fun _ => rfl
      exact ⟨hrow', hseeds.trans (Slot.fillFirst_items hkeep hf)⟩

end Passes

/-- The accounts after a pack: `es` tells where the new records went, `matched` holds the
    accounts of the others and `left` what nobody took. -/
structure Packed (key : Pubkey) (d : Direction) (store : DormantStore)
    (accounts accounts' : List BucketAccount) (es : List (OnChainBucketRecord × BucketAccount))
    (matched left : List BucketAccount) : Prop where
  placed : placements (newRecords d store.records accounts) (deadAccounts accounts) = some es
  landed : (matched.map (·.record d.byte)).Perm
    (store.records.filter (fun r => accounts.any (matchesRecord d r)))
  reused : ∀ b ∈ matched, ∃ a ∈ accounts, ∃ r ∈ store.records,
    matchesRecord d r a = true ∧ b = applyRecord key r a
  left_sub : left.Sublist accounts
  accounts_perm : accounts'.Perm (es.map (fun e => applyRecord key e.1 e.2) ++ matched
    ++ left.map (fun b => resetLeftover store.nextEventIndex ⟨true, b⟩))

theorem records_ticks (s : DormantStore) : s.records.map (·.zeroPriceTick) = s.buckets.keys := by
  simp only [DormantStore.records, DormantStore.packBucket, List.map_map, OrdMap.keys]
  rfl

theorem records_direction (s : DormantStore) : ∀ r ∈ s.records, r.direction = s.direction.byte := by
  intro r hr
  obtain ⟨e, -, rfl⟩ := List.mem_map.mp hr
  rfl

/-- Place by place: every account keeps its address, and the new records are at the places of
    the first dead accounts. -/
structure PackedRows (key : Pubkey) (accounts accounts' : List BucketAccount)
    (es : List (OnChainBucketRecord × BucketAccount)) : Prop where
  seeds_eq : accounts'.map (·.seeds) = accounts.map (·.seeds)
  length_le : es.length ≤ (deadAccounts accounts).length
  dead : pick recordIsDead accounts accounts' =
    List.zipWith (applyRecord key) (es.map Prod.fst) (deadAccounts accounts)
      ++ (deadAccounts accounts).drop es.length

theorem resetLeftover_seeds (next : Nat) (s : Slot BucketAccount) :
    (resetLeftover next s).seeds = s.item.seeds := by
  unfold resetLeftover
  split_ifs <;> rfl

theorem packedRows_of {key : Pubkey} {accounts : List BucketAccount}
    {slots1 slots2 : List (Slot BucketAccount)}
    {es : List (OnChainBucketRecord × BucketAccount)} (next : Nat)
    (hrow : ReuseRow accounts slots1)
    (hseeds : (Slot.items slots1).map (·.seeds) = accounts.map (·.seeds))
    (heach : Slot.fillEach recordIsDead (es.map (fun e => applyRecord key e.1)) slots1
      = some slots2) :
    PackedRows key accounts (slots2.map (resetLeftover next)) es := by
  obtain ⟨hfill, -, -⟩ := Slot.fillEach_pick hrow.length_eq hrow.live heach
  rw [hrow.dead] at hfill
  have hfill' : Slot.fillEach recordIsDead (es.map (fun e => applyRecord key e.1))
      (([] : List BucketAccount).map (⟨false, ·⟩) ++ (deadAccounts accounts).map (⟨true, ·⟩))
        = some (pick recordIsDead accounts slots2) := hfill
  have hdead : ∀ b ∈ deadAccounts accounts, recordIsDead b = true :=
    fun b hb => (List.mem_filter.mp hb).2
  obtain ⟨hle, hpick⟩ := Slot.fillEach_row hdead hfill'
  rw [List.length_map] at hle hpick
  refine ⟨?_, hle, ?_⟩
  · have hkeep := Slot.fillEach_items (g := BucketAccount.seeds) (fun f hf a => by
      obtain ⟨e, -, rfl⟩ := List.mem_map.mp hf
      rfl) heach
    rw [List.map_map]
    have hmap : slots2.map ((fun b => b.seeds) ∘ resetLeftover next)
        = (Slot.items slots2).map (·.seeds) := by
      rw [Slot.items, List.map_map]
      exact List.map_congr_left fun s _ => resetLeftover_seeds next s
    rw [hmap, hkeep, hseeds]
  · rw [pick_map, hpick, List.nil_append, List.map_append, List.map_map, List.map_map]
    congr 1
    · rw [← List.map_id (List.zipWith (applyRecord key) _ _)]
      rw [List.zipWith_map_left, List.zipWith_map_left]
      exact List.map_congr_left fun b _ => rfl
    · conv_rhs => rw [← List.map_id ((deadAccounts accounts).drop es.length)]
      refine List.map_congr_left fun b hb => ?_
      simp [resetLeftover, hdead b (List.mem_of_mem_drop hb)]

theorem packDirection_rows {ledger ledger' : LedgerAccount}
    {accounts accounts' : List BucketAccount} {key : Pubkey} {store : DormantStore}
    {d : Direction} {maxBuckets maxLedger : Nat} {outcome : PackOutcome}
    (hd : store.direction = d) (ha : ∀ b ∈ accounts, b.directionIsLong = d.isLong)
    (h : packDirection ledger accounts key d store maxBuckets maxLedger
      = .ok (outcome, ledger', accounts')) :
    (∃ l, packDormantStore store maxBuckets maxLedger = .ok (store.records, l) ∧
      ledger' = ledger.flush l) ∧
    ∃ es matched left, Packed key d store accounts accounts' es matched left ∧
      PackedRows key accounts accounts' es := by
  unfold packDirection at h
  obtain ⟨⟨rs, l⟩, hpack, h⟩ := except_bind_ok.mp h
  obtain ⟨_, -, h⟩ := except_bind_ok.mp h
  obtain ⟨⟨slots2, written⟩, hplace, h⟩ := except_bind_ok.mp h
  cases h
  rw [engine_ok] at hpack
  have hrs : rs = store.records ∧ l.nextEventIndex = store.nextEventIndex := by
    unfold packDormantStore at hpack
    obtain ⟨_, -, hpack⟩ := except_bind_ok.mp hpack
    obtain ⟨_, -, hpack⟩ := except_bind_ok.mp hpack
    cases hpack
    exact ⟨rfl, rfl⟩
  obtain ⟨rfl, hnext⟩ := hrs
  refine ⟨⟨l, hpack, rfl⟩, ?_⟩
  have hn : (store.records.map (·.zeroPriceTick)).Nodup :=
    records_ticks store ▸ store.buckets.keys_nodup
  have hdir : ∀ r ∈ store.records, r.direction = d.byte := hd ▸ records_direction store
  obtain ⟨⟨slots1, n1⟩, hreuse⟩ : ∃ st, reuseSlots key d store.records
      (Slot.ofList accounts, 0) = st := ⟨_, rfl⟩
  rw [hreuse] at hplace
  obtain ⟨hland, hdead, hsub, hold⟩ := reuseSlots_spec hn hdir hreuse
  simp only [Slot.free_ofList, Slot.taken_ofList, List.map_nil, List.append_nil,
    List.not_mem_nil, false_or] at hland hdead hsub hold
  have hplaced : ∀ r ∈ store.records, (!accounts.any (matchesRecord d r)) = false →
      ∃ b ∈ Slot.taken slots1, b.record d.byte = r := by
    intro r hr hm
    have hmem := hland.mem_iff.mpr (List.mem_filter.mpr ⟨hr, by simpa using hm⟩)
    exact List.mem_map.mp hmem
  have hnew : ∀ r ∈ store.records, (!accounts.any (matchesRecord d r)) = true →
      (∀ b ∈ Slot.taken slots1, b.zeroPriceTick ≠ r.zeroPriceTick) ∧
      ∀ b ∈ Slot.free slots1, recordIsDead b = false → b.zeroPriceTick ≠ r.zeroPriceTick := by
    intro r _ hm
    have hno : ∀ a ∈ accounts, recordIsDead a = false → a.zeroPriceTick ≠ r.zeroPriceTick := by
      intro a haa hl he
      have hmatch : matchesRecord d r a = true := by simp [matchesRecord, hl, he, ha a haa]
      rw [List.any_eq_true.mpr ⟨a, haa, hmatch⟩] at hm
      cases hm
    refine ⟨fun b hb => ?_, fun b hb => hno b (hsub.subset hb)⟩
    obtain ⟨a, haa, x, -, hmx, rfl⟩ := hold b hb
    obtain ⟨hl, ht⟩ := matchesRecord_live hmx
    have hne := hno a haa hl
    rw [ht] at hne
    exact hne
  obtain ⟨es, hes, htaken, hfree, heach⟩ := placeNew_spec hn hplaced hnew hplace
  rw [hdead] at hes
  obtain ⟨hrow, hseeds⟩ := reuseSlots_row (.ofList accounts) hreuse
  have hitems : Slot.items (Slot.ofList accounts) = accounts := by
    simp [Slot.items, Slot.ofList, Function.comp_def]
  rw [hitems] at hseeds
  refine ⟨es, Slot.taken slots1, Slot.free slots2,
    ⟨hes, hland, hold, hfree.trans hsub, ?_⟩, packedRows_of _ hrow hseeds heach⟩
  have hmap := Slot.map_perm (resetLeftover l.nextEventIndex) slots2
  rw [hnext] at hmap ⊢
  refine hmap.trans (List.Perm.append_right _ ?_)
  have hid : (fun b => resetLeftover store.nextEventIndex ⟨false, b⟩) = id := rfl
  rw [hid, List.map_id]
  exact htaken

theorem packDirection_ok {ledger ledger' : LedgerAccount} {accounts accounts' : List BucketAccount}
    {key : Pubkey} {store : DormantStore} {d : Direction} {maxBuckets maxLedger : Nat}
    {outcome : PackOutcome} (hd : store.direction = d)
    (ha : ∀ b ∈ accounts, b.directionIsLong = d.isLong)
    (h : packDirection ledger accounts key d store maxBuckets maxLedger
      = .ok (outcome, ledger', accounts')) :
    (∃ l, packDormantStore store maxBuckets maxLedger = .ok (store.records, l) ∧
      ledger' = ledger.flush l) ∧
    ∃ es matched left, Packed key d store accounts accounts' es matched left := by
  obtain ⟨hl, es, matched, left, hp, -⟩ := packDirection_rows hd ha h
  exact ⟨hl, es, matched, left, hp⟩

theorem placements_fst {us : List OnChainBucketRecord} {ds : List BucketAccount}
    {es : List (OnChainBucketRecord × BucketAccount)} (h : placements us ds = some es) :
    (es.map Prod.fst).Sublist us ∧ ∀ e ∈ es, e.2 ∈ ds := by
  induction us generalizing ds es with
  | nil =>
    cases h
    exact ⟨.slnil, by simp⟩
  | cons u us ih =>
    cases ds with
    | nil => cases h
    | cons b bs =>
      unfold placements at h
      split_ifs at h with hskip
      · obtain ⟨hsub, hmem⟩ := ih h
        exact ⟨hsub.cons u, hmem⟩
      · obtain ⟨es1, h1, rfl⟩ := Option.map_eq_some_iff.mp h
        obtain ⟨hsub, hmem⟩ := ih h1
        refine ⟨hsub.cons_cons u, ?_⟩
        rintro e he
        cases List.mem_cons.mp he with
        | inl he =>
          rw [he]
          exact List.mem_cons_self
        | inr he => exact List.mem_cons_of_mem b (hmem e he)

/-- Every new record lands exactly when none meets a remaining dead account that looks like it. -/
theorem placements_all_iff {us : List OnChainBucketRecord} {ds : List BucketAccount}
    {es : List (OnChainBucketRecord × BucketAccount)} (h : placements us ds = some es) :
    es.map Prod.fst = us ↔
      ∀ k u, us[k]? = some u → ∀ b ∈ ds.drop k, sameIdentity u b = false := by
  induction us generalizing ds es with
  | nil =>
    cases h
    simp
  | cons u us ih =>
    cases ds with
    | nil => cases h
    | cons b bs =>
      unfold placements at h
      split_ifs at h with hskip
      · constructor
        · intro he
          have := (placements_fst h).1.length_le
          rw [he, List.length_cons] at this
          omega
        · intro hno
          obtain ⟨c, hc, hs⟩ := List.any_eq_true.mp hskip
          have := hno 0 u rfl c hc
          rw [hs] at this
          cases this
      · obtain ⟨es1, h1, rfl⟩ := Option.map_eq_some_iff.mp h
        rw [List.map_cons, List.cons_eq_cons, and_iff_right rfl, ih h1]
        constructor
        · intro hno k v hv
          cases k with
          | zero =>
            cases hv
            intro c hc
            by_contra hs
            exact hskip (List.any_eq_true.mpr ⟨c, hc, Bool.not_eq_false _ ▸ hs⟩)
          | succ k => exact hno k v hv
        · intro hno k v hv
          exact hno (k + 1) v hv

/-- Every new record lands, and in an account of its tick, exactly when no dead account looks
like a new record and the new ticks are those of the first dead accounts. -/
theorem placements_home_iff {us : List OnChainBucketRecord} {ds : List BucketAccount}
    {es : List (OnChainBucketRecord × BucketAccount)}
    (hn : (us.map (·.zeroPriceTick)).Nodup) (h : placements us ds = some es) :
    (es.map Prod.fst = us ∧ ∀ e ∈ es, e.1.zeroPriceTick = e.2.zeroPriceTick) ↔
      (∀ u ∈ us, ∀ b ∈ ds, sameIdentity u b = false) ∧
      us.map (·.zeroPriceTick) <+: ds.map (·.zeroPriceTick) := by
  induction us generalizing ds es with
  | nil =>
    cases h
    simp
  | cons u us ih =>
    obtain ⟨hu, hns⟩ := List.nodup_cons.mp hn
    cases ds with
    | nil => cases h
    | cons b bs =>
      unfold placements at h
      split_ifs at h with hskip
      · constructor
        · rintro ⟨he, -⟩
          have hlen := (placements_fst h).1.length_le
          rw [he, List.length_cons] at hlen
          omega
        · rintro ⟨hno, -⟩
          obtain ⟨c, hc, hs⟩ := List.any_eq_true.mp hskip
          rw [hno u List.mem_cons_self c hc] at hs
          cases hs
      · have hnu : ∀ c ∈ b :: bs, sameIdentity u c = false := by
          intro c hc
          by_contra hs
          exact hskip (List.any_eq_true.mpr ⟨c, hc, Bool.not_eq_false _ ▸ hs⟩)
        obtain ⟨es1, h1, rfl⟩ := Option.map_eq_some_iff.mp h
        have hi := ih hns h1
        rw [List.map_cons, List.cons_eq_cons, and_iff_right rfl, List.forall_mem_cons,
          List.forall_mem_cons, List.map_cons, List.map_cons, List.cons_prefix_cons]
        constructor
        · rintro ⟨hfst, hub, hticks⟩
          obtain ⟨hno, hpre⟩ := hi.mp ⟨hfst, hticks⟩
          refine ⟨⟨hnu, fun v hv => List.forall_mem_cons.mpr ⟨?_, hno v hv⟩⟩, hub, hpre⟩
          by_contra hs
          have ht := sameIdentity_tick (Bool.not_eq_false _ ▸ hs)
          exact hu (List.mem_map.mpr ⟨v, hv, (hub.trans ht).symm⟩)
        · rintro ⟨⟨-, hno⟩, hub, hpre⟩
          obtain ⟨hfst, hticks⟩ := hi.mpr
            ⟨fun v hv => (List.forall_mem_cons.mp (hno v hv)).2, hpre⟩
          exact ⟨hfst, hub, hticks⟩

end MoleFinance
