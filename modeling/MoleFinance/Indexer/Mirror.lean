import MoleFinance.Indexer.Isolation
import MoleFinance.Engine.Dilution

/-! What the indexer has of a sub-pool: for each position the shares it would have after lazy
migration, and for each bucket what its ledger entries leave it with. -/
namespace MoleFinance
open MoleMath Call

def Side.dormantOf (x : Side) (p : Position) : Nat :=
  if p.activeGeneration = x.activeGeneration then p.recoveryShares
  else p.recoveryShares + p.activeShares

def DormantBucket.toView (d : Direction) (b : DormantBucket) : BucketView where
  direction := d
  anchorPrice := b.anchorPrice
  totalRecoveryShares := b.totalRecoveryShares
  totalRecoveryNotional := b.totalRecoveryNotional
  accruedValue := b.accruedValue

namespace Indexer

/-- The indexer's record of a position of a side. -/
structure Tracks (sp : Nat) (x : Side) (p : Position) (pos : PositionView) : Prop where
  subPool : pos.subPoolId = sp
  direction : pos.direction = p.direction
  closed : pos.closed = true ↔ p.status = .closed
  active : pos.activeShares = x.activeOf p
  generation : pos.activeShares ≠ 0 → pos.activeGeneration = x.activeGeneration
  recovery : pos.recoveryShares = x.dormantOf p
  tick : pos.recoveryShares ≠ 0 → pos.recoveryBucketTick = x.bucketOf p
  locked : pos.lockedLoss ≤ pos.principal
  principal_lt : pos.principal < u64Size

/-- The indexer's record of a sub-pool, whose buckets are given apart from its sides. -/
structure Mirrors (sp : Nat) (side : Direction → Side) (books : Direction → BucketMap)
    (ps : Positions) (x : IndexerState) : Prop where
  series : ∀ d, (((x.subPools.get? sp).getD .default).series d).activeGeneration
    = (side d).activeGeneration
  buckets : ∀ d tick, x.buckets.get? (bucketKey sp d tick) = ((books d).get? tick).map (·.toView d)
  alone : ∀ key, (x.buckets.get? key).isSome → key.subPoolId = sp
  found : ∀ id p, ps.get? id = some p →
    ∃ pos, x.positions.get? id = some pos ∧ Tracks sp (side p.direction) p pos
  known : ∀ id pos, x.positions.get? id = some pos → ∃ p, ps.get? id = some p

def Full (credit : PositionView → Nat → Prop) (e : IndexerError) (x : IndexerState) : Prop :=
  e = .mathOverflow ∧ ∃ id pos share, x.positions.get? id = some pos ∧ credit pos share ∧
    u128Size ≤ pos.realizedProfitBalance + share

section Loops
variable {selects : PositionView → Bool} {f : PositionView → Except IndexerError PositionView}
  {x x' : IndexerState}

structure Updated (selects : PositionView → Bool)
    (f : PositionView → Except IndexerError PositionView) (x x' : IndexerState) : Prop where
  buckets : x'.buckets = x.buckets
  subPools : x'.subPools = x.subPools
  none : ∀ id, x.positions.get? id = none → x'.positions.get? id = none
  some : ∀ id pos, x.positions.get? id = some pos → ∃ pos', x'.positions.get? id = some pos' ∧
    if selects pos = true then f pos = .ok pos' else pos' = pos

theorem updateEach_cons {id : Nat} {pos pos' : PositionView} (h : f pos = .ok pos')
    (es : List (Nat × PositionView)) (x : IndexerState) : updateEach f ((id, pos) :: es) x
      = updateEach f es { x with positions := x.positions.insert id pos' } := by
  rw [updateEach, h]
  rfl

theorem updateEach_ok {es : List (Nat × PositionView)} (hn : (es.map Prod.fst).Nodup) {u : Unit}
    (h : updateEach f es x = .ok u x') : x'.buckets = x.buckets ∧ x'.subPools = x.subPools ∧
      (∀ id, id ∉ es.map Prod.fst → x'.positions.get? id = x.positions.get? id) ∧
      ∀ e ∈ es, ∃ pos', f e.2 = .ok pos' ∧ x'.positions.get? e.1 = some pos' := by
  induction es generalizing x with
  | nil =>
    cases h
    exact ⟨rfl, rfl, fun _ _ => rfl, by simp⟩
  | cons e es ih =>
    rw [updateEach, orFail_bind_run_ok] at h
    obtain ⟨pos, hpos, h⟩ := h
    obtain ⟨hnot, hn⟩ := List.nodup_cons.mp hn
    obtain ⟨hb, hs, hother, hes⟩ := ih hn h
    refine ⟨hb, hs, fun id hid => ?_, fun e' he' => ?_⟩
    · simp only [List.map_cons, List.mem_cons, not_or] at hid
      rw [hother id hid.2]
      exact OrdMap.get?_insert_ne _ _ hid.1
    · cases he' with
      | head =>
        refine ⟨pos, hpos, ?_⟩
        rw [hother e.1 hnot]
        exact OrdMap.get?_insert_self _ _ _
      | tail _ he' => exact hes e' he'

theorem updateEach_error {es : List (Nat × PositionView)} (hn : (es.map Prod.fst).Nodup)
    (hes : ∀ e ∈ es, x.positions.get? e.1 = some e.2) {err : IndexerError}
    (h : updateEach f es x = .error err x') :
    ∃ e ∈ es, x'.positions.get? e.1 = some e.2 ∧ f e.2 = .error err := by
  induction es generalizing x with
  | nil => cases h
  | cons e es ih =>
    obtain ⟨hnot, hn⟩ := List.nodup_cons.mp hn
    unfold updateEach at h
    cases hf : f e.2 with
    | error err' =>
      rw [hf] at h
      cases h
      exact ⟨e, List.mem_cons_self, hes e List.mem_cons_self, hf⟩
    | ok pos =>
      rw [hf] at h
      have hrest : ∀ e' ∈ es, (x.positions.insert e.1 pos).get? e'.1 = some e'.2 := by
        intro e' he'
        rw [OrdMap.get?_insert_ne]
        · exact hes e' (List.mem_cons_of_mem _ he')
        · intro heq
          exact hnot (heq ▸ List.mem_map_of_mem he')
      obtain ⟨e', he', hx', hfe⟩ := ih hn hrest h
      exact ⟨e', List.mem_cons_of_mem _ he', hx', hfe⟩

theorem selected_nodup (x : IndexerState) (selects : PositionView → Bool) :
    ((x.positions.entries.filter (fun e => selects e.2)).map Prod.fst).Nodup :=
  x.positions.keys_nodup.sublist (List.filter_sublist.map _)

theorem forPositions_ok {u : Unit} (h : forPositions selects f x = .ok u x') :
    Updated selects f x x' := by
  obtain ⟨hb, hs, hother, hes⟩ := updateEach_ok (selected_nodup x selects) h
  refine ⟨hb, hs, fun id hid => ?_, fun id pos hid => ?_⟩
  · rw [hother id, hid]
    intro hmem
    obtain ⟨e, he, rfl⟩ := List.mem_map.mp hmem
    have := OrdMap.get?_eq_some.mpr (List.mem_filter.mp he).1
    rw [hid] at this
    cases this
  · by_cases hsel : selects pos = true
    · have hmem : (id, pos) ∈ x.positions.entries.filter (fun e => selects e.2) :=
        List.mem_filter.mpr ⟨OrdMap.get?_eq_some.mp hid, hsel⟩
      obtain ⟨pos', hf, hx'⟩ := hes _ hmem
      exact ⟨pos', hx', by rw [if_pos hsel]; exact hf⟩
    · refine ⟨pos, ?_, by rw [if_neg hsel]⟩
      rw [hother id, hid]
      intro hmem
      obtain ⟨e, he, rfl⟩ := List.mem_map.mp hmem
      obtain ⟨hmem, he⟩ := List.mem_filter.mp he
      have := OrdMap.get?_eq_some.mpr hmem
      rw [hid] at this
      cases this
      exact hsel he

theorem forPositions_error {err : IndexerError} (h : forPositions selects f x = .error err x') :
    ∃ id pos, x.positions.get? id = some pos ∧ x'.positions.get? id = some pos ∧
      selects pos = true ∧ f pos = .error err := by
  have hes : ∀ e ∈ x.positions.entries.filter (fun e => selects e.2),
      x.positions.get? e.1 = some e.2 :=
    fun e he => OrdMap.get?_eq_some.mpr (List.mem_filter.mp he).1
  obtain ⟨e, he, hx', hf⟩ := updateEach_error (selected_nodup x selects) hes h
  exact ⟨e.1, e.2, hes e he, hx', (List.mem_filter.mp he).2, hf⟩

theorem forPositions_meets {P Q : IndexerState → Prop} {E : IndexerError → IndexerState → Prop}
    (hok : ∀ x x', P x → Updated selects f x x' → Q x')
    (herror : ∀ x x' id pos e, P x → x.positions.get? id = some pos →
      x'.positions.get? id = some pos → selects pos = true → f pos = .error e → E e x') :
    Meets P (forPositions selects f) (fun _ => Q) E :=
  .intro (fun x _ x' hx h => hok x x' hx (forPositions_ok h)) fun x e x' hx h => by
    obtain ⟨id, pos, hid, hid', hsel, hf⟩ := forPositions_error h
    exact herror x x' id pos e hx hid hid' hsel hf

end Loops

section Updates
variable {pos pos' : PositionView}

theorem gain_ok {amount shares total : Nat} (h : gain amount shares total pos = .ok pos') :
    ∃ balance, pos' = { pos with realizedProfitBalance := balance } := by
  unfold gain at h
  obtain ⟨share, -, h⟩ := except_bind_ok.mp h
  obtain ⟨balance, -, h⟩ := except_bind_ok.mp h
  cases h
  exact ⟨balance, rfl⟩

theorem gain_error {amount shares total : Nat} {e : IndexerError} (h0 : total ≠ 0)
    (hle : shares ≤ total) (ht : total < u128Size) (ha : amount < u128Size)
    (h : gain amount shares total pos = .error e) :
    e = .mathOverflow ∧ u128Size ≤ pos.realizedProfitBalance + amount * shares / total := by
  have hpos := Nat.pos_of_ne_zero h0
  unfold gain at h
  rw [mulDivFloor_le ht hle hpos ha, orIndexer_ok, ok_bind] at h
  by_cases hfit : pos.realizedProfitBalance + amount * shares / total < u128Size
  · rw [checkedAdd_ok.mpr ⟨hfit, rfl⟩] at h
    cases h
  · refine ⟨?_, by omega⟩
    unfold checkedAdd at h
    rw [if_neg hfit] at h
    cases h
    rfl

theorem lose_of {outflow total : Nat} (h0 : total ≠ 0) (hle : pos.activeShares ≤ total)
    (ht : total < u128Size) (ha : outflow < u128Size) (hl : pos.lockedLoss ≤ pos.principal)
    (hp : pos.principal < u64Size) :
    ∃ balance locked, locked ≤ pos.principal ∧ lose outflow total pos = .ok { pos with
      realizedProfitBalance := balance
      lockedLoss := locked } := by
  unfold lose
  rw [mulDivFloor_le ht hle (Nat.pos_of_ne_zero h0) ha, orIndexer_ok, ok_bind]
  simp only [checkedSub_ok.mpr ⟨Nat.min_le_left _ _, rfl⟩,
    checkedSub_ok.mpr ⟨Nat.min_le_right pos.realizedProfitBalance _, rfl⟩, orIndexer_ok, ok_bind]
  have hlock : ∀ n, pos.lockedLoss + min n pos.remainingMargin ≤ pos.principal := by
    intro n
    unfold PositionView.remainingMargin
    omega
  have hfit : ∀ n, pos.lockedLoss + min n pos.remainingMargin < u128Size := by
    intro n
    have := hlock n
    unfold u64Size at hp
    unfold u128Size
    omega
  simp only [checkedAdd_ok.mpr ⟨hfit _, rfl⟩, orIndexer_ok, ok_bind]
  exact ⟨_, _, hlock _, rfl⟩

theorem migrateView_of {tick : Int} {generation : Nat}
    (h : pos.recoveryShares + pos.activeShares < u128Size) :
    migrateView tick generation pos = .ok { pos with
      recoveryShares := pos.recoveryShares + pos.activeShares
      recoveryBucketTick := some tick
      activeShares := 0
      activeGeneration := generation } := by
  unfold migrateView
  rw [checkedAdd_ok.mpr ⟨h, rfl⟩, orIndexer_ok, ok_bind]
  rfl

theorem activeIn_iff {sp generation : Nat} {d : Direction} :
    activeIn sp d generation pos = true ↔ pos.closed = false ∧ pos.subPoolId = sp ∧
      pos.direction = d ∧ pos.activeShares ≠ 0 ∧ pos.activeGeneration = generation := by
  simp [activeIn]

theorem dormantIn_iff {key : BucketKey} :
    dormantIn key pos = true ↔ pos.closed = false ∧ pos.subPoolId = key.subPoolId ∧
      pos.direction = key.direction ∧ pos.recoveryBucketTick = some key.tick ∧
      pos.recoveryShares ≠ 0 := by
  simp [dormantIn]

end Updates

section Steps
variable {sp : Nat} {side side' : Direction → Side} {books : Direction → BucketMap}
  {ps : Positions} {x x' : IndexerState} {credit : PositionView → Nat → Prop}

theorem Tracks.balance {y : Side} {p : Position} {pos : PositionView} (h : Tracks sp y p pos)
    (balance : Nat) {locked : Nat} (hl : locked ≤ pos.principal) :
    Tracks sp y p { pos with realizedProfitBalance := balance, lockedLoss := locked } :=
  { h with locked := hl }

/-- After a loop the records follow sides that every single turn follows. -/
theorem Mirrors.updated {selects : PositionView → Bool}
    {f : PositionView → Except IndexerError PositionView} {subPools : OrdMap Nat SubPoolView}
    (h : Mirrors sp side books ps x) (hu : Updated selects f { x with subPools := subPools } x')
    (hseries : ∀ d, (((subPools.get? sp).getD .default).series d).activeGeneration
      = (side' d).activeGeneration)
    (hf : ∀ id p pos, ps.get? id = some p → Tracks sp (side p.direction) p pos →
      (selects pos = true → ∀ pos', f pos = .ok pos' → Tracks sp (side' p.direction) p pos') ∧
      (selects pos ≠ true → Tracks sp (side' p.direction) p pos)) :
    Mirrors sp side' books ps x' where
  series := fun d => by rw [hu.subPools, hseries d]
  buckets := fun d tick => by rw [hu.buckets, h.buckets d tick]
  alone := fun key hkey => h.alone key (hu.buckets ▸ hkey)
  found := by
    intro id p hp
    obtain ⟨pos, hpos, ht⟩ := h.found id p hp
    obtain ⟨pos', hpos', hf'⟩ := hu.some id pos hpos
    obtain ⟨hsel, hnot⟩ := hf id p pos hp ht
    refine ⟨pos', hpos', ?_⟩
    split_ifs at hf' with hs
    · exact hsel hs pos' hf'
    · exact hf' ▸ hnot hs
  known := by
    intro id pos' hpos'
    cases hpos : x.positions.get? id with
    | none =>
      rw [hu.none id hpos] at hpos'
      cases hpos'
    | some pos => exact h.known id pos hpos

theorem forPositions_mirrors {selects : PositionView → Bool}
    {f : PositionView → Except IndexerError PositionView}
    (hok : ∀ id p pos pos', ps.get? id = some p → Tracks sp (side p.direction) p pos →
      selects pos = true → f pos = .ok pos' → ∃ balance locked, locked ≤ pos.principal ∧
        pos' = { pos with realizedProfitBalance := balance, lockedLoss := locked })
    (herror : ∀ id p pos e, ps.get? id = some p → Tracks sp (side p.direction) p pos →
      selects pos = true → f pos = .error e → e = .mathOverflow ∧
        ∃ share, credit pos share ∧ u128Size ≤ pos.realizedProfitBalance + share) :
    Meets (Mirrors sp side books ps) (forPositions selects f)
      (fun _ => Mirrors sp side books ps) (Full credit) := by
  refine forPositions_meets (fun x x' hx hu => ?_) (fun x x' id pos e hx hid hid' hsel hf => ?_)
  · refine hx.updated hu hx.series (fun id p pos hp ht => ⟨fun hsel pos' hf => ?_, fun _ => ht⟩)
    obtain ⟨balance, locked, hl, rfl⟩ := hok id p pos pos' hp ht hsel hf
    exact ht.balance balance hl
  · obtain ⟨p, hp⟩ := hx.known id pos hid
    obtain ⟨pos', hpos', ht⟩ := hx.found id p hp
    rw [hid] at hpos'
    cases hpos'
    obtain ⟨he, share, hshare⟩ := herror id p pos e hp ht hsel hf
    exact ⟨he, id, pos, share, hid', hshare⟩

theorem subPoolMut_mirrors {E : IndexerError → IndexerState → Prop} :
    Meets (Mirrors sp side books ps) (subPoolMut sp)
      (fun view x => Mirrors sp side books ps x ∧ x.subPools.get? sp = some view) E := by
  intro x hx
  unfold subPoolMut
  cases hg : x.subPools.get? sp with
  | some view => exact ⟨hx, hg⟩
  | none =>
    refine ⟨{ hx with series := fun d => ?_ }, OrdMap.get?_insert_self _ _ _⟩
    rw [OrdMap.get?_insert_self, ← hx.series d, hg]
    rfl

theorem forActive_mirrors {reason : String} {f : PositionView → Except IndexerError PositionView}
    {d : Direction} {before : Nat} (h0 : before ≠ 0)
    (hok : ∀ id p pos pos', ps.get? id = some p → p.direction = d → Tracks sp (side d) p pos →
      f pos = .ok pos' → ∃ balance locked, locked ≤ pos.principal ∧
        pos' = { pos with realizedProfitBalance := balance, lockedLoss := locked })
    (herror : ∀ id p pos e, ps.get? id = some p → p.direction = d → Tracks sp (side d) p pos →
      activeIn sp d (side d).activeGeneration pos = true → f pos = .error e → e = .mathOverflow ∧
        ∃ share, credit pos share ∧ u128Size ≤ pos.realizedProfitBalance + share) :
    Meets (Mirrors sp side books ps) (forActive reason f sp d before)
      (fun _ => Mirrors sp side books ps) (Full credit) := by
  refine .orFail_bind (fun _ _ => ?_) (fun e he => by simp [ensure_of h0] at he)
  refine .bind subPoolMut_mirrors fun view x hx => ?_
  have hgen : (view.series d).activeGeneration = (side d).activeGeneration := by
    have hseries := hx.1.series d
    rwa [hx.2] at hseries
  have hdir : ∀ {p : Position} {pos : PositionView} {generation : Nat},
      Tracks sp (side p.direction) p pos → activeIn sp d generation pos = true →
        p.direction = d ∧ Tracks sp (side d) p pos := by
    intro p pos generation ht hsel
    have hd : p.direction = d := ht.direction.symm.trans (activeIn_iff.mp hsel).2.2.1
    exact ⟨hd, hd ▸ ht⟩
  refine forPositions_mirrors (fun id p pos pos' hp ht hsel hf => ?_)
    (fun id p pos e hp ht hsel hf => ?_) x hx.1
  · obtain ⟨hd, ht⟩ := hdir ht hsel
    exact hok id p pos pos' hp hd ht hf
  · obtain ⟨hd, ht⟩ := hdir ht hsel
    exact herror id p pos e hp hd ht (hgen ▸ hsel) hf

variable {d : Direction} (ha : Attributed d (side d) ps)
include ha

theorem Tracks.active_le {id : Nat} {p : Position} {pos : PositionView}
    (ht : Tracks sp (side d) p pos) (hp : ps.get? id = some p) (hd : p.direction = d) :
    pos.activeShares ≤ (side d).activeShares := by
  rw [ht.active, ha.shares]
  exact le_sumOn _ hp hd

theorem syncActive_mirrors {inflow : Nat} (hlt : inflow < u128Size)
    (h0 : 0 < inflow → (side d).activeShares ≠ 0)
    (hcredit : ∀ pos, activeIn sp d (side d).activeGeneration pos = true →
      credit pos (inflow * pos.activeShares / (side d).activeShares)) :
    Meets (Mirrors sp side books ps) (syncActive sp d inflow (side d).activeShares)
      (fun _ => Mirrors sp side books ps) (Full credit) := by
  refine .ite (fun hpos => forActive_mirrors (h0 hpos) (fun id p pos pos' hp hd ht hf => ?_)
    (fun id p pos e hp hd ht hsel hf => ?_)) (fun _ => .pure fun _ hx => hx)
  · obtain ⟨balance, rfl⟩ := gain_ok hf
    exact ⟨balance, pos.lockedLoss, ht.locked, rfl⟩
  · obtain ⟨he, hfull⟩ := gain_error (h0 hpos) (ht.active_le ha hp hd) ha.active_lt hlt hf
    exact ⟨he, _, hcredit pos hsel, hfull⟩

theorem syncLoss_mirrors {outflow : Nat} (hlt : outflow < u128Size)
    (h0 : 0 < outflow → (side d).activeShares ≠ 0) :
    Meets (Mirrors sp side books ps) (syncLoss sp d outflow (side d).activeShares)
      (fun _ => Mirrors sp side books ps) (Full credit) := by
  have hlose : ∀ {id : Nat} {p : Position} {pos : PositionView}, 0 < outflow →
      ps.get? id = some p → p.direction = d → Tracks sp (side d) p pos →
      ∃ balance locked, locked ≤ pos.principal ∧
        lose outflow (side d).activeShares pos = .ok { pos with
          realizedProfitBalance := balance
          lockedLoss := locked } :=
    fun hpos hp hd ht => lose_of (h0 hpos) (ht.active_le ha hp hd) ha.active_lt hlt ht.locked
      ht.principal_lt
  refine .ite (fun hpos => forActive_mirrors (h0 hpos) (fun id p pos pos' hp hd ht hf => ?_)
    (fun id p pos e hp hd ht _ hf => ?_)) (fun _ => .pure fun _ hx => hx)
  · obtain ⟨balance, locked, hl, hok⟩ := hlose hpos hp hd ht
    rw [hok] at hf
    cases hf
    exact ⟨balance, locked, hl, rfl⟩
  · obtain ⟨balance, locked, -, hok⟩ := hlose hpos hp hd ht
    rw [hok] at hf
    cases hf

end Steps

theorem intrinsicAt_of {b : DormantBucket} {v : BucketView} {p i : Nat}
    (hd : v.direction = b.direction) (ha : v.anchorPrice = b.anchorPrice)
    (hn : v.totalRecoveryNotional = b.totalRecoveryNotional)
    (h : b.intrinsicClaimAt p = .ok i) : v.intrinsicAt p = .ok i := by
  unfold DormantBucket.intrinsicClaimAt computeIntrinsic at h
  unfold BucketView.intrinsicAt
  rw [hd, ha, hn]
  by_cases h0 : b.anchorPrice = 0 ∨ b.totalRecoveryNotional = 0
  · rw [if_pos h0] at h ⊢
    cases h
    rfl
  rw [if_neg h0] at h ⊢
  cases hdir : b.direction with
  | long =>
    simp only [hdir] at h ⊢
    by_cases hp : p ≤ b.anchorPrice
    · rw [if_pos hp] at h ⊢
      cases h
      rfl
    · rw [if_neg hp] at h ⊢
      rw [math_ok.mp h, orIndexer_ok]
  | short =>
    simp only [hdir] at h ⊢
    by_cases hp : b.anchorPrice ≤ p
    · rw [if_pos hp] at h ⊢
      cases h
      rfl
    · rw [if_neg hp] at h ⊢
      rw [math_ok.mp h, orIndexer_ok]

theorem outstandingAt_toView {d : Direction} {b : DormantBucket} {p o : Nat}
    (hd : b.direction = d) (h : b.outstandingClaimAt p = .ok o) :
    (b.toView d).outstandingAt p = .ok o := by
  obtain ⟨i, hi, h⟩ := except_bind_ok.mp h
  cases h
  have hview : (b.toView d).intrinsicAt p = .ok i := intrinsicAt_of hd.symm rfl rfl hi
  rw [BucketView.outstandingAt, hview, ok_bind]
  rfl

theorem bucketKey_lt {sp : Nat} {d : Direction} {t t' : Int} (h : t < t') :
    bucketKey sp d t < bucketKey sp d t' :=
  Prod.Lex.toLex_lt_toLex.mpr (.inr ⟨rfl, Prod.Lex.toLex_lt_toLex.mpr (.inr ⟨rfl, h⟩)⟩)

/-- The buckets the indexer iterates over are those of the book, in its order. -/
theorem Mirrors.entries {sp : Nat} {side : Direction → Side} {books : Direction → BucketMap}
    {ps : Positions} {x : IndexerState} (h : Mirrors sp side books ps x) (d : Direction) :
    x.buckets.entries.filter (fun e => e.1.subPoolId = sp ∧ e.1.direction = d)
      = (books d).entries.map (fun e => (bucketKey sp d e.1, e.2.toView d)) := by
  apply OrdMap.entries_ext
  · exact x.buckets.sorted.filter _
  · exact List.pairwise_map.mpr ((books d).sorted.imp bucketKey_lt)
  rintro ⟨key, view⟩
  simp only [List.mem_filter, List.mem_map, ← OrdMap.get?_eq_some, decide_eq_true_eq, Prod.exists,
    Prod.mk.injEq]
  constructor
  · rintro ⟨hview, rfl, rfl⟩
    rw [← BucketKey.bucketKey_eta key, h.buckets] at hview
    obtain ⟨b, hb, rfl⟩ := Option.map_eq_some_iff.mp hview
    exact ⟨key.tick, b, hb, BucketKey.bucketKey_eta key, rfl⟩
  · rintro ⟨tick, b, hb, rfl, rfl⟩
    refine ⟨?_, rfl, rfl⟩
    rw [h.buckets, hb]
    rfl

def claims (sp : Nat) (d : Direction) (p : Nat) (es : List (Int × DormantBucket)) :
    List (BucketKey × Nat) :=
  (es.filter (fun e => activated d p e.2.anchorPrice ∧ valueOr0 (e.2.outstandingClaimAt p) ≠ 0)).map
    (fun e => (bucketKey sp d e.1, valueOr0 (e.2.outstandingClaimAt p)))

theorem collectOutstanding_of {sp : Nat} {d : Direction} {buckets : BucketMap} {p total t : Nat}
    {es : List (Int × DormantBucket)}
    (hes : ∀ e ∈ es, buckets.get? e.1 = some e.2 ∧ e.2.direction = d)
    (h : sumOutstanding buckets p total
      ((es.filter (fun e => activated d p e.2.anchorPrice)).map Prod.fst) = .ok t) :
    collectOutstanding d p (es.map (fun e => (bucketKey sp d e.1, e.2.toView d))) total
      = .ok (claims sp d p es, t) := by
  induction es generalizing total with
  | nil =>
    cases h
    rfl
  | cons e es ih =>
    obtain ⟨hget, hdir⟩ := hes e List.mem_cons_self
    have hes' := fun e' he' => hes e' (List.mem_cons_of_mem _ he')
    rw [List.map_cons, collectOutstanding]
    by_cases hact : activated d p e.2.anchorPrice = true
    · have hfirst : (e :: es).filter (fun e => activated d p e.2.anchorPrice)
          = e :: es.filter (fun e => activated d p e.2.anchorPrice) :=
        List.filter_cons_of_pos hact
      rw [hfirst, List.map_cons, sumOutstanding, except_bind_ok] at h
      obtain ⟨next, hn, h⟩ := h
      unfold addOutstanding at hn
      simp only [hget] at hn
      obtain ⟨o, ho, hn⟩ := except_bind_ok.mp hn
      have hview := outstandingAt_toView hdir ho
      have hact' : activated d p (e.2.toView d).anchorPrice = true := hact
      rw [if_pos hact', hview, ok_bind]
      by_cases h0 : o = 0
      · rw [if_pos h0]
        have hnext : next = total := by
          obtain ⟨-, rfl⟩ := math_add_ok.mp hn
          rw [h0, Nat.add_zero]
        rw [hnext] at h
        rw [ih hes' h, claims, claims, List.filter_cons_of_neg]
        simp [ho, h0]
      · rw [if_neg h0, math_ok.mp hn, orIndexer_ok, ok_bind, ih hes' h, ok_bind, claims, claims,
          List.filter_cons_of_pos, List.map_cons, ho, valueOr0_ok]
        · rfl
        · simp [hact, ho, h0]
    · have hrest : (e :: es).filter (fun e => activated d p e.2.anchorPrice)
          = es.filter (fun e => activated d p e.2.anchorPrice) :=
        List.filter_cons_of_neg hact
      rw [hrest] at h
      have hact' : ¬ activated d p (e.2.toView d).anchorPrice = true := hact
      rw [if_neg hact', ih hes' h, claims, claims, List.filter_cons_of_neg]
      simp [hact]

section Buckets
variable {sp : Nat} {side : Direction → Side} {books : Direction → BucketMap}
  {ps : Positions} {x : IndexerState} {d : Direction} {tick : Int} {b : DormantBucket}
  {credit : PositionView → Nat → Prop}

theorem Mirrors.setBuckets (h : Mirrors sp side books ps x) {m : OrdMap BucketKey BucketView}
    {v : BucketMap} (hset : ∀ t, m.get? (bucketKey sp d t) = (v.get? t).map (·.toView d))
    (hother : ∀ key, key.subPoolId ≠ sp ∨ key.direction ≠ d → m.get? key = x.buckets.get? key) :
    Mirrors sp side (Function.update books d v) ps { x with buckets := m } :=
  { h with
    buckets := by
      intro e t
      by_cases he : e = d
      · rw [he, Function.update_self]
        exact hset t
      · rw [Function.update_of_ne he, ← h.buckets e t]
        exact hother _ (.inr he)
    alone := by
      intro key hkey
      by_contra hsp
      exact hsp (h.alone key (hother key (.inl hsp) ▸ hkey)) }

theorem bucketKey_ne {key : BucketKey} (h : key.subPoolId ≠ sp ∨ key.direction ≠ d) :
    key ≠ bucketKey sp d tick := by
  rintro rfl
  simp at h

theorem Mirrors.insert (h : Mirrors sp side books ps x) (b : DormantBucket) :
    Mirrors sp side (Function.update books d ((books d).insert tick b)) ps
      { x with buckets := x.buckets.insert (bucketKey sp d tick) (b.toView d) } := by
  refine h.setBuckets (fun t => ?_) (fun key hkey => OrdMap.get?_insert_ne _ _ (bucketKey_ne hkey))
  simp only [OrdMap.get?_insert, BucketKey.bucketKey_inj, true_and, h.buckets]
  split_ifs <;> rfl

theorem Mirrors.erase (h : Mirrors sp side books ps x) :
    Mirrors sp side (Function.update books d ((books d).erase tick)) ps
      { x with buckets := x.buckets.erase (bucketKey sp d tick) } := by
  refine h.setBuckets (fun t => ?_) (fun key hkey => ?_)
  · simp only [OrdMap.get?_erase, BucketKey.bucketKey_inj, true_and, h.buckets]
    split_ifs <;> rfl
  · rw [OrdMap.get?_erase, if_neg (bucketKey_ne hkey)]

/-- The positions of a bucket have their parts of its shares. -/
structure Backed (d : Direction) (x : Side) (ps : Positions) (tick : Int) (b : DormantBucket) :
    Prop where
  direction : b.direction = d
  shares : b.totalRecoveryShares ≠ 0
  shares_lt : b.totalRecoveryShares < u128Size
  part : ∀ id p, ps.get? id = some p → p.direction = d → x.bucketOf p = some tick →
    x.dormantOf p ≤ b.totalRecoveryShares

theorem creditBucket_mirrors {a o t : Nat} (hb : (books d).get? tick = some b)
    (hbacked : Backed d (side d) ps tick b) (ht0 : t ≠ 0) (ht : t < u128Size) (ho : o ≤ t)
    (ha : a < u128Size) (hfit : b.accruedValue + min (a * o / t) o < u128Size)
    (hcredit : ∀ pos, dormantIn (bucketKey sp d tick) pos = true →
      credit pos (min (a * o / t) o * pos.recoveryShares / b.totalRecoveryShares)) :
    Meets (Mirrors sp side books ps) (creditBucket a t (bucketKey sp d tick) o)
      (fun _ => Mirrors sp side (Function.update books d ((books d).insert tick
        { b with accruedValue := b.accruedValue + min (a * o / t) o })) ps) (Full credit) := by
  have hshare : min (a * o / t) o ≤ a := by
    refine (Nat.min_le_left _ _).trans (Nat.div_le_of_le_mul ?_)
    rw [Nat.mul_comm t]
    exact Nat.mul_le_mul_left a ho
  unfold creditBucket
  rw [mulDivFloor_le ht ho (Nat.pos_of_ne_zero ht0) ha, orIndexer_ok]
  refine .ite (fun h0 => .pure fun x hx => ?_) (fun h0 => .get_bind fun x hx => ?_)
  · rw [h0, Nat.add_zero]
    have hself : (books d).insert tick b = books d := OrdMap.insert_get?_self hb
    rw [hself, Function.update_eq_self]
    exact hx
  rw [hx.buckets, hb]
  refine .ite (fun hz => absurd hz hbacked.shares) (fun _ => ?_)
  refine Meets.bind ((forPositions_mirrors (fun id p pos pos' hp htr hsel hf => ?_)
    (fun id p pos e hp htr hsel hf => ?_)).weaken fun y (hy : y = x) => hy ▸ hx) fun _ => ?_
  · obtain ⟨balance, rfl⟩ := gain_ok hf
    exact ⟨balance, pos.lockedLoss, htr.locked, rfl⟩
  · obtain ⟨-, -, hd, htick, h0r⟩ := dormantIn_iff.mp hsel
    have hpd : p.direction = d := htr.direction.symm.trans hd
    rw [hpd] at htr
    have hle : pos.recoveryShares ≤ b.totalRecoveryShares := by
      rw [htr.recovery]
      exact hbacked.part id p hp hpd ((htr.tick h0r).symm.trans htick)
    obtain ⟨he, hfull⟩ := gain_error hbacked.shares hle hbacked.shares_lt (hshare.trans_lt ha) hf
    exact ⟨he, _, hcredit pos hsel, hfull⟩
  · have hadd : checkedAdd (b.toView d).accruedValue (min (a * o / t) o)
        = .ok (b.accruedValue + min (a * o / t) o) := checkedAdd_ok.mpr ⟨hfit, rfl⟩
    rw [hadd]
    exact fun y hy => hy.insert _

theorem share_of {v : Book} {p a t o : Nat} (hact : activated v.direction p b.anchorPrice = true)
    (ho : b.outstandingClaimAt p = .ok o) (ht0 : t ≠ 0) (ht : t < u128Size) (hle : o ≤ t)
    (ha : a < u128Size) : v.share p a t b = min (a * o / t) o := by
  rw [Book.share, if_pos hact, shareOf, bucketShare, ho, ok_bind]
  unfold distributionShare
  split_ifs with h0
  · rw [h0, Nat.min_zero]
    rfl
  · rw [mulDivFloor_le ht hle (Nat.pos_of_ne_zero ht0) ha]
    rfl

theorem creditBuckets_mirrors {v : Book} {p a t : Nat} (hd : v.direction = d)
    (hbacked : ∀ tick b, v.buckets.get? tick = some b → Backed d (side d) ps tick b)
    (hclaim : ∀ tick b, v.buckets.get? tick = some b → activated d p b.anchorPrice = true →
      ∃ o, b.outstandingClaimAt p = .ok o ∧ o ≤ t)
    (hfit : ∀ tick b, v.buckets.get? tick = some b →
      b.accruedValue + v.share p a t b < u128Size)
    (ht0 : t ≠ 0) (ht : t < u128Size) (ha : a < u128Size)
    (hcredit : ∀ tick b o pos, v.buckets.get? tick = some b → b.outstandingClaimAt p = .ok o →
      dormantIn (bucketKey sp d tick) pos = true →
      credit pos (min (a * o / t) o * pos.recoveryShares / b.totalRecoveryShares))
    {es : List (Int × DormantBucket)} (hn : (es.map Prod.fst).Nodup)
    (hes : ∀ e ∈ es, v.buckets.get? e.1 = some e.2 ∧ (books d).get? e.1 = some e.2) :
    Meets (Mirrors sp side books ps) (creditBuckets a t (claims sp d p es))
      (fun _ => Mirrors sp side (Function.update books d ((books d).adjust (es.map Prod.fst)
        (fun b => { b with accruedValue := b.accruedValue + v.share p a t b }))) ps)
      (Full credit) := by
  induction es generalizing books with
  | nil =>
    intro x hx
    simp only [List.map_nil, OrdMap.adjust_nil, Function.update_eq_self]
    exact hx
  | cons e es ih =>
    obtain ⟨hnot, hn⟩ := List.nodup_cons.mp hn
    obtain ⟨hv, hb⟩ := hes e List.mem_cons_self
    have hes' := fun e' he' => hes e' (List.mem_cons_of_mem _ he')
    rw [List.map_cons, ← OrdMap.adjust_cons _ hb hnot]
    by_cases hc : activated d p e.2.anchorPrice = true ∧ valueOr0 (e.2.outstandingClaimAt p) ≠ 0
    · obtain ⟨o, ho, hle⟩ := hclaim e.1 e.2 hv hc.1
      have hshare : v.share p a t e.2 = min (a * o / t) o :=
        share_of (hd ▸ hc.1) ho ht0 ht hle ha
      have hfirst : claims sp d p (e :: es) = (bucketKey sp d e.1, o) :: claims sp d p es := by
        rw [claims, List.filter_cons_of_pos (by simpa using hc), List.map_cons, ho, valueOr0_ok]
        rfl
      rw [hfirst, creditBuckets]
      refine Meets.bind (creditBucket_mirrors hb (hbacked e.1 e.2 hv) ht0 ht hle ha
        (hshare ▸ hfit e.1 e.2 hv) fun pos => hcredit e.1 e.2 o pos hv ho) fun _ => ?_
      rw [← hshare]
      have hrest : ∀ e' ∈ es, v.buckets.get? e'.1 = some e'.2 ∧
          ((Function.update books d ((books d).insert e.1 { e.2 with
            accruedValue := e.2.accruedValue + v.share p a t e.2 })) d).get? e'.1 = some e'.2 := by
        intro e' he'
        rw [Function.update_self, OrdMap.get?_insert_ne]
        · exact hes' e' he'
        · intro heq
          exact hnot (heq ▸ List.mem_map_of_mem he')
      have hih := ih hn hrest
      rw [Function.update_self, Function.update_idem] at hih
      exact hih
    · have hzero : v.share p a t e.2 = 0 := by
        by_cases hact : activated d p e.2.anchorPrice = true
        · obtain ⟨o, ho, hle⟩ := hclaim e.1 e.2 hv hact
          have h0 : o = 0 := by simpa [hact, ho] using hc
          rw [share_of (hd ▸ hact) ho ht0 ht hle ha, h0, Nat.min_zero]
        · rw [Book.share, if_neg (by rw [hd]; exact hact)]
      have hrest : claims sp d p (e :: es) = claims sp d p es := by
        rw [claims, claims, List.filter_cons_of_neg (by simpa using hc)]
      have hself : (books d).insert e.1 { e.2 with
          accruedValue := e.2.accruedValue + v.share p a t e.2 } = books d := by
        rw [hzero, Nat.add_zero]
        exact OrdMap.insert_get?_self hb
      rw [hself, hrest]
      exact ih hn hes'

theorem adjust_entries (v : Book) (p a t : Nat) :
    v.buckets.adjust (v.buckets.entries.map Prod.fst)
      (fun b => { b with accruedValue := b.accruedValue + v.share p a t b })
        = (v.credit p a t).buckets := by
  refine OrdMap.mapVal_congr fun tick b hb => if_pos ?_
  exact List.mem_map_of_mem (OrdMap.get?_eq_some.mp hb)

theorem Mirrors.collect {v : Book} {p t : Nat} (h : Mirrors sp side books ps x)
    (hv : v.buckets = books d) (hd : v.direction = d)
    (hdir : ∀ tick b, v.buckets.get? tick = some b → b.direction = d)
    (ht : v.totalOutstanding p = .ok t) :
    collectOutstanding d p (x.buckets.entries.filter
      (fun e => e.1.subPoolId = sp ∧ e.1.direction = d)) 0
        = .ok (claims sp d p v.buckets.entries, t) := by
  have hclaims : sumOutstanding v.buckets p 0 (activatedKeys d v.buckets p) = .ok t := hd ▸ ht
  rw [h.entries d, ← hv]
  refine collectOutstanding_of (fun e he => ?_) hclaims
  have hget := OrdMap.get?_eq_some.mpr he
  exact ⟨hget, hdir _ _ hget⟩

theorem syncRecovery_mirrors {v v' : Book} {p a toRecovery residual : Nat}
    {r : DistributionReceipt} (hv : v.buckets = books d) (hd : v.direction = d)
    (hbacked : ∀ tick b, v.buckets.get? tick = some b → Backed d (side d) ps tick b)
    (hdist : Book.distribute p a v = .ok r v') (hfunds : v'.funds < u128Size)
    (hsum : toRecovery + residual = a) (hlt : a < u128Size)
    (hcredit : ∀ t tick b o pos, v.totalOutstanding p = .ok t → v.buckets.get? tick = some b →
      b.outstandingClaimAt p = .ok o → dormantIn (bucketKey sp d tick) pos = true →
      credit pos (min (a * o / t) o * pos.recoveryShares / b.totalRecoveryShares)) :
    Meets (Mirrors sp side books ps) (syncRecovery sp d toRecovery residual p)
      (fun _ => Mirrors sp side (Function.update books d v'.buckets) ps) (Full credit) := by
  have hidle : v' = v → ∀ x, Mirrors sp side books ps x →
      Mirrors sp side (Function.update books d v'.buckets) ps x := by
    rintro rfl x hx
    rw [hv, Function.update_eq_self]
    exact hx
  unfold Book.distribute at hdist
  by_cases ha : a = 0
  · rw [if_pos ha] at hdist
    cases hdist
    exact .ite (fun hpos => by omega) (fun _ => .pure (hidle rfl))
  rw [if_neg ha] at hdist
  cases ht : v.totalOutstanding p with
  | error e =>
    rw [ht] at hdist
    cases hdist
  | ok t =>
  have hclaims : sumOutstanding v.buckets p 0 (activatedKeys d v.buckets p) = .ok t := hd ▸ ht
  have ht_lt := (sumOutstanding_bounds hclaims).2 (by norm_num [u128Size])
  refine .ite (fun _ => ?_) (fun hpos => by omega)
  have hadd : checkedAdd toRecovery residual = .ok a := checkedAdd_ok.mpr ⟨by omega, hsum.symm⟩
  rw [hadd]
  refine .orFail_bind (fun total htotal => ?_) (fun e he => by cases he)
  cases htotal
  unfold distributeRecoveryProfit
  refine .get_bind fun x hx => ?_
  rw [hx.collect hv hd (fun tick b hb => (hbacked tick b hb).direction) ht]
  by_cases h0 : t = 0
  · simp only [ht, h0, if_true] at hdist
    cases hdist
    exact .ite (fun _ => .pure fun y hy => hidle rfl y (hy ▸ hx)) (fun hne => absurd h0 hne)
  simp only [ht, h0, if_false] at hdist
  cases hdist
  refine .ite (fun hz => absurd hz h0) (fun _ => ?_)
  have hall : (books d).adjust (v.buckets.entries.map Prod.fst)
      (fun b => { b with accruedValue := b.accruedValue + v.share p a t b })
        = (v.credit p a t).buckets := hv ▸ adjust_entries v p a t
  rw [← hall]
  refine Meets.weaken (creditBuckets_mirrors hd hbacked
    (fun tick b hb hact => sumOutstanding_mem hclaims ((mem_activatedKeys_of d p hb).mpr hact) hb)
    (fun tick b hb => ?_) h0 ht_lt hlt (fun tick b o pos => hcredit t tick b o pos ht)
    v.buckets.keys_nodup
      (fun e he => ⟨OrdMap.get?_eq_some.mpr he, hv ▸ OrdMap.get?_eq_some.mpr he⟩))
    fun y hy => hy ▸ hx
  · have hb' : (v.credit p a t).buckets.get? tick
        = some { b with accruedValue := b.accruedValue + v.share p a t b } := by
      simp only [Book.credit, OrdMap.get?_mapVal, hb, Option.map_some]
    exact (OrdMap.le_sum (fun _ (b : DormantBucket) => b.accruedValue) hb').trans_lt hfunds

end Buckets

end Indexer
end MoleFinance
