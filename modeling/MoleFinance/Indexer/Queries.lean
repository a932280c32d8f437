import MoleFinance.Indexer.Records

/-! What the indexer answers about a sub-pool. Every answer depends on the part of the indexer that
belongs to the sub-pool only, and is read off the positions and the books of the engine. -/
namespace MoleFinance
open MoleMath Call

structure DormantBucketSnapshot where
  subPoolId : Nat
  direction : Direction
  bucketTick : Int
  anchorPrice : Nat
  totalRecoveryShares : Nat
  totalRecoveryNotional : Nat
  accruedValue : Nat
deriving DecidableEq

structure DirectionStats where
  activePositionCount : Nat
  activePrincipal : Nat
  activeNotional : Nat
  activeRealizedProfit : Nat
  activeLockedLoss : Nat
  dormantPositionCount : Nat
  dormantRecoveryShares : Nat
  dormantTotalNotional : Nat
  dormantAccruedValue : Nat
  dormantBucketCount : Nat
deriving DecidableEq

structure SubPoolStats where
  subPoolId : Nat
  long : DirectionStats
  short : DirectionStats
  longActiveGeneration : Nat
  shortActiveGeneration : Nat
deriving DecidableEq

def saturatingAdd (size a b : Nat) : Nat := min (a + b) (size - 1)

namespace DirectionStats

def default : DirectionStats := ⟨0, 0, 0, 0, 0, 0, 0, 0, 0, 0⟩

def addActive (st : DirectionStats) (pos : PositionView) : DirectionStats :=
  { st with
    activePositionCount := saturatingAdd u64Size st.activePositionCount 1
    activePrincipal := saturatingAdd u128Size st.activePrincipal pos.principal
    activeNotional := saturatingAdd u128Size st.activeNotional pos.notional
    activeRealizedProfit :=
      saturatingAdd u128Size st.activeRealizedProfit pos.realizedProfitBalance
    activeLockedLoss := saturatingAdd u128Size st.activeLockedLoss pos.lockedLoss }

def addDormant (st : DirectionStats) (pos : PositionView) : DirectionStats :=
  { st with
    dormantPositionCount := saturatingAdd u64Size st.dormantPositionCount 1
    dormantRecoveryShares := saturatingAdd u128Size st.dormantRecoveryShares pos.recoveryShares }

def addBucket (st : DirectionStats) (bucket : BucketView) : DirectionStats :=
  { st with
    dormantTotalNotional :=
      saturatingAdd u128Size st.dormantTotalNotional bucket.totalRecoveryNotional
    dormantAccruedValue := saturatingAdd u128Size st.dormantAccruedValue bucket.accruedValue
    dormantBucketCount := saturatingAdd (2 ^ 32) st.dormantBucketCount 1 }

/-- An open position counts as active when its shares are of the current generation, and as dormant
    when it has recovery shares. -/
def addPosition (currentGen : Nat) (st : DirectionStats) (pos : PositionView) : DirectionStats :=
  let st :=
    if 0 < pos.activeShares ∧ pos.activeGeneration = currentGen then st.addActive pos else st
  if 0 < pos.recoveryShares then st.addDormant pos else st

end DirectionStats

namespace SubPoolStats

def side (st : SubPoolStats) : Direction → DirectionStats
  | .long => st.long
  | .short => st.short

def setSide (st : SubPoolStats) (direction : Direction) (x : DirectionStats) : SubPoolStats :=
  match direction with
  | .long => { st with long := x }
  | .short => { st with short := x }

def generation (st : SubPoolStats) : Direction → Nat
  | .long => st.longActiveGeneration
  | .short => st.shortActiveGeneration

@[simp] theorem side_setSide (st : SubPoolStats) (d e : Direction) (x : DirectionStats) :
    (st.setSide d x).side e = if e = d then x else st.side e := by
  cases d <;> cases e <;> rfl

@[simp] theorem subPoolId_setSide (st : SubPoolStats) (d : Direction) (x : DirectionStats) :
    (st.setSide d x).subPoolId = st.subPoolId := by
  cases d <;> rfl

@[simp] theorem generation_setSide (st : SubPoolStats) (d e : Direction) (x : DirectionStats) :
    (st.setSide d x).generation e = st.generation e := by
  cases d <;> cases e <;> rfl

end SubPoolStats

namespace IndexerState

def statPosition (subPoolId : Nat) (sp : SubPoolView) (st : SubPoolStats)
    (e : Nat × PositionView) : SubPoolStats :=
  if e.2.subPoolId ≠ subPoolId ∨ e.2.closed = true then st
  else st.setSide e.2.direction ((st.side e.2.direction).addPosition
    (sp.series e.2.direction).activeGeneration e.2)

def statBucket (subPoolId : Nat) (st : SubPoolStats) (e : BucketKey × BucketView) :
    SubPoolStats :=
  if e.1.subPoolId ≠ subPoolId then st
  else st.setSide e.1.direction ((st.side e.1.direction).addBucket e.2)

def subPoolStats (x : IndexerState) (subPoolId : Nat) : Option SubPoolStats :=
  (x.subPools.get? subPoolId).map fun sp =>
    x.buckets.entries.foldl (statBucket subPoolId)
      (x.positions.entries.foldl (statPosition subPoolId sp)
        { subPoolId := subPoolId
          long := .default
          short := .default
          longActiveGeneration := sp.long.activeGeneration
          shortActiveGeneration := sp.short.activeGeneration })

def bucketSnapshot (e : BucketKey × BucketView) : DormantBucketSnapshot where
  subPoolId := e.1.subPoolId
  direction := e.1.direction
  bucketTick := e.1.tick
  anchorPrice := e.2.anchorPrice
  totalRecoveryShares := e.2.totalRecoveryShares
  totalRecoveryNotional := e.2.totalRecoveryNotional
  accruedValue := e.2.accruedValue

def snapshotLe (a b : DormantBucketSnapshot) : Bool :=
  decide (a.direction < b.direction ∨ (a.direction = b.direction ∧ a.bucketTick ≤ b.bucketTick))

def dormantInventory (x : IndexerState) (subPoolId : Nat) : Option (List DormantBucketSnapshot) :=
  if x.subPools.contains subPoolId = true then
    some (((x.buckets.entries.filter (fun e => e.1.subPoolId = subPoolId)).map
      bucketSnapshot).mergeSort snapshotLe)
  else none

def sumProjected (subPoolId : Nat) (direction : Direction) (pNow : Nat) :
    Nat → List (BucketKey × BucketView) → Except IndexerError Nat
  | total, [] => return total
  | total, (key, bucket) :: rest =>
    if key.subPoolId ≠ subPoolId ∨ key.direction ≠ direction then
      sumProjected subPoolId direction pNow total rest
    else if activated direction pNow bucket.anchorPrice = true then do
      let outstanding ← bucket.outstandingAt pNow
      let total ← orIndexer (checkedAdd total outstanding)
      sumProjected subPoolId direction pNow total rest
    else sumProjected subPoolId direction pNow total rest

/-- The claims of the activated buckets at a price that may never come. -/
def projectedRecoveryOutstanding (x : IndexerState) (subPoolId : Nat) (direction : Direction)
    (pNow : Nat) : Except IndexerError Nat :=
  sumProjected subPoolId direction pNow 0 x.buckets.entries

section Only
variable {x : IndexerState} {sp : Nat}

theorem foldl_skip {α β : Type} {f : β → α → β} {keep : α → Bool}
    (h : ∀ b a, keep a = false → f b a = b) (as : List α) (b : β) :
    (as.filter keep).foldl f b = as.foldl f b := by
  induction as generalizing b with
  | nil => rfl
  | cons a as ih =>
    cases hk : keep a with
    | false => rw [List.filter_cons_of_neg (by simp [hk]), List.foldl_cons, h b a hk, ih]
    | true => rw [List.filter_cons_of_pos hk, List.foldl_cons, List.foldl_cons, ih]

theorem subPoolStats_only : (x.only sp).subPoolStats sp = x.subPoolStats sp := by
  have hbuckets : ∀ st, (x.only sp).buckets.entries.foldl (statBucket sp) st
      = x.buckets.entries.foldl (statBucket sp) st := by
    refine foldl_skip (fun st e he => ?_) _
    exact if_pos (of_decide_eq_false he)
  have hpositions : ∀ view st, (x.only sp).positions.entries.foldl (statPosition sp view) st
      = x.positions.entries.foldl (statPosition sp view) st := by
    intro view
    refine foldl_skip (fun st e he => ?_) _
    exact if_pos (.inl (of_decide_eq_false he))
  simp only [subPoolStats, get?_subPools_only, hbuckets, hpositions]

theorem dormantInventory_only : (x.only sp).dormantInventory sp = x.dormantInventory sp := by
  have hall : (x.only sp).buckets.entries.filter (fun e => e.1.subPoolId = sp)
      = x.buckets.entries.filter (fun e => e.1.subPoolId = sp) := by
    simp only [only, OrdMap.filter, List.filter_filter, Bool.and_self]
  simp only [dormantInventory, OrdMap.contains, get?_subPools_only, hall]
  rfl

theorem sumProjected_filter {d : Direction} {keep : BucketKey × BucketView → Bool}
    (h : ∀ e, keep e = false → e.1.subPoolId ≠ sp ∨ e.1.direction ≠ d) (p : Nat)
    (es : List (BucketKey × BucketView)) (total : Nat) :
    sumProjected sp d p total (es.filter keep) = sumProjected sp d p total es := by
  induction es generalizing total with
  | nil => rfl
  | cons e es ih =>
    obtain ⟨key, bucket⟩ := e
    cases hk : keep (key, bucket) with
    | true =>
      rw [List.filter_cons_of_pos hk]
      unfold sumProjected
      simp only [ih]
    | false =>
      rw [List.filter_cons_of_neg (by simp [hk]), ih]
      conv_rhs => unfold sumProjected
      rw [if_pos (h _ hk)]

theorem projected_only (d : Direction) (p : Nat) :
    (x.only sp).projectedRecoveryOutstanding sp d p = x.projectedRecoveryOutstanding sp d p :=
  sumProjected_filter (fun _ he => .inl (of_decide_eq_false he)) p x.buckets.entries 0

end Only

theorem foldl_saturating {α β : Type} {f : β → Nat} {g : α → Nat} {size : Nat} {step : β → α → β}
    (h : ∀ b a, f b ≤ size - 1 → f (step b a) = saturatingAdd size (f b) (g a)) (as : List α)
    {b : β} (hb : f b ≤ size - 1) :
    f (as.foldl step b) = saturatingAdd size (f b) (as.map g).sum := by
  induction as generalizing b with
  | nil => simp [saturatingAdd, hb]
  | cons a as ih =>
    have hstep := h b a hb
    unfold saturatingAdd at hstep ih ⊢
    rw [List.foldl_cons, ih (by omega), hstep, List.map_cons, List.sum_cons]
    omega

theorem foldl_keeps {α β γ : Type} {f : β → γ} {step : β → α → β}
    (h : ∀ b a, f (step b a) = f b) (as : List α) (b : β) : f (as.foldl step b) = f b := by
  induction as generalizing b with
  | nil => rfl
  | cons a as ih => rw [List.foldl_cons, ih, h]

theorem subPoolStats_head {x : IndexerState} {sp : Nat} {st : SubPoolStats}
    (h : x.subPoolStats sp = some st) : ∃ view, x.subPools.get? sp = some view ∧
      st.subPoolId = sp ∧ ∀ d, st.generation d = (view.series d).activeGeneration := by
  obtain ⟨view, hview, rfl⟩ := Option.map_eq_some_iff.mp h
  have hposition : ∀ (st : SubPoolStats) (e : Nat × PositionView),
      (statPosition sp view st e).subPoolId = st.subPoolId ∧
      ∀ d, (statPosition sp view st e).generation d = st.generation d := by
    intro st e
    unfold statPosition
    split_ifs <;> simp
  have hbucket : ∀ (st : SubPoolStats) (e : BucketKey × BucketView),
      (statBucket sp st e).subPoolId = st.subPoolId ∧
      ∀ d, (statBucket sp st e).generation d = st.generation d := by
    intro st e
    unfold statBucket
    split_ifs <;> simp
  refine ⟨view, hview, ?_, fun d => ?_⟩
  · rw [foldl_keeps (fun st e => (hbucket st e).1), foldl_keeps (fun st e => (hposition st e).1)]
  · rw [foldl_keeps (f := fun st : SubPoolStats => st.generation d)
        (fun st e => (hbucket st e).2 d),
      foldl_keeps (f := fun st : SubPoolStats => st.generation d)
        (fun st e => (hposition st e).2 d)]
    cases d <;> rfl

/-- A field of the statistics counts something of every open position, or of every bucket. -/
structure Counts (size : Nat) (f : DirectionStats → Nat) (ofPosition : Nat → PositionView → Nat)
    (ofBucket : BucketView → Nat) : Prop where
  start : f .default = 0
  position : ∀ gen st pos, f st ≤ size - 1 →
    f (st.addPosition gen pos) = saturatingAdd size (f st) (ofPosition gen pos)
  bucket : ∀ st v, f st ≤ size - 1 → f (st.addBucket v) = saturatingAdd size (f st) (ofBucket v)

def isActive (gen : Nat) (pos : PositionView) : Prop :=
  0 < pos.activeShares ∧ pos.activeGeneration = gen

instance (gen : Nat) (pos : PositionView) : Decidable (isActive gen pos) :=
  inferInstanceAs (Decidable (_ ∧ _))

def totalOfPositions (x : IndexerState) (sp : Nat) (d : Direction) (f : PositionView → Nat) : Nat :=
  x.positions.sum (fun _ pos =>
    if pos.subPoolId = sp ∧ pos.closed = false ∧ pos.direction = d then f pos else 0)

def totalOfBuckets (x : IndexerState) (sp : Nat) (d : Direction) (f : BucketView → Nat) : Nat :=
  x.buckets.sum (fun key v => if key.subPoolId = sp ∧ key.direction = d then f v else 0)

theorem Counts.total {size : Nat} {f : DirectionStats → Nat} {ofPosition : Nat → PositionView → Nat}
    {ofBucket : BucketView → Nat} (h : Counts size f ofPosition ofBucket) {x : IndexerState}
    {sp : Nat} {st : SubPoolStats} {view : SubPoolView} (hview : x.subPools.get? sp = some view)
    (hst : x.subPoolStats sp = some st) (d : Direction) :
    f (st.side d) = min (x.totalOfPositions sp d (ofPosition (view.series d).activeGeneration)
      + x.totalOfBuckets sp d ofBucket) (size - 1) := by
  have hposition : ∀ (st : SubPoolStats) (e : Nat × PositionView), f (st.side d) ≤ size - 1 →
      f ((statPosition sp view st e).side d) = saturatingAdd size (f (st.side d))
        (if e.2.subPoolId = sp ∧ e.2.closed = false ∧ e.2.direction = d
          then ofPosition (view.series d).activeGeneration e.2 else 0) := by
    intro st e hle
    unfold statPosition
    by_cases hskip : e.2.subPoolId ≠ sp ∨ e.2.closed = true
    · rw [if_pos hskip, if_neg (by rintro ⟨h1, h2, -⟩; simp [h1, h2] at hskip), saturatingAdd]
      omega
    · obtain ⟨hsp, hopen⟩ := not_or.mp hskip
      rw [if_neg hskip, SubPoolStats.side_setSide]
      by_cases hd : d = e.2.direction
      · rw [if_pos hd, if_pos ⟨not_not.mp hsp, by simpa using hopen, hd.symm⟩, ← hd]
        exact h.position _ _ _ hle
      · rw [if_neg hd, if_neg (by rintro ⟨-, -, h3⟩; exact hd h3.symm), saturatingAdd]
        omega
  have hbucket : ∀ (st : SubPoolStats) (e : BucketKey × BucketView), f (st.side d) ≤ size - 1 →
      f ((statBucket sp st e).side d) = saturatingAdd size (f (st.side d))
        (if e.1.subPoolId = sp ∧ e.1.direction = d then ofBucket e.2 else 0) := by
    intro st e hle
    unfold statBucket
    by_cases hsp : e.1.subPoolId = sp
    · rw [if_neg (not_not.mpr hsp), SubPoolStats.side_setSide]
      by_cases hd : d = e.1.direction
      · rw [if_pos hd, if_pos ⟨hsp, hd.symm⟩, ← hd]
        exact h.bucket _ _ hle
      · rw [if_neg hd, if_neg (by rintro ⟨-, h2⟩; exact hd h2.symm), saturatingAdd]
        omega
    · rw [if_pos hsp, if_neg (by rintro ⟨h1, -⟩; exact hsp h1), saturatingAdd]
      omega
  rw [subPoolStats, hview] at hst
  cases hst
  have hstart : ∀ st : SubPoolStats, st.side d = .default → f (st.side d) = 0 := by
    intro st hst
    rw [hst, h.start]
  have hzero := hstart ⟨sp, .default, .default, view.long.activeGeneration,
    view.short.activeGeneration⟩ (by cases d <;> rfl)
  have hfirst := foldl_saturating (f := fun st : SubPoolStats => f (st.side d)) hposition
    x.positions.entries (hzero.trans_le (Nat.zero_le _))
  rw [hzero, saturatingAdd, Nat.zero_add] at hfirst
  have hlast := foldl_saturating (f := fun st : SubPoolStats => f (st.side d)) hbucket
    x.buckets.entries (hfirst.trans_le (Nat.min_le_right _ _))
  rw [hfirst, saturatingAdd] at hlast
  refine hlast.trans ?_
  simp only [totalOfPositions, totalOfBuckets, OrdMap.sum]
  omega

section Shapes
variable {size : Nat} {f : DirectionStats → Nat} {g : PositionView → Nat} {v : BucketView → Nat}

theorem Counts.ofActive (h0 : f .default = 0)
    (ha : ∀ st pos, f (st.addActive pos) = saturatingAdd size (f st) (g pos))
    (hd : ∀ st pos, f (st.addDormant pos) = f st) (hb : ∀ st v, f (st.addBucket v) = f st) :
    Counts size f (fun gen pos => if isActive gen pos then g pos else 0) (fun _ => 0) where
  start := h0
  position gen st pos hle := by
    have hnone : saturatingAdd size (f st) 0 = f st := by simp [saturatingAdd, hle]
    simp only [DirectionStats.addPosition]
    by_cases hact : 0 < pos.activeShares ∧ pos.activeGeneration = gen
    · rw [if_pos hact, if_pos (show isActive gen pos from hact)]
      split_ifs <;> simp only [ha, hd]
    · rw [if_neg hact, if_neg (show ¬ isActive gen pos from hact), hnone]
      split_ifs <;> simp only [hd]
  bucket st v hle := by simp [hb, saturatingAdd, hle]

theorem Counts.ofDormant (h0 : f .default = 0)
    (ha : ∀ st pos, f (st.addActive pos) = f st)
    (hd : ∀ st pos, f (st.addDormant pos) = saturatingAdd size (f st) (g pos))
    (hb : ∀ st v, f (st.addBucket v) = f st) :
    Counts size f (fun _ pos => if 0 < pos.recoveryShares then g pos else 0) (fun _ => 0) where
  start := h0
  position gen st pos hle := by
    unfold DirectionStats.addPosition
    split_ifs <;> simp [ha, hd, saturatingAdd, hle]
  bucket st v hle := by simp [hb, saturatingAdd, hle]

theorem Counts.ofBuckets (h0 : f .default = 0) (ha : ∀ st pos, f (st.addActive pos) = f st)
    (hd : ∀ st pos, f (st.addDormant pos) = f st)
    (hb : ∀ st b, f (st.addBucket b) = saturatingAdd size (f st) (v b)) :
    Counts size f (fun _ _ => 0) v where
  start := h0
  position gen st pos hle := by
    unfold DirectionStats.addPosition
    split_ifs <;> simp [ha, hd, saturatingAdd, hle]
  bucket st b _ := hb st b

end Shapes

end IndexerState

end MoleFinance
