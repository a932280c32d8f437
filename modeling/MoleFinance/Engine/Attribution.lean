import MoleFinance.Engine.World

/-! Which position every share of a side belongs to. A position that was not migrated keeps
active shares of an older generation; its rotate record names the bucket they went to. -/
namespace MoleFinance
open MoleMath Call

namespace Side

/-- Shares of a position in the current active series. -/
def activeOf (x : Side) (p : Position) : Nat :=
  if p.activeGeneration = x.activeGeneration then p.activeShares else 0

def notionalOf (x : Side) (p : Position) : Nat :=
  if p.activeGeneration = x.activeGeneration ∧ p.activeShares ≠ 0 then p.notional else 0

def rotatedInto (x : Side) (p : Position) : Option Int :=
  if p.activeGeneration = x.activeGeneration then none
  else (x.findRotateRecord p.activeGeneration).map (·.bucketTick)

/-- Shares of a position in the bucket at a tick, migrated or not. -/
def recoveryAt (x : Side) (tick : Int) (p : Position) : Nat :=
  (if p.recoveryBucketTick = some tick then p.recoveryShares else 0)
    + if x.rotatedInto p = some tick then p.activeShares else 0

end Side

abbrev Positions := OrdMap Nat Position

def sumOn (d : Direction) (f : Position → Nat) (ps : Positions) : Nat :=
  ps.sum (fun _ p => if p.direction = d then f p else 0)

theorem sumOn_congr {d : Direction} {f g : Position → Nat} {ps : Positions}
    (h : ∀ k p, ps.get? k = some p → p.direction = d → f p = g p) :
    sumOn d f ps = sumOn d g ps := by
  apply OrdMap.sum_congr
  intro k p hk
  split_ifs with hd
  · exact h k p hk hd
  · rfl

theorem sumOn_add (d : Direction) (f g : Position → Nat) (ps : Positions) :
    sumOn d (fun p => f p + g p) ps = sumOn d f ps + sumOn d g ps := by
  rw [sumOn, sumOn, sumOn, ← OrdMap.sum_add]
  apply OrdMap.sum_congr
  intro k p _
  split_ifs <;> rfl

theorem sumOn_zero {d : Direction} {f : Position → Nat} {ps : Positions}
    (h : ∀ k p, ps.get? k = some p → p.direction = d → f p = 0) : sumOn d f ps = 0 := by
  rw [sumOn, OrdMap.sum_zero_iff]
  intro k p hk
  split_ifs with hd
  · exact h k p hk hd
  · rfl

theorem le_sumOn {d : Direction} (f : Position → Nat) {ps : Positions} {k : Nat} {p : Position}
    (hk : ps.get? k = some p) (hd : p.direction = d) : f p ≤ sumOn d f ps := by
  have := OrdMap.le_sum (fun _ (p : Position) => if p.direction = d then f p else 0) hk
  rwa [if_pos hd] at this

theorem add_le_sumOn {d : Direction} (f : Position → Nat) {ps : Positions} {j k : Nat}
    {p q : Position} (hj : ps.get? j = some p) (hk : ps.get? k = some q) (hne : j ≠ k)
    (hp : p.direction = d) (hq : q.direction = d) : f p + f q ≤ sumOn d f ps := by
  have := OrdMap.add_le_sum (fun _ (p : Position) => if p.direction = d then f p else 0) hj hk hne
  rwa [if_pos hp, if_pos hq] at this

theorem sumOn_insert_old {d : Direction} (f : Position → Nat) {ps : Positions} {k : Nat}
    {p p' : Position} (hk : ps.get? k = some p) (hd : p.direction = d) (hd' : p'.direction = d) :
    sumOn d f (ps.insert k p') + f p = sumOn d f ps + f p' := by
  have := OrdMap.sum_insert_old (fun _ (p : Position) => if p.direction = d then f p else 0) p' hk
  rwa [if_pos hd, if_pos hd'] at this

theorem sumOn_insert_new {d : Direction} (f : Position → Nat) {ps : Positions} {k : Nat}
    {p : Position} (hk : ps.get? k = none) (hd : p.direction = d) :
    sumOn d f (ps.insert k p) = sumOn d f ps + f p := by
  have := OrdMap.sum_insert_new (fun _ (p : Position) => if p.direction = d then f p else 0) p hk
  rwa [if_pos hd] at this

theorem sumOn_insert_other {d : Direction} (f : Position → Nat) {ps : Positions} {k : Nat}
    {p' : Position} (hk : ∀ p, ps.get? k = some p → p.direction ≠ d) (hd : p'.direction ≠ d) :
    sumOn d f (ps.insert k p') = sumOn d f ps := by
  unfold sumOn
  cases hg : ps.get? k with
  | none =>
    rw [OrdMap.sum_insert_new _ _ hg, if_neg hd, Nat.add_zero]
  | some p =>
    have := OrdMap.sum_insert_old
      (fun _ (p : Position) => if p.direction = d then f p else 0) p' hg
    rwa [if_neg (hk p hg), if_neg hd, Nat.add_zero, Nat.add_zero] at this

/-- The aggregates of a side are sums over positions. -/
structure Attributed (d : Direction) (x : Side) (ps : Positions) : Prop where
  log : x.rotateLog.map (·.generationJustEnded) = List.range x.activeGeneration
  older : ∀ k p, ps.get? k = some p → p.direction = d → p.activeGeneration ≤ x.activeGeneration
  shares : x.activeShares = sumOn d x.activeOf ps
  notional : x.activeNotional = sumOn d x.notionalOf ps
  recovery : ∀ tick, x.dormant.holdings.sharesAt tick = sumOn d (x.recoveryAt tick) ps
  total : x.recoveryShares = x.dormant.holdings.total
  total_lt : x.recoveryShares < u128Size
  active_lt : x.activeShares < u128Size
  notional_lt : x.activeNotional < u128Size
  stocked : x.dormant.holdings.Stocked

structure SameShares (x x' : Side) : Prop where
  log : x'.rotateLog = x.rotateLog
  generation : x'.activeGeneration = x.activeGeneration
  shares : x'.activeShares = x.activeShares
  notional : x'.activeNotional = x.activeNotional
  recovery : x'.recoveryShares = x.recoveryShares
  holdings : x'.dormant.holdings = x.dormant.holdings

namespace SameShares

theorem refl (x : Side) : SameShares x x := ⟨rfl, rfl, rfl, rfl, rfl, rfl⟩

end SameShares

section Claims
variable {x x' : Side} (hg : x'.activeGeneration = x.activeGeneration)
include hg

theorem activeOf_congr : x'.activeOf = x.activeOf := by
  funext p
  simp only [Side.activeOf, hg]

theorem notionalOf_congr : x'.notionalOf = x.notionalOf := by
  funext p
  simp only [Side.notionalOf, hg]

variable (hl : x'.rotateLog = x.rotateLog)
include hl

theorem rotatedInto_congr : x'.rotatedInto = x.rotatedInto := by
  funext p
  simp only [Side.rotatedInto, Side.findRotateRecord, hg, hl]

theorem recoveryAt_congr (tick : Int) : x'.recoveryAt tick = x.recoveryAt tick := by
  funext p
  simp only [Side.recoveryAt, rotatedInto_congr hg hl]

end Claims

namespace Attributed

theorem of_same {d : Direction} {x x' : Side} {ps : Positions} (h : Attributed d x ps)
    (hs : SameShares x x') : Attributed d x' ps where
  log := by rw [hs.log, hs.generation, h.log]
  older := by
    rw [hs.generation]
    exact h.older
  shares := by rw [hs.shares, activeOf_congr hs.generation, h.shares]
  notional := by rw [hs.notional, notionalOf_congr hs.generation, h.notional]
  recovery := by
    intro tick
    rw [hs.holdings, recoveryAt_congr hs.generation hs.log, h.recovery]
  total := by rw [hs.recovery, hs.holdings, h.total]
  total_lt := by
    rw [hs.recovery]
    exact h.total_lt
  active_lt := by
    rw [hs.shares]
    exact h.active_lt
  notional_lt := by
    rw [hs.notional]
    exact h.notional_lt
  stocked := by
    rw [hs.holdings]
    exact h.stocked

theorem other {d : Direction} {x : Side} {ps : Positions} (h : Attributed d x ps) {k : Nat}
    {p' : Position} (hk : ∀ p, ps.get? k = some p → p.direction ≠ d) (hd : p'.direction ≠ d) :
    Attributed d x (ps.insert k p') where
  log := h.log
  older := by
    intro j q hj hq
    rw [OrdMap.get?_insert] at hj
    split_ifs at hj
    · cases hj
      exact absurd hq hd
    · exact h.older j q hj hq
  shares := by rw [sumOn_insert_other _ hk hd, h.shares]
  notional := by rw [sumOn_insert_other _ hk hd, h.notional]
  recovery := by
    intro tick
    rw [sumOn_insert_other _ hk hd, h.recovery]
  total := h.total
  total_lt := h.total_lt
  active_lt := h.active_lt
  notional_lt := h.notional_lt
  stocked := h.stocked

theorem replace {d : Direction} {x x' : Side} {ps : Positions} (h : Attributed d x ps) {k : Nat}
    {p p' : Position} (hk : ps.get? k = some p) (hd : p.direction = d) (hd' : p'.direction = d)
    (hlog : x'.rotateLog = x.rotateLog) (hgen : x'.activeGeneration = x.activeGeneration)
    (hle : p'.activeGeneration ≤ x.activeGeneration)
    (hshares : x'.activeShares + x.activeOf p = x.activeShares + x.activeOf p')
    (hnotional : x'.activeNotional + x.notionalOf p = x.activeNotional + x.notionalOf p')
    (hrecovery : ∀ tick, x'.dormant.holdings.sharesAt tick + x.recoveryAt tick p
      = x.dormant.holdings.sharesAt tick + x.recoveryAt tick p')
    (htotal : x'.recoveryShares = x'.dormant.holdings.total)
    (htotal_lt : x'.recoveryShares < u128Size) (hactive_lt : x'.activeShares < u128Size)
    (hnotional_lt : x'.activeNotional < u128Size) (hstocked : x'.dormant.holdings.Stocked) :
    Attributed d x' (ps.insert k p') where
  log := by rw [hlog, hgen, h.log]
  older := by
    intro j q hj hq
    rw [hgen]
    rw [OrdMap.get?_insert] at hj
    split_ifs at hj
    · cases hj
      exact hle
    · exact h.older j q hj hq
  shares := by
    rw [activeOf_congr hgen]
    have := sumOn_insert_old x.activeOf hk hd hd'
    have := h.shares
    omega
  notional := by
    rw [notionalOf_congr hgen]
    have := sumOn_insert_old x.notionalOf hk hd hd'
    have := h.notional
    omega
  recovery := by
    intro tick
    rw [recoveryAt_congr hgen hlog]
    have := sumOn_insert_old (x.recoveryAt tick) hk hd hd'
    have := h.recovery tick
    have := hrecovery tick
    omega
  total := htotal
  total_lt := htotal_lt
  active_lt := hactive_lt
  notional_lt := hnotional_lt
  stocked := hstocked

theorem relabel {d : Direction} {x : Side} {ps : Positions} (h : Attributed d x ps) {k : Nat}
    {p p' : Position} (hk : ps.get? k = some p) (hd : p.direction = d) (hd' : p'.direction = d)
    (hle : p'.activeGeneration ≤ x.activeGeneration) (hshares : x.activeOf p' = x.activeOf p)
    (hnotional : x.notionalOf p' = x.notionalOf p)
    (hrecovery : ∀ tick, x.recoveryAt tick p' = x.recoveryAt tick p) :
    Attributed d x (ps.insert k p') :=
  h.replace hk hd hd' rfl rfl hle (by rw [hshares]) (by rw [hnotional])
    (fun tick => by rw [hrecovery]) h.total h.total_lt h.active_lt h.notional_lt h.stocked

end Attributed

theorem find_of_range {log : List RotateRecord} {n g : Nat}
    (h : log.map (·.generationJustEnded) = List.range n) (hg : g < n) :
    ∃ r, log.filter (fun r => r.generationJustEnded = g) = [r] := by
  have hl := congrArg (fun l => (l.filter (· = g)).length) h
  simp only [List.filter_map, List.length_map] at hl
  have hc : ((List.range n).filter (· = g)).length = 1 := by
    have := List.count_eq_one_of_mem List.nodup_range (List.mem_range.mpr hg)
    rw [List.count_eq_length_filter] at this
    exact this
  rw [hc] at hl
  exact List.length_eq_one_iff.mp hl

theorem findRotateRecord_some {d : Direction} {x : Side} {ps : Positions} (h : Attributed d x ps)
    {g : Nat} (hg : g < x.activeGeneration) : ∃ r, x.findRotateRecord g = some r ∧
      x.rotateLog.filter (fun r => r.generationJustEnded = g) = [r] := by
  obtain ⟨r, hr⟩ := find_of_range h.log hg
  refine ⟨r, ?_, hr⟩
  rw [Side.findRotateRecord, ← List.head?_filter, hr]
  rfl

theorem findRotateRecord_none {d : Direction} {x : Side} {ps : Positions} (h : Attributed d x ps) :
    x.findRotateRecord x.activeGeneration = none := by
  rw [Side.findRotateRecord, List.find?_eq_none]
  intro r hr
  have hm : r.generationJustEnded ∈ x.rotateLog.map (·.generationJustEnded) :=
    List.mem_map_of_mem hr
  rw [h.log, List.mem_range] at hm
  simp only [decide_eq_true_eq]
  omega

theorem findRotateRecord_rotated {d : Direction} {x x' : Side} {ps : Positions}
    (h : Attributed d x ps) {tick : Int} {price : Nat}
    (hl : x'.rotateLog = x.rotateLog ++ [⟨x.activeGeneration, tick, price⟩]) {g : Nat}
    (hle : g ≤ x.activeGeneration) : x'.findRotateRecord g =
      if g = x.activeGeneration then some ⟨x.activeGeneration, tick, price⟩
      else x.findRotateRecord g := by
  have hnone := findRotateRecord_none h
  rw [Side.findRotateRecord] at hnone
  rw [Side.findRotateRecord, hl, List.find?_append]
  split_ifs with hc
  · rw [hc, hnone]
    simp
  · obtain ⟨r, hr, -⟩ := findRotateRecord_some h (by omega : g < _)
    rw [Side.findRotateRecord] at hr
    rw [Side.findRotateRecord, hr]
    rfl

/-- After a rotation the active shares of a position are in the bucket of the new record. -/
theorem recoveryAt_rotated {d : Direction} {x x' : Side} {ps : Positions} (h : Attributed d x ps)
    {tick : Int} {price : Nat}
    (hl : x'.rotateLog = x.rotateLog ++ [⟨x.activeGeneration, tick, price⟩])
    (hg : x'.activeGeneration = x.activeGeneration + 1) {p : Position}
    (hle : p.activeGeneration ≤ x.activeGeneration) (j : Int) :
    x'.recoveryAt j p = x.recoveryAt j p + if j = tick then x.activeOf p else 0 := by
  have hne : p.activeGeneration ≠ x'.activeGeneration := by omega
  have hfind := findRotateRecord_rotated h hl hle
  simp only [Side.recoveryAt, Side.rotatedInto, if_neg hne, hfind, Side.activeOf]
  by_cases hc : p.activeGeneration = x.activeGeneration
  · simp only [hc, if_true, Option.map_some, Option.some.injEq, reduceCtorEq, if_false]
    by_cases hj : j = tick
    · simp [hj]
    · simp [hj, Ne.symm hj]
  · simp [hc]

theorem Attributed.rotated {d : Direction} {market : MarketParams} {price : Nat} {x x' : Side}
    {ps : Positions} (h : Attributed d x ps) (hi : x.dormant.Inv) (h0 : 0 < x.activeShares)
    (hr : Rotated market price x x') : Attributed d x' ps := by
  obtain ⟨tick, dormant, -, hd, hlt, -, rfl⟩ := hr
  have he := DormantStore.insertOrMerge_effect hi hd
  have hnew : ∀ k p, ps.get? k = some p → p.direction = d →
      p.activeGeneration ≠ x.activeGeneration + 1 := by
    intro k p hk hp
    have := h.older k p hk hp
    omega
  refine ⟨?_, ?_, ?_, ?_, ?_, ?_, hlt, by norm_num [u128Size], by norm_num [u128Size], ?_⟩
  · simp only [List.map_append, h.log, List.map_cons, List.map_nil, List.range_succ]
  · intro k p hk hp
    exact (h.older k p hk hp).trans (Nat.le_succ _)
  · refine (sumOn_zero fun k p hk hp => ?_).symm
    exact if_neg (hnew k p hk hp)
  · refine (sumOn_zero fun k p hk hp => ?_).symm
    exact if_neg (fun hc => hnew k p hk hp hc.1)
  · intro j
    simp only [he.holdings_eq, Holdings.sharesAt_join]
    rw [sumOn_congr (g := fun p => x.recoveryAt j p + if j = tick then x.activeOf p else 0)
      (fun k p hk hp => recoveryAt_rotated h rfl rfl (h.older k p hk hp) j), sumOn_add,
      ← h.recovery j]
    congr 1
    split_ifs
    · exact h.shares
    · exact (sumOn_zero fun _ _ _ _ => rfl).symm
  · simp only [he.holdings_eq, Holdings.total_join, h.total]
  · simp only [he.holdings_eq]
    have hn := he.notional_lt h.notional_lt
    rw [he.holdings_eq] at hn
    exact Holdings.stocked_join h.stocked h0 hn

end MoleFinance
