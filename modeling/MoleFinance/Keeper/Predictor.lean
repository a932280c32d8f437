import MoleFinance.Engine.Sync
import MoleFinance.Engine.World
import MoleFinance.Lib.Queue

/-! What the rotate-risk predictor is fed: the window of oracle samples behind its volatility, and
the tick of the bucket a rotation would use. -/
namespace MoleFinance
open MoleMath Call Queue

structure PriceSample where
  price : Nat
  slot : Nat
deriving DecidableEq

/-- The bounds of the window; the rest is about the estimate. -/
structure RealizedVolatilityEstimatorConfig where
  maxSamples : Nat
  maxAgeSlots : Nat
deriving DecidableEq

structure RealizedVolatilityEstimator where
  config : RealizedVolatilityEstimatorConfig
  samples : List PriceSample
deriving DecidableEq

def trimFront {α : Type} (max : Nat) : List α → List α
  | [] => []
  | a :: as => if max < (a :: as).length then trimFront max as else a :: as

namespace RealizedVolatilityEstimator

def new (config : RealizedVolatilityEstimatorConfig) : RealizedVolatilityEstimator := ⟨config, []⟩

/-- A sample that comes too late, or again. -/
def isStale (e : RealizedVolatilityEstimator) (sample : PriceSample) : Bool :=
  match e.samples.getLast? with
  | none => false
  | some last => decide (sample.slot ≤ last.slot)

def record (e : RealizedVolatilityEstimator) (sample : PriceSample) :
    RealizedVolatilityEstimator :=
  if e.isStale sample = true then e
  else if sample.price = 0 then e
  else
    let samples := e.samples ++ [sample]
    let cutoff := sample.slot - e.config.maxAgeSlots
    let samples := samples.dropWhile (fun front => decide (front.slot < cutoff))
    { e with samples := trimFront e.config.maxSamples samples }

def accepts (e : RealizedVolatilityEstimator) (sample : PriceSample) : Bool :=
  !e.isStale sample && sample.price != 0

def recordAll (e : RealizedVolatilityEstimator) (history : List PriceSample) :
    RealizedVolatilityEstimator := history.foldl record e

def accepted (e : RealizedVolatilityEstimator) : List PriceSample → List PriceSample
  | [] => []
  | sample :: later =>
    if e.accepts sample = true then sample :: (e.record sample).accepted later
    else (e.record sample).accepted later

end RealizedVolatilityEstimator

/-- At most so many samples, none too old for the newest one. -/
def RealizedVolatilityEstimatorConfig.Bounds (config : RealizedVolatilityEstimatorConfig)
    (newest : Nat) (window : List PriceSample) : Prop :=
  (∀ sample ∈ window, newest - config.maxAgeSlots ≤ sample.slot) ∧
    window.length ≤ config.maxSamples

def newestSlot (window : List PriceSample) : Nat := (window.getLast?.map (·.slot)).getD 0

theorem trimFront_eq {α : Type} (max : Nat) (as : List α) :
    trimFront max as = as.drop (as.length - max) := by
  induction as with
  | nil => simp [trimFront]
  | cons a as ih =>
    rw [trimFront]
    split_ifs with h
    · have hlen : (a :: as).length - max = as.length - max + 1 := by
        rw [List.length_cons] at h ⊢
        omega
      rw [ih, hlen, List.drop_succ_cons]
    · have hlen : (a :: as).length - max = 0 := by omega
      rw [hlen, List.drop_zero]

namespace RealizedVolatilityEstimator
variable {e : RealizedVolatilityEstimator} {sample : PriceSample} {history : List PriceSample}

theorem record_dropped (h : ¬ e.accepts sample = true) : e.record sample = e := by
  unfold record
  split_ifs with hstale hzero
  · rfl
  · rfl
  · exact absurd (by simp [accepts, hstale, hzero]) h

theorem record_accepted (h : e.accepts sample = true) : e.record sample =
    { e with
      samples := trimFront e.config.maxSamples ((e.samples ++ [sample]).dropWhile
        (fun front => decide (front.slot < sample.slot - e.config.maxAgeSlots))) } := by
  simp only [accepts, Bool.and_eq_true, Bool.not_eq_true', bne_iff_ne] at h
  unfold record
  rw [if_neg (by simp [h.1]), if_neg h.2]

@[simp] theorem record_config : (e.record sample).config = e.config := by
  unfold record
  split_ifs <;> rfl

theorem recordAll_concat (e : RealizedVolatilityEstimator) (history : List PriceSample)
    (sample : PriceSample) :
    e.recordAll (history ++ [sample]) = (e.recordAll history).record sample := by
  rw [recordAll, List.foldl_append]
  rfl

theorem accepted_concat (e : RealizedVolatilityEstimator) (history : List PriceSample)
    (sample : PriceSample) : e.accepted (history ++ [sample]) = e.accepted history ++
      if (e.recordAll history).accepts sample = true then [sample] else [] := by
  induction history generalizing e with
  | nil =>
    simp only [List.nil_append, accepted, recordAll, List.foldl_nil]
    rfl
  | cons first history ih =>
    simp only [List.cons_append, accepted, ih, recordAll, List.foldl_cons]
    split_ifs <;> rfl

structure Windowed (e : RealizedVolatilityEstimator) (kept : List PriceSample) : Prop where
  increasing : kept.Pairwise (·.slot < ·.slot)
  positive : ∀ sample ∈ kept, 0 < sample.price
  newest : e.samples.getLast? = kept.getLast?
  window : Longest (e.config.Bounds (newestSlot kept)) kept e.samples

theorem new_windowed (config : RealizedVolatilityEstimatorConfig) : (new config).Windowed [] where
  increasing := .nil
  positive := by simp
  newest := rfl
  window := ⟨List.suffix_rfl, ⟨by simp [new], Nat.zero_le _⟩, fun t ht _ => ht⟩

theorem Windowed.accepts_iff {kept : List PriceSample} (h : e.Windowed kept) :
    e.accepts sample = true ↔ 0 < sample.price ∧
      ∀ last ∈ kept.getLast?, last.slot < sample.slot := by
  unfold accepts isStale
  rw [h.newest]
  cases kept.getLast? with
  | none => simp [Nat.pos_iff_ne_zero]
  | some last =>
    simp [Nat.pos_iff_ne_zero, and_comm]

theorem Windowed.lt_sample {kept : List PriceSample} (h : e.Windowed kept)
    (ha : e.accepts sample = true) : ∀ s ∈ kept, s.slot < sample.slot := by
  intro s hs
  have hlast := (h.accepts_iff.mp ha).2
  cases hk : kept.getLast? with
  | none =>
    rw [List.getLast?_eq_none_iff.mp hk] at hs
    cases hs
  | some last =>
    have hlt := hlast last hk
    obtain ⟨init, rfl⟩ := List.getLast?_eq_some_iff.mp hk
    cases List.mem_append.mp hs with
    | inl hinit =>
      have hle := (List.pairwise_append.mp h.increasing).2.2 s hinit last (by simp)
      exact hle.trans hlt
    | inr hself => exact List.mem_singleton.mp hself ▸ hlt

theorem newestSlot_concat (kept : List PriceSample) (sample : PriceSample) :
    newestSlot (kept ++ [sample]) = sample.slot := by
  simp [newestSlot]

theorem newestSlot_lt {kept : List PriceSample} (h : e.Windowed kept)
    (ha : e.accepts sample = true) :
    newestSlot kept ≤ sample.slot := by
  unfold newestSlot
  cases hk : kept.getLast? with
  | none => exact Nat.zero_le _
  | some last =>
    have hlt := (h.accepts_iff.mp ha).2 last hk
    exact hlt.le

theorem Windowed.record {kept : List PriceSample} (h : e.Windowed kept)
    (ha : e.accepts sample = true)
    (hmax : 1 ≤ e.config.maxSamples) : (e.record sample).Windowed (kept ++ [sample]) := by
  have hlt := h.lt_sample ha
  have hincreasing : (kept ++ [sample]).Pairwise (·.slot < ·.slot) := by
    refine List.pairwise_append.mpr ⟨h.increasing, List.pairwise_singleton _ _, ?_⟩
    intro s hs t ht
    exact List.mem_singleton.mp ht ▸ hlt s hs
  have hpushed : e.samples ++ [sample] <:+ kept ++ [sample] := by
    obtain ⟨front, hfront⟩ := h.window.suffix
    exact ⟨front, by rw [← List.append_assoc, hfront]⟩
  have hinside : ∀ t, t <:+ kept ++ [sample] → e.config.Bounds sample.slot t →
      t <:+ e.samples ++ [sample] := by
    intro t ht hb
    refine h.window.concat (Q := e.config.Bounds sample.slot)
      (fun s hs => ⟨fun x hx => ?_, ?_⟩) ht hb
    · have hle := hs.1 x (List.mem_append_left _ hx)
      have hnew := newestSlot_lt h ha
      omega
    · have hlen := hs.2
      rw [List.length_append] at hlen
      omega
  have haged := @longest_dropWhile PriceSample (e.samples ++ [sample])
    (fun front => decide (front.slot < sample.slot - e.config.maxAgeSlots)) (by
      refine List.Pairwise.sublist hpushed.sublist (hincreasing.imp fun {s t} hst hkeep => ?_)
      simp only [decide_eq_false_iff_not, Nat.not_lt] at hkeep ⊢
      omega)
  have hwindow : Longest (e.config.Bounds sample.slot) (e.samples ++ [sample])
      (e.record sample).samples := by
    rw [record_accepted ha, trimFront_eq]
    have hboth := haged.and (longest_drop e.config.maxSamples _)
      (fun s t hst hkeep x hx => hkeep x (hst.subset hx))
    simp only [decide_eq_false_iff_not, Nat.not_lt] at hboth
    exact hboth
  refine ⟨hincreasing, ?_, ?_, ?_⟩
  · intro s hs
    cases List.mem_append.mp hs with
    | inl hold => exact h.positive s hold
    | inr hnew => exact List.mem_singleton.mp hnew ▸ (h.accepts_iff.mp ha).1
  · have hone : [sample] <:+ (e.record sample).samples := by
      refine hwindow.longest [sample] (List.suffix_append _ _) ⟨?_, hmax⟩
      intro s hs
      rw [List.mem_singleton.mp hs]
      exact Nat.sub_le _ _
    obtain ⟨front, hfront⟩ := hone
    rw [← hfront]
    simp
  · rw [newestSlot_concat, record_config]
    exact hwindow.widen hpushed hinside

theorem recordAll_windowed (config : RealizedVolatilityEstimatorConfig)
    (hmax : 1 ≤ config.maxSamples)
    (history : List PriceSample) :
    ((new config).recordAll history).Windowed ((new config).accepted history) ∧
      ((new config).recordAll history).config = config := by
  induction history using List.reverseRecOn with
  | nil => exact ⟨new_windowed config, rfl⟩
  | append_singleton history sample ih =>
    obtain ⟨hw, hc⟩ := ih
    rw [recordAll_concat, accepted_concat]
    refine ⟨?_, record_config.trans hc⟩
    by_cases ha : ((new config).recordAll history).accepts sample = true
    · rw [if_pos ha]
      exact hw.record ha (hc.symm ▸ hmax)
    · rw [if_neg ha, record_dropped ha, List.append_nil]
      exact hw

end RealizedVolatilityEstimator

open RealizedVolatilityEstimator in
/-- After any samples the window is the longest recent part of what was accepted, and a sample is
    accepted if it has a price and comes after the last accepted one. -/
theorem volatility_window (config : RealizedVolatilityEstimatorConfig)
    (hmax : 1 ≤ config.maxSamples) (history : List PriceSample) :
    let e := (new config).recordAll history
    let kept := (new config).accepted history
    e.samples.Pairwise (·.slot < ·.slot) ∧ (∀ sample ∈ e.samples, 0 < sample.price) ∧
      config.Bounds (newestSlot e.samples) e.samples ∧
      Longest (config.Bounds (newestSlot kept)) kept e.samples ∧
      ∀ sample, e.accepts sample = true ↔
        0 < sample.price ∧ ∀ last ∈ kept.getLast?, last.slot < sample.slot := by
  intro e kept
  obtain ⟨hw, hc⟩ := recordAll_windowed config hmax history
  have hwindow : Longest (config.Bounds (newestSlot kept)) kept e.samples := hc ▸ hw.window
  have hnewest : newestSlot e.samples = newestSlot kept := by
    unfold newestSlot
    rw [hw.newest]
  refine ⟨hw.increasing.sublist hwindow.suffix.sublist, ?_, hnewest ▸ hwindow.holds, hwindow,
    fun sample => hw.accepts_iff⟩
  intro sample hs
  exact hw.positive sample (hwindow.suffix.subset hs)

/-- Late, repeated and worthless samples are dropped; the jump to 200 leaves nothing older. -/
def sampleHistory : List PriceSample :=
  [⟨100, 10⟩, ⟨101, 20⟩, ⟨102, 15⟩, ⟨0, 25⟩, ⟨103, 20⟩, ⟨104, 30⟩, ⟨105, 200⟩]

theorem sampleHistory_window :
    1 ≤ 2 ∧ Longest (RealizedVolatilityEstimatorConfig.Bounds ⟨2, 50⟩ 200)
      [⟨100, 10⟩, ⟨101, 20⟩, ⟨104, 30⟩, ⟨105, 200⟩] [⟨105, 200⟩] :=
  ⟨by decide, (volatility_window ⟨2, 50⟩ (by decide) sampleHistory).2.2.2.1⟩

def priceToTick (price priceTick tickAggregationFactor : Nat) : Int :=
  let denom := priceTick * max tickAggregationFactor 1
  if denom = 0 then 0
  else if 2 ^ 63 - 1 < price / denom then 2 ^ 63 - 1
  else (price / denom : Nat)

theorem priceToTick_eq {price priceTick factor : Nat} (hp : priceTick ≠ 0) (hf : factor ≠ 0) :
    priceToTick price priceTick factor
      = min ((price / (priceTick * factor) : Nat) : Int) (2 ^ 63 - 1) := by
  have hmax : max factor 1 = factor := by omega
  have hdenom : priceTick * factor ≠ 0 := Nat.mul_ne_zero hp hf
  unfold priceToTick
  simp only [hmax, hdenom, if_false]
  split_ifs with h <;> omega

theorem bucketTickOf_eq {market : MarketParams} {price : Nat} (hp : market.priceTick ≠ 0)
    (hf : market.tickAggregationFactor ≠ 0) : bucketTickOf market price
      = .ok (((price / (market.priceTick * market.tickAggregationFactor) : Nat) : Int).bmod
        (2 ^ 64)) := by
  unfold bucketTickOf
  rw [ensure_of (by simp [hp, hf])]
  rfl

theorem tick_bmod {t : Nat} (ht : t < u64Size) :
    (t : Int).bmod (2 ^ 64) = if t < 2 ^ 63 then (t : Int) else t - 2 ^ 64 := by
  have hu : u64Size = 2 ^ 64 := rfl
  have hsmall : (t : Int) % ((2 ^ 64 : Nat) : Int) = t := Int.emod_eq_of_lt (by omega) (by omega)
  simp only [Int.bmod, hsmall]
  split_ifs <;> omega

/-- The account prepared for a predicted rotation is the one the engine will use, and higher prices
    have no lower ticks, exactly if the tick fits: on a grid of single units that leaves out the
    prices from `2 ^ 63` on, on a coarser one nothing. -/
theorem tick_agrees_iff (market : MarketParams) (hp : market.priceTick ≠ 0)
    (hf : market.tickAggregationFactor ≠ 0) (price : U64) :
    (bucketTickOf market price
        = .ok (priceToTick price market.priceTick market.tickAggregationFactor) ∧
      ∀ lower : U64, lower ≤ price →
        (∀ t t', bucketTickOf market lower = .ok t → bucketTickOf market price = .ok t' → t ≤ t') ∧
          priceToTick lower market.priceTick market.tickAggregationFactor
            ≤ priceToTick price market.priceTick market.tickAggregationFactor) ↔
      (price : Nat) < 2 ^ 63 ∨ 1 < market.priceTick * market.tickAggregationFactor := by
  have hu : u64Size = 2 ^ 64 := rfl
  have hpos : 0 < market.priceTick * market.tickAggregationFactor :=
    Nat.mul_pos (Nat.pos_of_ne_zero hp) (Nat.pos_of_ne_zero hf)
  have hle : ∀ q : U64, (q : Nat) / (market.priceTick * market.tickAggregationFactor) < u64Size :=
    fun q => (Nat.div_le_self _ _).trans_lt q.isLt
  simp only [bucketTickOf_eq hp hf, priceToTick_eq hp hf, tick_bmod (hle _), Except.ok.injEq]
  constructor
  · rintro ⟨hagree, -⟩
    by_contra hbig
    obtain ⟨hprice, hone⟩ := not_or.mp hbig
    have hdenom : market.priceTick * market.tickAggregationFactor = 1 := by omega
    rw [hdenom, Nat.div_one] at hagree
    rw [if_neg hprice] at hagree
    have hlt := price.isLt
    omega
  · intro hfits
    have htick : (price : Nat) / (market.priceTick * market.tickAggregationFactor) < 2 ^ 63 := by
      cases hfits with
      | inl hsmall => exact (Nat.div_le_self _ _).trans_lt hsmall
      | inr hcoarse =>
        have hhalf : (price : Nat) / (market.priceTick * market.tickAggregationFactor)
            ≤ (price : Nat) / 2 := Nat.div_le_div_left hcoarse (by decide)
        have hlt := price.isLt
        omega
    refine ⟨by rw [if_pos htick]; omega, fun lower hlower => ?_⟩
    have hdiv : (lower : Nat) / (market.priceTick * market.tickAggregationFactor)
        ≤ (price : Nat) / (market.priceTick * market.tickAggregationFactor) :=
      Nat.div_le_div_right hlower
    refine ⟨?_, by omega⟩
    rintro t t' rfl rfl
    rw [if_pos htick, if_pos (hdiv.trans_lt htick)]
    exact_mod_cast hdiv

def unitGrid : MarketParams :=
  { MarketParams.sample with priceTick := 1, tickAggregationFactor := 1 }

theorem unitGrid_agrees :
    bucketTickOf unitGrid (amount 100) = .ok (priceToTick (amount 100) 1 1) :=
  ((tick_agrees_iff unitGrid (by decide) (by decide) (amount 100)).mpr (by decide)).1

/-- At `2 ^ 63` the engine's tick wraps around to the lowest one, below that of every other price,
    and the keeper's stays at the top. -/
theorem unitGrid_wraps :
    ¬ (∀ (market : MarketParams) (price : U64), market.priceTick ≠ 0 →
      market.tickAggregationFactor ≠ 0 →
        bucketTickOf market price
          = .ok (priceToTick price market.priceTick market.tickAggregationFactor)) ∧
    bucketTickOf unitGrid (amount (2 ^ 63)) = .ok (-2 ^ 63) ∧
    priceToTick (amount (2 ^ 63)) 1 1 = 2 ^ 63 - 1 ∧
    bucketTickOf unitGrid (amount (2 ^ 63 - 1)) = .ok (2 ^ 63 - 1) := by
  have hwrap : bucketTickOf unitGrid (amount (2 ^ 63)) = .ok (-2 ^ 63) := by decide
  refine ⟨fun h => ?_, hwrap, by decide, by decide⟩
  have hagree := h unitGrid (amount (2 ^ 63)) (by decide) (by decide)
  rw [hwrap] at hagree
  exact absurd hagree (by decide)

end MoleFinance
