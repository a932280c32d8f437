import MoleFinance.Lib.Call
import Mathlib.Tactic.Ring
import Mathlib.Tactic.Linarith

/-! Money-grade fixed-point arithmetic. A machine word is a `Nat`; a place where
its width shows (a checked operation, a wrapping shift, a cast) names the width. -/
namespace MoleFinance.MoleMath
open Call

def u64Size : Nat := 2 ^ 64
def u128Size : Nat := 2 ^ 128
def i128Bound : Nat := 2 ^ 127

def bpsScale : Nat := 10000

inductive MathError where
  | overflow
  | divByZero
  | signOverflow
deriving DecidableEq, Repr

def checkedAdd (a b : Nat) : Except MathError Nat :=
  if a + b < u128Size then .ok (a + b) else .error .overflow

def checkedSub (a b : Nat) : Except MathError Nat :=
  if b ≤ a then .ok (a - b) else .error .overflow

def checkedMul (a b : Nat) : Except MathError Nat :=
  if a * b < u128Size then .ok (a * b) else .error .overflow

def mulToU256 (a b : Nat) : Nat × Nat :=
  let aHi := a >>> 64
  let aLo := a &&& (2 ^ 64 - 1)
  let bHi := b >>> 64
  let bLo := b &&& (2 ^ 64 - 1)
  let ll := aLo * bLo
  let lh := aLo * bHi
  let hl := aHi * bLo
  let hh := aHi * bHi
  let llLow := ll &&& (2 ^ 64 - 1)
  let llHigh := ll >>> 64
  let mid := llHigh + (lh &&& (2 ^ 64 - 1)) + (hl &&& (2 ^ 64 - 1))
  let midLow := mid &&& (2 ^ 64 - 1)
  let midHigh := mid >>> 64
  let low := (midLow <<< 64) ||| llLow
  let high := hh + (lh >>> 64) + (hl >>> 64) + midHigh
  (low, high)

/-- One turn of the bit-by-bit long division, on `(rem, quot)`. -/
def div256Step (lo divisor i : Nat) (rq : Nat × Nat) : Nat × Nat :=
  let nextBit := (lo >>> i) &&& 1
  let remTop := rq.1 >>> 127
  let rem := ((rq.1 <<< 1) % 2 ^ 128) ||| nextBit
  if remTop = 1 ∨ divisor ≤ rem then
    -- wrapping_sub
    ((rem + 2 ^ 128 - divisor) % 2 ^ 128, rq.2 ||| (1 <<< i))
  else (rem, rq.2)

def div256Loop (lo divisor : Nat) : Nat → Nat × Nat → Nat × Nat
  | 0, rq => rq
  | i + 1, rq => div256Loop lo divisor i (div256Step lo divisor i rq)

def div256 (hi lo divisor : Nat) : Except MathError (Nat × Nat) :=
  if divisor ≤ hi then .error .overflow
  else
    let rq := div256Loop lo divisor 128 (hi, 0)
    .ok (rq.2, rq.1)

def checkedIncr (q : Nat) : Except MathError Nat :=
  if q + 1 < u128Size then .ok (q + 1) else .error .overflow

def fullMulDiv (a b denominator : Nat) (ceil : Bool) : Except MathError Nat :=
  if a = 0 ∨ b = 0 then .ok 0
  else
    let p := mulToU256 a b
    if p.2 = 0 then
      let q := p.1 / denominator
      let r := p.1 % denominator
      if ceil = true ∧ 0 < r then checkedIncr q else .ok q
    else
      match div256 p.2 p.1 denominator with
      | .error e => .error e
      | .ok (q, r) => if ceil = true ∧ 0 < r then checkedIncr q else .ok q

def mulDivFloor (a b denominator : Nat) : Except MathError Nat :=
  if denominator = 0 then .error .divByZero else fullMulDiv a b denominator false

def mulDivCeil (a b denominator : Nat) : Except MathError Nat :=
  if denominator = 0 then .error .divByZero else fullMulDiv a b denominator true

/-- `direction * notional * (p_now - p_last) / p_last`, signed. -/
def signedPnlIncrement (direction : Int) (notional pLast pNow : Nat) : Except MathError Int := do
  ensure (pLast ≠ 0) .divByZero
  let deltaAbs := if pLast ≤ pNow then pNow - pLast else pLast - pNow
  let sign : Int := if pLast ≤ pNow then 1 else -1
  let absPnl ← mulDivFloor notional deltaAbs pLast
  ensure (absPnl < i128Bound) .signOverflow
  let combinedSign := sign * direction
  if combinedSign = 0 ∨ absPnl = 0 then return 0
  else if 0 < combinedSign then return absPnl
  else return -absPnl

def priceMoveBps (pOld pNew : Nat) : Except MathError Nat := do
  ensure (pOld ≠ 0) .divByZero
  let delta := if pOld ≤ pNew then pNew - pOld else pOld - pNew
  let scaled ← mulDivFloor delta bpsScale pOld
  ensure (scaled < u64Size) .overflow
  return scaled

theorem checkedAdd_ok {a b c : Nat} :
    checkedAdd a b = .ok c ↔ a + b < u128Size ∧ c = a + b := by
  unfold checkedAdd
  split_ifs with h <;> simp [h, eq_comm]

theorem checkedSub_ok {a b c : Nat} : checkedSub a b = .ok c ↔ b ≤ a ∧ c = a - b := by
  unfold checkedSub
  split_ifs with h <;> simp [h, eq_comm]

theorem checkedMul_ok {a b c : Nat} :
    checkedMul a b = .ok c ↔ a * b < u128Size ∧ c = a * b := by
  unfold checkedMul
  split_ifs with h <;> simp [h, eq_comm]

/-! The limb product and the long division compute the exact quotient. -/

theorem mulToU256_low_lt (a b : Nat) : (mulToU256 a b).1 < 2 ^ 128 := by
  simp only [mulToU256, Nat.and_two_pow_sub_one_eq_mod]
  apply Nat.or_lt_two_pow
  · rw [Nat.shiftLeft_eq]
    omega
  · omega

theorem mulToU256_eq (a b : Nat) :
    (mulToU256 a b).2 * 2 ^ 128 + (mulToU256 a b).1 = a * b := by
  simp only [mulToU256, Nat.and_two_pow_sub_one_eq_mod, Nat.shiftRight_eq_div_pow]
  rw [← Nat.shiftLeft_add_eq_or_of_lt (Nat.mod_lt _ (by norm_num)), Nat.shiftLeft_eq]
  have ha := Nat.div_add_mod a (2 ^ 64)
  have hb := Nat.div_add_mod b (2 ^ 64)
  generalize a / 2 ^ 64 = ah at *
  generalize a % 2 ^ 64 = al at *
  generalize b / 2 ^ 64 = bh at *
  generalize b % 2 ^ 64 = bl at *
  have hab : a * b = ah * bh * 2 ^ 128 + (al * bh + ah * bl) * 2 ^ 64 + al * bl := by
    rw [← ha, ← hb]
    ring
  rw [hab]
  generalize al * bl = ll
  generalize al * bh = lh
  generalize ah * bl = hl
  generalize ah * bh = hh
  omega

/-- State of the long division before bit `i`: the quotient so far is exact on
the bits already pulled, and the remainder is below the divisor. -/
structure DivInv (n d i : Nat) (rq : Nat × Nat) : Prop where
  rem_lt : rq.1 < d
  quot_lt : rq.2 < 2 ^ 128
  low_zero : rq.2 % 2 ^ i = 0
  exact : n / 2 ^ i = rq.2 / 2 ^ i * d + rq.1

theorem nextBit_eq (hi lo i : Nat) (h : i < 128) :
    (hi * 2 ^ 128 + lo) / 2 ^ i = 2 * ((hi * 2 ^ 128 + lo) / 2 ^ (i + 1)) + (lo >>> i &&& 1) := by
  have hp : (2 : Nat) ^ 128 = 2 ^ i * (2 * 2 ^ (127 - i)) := by
    rw [← pow_succ', ← pow_add]
    congr 1
    omega
  have hd : (hi * 2 ^ 128 + lo) / 2 ^ i = hi * (2 * 2 ^ (127 - i)) + lo / 2 ^ i := by
    rw [hp, show hi * (2 ^ i * (2 * 2 ^ (127 - i))) + lo
      = lo + 2 ^ i * (hi * (2 * 2 ^ (127 - i))) by ring,
      Nat.add_mul_div_left _ _ (by positivity)]
    ring
  rw [pow_succ 2 i, ← Nat.div_div_eq_div_mul, hd, Nat.shiftRight_eq_div_pow,
    Nat.and_one_is_mod, show hi * (2 * 2 ^ (127 - i)) = 2 * (hi * 2 ^ (127 - i)) by ring]
  omega

theorem or_bit (q i : Nat) (h : q % 2 ^ (i + 1) = 0) : q ||| 1 <<< i = q + 2 ^ i := by
  obtain ⟨k, rfl⟩ := Nat.dvd_of_mod_eq_zero h
  have hlt : 1 <<< i < 2 ^ (i + 1) := by
    rw [Nat.shiftLeft_eq, one_mul]
    exact Nat.pow_lt_pow_right (by norm_num) (by omega)
  rw [← Nat.two_pow_add_eq_or_of_lt hlt, Nat.shiftLeft_eq, one_mul]

theorem div256Step_inv {hi lo d i : Nat} {rq : Nat × Nat} (hd : d < 2 ^ 128) (hi' : i < 128)
    (h : DivInv (hi * 2 ^ 128 + lo) d (i + 1) rq) :
    DivInv (hi * 2 ^ 128 + lo) d i (div256Step lo d i rq) := by
  obtain ⟨r, q⟩ := rq
  obtain ⟨hr, hq, hz, he⟩ := h
  simp only at hr hq hz he
  have hn := nextBit_eq hi lo i hi'
  have hb : lo >>> i &&& 1 < 2 := by
    rw [Nat.and_one_is_mod]
    omega
  rw [he] at hn
  unfold div256Step
  simp only
  generalize lo >>> i &&& 1 = bit at *
  have htop : r >>> 127 = 1 ↔ 2 ^ 127 ≤ r := by
    rw [Nat.shiftRight_eq_div_pow]
    omega
  have hor : (r <<< 1) % 2 ^ 128 ||| bit = (2 * r) % 2 ^ 128 + bit := by
    have hev : (2 * r) % 2 ^ 128 = (2 * r % 2 ^ 128 / 2) <<< 1 := by
      rw [Nat.shiftLeft_eq]
      omega
    rw [show r <<< 1 = 2 * r by rw [Nat.shiftLeft_eq]; ring, hev,
      ← Nat.shiftLeft_add_eq_or_of_lt (by simpa using hb)]
  obtain ⟨k, hk⟩ := Nat.dvd_of_mod_eq_zero hz
  have hp : 0 < 2 ^ i := by positivity
  have hdq : q / 2 ^ (i + 1) = k := by
    rw [hk]
    exact Nat.mul_div_cancel_left _ (by positivity)
  have hdq' : q / 2 ^ i = 2 * k := by
    rw [hk, pow_succ, mul_assoc]
    exact Nat.mul_div_cancel_left _ hp
  rw [hdq] at hn
  rw [hor, or_bit q i hz]
  simp only [htop]
  split_ifs with hc
  · have hge : d ≤ 2 * r + bit := by omega
    have hrem : (2 * r % 2 ^ 128 + bit + 2 ^ 128 - d) % 2 ^ 128 = 2 * r + bit - d := by omega
    refine ⟨?_, ?_, ?_, ?_⟩
    · simp only [hrem]
      omega
    · -- the bit is free in a quotient whose low bits are still zero
      have hlt : q + 2 ^ i < 2 ^ 128 := by
        rw [← or_bit q i hz]
        refine Nat.or_lt_two_pow hq ?_
        rw [Nat.shiftLeft_eq, one_mul]
        exact Nat.pow_lt_pow_right (by norm_num) hi'
      exact hlt
    · simp only [hk, pow_succ]
      rw [mul_assoc, Nat.add_mod]
      simp
    · simp only [hrem, Nat.add_div_right _ hp, hdq']
      have hmul : 2 * (k * d + r) + bit = 2 * k * d + (2 * r + bit) := by ring
      rw [hn, hmul, add_mul, one_mul]
      omega
  · have hlt : 2 * r + bit < d := by omega
    have hrem : 2 * r % 2 ^ 128 + bit = 2 * r + bit := by omega
    refine ⟨?_, hq, ?_, ?_⟩
    · simpa only [hrem] using hlt
    · simp only [hk, pow_succ, mul_assoc]
      exact Nat.mul_mod_right _ _
    · simp only [hrem, hdq']
      rw [hn]
      ring

theorem div256Loop_inv {hi lo d : Nat} (hd : d < 2 ^ 128) (i : Nat) (rq : Nat × Nat)
    (hi' : i ≤ 128) (h : DivInv (hi * 2 ^ 128 + lo) d i rq) :
    DivInv (hi * 2 ^ 128 + lo) d 0 (div256Loop lo d i rq) := by
  induction i generalizing rq with
  | zero => exact h
  | succ i ih => exact ih _ (by omega) (div256Step_inv hd (by omega) h)

theorem div256_spec {hi lo d : Nat} (hd : d < 2 ^ 128) (hlo : lo < 2 ^ 128) :
    div256 hi lo d = if d ≤ hi then .error .overflow
      else .ok ((hi * 2 ^ 128 + lo) / d, (hi * 2 ^ 128 + lo) % d) := by
  unfold div256
  split_ifs with h
  · rfl
  have h0 : DivInv (hi * 2 ^ 128 + lo) d 128 (hi, 0) := by
    refine ⟨by omega, by norm_num, by norm_num, ?_⟩
    simp only
    omega
  obtain ⟨hr, -, -, he⟩ := div256Loop_inv hd 128 (hi, 0) le_rfl h0
  simp only [pow_zero, Nat.div_one] at he
  simp only
  generalize div256Loop lo d 128 (hi, 0) = rq at *
  have hpos : 0 < d := by omega
  have hq : (hi * 2 ^ 128 + lo) / d = rq.2 := by
    rw [he, add_comm, Nat.add_mul_div_right _ _ hpos, Nat.div_eq_of_lt hr, zero_add]
  have hm : (hi * 2 ^ 128 + lo) % d = rq.1 := by
    rw [he, add_comm, Nat.add_mul_mod_self_right, Nat.mod_eq_of_lt hr]
  rw [hq, hm]

/-- The quotient and the remainder are exact, overflow exactly when they do not fit. -/
theorem fullMulDiv_eq {a b d : Nat} (hd : d < u128Size) (h0 : d ≠ 0) (ceil : Bool) :
    fullMulDiv a b d ceil = if a * b / d < u128Size
      then if ceil = true ∧ 0 < a * b % d then checkedIncr (a * b / d) else .ok (a * b / d)
      else .error .overflow := by
  have he := mulToU256_eq a b
  have hl := mulToU256_low_lt a b
  unfold fullMulDiv
  by_cases hz : a = 0 ∨ b = 0
  · have hab : a * b = 0 := by
      cases hz with
      | inl ha => rw [ha, zero_mul]
      | inr hb => rw [hb, mul_zero]
    rw [if_pos hz, hab, Nat.zero_div, Nat.zero_mod, if_pos (by norm_num [u128Size]),
      if_neg (fun h => absurd h.2 (lt_irrefl 0))]
  rw [if_neg hz]
  by_cases hi : (mulToU256 a b).2 = 0
  · rw [hi, zero_mul, zero_add] at he
    have hq : a * b / d < u128Size := he ▸ (Nat.div_le_self _ _).trans_lt hl
    simp only [if_pos hi, he, if_pos hq]
  · rw [if_neg hi, div256_spec hd hl, he]
    by_cases hge : d ≤ (mulToU256 a b).2
    · rw [if_pos hge, if_neg]
      rw [not_lt, Nat.le_div_iff_mul_le (by omega), ← he]
      unfold u128Size
      nlinarith
    · rw [if_neg hge, if_pos]
      rw [Nat.div_lt_iff_lt_mul (by omega), ← he]
      unfold u128Size
      nlinarith

/-- Exact floor for every 128-bit denominator, overflow exactly when it does not fit. -/
theorem mulDivFloor_eq {a b d : Nat} (hd : d < u128Size) :
    mulDivFloor a b d = if d = 0 then .error .divByZero
      else if a * b / d < u128Size then .ok (a * b / d) else .error .overflow := by
  unfold mulDivFloor
  by_cases h0 : d = 0
  · rw [if_pos h0, if_pos h0]
  · rw [if_neg h0, if_neg h0, fullMulDiv_eq hd h0]
    simp only [Bool.false_eq_true, false_and, if_false]

theorem div256Loop_quot_lt {lo d : Nat} (i : Nat) (rq : Nat × Nat) (hi : i ≤ 128)
    (h : rq.2 < 2 ^ 128) : (div256Loop lo d i rq).2 < 2 ^ 128 := by
  induction i generalizing rq with
  | zero => exact h
  | succ i ih =>
    apply ih _ (by omega)
    unfold div256Step
    simp only
    split_ifs
    · refine Nat.or_lt_two_pow h ?_
      rw [Nat.shiftLeft_eq, one_mul]
      exact Nat.pow_lt_pow_right (by norm_num) (by omega)
    · exact h

theorem mulDivFloor_ok {a b d q : Nat} (hd : d < u128Size) (h : mulDivFloor a b d = .ok q) :
    d ≠ 0 ∧ q = a * b / d := by
  rw [mulDivFloor_eq hd] at h
  split_ifs at h with h0 hq
  exact ⟨h0, (Except.ok.inj h).symm⟩

theorem mulDivFloor_lt {a b d q : Nat} (h : mulDivFloor a b d = .ok q) : q < u128Size := by
  unfold mulDivFloor fullMulDiv at h
  have hl := mulToU256_low_lt a b
  split_ifs at h with h0 hz
  · injection h with h
    simp [← h, u128Size]
  · simp only [false_and, if_false] at h
    split_ifs at h with hi
    · injection h with h
      rw [← h]
      exact (Nat.div_le_self _ _).trans_lt hl
    · unfold div256 at h
      split_ifs at h with hd
      simp only at h
      injection h with h
      rw [← h]
      exact div256Loop_quot_lt 128 _ le_rfl (by norm_num)

theorem mulDivFloor_le {a b d : Nat} (hd : d < u128Size) (hb : b ≤ d) (hpos : 0 < d)
    (ha : a < u128Size) : mulDivFloor a b d = .ok (a * b / d) := by
  have hle : a * b / d ≤ a := by
    rw [Nat.div_le_iff_le_mul_add_pred hpos]
    nlinarith
  rw [mulDivFloor_eq hd, if_neg (by omega), if_pos (hle.trans_lt ha)]

theorem mulDivFloor_self {a d : Nat} (hd : d < u128Size) (hpos : 0 < d) (ha : a < u128Size) :
    mulDivFloor a d d = .ok a := by
  rw [mulDivFloor_le hd le_rfl hpos ha, Nat.mul_div_cancel _ hpos]

@[simp] theorem mulDivFloor_zero {b d : Nat} (hpos : 0 < d) : mulDivFloor 0 b d = .ok 0 := by
  simp [mulDivFloor, fullMulDiv, hpos.ne']

@[simp] theorem mulDivFloor_zero_right {a d : Nat} (hpos : 0 < d) : mulDivFloor a 0 d = .ok 0 := by
  simp [mulDivFloor, fullMulDiv, hpos.ne']

end MoleFinance.MoleMath
