import MoleFinance.MoleMath
import Mathlib.Algebra.Order.Floor.Div

/-! The wide multiply-divide: what it rounds up to, and why neither the limb product nor the
long division loses a bit on the way. -/
namespace MoleFinance.MoleMath
open Call

theorem mulDivCeil_eq {a b d : Nat} (hd : d < u128Size) :
    mulDivCeil a b d = if d = 0 then .error .divByZero
      else if a * b ⌈/⌉ d < u128Size then .ok (a * b ⌈/⌉ d) else .error .overflow := by
  unfold mulDivCeil
  by_cases h0 : d = 0
  · rw [if_pos h0, if_pos h0]
  rw [if_neg h0, if_neg h0, fullMulDiv_eq hd h0]
  have hpos : 0 < d := Nat.pos_of_ne_zero h0
  have hsplit := Nat.div_add_mod (a * b) d
  have hlt := Nat.mod_lt (a * b) hpos
  generalize a * b / d = q at *
  generalize a * b % d = r at *
  by_cases hr : 0 < r
  · have hceil : a * b ⌈/⌉ d = q + 1 := by
      rw [Nat.ceilDiv_eq_add_pred_div, ← hsplit, show d * q + r + d - 1 = r - 1 + d * (q + 1) by
        rw [mul_add]; omega, Nat.add_mul_div_left _ _ hpos, Nat.div_eq_of_lt (by omega), zero_add]
    have hround : true = true ∧ 0 < r := ⟨rfl, hr⟩
    rw [hceil, if_pos hround, checkedIncr]
    by_cases hq : q + 1 < u128Size
    · have hfits : q < u128Size := by omega
      rw [if_pos hfits, if_pos hq]
    · rw [if_neg hq, ite_self]
  · have hceil : a * b ⌈/⌉ d = q := by
      rw [Nat.ceilDiv_eq_add_pred_div, ← hsplit, show d * q + r + d - 1 = d - 1 + d * q by omega,
        Nat.add_mul_div_left _ _ hpos, Nat.div_eq_of_lt (by omega), zero_add]
    have hexact : ¬ (true = true ∧ 0 < r) := fun h => hr h.2
    rw [hceil, if_neg hexact]

def mulToU256Checked (a b : Nat) : Except MathError (Nat × Nat) := do
  let aHi := a >>> 64
  let aLo := a &&& (2 ^ 64 - 1)
  let bHi := b >>> 64
  let bLo := b &&& (2 ^ 64 - 1)
  let ll ← checkedMul aLo bLo
  let lh ← checkedMul aLo bHi
  let hl ← checkedMul aHi bLo
  let hh ← checkedMul aHi bHi
  let llLow := ll &&& (2 ^ 64 - 1)
  let llHigh := ll >>> 64
  let mid ← checkedAdd llHigh (lh &&& (2 ^ 64 - 1))
  let mid ← checkedAdd mid (hl &&& (2 ^ 64 - 1))
  let midLow := mid &&& (2 ^ 64 - 1)
  let midHigh := mid >>> 64
  let low := (midLow <<< 64) ||| llLow
  let high ← checkedAdd hh (lh >>> 64)
  let high ← checkedAdd high (hl >>> 64)
  let high ← checkedAdd high midHigh
  return (low, high)

theorem limb_mul_le {x y : Nat} (hx : x < 2 ^ 64) (hy : y < 2 ^ 64) :
    x * y ≤ (2 ^ 64 - 1) * (2 ^ 64 - 1) := Nat.mul_le_mul (by omega) (by omega)

theorem mulToU256Checked_eq {a b : Nat} (ha : a < u128Size) (hb : b < u128Size) :
    mulToU256Checked a b = .ok (mulToU256 a b) := by
  unfold mulToU256Checked mulToU256
  simp only [Nat.and_two_pow_sub_one_eq_mod, Nat.shiftRight_eq_div_pow]
  unfold u128Size at ha hb
  have hah : a / 2 ^ 64 < 2 ^ 64 := by omega
  have hal : a % 2 ^ 64 < 2 ^ 64 := by omega
  have hbh : b / 2 ^ 64 < 2 ^ 64 := by omega
  have hbl : b % 2 ^ 64 < 2 ^ 64 := by omega
  have hll := limb_mul_le hal hbl
  have hlh := limb_mul_le hal hbh
  have hhl := limb_mul_le hah hbl
  have hhh := limb_mul_le hah hbh
  have mul_of : ∀ {x y : Nat}, x * y ≤ (2 ^ 64 - 1) * (2 ^ 64 - 1) →
      checkedMul x y = .ok (x * y) := fun h => checkedMul_ok.mpr ⟨by unfold u128Size; omega, rfl⟩
  rw [mul_of hll, ok_bind, mul_of hlh, ok_bind, mul_of hhl, ok_bind, mul_of hhh, ok_bind]
  generalize a % 2 ^ 64 * (b % 2 ^ 64) = ll at *
  generalize a % 2 ^ 64 * (b / 2 ^ 64) = lh at *
  generalize a / 2 ^ 64 * (b % 2 ^ 64) = hl at *
  generalize a / 2 ^ 64 * (b / 2 ^ 64) = hh at *
  have add_of : ∀ {x y : Nat}, x + y < 2 ^ 128 → checkedAdd x y = .ok (x + y) :=
    fun h => checkedAdd_ok.mpr ⟨h, rfl⟩
  rw [add_of (by omega), ok_bind, add_of (by omega), ok_bind, add_of (by omega), ok_bind,
    add_of (by omega), ok_bind, add_of (by omega), ok_bind]
  rfl

/-- The long division after its first `k` turns, from bit 127 downwards. -/
def div256Turns (lo divisor : Nat) (rq : Nat × Nat) : Nat → Nat × Nat
  | 0 => rq
  | k + 1 => div256Step lo divisor (127 - k) (div256Turns lo divisor rq k)

theorem div256Loop_turns (lo divisor : Nat) (rq : Nat × Nat) {k : Nat} (hk : k ≤ 128) :
    div256Loop lo divisor (128 - k) (div256Turns lo divisor rq k)
      = div256Loop lo divisor 128 rq := by
  induction k with
  | zero => rfl
  | succ k ih =>
    rw [← ih (by omega), show 128 - k = 127 - k + 1 by omega,
      show 128 - (k + 1) = 127 - k by omega]
    rfl

theorem div256Loop_eq (lo divisor : Nat) (rq : Nat × Nat) :
    div256Loop lo divisor 128 rq = div256Turns lo divisor rq 128 :=
  (div256Loop_turns lo divisor rq le_rfl).symm

section Division
variable {hi lo d : Nat}

theorem div256Turns_inv (hd : d < u128Size) (hhi : hi < d) (hlo : lo < 2 ^ 128) {k : Nat}
    (hk : k ≤ 128) :
    DivInv (hi * 2 ^ 128 + lo) d (128 - k) (div256Turns lo d (hi, 0) k) := by
  induction k with
  | zero =>
    refine ⟨hhi, by norm_num [div256Turns], by norm_num [div256Turns], ?_⟩
    simp only [div256Turns]
    omega
  | succ k ih =>
    have hinv := ih (by omega)
    rw [show 128 - k = 127 - k + 1 by omega] at hinv
    rw [show 128 - (k + 1) = 127 - k by omega]
    exact div256Step_inv hd (by omega) hinv

theorem div256Turns_rem (hd : d < u128Size) (hhi : hi < d) (hlo : lo < 2 ^ 128) {k : Nat}
    (hk : k ≤ 128) :
    (div256Turns lo d (hi, 0) k).1 = (hi * 2 ^ 128 + lo) / 2 ^ (128 - k) % d := by
  have hinv := div256Turns_inv hd hhi hlo hk
  rw [hinv.exact, add_comm, Nat.add_mul_mod_self_right, Nat.mod_eq_of_lt hinv.rem_lt]

end Division

/-- Floor and ceiling are exact, with an error where they do not fit and for a divisor of zero;
    the limb product overflows nowhere, and the division holds the true remainder, below the
    divisor, before each of its turns and after the last. -/
theorem mulDiv_exact (a b d : Nat) (ha : a < u128Size) (hb : b < u128Size) (hd : d < u128Size) :
    (mulDivFloor a b d = if d = 0 then .error .divByZero
      else if a * b / d < u128Size then .ok (a * b / d) else .error .overflow) ∧
    (mulDivCeil a b d = if d = 0 then .error .divByZero
      else if a * b ⌈/⌉ d < u128Size then .ok (a * b ⌈/⌉ d) else .error .overflow) ∧
    mulToU256Checked a b = .ok (mulToU256 a b) ∧
    ((mulToU256 a b).2 < d →
      let turns := div256Turns (mulToU256 a b).1 d ((mulToU256 a b).2, 0)
      div256 (mulToU256 a b).2 (mulToU256 a b).1 d = .ok ((turns 128).2, (turns 128).1) ∧
      ∀ k ≤ 128, (turns k).1 = a * b / 2 ^ (128 - k) % d ∧ (turns k).1 < d) := by
  refine ⟨mulDivFloor_eq hd, mulDivCeil_eq hd, mulToU256Checked_eq ha hb, fun hhi => ⟨?_, ?_⟩⟩
  · unfold div256
    rw [if_neg (not_le.mpr hhi), div256Loop_eq]
  · intro k hk
    have hlo := mulToU256_low_lt a b
    rw [← mulToU256_eq a b]
    exact ⟨div256Turns_rem hd hhi hlo hk, (div256Turns_inv hd hhi hlo hk).rem_lt⟩

/-- A product of 129 bits. -/
theorem mulDiv_exact_wide : mulDivFloor (2 ^ 127) 6 5 = .ok (3 * 2 ^ 128 / 5) ∧
    mulDivCeil (2 ^ 127) 6 5 = .ok (3 * 2 ^ 128 ⌈/⌉ 5) ∧
    mulDivFloor (2 ^ 127) 6 2 = .error .overflow := by
  have h5 := mulDiv_exact (2 ^ 127) 6 5 (by decide) (by decide) (by decide)
  have h2 := mulDiv_exact (2 ^ 127) 6 2 (by decide) (by decide) (by decide)
  exact ⟨h5.1, h5.2.1, h2.1⟩

end MoleFinance.MoleMath
