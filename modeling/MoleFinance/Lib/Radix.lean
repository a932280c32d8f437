import Mathlib.Data.List.TakeWhile
import Mathlib.Data.Nat.Digits.Lemmas
import Mathlib.Tactic.Common

/-! Digit strings in two bases, written with the highest digit first: a string is read digit by
digit into the little-endian digits of the other base, and its leading zeros are kept. -/
namespace MoleFinance.Radix
variable {b b' : Nat}

/-- `base * n + carry` on the little-endian digits of `n`. -/
def mulAdd (b base : Nat) : Nat → List Nat → List Nat
  | carry, [] => b.digits carry
  | carry, d :: ds =>
    (carry + d * base) % b :: mulAdd b base ((carry + d * base) / b) ds

theorem digits_mod_cons (hb : 1 < b) (n : Nat) (h : n ≠ 0) :
    b.digits n = n % b :: b.digits (n / b) := Nat.digits_eq_cons_digits_div hb h

theorem mulAdd_digits {base : Nat} (hb : 1 < b) (hbase : 0 < base) (n carry : Nat) :
    mulAdd b base carry (b.digits n) = b.digits (carry + base * n) := by
  induction n using Nat.strong_induction_on generalizing carry with
  | _ n ih =>
    by_cases h : n = 0
    · subst h
      simp [mulAdd]
    have hlt : n / b < n := Nat.div_lt_self (Nat.pos_of_ne_zero h) hb
    have hsplit : carry + base * n = carry + n % b * base + b * (base * (n / b)) := by
      conv_lhs => rw [← Nat.mod_add_div n b]
      ring
    have hne : carry + base * n ≠ 0 := by
      have := Nat.mul_pos hbase (Nat.pos_of_ne_zero h)
      omega
    rw [digits_mod_cons hb n h, digits_mod_cons hb _ hne, mulAdd, ih _ hlt, hsplit]
    rw [Nat.add_mul_mod_self_left, Nat.add_mul_div_left _ _ (Nat.zero_lt_of_lt hb)]

def digitsFrom (b base : Nat) (ds : List Nat) : List Nat :=
  ds.foldl (fun out d => mulAdd b base d out) []

theorem digitsFrom_append (base : Nat) (ds : List Nat) (d : Nat) :
    digitsFrom b base (ds ++ [d]) = mulAdd b base d (digitsFrom b base ds) := by
  simp [digitsFrom]

theorem digitsFrom_eq {base : Nat} (hb : 1 < b) (hbase : 0 < base) (ds : List Nat) :
    digitsFrom b base ds = b.digits (Nat.ofDigits base ds.reverse) := by
  induction ds using List.reverseRecOn with
  | nil => simp [digitsFrom]
  | append_singleton ds d ih =>
    rw [digitsFrom_append, ih, mulAdd_digits hb hbase, List.reverse_append]
    rfl

/-- A string of base `b` in base `b'`, a leading zero for each leading zero. -/
def recode (b b' : Nat) (ds : List Nat) : List Nat :=
  List.replicate (ds.takeWhile (· == 0)).length 0 ++
    (b'.digits (Nat.ofDigits b ds.reverse)).reverse

theorem takeWhile_replicate (k : Nat) : ∀ ds : List Nat, (∀ d ∈ ds.head?, d ≠ 0) →
    (List.replicate k 0 ++ ds).takeWhile (· == 0) = List.replicate k 0 := by
  intro ds hhead
  rw [List.takeWhile_append_of_pos (by simp)]
  cases ds with
  | nil => simp
  | cons d ds => simp [hhead d rfl]

theorem split_zeros (ds : List Nat) :
    List.replicate (ds.takeWhile (· == 0)).length 0 ++ ds.dropWhile (· == 0) = ds := by
  conv_rhs => rw [← List.takeWhile_append_dropWhile (p := (· == 0)) (l := ds)]
  congr 1
  refine (List.eq_replicate_iff.mpr ⟨rfl, fun d hd => ?_⟩).symm
  simpa using List.mem_takeWhile_imp hd

theorem dropWhile_head (ds : List Nat) : ∀ d ∈ (ds.dropWhile (· == 0)).head?, d ≠ 0 := by
  intro d hd
  have := List.head?_dropWhile_not (· == 0) ds
  rw [Option.mem_def.mp hd] at this
  simpa using this

/-- The digits of a number, highest first, have no leading zero. -/
theorem digits_reverse_head (n : Nat) : ∀ d ∈ (b.digits n).reverse.head?, d ≠ 0 := by
  intro d hd
  rw [List.head?_reverse] at hd
  by_cases h : n = 0
  · subst h
    simp at hd
  have hne : b.digits n ≠ [] := Nat.digits_ne_nil_iff_ne_zero.mpr h
  rw [List.getLast?_eq_some_getLast hne] at hd
  have hlast := Nat.getLast_digit_ne_zero b h
  rw [← Option.some_inj.mp hd]
  exact hlast

theorem ofDigits_zeros (k : Nat) (ds : List Nat) :
    Nat.ofDigits b (List.replicate k 0 ++ ds).reverse = Nat.ofDigits b ds.reverse := by
  rw [List.reverse_append, List.reverse_replicate, Nat.ofDigits_append_replicate_zero]

theorem ofDigits_recode (ds : List Nat) :
    Nat.ofDigits b' (recode b b' ds).reverse = Nat.ofDigits b ds.reverse := by
  rw [recode, ofDigits_zeros, List.reverse_reverse, Nat.ofDigits_digits]

theorem recode_lt (hb' : 1 < b') {ds : List Nat} : ∀ d ∈ recode b b' ds, d < b' := by
  intro d hd
  rcases List.mem_append.mp hd with hd | hd
  · rw [(List.mem_replicate.mp hd).2]
    omega
  · exact Nat.digits_lt_base hb' (List.mem_reverse.mp hd)

theorem recode_recode (hb : 1 < b) {ds : List Nat} (hlt : ∀ d ∈ ds, d < b) :
    recode b' b (recode b b' ds) = ds := by
  have hzeros : (recode b b' ds).takeWhile (· == 0)
      = List.replicate (ds.takeWhile (· == 0)).length 0 :=
    takeWhile_replicate _ _ (digits_reverse_head _)
  have hvalue : Nat.ofDigits b ds.reverse = Nat.ofDigits b (ds.dropWhile (· == 0)).reverse := by
    conv_lhs => rw [← split_zeros ds]
    exact ofDigits_zeros _ _
  have hdigits : b.digits (Nat.ofDigits b (ds.dropWhile (· == 0)).reverse)
      = (ds.dropWhile (· == 0)).reverse := by
    refine Nat.digits_ofDigits b hb _ (fun d hd => ?_) (fun h => ?_)
    · exact hlt d ((List.dropWhile_sublist _).subset (List.mem_reverse.mp hd))
    · refine dropWhile_head ds _ ?_
      rw [List.getLast_reverse]
      exact List.head?_eq_some_head _
  rw [recode, ofDigits_recode, hzeros, hvalue, hdigits, List.reverse_reverse, List.length_replicate]
  exact split_zeros ds

end MoleFinance.Radix
