import Mathlib.Tactic.Common
import Mathlib.Tactic.Ring
import Mathlib.Algebra.Order.Ring.Nat
import Mathlib.Algebra.BigOperators.Group.List.Basic

/-! Shares of a fund, rounded down. A part never loses when the fund grows, or when another part
leaves with its own rounded share; it loses when shares join that bring no funds, and at most one
unit to shares that bring their worth. A fund split over claims loses less than one unit to each
of them. -/
namespace MoleFinance

def proRata (fund shares part : Nat) : Nat := fund * part / shares

section ProRata
variable {fund fund' shares part leaving : Nat}

theorem proRata_mono (h : fund ≤ fund') : proRata fund shares part ≤ proRata fund' shares part :=
  Nat.div_le_div_right (Nat.mul_le_mul_right part h)

theorem proRata_le (h : part ≤ shares) : proRata fund shares part ≤ fund :=
  Nat.div_le_of_le_mul ((Nat.mul_le_mul_left fund h).trans_eq (Nat.mul_comm fund shares))

@[simp] theorem proRata_zero_part : proRata fund shares 0 = 0 := by simp [proRata]

@[simp] theorem proRata_zero_fund : proRata 0 shares part = 0 := by simp [proRata]

theorem proRata_leave (h : leaving + part ≤ shares) : proRata fund shares part
    ≤ proRata (fund - proRata fund shares leaving) (shares - leaving) part := by
  by_cases h0 : part = 0
  · simp [h0]
  have hs : 0 < shares := by omega
  have hrest : 0 < shares - leaving := by omega
  have htaken : proRata fund shares leaving * shares ≤ fund * leaving := Nat.div_mul_le_self _ _
  have hkept : fund * (shares - leaving) ≤ (fund - proRata fund shares leaving) * shares := by
    rw [Nat.mul_sub, Nat.sub_mul]
    omega
  have hworth : proRata fund shares part * shares ≤ fund * part := Nat.div_mul_le_self _ _
  refine (Nat.le_div_iff_mul_le hrest).mpr (Nat.le_of_mul_le_mul_right ?_ hs)
  calc proRata fund shares part * (shares - leaving) * shares
      = proRata fund shares part * shares * (shares - leaving) := Nat.mul_right_comm _ _ _
    _ ≤ fund * part * (shares - leaving) := Nat.mul_le_mul_right _ hworth
    _ = fund * (shares - leaving) * part := Nat.mul_right_comm _ _ _
    _ ≤ (fund - proRata fund shares leaving) * shares * part := Nat.mul_le_mul_right _ hkept
    _ = (fund - proRata fund shares leaving) * part * shares := Nat.mul_right_comm _ _ _

theorem proRata_mono_part {part' : Nat} (h : part ≤ part') :
    proRata fund shares part ≤ proRata fund shares part' :=
  Nat.div_le_div_right (Nat.mul_le_mul_left fund h)

/-- A fund no larger than the shares gives no part more than its size. -/
theorem proRata_le_part (h : fund ≤ shares) : proRata fund shares part ≤ part :=
  Nat.div_le_of_le_mul (Nat.mul_le_mul_right part h)

/-- Minted shares bring what they are worth, rounded down: a part loses at most one unit. -/
theorem proRata_join {minted : Nat} (h : part ≤ shares) (hs : 0 < shares) :
    proRata fund shares part
      ≤ proRata (fund + proRata fund shares minted) (shares + minted) part + 1 := by
  by_cases h0 : proRata fund shares part = 0
  · rw [h0]
    exact Nat.zero_le _
  have hall : 0 < shares + minted := by omega
  have hworth : proRata fund shares part * shares ≤ fund * part := Nat.div_mul_le_self _ _
  have hbring : fund * minted < (proRata fund shares minted + 1) * shares := by
    rw [Nat.mul_comm _ shares]
    exact Nat.lt_mul_div_succ (fund * minted) hs
  generalize proRata fund shares minted = brought at hbring ⊢
  obtain ⟨v, hv⟩ := Nat.exists_eq_succ_of_ne_zero h0
  rw [hv] at hworth ⊢
  refine Nat.succ_le_succ ((Nat.le_div_iff_mul_le hall).mpr (Nat.le_of_mul_le_mul_right ?_ hs))
  -- what the part had, what the minted shares bring, and the rounding of both
  have hpart : part * shares ≤ (shares + minted) * shares :=
    Nat.mul_le_mul_right shares (by omega)
  have hold : (v + 1) * shares * (shares + minted) ≤ fund * part * (shares + minted) :=
    Nat.mul_le_mul_right _ hworth
  have hnew : fund * minted * part ≤ (brought + 1) * shares * part :=
    Nat.mul_le_mul_right part hbring.le
  have hsum : v * (shares + minted) * shares + (shares + minted) * shares
      ≤ (fund + brought) * part * shares + part * shares := by
    calc v * (shares + minted) * shares + (shares + minted) * shares
        = (v + 1) * shares * (shares + minted) := by ring
      _ ≤ fund * part * (shares + minted) := hold
      _ = fund * part * shares + fund * minted * part := by ring
      _ ≤ fund * part * shares + (brought + 1) * shares * part := Nat.add_le_add_left hnew _
      _ = (fund + brought) * part * shares + part * shares := by ring
  omega

theorem proRata_round_trip (hs : 0 < shares) (minted : Nat) :
    proRata (fund + proRata fund shares minted) (shares + minted) minted
      = proRata fund shares minted := by
  have hlow : proRata fund shares minted * shares ≤ fund * minted := Nat.div_mul_le_self _ _
  have hhigh : fund * minted < shares * (proRata fund shares minted + 1) :=
    Nat.lt_mul_div_succ (fund * minted) hs
  generalize proRata fund shares minted = brought at hlow hhigh ⊢
  refine Nat.div_eq_of_lt_le ?_ ?_
  · calc brought * (shares + minted) = brought * shares + brought * minted := Nat.mul_add _ _ _
      _ ≤ fund * minted + brought * minted := Nat.add_le_add_right hlow _
      _ = (fund + brought) * minted := (Nat.add_mul _ _ _).symm
  · calc (fund + brought) * minted = fund * minted + brought * minted := Nat.add_mul _ _ _
      _ < shares * (brought + 1) + brought * minted := Nat.add_lt_add_right hhigh _
      _ ≤ (brought + 1) * (shares + minted) := by
        rw [Nat.mul_comm shares, Nat.mul_add (brought + 1)]
        exact Nat.add_le_add_left (Nat.mul_le_mul_right minted (Nat.le_succ brought)) _

end ProRata

section Split
variable {total : Nat}

theorem lt_proRata_succ_mul (fund : Nat) (ht : 0 < total) (claim : Nat) :
    fund * claim + 1 ≤ (proRata fund total claim + 1) * total := by
  rw [Nat.mul_comm _ total]
  exact Nat.lt_mul_div_succ (fund * claim) ht

theorem split_covers (fund : Nat) (ht : 0 < total) (claims : List Nat) :
    fund * claims.sum + claims.countP (0 < ·)
      ≤ ((claims.map (proRata fund total)).sum + claims.countP (0 < ·)) * total := by
  induction claims with
  | nil => simp
  | cons claim claims ih =>
    rw [List.sum_cons, List.map_cons, List.sum_cons, List.countP_cons, Nat.mul_add]
    by_cases hc : 0 < claim
    · have hone := lt_proRata_succ_mul fund ht claim
      simp only [hc, decide_true, if_true]
      calc fund * claim + fund * claims.sum + (claims.countP (0 < ·) + 1)
          = (fund * claim + 1) + (fund * claims.sum + claims.countP (0 < ·)) := by omega
        _ ≤ (proRata fund total claim + 1) * total
            + ((claims.map (proRata fund total)).sum + claims.countP (0 < ·)) * total :=
          Nat.add_le_add hone ih
        _ = _ := by ring
    · obtain rfl : claim = 0 := Nat.eq_zero_of_not_pos hc
      simp only [Nat.lt_irrefl, decide_false, Bool.false_eq_true, if_false, proRata_zero_part,
        Nat.mul_zero, Nat.zero_add, Nat.add_zero]
      exact ih

/-- What the rounding leaves of a fund is less than the number of positive claims. -/
theorem split_residual_lt (fund : Nat) {claims : List Nat} (h : 0 < claims.sum) :
    fund - (claims.map (proRata fund claims.sum)).sum < claims.countP (0 < ·) := by
  have hcover := split_covers fund h claims
  obtain ⟨claim, hm, hne⟩ : ∃ claim ∈ claims, 0 < claim := by
    by_contra hall
    push Not at hall
    exact h.ne' (List.sum_eq_zero fun claim hm => Nat.le_zero.mp (hall claim hm))
  have hpos : 0 < claims.countP (0 < ·) := List.countP_pos_iff.mpr ⟨claim, hm, by simpa using hne⟩
  have hlt : fund * claims.sum < _ := (Nat.lt_add_of_pos_right hpos).trans_le hcover
  have := Nat.lt_of_mul_lt_mul_right hlt
  omega

end Split
end MoleFinance
