import Mathlib.Order.Nat

/-! Steps taken one after another, each with its number, and a measure that goes down until there
is nothing left to do. -/
namespace MoleFinance
namespace Descent
variable {σ : Type}

def iterate (step : Nat → σ → σ) (s : σ) : Nat → σ
  | 0 => s
  | n + 1 => step n (iterate step s n)

variable {step : Nat → σ → σ} {I D : σ → Prop} {measure : σ → Nat} {s : σ}

theorem iterate_keeps (hstep : ∀ n s, I s → I (step n s)) (h : I s) (n : Nat) :
    I (iterate step s n) := by
  induction n with
  | zero => exact h
  | succ n ih => exact hstep n _ ih

theorem done_from (hstep : ∀ n s, I s → I (step n s))
    (hdone : ∀ n s, I s → D s → D (step n s)) (h : I s) {m n : Nat} (hmn : m ≤ n)
    (hd : D (iterate step s m)) : D (iterate step s n) := by
  induction hmn with
  | refl => exact hd
  | step _ ih => exact hdone _ _ (iterate_keeps hstep h _) ih

/-- Until it is done, a run has used up one unit of the measure with every step. -/
theorem measure_spent (hstep : ∀ n s, I s → I (step n s))
    (hdown : ∀ n s, I s → ¬ D s → measure (step n s) < measure s) (h : I s) (n : Nat) :
    (∃ m, m < n ∧ D (iterate step s m)) ∨ measure (iterate step s n) + n ≤ measure s := by
  induction n with
  | zero => exact .inr (Nat.le_refl _)
  | succ n ih =>
    cases ih with
    | inl hd =>
      obtain ⟨m, hm, hd⟩ := hd
      exact .inl ⟨m, Nat.lt_succ_of_lt hm, hd⟩
    | inr hle =>
      by_cases hd : D (iterate step s n)
      · exact .inl ⟨n, Nat.lt_succ_self n, hd⟩
      · have hlt := hdown n _ (iterate_keeps hstep h n) hd
        refine .inr ?_
        rw [iterate]
        omega

/-- It is done after as many steps as the measure says, and from then on. -/
theorem settles (hstep : ∀ n s, I s → I (step n s))
    (hdone : ∀ n s, I s → D s → D (step n s))
    (hdown : ∀ n s, I s → ¬ D s → measure (step n s) < measure s) (h : I s) {n : Nat}
    (hn : measure s ≤ n) : D (iterate step s n) := by
  cases measure_spent hstep hdown h (n + 1) with
  | inl hd =>
    obtain ⟨m, hm, hd⟩ := hd
    exact done_from hstep hdone h (Nat.le_of_lt_succ hm) hd
  | inr hle => omega

end Descent
end MoleFinance
