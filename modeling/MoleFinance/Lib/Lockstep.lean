import MoleFinance.Lib.Call
import MoleFinance.Lib.Trace

/-! Two calls in step. They return related results or fail alike, unless one of them is stopped
by a given error; then nothing is said about the other. -/
namespace MoleFinance.Call
open Trace
variable {ε σ τ α α' β β' : Type} {stop : ε}

inductive InStep (stop : ε) (R : α → α' → Prop) : Except ε α → Except ε α' → Prop where
  | ok {a : α} {a' : α'} (h : R a a') : InStep stop R (.ok a) (.ok a')
  | failed (e : ε) : InStep stop R (.error e) (.error e)
  | stopped (y : Except ε α') : InStep stop R (.error stop) y
  | stopped' (x : Except ε α) : InStep stop R x (.error stop)

namespace InStep
variable {R : α → α' → Prop} {Q : β → β' → Prop} {x : Except ε α} {y : Except ε α'}

theorem bind {f : α → Except ε β} {g : α' → Except ε β'} (h : InStep stop R x y)
    (hf : ∀ a a', x = .ok a → y = .ok a' → R a a' → InStep stop Q (f a) (g a')) :
    InStep stop Q (x >>= f) (y >>= g) := by
  cases h with
  | ok h => exact hf _ _ rfl rfl h
  | failed e => exact .failed e
  | stopped y => exact .stopped _
  | stopped' x => exact .stopped' _

theorem same {f : α → Except ε β} {g : α → Except ε β'}
    (hf : ∀ a, x = .ok a → InStep stop Q (f a) (g a)) : InStep stop Q (x >>= f) (x >>= g) := by
  cases hx : x with
  | ok a => exact hf a hx
  | error e => exact .failed e

theorem guard {c : Prop} [Decidable c] {e : ε} {f : Unit → Except ε β} {g : Unit → Except ε β'}
    (hf : c → InStep stop Q (f ()) (g ())) :
    InStep stop Q (ensure c e >>= f) (ensure c e >>= g) :=
  same fun _ h => hf (ensure_ok.mp h)

theorem ite {c : Prop} [Decidable c] {x₁ x₂ : Except ε α} {y₁ y₂ : Except ε α'}
    (h₁ : c → InStep stop R x₁ y₁) (h₂ : ¬ c → InStep stop R x₂ y₂) :
    InStep stop R (if c then x₁ else x₂) (if c then y₁ else y₂) := by
  by_cases hc : c
  · rw [if_pos hc, if_pos hc]
    exact h₁ hc
  · rw [if_neg hc, if_neg hc]
    exact h₂ hc

theorem map {f : α → β} {g : α' → β'} (h : InStep stop R x y)
    (hf : ∀ a a', x = .ok a → y = .ok a' → R a a' → Q (f a) (g a')) :
    InStep stop Q (f <$> x) (g <$> y) := by
  cases h with
  | ok h => exact .ok (hf _ _ rfl rfl h)
  | failed e => exact .failed e
  | stopped y => exact .stopped _
  | stopped' x => exact .stopped' _

/-- Calls that were not stopped return related results or the same error. -/
theorem unstopped (h : InStep stop R x y) (hx : x ≠ .error stop) (hy : y ≠ .error stop) :
    (∃ a a', x = .ok a ∧ y = .ok a' ∧ R a a') ∨ ∃ e, x = .error e ∧ y = .error e := by
  cases h with
  | ok h => exact .inl ⟨_, _, rfl, rfl, h⟩
  | failed e => exact .inr ⟨e, rfl, rfl⟩
  | stopped y => exact absurd rfl hx
  | stopped' x => exact absurd rfl hy

theorem commit {S : σ → τ → Prop} {c : EStateM ε σ α} {c' : EStateM ε τ α} {s : σ} {t : τ}
    (h : Agrees S (c s) (c' t)) :
    InStep stop (fun r r' => S r.1 r'.1 ∧ r.2 = r'.2) (commit c s) (commit c' t) := by
  unfold Call.commit
  cases hc : c s with
  | ok a s' =>
    cases hc' : c' t with
    | ok a' t' =>
      rw [hc, hc'] at h
      exact .ok ⟨h.2, h.1⟩
    | error e t' =>
      rw [hc, hc'] at h
      exact h.elim
  | error e s' =>
    cases hc' : c' t with
    | ok a' t' =>
      rw [hc, hc'] at h
      exact h.elim
    | error e' t' =>
      rw [hc, hc'] at h
      obtain rfl := h.1
      exact .failed e

end InStep

end MoleFinance.Call

namespace MoleFinance.Trace
variable {ε σ τ υ α ι ο : Type}

/-- Two machines that agree with a third one agree with each other. -/
theorem Agrees.meet {S : σ → υ → Prop} {T : τ → υ → Prop} {x : EStateM.Result ε σ α}
    {y : EStateM.Result ε τ α} {z : EStateM.Result ε υ α} (hx : Agrees S x z)
    (hy : Agrees T y z) : Agrees (fun s t => ∃ u, S s u ∧ T t u) x y := by
  cases z with
  | ok c u =>
    cases x with
    | ok a s =>
      cases y with
      | ok b t => exact ⟨hx.1.trans hy.1.symm, u, hx.2, hy.2⟩
      | error e t => exact hy.elim
    | error e s => exact hx.elim
  | error e u =>
    cases x with
    | ok a s => exact hx.elim
    | error d s =>
      cases y with
      | ok b t => exact hy.elim
      | error d' t => exact ⟨hx.1.trans hy.1.symm, u, hx.2, hy.2⟩

theorem AlongRun.and {step : ι → σ → ο × σ} {C D : ι → σ → Prop} {is : List ι} {s : σ}
    (hC : AlongRun step C is s) (hD : AlongRun step D is s) :
    AlongRun step (fun i s => C i s ∧ D i s) is s := by
  induction is generalizing s with
  | nil => trivial
  | cons i is ih => exact ⟨⟨hC.1, hD.1⟩, ih hC.2 hD.2⟩

/-- What the steps of two machines on the same input preserve, their runs preserve. -/
theorem run_related {κ : Type} {step : ι → σ → ο × σ} {step' : ι → τ → κ × τ} {R : σ → τ → Prop}
    {is : List ι} {s : σ} {t : τ}
    (hstep : ∀ i ∈ is, ∀ s t, R s t → R (step i s).2 (step' i t).2) (hR : R s t) :
    R (run step is s).2 (run step' is t).2 := by
  induction is generalizing s t with
  | nil => exact hR
  | cons i is ih =>
    obtain ⟨hi, his⟩ := List.forall_mem_cons.mp hstep
    exact ih his (hi s t hR)

/-- Two machines run on the same inputs, related along the run. -/
theorem run_lockstep {step : ι → σ → ο × σ} {step' : ι → τ → ο × τ}
    {R : σ → τ → Prop} {C : ι → σ → Prop} {D : ι → τ → Prop}
    (hstep : ∀ i s t, R s t → C i s → D i t →
      (step i s).1 = (step' i t).1 ∧ R (step i s).2 (step' i t).2) {is : List ι} {s : σ} {t : τ}
    (hR : R s t) (hC : AlongRun step C is s) (hD : AlongRun step' D is t) :
    (run step is s).1 = (run step' is t).1 ∧ R (run step is s).2 (run step' is t).2 := by
  induction is generalizing s t with
  | nil => exact ⟨rfl, hR⟩
  | cons i is ih =>
    obtain ⟨hc, hC⟩ := hC
    obtain ⟨hd, hD⟩ := hD
    obtain ⟨ho, hR'⟩ := hstep i s t hR hc hd
    obtain ⟨hos, hRs⟩ := ih hR' hC hD
    exact ⟨by simp only [run, ho, hos], hRs⟩

end MoleFinance.Trace
