import MoleFinance.Lib.Call
import MoleFinance.Lib.Trace

/-! Calls that stay within one part of a state. A family of projections names the parts. A call
local to a part works the same on that part alone and leaves every other part as it was. -/
namespace MoleFinance.Call
open Trace
variable {ε σ τ α β ρ ι : Type}

structure Local (π : ι → σ → σ) (i : ι) (m : EStateM ε σ α) (s : σ) : Prop where
  same : Agrees (fun s' t' => π i s' = t') (m s) (m (π i s))
  frame : ∀ j, j ≠ i → π j (final (m s)) = π j s

namespace Local
variable {π : ι → σ → σ} {i : ι} {m : EStateM ε σ α} {f : α → EStateM ε σ β} {s : σ}

theorem pure (a : α) : Local π i (Pure.pure a : EStateM ε σ α) s := ⟨⟨rfl, rfl⟩, fun _ _ => rfl⟩

theorem throw (e : ε) : Local π i (MonadExcept.throw e : EStateM ε σ α) s :=
  ⟨⟨rfl, rfl⟩, fun _ _ => rfl⟩

theorem orFail (x : Except ε α) : Local π i (orFail x : EStateM ε σ α) s := by
  cases x with
  | ok a => exact ⟨⟨rfl, rfl⟩, fun _ _ => rfl⟩
  | error e => exact ⟨⟨rfl, rfl⟩, fun _ _ => rfl⟩

theorem bind (hm : Local π i m s) (hf : ∀ a s', m s = .ok a s' → Local π i (f a) s') :
    Local π i (m >>= f) s := by
  have h := hm.same
  have hframe := hm.frame
  cases h1 : m s with
  | ok a s' =>
    have hf' := hf a s' h1
    rw [h1] at h hframe
    cases h2 : m (π i s) with
    | ok b t' =>
      rw [h2] at h
      obtain ⟨rfl, rfl⟩ := h
      refine ⟨?_, fun j hj => ?_⟩
      · rw [bind_of_ok h1, bind_of_ok h2]
        exact hf'.same
      · rw [bind_of_ok h1, hf'.frame j hj]
        exact hframe j hj
    | error e t' =>
      rw [h2] at h
      exact h.elim
  | error e s' =>
    rw [h1] at h hframe
    cases h2 : m (π i s) with
    | ok b t' =>
      rw [h2] at h
      exact h.elim
    | error e' t' =>
      rw [h2] at h
      obtain ⟨rfl, rfl⟩ := h
      refine ⟨?_, fun j hj => ?_⟩
      · rw [bind_of_error h1, bind_of_error h2]
        exact ⟨rfl, rfl⟩
      · rw [bind_of_error h1]
        exact hframe j hj

theorem read {f : ρ → EStateM ε σ β} (r : σ → ρ) (hr : r (π i s) = r s)
    (hf : Local π i (f (r s)) s) : Local π i (get >>= fun s => f (r s)) s := by
  refine ⟨?_, hf.frame⟩
  have h := hf.same
  simp only [get_bind, hr]
  exact h

theorem ite {c : Prop} [Decidable c] {m m' : EStateM ε σ α} (h : c → Local π i m s)
    (h' : ¬ c → Local π i m' s) : Local π i (if c then m else m') s := by
  split_ifs with hc
  · exact h hc
  · exact h' hc

theorem final_eq (h : Local π i m s) : π i (final (m s)) = final (m (π i s)) := h.same.final_rel

end Local

def Keeps (π : σ → τ) (m : EStateM ε σ α) : Prop := ∀ s, π (final (m s)) = π s

namespace Keeps
variable {π : σ → τ} {m : EStateM ε σ α} {f : α → EStateM ε σ β} {s : σ}

theorem pure (a : α) : Keeps π (Pure.pure a : EStateM ε σ α) := fun _ => rfl

theorem throw (e : ε) : Keeps π (MonadExcept.throw e : EStateM ε σ α) := fun _ => rfl

theorem orFail (x : Except ε α) : Keeps π (orFail x : EStateM ε σ α) := by
  intro s
  cases x <;> rfl

/-- The second call from the state and the answer the first one leaves. -/
theorem bind_at (hm : π (final (m s)) = π s)
    (hf : ∀ a s', m s = .ok a s' → π (final (f a s')) = π s') : π (final ((m >>= f) s)) = π s := by
  cases h : m s with
  | ok a s' =>
    rw [bind_of_ok h, hf a s' h]
    rw [h] at hm
    exact hm
  | error e s' =>
    rw [bind_of_error h]
    rw [h] at hm
    exact hm

theorem bind (hm : Keeps π m) (hf : ∀ a, Keeps π (f a)) : Keeps π (m >>= f) :=
  fun s => bind_at (hm s) (fun a s' _ => hf a s')

theorem ite {c : Prop} [Decidable c] {m m' : EStateM ε σ α} (h : Keeps π m)
    (h' : Keeps π m') : Keeps π (if c then m else m') := by
  split_ifs
  · exact h
  · exact h'

theorem of_ok {a : α} {s' : σ} (h : Keeps π m) (hs : m s = .ok a s') : π s' = π s := by
  have := h s
  rwa [hs] at this

end Keeps

def Moves (R : σ → σ → Prop) (m : EStateM ε σ α) : Prop := ∀ s, R s (final (m s))

namespace Moves
variable {R : σ → σ → Prop} {m : EStateM ε σ α} {f : α → EStateM ε σ β} {s : σ}

theorem pure [Std.Refl R] (a : α) : Moves R (Pure.pure a : EStateM ε σ α) := fun s => refl_of R s

theorem throw [Std.Refl R] (e : ε) : Moves R (MonadExcept.throw e : EStateM ε σ α) :=
  fun s => refl_of R s

theorem orFail [Std.Refl R] (x : Except ε α) : Moves R (orFail x : EStateM ε σ α) := by
  intro s
  cases x <;> exact refl_of R s

/-- The second call from the state and the answer the first one leaves. -/
theorem bind_at [IsTrans σ R] (hm : R s (final (m s)))
    (hf : ∀ a s', m s = .ok a s' → R s' (final (f a s'))) : R s (final ((m >>= f) s)) := by
  cases h : m s with
  | ok a s' =>
    rw [bind_of_ok h]
    rw [h] at hm
    exact trans_of R hm (hf a s' h)
  | error e s' =>
    rw [bind_of_error h]
    rw [h] at hm
    exact hm

theorem bind [IsTrans σ R] (hm : Moves R m) (hf : ∀ a, Moves R (f a)) : Moves R (m >>= f) :=
  fun s => bind_at (hm s) (fun a s' _ => hf a s')

theorem ite {c : Prop} [Decidable c] {m m' : EStateM ε σ α} (h : Moves R m)
    (h' : Moves R m') : Moves R (if c then m else m') := by
  split_ifs
  · exact h
  · exact h'

theorem of_ok {a : α} {s' : σ} (h : Moves R m) (hs : m s = .ok a s') : R s s' := by
  have := h s
  rwa [hs] at this

end Moves
end MoleFinance.Call
