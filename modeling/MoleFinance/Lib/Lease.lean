import MoleFinance.Lib.Trace
import Mathlib.Order.Nat

/-! A lock held by one of many parties until it goes stale. A machine whose steps move a lease
the way `Step` allows never has two parties holding it within the grace period. -/
namespace MoleFinance
open Trace

structure Lease (κ : Type) where
  holder : Option κ
  stamp : Nat

namespace Lease
variable {κ ι σ ο : Type} {grace now start : Nat} {k p : κ} {l l' : Lease κ}

/-- What one party may do to a lease at a time. -/
inductive Step (grace now : Nat) (k : κ) (l : Lease κ) : Lease κ → Prop
  | refused : Step grace now k l l
  | taken (t : Nat) (le : l.stamp ≤ t) (le_now : t ≤ now)
      (free : l.holder = none ∨ l.holder = some k ∨ l.stamp + grace < t) :
      Step grace now k l ⟨some k, t⟩
  | released (held : l.holder = some k) : Step grace now k l ⟨none, now⟩

theorem Step.stamp_le (h : Step grace now k l l') (hl : l.stamp ≤ now) :
    l.stamp ≤ l'.stamp ∧ l'.stamp ≤ now := by
  cases h with
  | refused => exact ⟨le_rfl, hl⟩
  | taken t le le_now free => exact ⟨le, le_now⟩
  | released held => exact ⟨hl, le_rfl⟩

theorem Step.holder_kept (h : Step grace now k l l') (hp : l.holder = some p)
    (hnow : now ≤ l.stamp + grace) (hkeep : k = p → l'.holder ≠ none) : l'.holder = some p := by
  cases h with
  | refused => exact hp
  | taken t le le_now free =>
    obtain free | free | free := free
    · rw [hp] at free
      cases free
    · exact free ▸ hp
    · omega
  | released held =>
    rw [hp] at held
    cases held
    exact absurd rfl (hkeep rfl)

section Machine
variable {step : ι → σ → ο × σ} {view : σ → Lease κ} {actor : ι → κ} {time : ι → Nat}
  {I : σ → Prop}

def Clocked (time : ι → Nat) (start : Nat) (is : List ι) : Prop :=
  (start :: is.map time).Pairwise (· ≤ ·)

instance (start : Nat) (is : List ι) : Decidable (Clocked time start is) :=
  inferInstanceAs (Decidable (List.Pairwise (· ≤ ·) (start :: is.map time)))

theorem Clocked.head {i : ι} {is : List ι} (h : Clocked time start (i :: is)) :
    start ≤ time i ∧ Clocked time (time i) is :=
  ⟨List.rel_of_pairwise_cons h List.mem_cons_self, List.Pairwise.of_cons h⟩

/-- The clock at one step: what came before is earlier, what follows later. -/
theorem Clocked.split {is js : List ι} {i : ι} (h : Clocked time start (is ++ i :: js)) :
    Clocked time start (is ++ [i]) ∧ (∀ j ∈ is ++ [i], time j ≤ time i) ∧ start ≤ time i ∧
      Clocked time (time i) js ∧ ∀ j ∈ js, time i ≤ time j := by
  induction is generalizing start with
  | nil =>
    obtain ⟨hstart, hjs⟩ := h.head
    refine ⟨by simpa [Clocked] using hstart, by simp, hstart, hjs, fun j hj => ?_⟩
    exact List.rel_of_pairwise_cons hjs (List.mem_map_of_mem hj)
  | cons k is ih =>
    obtain ⟨hk, h⟩ := h.head
    obtain ⟨hpre, hle, hki, hjs, hjs'⟩ := ih h
    refine ⟨?_, ?_, hk.trans hki, hjs, hjs'⟩
    · refine List.Pairwise.cons ?_ hpre
      intro t ht
      obtain ht | ht := List.mem_cons.mp ht
      · exact ht ▸ hk
      · exact hk.trans (List.rel_of_pairwise_cons hpre ht)
    · intro j hj
      obtain rfl | hj := List.mem_cons.mp hj
      · exact hki
      · exact hle j hj

variable (hstep : ∀ i s, I s → I (step i s).2 ∧
  Step grace (time i) (actor i) (view s) (view (step i s).2))
include hstep

theorem run_stamp_le {is : List ι} {s : σ} (hI : I s) (hs : (view s).stamp ≤ start)
    (hc : Clocked time start is) :
    (view s).stamp ≤ (view (run step is s).2).stamp ∧
      ∀ later, (∀ i ∈ is, time i ≤ later) → start ≤ later →
        (view (run step is s).2).stamp ≤ later := by
  induction is generalizing s start with
  | nil => exact ⟨le_rfl, fun later _ hl => hs.trans hl⟩
  | cons i is ih =>
    obtain ⟨hi, hc⟩ := hc.head
    obtain ⟨hI', hst⟩ := hstep i s hI
    obtain ⟨hle, hle'⟩ := hst.stamp_le (hs.trans hi)
    obtain ⟨hrun, hlater⟩ := ih hI' hle' hc
    refine ⟨hle.trans hrun, fun later hall _ => ?_⟩
    exact hlater later (fun j hj => hall j (List.mem_cons_of_mem i hj))
      (hall i List.mem_cons_self)

/-- A holder that does not let go is still there after any steps of the grace period. -/
theorem run_holder_kept {is : List ι} {s : σ} (hI : I s) (hs : (view s).stamp ≤ start)
    (hc : Clocked time start is) (hp : (view s).holder = some p)
    (hnow : ∀ i ∈ is, time i ≤ (view s).stamp + grace)
    (hkeep : ∀ i ∈ is, actor i = p → ∀ s, (view s).holder = some p →
      (view (step i s).2).holder ≠ none) :
    (view (run step is s).2).holder = some p := by
  induction is generalizing s start with
  | nil => exact hp
  | cons i is ih =>
    obtain ⟨hi, hc⟩ := hc.head
    obtain ⟨hI', hst⟩ := hstep i s hI
    obtain ⟨hle, hle'⟩ := hst.stamp_le (hs.trans hi)
    have hp' := hst.holder_kept hp (hnow i List.mem_cons_self)
      (fun he => hkeep i List.mem_cons_self he s hp)
    refine ih hI' hle' hc hp' (fun j hj => ?_) fun j hj => hkeep j (List.mem_cons_of_mem i hj)
    have hj' := hnow j (List.mem_cons_of_mem i hj)
    omega

end Machine
end Lease
end MoleFinance
