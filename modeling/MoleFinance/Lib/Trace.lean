import Mathlib.Tactic.Common

/-! Two machines with the same visible behaviour. A call either returns or fails, and keeps
its state both ways; a trace collects what the visible calls answer, and calls of a second
kind may be inserted anywhere. -/
namespace MoleFinance.Trace
variable {ε σ τ α β ι κ ο : Type}

def Agrees (R : σ → τ → Prop) : EStateM.Result ε σ α → EStateM.Result ε τ α → Prop
  | .ok a s, .ok b t => a = b ∧ R s t
  | .error e s, .error d t => e = d ∧ R s t
  | _, _ => False

def answer : EStateM.Result ε σ α → Except ε α
  | .ok a _ => .ok a
  | .error e _ => .error e

def final : EStateM.Result ε σ α → σ
  | .ok _ s => s
  | .error _ s => s

theorem Agrees.answer_eq {R : σ → τ → Prop} {x : EStateM.Result ε σ α}
    {y : EStateM.Result ε τ α} (h : Agrees R x y) : answer x = answer y := by
  cases x with
  | ok a s =>
    cases y with
    | ok b t => exact congrArg Except.ok h.1
    | error d t => exact h.elim
  | error e s =>
    cases y with
    | ok b t => exact h.elim
    | error d t => exact congrArg Except.error h.1

theorem Agrees.final_rel {R : σ → τ → Prop} {x : EStateM.Result ε σ α}
    {y : EStateM.Result ε τ α} (h : Agrees R x y) : R (final x) (final y) := by
  cases x with
  | ok a s =>
    cases y with
    | ok b t => exact h.2
    | error d t => exact h.elim
  | error e s =>
    cases y with
    | ok b t => exact h.elim
    | error d t => exact h.2

theorem Agrees.map {R : σ → τ → Prop} {x : EStateM ε σ α} {y : EStateM ε τ α} {s : σ} {t : τ}
    (h : Agrees R (x s) (y t)) (f : α → β) :
    Agrees R ((do let a ← x; return f a : EStateM ε σ β) s)
      ((do let a ← y; return f a : EStateM ε τ β) t) := by
  simp only [bind, EStateM.bind]
  cases hx : x s with
  | ok a s' =>
    cases hy : y t with
    | ok b t' =>
      rw [hx, hy] at h
      exact ⟨congrArg f h.1, h.2⟩
    | error d t' =>
      rw [hx, hy] at h
      exact h.elim
  | error e s' =>
    cases hy : y t with
    | ok b t' =>
      rw [hx, hy] at h
      exact h.elim
    | error d t' =>
      rw [hx, hy] at h
      exact h

/-- Answers and last state of a run of visible calls. -/
def run (step : ι → σ → ο × σ) : List ι → σ → List ο × σ
  | [], s => ([], s)
  | i :: is, s => ((step i s).1 :: (run step is (step i s).2).1, (run step is (step i s).2).2)

theorem run_append (step : ι → σ → ο × σ) (is js : List ι) (s : σ) :
    run step (is ++ js) s
      = ((run step is s).1 ++ (run step js (run step is s).2).1,
          (run step js (run step is s).2).2) := by
  induction is generalizing s with
  | nil => rfl
  | cons i is ih => simp only [List.cons_append, run, ih]

theorem run_preserves_of {step : ι → σ → ο × σ} {I : σ → Prop} {is : List ι} {s : σ}
    (hstep : ∀ i ∈ is, ∀ s, I s → I (step i s).2) (h : I s) : I (run step is s).2 := by
  induction is generalizing s with
  | nil => exact h
  | cons i is ih =>
    obtain ⟨hi, his⟩ := List.forall_mem_cons.mp hstep
    exact ih his (hi s h)

theorem run_preserves {step : ι → σ → ο × σ} {I : σ → Prop} {is : List ι} {s : σ}
    (hstep : ∀ i s, I s → I (step i s).2) (h : I s) : I (run step is s).2 :=
  run_preserves_of (fun i _ => hstep i) h

def trace (step : ι → σ → ο × σ) (silent : κ → σ → σ) : List (ι ⊕ κ) → σ → List ο × σ
  | [], s => ([], s)
  | .inl i :: is, s =>
    ((step i s).1 :: (trace step silent is (step i s).2).1,
      (trace step silent is (step i s).2).2)
  | .inr k :: is, s => trace step silent is (silent k s)

theorem trace_append (step : ι → σ → ο × σ) (silent : κ → σ → σ) (is js : List (ι ⊕ κ)) (s : σ) :
    trace step silent (is ++ js) s = ((trace step silent is s).1 ++
      (trace step silent js (trace step silent is s).2).1,
        (trace step silent js (trace step silent is s).2).2) := by
  induction is generalizing s with
  | nil => rfl
  | cons x is ih =>
    cases x with
    | inl i => simp only [List.cons_append, trace, ih]
    | inr k => simp only [List.cons_append, trace, ih]

/-- A condition on the state before each visible call of a run. -/
def Along (step : ι → σ → ο × σ) (silent : κ → σ → σ) (C : ι → σ → Prop) :
    List (ι ⊕ κ) → σ → Prop
  | [], _ => True
  | .inl i :: is, s => C i s ∧ Along step silent C is (step i s).2
  | .inr k :: is, s => Along step silent C is (silent k s)

instance decidableAlong (step : ι → σ → ο × σ) (silent : κ → σ → σ) (C : ι → σ → Prop)
    [∀ i s, Decidable (C i s)] : ∀ is s, Decidable (Along step silent C is s)
  | [], _ => isTrue trivial
  | .inl i :: is, s =>
    have := decidableAlong step silent C is (step i s).2
    inferInstanceAs (Decidable (C i s ∧ Along step silent C is (step i s).2))
  | .inr k :: is, s => decidableAlong step silent C is (silent k s)

def visible : List (ι ⊕ κ) → List ι
  | [] => []
  | .inl i :: is => i :: visible is
  | .inr _ :: is => visible is

def AlongRun (step : ι → σ → ο × σ) (C : ι → σ → Prop) : List ι → σ → Prop
  | [], _ => True
  | i :: is, s => C i s ∧ AlongRun step C is (step i s).2

/-- A condition on every answer of a run is one on the state before each call. -/
theorem answers_iff_along {step : ι → σ → ο × σ} {P : ο → Prop} {is : List ι} {s : σ} :
    (∀ o ∈ (run step is s).1, P o) ↔ AlongRun step (fun i s => P (step i s).1) is s := by
  induction is generalizing s with
  | nil => simp [run, AlongRun]
  | cons i is ih => simp only [run, AlongRun, List.forall_mem_cons, ih]

/-- Conditions that agree where an invariant holds, which the second one keeps. -/
theorem alongRun_congr_of {step : ι → σ → ο × σ} {I : σ → Prop} {C D : ι → σ → Prop}
    (hstep : ∀ i s, I s → D i s → I (step i s).2) (h : ∀ i s, I s → (C i s ↔ D i s))
    {is : List ι} {s : σ} (hs : I s) : AlongRun step C is s ↔ AlongRun step D is s := by
  induction is generalizing s with
  | nil => rfl
  | cons i is ih =>
    refine (and_congr_left' (h i s hs)).trans (and_congr_right fun hd => ?_)
    exact ih (hstep i s hs hd)

theorem alongRun_congr {step : ι → σ → ο × σ} {I : σ → Prop} {C D : ι → σ → Prop}
    (hstep : ∀ i s, I s → I (step i s).2) (h : ∀ i s, I s → (C i s ↔ D i s)) {is : List ι}
    {s : σ} (hs : I s) : AlongRun step C is s ↔ AlongRun step D is s :=
  alongRun_congr_of (fun i s hi _ => hstep i s hi) h hs

theorem alongRun_forall {step : ι → σ → ο × σ} {C : ι → Prop} {is : List ι} {s : σ} :
    AlongRun step (fun i _ => C i) is s ↔ ∀ i ∈ is, C i := by
  induction is generalizing s with
  | nil => simp [AlongRun]
  | cons i is ih => rw [AlongRun, ih, List.forall_mem_cons]

/-- Where a condition is what keeps an invariant, it holds along a run exactly if the invariant
    holds in every state of the run. -/
theorem alongRun_iff_states {step : ι → σ → ο × σ} {I : σ → Prop} {C : ι → σ → Prop}
    (hstep : ∀ i s, I s → (C i s ↔ I (step i s).2)) {is : List ι} {s : σ} (h : I s) :
    AlongRun step C is s ↔
      ∀ before after, is = before ++ after → I (run step before s).2 := by
  induction is generalizing s with
  | nil =>
    refine iff_of_true trivial fun before after hnil => ?_
    rw [(List.append_eq_nil_iff.mp hnil.symm).1]
    exact h
  | cons i is ih =>
    constructor
    · rintro ⟨hC, halong⟩ before after hsplit
      cases before with
      | nil => exact h
      | cons j before =>
        obtain ⟨rfl, hrest⟩ := List.cons.inj hsplit
        exact (ih ((hstep i s h).mp hC)).mp halong before after hrest
    · intro hall
      have hnext : I (step i s).2 := hall [i] is rfl
      refine ⟨(hstep i s h).mpr hnext, (ih hnext).mpr fun before after hsplit => ?_⟩
      exact hall (i :: before) after (congrArg (i :: ·) hsplit)

theorem along_of_answers {step : ι → σ → ο × σ} {silent : κ → σ → σ} {P : ο → Prop}
    {is : List (ι ⊕ κ)} {s : σ} (h : ∀ o ∈ (trace step silent is s).1, P o) :
    Along step silent (fun i s => P (step i s).1) is s := by
  induction is generalizing s with
  | nil => trivial
  | cons x is ih =>
    cases x with
    | inl i =>
      exact ⟨h _ List.mem_cons_self, ih (fun o ho => h o (List.mem_cons_of_mem _ ho))⟩
    | inr k => exact ih h

theorem Along.and {step : ι → σ → ο × σ} {silent : κ → σ → σ} {C D : ι → σ → Prop}
    {is : List (ι ⊕ κ)} {s : σ} (hC : Along step silent C is s) (hD : Along step silent D is s) :
    Along step silent (fun i s => C i s ∧ D i s) is s := by
  induction is generalizing s with
  | nil => trivial
  | cons x is ih =>
    cases x with
    | inl i => exact ⟨⟨hC.1, hD.1⟩, ih hC.2 hD.2⟩
    | inr k => exact ih hC hD

/-- What the steps that meet a condition preserve, and all silent calls, a trace preserves. -/
theorem trace_preserves {step : ι → σ → ο × σ} {silent : κ → σ → σ} {C : ι → σ → Prop}
    {I : σ → Prop} (hstep : ∀ i s, I s → C i s → I (step i s).2)
    (hsilent : ∀ k s, I s → I (silent k s)) {is : List (ι ⊕ κ)} {s : σ} (h : I s)
    (hC : Along step silent C is s) : I (trace step silent is s).2 := by
  induction is generalizing s with
  | nil => exact h
  | cons x is ih =>
    cases x with
    | inl i => exact ih (hstep i s h hC.1) hC.2
    | inr k => exact ih (hsilent k s h) hC

/-- A machine refined step by step answers like its abstraction, silent calls unseen. -/
theorem trace_refines {step : ι → σ → ο × σ} {silent : κ → σ → σ} {astep : ι → τ → ο × τ}
    {R : σ → τ → Prop} {C : ι → σ → Prop} {D : ι → τ → Prop}
    (hstep : ∀ i s t, R s t → C i s → D i t →
      (step i s).1 = (astep i t).1 ∧ R (step i s).2 (astep i t).2)
    (hsilent : ∀ k s t, R s t → R (silent k s) t) {is : List (ι ⊕ κ)} {s : σ} {t : τ}
    (hR : R s t) (hC : Along step silent C is s) (hD : AlongRun astep D (visible is) t) :
    (trace step silent is s).1 = (run astep (visible is) t).1 ∧
      R (trace step silent is s).2 (run astep (visible is) t).2 := by
  induction is generalizing s t with
  | nil => exact ⟨rfl, hR⟩
  | cons x is ih =>
    cases x with
    | inl i =>
      obtain ⟨hc, hC⟩ := hC
      obtain ⟨hd, hD⟩ := hD
      obtain ⟨ho, hR'⟩ := hstep i s t hR hc hd
      obtain ⟨hos, hRs⟩ := ih hR' hC hD
      exact ⟨by simp only [trace, run, visible, ho, hos], hRs⟩
    | inr k => exact ih (hsilent k s t hR) hC hD

/-- A condition of the abstract run follows from one checked along the concrete run. -/
theorem along_abstract {step : ι → σ → ο × σ} {silent : κ → σ → σ} {astep : ι → τ → ο × τ}
    {R : σ → τ → Prop} {C : ι → σ → Prop} {D : ι → τ → Prop}
    (hstep : ∀ i s t, R s t → C i s → D i t ∧ R (step i s).2 (astep i t).2)
    (hsilent : ∀ k s t, R s t → R (silent k s) t) {is : List (ι ⊕ κ)} {s : σ} {t : τ}
    (hR : R s t) (hC : Along step silent C is s) : AlongRun astep D (visible is) t := by
  induction is generalizing s t with
  | nil => trivial
  | cons x is ih =>
    cases x with
    | inl i =>
      obtain ⟨hd, hR'⟩ := hstep i s t hR hC.1
      exact ⟨hd, ih hR' hC.2⟩
    | inr k => exact ih (hsilent k s t hR) hC

end MoleFinance.Trace
