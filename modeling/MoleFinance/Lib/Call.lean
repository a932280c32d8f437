import Mathlib.Tactic.Common

/-! Inversion rules for fallible calls. `Except ε` models a call whose writes
the caller drops on failure, `EStateM ε σ` a call that keeps the writes made
before it failed. -/
namespace MoleFinance.Call
variable {ε σ α β : Type}

/-- A guard in front of a statement: `if !c { return Err(e) }`. -/
def ensure (c : Prop) [Decidable c] (e : ε) : Except ε Unit :=
  if c then .ok () else .error e

theorem ensure_ok {c : Prop} [Decidable c] {e : ε} {u : Unit} :
    ensure c e = .ok u ↔ c := by
  unfold ensure
  split <;> simp_all

theorem ensure_of {c : Prop} [Decidable c] (h : c) (e : ε) : ensure c e = .ok () :=
  if_pos h

theorem ensure_not {c : Prop} [Decidable c] (h : ¬c) (e : ε) : ensure c e = .error e :=
  if_neg h

theorem toOption_some {ε α : Type*} {x : Except ε α} {a : α} :
    x.toOption = some a ↔ x = .ok a := by
  cases x with
  | error e => simp [Except.toOption]
  | ok b => simp [Except.toOption]

theorem except_bind_ok {x : Except ε α} {f : α → Except ε β} {b : β} :
    (x >>= f) = .ok b ↔ ∃ a, x = .ok a ∧ f a = .ok b := by
  cases x with
  | error e => simp [bind, Except.bind]
  | ok a => simp [bind, Except.bind]

@[simp] theorem ok_bind (a : α) (f : α → Except ε β) :
    ((Except.ok a : Except ε α) >>= f) = f a := rfl

@[simp] theorem error_bind (e : ε) (f : α → Except ε β) :
    ((Except.error e : Except ε α) >>= f) = .error e := rfl

theorem except_bind_error {x : Except ε α} {f : α → Except ε β} {e : ε} :
    (x >>= f) = .error e ↔ x = .error e ∨ ∃ a, x = .ok a ∧ f a = .error e := by
  cases x with
  | error d => simp [bind, Except.bind]
  | ok a => simp [bind, Except.bind]

theorem except_map_error {x : Except ε α} {f : α → β} {e : ε} :
    (f <$> x) = .error e ↔ x = .error e := by
  cases x with
  | error d => simp [Functor.map, Except.map]
  | ok a => simp [Functor.map, Except.map]

theorem except_map_ok {x : Except ε α} {f : α → β} {b : β} :
    (f <$> x) = .ok b ↔ ∃ a, x = .ok a ∧ f a = b := by
  cases x with
  | error e => simp [Functor.map, Except.map]
  | ok a => simp [Functor.map, Except.map]

def orFail (x : Except ε α) : EStateM ε σ α := fun s =>
  match x with
  | .ok a => .ok a s
  | .error e => .error e s

/-- Forget the state of a failed call: its caller restores a snapshot. -/
def commit (x : EStateM ε σ α) (s : σ) : Except ε (σ × α) :=
  match x s with
  | .ok a s' => .ok (s', a)
  | .error e _ => .error e

theorem commit_ok {x : EStateM ε σ α} {s s' : σ} {a : α} :
    commit x s = .ok (s', a) ↔ x s = .ok a s' := by
  unfold commit
  cases h : x s with
  | ok b t => simp [and_comm]
  | error e t => simp

theorem commit_error {x : EStateM ε σ α} {s : σ} {e : ε} :
    commit x s = .error e ↔ ∃ s', x s = .error e s' := by
  unfold commit
  cases h : x s with
  | ok b t => simp
  | error d t => simp

theorem bind_ok {x : EStateM ε σ α} {f : α → EStateM ε σ β} {s s'' : σ} {b : β} :
    (x >>= f) s = .ok b s'' ↔ ∃ a s', x s = .ok a s' ∧ f a s' = .ok b s'' := by
  simp only [bind, EStateM.bind]
  cases h : x s with
  | ok a t => simp
  | error e t => simp

theorem bind_of_ok {x : EStateM ε σ α} {s s' : σ} {a : α} (h : x s = .ok a s')
    (f : α → EStateM ε σ β) : (x >>= f) s = f a s' := by
  simp only [bind, EStateM.bind, h]

theorem bind_of_error {x : EStateM ε σ α} {s s' : σ} {e : ε} (h : x s = .error e s')
    (f : α → EStateM ε σ β) : (x >>= f) s = .error e s' := by
  simp only [bind, EStateM.bind, h]

@[simp] theorem pure_run (a : α) (s : σ) : (pure a : EStateM ε σ α) s = .ok a s :=
  EStateM.run_pure a s

@[simp] theorem get_run (s : σ) : (get : EStateM ε σ σ) s = .ok s s :=
  EStateM.run_get s

@[simp] theorem set_run (s t : σ) : (set t : EStateM ε σ PUnit) s = .ok ⟨⟩ t :=
  EStateM.run_set t s

@[simp] theorem throw_run (e : ε) (s : σ) : (throw e : EStateM ε σ α) s = .error e s := by
  change EStateM.throw e s = _
  rfl

@[simp] theorem get_bind (f : σ → EStateM ε σ β) (s : σ) :
    ((get : EStateM ε σ σ) >>= f) s = f s s := rfl

@[simp] theorem set_bind (t : σ) (f : PUnit → EStateM ε σ β) (s : σ) :
    ((set t : EStateM ε σ PUnit) >>= f) s = f ⟨⟩ t := rfl

@[simp] theorem map_set_run (f : PUnit → α) (t s : σ) :
    (f <$> (set t : EStateM ε σ PUnit)) s = .ok (f ⟨⟩) t :=
  congrFun (map_eq_pure_bind f (set t : EStateM ε σ PUnit)) s

@[simp] theorem orFail_ok_bind (a : α) (f : α → EStateM ε σ β) (s : σ) :
    ((orFail (.ok a) : EStateM ε σ α) >>= f) s = f a s := rfl

@[simp] theorem orFail_error_bind (e : ε) (f : α → EStateM ε σ β) (s : σ) :
    ((orFail (.error e) : EStateM ε σ α) >>= f) s = .error e s := rfl

theorem orFail_run_ok {x : Except ε α} {s s' : σ} {a : α} :
    (orFail x : EStateM ε σ α) s = .ok a s' ↔ x = .ok a ∧ s = s' := by
  cases x with
  | ok b => simp [orFail]
  | error e => simp [orFail]

theorem orFail_bind_run_ok {x : Except ε α} {f : α → EStateM ε σ β} {s s' : σ} {b : β} :
    ((orFail x : EStateM ε σ α) >>= f) s = .ok b s' ↔ ∃ a, x = .ok a ∧ f a s = .ok b s' := by
  cases x with
  | ok a => simp
  | error e => simp

def Spares (e : ε) (x : Except ε α) : Prop := x ≠ .error e

namespace Spares
variable {e d : ε}

@[simp] theorem ok (a : α) : Spares e (.ok a : Except ε α) := by
  intro h
  cases h

@[simp] theorem pure (a : α) : Spares e (pure a : Except ε α) := ok a

@[simp] theorem error_iff : Spares e (.error d : Except ε α) ↔ d ≠ e := by
  simp [Spares]

@[simp] theorem ensure_iff {c : Prop} [Decidable c] : Spares e (ensure c d) ↔ (¬c → d ≠ e) := by
  by_cases hc : c
  · rw [ensure_of hc]
    simp [hc]
  · rw [ensure_not hc]
    simp [hc]

@[simp] theorem bind_iff {x : Except ε α} {f : α → Except ε β} :
    Spares e (x >>= f) ↔ Spares e x ∧ ∀ a, x = .ok a → Spares e (f a) := by
  cases x with
  | ok a => simp
  | error d' => simp

@[simp] theorem map_iff {x : Except ε α} {f : α → β} : Spares e (f <$> x) ↔ Spares e x := by
  simp [Spares, except_map_error]

@[simp] theorem ite_iff {c : Prop} [Decidable c] {x y : Except ε α} :
    Spares e (if c then x else y) ↔ (c → Spares e x) ∧ (¬c → Spares e y) := by
  by_cases hc : c
  · simp [hc]
  · simp [hc]

end Spares

def SparesAt (e : ε) (x : EStateM ε σ α) (s : σ) : Prop := ∀ s', x s ≠ .error e s'

namespace SparesAt
variable {e d : ε} {s : σ}

@[simp] theorem pure (a : α) : SparesAt e (pure a : EStateM ε σ α) s := by
  simp [SparesAt]

@[simp] theorem throw_iff : SparesAt e (throw d : EStateM ε σ α) s ↔ d ≠ e := by
  simp [SparesAt]

@[simp] theorem get : SparesAt e (get : EStateM ε σ σ) s := by
  simp [SparesAt]

@[simp] theorem set (t : σ) : SparesAt e (set t : EStateM ε σ PUnit) s := by
  simp [SparesAt]

@[simp] theorem orFail_iff {x : Except ε α} :
    SparesAt e (orFail x : EStateM ε σ α) s ↔ Spares e x := by
  cases x with
  | ok a => simp [SparesAt, orFail]
  | error d' => simp [SparesAt, orFail]

@[simp] theorem bind_iff {x : EStateM ε σ α} {f : α → EStateM ε σ β} :
    SparesAt e (x >>= f) s ↔ SparesAt e x s ∧ ∀ a s', x s = .ok a s' → SparesAt e (f a) s' := by
  unfold SparesAt
  cases hx : x s with
  | ok a t => simp [bind_of_ok hx]
  | error d' t => simp [bind_of_error hx]

@[simp] theorem map_iff {x : EStateM ε σ α} {f : α → β} :
    SparesAt e (f <$> x) s ↔ SparesAt e x s := by
  have hm : (f <$> x : EStateM ε σ β) = x >>= fun a => Pure.pure (f a) := rfl
  rw [hm, bind_iff]
  simp

@[simp] theorem ite_iff {c : Prop} [Decidable c] {x y : EStateM ε σ α} :
    SparesAt e (if c then x else y) s ↔ (c → SparesAt e x s) ∧ (¬c → SparesAt e y s) := by
  by_cases hc : c
  · simp [hc]
  · simp [hc]

@[simp] theorem commit_iff {x : EStateM ε σ α} : Spares e (commit x s) ↔ SparesAt e x s := by
  simp [Spares, SparesAt, commit_error]

end SparesAt

/-- From a state with `P` the call returns in `Q` or fails in `E`. -/
def Meets (P : σ → Prop) (x : EStateM ε σ α) (Q : α → σ → Prop) (E : ε → σ → Prop) : Prop :=
  ∀ s, P s → match x s with
    | .ok a s' => Q a s'
    | .error e s' => E e s'

namespace Meets
variable {P : σ → Prop} {Q : α → σ → Prop} {R : β → σ → Prop} {E : ε → σ → Prop}

theorem ok {x : EStateM ε σ α} (h : Meets P x Q E) {s s' : σ} {a : α} (hs : P s)
    (hx : x s = .ok a s') : Q a s' := by
  have := h s hs
  rwa [hx] at this

theorem error {x : EStateM ε σ α} (h : Meets P x Q E) {s s' : σ} {e : ε} (hs : P s)
    (hx : x s = .error e s') : E e s' := by
  have := h s hs
  rwa [hx] at this

theorem intro {x : EStateM ε σ α} (hok : ∀ s a s', P s → x s = .ok a s' → Q a s')
    (herror : ∀ s e s', P s → x s = .error e s' → E e s') : Meets P x Q E := by
  intro s hs
  cases hx : x s with
  | ok a s' => exact hok s a s' hs hx
  | error e s' => exact herror s e s' hs hx

theorem bind {x : EStateM ε σ α} {f : α → EStateM ε σ β} (hx : Meets P x Q E)
    (hf : ∀ a, Meets (Q a) (f a) R E) : Meets P (x >>= f) R E := by
  intro s hs
  cases h : x s with
  | ok a s' =>
    rw [bind_of_ok h]
    exact hf a s' (hx.ok hs h)
  | error e s' =>
    rw [bind_of_error h]
    exact hx.error hs h

theorem pure {a : α} (h : ∀ s, P s → Q a s) : Meets P (pure a : EStateM ε σ α) Q E := h

theorem throw {e : ε} (h : ∀ s, P s → E e s) : Meets P (throw e : EStateM ε σ α) Q E := h

theorem modify_bind {g : σ → σ} {f : PUnit → EStateM ε σ β} {Q : σ → Prop}
    (hg : ∀ s, P s → Q (g s)) (h : Meets Q (f ⟨⟩) R E) : Meets P (modify g >>= f) R E :=
  fun s hs => h (g s) (hg s hs)

theorem get_bind {f : σ → EStateM ε σ β} (h : ∀ s, P s → Meets (· = s) (f s) R E) :
    Meets P (get >>= f) R E := fun s hs => h s hs s rfl

theorem set_bind {t : σ} {f : PUnit → EStateM ε σ β} (h : Meets (· = t) (f ⟨⟩) R E) :
    Meets P (set t >>= f) R E := fun _ _ => h t rfl

theorem set {t : σ} {Q : PUnit → σ → Prop} (h : Q ⟨⟩ t) :
    Meets P (set t : EStateM ε σ PUnit) Q E := fun _ _ => h

theorem ensure_bind {c : Prop} [Decidable c] {e : ε} {f : Unit → EStateM ε σ β}
    (hok : c → Meets P (f ()) R E) (herror : ∀ s, P s → E e s) :
    Meets P (orFail (ensure c e) >>= f) R E := by
  by_cases hc : c
  · rw [ensure_of hc]
    exact hok hc
  · rw [ensure_not hc]
    exact herror

theorem orFail_bind {x : Except ε α} {f : α → EStateM ε σ β}
    (hok : ∀ a, x = .ok a → Meets P (f a) R E) (herror : ∀ e, x = .error e → ∀ s, P s → E e s) :
    Meets P (orFail x >>= f) R E := by
  cases hx : x with
  | ok a => exact hok a hx
  | error e => exact herror e hx

theorem ite {c : Prop} [Decidable c] {x y : EStateM ε σ α} (hx : c → Meets P x Q E)
    (hy : ¬c → Meets P y Q E) : Meets P (if c then x else y) Q E := by
  by_cases hc : c
  · rw [if_pos hc]
    exact hx hc
  · rw [if_neg hc]
    exact hy hc

theorem weaken {P' : σ → Prop} {x : EStateM ε σ α} (h : Meets P x Q E) (hP : ∀ s, P' s → P s) :
    Meets P' x Q E := fun s hs => h s (hP s hs)

theorem imp {Q' : α → σ → Prop} {x : EStateM ε σ α} (h : Meets P x Q E)
    (hQ : ∀ a s, Q a s → Q' a s) : Meets P x Q' E :=
  .intro (fun _ a s' hs hx => hQ a s' (h.ok hs hx)) (fun _ _ _ hs hx => h.error hs hx)

theorem weakenError {E' : ε → σ → Prop} {x : EStateM ε σ α} (h : Meets P x Q E)
    (hE : ∀ e s, E e s → E' e s) : Meets P x Q E' :=
  .intro (fun _ _ _ hs hx => h.ok hs hx) (fun _ e s' hs hx => hE e s' (h.error hs hx))

end Meets

end MoleFinance.Call
