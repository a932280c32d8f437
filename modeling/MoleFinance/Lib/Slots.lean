import Mathlib.Data.List.Perm.Basic
import Mathlib.Tactic.Common

/-! Rows of slots that are filled from the left. A filled slot is no longer available; what
the available ones hold stays in order. -/
namespace MoleFinance
variable {α : Type}

structure Slot (α : Type) where
  available : Bool
  item : α

namespace Slot

def ofList (xs : List α) : List (Slot α) := xs.map (⟨true, ·⟩)

def items (ss : List (Slot α)) : List α := ss.map (·.item)

def free : List (Slot α) → List α
  | [] => []
  | s :: ss => if s.available = true then s.item :: free ss else free ss

def taken : List (Slot α) → List α
  | [] => []
  | s :: ss => if s.available = true then taken ss else s.item :: taken ss

def fillFirst (p : α → Bool) (f : α → α) : List (Slot α) → Option (List (Slot α))
  | [] => none
  | s :: ss =>
    if s.available = true ∧ p s.item = true then some (⟨false, f s.item⟩ :: ss)
    else (fillFirst p f ss).map (s :: ·)

@[simp] theorem free_ofList (xs : List α) : free (ofList xs) = xs := by
  induction xs with
  | nil => rfl
  | cons x xs ih => exact congrArg (x :: ·) ih

@[simp] theorem taken_ofList (xs : List α) : taken (ofList xs) = [] := by
  induction xs with
  | nil => rfl
  | cons x xs ih => exact ih

theorem map_perm {β : Type} (f : Slot α → β) (ss : List (Slot α)) :
    (ss.map f).Perm ((taken ss).map (fun a => f ⟨false, a⟩)
      ++ (free ss).map (fun a => f ⟨true, a⟩)) := by
  induction ss with
  | nil => exact .nil
  | cons s ss ih =>
    obtain ⟨avail, a⟩ := s
    cases avail with
    | false => exact ih.cons (f ⟨false, a⟩)
    | true => exact (ih.cons (f ⟨true, a⟩)).trans List.perm_middle.symm

theorem items_perm (ss : List (Slot α)) : (items ss).Perm (taken ss ++ free ss) := by
  have := map_perm (·.item) ss
  rwa [List.map_id', List.map_id'] at this

theorem fillFirst_none {p : α → Bool} {f : α → α} {ss : List (Slot α)} :
    fillFirst p f ss = none ↔ ∀ a ∈ free ss, p a = false := by
  induction ss with
  | nil => simp [fillFirst, free]
  | cons s ss ih =>
    unfold fillFirst free
    by_cases ha : s.available = true
    · by_cases hp : p s.item = true
      · simp [ha, hp]
      · simp [ha, hp, ih]
    · simp [ha, ih]

theorem fillFirst_some {p : α → Bool} {f : α → α} {ss ss' : List (Slot α)}
    (h : fillFirst p f ss = some ss') :
    ∃ a, (free ss).find? p = some a ∧ free ss' = (free ss).eraseP p ∧
      (taken ss').Perm (f a :: taken ss) := by
  induction ss generalizing ss' with
  | nil => simp [fillFirst] at h
  | cons s ss ih =>
    unfold fillFirst at h
    split_ifs at h with hc
    · cases h
      refine ⟨s.item, ?_, ?_, ?_⟩
      · simp [free, hc.1, hc.2]
      · simp [free, hc.1, hc.2]
      · simp [taken, hc.1]
    · obtain ⟨ss1, h1, rfl⟩ := Option.map_eq_some_iff.mp h
      obtain ⟨a, hf, he, ht⟩ := ih h1
      by_cases ha : s.available = true
      · have hp : p s.item = false := by simpa [ha] using hc
        refine ⟨a, ?_, ?_, ?_⟩
        · simp [free, ha, hp, hf]
        · simp [free, ha, hp, he]
        · simpa [taken, ha] using ht
      · refine ⟨a, ?_, ?_, ?_⟩
        · simpa [free, ha] using hf
        · simpa [free, ha] using he
        · simp only [taken, ha]
          exact (ht.cons s.item).trans (.swap _ _ _)

theorem fillFirst_mem {p : α → Bool} {f : α → α} {ss ss' : List (Slot α)}
    (h : fillFirst p f ss = some ss') : ∀ s ∈ ss', s ∈ ss ∨ s.available = false := by
  induction ss generalizing ss' with
  | nil => simp [fillFirst] at h
  | cons s ss ih =>
    unfold fillFirst at h
    split_ifs at h with hc
    · cases h
      intro x hx
      cases List.mem_cons.mp hx with
      | inl hx => exact .inr (hx ▸ rfl)
      | inr hx => exact .inl (List.mem_cons_of_mem s hx)
    · obtain ⟨ss1, h1, rfl⟩ := Option.map_eq_some_iff.mp h
      intro x hx
      cases List.mem_cons.mp hx with
      | inl hx => exact .inl (hx ▸ List.mem_cons_self)
      | inr hx => exact (ih h1 x hx).imp_left (List.mem_cons_of_mem s)

/-- Filling keeps whatever the fill keeps of an item, place by place. -/
theorem fillFirst_items {β : Type} {p : α → Bool} {f : α → α} {g : α → β}
    (hg : ∀ a, g (f a) = g a) {ss ss' : List (Slot α)} (h : fillFirst p f ss = some ss') :
    (items ss').map g = (items ss).map g := by
  induction ss generalizing ss' with
  | nil => simp [fillFirst] at h
  | cons s ss ih =>
    unfold fillFirst at h
    split_ifs at h with hc
    · cases h
      simp [items, hg]
    · obtain ⟨ss1, h1, rfl⟩ := Option.map_eq_some_iff.mp h
      simpa [items] using ih h1

def fillEach (p : α → Bool) : List (α → α) → List (Slot α) → Option (List (Slot α))
  | [], ss => some ss
  | f :: fs, ss => (fillFirst p f ss).bind (fillEach p fs)

theorem fillFirst_filled (p : α → Bool) (f : α → α) (xs : List α) (ss : List (Slot α)) :
    fillFirst p f (xs.map (⟨false, ·⟩) ++ ss)
      = (fillFirst p f ss).map (xs.map (⟨false, ·⟩) ++ ·) := by
  induction xs with
  | nil => simp
  | cons x xs ih => simp [fillFirst, ih, Function.comp_def]

/-- Fills of a row whose available items all qualify go from left to right. -/
theorem fillEach_row {p : α → Bool} {fs : List (α → α)} {xs ys : List α} {ss : List (Slot α)}
    (hp : ∀ y ∈ ys, p y = true)
    (h : fillEach p fs (xs.map (⟨false, ·⟩) ++ ys.map (⟨true, ·⟩)) = some ss) :
    fs.length ≤ ys.length ∧
      ss = (xs ++ List.zipWith (fun f y => f y) fs ys).map (⟨false, ·⟩)
        ++ (ys.drop fs.length).map (⟨true, ·⟩) := by
  induction fs generalizing xs ys with
  | nil =>
    cases h
    simp
  | cons f fs ih =>
    unfold fillEach at h
    rw [fillFirst_filled] at h
    cases ys with
    | nil => simp [fillFirst] at h
    | cons y ys =>
      have hy : fillFirst p f ((y :: ys).map (⟨true, ·⟩))
          = some (⟨false, f y⟩ :: ys.map (⟨true, ·⟩)) := by
        simp [fillFirst, hp y List.mem_cons_self]
      rw [hy, Option.map_some, Option.bind_some] at h
      have hxs : xs.map (⟨false, ·⟩) ++ ⟨false, f y⟩ :: ys.map (⟨true, ·⟩)
          = (xs ++ [f y]).map (⟨false, ·⟩) ++ ys.map (⟨true, ·⟩ : α → Slot α) := by simp
      rw [hxs] at h
      obtain ⟨hl, rfl⟩ := ih (fun x hx => hp x (List.mem_cons_of_mem y hx)) h
      refine ⟨Nat.succ_le_succ hl, ?_⟩
      simp

end Slot

def pick {β : Type} (q : β → Bool) : List β → List α → List α
  | a :: as, b :: bs => if q a = true then b :: pick q as bs else pick q as bs
  | _, _ => []

theorem pick_self (q : α → Bool) (as : List α) : pick q as as = as.filter q := by
  induction as with
  | nil => rfl
  | cons a as ih => rw [pick, List.filter_cons, ih]

theorem pick_map {β γ : Type} (q : β → Bool) (g : α → γ) (as : List β) (bs : List α) :
    pick q as (bs.map g) = (pick q as bs).map g := by
  induction as generalizing bs with
  | nil => cases bs <;> rfl
  | cons a as ih =>
    cases bs with
    | nil => rfl
    | cons b bs =>
      simp only [List.map_cons, pick, ih]
      split_ifs <;> rfl

theorem pick_eq_filter {β γ : Type} {q : β → Bool} {f : β → γ} {g : α → γ} {r : γ → Bool}
    {as : List β} {bs : List α} (h : bs.map g = as.map f) (hq : ∀ a ∈ as, q a = r (f a)) :
    pick q as bs = bs.filter (fun b => r (g b)) := by
  induction as generalizing bs with
  | nil =>
    cases bs with
    | nil => rfl
    | cons b bs => cases h
  | cons a as ih =>
    cases bs with
    | nil => rfl
    | cons b bs =>
      obtain ⟨hb, hbs⟩ := List.cons.inj h
      rw [pick, List.filter_cons, ih hbs fun c hc => hq c (List.mem_cons_of_mem a hc),
        hq a List.mem_cons_self, hb]

theorem pick_perm {β : Type} (q : β → Bool) {as : List β} {bs : List α}
    (h : as.length = bs.length) :
    (pick q as bs ++ pick (fun a => !q a) as bs).Perm bs := by
  induction as generalizing bs with
  | nil =>
    cases bs with
    | nil => exact .nil
    | cons b bs => cases h
  | cons a as ih =>
    cases bs with
    | nil => cases h
    | cons b bs =>
      have hp := ih (Nat.succ.inj h)
      cases hq : q a with
      | true =>
        simp only [pick, hq, if_true, Bool.not_true, Bool.false_eq_true, if_false]
        exact hp.cons b
      | false =>
        simp only [pick, hq, Bool.false_eq_true, if_false, Bool.not_false, if_true]
        exact List.perm_middle.trans (hp.cons b)

namespace Slot
variable {β : Type}

/-- A fill that cannot happen elsewhere happens at the selected places. -/
theorem fillFirst_pick {p : α → Bool} {f : α → α} {q : β → Bool} {as : List β}
    {ss ss' : List (Slot α)} (hl : as.length = ss.length)
    (hout : ∀ s ∈ pick (fun a => !q a) as ss, ¬ (s.available = true ∧ p s.item = true))
    (h : fillFirst p f ss = some ss') :
    fillFirst p f (pick q as ss) = some (pick q as ss') ∧
      pick (fun a => !q a) as ss' = pick (fun a => !q a) as ss ∧ as.length = ss'.length := by
  induction as generalizing ss ss' with
  | nil =>
    cases ss with
    | nil => simp [fillFirst] at h
    | cons s ss => cases hl
  | cons a as ih =>
    cases ss with
    | nil => cases hl
    | cons s ss =>
      unfold fillFirst at h
      cases hq : q a with
      | true =>
        split_ifs at h with hc
        · cases h
          simp [pick, hq, fillFirst, hc] at hl ⊢
          exact hl
        · obtain ⟨ss1, h1, rfl⟩ := Option.map_eq_some_iff.mp h
          have hout' : ∀ x ∈ pick (fun a => !q a) as ss,
              ¬ (x.available = true ∧ p x.item = true) := by
            intro x hx
            exact hout x (by simpa [pick, hq] using hx)
          obtain ⟨hf, hp, hlen⟩ := ih (Nat.succ.inj hl) hout' h1
          refine ⟨?_, by simpa [pick, hq] using hp, congrArg Nat.succ hlen⟩
          simp only [pick, hq, if_true, fillFirst, if_neg hc, hf, Option.map_some]
      | false =>
        have hc : ¬ (s.available = true ∧ p s.item = true) := hout s (by simp [pick, hq])
        rw [if_neg hc] at h
        obtain ⟨ss1, h1, rfl⟩ := Option.map_eq_some_iff.mp h
        have hout' : ∀ x ∈ pick (fun a => !q a) as ss,
            ¬ (x.available = true ∧ p x.item = true) := by
          intro x hx
          exact hout x (by simp [pick, hq, hx])
        obtain ⟨hf, hp, hlen⟩ := ih (Nat.succ.inj hl) hout' h1
        refine ⟨by simpa [pick, hq] using hf, ?_, congrArg Nat.succ hlen⟩
        simp only [pick, hq, Bool.not_false, if_true, hp]

theorem fillEach_pick {p : α → Bool} {fs : List (α → α)} {q : β → Bool} {as : List β}
    {ss ss' : List (Slot α)} (hl : as.length = ss.length)
    (hout : ∀ s ∈ pick (fun a => !q a) as ss, ¬ (s.available = true ∧ p s.item = true))
    (h : fillEach p fs ss = some ss') :
    fillEach p fs (pick q as ss) = some (pick q as ss') ∧
      pick (fun a => !q a) as ss' = pick (fun a => !q a) as ss ∧ as.length = ss'.length := by
  induction fs generalizing ss with
  | nil =>
    cases h
    exact ⟨rfl, rfl, hl⟩
  | cons f fs ih =>
    unfold fillEach at h
    obtain ⟨ss1, h1, h2⟩ := Option.bind_eq_some_iff.mp h
    obtain ⟨hf, hp, hlen⟩ := fillFirst_pick hl hout h1
    obtain ⟨hf', hp', hlen'⟩ := ih hlen (by rw [hp]; exact hout) h2
    refine ⟨?_, hp'.trans hp, hlen'⟩
    unfold fillEach
    rw [hf, Option.bind_some]
    exact hf'

theorem fillEach_items {γ : Type} {p : α → Bool} {fs : List (α → α)} {g : α → γ}
    (hg : ∀ f ∈ fs, ∀ a, g (f a) = g a) {ss ss' : List (Slot α)}
    (h : fillEach p fs ss = some ss') : (items ss').map g = (items ss).map g := by
  induction fs generalizing ss with
  | nil =>
    cases h
    rfl
  | cons f fs ih =>
    unfold fillEach at h
    obtain ⟨ss1, h1, h2⟩ := Option.bind_eq_some_iff.mp h
    rw [ih (fun x hx => hg x (List.mem_cons_of_mem f hx)) h2,
      fillFirst_items (hg f List.mem_cons_self) h1]

end Slot

/-- Erasing what `p` finds first does not touch what `q` selects. -/
theorem filter_eraseP {p q : α → Bool} (h : ∀ a, p a = true → q a = false) (xs : List α) :
    (xs.eraseP p).filter q = xs.filter q := by
  induction xs with
  | nil => rfl
  | cons x xs ih =>
    by_cases hp : p x = true
    · rw [List.eraseP_cons_of_pos hp, List.filter_cons_of_neg (by simp [h x hp])]
    · rw [List.eraseP_cons_of_neg hp, List.filter_cons, List.filter_cons, ih]

theorem filter_of_find? {p : α → Bool} {xs : List α} {a : α} (h : xs.find? p = some a) :
    xs.filter p = a :: (xs.eraseP p).filter p := by
  induction xs with
  | nil => simp at h
  | cons x xs ih =>
    by_cases hp : p x = true
    · rw [List.find?_cons_of_pos hp] at h
      cases h
      rw [List.filter_cons_of_pos hp, List.eraseP_cons_of_pos hp]
    · rw [List.find?_cons_of_neg hp] at h
      rw [List.filter_cons_of_neg hp, List.eraseP_cons_of_neg hp, List.filter_cons_of_neg hp,
        ih h]

end MoleFinance
