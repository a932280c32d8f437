import Mathlib.Data.List.Infix
import Mathlib.Data.List.Perm.Subperm
import Mathlib.Tactic.Common

/-! Queues. Dropping from the front until a bound holds leaves the longest suffix within that
bound, and bounds may be imposed one after the other. A stable sort by priority keeps each
priority in the order of arrival, behind the higher ones. -/
namespace MoleFinance.Queue
variable {α : Type} {P Q : List α → Prop} {l m w t : List α} {a : α}

structure Longest (P : List α → Prop) (l w : List α) : Prop where
  suffix : w <:+ l
  holds : P w
  longest : ∀ t, t <:+ l → P t → t <:+ w

/-- Nothing is lost in a part that has all suffixes with the property. -/
theorem Longest.widen (h : Longest P m w) (hm : m <:+ l) (hall : ∀ t, t <:+ l → P t → t <:+ m) :
    Longest P l w where
  suffix := h.suffix.trans hm
  holds := h.holds
  longest := fun t ht hp => h.longest t (hall t ht hp) hp

theorem Longest.and (h : Longest P l m) (h' : Longest Q m w)
    (hclosed : ∀ s t, s <:+ t → P t → P s) : Longest (fun t => P t ∧ Q t) l w where
  suffix := h'.suffix.trans h.suffix
  holds := ⟨hclosed w m h'.suffix h.holds, h'.holds⟩
  longest := fun t ht hpq => h'.longest t (h.longest t ht hpq.1) hpq.2

theorem Longest.concat (h : Longest P l w) (hpush : ∀ t, Q (t ++ [a]) → P t)
    (ht : t <:+ l ++ [a]) (hq : Q t) : t <:+ w ++ [a] := by
  cases List.suffix_concat_iff.mp ht with
  | inl hnil => exact hnil ▸ List.nil_suffix
  | inr hsome =>
    obtain ⟨s, rfl, hs⟩ := hsome
    rw [List.suffix_concat_iff]
    exact .inr ⟨s, rfl, h.longest s hs (hpush s hq)⟩

theorem longest_dropWhile {drop : α → Bool}
    (h : l.Pairwise (fun a b => drop a = false → drop b = false)) :
    Longest (fun t => ∀ a ∈ t, drop a = false) l (l.dropWhile drop) := by
  induction l with
  | nil =>
    refine ⟨List.suffix_rfl, by simp, fun t ht _ => ht⟩
  | cons b l ih =>
    obtain ⟨hb, hl⟩ := List.pairwise_cons.mp h
    cases hdrop : drop b with
    | false =>
      rw [List.dropWhile_cons_of_neg (by simp [hdrop])]
      refine ⟨List.suffix_rfl, fun a ha => ?_, fun t ht _ => ht⟩
      cases List.mem_cons.mp ha with
      | inl hab => exact hab ▸ hdrop
      | inr hal => exact hb a hal hdrop
    | true =>
      rw [List.dropWhile_cons_of_pos hdrop]
      refine (ih hl).widen (List.suffix_cons b l) fun t ht hkeep => ?_
      cases List.suffix_cons_iff.mp ht with
      | inl hwhole =>
        have hkept := hkeep b (hwhole ▸ List.mem_cons_self)
        rw [hdrop] at hkept
        cases hkept
      | inr htail => exact htail

theorem longest_drop (n : Nat) (l : List α) :
    Longest (fun t => t.length ≤ n) l (l.drop (l.length - n)) where
  suffix := List.drop_suffix _ _
  holds := by
    rw [List.length_drop]
    omega
  longest := fun t ht hlen => by
    refine List.suffix_of_suffix_length_le ht (List.drop_suffix _ _) ?_
    have hle := ht.length_le
    rw [List.length_drop]
    omega

section Priority
variable {f : α → Nat} {c : Nat}

theorem pairwise_tiers (h : l.Pairwise (fun a b => f b ≤ f a)) (c : Nat) :
    l = l.filter (fun a => c < f a)
      ++ (l.filter (fun a => f a = c) ++ l.filter (fun a => f a < c)) := by
  induction l with
  | nil => rfl
  | cons a l ih =>
    obtain ⟨ha, hl⟩ := List.pairwise_cons.mp h
    have hnone : ∀ {p : α → Bool}, (∀ b ∈ l, p b = false) → l.filter p = [] := fun hp =>
      List.filter_eq_nil_iff.mpr fun b hb => by simp [hp b hb]
    obtain hlt | heq | hgt := Nat.lt_trichotomy (f a) c
    · have hall : ∀ b ∈ l, f b < c := fun b hb => (ha b hb).trans_lt hlt
      have hhigh : l.filter (fun b => c < f b) = [] := hnone fun b hb => by
        have := hall b hb
        simp only [decide_eq_false_iff_not]
        omega
      have hsame : l.filter (fun b => f b = c) = [] := hnone fun b hb => by
        have := hall b hb
        simp only [decide_eq_false_iff_not]
        omega
      rw [hhigh, hsame] at ih
      rw [List.filter_cons_of_neg (by simp; omega), List.filter_cons_of_neg (by simp; omega),
        List.filter_cons_of_pos (by simpa using hlt), hhigh, hsame]
      exact congrArg (a :: ·) (ih hl)
    · have hhigh : l.filter (fun b => c < f b) = [] := hnone fun b hb => by
        have := ha b hb
        simp only [decide_eq_false_iff_not]
        omega
      rw [hhigh] at ih
      rw [List.filter_cons_of_neg (by simp; omega), List.filter_cons_of_pos (by simpa using heq),
        List.filter_cons_of_neg (by simp; omega), hhigh]
      exact congrArg (a :: ·) (ih hl)
    · rw [List.filter_cons_of_pos (by simpa using hgt), List.filter_cons_of_neg (by simp; omega),
        List.filter_cons_of_neg (by simp; omega)]
      exact congrArg (a :: ·) (ih hl)

theorem countP_tiers (f : α → Nat) (c : Nat) (l : List α) :
    (l.countP fun a => c < f a) + (l.countP fun a => f a = c) = l.countP fun a => c ≤ f a := by
  induction l with
  | nil => rfl
  | cons a l ih =>
    simp only [List.countP_cons]
    obtain hlt | heq | hgt := Nat.lt_trichotomy (f a) c
    · simp only [decide_eq_true_eq, Nat.not_lt.mpr hlt.le, hlt.ne, Nat.not_le.mpr hlt, if_false]
      omega
    · simp only [heq, lt_self_iff_false, le_refl, decide_true, decide_false, if_true,
        Bool.false_eq_true, if_false]
      omega
    · simp only [decide_eq_true_eq, hgt, hgt.ne', hgt.le, if_true, if_false]
      omega

/-- One tier of a stable sort: as it arrived, behind everything of higher priority. -/
theorem mergeSort_tier (f : α → Nat) (l : List α) (c : Nat) :
    ∃ front back, l.mergeSort (fun a b => decide (f b ≤ f a))
        = front ++ (l.filter (fun a => f a = c) ++ back) ∧
      front.Perm (l.filter (fun a => c < f a)) ∧ ∀ a ∈ back, f a < c := by
  have htrans : ∀ a b d : α, decide (f b ≤ f a) = true → decide (f d ≤ f b) = true →
      decide (f d ≤ f a) = true := by
    intro a b d hab hbd
    simp only [decide_eq_true_eq] at hab hbd ⊢
    exact hbd.trans hab
  have htotal : ∀ a b : α, (decide (f b ≤ f a) || decide (f a ≤ f b)) = true := by
    intro a b
    simp only [Bool.or_eq_true, decide_eq_true_eq]
    exact Nat.le_total _ _
  have hperm := List.mergeSort_perm l (fun a b => decide (f b ≤ f a))
  have hsorted : (l.mergeSort (fun a b => decide (f b ≤ f a))).Pairwise (fun a b => f b ≤ f a) :=
    (List.pairwise_mergeSort htrans htotal l).imp fun hab => of_decide_eq_true hab
  have htier : (l.mergeSort (fun a b => decide (f b ≤ f a))).filter (fun a => f a = c)
      = l.filter (fun a => f a = c) := by
    have hflat : (l.filter (fun a => f a = c)).Pairwise (fun a b => decide (f b ≤ f a) = true) := by
      refine List.pairwise_of_forall_mem_list ?_
      intro a ha b hb
      have ha' := (List.mem_filter.mp ha).2
      have hb' := (List.mem_filter.mp hb).2
      simp only [decide_eq_true_eq] at ha' hb' ⊢
      omega
    have hsub := (List.sublist_mergeSort htrans htotal hflat List.filter_sublist).filter
      (fun a => f a = c)
    rw [List.filter_filter] at hsub
    simp only [Bool.and_self] at hsub
    exact (hsub.eq_of_length (hperm.filter _).length_eq.symm).symm
  refine ⟨_, _, (pairwise_tiers hsorted c).trans (by rw [htier]), hperm.filter _, fun a ha => ?_⟩
  exact of_decide_eq_true (List.mem_filter.mp ha).2

end Priority

/-- A middle part comes through a cut whole if it is empty or the cut is behind it. -/
theorem subset_take_iff {front mid back : List α} (hn : mid.Nodup) (hf : ∀ a ∈ mid, a ∉ front)
    (n : Nat) : (∀ a ∈ mid, a ∈ (front ++ (mid ++ back)).take n) ↔
      mid.length = 0 ∨ front.length + mid.length ≤ n := by
  constructor
  · intro hall
    by_contra hcut
    obtain ⟨hne, hlt⟩ := not_or.mp hcut
    have hsub : mid ⊆ mid.take (n - front.length) := by
      intro a ha
      have hin := hall a ha
      rw [List.take_append, List.take_append_of_le_length (by omega)] at hin
      cases List.mem_append.mp hin with
      | inl hfront => exact absurd (List.mem_of_mem_take hfront) (hf a ha)
      | inr hmid => exact hmid
    have hle := (hn.subperm hsub).length_le
    rw [List.length_take] at hle
    omega
  · intro hfits a ha
    cases hfits with
    | inl hnil =>
      rw [List.length_eq_zero_iff.mp hnil] at ha
      cases ha
    | inr hle =>
      rw [← List.append_assoc, List.take_append, List.take_of_length_le (by simpa using hle)]
      exact List.mem_append_left _ (List.mem_append_right _ ha)

end MoleFinance.Queue
