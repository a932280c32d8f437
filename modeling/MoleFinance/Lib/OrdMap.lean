import Mathlib.Order.Defs.LinearOrder
import Mathlib.Data.List.Basic
import Mathlib.Data.List.Nodup
import Mathlib.Algebra.BigOperators.Group.List.Basic
import Mathlib.Tactic.Ring

/-! Finite maps as association lists with strictly increasing keys. The order
is the iteration order of the source's `BTreeMap`, and makes equality of maps
the equality of their lookups. -/
namespace MoleFinance
variable {κ ν μ : Type} [LinearOrder κ]

structure OrdMap (κ ν : Type) [LinearOrder κ] where
  entries : List (κ × ν)
  sorted : entries.Pairwise (fun a b => a.1 < b.1)

namespace OrdMap

def lookup (k : κ) : List (κ × ν) → Option ν
  | [] => none
  | e :: es => if k = e.1 then some e.2 else lookup k es

def upsert (k : κ) (v : ν) : List (κ × ν) → List (κ × ν)
  | [] => [(k, v)]
  | e :: es =>
    if k < e.1 then (k, v) :: e :: es
    else if k = e.1 then (k, v) :: es
    else e :: upsert k v es

theorem mem_upsert {k : κ} {v : ν} {e : κ × ν} {es : List (κ × ν)}
    (h : e ∈ upsert k v es) : e = (k, v) ∨ e ∈ es := by
  induction es with
  | nil => simpa [upsert] using h
  | cons a es ih =>
    unfold upsert at h
    split_ifs at h with h1 h2
    · simpa [List.mem_cons] using h
    · rcases List.mem_cons.mp h with h | h
      · exact .inl h
      · exact .inr (List.mem_cons_of_mem a h)
    · rcases List.mem_cons.mp h with h | h
      · exact .inr (by simp [h])
      · exact (ih h).imp id (List.mem_cons_of_mem a)

theorem upsert_sorted (k : κ) (v : ν) {es : List (κ × ν)}
    (h : es.Pairwise (fun a b => a.1 < b.1)) :
    (upsert k v es).Pairwise (fun a b => a.1 < b.1) := by
  induction es with
  | nil => simp [upsert]
  | cons a es ih =>
    obtain ⟨ha, hes⟩ := List.pairwise_cons.mp h
    unfold upsert
    split_ifs with h1 h2
    · refine List.pairwise_cons.mpr ⟨?_, h⟩
      intro b hb
      rcases List.mem_cons.mp hb with rfl | hb
      · exact h1
      · exact h1.trans (ha b hb)
    · exact List.pairwise_cons.mpr ⟨fun b hb => h2 ▸ ha b hb, hes⟩
    · refine List.pairwise_cons.mpr ⟨?_, ih hes⟩
      intro b hb
      rcases mem_upsert hb with rfl | hb
      · exact lt_of_le_of_ne (not_lt.mp h1) (Ne.symm h2)
      · exact ha b hb

def empty : OrdMap κ ν := ⟨[], .nil⟩

def get? (m : OrdMap κ ν) (k : κ) : Option ν := lookup k m.entries

def insert (m : OrdMap κ ν) (k : κ) (v : ν) : OrdMap κ ν :=
  ⟨upsert k v m.entries, upsert_sorted k v m.sorted⟩

def erase (m : OrdMap κ ν) (k : κ) : OrdMap κ ν :=
  ⟨m.entries.filter (fun e => e.1 ≠ k), m.sorted.filter _⟩

def contains (m : OrdMap κ ν) (k : κ) : Bool := (m.get? k).isSome

def size (m : OrdMap κ ν) : Nat := m.entries.length

def keys (m : OrdMap κ ν) : List κ := m.entries.map Prod.fst

def values (m : OrdMap κ ν) : List ν := m.entries.map Prod.snd

def mapVal (f : κ → ν → μ) (m : OrdMap κ ν) : OrdMap κ μ :=
  ⟨m.entries.map (fun e => (e.1, f e.1 e.2)), by
    rw [List.pairwise_map]
    exact m.sorted⟩

def sum (f : κ → ν → Nat) (m : OrdMap κ ν) : Nat :=
  (m.entries.map (fun e => f e.1 e.2)).sum

instance [DecidableEq ν] : DecidableEq (OrdMap κ ν) := fun a b =>
  decidable_of_iff (a.entries = b.entries) <| by
    cases a; cases b; simp

theorem lookup_eq_some {k : κ} {v : ν} {es : List (κ × ν)}
    (hs : es.Pairwise (fun a b => a.1 < b.1)) : lookup k es = some v ↔ (k, v) ∈ es := by
  induction es with
  | nil => simp [lookup]
  | cons a es ih =>
    obtain ⟨ha, hes⟩ := List.pairwise_cons.mp hs
    obtain ⟨j, w⟩ := a
    by_cases h : k = j
    · subst h
      have hn : (k, v) ∉ es := fun hm => absurd (ha _ hm) (lt_irrefl _)
      simp [lookup, hn, eq_comm]
    · simp [lookup, h, ih hes]

theorem get?_eq_some {m : OrdMap κ ν} {k : κ} {v : ν} :
    m.get? k = some v ↔ (k, v) ∈ m.entries := lookup_eq_some m.sorted

theorem lookup_upsert (k j : κ) (v : ν) (es : List (κ × ν)) :
    lookup j (upsert k v es) = if j = k then some v else lookup j es := by
  induction es with
  | nil => simp [upsert, lookup]
  | cons a es ih =>
    obtain ⟨i, w⟩ := a
    unfold upsert
    split_ifs with h1 h2 h3 h4
    · simp [lookup, h2]
    · simp [lookup, h2]
    · simp only [h3] at h4 ⊢
      simp [lookup, h4]
    · simp only [h3] at h4 ⊢
      simp [lookup, h4]
    · simp only [lookup, ih]
      rename_i hjk
      simp [hjk, h3]
    · simp only [lookup, ih]
      rename_i hjk
      simp [hjk]

@[simp] theorem get?_empty (k : κ) : (empty : OrdMap κ ν).get? k = none := rfl

theorem get?_insert (m : OrdMap κ ν) (k j : κ) (v : ν) :
    (m.insert k v).get? j = if j = k then some v else m.get? j :=
  lookup_upsert k j v m.entries

@[simp] theorem get?_insert_self (m : OrdMap κ ν) (k : κ) (v : ν) :
    (m.insert k v).get? k = some v := by simp [get?_insert]

theorem get?_insert_ne (m : OrdMap κ ν) {k j : κ} (v : ν) (h : j ≠ k) :
    (m.insert k v).get? j = m.get? j := by simp [get?_insert, h]

theorem get?_erase (m : OrdMap κ ν) (k j : κ) :
    (m.erase k).get? j = if j = k then none else m.get? j := by
  apply Option.ext
  intro v
  split_ifs with h
  · subst h
    simp [get?_eq_some, erase]
  · simp [get?_eq_some, erase, h]

@[simp] theorem get?_mapVal (f : κ → ν → μ) (m : OrdMap κ ν) (k : κ) :
    (m.mapVal f).get? k = (m.get? k).map (f k) := by
  simp only [get?, mapVal]
  induction m.entries with
  | nil => rfl
  | cons a es ih =>
    simp only [List.map_cons, lookup]
    split_ifs with h
    · simp [h]
    · exact ih

theorem entries_ext {es es' : List (κ × ν)} (hs : es.Pairwise (fun a b => a.1 < b.1))
    (hs' : es'.Pairwise (fun a b => a.1 < b.1)) (h : ∀ e, e ∈ es ↔ e ∈ es') : es = es' := by
  have hnd : ∀ {l : List (κ × ν)}, l.Pairwise (fun a b => a.1 < b.1) → l.Nodup :=
    fun hl => hl.imp (fun hab heq => absurd hab (by simp [heq]))
  have hp : es.Perm es' := (List.perm_ext_iff_of_nodup (hnd hs) (hnd hs')).mpr h
  refine hp.eq_of_pairwise (fun a b _ _ hab hba => ?_) hs hs'
  exact absurd (hab.trans hba) (lt_irrefl _)

theorem ext_get? {m m' : OrdMap κ ν} (h : ∀ k, m.get? k = m'.get? k) : m = m' := by
  have he : m.entries = m'.entries := by
    apply entries_ext m.sorted m'.sorted
    rintro ⟨k, v⟩
    rw [← get?_eq_some, ← get?_eq_some, h]
  cases m
  cases m'
  simpa using he

theorem insert_get?_self {m : OrdMap κ ν} {k : κ} {v : ν} (h : m.get? k = some v) :
    m.insert k v = m := by
  apply ext_get?
  intro j
  rw [get?_insert]
  split_ifs with hj
  · rw [hj, h]
  · rfl

theorem insert_insert (m : OrdMap κ ν) (k : κ) (v w : ν) :
    (m.insert k v).insert k w = m.insert k w := by
  apply ext_get?
  intro j
  simp only [get?_insert]
  split_ifs <;> rfl

theorem insert_erase (m : OrdMap κ ν) (k : κ) (v : ν) :
    (m.erase k).insert k v = m.insert k v := by
  apply ext_get?
  intro j
  simp only [get?_erase, get?_insert]
  split_ifs <;> rfl

theorem mapVal_insert (f : κ → ν → μ) (m : OrdMap κ ν) (k : κ) (v : ν) :
    (m.insert k v).mapVal f = (m.mapVal f).insert k (f k v) := by
  apply ext_get?
  intro j
  simp only [get?_mapVal, get?_insert]
  split_ifs with h
  · simp [h]
  · rfl

theorem mapVal_erase (f : κ → ν → μ) (m : OrdMap κ ν) (k : κ) :
    (m.erase k).mapVal f = (m.mapVal f).erase k := by
  apply ext_get?
  intro j
  simp only [get?_mapVal, get?_erase]
  split_ifs <;> rfl

theorem mapVal_congr {f g : κ → ν → μ} {m : OrdMap κ ν}
    (h : ∀ k v, m.get? k = some v → f k v = g k v) : m.mapVal f = m.mapVal g := by
  apply ext_get?
  intro k
  rw [get?_mapVal, get?_mapVal]
  cases hk : m.get? k with
  | none => rfl
  | some v => simp [h k v hk]

theorem mem_keys {m : OrdMap κ ν} {k : κ} : k ∈ m.keys ↔ ∃ v, m.get? k = some v := by
  simp [keys, get?_eq_some]

theorem keys_nodup (m : OrdMap κ ν) : m.keys.Nodup := by
  unfold keys List.Nodup
  rw [List.pairwise_map]
  exact m.sorted.imp ne_of_lt

@[simp] theorem keys_mapVal (f : κ → ν → μ) (m : OrdMap κ ν) :
    (m.mapVal f).keys = m.keys := by
  simp [keys, mapVal]

@[simp] theorem size_mapVal (f : κ → ν → μ) (m : OrdMap κ ν) :
    (m.mapVal f).size = m.size := by
  simp [size, mapVal]

def filter (p : κ → ν → Bool) (m : OrdMap κ ν) : OrdMap κ ν :=
  ⟨m.entries.filter (fun e => p e.1 e.2), m.sorted.filter _⟩

section Filter
variable {p : κ → ν → Bool} {m : OrdMap κ ν} {k : κ} {v : ν}

theorem get?_filter (p : κ → ν → Bool) (m : OrdMap κ ν) (k : κ) :
    (m.filter p).get? k = (m.get? k).filter (p k) := by
  apply Option.ext
  intro v
  simp [get?_eq_some, filter, Option.filter_eq_some_iff]

@[simp] theorem filter_empty (p : κ → ν → Bool) : (empty : OrdMap κ ν).filter p = empty := rfl

theorem filter_insert (h : p k v = true) : (m.insert k v).filter p = (m.filter p).insert k v := by
  apply ext_get?
  intro j
  simp only [get?_filter, get?_insert]
  split_ifs with hj
  · rw [hj, Option.filter_some, if_pos h]
  · rfl

theorem filter_insert_other (h : p k v = false) (hm : ∀ w, m.get? k = some w → p k w = false) :
    (m.insert k v).filter p = m.filter p := by
  apply ext_get?
  intro j
  simp only [get?_filter, get?_insert]
  split_ifs with hj
  · subst hj
    cases hw : m.get? j with
    | none => simp [Option.filter_some, h]
    | some w => simp [Option.filter_some, h, hm w hw]
  · rfl

theorem filter_erase (p : κ → ν → Bool) (m : OrdMap κ ν) (k : κ) :
    (m.erase k).filter p = (m.filter p).erase k := by
  apply ext_get?
  intro j
  simp only [get?_filter, get?_erase]
  split_ifs <;> rfl

theorem filter_erase_other (hm : ∀ w, m.get? k = some w → p k w = false) :
    (m.erase k).filter p = m.filter p := by
  apply ext_get?
  intro j
  simp only [get?_filter, get?_erase]
  split_ifs with hj
  · subst hj
    cases hw : m.get? j with
    | none => rfl
    | some w => simp [Option.filter_some, hm w hw]
  · rfl

end Filter

theorem contains_iff {m : OrdMap κ ν} {k : κ} : m.contains k = true ↔ ∃ v, m.get? k = some v := by
  simp [contains, Option.isSome_iff_exists]

@[simp] theorem sum_empty (f : κ → ν → Nat) : (empty : OrdMap κ ν).sum f = 0 := rfl

theorem sum_upsert_new (f : κ → ν → Nat) {k : κ} (v : ν) {es : List (κ × ν)}
    (h : lookup k es = none) :
    ((upsert k v es).map (fun e => f e.1 e.2)).sum
      = (es.map (fun e => f e.1 e.2)).sum + f k v := by
  induction es with
  | nil => simp [upsert]
  | cons a es ih =>
    unfold lookup at h
    split_ifs at h with hk
    unfold upsert
    split_ifs with h1
    · simp only [List.map_cons, List.sum_cons]
      ring
    · simp only [List.map_cons, List.sum_cons, ih h]
      ring

theorem sum_insert_new (f : κ → ν → Nat) {m : OrdMap κ ν} {k : κ} (v : ν)
    (h : m.get? k = none) : (m.insert k v).sum f = m.sum f + f k v :=
  sum_upsert_new f v h

theorem sum_upsert_old (f : κ → ν → Nat) {k : κ} {w : ν} (v : ν) {es : List (κ × ν)}
    (hs : es.Pairwise (fun a b => a.1 < b.1)) (h : lookup k es = some w) :
    ((upsert k v es).map (fun e => f e.1 e.2)).sum + f k w
      = (es.map (fun e => f e.1 e.2)).sum + f k v := by
  induction es with
  | nil => simp [lookup] at h
  | cons a es ih =>
    obtain ⟨ha, hes⟩ := List.pairwise_cons.mp hs
    unfold lookup at h
    unfold upsert
    split_ifs at h with hk
    · injection h with h
      subst h
      subst hk
      simp only [lt_irrefl, if_false, if_true, List.map_cons, List.sum_cons]
      ring
    · have hlt : ¬ k < a.1 := by
        intro hlt
        have := ha _ ((lookup_eq_some hes).mp h)
        exact absurd (hlt.trans this) (lt_irrefl _)
      rw [if_neg hlt, if_neg hk]
      have := ih hes h
      simp only [List.map_cons, List.sum_cons]
      omega

theorem sum_insert_old (f : κ → ν → Nat) {m : OrdMap κ ν} {k : κ} {w : ν} (v : ν)
    (h : m.get? k = some w) : (m.insert k v).sum f + f k w = m.sum f + f k v :=
  sum_upsert_old f v m.sorted h

theorem sum_erase (f : κ → ν → Nat) {m : OrdMap κ ν} {k : κ} {v : ν}
    (h : m.get? k = some v) : (m.erase k).sum f + f k v = m.sum f := by
  have hn : (m.erase k).get? k = none := by simp [get?_erase]
  have he : (m.erase k).insert k v = m := by
    apply ext_get?
    intro j
    rw [get?_insert, get?_erase]
    split_ifs with hj
    · rw [hj, h]
    · rfl
  rw [← sum_insert_new f v hn, he]

theorem sum_congr {f g : κ → ν → Nat} {m : OrdMap κ ν}
    (h : ∀ k v, m.get? k = some v → f k v = g k v) : m.sum f = m.sum g := by
  unfold sum
  congr 1
  exact List.map_congr_left (fun e he => h e.1 e.2 (get?_eq_some.mpr he))

theorem sum_add (f g : κ → ν → Nat) (m : OrdMap κ ν) :
    m.sum (fun k v => f k v + g k v) = m.sum f + m.sum g := by
  unfold sum
  induction m.entries with
  | nil => rfl
  | cons a es ih =>
    simp only [List.map_cons, List.sum_cons, ih]
    ring

theorem sum_le_sum {f g : κ → ν → Nat} {m : OrdMap κ ν}
    (h : ∀ k v, m.get? k = some v → f k v ≤ g k v) : m.sum f ≤ m.sum g := by
  have hm : ∀ e ∈ m.entries, f e.1 e.2 ≤ g e.1 e.2 :=
    fun e he => h e.1 e.2 (get?_eq_some.mpr he)
  unfold sum
  revert hm
  induction m.entries with
  | nil => simp
  | cons a es ih =>
    intro hm
    have ha := hm a List.mem_cons_self
    have ht := ih (fun e he => hm e (List.mem_cons_of_mem a he))
    simp only [List.map_cons, List.sum_cons]
    omega

theorem le_sum (f : κ → ν → Nat) {m : OrdMap κ ν} {k : κ} {v : ν}
    (h : m.get? k = some v) : f k v ≤ m.sum f := by
  have := sum_erase f h
  omega

theorem add_le_sum (f : κ → ν → Nat) {m : OrdMap κ ν} {j k : κ} {v u : ν}
    (hj : m.get? j = some v) (hk : m.get? k = some u) (hne : j ≠ k) :
    f j v + f k u ≤ m.sum f := by
  have hj' : (m.erase k).get? j = some v := by rw [get?_erase, if_neg hne, hj]
  have hle := le_sum f hj'
  have he := sum_erase f hk
  omega

theorem sum_mapVal (f : κ → μ → Nat) (g : κ → ν → μ) (m : OrdMap κ ν) :
    (m.mapVal g).sum f = m.sum (fun k v => f k (g k v)) := by
  simp only [sum, mapVal, List.map_map, Function.comp_def]

theorem sum_zero_iff {f : κ → ν → Nat} {m : OrdMap κ ν} :
    m.sum f = 0 ↔ ∀ k v, m.get? k = some v → f k v = 0 := by
  constructor
  · intro h k v hk
    have := le_sum f hk
    omega
  · intro h
    rw [sum_congr (g := fun _ _ => 0) h]
    simp [sum]

theorem sum_ite (p : κ × ν → Prop) [DecidablePred p] (f : κ → ν → Nat) (m : OrdMap κ ν) :
    m.sum (fun k v => if p (k, v) then f k v else 0)
      = ((m.entries.filter p).map (fun e => f e.1 e.2)).sum := by
  unfold sum
  induction m.entries with
  | nil => rfl
  | cons e es ih => by_cases he : p e <;> simp [he, ih]

theorem sum_le_size_mul {f : κ → ν → Nat} {m : OrdMap κ ν} {c : Nat}
    (h : ∀ k v, m.get? k = some v → f k v ≤ c) : m.sum f ≤ m.size * c := by
  refine (sum_le_sum (g := fun _ _ => c) h).trans_eq ?_
  simp [sum, size]

theorem size_eq_sum (m : OrdMap κ ν) : m.size = m.sum (fun _ _ => 1) := by
  simp [sum, size]

theorem size_insert_old {m : OrdMap κ ν} {k : κ} {w : ν} (v : ν) (h : m.get? k = some w) :
    (m.insert k v).size = m.size := by
  rw [size_eq_sum, size_eq_sum]
  exact Nat.add_right_cancel (sum_insert_old (fun _ _ => 1) v h)

theorem size_insert_new {m : OrdMap κ ν} {k : κ} (v : ν) (h : m.get? k = none) :
    (m.insert k v).size = m.size + 1 := by
  rw [size_eq_sum, size_eq_sum]
  exact sum_insert_new (fun _ _ => 1) v h

theorem size_erase_le (m : OrdMap κ ν) (k : κ) : (m.erase k).size ≤ m.size :=
  List.length_filter_le _ _

theorem sum_single [DecidableEq κ] (f : κ → ν → Nat) {m : OrdMap κ ν} {k : κ} {v : ν}
    (h : m.get? k = some v) : m.sum (fun j w => if j = k then f j w else 0) = f k v := by
  have he := sum_erase (fun j w => if j = k then f j w else 0) h
  have hz : (m.erase k).sum (fun j w => if j = k then f j w else 0) = 0 := by
    rw [sum_zero_iff]
    intro j w hj
    rw [get?_erase] at hj
    split_ifs at hj with hjk
    simp [hjk]
  simp only [if_true] at he
  omega

section Fibres
variable {α ι : Type} [DecidableEq ι] {js : List ι}

theorem sum_ite_eq (hn : js.Nodup) {j : ι} (hj : j ∈ js) (c : Nat) :
    (js.map (fun i => if j = i then c else 0)).sum = c := by
  induction js with
  | nil => cases hj
  | cons i js ih =>
    obtain ⟨hi, hn⟩ := List.nodup_cons.mp hn
    rw [List.map_cons, List.sum_cons]
    by_cases he : j = i
    · subst he
      have hzero : (js.map (fun k => if j = k then c else 0)).sum = 0 := by
        refine List.sum_eq_zero fun n hmem => ?_
        obtain ⟨k, hk, rfl⟩ := List.mem_map.mp hmem
        exact if_neg fun h : j = k => hi (h ▸ hk)
      rw [if_pos rfl, hzero, Nat.add_zero]
    · rw [if_neg he, Nat.zero_add]
      exact ih hn ((List.mem_cons.mp hj).resolve_left he)

theorem sum_map_fibres (f : α → Nat) (key : α → ι) (hn : js.Nodup) {es : List α}
    (h : ∀ e ∈ es, key e ∈ js) :
    (es.map f).sum = (js.map (fun j => ((es.filter (fun e => key e = j)).map f).sum)).sum := by
  induction es with
  | nil => simp
  | cons e es ih =>
    have hsplit : ∀ j, (((e :: es).filter (fun e => key e = j)).map f).sum
        = (if key e = j then f e else 0) + ((es.filter (fun e => key e = j)).map f).sum := by
      intro j
      by_cases hj : key e = j <;> simp [hj]
    simp only [hsplit, List.sum_map_add, List.map_cons, List.sum_cons,
      sum_ite_eq hn (h e List.mem_cons_self)]
    rw [ih fun e he => h e (List.mem_cons_of_mem _ he)]

theorem sum_fibres (f : κ → ν → Nat) (key : κ → ι) {m : OrdMap κ ν} (hn : js.Nodup)
    (h : ∀ k v, m.get? k = some v → key k ∈ js) :
    m.sum f = (js.map (fun j => (m.filter (fun k _ => key k = j)).sum f)).sum :=
  sum_map_fibres (fun e : κ × ν => f e.1 e.2) (fun e => key e.1) hn
    fun e he => h e.1 e.2 (get?_eq_some.mpr he)

theorem sum_fibre_single (f : κ → ν → Nat) (key : κ → ι) {m : OrdMap κ ν} {k : κ} {v : ν}
    (hv : m.get? k = some v) (hk : ∀ j, key j = key k → j = k) :
    (m.filter (fun j _ => key j = key k)).sum f = f k v := by
  have hone : m.filter (fun j _ => key j = key k) = OrdMap.empty.insert k v := by
    refine ext_get? fun j => ?_
    rw [get?_filter, get?_insert, get?_empty]
    by_cases hj : j = k
    · subst hj
      simp [hv, Option.filter]
    · rw [if_neg hj]
      cases hw : m.get? j with
      | none => rfl
      | some w => simp [Option.filter, mt (hk j) hj]
  rw [hone]
  rfl

theorem filter_and (p q : κ → ν → Bool) (m : OrdMap κ ν) :
    (m.filter p).filter q = m.filter (fun k v => p k v && q k v) := by
  refine ext_get? fun k => ?_
  simp only [get?_filter, Option.filter_filter]

end Fibres

def adjust (m : OrdMap κ ν) (ks : List κ) (f : ν → ν) : OrdMap κ ν :=
  m.mapVal (fun k v => if k ∈ ks then f v else v)

theorem get?_adjust (m : OrdMap κ ν) (ks : List κ) (f : ν → ν) (k : κ) :
    (m.adjust ks f).get? k = if k ∈ ks then (m.get? k).map f else m.get? k := by
  simp only [adjust, get?_mapVal]
  split_ifs with h
  · rfl
  · simp

theorem adjust_congr {m : OrdMap κ ν} {ks : List κ} {f g : ν → ν}
    (h : ∀ k v, k ∈ ks → m.get? k = some v → f v = g v) : m.adjust ks f = m.adjust ks g := by
  apply mapVal_congr
  intro k v hk
  split_ifs with hm
  · exact h k v hm hk
  · rfl

@[simp] theorem adjust_nil (m : OrdMap κ ν) (f : ν → ν) : m.adjust [] f = m := by
  apply ext_get?
  intro k
  simp [get?_adjust]

theorem adjust_cons {m : OrdMap κ ν} {k : κ} {ks : List κ} {v : ν} (f : ν → ν)
    (h : m.get? k = some v) (hk : k ∉ ks) :
    (m.insert k (f v)).adjust ks f = m.adjust (k :: ks) f := by
  apply ext_get?
  intro j
  simp only [get?_adjust, get?_insert, List.mem_cons]
  by_cases hj : j = k
  · subst hj
    simp [hk, h]
  · simp [hj]

theorem sum_adjust_cons (f : κ → ν → Nat) {m : OrdMap κ ν} {k : κ} {ks : List κ} {v : ν}
    (h : m.get? k = some v) (hk : k ∉ ks) :
    m.sum (fun j w => if j ∈ k :: ks then f j w else 0)
      = f k v + m.sum (fun j w => if j ∈ ks then f j w else 0) := by
  rw [← sum_single f h, ← sum_add]
  apply sum_congr
  intro j w _
  by_cases hj : j = k
  · subst hj
    simp [hk]
  · simp [hj]

def insertAll (m : OrdMap κ ν) (es : List (κ × ν)) : OrdMap κ ν :=
  es.foldl (fun m e => m.insert e.1 e.2) m

theorem get?_insertAll {m : OrdMap κ ν} {es : List (κ × ν)} (hn : (es.map Prod.fst).Nodup)
    {k : κ} {v : ν} : (m.insertAll es).get? k = some v ↔
      (k, v) ∈ es ∨ k ∉ es.map Prod.fst ∧ m.get? k = some v := by
  induction es generalizing m with
  | nil => simp [insertAll]
  | cons e es ih =>
    obtain ⟨he, hnd⟩ := List.nodup_cons.mp hn
    obtain ⟨j, w⟩ := e
    change ((m.insert j w).insertAll es).get? k = some v ↔ _
    rw [ih hnd, get?_insert]
    by_cases hk : k = j
    · subst hk
      have hmem : ∀ x, (k, x) ∉ es := fun x hx => he (List.mem_map.mpr ⟨(k, x), hx, rfl⟩)
      simp [hmem, eq_comm]
    · simp [hk]

/-- A listing of another map overrides the entries of its keys. -/
theorem get?_insertAll_entries (m m' : OrdMap κ ν) (k : κ) :
    (m.insertAll m'.entries).get? k = (m'.get? k).or (m.get? k) := by
  have hkeys : k ∈ m'.entries.map Prod.fst ↔ ∃ v, m'.get? k = some v := mem_keys
  apply Option.ext
  intro v
  rw [get?_insertAll m'.keys_nodup, hkeys, ← get?_eq_some]
  cases m'.get? k <;> simp

theorem insertAll_filter {p : κ → Bool} {m m' : OrdMap κ ν}
    (h : ∀ k, p k = false → m.get? k = m'.get? k) :
    (m.filter (fun k _ => !p k)).insertAll (m'.filter (fun k _ => p k)).entries = m' := by
  apply ext_get?
  intro k
  rw [get?_insertAll_entries, get?_filter, get?_filter]
  cases hp : p k with
  | false =>
    rw [h k hp]
    cases m'.get? k <;> simp
  | true => cases m'.get? k <;> simp

theorem sum_insertAll (f : κ → ν → Nat) {m : OrdMap κ ν} {es : List (κ × ν)}
    (hn : (es.map Prod.fst).Nodup) (hm : ∀ e ∈ es, m.get? e.1 = none) :
    (m.insertAll es).sum f = m.sum f + (es.map (fun e => f e.1 e.2)).sum := by
  induction es generalizing m with
  | nil => simp [insertAll]
  | cons e es ih =>
    obtain ⟨he, hn⟩ := List.nodup_cons.mp hn
    have hm' : ∀ x ∈ es, (m.insert e.1 e.2).get? x.1 = none := by
      intro x hx
      have hne : x.1 ≠ e.1 := fun h => he (h ▸ List.mem_map_of_mem hx)
      rw [get?_insert_ne _ _ hne]
      exact hm x (List.mem_cons_of_mem e hx)
    change ((m.insert e.1 e.2).insertAll es).sum f = _
    rw [ih hn hm', sum_insert_new f e.2 (hm e List.mem_cons_self), List.map_cons,
      List.sum_cons, Nat.add_assoc]

theorem insertAll_eq {m : OrdMap κ ν} {es : List (κ × ν)} (hn : (es.map Prod.fst).Nodup)
    (hm : ∀ e, e ∈ es ↔ e ∈ m.entries) : (empty : OrdMap κ ν).insertAll es = m := by
  apply ext_get?
  intro k
  apply Option.ext
  intro v
  rw [get?_insertAll hn, hm, ← get?_eq_some]
  simp

theorem entries_insertAll_perm {m : OrdMap κ ν} {es : List (κ × ν)}
    (hn : (es.map Prod.fst).Nodup) :
    (m.insertAll es).entries.Perm (es ++ m.entries.filter (fun e => e.1 ∉ es.map Prod.fst)) := by
  have hes : es.Nodup := List.Nodup.of_map _ hn
  have hm : m.entries.Nodup := List.Nodup.of_map _ m.keys_nodup
  have hdisj : List.Disjoint es (m.entries.filter (fun e => e.1 ∉ es.map Prod.fst)) := by
    intro e he hf
    have hout := (List.mem_filter.mp hf).2
    exact of_decide_eq_true hout (List.mem_map_of_mem he)
  refine (List.perm_ext_iff_of_nodup (List.Nodup.of_map _ (keys_nodup _))
    (List.nodup_append'.mpr ⟨hes, hm.filter _, hdisj⟩)).mpr fun e => ?_
  obtain ⟨k, v⟩ := e
  rw [← get?_eq_some, get?_insertAll hn, List.mem_append, List.mem_filter, get?_eq_some]
  simp only [decide_not, Bool.not_eq_true', decide_eq_false_iff_not]
  tauto

def lastWrites : List (κ × ν) → List (κ × ν)
  | [] => []
  | e :: es => if e.1 ∈ es.map Prod.fst then lastWrites es else e :: lastWrites es

theorem lastWrites_sublist (es : List (κ × ν)) : (lastWrites es).Sublist es := by
  induction es with
  | nil => exact .slnil
  | cons e es ih =>
    unfold lastWrites
    split_ifs
    · exact ih.cons e
    · exact ih.cons_cons e

theorem mem_keys_lastWrites {es : List (κ × ν)} {k : κ} :
    k ∈ (lastWrites es).map Prod.fst ↔ k ∈ es.map Prod.fst := by
  induction es with
  | nil => rfl
  | cons e es ih =>
    unfold lastWrites
    split_ifs with he
    · rw [ih, List.map_cons, List.mem_cons]
      exact ⟨.inr, fun h => h.elim (fun h => h ▸ he) id⟩
    · simp only [List.map_cons, List.mem_cons, ih]

theorem lastWrites_nodup (es : List (κ × ν)) : ((lastWrites es).map Prod.fst).Nodup := by
  induction es with
  | nil => exact .nil
  | cons e es ih =>
    unfold lastWrites
    split_ifs with he
    · exact ih
    · exact List.nodup_cons.mpr ⟨fun hmem => he (mem_keys_lastWrites.mp hmem), ih⟩

theorem lastWrites_of_nodup {es : List (κ × ν)} (hn : (es.map Prod.fst).Nodup) :
    lastWrites es = es := by
  induction es with
  | nil => rfl
  | cons e es ih =>
    obtain ⟨he, hn⟩ := List.nodup_cons.mp hn
    rw [lastWrites, if_neg he, ih hn]

theorem insertAll_lastWrites (m : OrdMap κ ν) (es : List (κ × ν)) :
    m.insertAll (lastWrites es) = m.insertAll es := by
  induction es generalizing m with
  | nil => rfl
  | cons e es ih =>
    change _ = (m.insert e.1 e.2).insertAll es
    rw [← ih, lastWrites]
    split_ifs with he
    · -- a later entry of the same key hides this one
      apply ext_get?
      intro k
      apply Option.ext
      intro v
      rw [get?_insertAll (lastWrites_nodup es), get?_insertAll (lastWrites_nodup es), get?_insert]
      by_cases hk : k = e.1
      · rw [hk]
        simp only [mem_keys_lastWrites, he, not_true_eq_false, false_and]
      · rw [if_neg hk]
    · rfl

theorem lastWrites_filter (q : κ → Bool) (es : List (κ × ν)) :
    lastWrites (es.filter (fun e => q e.1)) = (lastWrites es).filter (fun e => q e.1) := by
  induction es with
  | nil => rfl
  | cons e es ih =>
    rw [List.filter_cons, lastWrites]
    by_cases hq : q e.1 = true
    · have hmem : e.1 ∈ (es.filter (fun e => q e.1)).map Prod.fst ↔ e.1 ∈ es.map Prod.fst := by
        simp only [List.mem_map, List.mem_filter]
        constructor
        · rintro ⟨x, ⟨hx, -⟩, he⟩
          exact ⟨x, hx, he⟩
        · rintro ⟨x, hx, he⟩
          exact ⟨x, ⟨hx, by rw [he]; exact hq⟩, he⟩
      rw [if_pos hq, lastWrites]
      by_cases he : e.1 ∈ es.map Prod.fst
      · rw [if_pos (hmem.mpr he), if_pos he, ih]
      · rw [if_neg (mt hmem.mp he), if_neg he, List.filter_cons, if_pos hq, ih]
    · rw [if_neg hq, ih]
      split_ifs
      · rfl
      · rw [List.filter_cons, if_neg hq]

/-- None of the leading entries is lost when no later entry has its key. -/
theorem lastWrites_length_iff {q : κ × ν → Bool} {as bs : List (κ × ν)}
    (ha : ∀ a ∈ as, q a = true) (hb : ∀ b ∈ bs, q b = false) :
    ((lastWrites (as ++ bs)).filter q).length = as.length ↔
      ∀ i k, i < as.length → ((as ++ bs).map Prod.fst)[i]? = some k →
        k ∉ ((as ++ bs).map Prod.fst).drop (i + 1) := by
  induction as with
  | nil =>
    have hnil : (lastWrites bs).filter q = [] :=
      List.filter_eq_nil_iff.mpr fun b hm => by simp [hb b ((lastWrites_sublist bs).subset hm)]
    simp [hnil]
  | cons a as ih =>
    have ih := ih fun c hc => ha c (List.mem_cons_of_mem a hc)
    rw [List.cons_append, lastWrites]
    by_cases hl : a.1 ∈ (as ++ bs).map Prod.fst
    · rw [if_pos hl]
      refine iff_of_false (fun hlen => ?_) fun hall => ?_
      · -- what is left comes from the other entries
        have hall : (as ++ bs).filter q = as := by
          rw [List.filter_append, List.filter_eq_self.mpr fun c hc => ha c (.tail a hc),
            List.filter_eq_nil_iff.mpr fun b hm => by simp [hb b hm], List.append_nil]
        have hle := ((lastWrites_sublist (as ++ bs)).filter q).length_le
        rw [hall] at hle
        rw [List.length_cons] at hlen
        omega
      · exact hall 0 a.1 (Nat.zero_lt_succ _) rfl hl
    · rw [if_neg hl, List.filter_cons_of_pos (ha a List.mem_cons_self), List.length_cons,
        List.length_cons, Nat.succ_inj, ih]
      constructor
      · rintro hall i k hi hk
        cases i with
        | zero =>
          cases hk
          exact hl
        | succ i => exact hall i k (Nat.lt_of_succ_lt_succ hi) hk
      · exact fun hall i k hi hk => hall (i + 1) k (Nat.succ_lt_succ hi) hk

end OrdMap

theorem perm_of_subperm_weight {α : Type} (f : α → Nat) {xs ys : List α} (h : xs.Subperm ys)
    (hpos : ∀ y ∈ ys, 0 < f y) (hsum : (ys.map f).sum ≤ (xs.map f).sum) : xs.Perm ys := by
  obtain ⟨zs, hzs, hsub⟩ := h
  obtain ⟨rest, hrest⟩ := hsub.exists_perm_append
  have hw := (hrest.map f).sum_nat
  rw [List.map_append, List.sum_append, (hzs.map f).sum_nat] at hw
  cases rest with
  | nil =>
    rw [List.append_nil] at hrest
    exact hzs.symm.trans hrest.symm
  | cons r rest =>
    have hr := hpos r (hrest.mem_iff.mpr (List.mem_append_right _ List.mem_cons_self))
    rw [List.map_cons, List.sum_cons] at hw
    omega

theorem subperm_weight_le {α : Type} (f : α → Nat) {xs ys : List α} (h : xs.Subperm ys) :
    (xs.map f).sum ≤ (ys.map f).sum := by
  obtain ⟨zs, hzs, hsub⟩ := h
  obtain ⟨rest, hrest⟩ := hsub.exists_perm_append
  rw [(hrest.map f).sum_nat, List.map_append, List.sum_append, (hzs.map f).sum_nat]
  exact Nat.le_add_right _ _

namespace OrdMap

/-! Totals of two maps, one of them with fewer keys. -/

section Compare
variable {f : κ → ν → Nat} {g : κ → μ → Nat} {m : OrdMap κ ν} {m' : OrdMap κ μ}

theorem sum_le_sum_of (h : ∀ k v, m'.get? k = some v → ∃ u, m.get? k = some u ∧ g k v ≤ f k u) :
    m'.sum g ≤ m.sum f := by
  let own : κ → Nat := fun k => ((m'.get? k).map (g k)).getD 0
  have hsub : m'.keys ⊆ m.keys := by
    intro k hk
    obtain ⟨v, hv⟩ := mem_keys.mp hk
    obtain ⟨u, hu, -⟩ := h k v hv
    exact mem_keys.mpr ⟨u, hu⟩
  calc m'.sum g = m'.sum (fun k _ => own k) := sum_congr fun k v hv => by simp [own, hv]
    _ = (m'.keys.map own).sum := by simp [sum, keys, Function.comp_def]
    _ ≤ (m.keys.map own).sum :=
        subperm_weight_le own (List.subperm_of_subset m'.keys_nodup hsub)
    _ = m.sum (fun k _ => own k) := by simp [sum, keys, Function.comp_def]
    _ ≤ m.sum f := sum_le_sum fun k u hu => by
        cases hv : m'.get? k with
        | none => simp [own, hv]
        | some v =>
          obtain ⟨u', hu', hle⟩ := h k v hv
          cases hu.symm.trans hu'
          simpa [own, hv] using hle

theorem sum_eq_sum_of (h : ∀ k v, m.get? k = some v → ∃ u, m'.get? k = some u ∧ f k v = g k u)
    (h' : ∀ k u, m'.get? k = some u → ∃ v, m.get? k = some v) : m.sum f = m'.sum g := by
  refine le_antisymm (sum_le_sum_of fun k v hv => ?_) (sum_le_sum_of fun k u hu => ?_)
  · obtain ⟨u, hu, heq⟩ := h k v hv
    exact ⟨u, hu, heq.le⟩
  · obtain ⟨v, hv⟩ := h' k u hu
    obtain ⟨u', hu', heq⟩ := h k v hv
    cases hu.symm.trans hu'
    exact ⟨v, hv, heq.ge⟩

theorem sum_lt_sum_of (h : ∀ k v, m'.get? k = some v → ∃ u, m.get? k = some u ∧ g k v ≤ f k u)
    {k : κ} {u : ν} (hu : m.get? k = some u) (hpos : 0 < f k u)
    (hlt : ∀ v, m'.get? k = some v → g k v < f k u) : m'.sum g < m.sum f := by
  have hrest : (m'.erase k).sum g ≤ (m.erase k).sum f := by
    refine sum_le_sum_of fun j v hj => ?_
    rw [get?_erase] at hj ⊢
    split_ifs at hj with hjk
    obtain ⟨w, hw, hle⟩ := h j v hj
    exact ⟨w, by rw [if_neg hjk, hw], hle⟩
  have hsplit := sum_erase f hu
  cases hv : m'.get? k with
  | none =>
    have hsame : m'.erase k = m' := by
      refine ext_get? fun j => ?_
      rw [get?_erase]
      split_ifs with hj
      · rw [hj, hv]
      · rfl
    rw [hsame] at hrest
    omega
  | some v =>
    have hless := hlt v hv
    have hsplit' := sum_erase g hv
    omega

end Compare
end OrdMap

end MoleFinance
