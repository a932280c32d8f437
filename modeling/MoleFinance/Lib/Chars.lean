import Mathlib.Data.List.TakeWhile
import Mathlib.Tactic.Common

/-! Operations of a standard library on text, here a list of characters: trimming, cutting at the
first character of a kind, lines, and the length in bytes. -/
namespace MoleFinance.Chars

abbrev Text := List Char

def isWhitespace (c : Char) : Bool :=
  let n := c.toNat
  (9 ≤ n && n ≤ 13) || n == 32 || n == 0x85 || n == 0xA0 || n == 0x1680 ||
    (0x2000 ≤ n && n ≤ 0x200A) || n == 0x2028 || n == 0x2029 || n == 0x202F || n == 0x205F ||
    n == 0x3000

def trimStart (s : Text) : Text := s.dropWhile isWhitespace

def trimEnd (s : Text) : Text := (trimStart s.reverse).reverse

def trim (s : Text) : Text := trimEnd (trimStart s)

def byteLength : Text → Nat
  | [] => 0
  | c :: cs => c.utf8Size + byteLength cs

def cut (c : Char) : Text → Option (Text × Text)
  | [] => none
  | x :: xs => if x = c then some ([], xs) else (cut c xs).map fun p => (x :: p.1, p.2)

/-- The lines; a line feed ends one, with a carriage return before it. -/
def lines : Text → List Text
  | [] => []
  | c :: cs =>
    if c = '\n' then [] :: lines cs
    else if c = '\r' ∧ cs.head? = some '\n' then lines cs
    else match lines cs with
      | [] => [[c]]
      | l :: ls => (c :: l) :: ls

@[simp] theorem byteLength_nil : byteLength [] = 0 := by
  simp only [byteLength]

@[simp] theorem byteLength_cons (c : Char) (s : Text) :
    byteLength (c :: s) = c.utf8Size + byteLength s := by
  simp only [byteLength]

@[simp] theorem byteLength_append (s t : Text) :
    byteLength (s ++ t) = byteLength s + byteLength t := by
  induction s with
  | nil => simp
  | cons c cs ih => simp [ih, Nat.add_assoc]

theorem cut_eq_some {c : Char} {s a b : Text} :
    cut c s = some (a, b) ↔ s = a ++ c :: b ∧ c ∉ a := by
  induction s generalizing a with
  | nil => simp [cut]
  | cons x xs ih =>
    by_cases h : x = c
    · subst h
      cases a with
      | nil => simp [cut]
      | cons y ys =>
        simp only [cut, if_pos, List.cons_append, List.cons.injEq, List.mem_cons, not_or]
        constructor
        · rintro ⟨⟩
        · rintro ⟨⟨rfl, -⟩, hx, -⟩
          exact absurd rfl hx
    cases a with
    | nil => simp [cut, h]
    | cons y ys =>
      simp only [cut, if_neg h, Option.map_eq_some_iff, Prod.exists, Prod.mk.injEq,
        List.cons.injEq, List.cons_append, List.mem_cons, not_or]
      constructor
      · rintro ⟨a, b, hcut, ⟨rfl, rfl⟩, rfl⟩
        obtain ⟨rfl, hmem⟩ := ih.mp hcut
        exact ⟨⟨rfl, rfl⟩, Ne.symm h, hmem⟩
      · rintro ⟨⟨rfl, hxs⟩, -, hmem⟩
        exact ⟨ys, b, ih.mpr ⟨hxs, hmem⟩, ⟨rfl, rfl⟩, rfl⟩

theorem cut_append {c : Char} {a : Text} (b : Text) (h : c ∉ a) :
    cut c (a ++ c :: b) = some (a, b) := cut_eq_some.mpr ⟨rfl, h⟩

theorem cut_eq_none {c : Char} {s : Text} : cut c s = none ↔ c ∉ s := by
  induction s with
  | nil => simp [cut]
  | cons x xs ih =>
    by_cases h : x = c
    · subst h
      simp [cut]
    · simp [cut, h, ih, Ne.symm h]

structure Trimmed (s : Text) : Prop where
  start : ∀ c ∈ s.head?, isWhitespace c = false
  finish : ∀ c ∈ s.getLast?, isWhitespace c = false

theorem trimStart_eq {s : Text} (h : ∀ c ∈ s.head?, isWhitespace c = false) : trimStart s = s := by
  cases s with
  | nil => rfl
  | cons c cs => simp [trimStart, h c rfl]

theorem Trimmed.trim_eq {s : Text} (h : Trimmed s) : trim s = s := by
  have hend : ∀ c ∈ s.reverse.head?, isWhitespace c = false := by
    intro c hc
    rw [List.head?_reverse] at hc
    exact h.finish c hc
  rw [trim, trimStart_eq h.start, trimEnd, trimStart_eq hend, List.reverse_reverse]

theorem trim_space {s : Text} (h : Trimmed s) : trim (' ' :: s) = s := by
  have hspace : trimStart (' ' :: s) = trimStart s := rfl
  rw [trim, hspace]
  exact h.trim_eq

theorem trim_space_end {s : Text} (h : Trimmed s) (hne : s ≠ []) : trim (s ++ [' ']) = s := by
  have hstart : ∀ c ∈ (s ++ [' ']).head?, isWhitespace c = false := by
    intro c hc
    cases s with
    | nil => exact absurd rfl hne
    | cons d ds => exact h.start c hc
  have hspace : trimStart (' ' :: s.reverse) = trimStart s.reverse := rfl
  have htrim := h.trim_eq
  rw [trim, trimStart_eq h.start] at htrim
  rw [trim, trimStart_eq hstart, trimEnd, List.reverse_append]
  exact htrim

theorem trimStart_subset {s : Text} {c : Char} (h : c ∈ trimStart s) : c ∈ s :=
  (List.dropWhile_sublist _).subset h

theorem trim_subset {s : Text} {c : Char} (h : c ∈ trim s) : c ∈ s := by
  have hend : c ∈ (trimStart s).reverse := trimStart_subset (List.mem_reverse.mp h)
  exact trimStart_subset (List.mem_reverse.mp hend)

theorem lines_eq_nil {s : Text} (h : lines s = []) : s = [] := by
  induction s with
  | nil => rfl
  | cons c cs ih =>
    rw [lines] at h
    split at h
    · cases h
    split at h
    · rename_i hcr
      rw [ih h] at hcr
      cases hcr.2
    · split at h <;> cases h

theorem lines_mem {s : Text} : ∀ l ∈ lines s, '\n' ∉ l := by
  induction s with
  | nil => simp [lines]
  | cons c cs ih =>
    rw [lines]
    split
    · simpa using ih
    rename_i hc
    split
    · exact ih
    cases hls : lines cs with
    | nil => simpa using Ne.symm hc
    | cons l ls =>
      rw [hls] at ih
      intro x hx
      cases hx with
      | head => simpa [Ne.symm hc] using ih l List.mem_cons_self
      | tail _ hx => exact ih x (List.mem_cons_of_mem _ hx)

theorem lines_line {l : Text} (rest : Text) (hlf : '\n' ∉ l) (hcr : l.getLast? ≠ some '\r') :
    lines (l ++ '\n' :: rest) = l :: lines rest := by
  induction l with
  | nil => simp [lines]
  | cons c cs ih =>
    rw [List.mem_cons, not_or] at hlf
    have hnext : ¬ (c = '\r' ∧ (cs ++ '\n' :: rest).head? = some '\n') := by
      rintro ⟨rfl, hhead⟩
      cases cs with
      | nil => exact hcr rfl
      | cons d ds =>
        have hd : d = '\n' := by simpa using hhead
        exact hlf.2 (hd ▸ List.mem_cons_self)
    have hlast : cs.getLast? ≠ some '\r' := by
      cases cs with
      | nil => simp
      | cons d ds => simpa [List.getLast?_cons_cons] using hcr
    rw [List.cons_append, lines, if_neg (Ne.symm hlf.1), if_neg hnext, ih hlf.2 hlast]

/-- Two texts one after the other, where a line feed ends the first. -/
theorem lines_append (s t : Text) :
    lines (s ++ '\n' :: t) = lines (s ++ ['\n']) ++ lines t := by
  induction s with
  | nil => simp [lines]
  | cons c cs ih =>
    have hhead : (cs ++ '\n' :: t).head? = (cs ++ ['\n']).head? := by cases cs <;> rfl
    simp only [List.cons_append, lines, hhead, ih]
    split
    · rfl
    split
    · rfl
    cases hls : lines (cs ++ ['\n']) with
    | nil => exact absurd (lines_eq_nil hls) (by simp)
    | cons l ls => rfl

end MoleFinance.Chars
