import MoleFinance.Lib.Chars
import MoleFinance.Lib.Call

/-! `substitute_env_vars`: what a template reads as, and where it stops. -/
namespace MoleFinance.Registry
open Chars Call

inductive RegistryError where
  | toml (line : Nat) (message : String)
  | missingKey (index : Nat) (key : String)
  | invalidPubkey (symbol : Text) (field : String) (detail : String)
  | invalidSymbol (symbol : Text) (detail : String)
  | duplicateSymbol (symbol : Text)
  | empty
  | envVar (name : Text)
  | malformedEnvRef (offset : Nat) (detail : String)
deriving DecidableEq

abbrev Env := Text → Option Text

def quoted (s : Text) : String := "`" ++ String.ofList s ++ "`"

def isValidVarName (s : Text) : Bool :=
  match s with
  | [] => false
  | first :: _ => (first.isAlpha || first == '_') && s.all fun b => b.isAlphanum || b == '_'

def unclosedRef : String := "unclosed `$\x7b...\x7d` reference"

def emptyVarName : String := "empty variable name `$\x7b\x7d`"

def invalidVarName (name : Text) : String :=
  "variable name " ++ quoted name ++
    " contains invalid characters (must match [A-Za-z_][A-Za-z0-9_]*)"

def resolve (lookup : Env) (offset : Nat) (name : Text) : Except RegistryError Text :=
  if name = [] then .error (.malformedEnvRef offset emptyVarName)
  else if isValidVarName name = false then
    .error (.malformedEnvRef offset (invalidVarName name))
  else match (lookup name).filter (· ≠ []) with
    | some v => .ok v
    | none => .error (.envVar name)

/-- The loop of `substitute_env_vars` from byte `i` on. -/
def substituteFrom (lookup : Env) (i : Nat) : Text → Except RegistryError Text
  | [] => .ok []
  | c :: cs =>
    if c ≠ '$' then (c :: ·) <$> substituteFrom lookup (i + c.utf8Size) cs
    else if cs.head? = some '$' then ('$' :: ·) <$> substituteFrom lookup (i + 2) cs.tail
    else if cs.head? = some '{' then
      match h : cut '}' cs.tail with
      | none => .error (.malformedEnvRef i unclosedRef)
      | some (name, rest) => do
        let v ← resolve lookup i name
        (v ++ ·) <$> substituteFrom lookup (i + 2 + byteLength name + 1) rest
    else ('$' :: ·) <$> substituteFrom lookup (i + 1) cs
termination_by text => text.length
decreasing_by
  · simp
  · simp only [List.length_tail, List.length_cons]
    omega
  · obtain ⟨hcut, -⟩ := cut_eq_some.mp h
    have hlen := congrArg List.length hcut
    simp only [List.length_tail, List.length_append, List.length_cons] at hlen ⊢
    omega
  · simp

def substituteEnvVars (lookup : Env) (input : Text) : Except RegistryError Text :=
  substituteFrom lookup 0 input

inductive Chunk where
  | plain (c : Char) (h : c ≠ '$')
  /-- `$$` -/
  | escaped
  /-- a `$` that opens nothing -/
  | bare (c : Char) (h : c ≠ '$' ∧ c ≠ '{')
  | ref (name : Text) (h : isValidVarName name = true)

def refText (name : Text) : Text := '$' :: '{' :: (name ++ ['}'])

namespace Chunk

def source : Chunk → Text
  | plain c _ => [c]
  | escaped => ['$', '$']
  | bare c _ => ['$', c]
  | ref name _ => refText name

def value (lookup : Env) : Chunk → Option Text
  | plain c _ => some [c]
  | escaped => some ['$']
  | bare c _ => some ['$', c]
  | ref name _ => (lookup name).filter (· ≠ [])

end Chunk

def sources (chunks : List Chunk) : Text := chunks.flatMap Chunk.source

/-- The value of a template: a value is put in as it is, and not read again. -/
def values (lookup : Env) : List Chunk → Option Text
  | [] => some []
  | x :: xs => do
    let v ← x.value lookup
    let vs ← values lookup xs
    return v ++ vs

/-- How a template ends at byte `i`: with its text, or at a reference without a value. -/
inductive Ends (lookup : Env) (i : Nat) : Text → Except RegistryError Text → Prop
  | done : Ends lookup i [] (.ok [])
  | dollar : Ends lookup i ['$'] (.ok ['$'])
  | unset {name : Text} (after : Text) (hname : isValidVarName name = true)
      (hunset : (lookup name).filter (· ≠ []) = none) :
      Ends lookup i (refText name ++ after) (.error (.envVar name))
  | unclosed {after : Text} (h : '}' ∉ after) :
      Ends lookup i ('$' :: '{' :: after) (.error (.malformedEnvRef i unclosedRef))
  | unnamed (after : Text) :
      Ends lookup i (refText [] ++ after) (.error (.malformedEnvRef i emptyVarName))
  | invalid {name : Text} (after : Text) (hne : name ≠ []) (hclosed : '}' ∉ name)
      (hname : isValidVarName name = false) :
      Ends lookup i (refText name ++ after) (.error (.malformedEnvRef i (invalidVarName name)))

variable {lookup : Env} {i : Nat}

theorem isValidVarName_ne_nil {name : Text} (h : isValidVarName name = true) : name ≠ [] := by
  rintro rfl
  cases h

theorem isValidVarName_closed {name : Text} (h : isValidVarName name = true) : '}' ∉ name := by
  intro hmem
  cases name with
  | nil => cases h
  | cons c cs =>
    rw [isValidVarName, Bool.and_eq_true, List.all_eq_true] at h
    exact absurd (h.2 _ hmem) (by decide)

theorem substituteFrom_plain {c : Char} (cs : Text) (h : c ≠ '$') :
    substituteFrom lookup i (c :: cs) = (c :: ·) <$> substituteFrom lookup (i + c.utf8Size) cs := by
  rw [substituteFrom, if_pos h]

theorem substituteFrom_escaped (cs : Text) :
    substituteFrom lookup i ('$' :: '$' :: cs)
      = ('$' :: ·) <$> substituteFrom lookup (i + 2) cs := by
  rw [substituteFrom, if_neg (by simp), if_pos List.head?_cons, List.tail_cons]

theorem substituteFrom_bare {cs : Text} (hd : cs.head? ≠ some '$') (hb : cs.head? ≠ some '{') :
    substituteFrom lookup i ('$' :: cs) = ('$' :: ·) <$> substituteFrom lookup (i + 1) cs := by
  rw [substituteFrom, if_neg (by simp), if_neg hd, if_neg hb]

theorem substituteFrom_unclosed {cs : Text} (h : '}' ∉ cs) :
    substituteFrom lookup i ('$' :: '{' :: cs) = .error (.malformedEnvRef i unclosedRef) := by
  rw [substituteFrom, if_neg (by simp), if_neg (by simp), if_pos List.head?_cons]
  split
  · rfl
  · rename_i hcut
    rw [List.tail_cons, cut_eq_none.mpr h] at hcut
    cases hcut

theorem substituteFrom_ref {name : Text} (rest : Text) (h : '}' ∉ name) :
    substituteFrom lookup i (refText name ++ rest) = (do
      let v ← resolve lookup i name
      (v ++ ·) <$> substituteFrom lookup (i + byteLength (refText name)) rest) := by
  have htext : refText name ++ rest = '$' :: '{' :: (name ++ '}' :: rest) := by simp [refText]
  have hlen : i + byteLength (refText name) = i + 2 + byteLength name + 1 := by
    simp only [refText, byteLength_cons, byteLength_append, byteLength_nil]
    have hsizes : '$'.utf8Size = 1 ∧ '{'.utf8Size = 1 ∧ '}'.utf8Size = 1 := by decide
    omega
  rw [htext, hlen, substituteFrom, if_neg (by simp), if_neg (by simp), if_pos List.head?_cons]
  split
  · rename_i hcut
    rw [List.tail_cons, cut_append rest h] at hcut
    cases hcut
  · rename_i hcut
    rw [List.tail_cons, cut_append rest h] at hcut
    cases hcut
    rfl

theorem resolve_valid {name : Text} (h : isValidVarName name = true) :
    resolve lookup i name = match (lookup name).filter (· ≠ []) with
      | some v => .ok v
      | none => .error (.envVar name) := by
  rw [resolve, if_neg (isValidVarName_ne_nil h), if_neg (by simp [h])]

theorem cons_map (c : Char) (x : Except RegistryError Text) (v : Text) :
    (c :: ·) <$> (v ++ ·) <$> x = (c :: v ++ ·) <$> x := by
  cases x <;> rfl

theorem append_map (v w : Text) (x : Except RegistryError Text) :
    (v ++ ·) <$> (w ++ ·) <$> x = (v ++ w ++ ·) <$> x := by
  cases x with
  | error e => rfl
  | ok t => simp [Functor.map, Except.map]

theorem Chunk.substitute {chunk : Chunk} {v : Text} (h : chunk.value lookup = some v)
    (tail : Text) :
    substituteFrom lookup i (chunk.source ++ tail)
      = (v ++ ·) <$> substituteFrom lookup (i + byteLength chunk.source) tail := by
  cases chunk with
  | plain c hc =>
    cases h
    exact substituteFrom_plain tail hc
  | escaped =>
    cases h
    exact substituteFrom_escaped tail
  | bare c hc =>
    cases h
    have hhead : ∀ d, d ≠ c → (c :: tail).head? ≠ some d := by simp [eq_comm]
    have hlen : i + byteLength (Chunk.bare c hc).source = i + 1 + c.utf8Size := by
      simp [Chunk.source, Nat.add_assoc, show '$'.utf8Size = 1 by decide]
    rw [hlen]
    refine (substituteFrom_bare (hhead _ (Ne.symm hc.1)) (hhead _ (Ne.symm hc.2))).trans ?_
    rw [substituteFrom_plain tail hc.1]
    exact cons_map '$' _ [c]
  | ref name hname =>
    have hvalue : (lookup name).filter (· ≠ []) = some v := h
    refine (substituteFrom_ref tail (isValidVarName_closed hname)).trans ?_
    rw [resolve_valid hname, hvalue]
    rfl

theorem substitute_chunks {chunks : List Chunk} {v : Text} (h : values lookup chunks = some v)
    (tail : Text) :
    substituteFrom lookup i (sources chunks ++ tail)
      = (v ++ ·) <$> substituteFrom lookup (i + byteLength (sources chunks)) tail := by
  induction chunks generalizing i v with
  | nil =>
    cases h
    exact (id_map (substituteFrom lookup i tail)).symm
  | cons x xs ih =>
    obtain ⟨vx, hx, h⟩ := Option.bind_eq_some_iff.mp h
    obtain ⟨vs, hxs, h⟩ := Option.bind_eq_some_iff.mp h
    cases h
    have hsource : sources (x :: xs) = x.source ++ sources xs := rfl
    rw [hsource, List.append_assoc, x.substitute hx, ih hxs, append_map, byteLength_append,
      ← Nat.add_assoc]

theorem Ends.substitute {tail : Text} {e : Except RegistryError Text}
    (h : Ends lookup i tail e) : substituteFrom lookup i tail = e := by
  cases h with
  | done => rw [substituteFrom]
  | dollar =>
    rw [substituteFrom_bare (by simp) (by simp), substituteFrom]
    rfl
  | unset after hname hunset =>
    rw [substituteFrom_ref after (isValidVarName_closed hname), resolve_valid hname, hunset]
    rfl
  | unclosed h => exact substituteFrom_unclosed h
  | unnamed after =>
    rw [substituteFrom_ref after (by simp)]
    rfl
  | @invalid name after hne hclosed hname =>
    rw [substituteFrom_ref after hclosed, resolve, if_neg hne, if_pos hname]
    rfl

def Parsed (lookup : Env) (i : Nat) (text : Text) : Prop :=
  ∃ chunks tail v e, text = sources chunks ++ tail ∧ values lookup chunks = some v ∧
    Ends lookup (i + byteLength (sources chunks)) tail e

theorem Ends.parsed {tail : Text} {e : Except RegistryError Text} (h : Ends lookup i tail e) :
    Parsed lookup i tail := ⟨[], tail, [], e, rfl, rfl, h⟩

theorem Parsed.cons (chunk : Chunk) {rest v : Text} (hv : chunk.value lookup = some v)
    (h : Parsed lookup (i + byteLength chunk.source) rest) :
    Parsed lookup i (chunk.source ++ rest) := by
  obtain ⟨chunks, tail, vs, e, rfl, hvs, hend⟩ := h
  refine ⟨chunk :: chunks, tail, v ++ vs, e, ?_, ?_, ?_⟩
  · exact (List.append_assoc chunk.source (sources chunks) tail).symm
  · rw [values, hv, hvs]
    rfl
  · have hsource : sources (chunk :: chunks) = chunk.source ++ sources chunks := rfl
    rw [hsource, byteLength_append, ← Nat.add_assoc]
    exact hend

theorem refText_append (name rest : Text) :
    refText name ++ rest = '$' :: '{' :: (name ++ '}' :: rest) := by simp [refText]

theorem parsed_ref {name rest : Text} (hclosed : '}' ∉ name)
    (ih : ∀ i, Parsed lookup i rest) : Parsed lookup i (refText name ++ rest) := by
  by_cases hne : name = []
  · subst hne
    exact (Ends.unnamed rest).parsed
  cases hname : isValidVarName name with
  | false => exact (Ends.invalid rest hne hclosed hname).parsed
  | true =>
    cases hv : (lookup name).filter (· ≠ []) with
    | none => exact (Ends.unset rest hname hv).parsed
    | some v => exact Parsed.cons (.ref name hname) hv (ih _)

theorem parsed (lookup : Env) (n : Nat) (text : Text) (hn : text.length ≤ n) (i : Nat) :
    Parsed lookup i text := by
  induction n generalizing text i with
  | zero =>
    have hnil : text = [] := List.length_eq_zero_iff.mp (Nat.le_zero.mp hn)
    subst hnil
    exact Ends.done.parsed
  | succ n ih =>
    cases text with
    | nil => exact Ends.done.parsed
    | cons c cs =>
      rw [List.length_cons, Nat.add_le_add_iff_right] at hn
      by_cases hc : c = '$'
      case neg => exact Parsed.cons (.plain c hc) rfl (ih cs hn _)
      subst hc
      cases cs with
      | nil => exact Ends.dollar.parsed
      | cons d ds =>
        have hds : ds.length ≤ n := Nat.le_of_succ_le hn
        by_cases hd : d = '$'
        · subst hd
          exact Parsed.cons .escaped rfl (ih ds hds _)
        by_cases hb : d = '{'
        case neg => exact Parsed.cons (.bare d ⟨hd, hb⟩) rfl (ih ds hds _)
        subst hb
        cases hcut : cut '}' ds with
        | none => exact (Ends.unclosed (cut_eq_none.mp hcut)).parsed
        | some p =>
          obtain ⟨name, rest⟩ := p
          obtain ⟨rfl, hclosed⟩ := cut_eq_some.mp hcut
          rw [← refText_append]
          refine parsed_ref hclosed fun j => ih rest ?_ j
          simp only [List.length_append, List.length_cons] at hds
          omega

theorem substituteFrom_iff {text : Text} {r : Except RegistryError Text} :
    substituteFrom lookup i text = r ↔ ∃ chunks tail v e,
      text = sources chunks ++ tail ∧ values lookup chunks = some v ∧
        Ends lookup (i + byteLength (sources chunks)) tail e ∧ r = (v ++ ·) <$> e := by
  constructor
  · rintro rfl
    obtain ⟨chunks, tail, v, e, rfl, hv, hend⟩ := parsed lookup text.length text le_rfl i
    refine ⟨chunks, tail, v, e, rfl, hv, hend, ?_⟩
    rw [substitute_chunks hv, hend.substitute]
  · rintro ⟨chunks, tail, v, e, rfl, hv, hend, rfl⟩
    rw [substitute_chunks hv, hend.substitute]

theorem refText_inj {name name' s t : Text} (hname : '}' ∉ name) (hname' : '}' ∉ name')
    (h : refText name ++ s = refText name' ++ t) : name = name' ∧ s = t := by
  rw [refText_append, refText_append] at h
  have hbody : name ++ '}' :: s = name' ++ '}' :: t := by
    injection h with _ h
    injection h
  have hcut := cut_append s hname
  rw [hbody, cut_append t hname'] at hcut
  obtain ⟨rfl, rfl⟩ := Prod.mk.inj (Option.some.inj hcut)
  exact ⟨rfl, rfl⟩

theorem Chunk.source_inj {x y : Chunk} {s t : Text} (h : x.source ++ s = y.source ++ t) :
    x = y ∧ s = t := by
  cases x with
  | plain c hc =>
    cases y with
    | plain d hd => simpa [Chunk.source] using h
    | escaped => simp [Chunk.source, hc] at h
    | bare d hd => simp [Chunk.source, hc] at h
    | ref name hname => simp [Chunk.source, refText, hc] at h
  | escaped =>
    cases y with
    | plain d hd => simp [Chunk.source, Ne.symm hd] at h
    | escaped => simpa [Chunk.source] using h
    | bare d hd => simp [Chunk.source, Ne.symm hd.1] at h
    | ref name hname => simp [Chunk.source, refText] at h
  | bare c hc =>
    cases y with
    | plain d hd => simp [Chunk.source, Ne.symm hd] at h
    | escaped => simp [Chunk.source, hc.1] at h
    | bare d hd => simpa [Chunk.source] using h
    | ref name hname => simp [Chunk.source, refText, hc.2] at h
  | ref name hname =>
    cases y with
    | plain d hd => simp [Chunk.source, refText, Ne.symm hd] at h
    | escaped => simp [Chunk.source, refText] at h
    | bare d hd => simp [Chunk.source, refText, Ne.symm hd.2] at h
    | ref name' hname' =>
      obtain ⟨rfl, rfl⟩ :=
        refText_inj (isValidVarName_closed hname) (isValidVarName_closed hname') h
      exact ⟨rfl, rfl⟩

theorem Ends.not_chunk {x : Chunk} {tail s v : Text} {e : Except RegistryError Text}
    (hend : Ends lookup i tail e) (hv : x.value lookup = some v) : tail ≠ x.source ++ s := by
  intro h
  -- an end that is a reference is none of the others, and differs from a chunk in its name
  have href : ∀ {name after : Text}, '}' ∉ name → refText name ++ after = x.source ++ s →
      isValidVarName name = true ∧ (lookup name).filter (· ≠ []) = some v := by
    intro name after hclosed h
    cases x with
    | plain d hd => simp [Chunk.source, refText, Ne.symm hd] at h
    | escaped => simp [Chunk.source, refText] at h
    | bare d hd => simp [Chunk.source, refText, Ne.symm hd.2] at h
    | ref name' hname' =>
      obtain ⟨rfl, rfl⟩ := refText_inj hclosed (isValidVarName_closed hname') h
      exact ⟨hname', hv⟩
  cases hend with
  | done => cases x <;> cases h
  | dollar =>
    cases x with
    | plain d hd => simp [Chunk.source, Ne.symm hd] at h
    | escaped => cases h
    | bare d hd => cases h
    | ref name hname => cases h
  | unset after hname hunset =>
    rw [(href (isValidVarName_closed hname) h).2] at hunset
    cases hunset
  | unclosed hclosed =>
    cases x with
    | plain d hd => simp [Chunk.source, Ne.symm hd] at h
    | escaped => simp [Chunk.source] at h
    | bare d hd => simp [Chunk.source, Ne.symm hd.2] at h
    | ref name hname =>
      simp only [Chunk.source, refText_append, List.cons.injEq, true_and] at h
      simp [h] at hclosed
  | unnamed after => cases (href (by simp) h).1
  | invalid after hne hclosed hname =>
    rw [(href hclosed h).1] at hname
    cases hname

theorem chunks_unique {chunks chunks' : List Chunk} {tail tail' v v' : Text} {j : Nat}
    {e e' : Except RegistryError Text} (hv : values lookup chunks = some v)
    (hend : Ends lookup i tail e) (hv' : values lookup chunks' = some v')
    (hend' : Ends lookup j tail' e') (h : sources chunks ++ tail = sources chunks' ++ tail') :
    chunks = chunks' ∧ tail = tail' := by
  have hcons : ∀ (x : Chunk) xs (s : Text), sources (x :: xs) ++ s
    = x.source ++ (sources xs ++ s) :=
    fun x xs s => List.append_assoc _ _ _
  induction chunks generalizing chunks' v v' with
  | nil =>
    cases chunks' with
    | nil => exact ⟨rfl, h⟩
    | cons y ys =>
      obtain ⟨w, hw, -⟩ := Option.bind_eq_some_iff.mp hv'
      exact absurd (h.trans (hcons y ys tail')) (hend.not_chunk hw)
  | cons x xs ih =>
    obtain ⟨u, hu, hv⟩ := Option.bind_eq_some_iff.mp hv
    obtain ⟨us, hus, -⟩ := Option.bind_eq_some_iff.mp hv
    cases chunks' with
    | nil => exact absurd (h.symm.trans (hcons x xs tail)) (hend'.not_chunk hu)
    | cons y ys =>
      obtain ⟨w, -, hv'⟩ := Option.bind_eq_some_iff.mp hv'
      obtain ⟨ws, hws, -⟩ := Option.bind_eq_some_iff.mp hv'
      rw [hcons, hcons] at h
      obtain ⟨rfl, hrest⟩ := Chunk.source_inj h
      obtain ⟨rfl, htail⟩ := ih hus hws hrest
      exact ⟨rfl, htail⟩

/-- Filling in a template: the values of its chunks up to the end of the text, or to the first
reference that has no value, reported where it stands; and there is one such cut. -/
theorem substituteEnvVars_reads (lookup : Env) (input : Text) (r : Except RegistryError Text) :
    (substituteEnvVars lookup input = r ↔ ∃ chunks tail v e,
      input = sources chunks ++ tail ∧ values lookup chunks = some v ∧
        Ends lookup (byteLength (sources chunks)) tail e ∧ r = (v ++ ·) <$> e) ∧
    ∃! cut : List Chunk × Text, input = sources cut.1 ++ cut.2 ∧
      ∃ v e, values lookup cut.1 = some v ∧
        Ends lookup (byteLength (sources cut.1)) cut.2 e := by
  have hreads : ∀ r, substituteEnvVars lookup input = r ↔ ∃ chunks tail v e,
      input = sources chunks ++ tail ∧ values lookup chunks = some v ∧
        Ends lookup (byteLength (sources chunks)) tail e ∧ r = (v ++ ·) <$> e := by
    intro r
    have h := @substituteFrom_iff lookup 0 input r
    simp only [Nat.zero_add] at h
    exact h
  refine ⟨hreads r, ?_⟩
  obtain ⟨chunks, tail, v, e, hinput, hv, hend, -⟩ := (hreads _).mp rfl
  refine ⟨(chunks, tail), ⟨hinput, v, e, hv, hend⟩, ?_⟩
  rintro ⟨chunks', tail'⟩ ⟨hinput', v', e', hv', hend'⟩
  obtain ⟨rfl, rfl⟩ := chunks_unique hv hend hv' hend' (hinput.symm.trans hinput')
  rfl

end MoleFinance.Registry
