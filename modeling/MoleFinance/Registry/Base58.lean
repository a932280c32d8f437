import MoleFinance.Lib.Chars
import MoleFinance.Lib.Radix
import MoleFinance.Lib.Call

/-! Base58 as the market registry reads it: `base58_decode`, white space skipped. -/
namespace MoleFinance.Registry
open Chars Call

def bs58Alphabet : List Char :=
  "123456789ABCDEFGHJKLMNPQRSTUVWXYZabcdefghijkmnopqrstuvwxyz".toList

/-- The table `alpha`; `none` is its `0xff`, and what the table does not reach. -/
def alpha (c : Char) : Option Nat := bs58Alphabet.idxOf? c

def nonBase58 (c : Char) : String := "non-base58 character `" ++ c.toString ++ "`"

/-- The inner loops: 58 times the bytes, lowest first, and the carry. -/
def addDigit : Nat → List UInt8 → List UInt8
  | carry, [] => (Nat.digits 256 carry).map UInt8.ofNat
  | carry, byte :: bytes =>
    let carry := carry + byte.toNat * 58
    UInt8.ofNat (carry % 256) :: addDigit (carry / 256) bytes

def decodeDigits : Text → List UInt8 → Except String (List UInt8)
  | [], out => .ok out
  | c :: cs, out =>
    if isWhitespace c then decodeDigits cs out
    else match alpha c with
      | none => .error (nonBase58 c)
      | some v => decodeDigits cs (addDigit v out)

def leadingOnes : Text → List UInt8
  | [] => []
  | c :: cs =>
    if c = '1' then 0 :: leadingOnes cs
    else if isWhitespace c then leadingOnes cs
    else []

def base58Decode (input : Text) : Except String (List UInt8) := do
  let out ← decodeDigits input []
  return (out ++ leadingOnes input).reverse

def charOf (digit : Nat) : Char := bs58Alphabet.getD digit '1'

theorem bs58Alphabet_length : bs58Alphabet.length = 58 := by decide

theorem bs58Alphabet_nodup : bs58Alphabet.Nodup := by decide

theorem bs58Alphabet_visible : ∀ c ∈ bs58Alphabet, isWhitespace c = false := by
  have h : bs58Alphabet.all (fun c => !isWhitespace c) = true := by decide
  intro c hc
  exact (Bool.not_eq_true' _).mp (List.all_eq_true.mp h c hc)

theorem charOf_eq {d : Nat} (h : d < bs58Alphabet.length) : charOf d = bs58Alphabet[d] := by
  rw [charOf, List.getD_eq_getElem?_getD, List.getElem?_eq_getElem h, Option.getD_some]

theorem charOf_mem {d : Nat} (h : d < 58) : charOf d ∈ bs58Alphabet := by
  rw [← bs58Alphabet_length] at h
  rw [charOf_eq h]
  exact List.getElem_mem h

theorem alpha_eq_none {c : Char} : alpha c = none ↔ c ∉ bs58Alphabet := List.idxOf?_eq_none_iff

theorem alpha_eq_some {c : Char} {d : Nat} : alpha c = some d ↔ d < 58 ∧ charOf d = c := by
  rw [alpha, List.idxOf?_eq_some_iff, ← bs58Alphabet_length]
  constructor
  · rintro ⟨h, rfl, -⟩
    exact ⟨h, charOf_eq h⟩
  · rintro ⟨h, hc⟩
    rw [charOf_eq h] at hc
    refine ⟨h, hc, fun j hj hjc => ?_⟩
    have := (List.Nodup.getElem_inj_iff bs58Alphabet_nodup).mp (hjc.trans hc.symm)
    omega

def strip (input : Text) : Text := input.filter fun c => !isWhitespace c

theorem strip_skip {c : Char} (cs : Text) (h : isWhitespace c = true) :
    strip (c :: cs) = strip cs := by simp [strip, h]

theorem strip_keep {c : Char} (cs : Text) (h : isWhitespace c = false) :
    strip (c :: cs) = c :: strip cs := by simp [strip, h]

structure Spells (input : Text) (ds : List Nat) : Prop where
  lt : ∀ d ∈ ds, d < 58
  text : strip input = ds.map charOf

theorem Spells.cons {c : Char} {cs : Text} {d : Nat} {ds : List Nat} (hc : alpha c = some d)
    (h : Spells cs ds) : Spells (c :: cs) (d :: ds) where
  lt := by
    intro x hx
    cases hx with
    | head => exact (alpha_eq_some.mp hc).1
    | tail _ hx => exact h.lt x hx
  text := by
    obtain ⟨hd, rfl⟩ := alpha_eq_some.mp hc
    rw [strip_keep cs (bs58Alphabet_visible _ (charOf_mem hd)), h.text, List.map_cons]

theorem Spells.uncons {c : Char} {cs : Text} {ds : List Nat} (hw : isWhitespace c = false)
    (h : Spells (c :: cs) ds) : ∃ d ds', ds = d :: ds' ∧ alpha c = some d ∧ Spells cs ds' := by
  have htext := h.text
  rw [strip_keep cs hw] at htext
  cases ds with
  | nil => cases htext
  | cons d ds' =>
    rw [List.map_cons, List.cons.injEq] at htext
    refine ⟨d, ds', rfl, ?_, fun x hx => h.lt x (List.mem_cons_of_mem _ hx), htext.2⟩
    exact alpha_eq_some.mpr ⟨h.lt d List.mem_cons_self, htext.1.symm⟩

theorem Spells.skip {c : Char} {cs : Text} {ds : List Nat} (hw : isWhitespace c = true) :
    Spells (c :: cs) ds ↔ Spells cs ds := by
  constructor
  · intro h
    exact ⟨h.lt, (strip_skip cs hw).symm.trans h.text⟩
  · intro h
    exact ⟨h.lt, (strip_skip cs hw).trans h.text⟩

theorem decodeDigits_ok {input : Text} {out out' : List UInt8} :
    decodeDigits input out = .ok out' ↔
      ∃ ds, Spells input ds ∧ out' = ds.foldl (fun bytes d => addDigit d bytes) out := by
  induction input generalizing out with
  | nil =>
    constructor
    · intro h
      cases h
      exact ⟨[], ⟨by simp, rfl⟩, rfl⟩
    · rintro ⟨ds, h, rfl⟩
      have hnil : ds = [] := List.map_eq_nil_iff.mp h.text.symm
      subst hnil
      rfl
  | cons c cs ih =>
    rw [decodeDigits]
    cases hw : isWhitespace c with
    | true => simpa only [if_true, Spells.skip hw] using ih
    | false =>
      rw [if_neg Bool.false_ne_true]
      cases hc : alpha c with
      | none =>
        constructor
        · intro h
          cases h
        · rintro ⟨ds, h, -⟩
          obtain ⟨d, ds', -, hd, -⟩ := h.uncons hw
          cases hc.symm.trans hd
      | some v =>
        refine ih.trans ⟨?_, ?_⟩
        · rintro ⟨ds, h, rfl⟩
          exact ⟨v :: ds, h.cons hc, rfl⟩
        · rintro ⟨ds, h, rfl⟩
          obtain ⟨d, ds', rfl, hd, h'⟩ := h.uncons hw
          obtain rfl : v = d := Option.some_inj.mp (hc.symm.trans hd)
          exact ⟨ds', h', rfl⟩

def FirstForeign (input : Text) (c : Char) : Prop :=
  ∃ before after, input = before ++ c :: after ∧ isWhitespace c = false ∧ c ∉ bs58Alphabet ∧
    ∀ d ∈ before, isWhitespace d = true ∨ d ∈ bs58Alphabet

theorem FirstForeign.cons {input : Text} {c d : Char}
    (hd : isWhitespace d = true ∨ d ∈ bs58Alphabet) :
    FirstForeign (d :: input) c ↔ FirstForeign input c := by
  constructor
  · rintro ⟨before, after, hin, hw, hmem, hall⟩
    cases before with
    | nil =>
      cases hin
      cases hd with
      | inl hd => exact absurd (hw.symm.trans hd) Bool.false_ne_true
      | inr hd => exact absurd hd hmem
    | cons x xs =>
      cases hin
      exact ⟨xs, after, rfl, hw, hmem, fun y hy => hall y (List.mem_cons_of_mem _ hy)⟩
  · rintro ⟨before, after, rfl, hw, hmem, hall⟩
    refine ⟨d :: before, after, rfl, hw, hmem, fun y hy => ?_⟩
    cases hy with
    | head => exact hd
    | tail _ hy => exact hall y hy

theorem FirstForeign.head {input : Text} {c d : Char} (hw : isWhitespace d = false)
    (hd : d ∉ bs58Alphabet) : FirstForeign (d :: input) c ↔ c = d := by
  constructor
  · rintro ⟨before, after, hin, -, -, hall⟩
    cases before with
    | nil => exact (List.cons.inj hin).1.symm
    | cons x xs =>
      cases hin
      cases hall d List.mem_cons_self with
      | inl h => exact absurd (hw.symm.trans h) Bool.false_ne_true
      | inr h => exact absurd h hd
  · rintro rfl
    exact ⟨[], input, rfl, hw, hd, by simp⟩

theorem decodeDigits_error {input : Text} {out : List UInt8} {e : String} :
    decodeDigits input out = .error e ↔ ∃ c, FirstForeign input c ∧ e = nonBase58 c := by
  induction input generalizing out with
  | nil => simp [decodeDigits, FirstForeign]
  | cons c cs ih =>
    rw [decodeDigits]
    cases hw : isWhitespace c with
    | true => simpa only [if_true, FirstForeign.cons (Or.inl hw)] using ih
    | false =>
      rw [if_neg Bool.false_ne_true]
      cases hc : alpha c with
      | none =>
        simp only [FirstForeign.head hw (alpha_eq_none.mp hc), exists_eq_left, Except.error.injEq]
        exact eq_comm
      | some v =>
        have hmem : c ∈ bs58Alphabet := by
          obtain ⟨hv, rfl⟩ := alpha_eq_some.mp hc
          exact charOf_mem hv
        simpa only [FirstForeign.cons (Or.inr hmem)] using ih

theorem leadingOnes_eq {input : Text} {ds : List Nat} (h : Spells input ds) :
    leadingOnes input = List.replicate (ds.takeWhile (· == 0)).length 0 := by
  induction input generalizing ds with
  | nil =>
    have hnil : ds = [] := List.map_eq_nil_iff.mp h.text.symm
    subst hnil
    rfl
  | cons c cs ih =>
    rw [leadingOnes]
    cases hw : isWhitespace c with
    | true =>
      have hne : c ≠ '1' := by
        rintro rfl
        exact absurd hw (by decide)
      rw [if_neg hne, if_pos rfl]
      exact ih ((Spells.skip hw).mp h)
    | false =>
      obtain ⟨d, ds', rfl, hd, h'⟩ := h.uncons hw
      have hzero : c = '1' ↔ d = 0 := by
        have hone : alpha '1' = some 0 := by decide
        constructor
        · rintro rfl
          exact Option.some_inj.mp (hd.symm.trans hone)
        · rintro rfl
          rw [← (alpha_eq_some.mp hd).2, ← (alpha_eq_some.mp hone).2]
      by_cases hc : c = '1'
      · rw [if_pos hc, ih h', hzero.mp hc]
        rfl
      · have hd0 : (d == 0) = false := by simpa using mt hzero.mpr hc
        rw [if_neg hc, List.takeWhile_cons, hd0]
        rfl

theorem map_toNat_ofNat {ds : List Nat} (h : ∀ d ∈ ds, d < 256) :
    (ds.map UInt8.ofNat).map UInt8.toNat = ds := by
  rw [List.map_map]
  refine (List.map_congr_left fun d hd => ?_).trans (List.map_id ds)
  exact UInt8.toNat_ofNat_of_lt' (h d hd)

theorem addDigit_toNat (carry : Nat) (bytes : List UInt8) :
    (addDigit carry bytes).map UInt8.toNat
      = Radix.mulAdd 256 58 carry (bytes.map UInt8.toNat) := by
  induction bytes generalizing carry with
  | nil => exact map_toNat_ofNat fun d hd => Nat.digits_lt_base (by decide) hd
  | cons byte bytes ih =>
    simp only [addDigit, List.map_cons, Radix.mulAdd, ih]
    congr 1
    exact UInt8.toNat_ofNat_of_lt' (Nat.mod_lt _ (by decide))

theorem foldl_addDigit (ds : List Nat) (bytes : List UInt8) :
    (ds.foldl (fun bytes d => addDigit d bytes) bytes).map UInt8.toNat
      = ds.foldl (fun out d => Radix.mulAdd 256 58 d out) (bytes.map UInt8.toNat) := by
  induction ds generalizing bytes with
  | nil => rfl
  | cons d ds ih => rw [List.foldl_cons, List.foldl_cons, ih, addDigit_toNat]

theorem base58Decode_spells {input : Text} {bytes : List UInt8} :
    base58Decode input = .ok bytes ↔
      ∃ ds, Spells input ds ∧ bytes.map UInt8.toNat = Radix.recode 58 256 ds := by
  have hbytes : ∀ ds, Spells input ds →
      ((ds.foldl (fun bytes d => addDigit d bytes) [] ++ leadingOnes input).reverse).map
        UInt8.toNat = Radix.recode 58 256 ds := by
    intro ds h
    have hdigits := @Radix.digitsFrom_eq 256 58 (by decide) (by decide) ds
    rw [Radix.digitsFrom] at hdigits
    rw [List.map_reverse, List.map_append, foldl_addDigit, List.map_nil, hdigits,
      leadingOnes_eq h, List.map_replicate, List.reverse_append, List.reverse_replicate]
    rfl
  constructor
  · intro h
    obtain ⟨out, hout, h⟩ := except_bind_ok.mp h
    obtain ⟨ds, hds, rfl⟩ := decodeDigits_ok.mp hout
    cases h
    exact ⟨ds, hds, hbytes ds hds⟩
  · rintro ⟨ds, hds, h⟩
    have htoNat : Function.Injective UInt8.toNat := fun _ _ => UInt8.toNat_inj.mp
    have hsame := List.map_injective_iff.mpr htoNat ((hbytes ds hds).trans h.symm)
    rw [base58Decode, decodeDigits_ok.mpr ⟨ds, hds, rfl⟩, ← hsame]
    rfl

def base58Encode (bytes : List UInt8) : Text :=
  (Radix.recode 256 58 (bytes.map UInt8.toNat)).map charOf

theorem toNat_lt (bytes : List UInt8) : ∀ d ∈ bytes.map UInt8.toNat, d < 256 := by
  intro d hd
  obtain ⟨b, -, rfl⟩ := List.mem_map.mp hd
  exact b.toNat_lt

theorem base58Decode_iff {input : Text} {bytes : List UInt8} :
    base58Decode input = .ok bytes ↔ strip input = base58Encode bytes := by
  rw [base58Decode_spells]
  constructor
  · rintro ⟨ds, h, hbytes⟩
    rw [base58Encode, hbytes, Radix.recode_recode (by decide) h.lt]
    exact h.text
  · intro h
    refine ⟨_, ⟨Radix.recode_lt (by decide), h⟩, ?_⟩
    exact (Radix.recode_recode (by decide) (toNat_lt bytes)).symm

theorem base58Decode_error_iff {input : Text} {e : String} :
    base58Decode input = .error e ↔ ∃ c, FirstForeign input c ∧ e = nonBase58 c := by
  rw [← @decodeDigits_error input [], base58Decode]
  cases decodeDigits input [] with
  | ok out => exact ⟨nofun, nofun⟩
  | error e' => exact Iff.rfl

/-- What is read are the encodings, white space anywhere; anything else is refused at its first
foreign character. -/
theorem base58Decode_reads (input : Text) :
    (∀ bytes, base58Decode input = .ok bytes ↔ strip input = base58Encode bytes) ∧
      ∀ e, base58Decode input = .error e ↔ ∃ c, FirstForeign input c ∧ e = nonBase58 c :=
  ⟨fun _ => base58Decode_iff, fun _ => base58Decode_error_iff⟩

end MoleFinance.Registry
