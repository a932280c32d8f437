import MoleFinance.Chain.Oracle
import MoleFinance.MulDiv
import Mathlib.Algebra.Order.Floor.Semifield
import Mathlib.Data.Rat.Floor
import Mathlib.Tactic.NormNum

/-! Which price accounts are accepted, at what price, and that no byte string aborts. -/
namespace MoleFinance.Pyth
open MoleMath Call
variable {α β : Type}

/-- A result, or none where the code aborts. -/
abbrev Aborting := ExceptT OracleError Option

def abort : Aborting α := ExceptT.mk none

def total (x : Except OracleError α) : Aborting α := ExceptT.mk (some x)

theorem total_bind (x : Except OracleError α) {f : α → Aborting β} {g : α → Except OracleError β}
    (h : ∀ a, x = .ok a → f a = total (g a)) : total x >>= f = total (x >>= g) := by
  cases x with
  | error e => rfl
  | ok a => exact h a rfl

theorem total_ok_bind (a : α) (f : α → Aborting β) : total (.ok a) >>= f = f a := rfl

/-- `bytes[offset..offset + n]` aborts outside the slice. -/
def readLeAborting (bytes : List UInt8) (offset n : Nat) : Aborting Nat :=
  if offset + n ≤ bytes.length then total (.ok (readLe bytes offset n)) else abort

def readU32LeAborting (bytes : List UInt8) (offset : Nat) : Aborting Nat :=
  readLeAborting bytes offset 4

def readI32LeAborting (bytes : List UInt8) (offset : Nat) : Aborting Int := do
  let n ← readLeAborting bytes offset 4
  return (n : Int).bmod (2 ^ 32)

def readU64LeAborting (bytes : List UInt8) (offset : Nat) : Aborting Nat :=
  readLeAborting bytes offset 8

def readI64LeAborting (bytes : List UInt8) (offset : Nat) : Aborting Int := do
  let n ← readLeAborting bytes offset 8
  return (n : Int).bmod (2 ^ 64)

def subI32Aborting (a b : Int) : Aborting Int :=
  if -2 ^ 31 ≤ a - b ∧ a - b < 2 ^ 31 then total (.ok (a - b)) else abort

def divAborting (a b : Nat) : Aborting Nat := if b = 0 then abort else total (.ok (a / b))

def mulDivFloorAborting (a b d : Nat) : Aborting Nat :=
  if d = 0 then total (.error .mathOverflow)
  else if a = 0 ∨ b = 0 then total (.ok 0)
  else match mulToU256Checked a b with
    | .error _ => abort
    | .ok p => if p.2 = 0 then divAborting p.1 d
      else total (oracleMath (Prod.fst <$> div256 p.2 p.1 d))

def rescaleAborting (raw : Nat) (expo : Int) : Aborting Nat :=
  if expo = targetExpo then total (.ok raw)
  else if targetExpo < expo then do
    let n ← subI32Aborting expo targetExpo
    let factor ← total (pow10 n)
    total (ensure (raw * factor < u128Size) .mathOverflow)
    return raw * factor
  else do
    let n ← subI32Aborting targetExpo expo
    let factor ← total (pow10 n)
    divAborting raw factor

/-- `validate_price_account` with every slice, subtraction and division that may abort. -/
def validatePriceAccountAborting (accountData : List UInt8) (accountOwner expectedOwner : Pubkey)
    (currentSlot : Nat) (policy : ValidationPolicy) : Aborting ValidatedPrice := do
  total (ensure (minHeaderBytes ≤ accountData.length)
    (.tooSmall accountData.length minHeaderBytes))
  total (ensure (accountOwner = expectedOwner) .wrongOwner)
  let foundMagic ← readU32LeAborting accountData 0
  total (ensure (foundMagic = magic) (.magicMismatch foundMagic))
  let foundVersion ← readU32LeAborting accountData 4
  total (ensure (foundVersion = version) (.versionMismatch foundVersion))
  let atype ← readU32LeAborting accountData 8
  total (ensure (atype = accountTypePrice) (.notPriceAccount atype))
  let expo ← readI32LeAborting accountData 20
  total (ensure (minExpo ≤ expo ∧ expo ≤ maxExpo) (.expoOutOfRange expo))
  let status ← readU32LeAborting accountData 224
  total (ensure (status = statusTrading) (.notTrading status))
  let rawPrice ← readI64LeAborting accountData 208
  total (ensure (0 < rawPrice) (.nonPositivePrice rawPrice))
  let rawConf ← readU64LeAborting accountData 216
  let publishSlot ← readU64LeAborting accountData 232
  -- saturating_sub
  let age := currentSlot - publishSlot
  total (ensure (age ≤ policy.maxAgeSlots) (.stale age))
  let confBps ← mulDivFloorAborting rawConf 10000 rawPrice.toNat
  total (ensure (confBps ≤ policy.maxConfidenceBps) (.confidenceTooWide confBps))
  let price ← rescaleAborting rawPrice.toNat expo
  let confidence ← rescaleAborting rawConf expo
  let price ← total (toU64 price)
  let confidence ← total (toU64 confidence)
  return { price := price, confidence := confidence, expo := expo, publishSlot := publishSlot }

theorem powLoop_eq {n acc : Nat} (h : acc * 10 ^ n < u128Size) :
    powLoop n acc = .ok (acc * 10 ^ n) := by
  induction n generalizing acc with
  | zero => rw [pow_zero, mul_one]; rfl
  | succ n ih =>
    have hstep : acc * 10 * 10 ^ n = acc * 10 ^ (n + 1) := by rw [pow_succ']; ring
    have hle : acc * 10 ≤ acc * 10 * 10 ^ n := Nat.le_mul_of_pos_right _ (by positivity)
    unfold powLoop
    rw [ensure_of (by omega), ok_bind, ih (by omega), hstep]

theorem pow10_eq {n : Nat} (h : n ≤ 18) : pow10 n = .ok (10 ^ n) := by
  have hle : 10 ^ n ≤ 10 ^ 18 := Nat.pow_le_pow_right (by norm_num) h
  unfold pow10
  rw [ensure_of (by omega), ok_bind, Int.toNat_natCast,
    powLoop_eq (by rw [one_mul]; unfold u128Size; omega), one_mul]

theorem readLe_lt (bytes : List UInt8) (offset n : Nat) : readLe bytes offset n < 256 ^ n := by
  have hfold : ∀ xs : List UInt8,
      xs.foldr (fun b rest => b.toNat + 256 * rest) 0 < 256 ^ xs.length := by
    intro xs
    induction xs with
    | nil => norm_num
    | cons b xs ih =>
      have hb := b.toNat_lt
      rw [List.foldr_cons, List.length_cons, pow_succ']
      omega
  refine (hfold _).trans_le (Nat.pow_le_pow_right (by norm_num) ?_)
  rw [List.length_take]
  exact Nat.min_le_left ..

theorem readI64Le_toNat_lt (bytes : List UInt8) (offset : Nat) :
    (readI64Le bytes offset).toNat < u64Size := by
  have h := Int.bmod_lt (x := readLe bytes offset 8) (m := 2 ^ 64) (by norm_num)
  unfold readI64Le u64Size
  omega

theorem readU64Le_lt (bytes : List UInt8) (offset : Nat) : readU64Le bytes offset < u64Size := by
  have h := readLe_lt bytes offset 8
  unfold readU64Le u64Size
  omega

/-- The raw integer at the scale of prices, rounded down. -/
def rescaled (raw : Nat) (expo : Int) : Nat := ⌊(raw : ℚ) * 10 ^ (expo + 8)⌋₊

theorem rescaled_up (raw n : Nat) : rescaled raw (targetExpo + n) = raw * 10 ^ n := by
  unfold rescaled targetExpo
  rw [show (-8 + n + 8 : Int) = n by ring, zpow_natCast]
  exact_mod_cast Nat.floor_natCast (R := ℚ) (raw * 10 ^ n)

theorem rescaled_down (raw n : Nat) : rescaled raw (targetExpo - n) = raw / 10 ^ n := by
  unfold rescaled targetExpo
  rw [show (-8 - n + 8 : Int) = -n by ring, zpow_neg, zpow_natCast, ← div_eq_mul_inv]
  exact_mod_cast Nat.floor_div_eq_div (K := ℚ) raw (10 ^ n)

/-- Within the accepted exponents rescaling is exact and never overflows. -/
theorem rescaleToPriceScale_eq {raw : Nat} {expo : Int} (hraw : raw < u64Size)
    (hexpo : minExpo ≤ expo ∧ expo ≤ maxExpo) :
    rescaleToPriceScale raw expo = .ok (rescaled raw expo) := by
  unfold minExpo maxExpo at hexpo
  unfold rescaleToPriceScale
  by_cases hup : targetExpo ≤ expo
  · obtain ⟨n, hn⟩ := Int.eq_ofNat_of_zero_le (show 0 ≤ expo - targetExpo by omega)
    have hexp : expo = targetExpo + n := by omega
    have hn8 : n ≤ 8 := by unfold targetExpo at hn; omega
    rw [hexp, rescaled_up]
    by_cases hz : n = 0
    · rw [hz, if_pos (by simp), pow_zero, mul_one]
    · have hpow : 10 ^ n ≤ 10 ^ 8 := Nat.pow_le_pow_right (by norm_num) hn8
      have hfits : raw * 10 ^ n < u128Size := calc
        raw * 10 ^ n ≤ raw * 10 ^ 8 := Nat.mul_le_mul_left _ hpow
        _ < u128Size := by unfold u64Size at hraw; unfold u128Size; omega
      rw [if_neg (by omega), if_pos (by omega),
        show targetExpo + (n : Int) - targetExpo = n by ring,
        pow10_eq (by omega), ok_bind, ensure_of hfits]
      rfl
  · obtain ⟨n, hn⟩ := Int.eq_ofNat_of_zero_le (show 0 ≤ targetExpo - expo by omega)
    have hexp : expo = targetExpo - n := by omega
    have hn10 : n ≤ 10 := by unfold targetExpo at hn; omega
    rw [hexp, rescaled_down, if_neg (by omega), if_neg (by omega),
      show targetExpo - (targetExpo - (n : Int)) = n by ring, pow10_eq (by omega)]
    rfl

section Total

theorem readLeAborting_eq {bytes : List UInt8} {offset n : Nat} (h : offset + n ≤ bytes.length) :
    readLeAborting bytes offset n = total (.ok (readLe bytes offset n)) := if_pos h

theorem readI32LeAborting_eq {bytes : List UInt8} {offset : Nat}
    (h : offset + 4 ≤ bytes.length) :
    readI32LeAborting bytes offset = total (.ok (readI32Le bytes offset)) := by
  unfold readI32LeAborting
  rw [readLeAborting_eq h]
  rfl

theorem readI64LeAborting_eq {bytes : List UInt8} {offset : Nat}
    (h : offset + 8 ≤ bytes.length) :
    readI64LeAborting bytes offset = total (.ok (readI64Le bytes offset)) := by
  unfold readI64LeAborting
  rw [readLeAborting_eq h]
  rfl

theorem mulDivFloorAborting_eq {a b d : Nat} (ha : a < u128Size) (hb : b < u128Size) :
    mulDivFloorAborting a b d = total (oracleMath (mulDivFloor a b d)) := by
  unfold mulDivFloorAborting mulDivFloor fullMulDiv
  by_cases hd : d = 0
  · rw [if_pos hd, if_pos hd]
    rfl
  rw [if_neg hd, if_neg hd]
  by_cases hz : a = 0 ∨ b = 0
  · rw [if_pos hz, if_pos hz]
    rfl
  rw [if_neg hz, if_neg hz, mulToU256Checked_eq ha hb]
  simp only [Bool.false_eq_true, false_and, if_false]
  by_cases hhigh : (mulToU256 a b).2 = 0
  · rw [if_pos hhigh, if_pos hhigh, divAborting, if_neg hd]
    rfl
  · rw [if_neg hhigh, if_neg hhigh]
    cases div256 (mulToU256 a b).2 (mulToU256 a b).1 d with
    | error e => rfl
    | ok qr => rfl

theorem rescaleAborting_eq (raw : Nat) {expo : Int} (hexpo : minExpo ≤ expo ∧ expo ≤ maxExpo) :
    rescaleAborting raw expo = total (rescaleToPriceScale raw expo) := by
  unfold minExpo maxExpo at hexpo
  unfold rescaleAborting rescaleToPriceScale
  split_ifs with heq hup
  · rfl
  · rw [subI32Aborting, if_pos (by unfold targetExpo; omega), total_ok_bind]
    refine total_bind _ fun factor hfactor => ?_
    exact total_bind _ fun _ _ => rfl
  · rw [subI32Aborting, if_pos (by unfold targetExpo at *; omega), total_ok_bind]
    refine total_bind _ fun factor hfactor => ?_
    have hpos : factor ≠ 0 := by
      obtain ⟨k, hk⟩ := Int.eq_ofNat_of_zero_le (show 0 ≤ targetExpo - expo by omega)
      rw [hk, pow10_eq (by unfold targetExpo at hk; omega)] at hfactor
      cases hfactor
      positivity
    rw [divAborting, if_neg hpos]
    rfl

theorem validatePriceAccountAborting_eq (accountData : List UInt8)
    (accountOwner expectedOwner : Pubkey) (currentSlot : Nat) (policy : ValidationPolicy) :
    validatePriceAccountAborting accountData accountOwner expectedOwner currentSlot policy
      = total (validatePriceAccount accountData accountOwner expectedOwner currentSlot policy) := by
  unfold validatePriceAccountAborting validatePriceAccount
  refine total_bind _ fun _ hlen => ?_
  have hlen := ensure_ok.mp hlen
  unfold minHeaderBytes at hlen
  refine total_bind _ fun _ _ => ?_
  rw [readU32LeAborting, readLeAborting_eq (by omega), total_ok_bind]
  refine total_bind _ fun _ _ => ?_
  rw [readU32LeAborting, readLeAborting_eq (by omega), total_ok_bind]
  refine total_bind _ fun _ _ => ?_
  rw [readU32LeAborting, readLeAborting_eq (by omega), total_ok_bind]
  refine total_bind _ fun _ _ => ?_
  rw [readI32LeAborting_eq (by omega), total_ok_bind]
  refine total_bind _ fun _ hexpo => ?_
  have hexpo := ensure_ok.mp hexpo
  rw [readU32LeAborting, readLeAborting_eq (by omega), total_ok_bind]
  refine total_bind _ fun _ _ => ?_
  rw [readI64LeAborting_eq (by omega), total_ok_bind]
  refine total_bind _ fun _ _ => ?_
  rw [readU64LeAborting, readLeAborting_eq (by omega), total_ok_bind,
    readU64LeAborting, readLeAborting_eq (by omega), total_ok_bind]
  refine total_bind _ fun _ _ => ?_
  have hconf : readLe accountData 216 8 < u128Size :=
    (readLe_lt accountData 216 8).trans (by norm_num [u128Size])
  rw [mulDivFloorAborting_eq hconf (by norm_num [u128Size])]
  refine total_bind _ fun _ _ => total_bind _ fun _ _ => ?_
  rw [rescaleAborting_eq _ hexpo, rescaleAborting_eq _ hexpo]
  refine total_bind _ fun _ _ => total_bind _ fun _ _ => ?_
  exact total_bind _ fun _ _ => total_bind _ fun _ _ => rfl

end Total

/-- What the bytes of an account and its age must satisfy, whatever its exponent. -/
structure Checks (accountData : List UInt8) (accountOwner expectedOwner : Pubkey)
    (currentSlot : Nat) (policy : ValidationPolicy) : Prop where
  long : minHeaderBytes ≤ accountData.length
  owned : accountOwner = expectedOwner
  header : readU32Le accountData 0 = magic ∧ readU32Le accountData 4 = version
  typed : readU32Le accountData 8 = accountTypePrice
  trading : readU32Le accountData 224 = statusTrading
  positive : 0 < readI64Le accountData 208
  fresh : currentSlot - readU64Le accountData 232 ≤ policy.maxAgeSlots
  narrow : readU64Le accountData 216 * 10000 / (readI64Le accountData 208).toNat
    ≤ policy.maxConfidenceBps

def scaledPrice (accountData : List UInt8) : Nat :=
  rescaled (readI64Le accountData 208).toNat (readI32Le accountData 20)

def scaledConfidence (accountData : List UInt8) : Nat :=
  rescaled (readU64Le accountData 216) (readI32Le accountData 20)

/-- The exponents accepted, and the magnitudes left at the scale of prices. -/
structure InScale (accountData : List UInt8) : Prop where
  expo : minExpo ≤ readI32Le accountData 20 ∧ readI32Le accountData 20 ≤ maxExpo
  price : scaledPrice accountData < u64Size
  confidence : scaledConfidence accountData < u64Size

theorem toU64_ok {n : Nat} {a : U64} : toU64 n = .ok a ↔ a.val = n := by
  unfold toU64
  split_ifs with h
  · constructor
    · rintro ⟨⟩
      rfl
    · intro ha
      exact congrArg _ (Fin.ext ha.symm)
  · constructor
    · rintro ⟨⟩
    · intro ha
      exact absurd (ha ▸ a.isLt) h

section Exact
variable (accountData : List UInt8) (accountOwner expectedOwner : Pubkey) (currentSlot : Nat)
  (policy : ValidationPolicy)

theorem confBps_eq (hpos : 0 < readI64Le accountData 208) :
    oracleMath (mulDivFloor (readU64Le accountData 216) 10000 (readI64Le accountData 208).toNat)
      = .ok (readU64Le accountData 216 * 10000 / (readI64Le accountData 208).toNat) := by
  have hraw := readI64Le_toNat_lt accountData 208
  have hconf := readU64Le_lt accountData 216
  unfold u64Size at hraw hconf
  have hfits : readU64Le accountData 216 * 10000 / (readI64Le accountData 208).toNat
      < u128Size := by
    refine (Nat.div_le_self _ _).trans_lt ?_
    unfold u128Size
    omega
  rw [mulDivFloor_eq (by unfold u128Size; omega), if_neg (by omega), if_pos hfits]
  rfl

theorem validatePriceAccount_ok {v : ValidatedPrice} :
    validatePriceAccount accountData accountOwner expectedOwner currentSlot policy = .ok v ↔
      Checks accountData accountOwner expectedOwner currentSlot policy ∧
      (minExpo ≤ readI32Le accountData 20 ∧ readI32Le accountData 20 ≤ maxExpo) ∧
      v.price.val = scaledPrice accountData ∧
      v.confidence.val = scaledConfidence accountData ∧
      v.expo = readI32Le accountData 20 ∧ v.publishSlot = readU64Le accountData 232 := by
  have hraw := readI64Le_toNat_lt accountData 208
  have hconf := readU64Le_lt accountData 216
  constructor
  · intro h
    unfold validatePriceAccount at h
    obtain ⟨_, hlong, h⟩ := except_bind_ok.mp h
    obtain ⟨_, howned, h⟩ := except_bind_ok.mp h
    obtain ⟨_, hmagic, h⟩ := except_bind_ok.mp h
    obtain ⟨_, hversion, h⟩ := except_bind_ok.mp h
    obtain ⟨_, htyped, h⟩ := except_bind_ok.mp h
    obtain ⟨_, hexpo, h⟩ := except_bind_ok.mp h
    obtain ⟨_, htrading, h⟩ := except_bind_ok.mp h
    obtain ⟨_, hpositive, h⟩ := except_bind_ok.mp h
    obtain ⟨_, hfresh, h⟩ := except_bind_ok.mp h
    have hexpo := ensure_ok.mp hexpo
    have hpositive := ensure_ok.mp hpositive
    rw [confBps_eq accountData hpositive, ok_bind] at h
    obtain ⟨_, hnarrow, h⟩ := except_bind_ok.mp h
    rw [rescaleToPriceScale_eq hraw hexpo, ok_bind, rescaleToPriceScale_eq hconf hexpo,
      ok_bind] at h
    obtain ⟨price, hprice, h⟩ := except_bind_ok.mp h
    obtain ⟨confidence, hconfidence, h⟩ := except_bind_ok.mp h
    cases h
    exact ⟨⟨ensure_ok.mp hlong, ensure_ok.mp howned, ⟨ensure_ok.mp hmagic, ensure_ok.mp hversion⟩,
      ensure_ok.mp htyped, ensure_ok.mp htrading, hpositive, ensure_ok.mp hfresh,
      ensure_ok.mp hnarrow⟩, hexpo, toU64_ok.mp hprice, toU64_ok.mp hconfidence, by simp only,
      by simp only⟩
  · rintro ⟨hchecks, hexpo, hprice, hconfidence, hv, hslot⟩
    unfold validatePriceAccount
    rw [ensure_of hchecks.long, ok_bind, ensure_of hchecks.owned, ok_bind]
    simp only
    rw [ensure_of hchecks.header.1, ok_bind, ensure_of hchecks.header.2, ok_bind,
      ensure_of hchecks.typed, ok_bind, ensure_of hexpo, ok_bind, ensure_of hchecks.trading,
      ok_bind, ensure_of hchecks.positive, ok_bind, ensure_of hchecks.fresh, ok_bind,
      confBps_eq accountData hchecks.positive, ok_bind, ensure_of hchecks.narrow, ok_bind,
      rescaleToPriceScale_eq hraw hexpo, ok_bind, rescaleToPriceScale_eq hconf hexpo, ok_bind,
      ← scaledPrice, ← scaledConfidence, toU64_ok.mpr hprice, ok_bind, toU64_ok.mpr hconfidence]
    rw [← hv, ← hslot]
    rfl

/-- No bytes abort. What is accepted passed every check, at an exponent and magnitudes the price
    scale holds, and is reported at that scale; what passes them at a positive price is accepted. -/
theorem priceAccount_exact :
    (validatePriceAccountAborting accountData accountOwner expectedOwner currentSlot policy).run
      = some (validatePriceAccount accountData accountOwner expectedOwner currentSlot policy) ∧
    (∀ v, validatePriceAccount accountData accountOwner expectedOwner currentSlot policy = .ok v →
      Checks accountData accountOwner expectedOwner currentSlot policy ∧ InScale accountData ∧
        v.price.val = scaledPrice accountData) ∧
    (Checks accountData accountOwner expectedOwner currentSlot policy → InScale accountData →
      0 < scaledPrice accountData →
      ∃ v, validatePriceAccount accountData accountOwner expectedOwner currentSlot policy = .ok v ∧
        v.price.val = scaledPrice accountData) := by
  have hok := @validatePriceAccount_ok accountData accountOwner expectedOwner currentSlot policy
  refine ⟨?_, ?_, ?_⟩
  · rw [validatePriceAccountAborting_eq]
    rfl
  · intro v hv
    obtain ⟨hchecks, hexpo, hprice, hconfidence, -⟩ := hok.mp hv
    exact ⟨hchecks, ⟨hexpo, hprice ▸ v.price.isLt, hconfidence ▸ v.confidence.isLt⟩, hprice⟩
  · intro hchecks hscale _
    refine ⟨⟨⟨_, hscale.price⟩, ⟨_, hscale.confidence⟩, readI32Le accountData 20,
      readU64Le accountData 232⟩, ?_, rfl⟩
    refine hok.mpr ⟨hchecks, hscale.expo, ?_⟩
    simp only [and_self]

end Exact

def scaledFeed (expoBits price conf : Nat) : List UInt8 :=
  bytesLe 4 magic ++ bytesLe 4 version ++ bytesLe 4 accountTypePrice ++ bytesLe 8 0
    ++ bytesLe 4 expoBits ++ bytesLe 184 0 ++ bytesLe 8 price ++ bytesLe 8 conf
    ++ bytesLe 4 statusTrading ++ bytesLe 4 0 ++ bytesLe 8 7

theorem scaledFeed_checks :
    Checks (scaledFeed 1 1 0) 5 5 9 ⟨25, 100⟩ ∧
    Checks (scaledFeed 0 1 (2 ^ 38)) 5 5 9 ⟨25, 10 ^ 16⟩ ∧
    Checks (scaledFeed (2 ^ 32 - 10) 12345 100) 5 5 9 ⟨25, 100⟩ := by
  refine ⟨?_, ?_, ?_⟩ <;> constructor <;> decide +kernel

/-- 123.45 at ten decimals: a price at the scale, rounded down. -/
theorem scaledFeed_exact : ∃ v,
    validatePriceAccount (scaledFeed (2 ^ 32 - 10) 12345 100) 5 5 9 ⟨25, 100⟩ = .ok v ∧
      v.price.val = 123 := by
  have hexpo : readI32Le (scaledFeed (2 ^ 32 - 10) 12345 100) 20 = targetExpo - (2 : Nat) := by
    decide +kernel
  have hraw : (readI64Le (scaledFeed (2 ^ 32 - 10) 12345 100) 208).toNat = 12345 := by
    decide +kernel
  have hconf : readU64Le (scaledFeed (2 ^ 32 - 10) 12345 100) 216 = 100 := by decide +kernel
  have hprice : scaledPrice (scaledFeed (2 ^ 32 - 10) 12345 100) = 123 := by
    rw [scaledPrice, hexpo, hraw, rescaled_down]
    norm_num
  have hconfidence : scaledConfidence (scaledFeed (2 ^ 32 - 10) 12345 100) = 1 := by
    rw [scaledConfidence, hexpo, hconf, rescaled_down]
    norm_num
  have hscale : InScale (scaledFeed (2 ^ 32 - 10) 12345 100) :=
    ⟨by rw [hexpo]; decide, hprice ▸ by decide, hconfidence ▸ by decide⟩
  have h := (priceAccount_exact _ 5 5 9 ⟨25, 100⟩).2.2 scaledFeed_checks.2.2 hscale
    (hprice ▸ by decide)
  rwa [hprice] at h

/-- Refused although every check holds and the price fits: an exponent of one, and a wide
    confidence that is allowed but does not fit the scale. -/
theorem scaledFeed_refused :
    (Checks (scaledFeed 1 1 0) 5 5 9 ⟨25, 100⟩ ∧ scaledPrice (scaledFeed 1 1 0) = 10 ^ 9 ∧
      validatePriceAccount (scaledFeed 1 1 0) 5 5 9 ⟨25, 100⟩ = .error (.expoOutOfRange 1)) ∧
    (Checks (scaledFeed 0 1 (2 ^ 38)) 5 5 9 ⟨25, 10 ^ 16⟩ ∧
      scaledPrice (scaledFeed 0 1 (2 ^ 38)) = 10 ^ 8 ∧
      validatePriceAccount (scaledFeed 0 1 (2 ^ 38)) 5 5 9 ⟨25, 10 ^ 16⟩
        = .error .mathOverflow) := by
  refine ⟨⟨scaledFeed_checks.1, ?_, by decide +kernel⟩, scaledFeed_checks.2.1, ?_,
    by decide +kernel⟩
  · have hexpo : readI32Le (scaledFeed 1 1 0) 20 = targetExpo + (9 : Nat) := by decide +kernel
    have hraw : (readI64Le (scaledFeed 1 1 0) 208).toNat = 1 := by decide +kernel
    rw [scaledPrice, hexpo, hraw, rescaled_up, one_mul]
  · have hexpo : readI32Le (scaledFeed 0 1 (2 ^ 38)) 20 = targetExpo + (8 : Nat) := by
      decide +kernel
    have hraw : (readI64Le (scaledFeed 0 1 (2 ^ 38)) 208).toNat = 1 := by decide +kernel
    rw [scaledPrice, hexpo, hraw, rescaled_up, one_mul]

end MoleFinance.Pyth
