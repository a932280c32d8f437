import MoleFinance.Chain.Accounts
import MoleFinance.Engine.World

/-! Validation of a price account, byte by byte, and the envelope a handler builds from it. -/
namespace MoleFinance
open MoleMath Call

structure OracleAccount where
  owner : Pubkey
  data : List UInt8
deriving DecidableEq

inductive OracleError where
  | tooSmall (got need : Nat)
  | wrongOwner
  | magicMismatch (magic : Nat)
  | versionMismatch (version : Nat)
  | notPriceAccount (atype : Nat)
  | notTrading (status : Nat)
  | expoOutOfRange (expo : Int)
  | confidenceTooWide (bps : Nat)
  | stale (age : Nat)
  | nonPositivePrice (price : Int)
  | mathOverflow
deriving DecidableEq, Repr

structure ValidatedPrice where
  price : U64
  confidence : U64
  expo : Int
  publishSlot : Nat
deriving DecidableEq

structure ValidationPolicy where
  maxAgeSlots : Nat
  maxConfidenceBps : Nat
deriving DecidableEq, Repr

namespace Pyth

def magic : Nat := 0xa1b2c3d4
def version : Nat := 2
def accountTypePrice : Nat := 3
def statusTrading : Nat := 1
def minExpo : Int := -18
def maxExpo : Int := 0
def minHeaderBytes : Nat := 240
def targetExpo : Int := -8

def readLe (bytes : List UInt8) (offset n : Nat) : Nat :=
  ((bytes.drop offset).take n).foldr (fun b rest => b.toNat + 256 * rest) 0

def readU32Le (bytes : List UInt8) (offset : Nat) : Nat := readLe bytes offset 4

def readI32Le (bytes : List UInt8) (offset : Nat) : Int :=
  (readLe bytes offset 4 : Int).bmod (2 ^ 32)

def readU64Le (bytes : List UInt8) (offset : Nat) : Nat := readLe bytes offset 8

def readI64Le (bytes : List UInt8) (offset : Nat) : Int :=
  (readLe bytes offset 8 : Int).bmod (2 ^ 64)

/-- `?` on a math primitive: any failure is an overflow here. -/
def oracleMath {α : Type} : Except MathError α → Except OracleError α
  | .ok a => .ok a
  | .error _ => .error .mathOverflow

def powLoop : Nat → Nat → Except OracleError Nat
  | 0, acc => .ok acc
  | n + 1, acc => do
    ensure (acc * 10 < u128Size) .mathOverflow
    powLoop n (acc * 10)

def pow10 (n : Int) : Except OracleError Nat := do
  ensure (0 ≤ n ∧ n ≤ 18) (.expoOutOfRange n)
  powLoop n.toNat 1

def rescaleToPriceScale (raw : Nat) (expo : Int) : Except OracleError Nat :=
  if expo = targetExpo then .ok raw
  else if targetExpo < expo then do
    let factor ← pow10 (expo - targetExpo)
    ensure (raw * factor < u128Size) .mathOverflow
    return raw * factor
  else do
    let factor ← pow10 (targetExpo - expo)
    return raw / factor

def toU64 (n : Nat) : Except OracleError U64 :=
  if h : n < u64Size then .ok ⟨n, h⟩ else .error .mathOverflow

def validatePriceAccount (accountData : List UInt8) (accountOwner expectedOwner : Pubkey)
    (currentSlot : Nat) (policy : ValidationPolicy) : Except OracleError ValidatedPrice := do
  ensure (minHeaderBytes ≤ accountData.length) (.tooSmall accountData.length minHeaderBytes)
  ensure (accountOwner = expectedOwner) .wrongOwner
  let foundMagic := readU32Le accountData 0
  ensure (foundMagic = magic) (.magicMismatch foundMagic)
  let foundVersion := readU32Le accountData 4
  ensure (foundVersion = version) (.versionMismatch foundVersion)
  let atype := readU32Le accountData 8
  ensure (atype = accountTypePrice) (.notPriceAccount atype)
  let expo := readI32Le accountData 20
  ensure (minExpo ≤ expo ∧ expo ≤ maxExpo) (.expoOutOfRange expo)
  let status := readU32Le accountData 224
  ensure (status = statusTrading) (.notTrading status)
  let rawPrice := readI64Le accountData 208
  ensure (0 < rawPrice) (.nonPositivePrice rawPrice)
  let rawConf := readU64Le accountData 216
  let publishSlot := readU64Le accountData 232
  let age := currentSlot - publishSlot
  ensure (age ≤ policy.maxAgeSlots) (.stale age)
  let confBps ← oracleMath (mulDivFloor rawConf 10000 rawPrice.toNat)
  ensure (confBps ≤ policy.maxConfidenceBps) (.confidenceTooWide confBps)
  let price ← rescaleToPriceScale rawPrice.toNat expo
  let confidence ← rescaleToPriceScale rawConf expo
  let price ← toU64 price
  let confidence ← toU64 confidence
  return { price := price, confidence := confidence, expo := expo, publishSlot := publishSlot }

def bytesLe : Nat → Nat → List UInt8
  | 0, _ => []
  | n + 1, a => UInt8.ofNat a :: bytesLe n (a / 256)

def feed (price publishSlot : Nat) : List UInt8 :=
  bytesLe 4 magic ++ bytesLe 4 version ++ bytesLe 4 accountTypePrice ++ bytesLe 8 0
    ++ bytesLe 4 (2 ^ 32 - 8) ++ bytesLe 184 0 ++ bytesLe 8 price ++ bytesLe 8 0
    ++ bytesLe 4 statusTrading ++ bytesLe 4 0 ++ bytesLe 8 publishSlot

example : (validatePriceAccount (feed 100 7) 5 5 9 ⟨25, 100⟩).map (·.price.val) = .ok 100 := by
  decide +kernel

end Pyth
end MoleFinance
