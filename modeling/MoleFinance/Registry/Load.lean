import MoleFinance.Keeper.Decoder
import MoleFinance.Registry.Base58
import MoleFinance.Registry.Tables

/-! `MarketRegistry::from_toml_str_with_env`. -/
namespace MoleFinance.Registry
open Chars Call Decoder

structure MarketEntry where
  symbol : Text
  programId : Pubkey32
  marketPda : Pubkey32
  lockPda : Pubkey32
  expectedLeader : Option Pubkey32
deriving DecidableEq

structure MarketRegistry where
  markets : List MarketEntry
deriving DecidableEq

def validateSymbol (symbol : Text) : Except RegistryError Unit := do
  ensure (symbol ≠ []) (.invalidSymbol [] "symbol must not be empty")
  ensure (byteLength symbol ≤ 16)
    (.invalidSymbol symbol ("symbol exceeds 16-byte cap (got " ++ toString (byteLength symbol) ++
      " bytes)"))
  ensure (symbol.all (·.val < 128) = true) (.invalidSymbol symbol "symbol must be pure ASCII")

def decodePubkey32 (symbol : Text) (field : String) (raw : Text) :
    Except RegistryError Pubkey32 :=
  match base58Decode raw with
  | .error e => .error (.invalidPubkey symbol field e)
  | .ok bytes =>
    if h : bytes.length = 32 then .ok ⟨bytes.toArray, h⟩
    else .error (.invalidPubkey symbol field
      ("decoded " ++ toString bytes.length ++ " bytes, expected 32"))

/-- `derive_keeper_leader_lock_pda`: the sentinel of a build without the derivation. -/
def deriveKeeperLeaderLockPda : Pubkey32 := Vector.replicate 32 0xfe

structure EntryValues where
  symbol : Option Text := none
  programId : Option Text := none
  marketPda : Option Text := none
  lockPda : Option Text := none
  expectedLeader : Option Text := none

/-- One field; a later one takes the place of an earlier. -/
def EntryValues.set (v : EntryValues) (key value : Text) : Option EntryValues :=
  if key = "symbol".toList then some { v with symbol := some value }
  else if key = "program_id".toList then some { v with programId := some value }
  else if key = "market_pda".toList then some { v with marketPda := some value }
  else if key = "lock_pda".toList then some { v with lockPda := some value }
  else if key = "expected_leader".toList then some { v with expectedLeader := some value }
  else none

def unknownKey (index headerLine : Nat) (key : Text) : RegistryError :=
  .toml headerLine ("unknown key " ++ quoted key ++ " in `[[markets]]` (entry #" ++
    toString index ++ ")")

def gather (index headerLine : Nat) : List (Text × Text) → EntryValues →
    Except RegistryError EntryValues
  | [], v => .ok v
  | (key, value) :: rest, v =>
    match v.set key value with
    | some v => gather index headerLine rest v
    | none => .error (unknownKey index headerLine key)

def require (index : Nat) (key : String) (value : Option Text) : Except RegistryError Text :=
  match value with
  | some v => .ok v
  | none => .error (.missingKey index key)

def decodeLock (symbol : Text) : Option Text → Except RegistryError Pubkey32
  | some raw => decodePubkey32 symbol "lock_pda" raw
  | none => .ok deriveKeeperLeaderLockPda

/-- `expected_leader`; an empty value is none. -/
def decodeLeader (symbol : Text) : Option Text → Except RegistryError (Option Pubkey32)
  | some raw =>
    if raw = [] then .ok none else some <$> decodePubkey32 symbol "expected_leader" raw
  | none => .ok none

def EntryValues.build (index : Nat) (v : EntryValues) : Except RegistryError MarketEntry := do
  let symbol ← require index "symbol" v.symbol
  validateSymbol symbol
  let programIdRaw ← require index "program_id" v.programId
  let marketPdaRaw ← require index "market_pda" v.marketPda
  let programId ← decodePubkey32 symbol "program_id" programIdRaw
  let marketPda ← decodePubkey32 symbol "market_pda" marketPdaRaw
  let lockPda ← decodeLock symbol v.lockPda
  let expectedLeader ← decodeLeader symbol v.expectedLeader
  return ⟨symbol, programId, marketPda, lockPda, expectedLeader⟩

def buildEntry (index : Nat) (table : RawTable) : Except RegistryError MarketEntry := do
  let v ← gather index table.headerLine table.fields {}
  v.build index

def buildEntries : Nat → List RawTable → Except RegistryError (List MarketEntry)
  | _, [] => .ok []
  | index, table :: rest => do
    let m ← buildEntry index table
    let ms ← buildEntries (index + 1) rest
    return m :: ms

def firstDuplicate : List Text → List MarketEntry → Option Text
  | _, [] => none
  | seen, m :: ms =>
    if m.symbol ∈ seen then some m.symbol else firstDuplicate (m.symbol :: seen) ms

def checkEntries (markets : List MarketEntry) : Except RegistryError MarketRegistry :=
  match firstDuplicate [] markets with
  | some symbol => .error (.duplicateSymbol symbol)
  | none => if markets = [] then .error .empty else .ok ⟨markets⟩

namespace MarketRegistry

def fromTomlStrWithEnv (input : Text) (lookup : Env) : Except RegistryError MarketRegistry := do
  let resolved ← substituteEnvVars lookup input
  let raw ← parseMarketTables resolved
  let markets ← buildEntries 0 raw
  checkEntries markets

end MarketRegistry

end MoleFinance.Registry
