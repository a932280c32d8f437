import MoleFinance.Keeper.Decoder
import MoleFinance.Indexer.State

/-! The keeper's snapshot of a market: what it fetches, and what it makes of the accounts. -/
namespace MoleFinance
open Decoder Borsh Codec

section Codec
variable [Codec]

inductive RpcError where
  | transport (message : String)
  | code (code : Int) (message : String)
  | decode (message : String)
deriving DecidableEq, Repr

structure AccountFetcher where
  fetchAccount : Pubkey32 → Except RpcError (Option Bytes)
  /-- owner, offset, and the bytes to match there -/
  fetchProgramAccountsFilter : Pubkey32 → Nat → Bytes → Except RpcError (List (Pubkey32 × Bytes))

structure SubPoolEntry where
  subPoolId : Nat
  pubkey : Pubkey32
deriving DecidableEq

structure MarketContext where
  programId : Pubkey32
  market : Pubkey32
  subPools : List SubPoolEntry
deriving DecidableEq

structure SnapshotConfig where
  enforceSchemaVersion : Bool
  bailWhenPaused : Bool
deriving DecidableEq

def SnapshotConfig.default : SnapshotConfig := ⟨true, true⟩

inductive SnapshotError where
  | rpc (e : RpcError)
  | decode (kind : String) (pubkey : Pubkey32) (source : AccountDecodeError)
  | marketNotFound (pubkey : Pubkey32)
  | subPoolNotFound (subPoolId : Nat) (pubkey : Pubkey32)
  | schemaVersionMismatch (onchain compiled : Nat)
  | marketPaused
deriving DecidableEq

abbrev SideKey := Nat ×ₗ Direction

def sideKey (subPoolId : Nat) (direction : Direction) : SideKey := toLex (subPoolId, direction)

structure ChainSnapshot where
  market : Option OnchainMarket
  subPools : OrdMap Nat OnchainSubPool
  buckets : OrdMap Nat (List OnchainDormantBucket)
  ledgers : OrdMap SideKey OnchainDistributionLedger
  bucketPubkeys : OrdMap BucketKey Pubkey32
  ledgerPubkeys : OrdMap SideKey Pubkey32

namespace ChainSnapshot

def new : ChainSnapshot := ⟨none, .empty, .empty, .empty, .empty, .empty⟩

def liftRpc {α : Type} : Except RpcError α → Except SnapshotError α
  | .ok a => .ok a
  | .error e => .error (.rpc e)

def decoded {α : Type} (kind : String) (pubkey : Pubkey32) :
    Except AccountDecodeError α → Except SnapshotError α
  | .ok a => .ok a
  | .error e => .error (.decode kind pubkey e)

def isLongByte : Direction → UInt8
  | .long => 1
  | .short => 0

/-- An account that matched the filter: a ledger if it decodes as one, or else a bucket, or
    nothing. -/
def takeHit (snap : ChainSnapshot) (entry : SubPoolEntry) (direction : Direction)
    (hit : Pubkey32 × Bytes) : ChainSnapshot :=
  let asBucket := match decodeAnchorAccount OnchainDormantBucket.read hit.2 with
    | .error _ => snap
    | .ok bk =>
      if bk.subPool = entry.pubkey ∧ bk.directionIsLong = decide (direction = .long) then
        { snap with
          bucketPubkeys := snap.bucketPubkeys.insert
            (bucketKey entry.subPoolId direction bk.zeroPriceTick.toInt) hit.1
          buckets := snap.buckets.insert entry.subPoolId
            ((snap.buckets.get? entry.subPoolId).getD [] ++ [bk]) }
      else snap
  match decodeAnchorAccount OnchainDistributionLedger.read hit.2 with
  | .error _ => asBucket
  | .ok led =>
    if led.subPool = entry.pubkey ∧ led.directionIsLong = decide (direction = .long) then
      { snap with
        ledgerPubkeys := snap.ledgerPubkeys.insert (sideKey entry.subPoolId direction) hit.1
        ledgers := snap.ledgers.insert (sideKey entry.subPoolId direction) led }
    else asBucket

def refreshSide (fetcher : AccountFetcher) (ctx : MarketContext) (entry : SubPoolEntry)
    (snap : ChainSnapshot) (direction : Direction) : Except SnapshotError ChainSnapshot := do
  let hits ← liftRpc (fetcher.fetchProgramAccountsFilter ctx.programId anchorDiscriminatorLen
    (entry.pubkey.toList ++ [isLongByte direction]))
  return hits.foldl (fun snap hit => snap.takeHit entry direction hit) snap

/-- The order of the buckets of a sub-pool: short ones first, by tick. -/
def bucketLe (a b : OnchainDormantBucket) : Bool :=
  if a.directionIsLong = b.directionIsLong then
    decide (a.zeroPriceTick.toInt ≤ b.zeroPriceTick.toInt)
  else !a.directionIsLong

def sortBuckets (snap : ChainSnapshot) (subPoolId : Nat) : ChainSnapshot :=
  match snap.buckets.get? subPoolId with
  | none => snap
  | some v => { snap with buckets := snap.buckets.insert subPoolId (v.mergeSort bucketLe) }

def refreshSubPool (fetcher : AccountFetcher) (ctx : MarketContext) (snap : ChainSnapshot)
    (entry : SubPoolEntry) : Except SnapshotError ChainSnapshot := do
  let raw ← liftRpc (fetcher.fetchAccount entry.pubkey)
  let data ← match raw with
    | none => .error (.subPoolNotFound entry.subPoolId entry.pubkey)
    | some data => .ok data
  let sp ← decoded "sub_pool" entry.pubkey (decodeAnchorAccount OnchainSubPool.read data)
  let snap := { snap with subPools := snap.subPools.insert entry.subPoolId sp }
  let snap ← refreshSide fetcher ctx entry snap .long
  let snap ← refreshSide fetcher ctx entry snap .short
  return snap.sortBuckets entry.subPoolId

def refreshSubPools (fetcher : AccountFetcher) (ctx : MarketContext) :
    List SubPoolEntry → ChainSnapshot → Except SnapshotError ChainSnapshot
  | [], snap => .ok snap
  | entry :: entries, snap => do
    let snap ← refreshSubPool fetcher ctx snap entry
    refreshSubPools fetcher ctx entries snap

/-- Everything is read anew; a failure leaves no snapshot to act on. -/
def refresh (fetcher : AccountFetcher) (ctx : MarketContext) (cfg : SnapshotConfig) :
    Except SnapshotError ChainSnapshot := do
  let raw ← liftRpc (fetcher.fetchAccount ctx.market)
  let data ← match raw with
    | none => .error (.marketNotFound ctx.market)
    | some data => .ok data
  let market ← decoded "market" ctx.market (decodeAnchorAccount OnchainMarket.read data)
  if cfg.enforceSchemaVersion = true ∧ market.schemaVersion.toNat ≠ schemaVersionCurrent then
    .error (.schemaVersionMismatch market.schemaVersion.toNat schemaVersionCurrent)
  else if cfg.bailWhenPaused = true ∧ market.paused = true then .error .marketPaused
  else refreshSubPools fetcher ctx ctx.subPools { ChainSnapshot.new with market := some market }

end ChainSnapshot

inductive LeaderReconcileError where
  | rpc (e : RpcError)
  | notFound (pda : Pubkey32)
  | decode (e : AccountDecodeError)
deriving DecidableEq

namespace Layout

section Lawful
variable [Codec.Lawful]

theorem Market.decode_stored (m : Market) (disc : Discriminator) (old : Vector UInt8 Market.len) :
    decodeAnchorAccount OnchainMarket.read (accountData disc m.serialize old)
      = .error (.borsh notAllBytesRead) := by
  rw [decode_accountData m.consumes_serialize, m.length_serialize]
  exact if_neg (by decide)

theorem DistributionLedger.decode_stored_iff (l : DistributionLedger) (disc : Discriminator)
    (old : Vector UInt8 (DistributionLedger.accountSize l.maxEntries)) :
    decodeAnchorAccount OnchainDistributionLedger.read (accountData disc l.serialize old)
      = .ok l.mirror ↔ l.entries.length = l.maxEntries.toNat := by
  rw [decode_accountData l.consumes_serialize, l.length_serialize]
  have hfits := l.fits
  have hsize : accountSize l.maxEntries ≤ 8 + (101 + l.entries.length * 64) ↔
      l.entries.length = l.maxEntries.toNat := by
    unfold accountSize headerLen entryLen
    omega
  by_cases hfull : l.entries.length = l.maxEntries.toNat
  · rw [if_pos (hsize.mpr hfull)]
    exact iff_of_true rfl hfull
  · rw [if_neg fun h => hfull (hsize.mp h)]
    exact iff_of_false (by simp) hfull

theorem DormantBucket.decode_stored (b : DormantBucket) (disc : Discriminator)
    (old : Vector UInt8 DormantBucket.len) :
    decodeAnchorAccount OnchainDormantBucket.read (accountData disc b.serialize old)
      = .ok b.mirror := by
  rw [decode_accountData b.consumes_serialize, b.length_serialize]
  exact if_pos (by decide)

theorem KeeperLeaderLock.decode_stored (k : KeeperLeaderLock) (disc : Discriminator)
    (old : Vector UInt8 KeeperLeaderLock.len) :
    decodeAnchorAccount Decoder.KeeperLeaderLock.read (accountData disc k.serialize old)
      = .ok k.mirror := by
  rw [decode_accountData k.consumes_serialize, k.length_serialize]
  exact if_pos (by decide)

end Lawful

end Layout

theorem ChainSnapshot.refresh_undecoded {fetcher : AccountFetcher} {ctx : MarketContext}
    {cfg : SnapshotConfig} {data : Bytes} {e : AccountDecodeError}
    (hfetch : fetcher.fetchAccount ctx.market = .ok (some data))
    (hdata : decodeAnchorAccount OnchainMarket.read data = .error e) :
    refresh fetcher ctx cfg = .error (.decode "market" ctx.market e) := by
  unfold refresh
  rw [hfetch]
  change (decoded "market" ctx.market (decodeAnchorAccount OnchainMarket.read data)).bind _ = _
  rw [hdata]
  rfl

/-- As allocated, buckets and locks are decoded, a ledger only when its entries fill it, and a
    market never, so that no refresh gets past the market. -/
theorem keeper_decodes_iff [Codec.Lawful] (disc : Layout.Discriminator)
    (m : Layout.Market) (oldMarket : Vector UInt8 Layout.Market.len)
    (l : Layout.DistributionLedger)
    (oldLedger : Vector UInt8 (Layout.DistributionLedger.accountSize l.maxEntries))
    (b : Layout.DormantBucket) (oldBucket : Vector UInt8 Layout.DormantBucket.len)
    (k : Layout.KeeperLeaderLock) (oldLock : Vector UInt8 Layout.KeeperLeaderLock.len) :
    decodeAnchorAccount OnchainMarket.read (Layout.accountData disc m.serialize oldMarket)
      = .error (.borsh notAllBytesRead) ∧
    (decodeAnchorAccount OnchainDistributionLedger.read
        (Layout.accountData disc l.serialize oldLedger) = .ok l.mirror ↔
      l.entries.length = l.maxEntries.toNat) ∧
    decodeAnchorAccount OnchainDormantBucket.read (Layout.accountData disc b.serialize oldBucket)
      = .ok b.mirror ∧
    decodeAnchorAccount Decoder.KeeperLeaderLock.read
      (Layout.accountData disc k.serialize oldLock) = .ok k.mirror ∧
    ∀ (fetcher : AccountFetcher) (ctx : MarketContext) (cfg : SnapshotConfig),
      fetcher.fetchAccount ctx.market
        = .ok (some (Layout.accountData disc m.serialize oldMarket)) →
      ChainSnapshot.refresh fetcher ctx cfg
        = .error (.decode "market" ctx.market (.borsh notAllBytesRead)) :=
  ⟨m.decode_stored disc oldMarket, l.decode_stored_iff disc oldLedger,
    b.decode_stored disc oldBucket, k.decode_stored disc oldLock, fun _ _ _ hfetch =>
      ChainSnapshot.refresh_undecoded hfetch (m.decode_stored disc oldMarket)⟩

end Codec

/-- A market with every field zero, and a ledger with room for one entry and none yet. -/
def blankMarket : Layout.Market :=
  ⟨.replicate 32 0, .replicate 16 0, .replicate 32 0, .replicate 32 0, .replicate 32 0,
    .replicate 32 0, .replicate 32 0, 0, 0, 0, 0, 0, 0, 0, 0, 0, 0, 0, 0, 0, 0, 0, 0, 0, false,
    false, 1, 1, 0, 0, 1, 0, .replicate 2 0⟩

theorem blankLedger_fits :
    ([] : List Layout.DistEntryPacked).length ≤ (1 : BitVec 32).toNat := by decide

def blankLedger : Layout.DistributionLedger :=
  ⟨.replicate 32 0, true, 1, 0, 0, 0, 0, 0, [], 0, .replicate 7 0, blankLedger_fits⟩

def blankBucket : Layout.DormantBucket :=
  ⟨.replicate 32 0, true, 0, 0, 0, 0, 0, 0, 0, 0, .replicate 6 0⟩

def blankLock : Layout.KeeperLeaderLock := ⟨false, .replicate 32 0, 0, 0⟩

section Blank

attribute [local instance] borsh borsh_lawful

def blankFetcher : AccountFetcher where
  fetchAccount _ := .ok (some (Layout.accountData (.replicate 8 0) blankMarket.serialize
    (.replicate Layout.Market.len 0)))
  fetchProgramAccountsFilter _ _ _ := .ok []

theorem blank_refused :
    ChainSnapshot.refresh blankFetcher ⟨.replicate 32 0, .replicate 32 0, []⟩ .default
      = .error (.decode "market" (.replicate 32 0) (.borsh notAllBytesRead)) :=
  (keeper_decodes_iff (.replicate 8 0) blankMarket (.replicate Layout.Market.len 0)
    blankLedger (.replicate (Layout.DistributionLedger.accountSize 1) 0) blankBucket
    (.replicate Layout.DormantBucket.len 0) blankLock
    (.replicate Layout.KeeperLeaderLock.len 0)).2.2.2.2 blankFetcher
      ⟨.replicate 32 0, .replicate 32 0, []⟩ .default rfl

/-- A market account and a ledger account, both freshly allocated, that do not decode. -/
theorem undecoded_accounts :
    ¬ ((∀ (m : Layout.Market) (disc : Layout.Discriminator)
          (old : Vector UInt8 Layout.Market.len),
        decodeAnchorAccount OnchainMarket.read (Layout.accountData disc m.serialize old)
          = .ok m.mirror) ∧
      (∀ (l : Layout.DistributionLedger) (disc : Layout.Discriminator)
          (old : Vector UInt8 (Layout.DistributionLedger.accountSize l.maxEntries)),
        decodeAnchorAccount OnchainDistributionLedger.read
          (Layout.accountData disc l.serialize old) = .ok l.mirror)) ∧
    decodeAnchorAccount OnchainMarket.read (Layout.accountData (.replicate 8 0)
        blankMarket.serialize (.replicate Layout.Market.len 0)) ≠ .ok blankMarket.mirror ∧
    decodeAnchorAccount OnchainDistributionLedger.read (Layout.accountData (.replicate 8 0)
        blankLedger.serialize (.replicate (Layout.DistributionLedger.accountSize 1) 0))
      ≠ .ok blankLedger.mirror := by
  have hmarket : decodeAnchorAccount OnchainMarket.read (Layout.accountData (.replicate 8 0)
      blankMarket.serialize (.replicate Layout.Market.len 0)) ≠ .ok blankMarket.mirror := by
    rw [blankMarket.decode_stored]
    simp
  have hledger : decodeAnchorAccount OnchainDistributionLedger.read
      (Layout.accountData (.replicate 8 0) blankLedger.serialize
        (.replicate (Layout.DistributionLedger.accountSize 1) 0)) ≠ .ok blankLedger.mirror := by
    intro h
    have hfull := (blankLedger.decode_stored_iff (.replicate 8 0)
      (.replicate (Layout.DistributionLedger.accountSize 1) 0)).mp h
    exact absurd hfull (by decide)
  exact ⟨fun h => hmarket (h.1 _ _ _), hmarket, hledger⟩

end Blank

end MoleFinance
