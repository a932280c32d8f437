import MoleFinance.Chain.Layout

/-! The keeper's own mirrors of the accounts, and how it decodes them. -/
namespace MoleFinance.Decoder
open Borsh Codec

variable [Codec]

abbrev Pubkey32 := Vector UInt8 32

def anchorDiscriminatorLen : Nat := 8

inductive AccountDecodeError where
  | tooShort (len min : Nat)
  | discriminatorMismatch (got expected : Bytes)
  | borsh (reason : String)
deriving DecidableEq, Repr

/-- The discriminator is skipped unseen. -/
def decodeAnchorAccount {α : Type} (read : Reader α) (data : Bytes) :
    Except AccountDecodeError α :=
  if data.length < anchorDiscriminatorLen then
    .error (.tooShort data.length anchorDiscriminatorLen)
  else match tryFromSlice read (data.drop anchorDiscriminatorLen) with
    | .error e => .error (.borsh e)
    | .ok a => .ok a

structure OnchainSubPool where
  market : Pubkey32
  subPoolId : BitVec 32
  longPoolEquity : BitVec 128
  shortPoolEquity : BitVec 128
  longActiveShares : BitVec 128
  shortActiveShares : BitVec 128
  longRecoveryShares : BitVec 128
  shortRecoveryShares : BitVec 128
  longActiveNotional : BitVec 128
  shortActiveNotional : BitVec 128
  longActiveGeneration : BitVec 64
  shortActiveGeneration : BitVec 64
  lastPrice : BitVec 64
  lastSyncSlot : BitVec 64
  longDust : BitVec 128
  shortDust : BitVec 128
  longDormantBucketCount : BitVec 32
  shortDormantBucketCount : BitVec 32
  bump : BitVec 8
  pad : Vector UInt8 7
deriving DecidableEq

def OnchainSubPool.read : Reader OnchainSubPool := do
  let market ← array 32
  let subPoolId ← uint .u32
  let longPoolEquity ← uint .u128
  let shortPoolEquity ← uint .u128
  let longActiveShares ← uint .u128
  let shortActiveShares ← uint .u128
  let longRecoveryShares ← uint .u128
  let shortRecoveryShares ← uint .u128
  let longActiveNotional ← uint .u128
  let shortActiveNotional ← uint .u128
  let longActiveGeneration ← uint .u64
  let shortActiveGeneration ← uint .u64
  let lastPrice ← uint .u64
  let lastSyncSlot ← uint .u64
  let longDust ← uint .u128
  let shortDust ← uint .u128
  let longDormantBucketCount ← uint .u32
  let shortDormantBucketCount ← uint .u32
  let bump ← uint .u8
  let pad ← array 7
  return ⟨market, subPoolId, longPoolEquity, shortPoolEquity, longActiveShares,
    shortActiveShares, longRecoveryShares, shortRecoveryShares, longActiveNotional,
    shortActiveNotional, longActiveGeneration, shortActiveGeneration, lastPrice, lastSyncSlot,
    longDust, shortDust, longDormantBucketCount, shortDormantBucketCount, bump, pad⟩

structure OnchainDormantBucket where
  subPool : Pubkey32
  directionIsLong : Bool
  zeroPriceTick : BitVec 64
  anchorPrice : BitVec 64
  totalRecoveryShares : BitVec 128
  totalRecoveryNotional : BitVec 128
  accruedValue : BitVec 128
  positionCount : BitVec 64
  lastAppliedIndex : BitVec 64
  bump : BitVec 8
  pad : Vector UInt8 6
deriving DecidableEq

def OnchainDormantBucket.read : Reader OnchainDormantBucket := do
  let subPool ← array 32
  let directionIsLong ← bool
  let zeroPriceTick ← uint .u64
  let anchorPrice ← uint .u64
  let totalRecoveryShares ← uint .u128
  let totalRecoveryNotional ← uint .u128
  let accruedValue ← uint .u128
  let positionCount ← uint .u64
  let lastAppliedIndex ← uint .u64
  let bump ← uint .u8
  let pad ← array 6
  return ⟨subPool, directionIsLong, zeroPriceTick, anchorPrice, totalRecoveryShares,
    totalRecoveryNotional, accruedValue, positionCount, lastAppliedIndex, bump, pad⟩

structure OnchainDistEntry where
  eventIndex : BitVec 64
  pAtEvent : BitVec 64
  totalOutstandingAtEvent : BitVec 128
  totalAllocInput : BitVec 128
  allocatedSumObserved : BitVec 128
deriving DecidableEq

def OnchainDistEntry.read : Reader OnchainDistEntry := do
  let eventIndex ← uint .u64
  let pAtEvent ← uint .u64
  let totalOutstandingAtEvent ← uint .u128
  let totalAllocInput ← uint .u128
  let allocatedSumObserved ← uint .u128
  return ⟨eventIndex, pAtEvent, totalOutstandingAtEvent, totalAllocInput, allocatedSumObserved⟩

structure OnchainDistributionLedger where
  subPool : Pubkey32
  directionIsLong : Bool
  maxEntries : BitVec 32
  gcOffset : BitVec 64
  nextEventIndex : BitVec 64
  accruedValueTotal : BitVec 128
  pendingDistributionTotal : BitVec 128
  entryCount : BitVec 32
  entries : List OnchainDistEntry
  bump : BitVec 8
  pad : Vector UInt8 7
deriving DecidableEq

def OnchainDistributionLedger.read : Reader OnchainDistributionLedger := do
  let subPool ← array 32
  let directionIsLong ← bool
  let maxEntries ← uint .u32
  let gcOffset ← uint .u64
  let nextEventIndex ← uint .u64
  let accruedValueTotal ← uint .u128
  let pendingDistributionTotal ← uint .u128
  let entryCount ← uint .u32
  let entries ← vec OnchainDistEntry.read
  let bump ← uint .u8
  let pad ← array 7
  return ⟨subPool, directionIsLong, maxEntries, gcOffset, nextEventIndex, accruedValueTotal,
    pendingDistributionTotal, entryCount, entries, bump, pad⟩

structure OnchainMarket where
  globalConfig : Pubkey32
  symbol : Vector UInt8 16
  collateralMint : Pubkey32
  vault : Pubkey32
  feeVault : Pubkey32
  oraclePriceFeed : Pubkey32
  oracleProgramId : Pubkey32
  leverageBps : BitVec 32
  minMargin : BitVec 64
  maxMarginPerPosition : BitVec 64
  maxTotalPrincipal : BitVec 128
  maxTotalNotional : BitVec 128
  currentTotalPrincipal : BitVec 128
  currentTotalNotional : BitVec 128
  openFeeBps : BitVec 16
  maxOracleAgeSeconds : BitVec 64
  maxOracleAgeSlots : BitVec 64
  maxConfidenceBps : BitVec 16
  maxPriceMoveBpsPerSync : BitVec 32
  priceTick : BitVec 64
  tickAggregationFactor : BitVec 32
  maxDormantBucketCountPerDirection : BitVec 32
  dilutionSafetyBps : BitVec 32
  maxIdleSlots : BitVec 64
  paused : Bool
  frozenNewPosition : Bool
  schemaVersion : BitVec 16
  subPoolCount : BitVec 32
  dormantDistributeMode : BitVec 8
  maxPendingApplyPerTx : BitVec 32
  maxDistributionLedgerSize : BitVec 32
  bump : BitVec 8
  pad : Vector UInt8 2
deriving DecidableEq

def OnchainMarket.read : Reader OnchainMarket := do
  let globalConfig ← array 32
  let symbol ← array 16
  let collateralMint ← array 32
  let vault ← array 32
  let feeVault ← array 32
  let oraclePriceFeed ← array 32
  let oracleProgramId ← array 32
  let leverageBps ← uint .u32
  let minMargin ← uint .u64
  let maxMarginPerPosition ← uint .u64
  let maxTotalPrincipal ← uint .u128
  let maxTotalNotional ← uint .u128
  let currentTotalPrincipal ← uint .u128
  let currentTotalNotional ← uint .u128
  let openFeeBps ← uint .u16
  let maxOracleAgeSeconds ← uint .u64
  let maxOracleAgeSlots ← uint .u64
  let maxConfidenceBps ← uint .u16
  let maxPriceMoveBpsPerSync ← uint .u32
  let priceTick ← uint .u64
  let tickAggregationFactor ← uint .u32
  let maxDormantBucketCountPerDirection ← uint .u32
  let dilutionSafetyBps ← uint .u32
  let maxIdleSlots ← uint .u64
  let paused ← bool
  let frozenNewPosition ← bool
  let schemaVersion ← uint .u16
  let subPoolCount ← uint .u32
  let dormantDistributeMode ← uint .u8
  let maxPendingApplyPerTx ← uint .u32
  let maxDistributionLedgerSize ← uint .u32
  let bump ← uint .u8
  let pad ← array 2
  return ⟨globalConfig, symbol, collateralMint, vault, feeVault, oraclePriceFeed,
    oracleProgramId, leverageBps, minMargin, maxMarginPerPosition, maxTotalPrincipal,
    maxTotalNotional, currentTotalPrincipal, currentTotalNotional, openFeeBps,
    maxOracleAgeSeconds, maxOracleAgeSlots, maxConfidenceBps, maxPriceMoveBpsPerSync, priceTick,
    tickAggregationFactor, maxDormantBucketCountPerDirection, dilutionSafetyBps, maxIdleSlots,
    paused, frozenNewPosition, schemaVersion, subPoolCount, dormantDistributeMode,
    maxPendingApplyPerTx, maxDistributionLedgerSize, bump, pad⟩

structure KeeperLeaderLock where
  hasLeader : Bool
  currentLeader : Vector UInt8 32
  lastHeartbeatSlot : BitVec 64
  takeoverThresholdSlots : BitVec 64
deriving DecidableEq

def KeeperLeaderLock.read : Reader KeeperLeaderLock := do
  let hasLeader ← bool
  let currentLeader ← array 32
  let lastHeartbeatSlot ← uint .u64
  let takeoverThresholdSlots ← uint .u64
  return ⟨hasLeader, currentLeader, lastHeartbeatSlot, takeoverThresholdSlots⟩

end MoleFinance.Decoder

namespace MoleFinance.Layout
open Borsh Codec Decoder

variable [Codec]

/-! The value the keeper should see for an account of the program. -/

def Market.mirror (m : Market) : OnchainMarket where
  globalConfig := m.globalConfig
  symbol := m.symbol
  collateralMint := m.collateralMint
  vault := m.vault
  feeVault := m.feeVault
  oraclePriceFeed := m.oraclePriceFeed
  oracleProgramId := m.oracleProgramId
  leverageBps := m.leverageBps
  minMargin := m.minMargin
  maxMarginPerPosition := m.maxMarginPerPosition
  maxTotalPrincipal := m.maxTotalPrincipal
  maxTotalNotional := m.maxTotalNotional
  currentTotalPrincipal := m.currentTotalPrincipal
  currentTotalNotional := m.currentTotalNotional
  openFeeBps := m.openFeeBps
  maxOracleAgeSeconds := m.maxOracleAgeSeconds
  maxOracleAgeSlots := m.maxOracleAgeSlots
  maxConfidenceBps := m.maxConfidenceBps
  maxPriceMoveBpsPerSync := m.maxPriceMoveBpsPerSync
  priceTick := m.priceTick
  tickAggregationFactor := m.tickAggregationFactor
  maxDormantBucketCountPerDirection := m.maxDormantBucketCountPerDirection
  dilutionSafetyBps := m.dilutionSafetyBps
  maxIdleSlots := m.maxIdleSlots
  paused := m.paused
  frozenNewPosition := m.frozenNewPosition
  schemaVersion := m.schemaVersion
  subPoolCount := m.subPoolCount
  dormantDistributeMode := m.dormantDistributeMode
  maxPendingApplyPerTx := m.maxPendingApplyPerTx
  maxDistributionLedgerSize := m.maxDistributionLedgerSize
  bump := m.bump
  pad := m.pad

def DormantBucket.mirror (b : DormantBucket) : OnchainDormantBucket where
  subPool := b.subPool
  directionIsLong := b.directionIsLong
  zeroPriceTick := b.zeroPriceTick
  anchorPrice := b.anchorPrice
  totalRecoveryShares := b.totalRecoveryShares
  totalRecoveryNotional := b.totalRecoveryNotional
  accruedValue := b.accruedValue
  positionCount := b.positionCount
  lastAppliedIndex := b.lastAppliedIndex
  bump := b.bump
  pad := b.pad

def DistEntryPacked.mirror (e : DistEntryPacked) : OnchainDistEntry where
  eventIndex := e.eventIndex
  pAtEvent := e.pAtEvent
  totalOutstandingAtEvent := e.totalOutstandingAtEvent
  totalAllocInput := e.totalAllocInput
  allocatedSumObserved := e.allocatedSumObserved

def DistributionLedger.mirror (l : DistributionLedger) : OnchainDistributionLedger where
  subPool := l.subPool
  directionIsLong := l.directionIsLong
  maxEntries := l.maxEntries
  gcOffset := l.gcOffset
  nextEventIndex := l.nextEventIndex
  accruedValueTotal := l.accruedValueTotal
  pendingDistributionTotal := l.pendingDistributionTotal
  entryCount := l.entryCount
  entries := l.entries.map DistEntryPacked.mirror
  bump := l.bump
  pad := l.pad

def KeeperLeaderLock.mirror (k : KeeperLeaderLock) : Decoder.KeeperLeaderLock where
  hasLeader := k.hasLeader
  currentLeader := k.currentLeader
  lastHeartbeatSlot := k.lastHeartbeatSlot
  takeoverThresholdSlots := k.takeoverThresholdSlots

/-! The keeper reads the fields in the order the program writes them. -/

section Lawful
variable [Codec.Lawful]

theorem Market.consumes_serialize (m : Market) :
    Consumes OnchainMarket.read m.mirror m.serialize :=
  .field (Lawful.consumes_array _) <| .field (Lawful.consumes_array _) <|
    .field (Lawful.consumes_array _) <|
  .field (Lawful.consumes_array _) <| .field (Lawful.consumes_array _) <|
    .field (Lawful.consumes_array _) <|
  .field (Lawful.consumes_array _) <| .field (Lawful.consumes_uint _ _) <|
    .field (Lawful.consumes_uint _ _) <|
  .field (Lawful.consumes_uint _ _) <| .field (Lawful.consumes_uint _ _) <|
    .field (Lawful.consumes_uint _ _) <|
  .field (Lawful.consumes_uint _ _) <| .field (Lawful.consumes_uint _ _) <|
    .field (Lawful.consumes_uint _ _) <|
  .field (Lawful.consumes_uint _ _) <| .field (Lawful.consumes_uint _ _) <|
    .field (Lawful.consumes_uint _ _) <|
  .field (Lawful.consumes_uint _ _) <| .field (Lawful.consumes_uint _ _) <|
    .field (Lawful.consumes_uint _ _) <|
  .field (Lawful.consumes_uint _ _) <| .field (Lawful.consumes_uint _ _) <|
    .field (Lawful.consumes_uint _ _) <|
  .field (Lawful.consumes_bool _) <| .field (Lawful.consumes_bool _) <|
    .field (Lawful.consumes_uint _ _) <|
  .field (Lawful.consumes_uint _ _) <| .field (Lawful.consumes_uint _ _) <|
    .field (Lawful.consumes_uint _ _) <|
  .field (Lawful.consumes_uint _ _) <| .field (Lawful.consumes_uint _ _) <|
    .field (Lawful.consumes_array _) <| .pure _

theorem DormantBucket.consumes_serialize (b : DormantBucket) :
    Consumes OnchainDormantBucket.read b.mirror b.serialize :=
  .field (Lawful.consumes_array _) <| .field (Lawful.consumes_bool _) <|
    .field (Lawful.consumes_uint _ _) <|
  .field (Lawful.consumes_uint _ _) <| .field (Lawful.consumes_uint _ _) <|
    .field (Lawful.consumes_uint _ _) <|
  .field (Lawful.consumes_uint _ _) <| .field (Lawful.consumes_uint _ _) <|
    .field (Lawful.consumes_uint _ _) <|
  .field (Lawful.consumes_uint _ _) <| .field (Lawful.consumes_array _) <| .pure _

theorem DistEntryPacked.consumes_serialize (e : DistEntryPacked) :
    Consumes OnchainDistEntry.read e.mirror e.serialize :=
  .field (Lawful.consumes_uint _ _) <| .field (Lawful.consumes_uint _ _) <|
    .field (Lawful.consumes_uint _ _) <|
  .field (Lawful.consumes_uint _ _) <| .field (Lawful.consumes_uint _ _) <| .pure _

theorem KeeperLeaderLock.consumes_serialize (k : KeeperLeaderLock) :
    Consumes Decoder.KeeperLeaderLock.read k.mirror k.serialize :=
  .field (Lawful.consumes_bool _) <| .field (Lawful.consumes_array _) <|
    .field (Lawful.consumes_uint _ _) <|
  .field (Lawful.consumes_uint _ _) <| .pure _

theorem DistributionLedger.consumes_serialize (l : DistributionLedger) :
    Consumes OnchainDistributionLedger.read l.mirror l.serialize := by
  have hlen : l.entries.length < 2 ^ 32 := Nat.lt_of_le_of_lt l.fits l.maxEntries.isLt
  exact .field (Lawful.consumes_array _) <| .field (Lawful.consumes_bool _) <|
    .field (Lawful.consumes_uint _ _) <|
    .field (Lawful.consumes_uint _ _) <| .field (Lawful.consumes_uint _ _) <|
      .field (Lawful.consumes_uint _ _) <|
    .field (Lawful.consumes_uint _ _) <| .field (Lawful.consumes_uint _ _) <|
    .field (Lawful.consumes_vec _ _ _ DistEntryPacked.consumes_serialize _ hlen) <|
      .field (Lawful.consumes_uint _ _) <|
    .field (Lawful.consumes_array _) <| .pure _

/-- What a strict decode makes of an account: the value if the account ends with it. -/
theorem decode_accountData {α : Type} {read : Reader α} {a : α} {body : Bytes} {size : Nat}
    (h : Consumes read a body) (disc : Discriminator) (old : Vector UInt8 size) :
    decodeAnchorAccount read (accountData disc body old)
      = if size ≤ 8 + body.length then .ok a else .error (.borsh notAllBytesRead) := by
  have hlong : ¬ (accountData disc body old).length < anchorDiscriminatorLen := by
    simp [accountData, anchorDiscriminatorLen]
  have hbody : (accountData disc body old).drop anchorDiscriminatorLen
      = body ++ old.toList.drop (8 + body.length) := by
    unfold accountData
    rw [List.append_assoc]
    exact List.drop_left' disc.length_toList
  have hrest : old.toList.drop (8 + body.length) = [] ↔ size ≤ 8 + body.length := by
    rw [List.drop_eq_nil_iff, old.length_toList]
  unfold decodeAnchorAccount
  rw [if_neg hlong, hbody, tryFromSlice_append h]
  by_cases hsize : size ≤ 8 + body.length
  · rw [if_pos (hrest.mpr hsize), if_pos hsize]
  · rw [if_neg fun hnil => hsize (hrest.mp hnil), if_neg hsize]

end Lawful

end MoleFinance.Layout
