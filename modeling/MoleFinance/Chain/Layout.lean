import MoleFinance.Lib.Borsh

/-! The accounts of the program as bytes: the fields in their order, the size an account is
allocated with, and the data it holds once a value is written over what was there before. -/
namespace MoleFinance.Layout
open Borsh Codec

variable [Codec]

abbrev Pubkey32 := Vector UInt8 32

abbrev Discriminator := Vector UInt8 8

structure Market where
  globalConfig : Pubkey32
  symbol : Vector UInt8 16
  collateralMint : Pubkey32
  vault : Pubkey32
  feeVault : Pubkey32
  oraclePriceFeed : Pubkey32
  oracleProgramId : Pubkey32
  leverageBps : BitVec 32
  minMargin : BitVec 64
  maxMarginPerPosition : BitVec 64
  maxTotalPrincipal : BitVec 128
  maxTotalNotional : BitVec 128
  currentTotalPrincipal : BitVec 128
  currentTotalNotional : BitVec 128
  openFeeBps : BitVec 16
  maxOracleAgeSeconds : BitVec 64
  maxOracleAgeSlots : BitVec 64
  maxConfidenceBps : BitVec 16
  maxPriceMoveBpsPerSync : BitVec 32
  priceTick : BitVec 64
  tickAggregationFactor : BitVec 32
  maxDormantBucketCountPerDirection : BitVec 32
  dilutionSafetyBps : BitVec 32
  maxIdleSlots : BitVec 64
  paused : Bool
  frozenNewPosition : Bool
  schemaVersion : BitVec 16
  subPoolCount : BitVec 32
  dormantDistributeMode : BitVec 8
  maxPendingApplyPerTx : BitVec 32
  maxDistributionLedgerSize : BitVec 32
  bump : BitVec 8
  pad : Vector UInt8 2
deriving DecidableEq

def Market.serialize (m : Market) : Bytes :=
  List.flatten [putArray m.globalConfig, putArray m.symbol, putArray m.collateralMint,
    putArray m.vault, putArray m.feeVault, putArray m.oraclePriceFeed, putArray m.oracleProgramId,
    putUint .u32 m.leverageBps, putUint .u64 m.minMargin, putUint .u64 m.maxMarginPerPosition,
    putUint .u128 m.maxTotalPrincipal, putUint .u128 m.maxTotalNotional,
    putUint .u128 m.currentTotalPrincipal, putUint .u128 m.currentTotalNotional,
    putUint .u16 m.openFeeBps,
    putUint .u64 m.maxOracleAgeSeconds, putUint .u64 m.maxOracleAgeSlots,
    putUint .u16 m.maxConfidenceBps,
    putUint .u32 m.maxPriceMoveBpsPerSync, putUint .u64 m.priceTick,
    putUint .u32 m.tickAggregationFactor,
    putUint .u32 m.maxDormantBucketCountPerDirection, putUint .u32 m.dilutionSafetyBps,
    putUint .u64 m.maxIdleSlots, putBool m.paused, putBool m.frozenNewPosition,
    putUint .u16 m.schemaVersion, putUint .u32 m.subPoolCount, putUint .u8 m.dormantDistributeMode,
    putUint .u32 m.maxPendingApplyPerTx, putUint .u32 m.maxDistributionLedgerSize,
    putUint .u8 m.bump,
    putArray m.pad]

structure DormantBucket where
  subPool : Pubkey32
  directionIsLong : Bool
  zeroPriceTick : BitVec 64
  anchorPrice : BitVec 64
  totalRecoveryShares : BitVec 128
  totalRecoveryNotional : BitVec 128
  accruedValue : BitVec 128
  positionCount : BitVec 64
  lastAppliedIndex : BitVec 64
  bump : BitVec 8
  pad : Vector UInt8 6
deriving DecidableEq

def DormantBucket.serialize (b : DormantBucket) : Bytes :=
  List.flatten [putArray b.subPool, putBool b.directionIsLong, putUint .u64 b.zeroPriceTick,
    putUint .u64 b.anchorPrice, putUint .u128 b.totalRecoveryShares,
    putUint .u128 b.totalRecoveryNotional,
    putUint .u128 b.accruedValue, putUint .u64 b.positionCount, putUint .u64 b.lastAppliedIndex,
    putUint .u8 b.bump, putArray b.pad]

structure DistEntryPacked where
  eventIndex : BitVec 64
  pAtEvent : BitVec 64
  totalOutstandingAtEvent : BitVec 128
  totalAllocInput : BitVec 128
  allocatedSumObserved : BitVec 128
deriving DecidableEq

def DistEntryPacked.serialize (e : DistEntryPacked) : Bytes :=
  List.flatten [putUint .u64 e.eventIndex, putUint .u64 e.pAtEvent,
    putUint .u128 e.totalOutstandingAtEvent, putUint .u128 e.totalAllocInput,
    putUint .u128 e.allocatedSumObserved]

structure DistributionLedger where
  subPool : Pubkey32
  directionIsLong : Bool
  maxEntries : BitVec 32
  gcOffset : BitVec 64
  nextEventIndex : BitVec 64
  accruedValueTotal : BitVec 128
  pendingDistributionTotal : BitVec 128
  entryCount : BitVec 32
  entries : List DistEntryPacked
  bump : BitVec 8
  pad : Vector UInt8 7
  fits : entries.length ≤ maxEntries.toNat
deriving DecidableEq

def DistributionLedger.serialize (l : DistributionLedger) : Bytes :=
  List.flatten [putArray l.subPool, putBool l.directionIsLong, putUint .u32 l.maxEntries,
    putUint .u64 l.gcOffset, putUint .u64 l.nextEventIndex, putUint .u128 l.accruedValueTotal,
    putUint .u128 l.pendingDistributionTotal, putUint .u32 l.entryCount,
    putVec DistEntryPacked.serialize l.entries, putUint .u8 l.bump, putArray l.pad]

structure KeeperLeaderLock where
  hasLeader : Bool
  currentLeader : Vector UInt8 32
  lastHeartbeatSlot : BitVec 64
  takeoverThresholdSlots : BitVec 64
deriving DecidableEq

def KeeperLeaderLock.serialize (k : KeeperLeaderLock) : Bytes :=
  List.flatten [putBool k.hasLeader, putArray k.currentLeader, putUint .u64 k.lastHeartbeatSlot,
    putUint .u64 k.takeoverThresholdSlots]

/-- Four words for the two margins, as the source counts. -/
def Market.len : Nat :=
  8 + 32 * 6 + 16 + 4 + 8 * 4 + 16 * 4 + 2 + 8 + 8 + 2 + 4 + 8 + 4 + 4 + 4
    + 8 + 1 + 1 + 2 + 4 + 1 + 4 + 4 + 1 + 2

def DormantBucket.len : Nat := 8 + 32 + 1 + 8 + 8 + 16 * 3 + 8 + 8 + 1 + 6

def DistributionLedger.entryLen : Nat := 8 + 8 + 16 * 3

def DistributionLedger.headerLen : Nat := 8 + 32 + 1 + 4 + 8 + 8 + 16 + 16 + 4 + 4 + 1 + 7

def DistributionLedger.accountSize (maxEntries : BitVec 32) : Nat :=
  headerLen + maxEntries.toNat * entryLen

def KeeperLeaderLock.len : Nat := 8 + 1 + 32 + 8 + 8

/-- The data of an account after `exit`: discriminator and value from the front, the rest as an
    earlier value or the allocation left it. -/
def accountData {size : Nat} (disc : Discriminator) (body : Bytes) (old : Vector UInt8 size) :
    Bytes :=
  disc.toList ++ body ++ old.toList.drop (8 + body.length)

section Lengths
variable [Codec.Lawful]

theorem Market.length_serialize (m : Market) : m.serialize.length = 364 := by
  simp [Market.serialize]

theorem DormantBucket.length_serialize (b : DormantBucket) : b.serialize.length = 120 := by
  simp [DormantBucket.serialize]

theorem DistEntryPacked.length_serialize (e : DistEntryPacked) : e.serialize.length = 64 := by
  simp [DistEntryPacked.serialize]

theorem DistributionLedger.length_serialize (l : DistributionLedger) :
    l.serialize.length = 101 + l.entries.length * 64 := by
  have hlen : l.entries.length < 2 ^ 32 := Nat.lt_of_le_of_lt l.fits l.maxEntries.isLt
  simp [DistributionLedger.serialize, length_putVec DistEntryPacked.length_serialize hlen]
  omega

theorem KeeperLeaderLock.length_serialize (k : KeeperLeaderLock) : k.serialize.length = 49 := by
  simp [KeeperLeaderLock.serialize]

end Lengths

end MoleFinance.Layout
