import MoleFinance.Keeper.Scheduler
import MoleFinance.Keeper.FreeLock
import MoleFinance.Chain.Counts

/-! From an action to an instruction: the data the program will decode, and the accounts, as
the snapshot knows them. -/
namespace MoleFinance
open Borsh Codec Decoder

variable [Codec]

namespace TxCodec

def discPreSyncDormantBucket : Bytes := [0xd6, 0x62, 0xa8, 0x7a, 0xc1, 0x9c, 0x38, 0x08]
def discCloseDormantBucket : Bytes := [0x16, 0x25, 0x10, 0x86, 0xff, 0x31, 0xf8, 0x83]
def discInitializeDormantBucket : Bytes := [0x8f, 0xcb, 0x7b, 0xd0, 0xc2, 0x40, 0x6e, 0x35]

structure PreSyncArgs where
  directionIsLong : Bool
  bucketTick : BitVec 64
  longBucketCount : BitVec 32
  shortBucketCount : BitVec 32
deriving DecidableEq

def PreSyncArgs.serialize (a : PreSyncArgs) : Bytes :=
  [putBool a.directionIsLong, putUint .u64 a.bucketTick, putUint .u32 a.longBucketCount,
    putUint .u32 a.shortBucketCount].flatten

def PreSyncArgs.read : Reader PreSyncArgs := do
  let directionIsLong ← bool
  let bucketTick ← uint .u64
  let longBucketCount ← uint .u32
  let shortBucketCount ← uint .u32
  return ⟨directionIsLong, bucketTick, longBucketCount, shortBucketCount⟩

theorem PreSyncArgs.consumes_serialize [Codec.Lawful] (a : PreSyncArgs) :
    Consumes read a a.serialize := by
  refine (Lawful.consumes_bool _).field ?_
  refine (Lawful.consumes_uint _ _).field ?_
  refine (Lawful.consumes_uint _ _).field ?_
  exact (Lawful.consumes_uint _ _).field (Consumes.pure _)

def encodePreSyncDormantBucketIx (directionIsLong : Bool) (tick : Int)
    (longBucketCount shortBucketCount : BitVec 32) : Bytes :=
  discPreSyncDormantBucket ++
    PreSyncArgs.serialize ⟨directionIsLong, .ofInt _ tick, longBucketCount, shortBucketCount⟩

def encodeCloseDormantBucketIx (directionIsLong : Bool) (tick : Int) : Bytes :=
  discCloseDormantBucket ++ putBool directionIsLong ++ putUint .u64 (.ofInt _ tick)

def encodeInitializeDormantBucketIx (directionIsLong : Bool) (tick : Int) : Bytes :=
  discInitializeDormantBucket ++ putBool directionIsLong ++ putUint .u64 (.ofInt _ tick)

end TxCodec
open TxCodec

inductive TxBuildError where
  | missingSubPool (subPoolId : Nat)
  | missingBucket (subPoolId : Nat) (direction : Direction) (tick : Int)
  | missingLedger (subPoolId : Nat) (direction : Direction)
deriving DecidableEq

structure AccountMeta where
  pubkey : Pubkey32
  isSigner : Bool
  isWritable : Bool
deriving DecidableEq

namespace AccountMeta

def writable (pubkey : Pubkey32) : AccountMeta := ⟨pubkey, false, true⟩
def readonly (pubkey : Pubkey32) : AccountMeta := ⟨pubkey, false, false⟩
def signerWritable (pubkey : Pubkey32) : AccountMeta := ⟨pubkey, true, true⟩

end AccountMeta

structure DispatchedAction where
  action : KeeperAction
  programId : Pubkey32
  data : Bytes
  accounts : List AccountMeta
deriving DecidableEq

/-- What an instruction is built from; submitting it is another's work. -/
structure RpcExecutor where
  programId : Pubkey32
  market : Pubkey32
  subPoolPubkeys : OrdMap Nat Pubkey32
  keeper : Pubkey32
  clockSysvar : Pubkey32
  systemProgram : Pubkey32
  snapshot : ChainSnapshot

def orMissing {α : Type} (e : TxBuildError) : Option α → Except TxBuildError α
  | none => .error e
  | some a => .ok a

def sortPubkeys (keys : List Pubkey32) : List Pubkey32 :=
  keys.mergeSort fun a b => decide (a.toList ≤ b.toList)

namespace RpcExecutor

/-- The address of a sub-pool is taken from a ledger of it, whichever there is. -/
def new (programId market keeper clockSysvar systemProgram : Pubkey32)
    (snapshot : ChainSnapshot) : RpcExecutor where
  programId := programId
  market := market
  subPoolPubkeys := snapshot.ledgerPubkeys.entries.foldl (fun pubkeys e =>
    let id := (ofLex e.1).1
    match (snapshot.ledgers.get? (sideKey id .long)).or
        (snapshot.ledgers.get? (sideKey id .short)) with
    | none => pubkeys
    | some led => pubkeys.insert id led.subPool) .empty
  keeper := keeper
  clockSysvar := clockSysvar
  systemProgram := systemProgram
  snapshot := snapshot

def subPoolPubkey (x : RpcExecutor) (subPoolId : Nat) : Except TxBuildError Pubkey32 :=
  orMissing (.missingSubPool subPoolId) (x.subPoolPubkeys.get? subPoolId)

def bucketPubkeys (x : RpcExecutor) (subPoolId : Nat) (direction : Direction) :
    List Pubkey32 :=
  sortPubkeys ((x.snapshot.bucketPubkeys.entries.filter fun e =>
    e.1.subPoolId == subPoolId && e.1.direction == direction).map Prod.snd)

def buildPreSync (x : RpcExecutor) (subPoolId : Nat) (direction : Direction) (tick : Int) :
    Except TxBuildError DispatchedAction := do
  let spPk ← x.subPoolPubkey subPoolId
  let longLg ← orMissing (.missingLedger subPoolId .long)
    (x.snapshot.ledgerPubkey subPoolId .long)
  let shortLg ← orMissing (.missingLedger subPoolId .short)
    (x.snapshot.ledgerPubkey subPoolId .short)
  let _ ← orMissing (.missingBucket subPoolId direction tick)
    (x.snapshot.bucketPubkey subPoolId direction tick)
  let sp ← orMissing (.missingSubPool subPoolId) (x.snapshot.subPools.get? subPoolId)
  return {
    action := .preSyncDormantBucket subPoolId direction tick 0
    programId := x.programId
    -- the counts come from the sub-pool account
    data := encodePreSyncDormantBucketIx direction.isLong tick sp.longDormantBucketCount
      sp.shortDormantBucketCount
    accounts := [.readonly x.market, .writable spPk, .writable longLg, .writable shortLg,
      .readonly x.clockSysvar, .signerWritable x.keeper] ++
      -- and these from the addresses, live or not
      (x.bucketPubkeys subPoolId .long ++ x.bucketPubkeys subPoolId .short).map .writable }

def buildClose (x : RpcExecutor) (subPoolId : Nat) (direction : Direction) (tick : Int) :
    Except TxBuildError DispatchedAction := do
  let spPk ← x.subPoolPubkey subPoolId
  let lgPk ← orMissing (.missingLedger subPoolId direction)
    (x.snapshot.ledgerPubkey subPoolId direction)
  let bkPk ← orMissing (.missingBucket subPoolId direction tick)
    (x.snapshot.bucketPubkey subPoolId direction tick)
  return {
    action := .closeDormantBucket subPoolId direction tick
    programId := x.programId
    data := encodeCloseDormantBucketIx direction.isLong tick
    accounts := [.readonly x.market, .readonly spPk, .readonly lgPk, .writable bkPk,
      .writable x.keeper, .signerWritable x.keeper] }

/-- A stand-in for an address the keeper cannot derive. -/
def deriveInitBucketPlaceholder (subPool : Pubkey32) (directionIsLong : Bool) (tick : Int) :
    Pubkey32 :=
  arrayOf 32 ([0xff, 0xff, 80, 68, 65] ++ boolBytes directionIsLong
    ++ leBytes 8 (BitVec.ofInt 64 tick).toNat ++ subPool.toList.take 18)

def buildInit (x : RpcExecutor) (subPoolId : Nat) (direction : Direction) (tick : Int) :
    Except TxBuildError DispatchedAction := do
  let spPk ← x.subPoolPubkey subPoolId
  return {
    action := .initDormantBucket subPoolId direction tick .explicit
    programId := x.programId
    data := encodeInitializeDormantBucketIx direction.isLong tick
    accounts := [.readonly x.market, .readonly spPk,
      .writable (deriveInitBucketPlaceholder spPk direction.isLong tick),
      .signerWritable x.keeper, .readonly x.systemProgram] }

def build (x : RpcExecutor) : KeeperAction → Except TxBuildError DispatchedAction
  | .preSyncDormantBucket id direction tick _ => x.buildPreSync id direction tick
  | .closeDormantBucket id direction tick => x.buildClose id direction tick
  | .initDormantBucket id direction tick _ => x.buildInit id direction tick

end RpcExecutor

end MoleFinance
