import MoleFinance.Chain.Program

/-! The instructions. A failed one is reverted, so each returns the new state or an error. -/
namespace MoleFinance
open MoleMath Call

/-- The bucket accounts a client supplies: long ones first. -/
structure RemainingAccounts where
  accounts : List BucketSeeds
  longBucketCount : Nat
  shortBucketCount : Nat
deriving DecidableEq

inductive BridgedCall where
  | sync (envelope : PriceEnvelope)
  | close (envelope : PriceEnvelope) (position : Position)
  | forceClose (envelope : PriceEnvelope) (position : Position) (acknowledgeForfeit : Bool)
  | claim (envelope : PriceEnvelope) (position : Position)
  | preSync (direction : Direction) (bucketTick : Int) (slot : Nat)

/-- What a handler takes from the outcome: the position it worked on, and what it pays. -/
structure BridgedOutcome where
  position : Option Position
  paid : Nat

/-- The `engine_call` closure of each handler. -/
def BridgedCall.run (params : MarketParams) (sp : SubPool) :
    BridgedCall → Except ClearingError (SubPool × BridgedOutcome)
  | .sync envelope => do
    let (sp, _) ← syncPool params sp envelope
    return (sp, ⟨none, 0⟩)
  | .close envelope position => do
    let (sp, position, out) ← closePosition params sp envelope position
    return (sp, ⟨some position, out.withdrawable⟩)
  | .forceClose envelope position ack => do
    let (sp, position, _) ← forceCloseZeroValuePosition params sp envelope position ack
    return (sp, ⟨some position, 0⟩)
  | .claim envelope position => do
    let (sp, position, out) ← claimDormantRecovery params sp envelope position
    return (sp, ⟨some position, out.redeemable⟩)
  | .preSync direction bucketTick slot => do
    let (sp, _) ← preSyncDormantBucket params sp direction bucketTick slot
    return (sp, ⟨none, 0⟩)

structure BridgedSide where
  ledger : LedgerAccount
  buckets : List BucketAccount

namespace Program

def modifySubPool (st : Program) (subPoolId : Nat) (f : SubPoolState → SubPoolState) : Program :=
  match st.subPools.get? subPoolId with
  | none => st
  | some s => { st with subPools := st.subPools.insert subPoolId (f s) }

def bucketAt (st : Program) (seeds : BucketSeeds) : Option BucketAccount :=
  (st.subPools.get? seeds.subPool).bind fun s =>
    (s.dormant (.ofIsLong seeds.directionIsLong)).buckets.get? seeds.zeroPriceTick

/-- Every occurrence is deserialised on its own. -/
def loadBuckets (st : Program) : List BucketSeeds → Except ProgramError (List BucketAccount)
  | [] => .ok []
  | seeds :: rest => do
    let b ← found (st.bucketAt seeds)
    let bs ← st.loadBuckets rest
    return b :: bs

def splitRemainingBuckets (st : Program) (remaining : RemainingAccounts) :
    Except ProgramError (List BucketAccount × List BucketAccount) := do
  ensure (remaining.accounts.length = remaining.longBucketCount + remaining.shortBucketCount)
    .dormantBridgeAccountMismatch
  let longs ← st.loadBuckets (remaining.accounts.take remaining.longBucketCount)
  let shorts ← st.loadBuckets (remaining.accounts.drop remaining.longBucketCount)
  return (longs, shorts)

/-- The sub-pool of an instruction, with its ledgers and the buckets supplied. -/
def loadBridged (st : Program) (subPoolId : Nat) (remaining : RemainingAccounts) :
    Except ProgramError (SubPoolState × BridgedSide × BridgedSide) := do
  let s ← found (st.subPools.get? subPoolId)
  let longLedger ← found s.long.ledger
  let shortLedger ← found s.short.ledger
  let (longs, shorts) ← st.splitRemainingBuckets remaining
  return (s, ⟨longLedger, longs⟩, ⟨shortLedger, shorts⟩)

def hydrate (account : SubPoolAccount) (long short : BridgedSide) :
    Except ProgramError SubPool := do
  let longDormant ← unpackDirection long.ledger long.buckets account.key .long
  let shortDormant ← unpackDirection short.ledger short.buckets account.key .short
  let view := clearingView account
  return { view with
    long := { view.long with dormant := longDormant }
    short := { view.short with dormant := shortDormant } }

def packSide (params : MarketParams) (key : Pubkey) (direction : Direction)
    (store : DormantStore) (x : BridgedSide) : Except ProgramError BridgedSide := do
  let (_, ledger, buckets) ← packDirection x.ledger x.buckets key direction store
    params.maxDormantBucketCountPerDirection params.maxDistributionLedgerSize
  return ⟨ledger, buckets⟩

/-- Each copy is serialised, in list order: of an account supplied twice the last one stays. -/
def exitAllBuckets (st : Program) (buckets : List BucketAccount) : Program :=
  buckets.foldl (fun st b => st.modifySubPool b.seeds.subPool (·.setBucket b)) st

def runBridged (st : Program) (subPoolId : Nat) (remaining : RemainingAccounts)
    (engineCall : BridgedCall) : Except ProgramError (Program × BridgedOutcome) := do
  let params := marketParamsFrom st.market
  let (s, long, short) ← st.loadBridged subPoolId remaining
  let view ← hydrate s.account long short
  let (view, outcome) ← engine (engineCall.run params view)
  let long ← packSide params s.account.key .long view.long.dormant long
  let short ← packSide params s.account.key .short view.short.dormant short
  let st := st.exitAllBuckets (long.buckets ++ short.buckets)
  return (st.modifySubPool subPoolId fun s => { (s.setLedger .long long.ledger).setLedger .short
    short.ledger with account := applyClearingView s.account view }, outcome)

def runOnPosition (st : Program) (subPoolId : Nat) (key : PositionKey)
    (remaining : RemainingAccounts) (engineCall : Position → BridgedCall) :
    Except ProgramError (Program × Nat) := do
  let p ← found (st.positions.get? key)
  ensure (p.subPool = subPoolId) .accountNotFound
  let (st, outcome) ← st.runBridged subPoolId remaining (engineCall (positionToCore p))
  let p := (outcome.position.map (writeBackPosition p)).getD p
  return ({ st with positions := st.positions.insert key p }, outcome.paid)

def userTokenAccount (st : Program) (owner wallet : Pubkey) : Except ProgramError TokenAccount := do
  let w ← found (st.tokens.get? wallet)
  ensure (w.mint = st.market.collateralMint ∧ w.owner = .user owner) .accountNotFound
  return w

def payOut (token : TokenProgram) (st : Program) (wallet : Pubkey) (amount : Nat) :
    Except ProgramError Program := do
  ensure (amount < u64Size) .mathOverflow
  transferDue token st amount st.market.vault wallet .vaultAuthority amount

/-- `init`: a token account at an address that is still free. -/
def createTokenAccount (st : Program) (key : Pubkey) : Except ProgramError Program := do
  vacant (st.tokens.get? key)
  return { st with tokens := st.tokens.insert key ⟨st.market.collateralMint, .vaultAuthority, 0⟩ }

/-- Optional: a market may have been given any other accounts. -/
def initializeMarketVaults (st : Program) (signer : Pubkey) : Except ProgramError Program := do
  let st ← st.createTokenAccount st.vaultPdas.vault
  let st ← st.createTokenAccount st.vaultPdas.feeVault
  ensure (signer = st.globalConfig.adminAuthority) .accountNotFound
  ensure (st.vaultPdas.vault = st.market.vault) .invalidParameter
  ensure (st.vaultPdas.feeVault = st.market.feeVault) .invalidParameter
  return st

def initializeSubPool (st : Program) (subPoolId : Nat) : Except ProgramError Program := do
  vacant (st.subPools.get? subPoolId)
  ensure (subPoolId < st.market.subPoolCount) .invalidSubPool
  return { st with subPools := st.subPools.insert subPoolId ⟨.init subPoolId, .none, .none⟩ }

def initializeDistributionLedger (st : Program) (subPoolId : Nat) (directionIsLong : Bool) :
    Except ProgramError Program := do
  let s ← found (st.subPools.get? subPoolId)
  let direction := Direction.ofIsLong directionIsLong
  vacant (s.dormant direction).ledger
  return st.modifySubPool subPoolId (·.setLedger direction
    (.init s.account.key directionIsLong st.market.maxDistributionLedgerSize))

def initializeDormantBucket (st : Program) (subPoolId : Nat) (directionIsLong : Bool)
    (zeroPriceTick : Int) : Except ProgramError Program := do
  let s ← found (st.subPools.get? subPoolId)
  vacant ((s.dormant (.ofIsLong directionIsLong)).buckets.get? zeroPriceTick)
  return st.modifySubPool subPoolId
    (·.setBucket (.init s.account.key directionIsLong zeroPriceTick))

/-- The guards of the account constraints; closing removes the account. -/
def closeDormantBucket (st : Program) (seeds : BucketSeeds) : Except ProgramError Program := do
  let s ← found (st.subPools.get? seeds.subPool)
  let b ← found (st.bucketAt seeds)
  ensure (b.subPool = s.account.key) .accountNotFound
  let ledger ← found (s.dormant (.ofIsLong b.directionIsLong)).ledger
  ensure (recordIsDead b = true) .dormantBucketStillLive
  ensure (ledger.nextEventIndex ≤ b.lastAppliedIndex) .dormantBucketHasPendingApply
  return st.modifySubPool seeds.subPool fun s =>
    let direction := Direction.ofIsLong seeds.directionIsLong
    let x := s.dormant direction
    s.setDormant direction { x with buckets := x.buckets.erase seeds.zeroPriceTick }

def syncPool (st : Program) (subPoolId : Nat) (envelope : PriceEnvelope)
    (remaining : RemainingAccounts) : Except ProgramError Program := do
  let envelope ← validateOracleEnvelope st.market st.oraclePriceFeed st.slot envelope
  let (st, _) ← st.runBridged subPoolId remaining (.sync envelope)
  return st

structure OpenParams where
  envelope : PriceEnvelope
  directionIsLong : Bool
  grossAmount : U64
  positionId : U64

def payIn (token : TokenProgram) (st : Program) (owner wallet : Pubkey) (principal : Nat)
    (out : OpenOutcome) : Except ProgramError Program := do
  let st ← transferDue token st out.principalIntoPool wallet st.market.vault (.user owner) principal
  transferDue token st out.openFee wallet st.market.feeVault (.user owner) out.openFee

def newPosition (market : Market) (owner subPool : Pubkey) (params : OpenParams)
    (pos : Position) : PositionAccount where
  owner := owner
  subPool := subPool
  positionId := params.positionId
  directionIsLong := params.directionIsLong
  status := 0
  principal := pos.principal
  notional := pos.notional
  activeShares := pos.activeShares
  recoveryShares := 0
  recoveryBucketTick := 0
  hasRecoveryBucket := false
  zeroPrice := 0
  entryPrice := pos.entryPrice
  lastSyncSlot := pos.lastSyncSlot
  activeGeneration := pos.activeGeneration
  schemaVersion := market.schemaVersion

/-- The engine runs on the view with empty stores, at the caller's own envelope. -/
def openPosition (token : TokenProgram) (st : Program) (subPoolId : Nat)
    (owner wallet : Pubkey) (params : OpenParams) : Except ProgramError Program := do
  let s ← found (st.subPools.get? subPoolId)
  let key := positionKey owner params.positionId
  vacant (st.positions.get? key)
  let _ ← found (st.tokens.get? st.market.vault)
  let _ ← found (st.tokens.get? st.market.feeVault)
  let _ ← st.userTokenAccount owner wallet
  let (view, pos, outcome) ← engine (MoleFinance.openPosition (marketParamsFrom st.market)
    (clearingView s.account) params.envelope (.ofIsLong params.directionIsLong)
    params.grossAmount params.positionId)
  let st ← st.payIn token owner wallet pos.principal outcome
  let st := st.modifySubPool subPoolId
    fun s => { s with account := applyClearingView s.account view }
  return { st with
    positions := st.positions.insert key (newPosition st.market owner s.account.key params pos) }

def closePosition (token : TokenProgram) (st : Program) (subPoolId : Nat)
    (owner wallet : Pubkey) (positionId : Nat) (envelope : PriceEnvelope)
    (remaining : RemainingAccounts) : Except ProgramError Program := do
  let _ ← found (st.tokens.get? st.market.vault)
  let _ ← st.userTokenAccount owner wallet
  let envelope ← validateOracleEnvelope st.market st.oraclePriceFeed st.slot envelope
  let (st, withdrawable) ← st.runOnPosition subPoolId (positionKey owner positionId) remaining
    (.close envelope)
  st.payOut token wallet withdrawable

def forceCloseZeroValuePosition (st : Program) (subPoolId : Nat) (owner : Pubkey)
    (positionId : Nat) (envelope : PriceEnvelope) (acknowledgeForfeit : Bool)
    (remaining : RemainingAccounts) : Except ProgramError Program := do
  let envelope ← validateOracleEnvelope st.market st.oraclePriceFeed st.slot envelope
  let (st, _) ← st.runOnPosition subPoolId (positionKey owner positionId) remaining
    (.forceClose envelope · acknowledgeForfeit)
  return st

def claimDormantRecovery (token : TokenProgram) (st : Program) (subPoolId : Nat)
    (owner wallet : Pubkey) (positionId : Nat) (envelope : PriceEnvelope)
    (remaining : RemainingAccounts) : Except ProgramError Program := do
  let _ ← found (st.tokens.get? st.market.vault)
  let _ ← st.userTokenAccount owner wallet
  let envelope ← validateOracleEnvelope st.market st.oraclePriceFeed st.slot envelope
  let (st, redeemable) ← st.runOnPosition subPoolId (positionKey owner positionId) remaining
    (.claim envelope)
  st.payOut token wallet redeemable

def preSyncDormantBucket (st : Program) (subPoolId : Nat) (directionIsLong : Bool)
    (bucketTick : Int) (remaining : RemainingAccounts) : Except ProgramError Program := do
  let (st, _) ← st.runBridged subPoolId remaining
    (.preSync (.ofIsLong directionIsLong) bucketTick st.slot)
  return st

/-- The engine runs on the view with empty stores; the vault pays the fee vault. -/
def harvestDust (token : TokenProgram) (st : Program) (subPoolId : Nat) (signer : Pubkey)
    (directionIsLong : Bool) : Except ProgramError Program := do
  let s ← found (st.subPools.get? subPoolId)
  let _ ← found (st.tokens.get? st.market.vault)
  let _ ← found (st.tokens.get? st.market.feeVault)
  ensure (signer = st.globalConfig.protocolTreasury) .accountNotFound
  let (view, outcome) ← engine (MoleFinance.harvestDust (marketParamsFrom st.market)
    (clearingView s.account) (.ofIsLong directionIsLong))
  let st := st.modifySubPool subPoolId
    fun s => { s with account := applyClearingView s.account view }
  ensure (outcome.amount < u64Size) .mathOverflow
  transferDue token st outcome.amount st.market.vault st.market.feeVault .vaultAuthority
    outcome.amount

def emergency (st : Program) (signer : Pubkey) (f : Market → Market) :
    Except ProgramError Program := do
  ensure (signer = st.globalConfig.emergencyAuthority) .accountNotFound
  return { st with market := f st.market }

def pauseMarket (st : Program) (signer : Pubkey) : Except ProgramError Program :=
  st.emergency signer ({ · with paused := true })

def resumeMarket (st : Program) (signer : Pubkey) : Except ProgramError Program :=
  st.emergency signer ({ · with paused := false })

def freezeNewPosition (st : Program) (signer : Pubkey) : Except ProgramError Program :=
  st.emergency signer ({ · with frozenNewPosition := true })

def unfreezeNewPosition (st : Program) (signer : Pubkey) : Except ProgramError Program :=
  st.emergency signer ({ · with frozenNewPosition := false })

def setGloballyPaused (st : Program) (signer : Pubkey) (paused : Bool) :
    Except ProgramError Program := do
  ensure (signer = st.globalConfig.adminAuthority) .accountNotFound
  return { st with globalConfig := { st.globalConfig with pausedGlobally := paused } }

def bumpMarketSchemaVersion (st : Program) (signer : Pubkey) (newVersion : Nat) :
    Except ProgramError Program := do
  ensure (signer = st.globalConfig.adminAuthority) .accountNotFound
  ensure (st.market.schemaVersion < newVersion) .schemaBumpMustIncrease
  return { st with market := { st.market with schemaVersion := newVersion } }

/-- The migration loop: no step is registered, so any version behind the target is stuck. -/
def migrateVersion (version : Nat) : Except ProgramError Unit := do
  ensure (version ≠ schemaVersionCurrent) .schemaMigrationNoop
  ensure (¬ version < schemaVersionCurrent) .schemaMigrationPathMissing

def migratePosition (st : Program) (key : PositionKey) : Except ProgramError Program := do
  let p ← found (st.positions.get? key)
  migrateVersion p.schemaVersion
  return st

def migrateMarket (st : Program) (signer : Pubkey) : Except ProgramError Program := do
  ensure (signer = st.globalConfig.adminAuthority) .accountNotFound
  migrateVersion st.market.schemaVersion
  return st

end Program

inductive Instruction where
  | initializeMarketVaults (signer : Pubkey)
  | initializeSubPool (subPoolId : Nat)
  | initializeDistributionLedger (subPoolId : Nat) (directionIsLong : Bool)
  | initializeDormantBucket (subPoolId : Nat) (directionIsLong : Bool) (zeroPriceTick : Int)
  | closeDormantBucket (seeds : BucketSeeds)
  | syncPool (subPoolId : Nat) (envelope : PriceEnvelope) (remaining : RemainingAccounts)
  | openPosition (subPoolId : Nat) (owner wallet : Pubkey) (params : Program.OpenParams)
  | closePosition (subPoolId : Nat) (owner wallet : Pubkey) (positionId : Nat)
      (envelope : PriceEnvelope) (remaining : RemainingAccounts)
  | forceCloseZeroValuePosition (subPoolId : Nat) (owner : Pubkey) (positionId : Nat)
      (envelope : PriceEnvelope) (acknowledgeForfeit : Bool) (remaining : RemainingAccounts)
  | claimDormantRecovery (subPoolId : Nat) (owner wallet : Pubkey) (positionId : Nat)
      (envelope : PriceEnvelope) (remaining : RemainingAccounts)
  | preSyncDormantBucket (subPoolId : Nat) (directionIsLong : Bool) (bucketTick : Int)
      (remaining : RemainingAccounts)
  | harvestDust (subPoolId : Nat) (signer : Pubkey) (directionIsLong : Bool)
  | pauseMarket (signer : Pubkey)
  | resumeMarket (signer : Pubkey)
  | freezeNewPosition (signer : Pubkey)
  | unfreezeNewPosition (signer : Pubkey)
  | setGloballyPaused (signer : Pubkey) (paused : Bool)
  | bumpMarketSchemaVersion (signer : Pubkey) (newVersion : Nat)
  | migratePosition (key : PositionKey)
  | migrateMarket (signer : Pubkey)

namespace Instruction

def exec (token : TokenProgram) (st : Program) : Instruction → Except ProgramError Program
  | .initializeMarketVaults signer => st.initializeMarketVaults signer
  | .initializeSubPool id => st.initializeSubPool id
  | .initializeDistributionLedger id isLong => st.initializeDistributionLedger id isLong
  | .initializeDormantBucket id isLong tick => st.initializeDormantBucket id isLong tick
  | .closeDormantBucket seeds => st.closeDormantBucket seeds
  | .syncPool id envelope remaining => st.syncPool id envelope remaining
  | .openPosition id owner wallet params => st.openPosition token id owner wallet params
  | .closePosition id owner wallet positionId envelope remaining =>
    st.closePosition token id owner wallet positionId envelope remaining
  | .forceCloseZeroValuePosition id owner positionId envelope ack remaining =>
    st.forceCloseZeroValuePosition id owner positionId envelope ack remaining
  | .claimDormantRecovery id owner wallet positionId envelope remaining =>
    st.claimDormantRecovery token id owner wallet positionId envelope remaining
  | .preSyncDormantBucket id isLong tick remaining =>
    st.preSyncDormantBucket id isLong tick remaining
  | .harvestDust id signer isLong => st.harvestDust token id signer isLong
  | .pauseMarket signer => st.pauseMarket signer
  | .resumeMarket signer => st.resumeMarket signer
  | .freezeNewPosition signer => st.freezeNewPosition signer
  | .unfreezeNewPosition signer => st.unfreezeNewPosition signer
  | .setGloballyPaused signer paused => st.setGloballyPaused signer paused
  | .bumpMarketSchemaVersion signer version => st.bumpMarketSchemaVersion signer version
  | .migratePosition key => st.migratePosition key
  | .migrateMarket signer => st.migrateMarket signer

end Instruction

/-- A step of the chain: an instruction, or something outside the program. -/
inductive ChainOp where
  | instruction (i : Instruction)
  | advance (slots : Nat)
  | publish (feed : OracleAccount)
  /-- a token account as its owner and others leave it; the vaults are left to the program -/
  | fund (key : Pubkey) (account : TokenAccount)

namespace ChainOp

def exec (token : TokenProgram) (st : Program) : ChainOp → Except ProgramError Program
  | .instruction i => i.exec token st
  | .advance slots => .ok { st with slot := st.slot + slots }
  | .publish feed => .ok { st with oraclePriceFeed := feed }
  | .fund key account =>
    if key = st.market.vault ∨ key = st.market.feeVault then .error .accountInUse
    else .ok { st with tokens := st.tokens.insert key account }

def step (token : TokenProgram) (op : ChainOp) (st : Program) :
    Option ProgramError × Program :=
  match op.exec token st with
  | .error e => (some e, st)
  | .ok st' => (none, st')

end ChainOp

namespace Program

structure Fresh (st : Program) : Prop where
  market : ∃ config accounts params, st.globalConfig = initializeGlobalConfig config ∧
    initializeMarket st.globalConfig accounts params = .ok st.market
  subPools : st.subPools = .empty
  positions : st.positions = .empty

def Reached (token : TokenProgram) (st : Program) : Prop :=
  ∃ start ops, Fresh start ∧ (Trace.run (ChainOp.step token) ops start).2 = st

end Program

theorem smallLedger_lt : 1024 < u32Size := by decide

def smallParams (mode : Nat) : InitMarketParams where
  leverageBps := 100000
  minMargin := 1
  maxMarginPerPosition := 1000000
  maxTotalPrincipal := 150
  maxTotalNotional := 1500
  openFeeBps := 0
  maxOracleAgeSlots := 25
  maxConfidenceBps := 100
  maxPriceMoveBpsPerSync := 2000
  priceTick := 1
  tickAggregationFactor := 1
  maxDormantBucketCountPerDirection := 1024
  dilutionSafetyBps := 1
  subPoolCount := 2
  dormantDistributeMode := mode
  maxPendingApplyPerTx := 4096
  maxDistributionLedgerSize := ⟨1024, smallLedger_lt⟩

def smallAccounts : MarketAccounts := ⟨6, 10, 11, 5⟩

def smallProgram (mode : Nat) : Program where
  globalConfig := initializeGlobalConfig ⟨1, 2, 3⟩
  market := { smallAccounts, smallParams mode with
    currentTotalPrincipal := 0
    currentTotalNotional := 0
    paused := false
    frozenNewPosition := false
    schemaVersion := 1 }
  vaultPdas := ⟨10, 11⟩
  subPools := .empty
  positions := .empty
  tokens := ((OrdMap.empty.insert 8 ⟨6, .user 8, 1000⟩).insert 10 ⟨6, .vaultAuthority, 0⟩).insert 11
    ⟨6, .vaultAuthority, 0⟩
  oraclePriceFeed := ⟨5, Pyth.feed 100 7⟩
  slot := 7

theorem smallProgram_fresh {mode : Nat} (h : mode ≤ 1) : (smallProgram mode).Fresh where
  market := by
    refine ⟨⟨1, 2, 3⟩, smallAccounts, smallParams mode, rfl, ?_⟩
    rw [initializeMarket, ensure_of (show (smallParams mode).dormantDistributeMode ≤ 1 from h)]
    rfl
  subPools := rfl
  positions := rfl

def deposit (isLong : Bool) (price gross id : U64) : ChainOp :=
  .instruction (.openPosition 0 8 8 ⟨quoteAt price, isLong, gross, id⟩)

def makeSubPool : ChainOp := .instruction (.initializeSubPool 0)

def chainRun (mode : Nat) (ops : List ChainOp) : List (Option ProgramError) × Program :=
  Trace.run (ChainOp.step splToken) ops (smallProgram mode)

theorem chainRun_reached {mode : Nat} (h : mode ≤ 1) (ops : List ChainOp) :
    (chainRun mode ops).2.Reached splToken := ⟨_, ops, smallProgram_fresh h, rfl⟩

end MoleFinance
