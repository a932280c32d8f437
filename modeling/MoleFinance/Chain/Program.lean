import MoleFinance.Chain.Packing
import MoleFinance.Chain.Oracle
import Mathlib.Data.Prod.Lex

/-! The on-chain program: one market with its vaults, its sub-pools and positions, and the
instructions that change them. An account the client has to supply is looked up by what its
constraints pin down; a constraint that fails is an account that is not found. -/
namespace MoleFinance
open MoleMath Call

structure GlobalConfig where
  adminAuthority : Pubkey
  emergencyAuthority : Pubkey
  protocolTreasury : Pubkey
  pausedGlobally : Bool
  schemaVersion : Nat
deriving DecidableEq

structure InitGlobalConfigParams where
  adminAuthority : Pubkey
  emergencyAuthority : Pubkey
  protocolTreasury : Pubkey
deriving DecidableEq

def initializeGlobalConfig (params : InitGlobalConfigParams) : GlobalConfig where
  adminAuthority := params.adminAuthority
  emergencyAuthority := params.emergencyAuthority
  protocolTreasury := params.protocolTreasury
  pausedGlobally := false
  schemaVersion := 1

structure InitMarketParams where
  leverageBps : Nat
  minMargin : Nat
  maxMarginPerPosition : Nat
  maxTotalPrincipal : Nat
  maxTotalNotional : Nat
  openFeeBps : Nat
  maxOracleAgeSlots : Nat
  maxConfidenceBps : Nat
  maxPriceMoveBpsPerSync : Nat
  priceTick : Nat
  tickAggregationFactor : Nat
  maxDormantBucketCountPerDirection : Nat
  dilutionSafetyBps : Nat
  subPoolCount : Nat
  dormantDistributeMode : Nat
  maxPendingApplyPerTx : Nat
  maxDistributionLedgerSize : U32
deriving DecidableEq

/-- The accounts handed to `initialize_market`, recorded unchecked. -/
structure MarketAccounts where
  collateralMint : Pubkey
  vault : Pubkey
  feeVault : Pubkey
  oracleProgramId : Pubkey
deriving DecidableEq

/-- A `Market` account repeats the accounts and parameters it was initialised with. -/
structure Market extends MarketAccounts, InitMarketParams where
  currentTotalPrincipal : Nat
  currentTotalNotional : Nat
  paused : Bool
  frozenNewPosition : Bool
  schemaVersion : Nat
deriving DecidableEq

def initializeMarket (config : GlobalConfig) (accounts : MarketAccounts)
    (params : InitMarketParams) : Except ProgramError Market := do
  ensure (params.dormantDistributeMode ≤ 1) .invalidParameter
  ensure (0 < (params.maxDistributionLedgerSize : Nat)) .invalidParameter
  return { accounts, params with
    currentTotalPrincipal := 0
    currentTotalNotional := 0
    paused := false
    frozenNewPosition := false
    schemaVersion := config.schemaVersion }

def marketParamsFrom (m : Market) : MarketParams where
  leverageBps := m.leverageBps
  minMargin := m.minMargin
  maxMarginPerPosition := m.maxMarginPerPosition
  openFeeBps := m.openFeeBps
  maxPriceMoveBpsPerSync := m.maxPriceMoveBpsPerSync
  priceTick := m.priceTick
  tickAggregationFactor := m.tickAggregationFactor
  maxDormantBucketCountPerDirection := m.maxDormantBucketCountPerDirection
  dormantDistributeMode := if m.dormantDistributeMode = 1 then .lazy else .eager
  maxPendingApplyPerTx := m.maxPendingApplyPerTx
  maxDistributionLedgerSize := m.maxDistributionLedgerSize
  dilutionSafetyBps := m.dilutionSafetyBps
  schemaVersion := m.schemaVersion
  paused := m.paused
  frozenNewPosition := m.frozenNewPosition

structure SideAccount where
  poolEquity : Nat
  activeShares : Nat
  recoveryShares : Nat
  activeNotional : Nat
  activeGeneration : Nat
  dust : Nat
  dormantBucketCount : Nat
deriving DecidableEq

def SideAccount.zero : SideAccount := ⟨0, 0, 0, 0, 0, 0, 0⟩

structure SubPoolAccount where
  subPoolId : Nat
  long : SideAccount
  short : SideAccount
  lastPrice : Nat
  lastSyncSlot : Nat
deriving DecidableEq

def SubPoolAccount.side (s : SubPoolAccount) : Direction → SideAccount
  | .long => s.long
  | .short => s.short

/-- The address of a sub-pool is derived from its id, which is its key here. -/
def SubPoolAccount.key (s : SubPoolAccount) : Pubkey := s.subPoolId

/-- The engine's side of an account, with an empty store and no rotate log. -/
def SideAccount.view (x : SideAccount) (direction : Direction) : Side where
  poolEquity := x.poolEquity
  activeShares := x.activeShares
  recoveryShares := x.recoveryShares
  activeNotional := x.activeNotional
  dormant := .new direction
  dust := x.dust
  dormantBucketCount := x.dormantBucketCount
  activeGeneration := x.activeGeneration
  rotateLog := []

def clearingView (s : SubPoolAccount) : SubPool where
  subPoolId := s.subPoolId
  long := s.long.view .long
  short := s.short.view .short
  lastPrice := s.lastPrice
  lastSyncSlot := s.lastSyncSlot

def SideAccount.apply (view : Side) : SideAccount where
  poolEquity := view.poolEquity
  activeShares := view.activeShares
  recoveryShares := view.recoveryShares
  activeNotional := view.activeNotional
  activeGeneration := view.activeGeneration
  dust := view.dust
  dormantBucketCount := view.dormantBucketCount

def applyClearingView (s : SubPoolAccount) (view : SubPool) : SubPoolAccount :=
  { s with
    long := .apply view.long
    short := .apply view.short
    lastPrice := view.lastPrice
    lastSyncSlot := view.lastSyncSlot }

def SubPoolAccount.init (subPoolId : Nat) : SubPoolAccount where
  subPoolId := subPoolId
  long := .zero
  short := .zero
  lastPrice := 0
  lastSyncSlot := 0

/-- The dormant accounts of one direction: the ledger, and the buckets by the tick their
    address is derived from. -/
structure DormantAccounts where
  ledger : Option LedgerAccount
  buckets : OrdMap Int BucketAccount

def DormantAccounts.none : DormantAccounts := ⟨.none, .empty⟩

structure SubPoolState where
  account : SubPoolAccount
  long : DormantAccounts
  short : DormantAccounts

namespace SubPoolState

def dormant (s : SubPoolState) : Direction → DormantAccounts
  | .long => s.long
  | .short => s.short

def setDormant (s : SubPoolState) (direction : Direction) (x : DormantAccounts) : SubPoolState :=
  match direction with
  | .long => { s with long := x }
  | .short => { s with short := x }

def setLedger (s : SubPoolState) (direction : Direction) (ledger : LedgerAccount) :
    SubPoolState :=
  s.setDormant direction { s.dormant direction with ledger := some ledger }

def setBucket (s : SubPoolState) (b : BucketAccount) : SubPoolState :=
  let direction := Direction.ofIsLong b.seeds.directionIsLong
  let x := s.dormant direction
  s.setDormant direction { x with buckets := x.buckets.insert b.seeds.zeroPriceTick b }

end SubPoolState

structure PositionAccount where
  owner : Pubkey
  subPool : Pubkey
  positionId : Nat
  directionIsLong : Bool
  status : Nat
  principal : Nat
  notional : Nat
  activeShares : Nat
  recoveryShares : Nat
  recoveryBucketTick : Int
  hasRecoveryBucket : Bool
  zeroPrice : Nat
  entryPrice : Nat
  lastSyncSlot : Nat
  activeGeneration : Nat
  schemaVersion : Nat
deriving DecidableEq

/-- Owner and id, from which the address of a position is derived. -/
abbrev PositionKey := Nat ×ₗ Nat

def positionKey (owner : Pubkey) (positionId : Nat) : PositionKey := toLex (owner, positionId)

def positionToCore (p : PositionAccount) : Position where
  subPoolId := 0
  positionId := p.positionId
  direction := .ofIsLong p.directionIsLong
  status := if p.status = 0 then .open else if p.status = 1 then .dormant else .closed
  principal := p.principal
  notional := p.notional
  activeShares := p.activeShares
  recoveryShares := p.recoveryShares
  recoveryBucketTick := if p.hasRecoveryBucket = true then some p.recoveryBucketTick else none
  zeroPrice := p.zeroPrice
  entryPrice := p.entryPrice
  lastSyncSlot := p.lastSyncSlot
  openedAtSlot := 0
  updatedAtSlot := 0
  closedAtSlot := 0
  schemaVersion := p.schemaVersion
  activeGeneration := p.activeGeneration

def PositionStatus.code : PositionStatus → Nat
  | .open => 0
  | .dormant => 1
  | .closed => 2

def writeBackPosition (p : PositionAccount) (core : Position) : PositionAccount :=
  { p with
    principal := core.principal
    notional := core.notional
    activeShares := core.activeShares
    recoveryShares := core.recoveryShares
    recoveryBucketTick := core.recoveryBucketTick.getD 0
    hasRecoveryBucket := core.recoveryBucketTick.isSome
    zeroPrice := core.zeroPrice
    lastSyncSlot := core.lastSyncSlot
    activeGeneration := core.activeGeneration
    status := core.status.code }

/-- A key that signs for itself, or the address for which only the program signs. -/
inductive TokenOwner where
  | user (key : Pubkey)
  | vaultAuthority
deriving DecidableEq

structure TokenAccount where
  mint : Pubkey
  owner : TokenOwner
  amount : Nat
deriving DecidableEq

abbrev TokenAccounts := OrdMap Pubkey TokenAccount

def balanceOf (tokens : TokenAccounts) (key : Pubkey) : Nat :=
  ((tokens.get? key).map TokenAccount.amount).getD 0

/-- The token program: the accounts after a transfer between two of them, if it goes through. -/
structure TokenProgram where
  transfer (tokens : TokenAccounts) (source dest : Pubkey) (authority : TokenOwner)
    (amount : Nat) : Option TokenAccounts

/-- A transfer needs the owner of the source, and moves exactly the requested amount. -/
structure TokenProgram.Exact (token : TokenProgram) : Prop where
  signed {tokens tokens' : TokenAccounts} {source dest : Pubkey} {authority : TokenOwner}
    {amount : Nat} (h : token.transfer tokens source dest authority amount = some tokens') :
    ∃ a, tokens.get? source = some a ∧ a.owner = authority
  moved {tokens tokens' : TokenAccounts} {source dest : Pubkey} {authority : TokenOwner}
    {amount : Nat} (h : token.transfer tokens source dest authority amount = some tokens')
    (key : Pubkey) : balanceOf tokens' key + (if key = source then amount else 0)
      = balanceOf tokens key + (if key = dest then amount else 0)

/-- Balances are 64-bit words; a transfer of an account to itself is only checked. -/
def splToken : TokenProgram where
  transfer tokens source dest authority amount :=
    match tokens.get? source, tokens.get? dest with
    | some s, some d =>
      if s.mint ≠ d.mint ∨ s.owner ≠ authority ∨ s.amount < amount then none
      else if source = dest then some tokens
      else if d.amount + amount < u64Size then
        some ((tokens.insert source { s with amount := s.amount - amount }).insert dest
          { d with amount := d.amount + amount })
      else none
    | _, _ => none

/-- The addresses `initialize_market_vaults` creates accounts at, derived from the market's. -/
structure VaultPdas where
  vault : Pubkey
  feeVault : Pubkey
deriving DecidableEq

/-- The state of the program, with the world outside as far as instructions read it. -/
structure Program where
  globalConfig : GlobalConfig
  market : Market
  vaultPdas : VaultPdas
  subPools : OrdMap Nat SubPoolState
  positions : OrdMap PositionKey PositionAccount
  tokens : TokenAccounts
  oraclePriceFeed : OracleAccount
  slot : Nat

def Program.vault (st : Program) : Nat := balanceOf st.tokens st.market.vault

def Program.feeVault (st : Program) : Nat := balanceOf st.tokens st.market.feeVault

def found {α : Type} : Option α → Except ProgramError α
  | none => .error .accountNotFound
  | some a => .ok a

/-- `init`: the account must not be there yet. -/
def vacant {α : Type} (account : Option α) : Except ProgramError Unit :=
  ensure (account.isNone = true) .accountInUse

def tokenTransfer (token : TokenProgram) (st : Program) (source dest : Pubkey)
    (authority : TokenOwner) (amount : Nat) : Except ProgramError Program :=
  match token.transfer st.tokens source dest authority amount with
  | none => .error .insufficientFunds
  | some tokens => .ok { st with tokens := tokens }

/-- A transfer that is made only where something is due. -/
def transferDue (token : TokenProgram) (st : Program) (due : Nat) (source dest : Pubkey)
    (authority : TokenOwner) (amount : Nat) : Except ProgramError Program :=
  if 0 < due then tokenTransfer token st source dest authority amount else .ok st

def validateOracleEnvelope (market : Market) (oracle : OracleAccount) (clockSlot : Nat)
    (envelope : PriceEnvelope) : Except ProgramError PriceEnvelope :=
  match Pyth.validatePriceAccount oracle.data oracle.owner market.oracleProgramId clockSlot
      ⟨market.maxOracleAgeSlots, market.maxConfidenceBps⟩ with
  | .error _ => .error .oracleValidationFailed
  | .ok validated => do
    ensure (envelope.expectedMin ≤ validated.price ∧ validated.price ≤ envelope.expectedMax)
      .oraclePriceOutsideEnvelope
    return ⟨validated.price, clockSlot, envelope.expectedMin, envelope.expectedMax,
      validated.price.isLt⟩

end MoleFinance
