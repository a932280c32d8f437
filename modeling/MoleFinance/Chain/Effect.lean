import MoleFinance.Chain.Instructions

/-! What a successful step leaves, one case for each kind of step. -/
namespace MoleFinance
open MoleMath Call

theorem found_ok {α : Type} {account : Option α} {a : α} :
    found account = .ok a ↔ account = some a := by
  cases account <;> simp [found]

theorem vacant_ok {α : Type} {account : Option α} {u : Unit} :
    vacant account = .ok u ↔ account = none := by
  unfold vacant
  rw [ensure_ok, Option.isNone_iff_eq_none]

@[simp] theorem Direction.ofIsLong_isLong (isLong : Bool) :
    (Direction.ofIsLong isLong).isLong = isLong := by
  cases isLong <;> rfl

@[simp] theorem Direction.isLong_ofIsLong (d : Direction) : Direction.ofIsLong d.isLong = d := by
  cases d <;> rfl

theorem SubPoolState.dormant_setDormant (s : SubPoolState) (d e : Direction)
    (x : DormantAccounts) : (s.setDormant d x).dormant e = if e = d then x else s.dormant e := by
  cases d <;> cases e <;> rfl

theorem SubPoolState.setDormant_account (s : SubPoolState) (d : Direction) (x : DormantAccounts) :
    (s.setDormant d x).account = s.account := by
  cases d <;> rfl

/-- The flags and the version are all that governance changes of a market. -/
def Market.SameLimits (m m' : Market) : Prop :=
  { m' with
    paused := m.paused
    frozenNewPosition := m.frozenNewPosition
    schemaVersion := m.schemaVersion } = m

theorem Market.SameLimits.accounts_eq {m m' : Market} (h : m.SameLimits m') :
    m'.toMarketAccounts = m.toMarketAccounts := by
  unfold SameLimits at h
  have haccounts := congrArg Market.toMarketAccounts h
  exact haccounts

namespace BridgedCall

def envelope : BridgedCall → Option PriceEnvelope
  | .sync e => some e
  | .close e _ => some e
  | .forceClose e _ _ => some e
  | .claim e _ => some e
  | .preSync _ _ _ => none

def position : BridgedCall → Option Position
  | .sync _ => none
  | .close _ p => some p
  | .forceClose _ p _ => some p
  | .claim _ p => some p
  | .preSync _ _ _ => none

/-- The envelope was built from the oracle account, which the instruction reads. -/
def Priced (st : Program) (reads : Bool) (call : BridgedCall) : Prop :=
  ∀ e, call.envelope = some e → reads = true ∧
    ∃ client, validateOracleEnvelope st.market st.oraclePriceFeed st.slot client = .ok e

end BridgedCall

/-- The accounts after a transfer that is left out where nothing is due. -/
def Transfers (token : TokenProgram) (tokens : TokenAccounts) (due : Nat) (source dest : Pubkey)
    (authority : TokenOwner) (amount : Nat) (tokens' : TokenAccounts) : Prop :=
  due = 0 ∧ tokens' = tokens ∨
    0 < due ∧ token.transfer tokens source dest authority amount = some tokens'

theorem transferDue_ok {token : TokenProgram} {st st' : Program} {due : Nat}
    {source dest : Pubkey} {authority : TokenOwner} {n : Nat} :
    transferDue token st due source dest authority n = .ok st' ↔ ∃ tokens,
      Transfers token st.tokens due source dest authority n tokens ∧
        st' = { st with tokens := tokens } := by
  unfold transferDue tokenTransfer Transfers
  by_cases hd : 0 < due
  · rw [if_pos hd]
    cases token.transfer st.tokens source dest authority n with
    | none => simp [Nat.ne_of_gt hd]
    | some tokens => simp [Nat.ne_of_gt hd, hd, eq_comm]
  · rw [if_neg hd]
    simp only [Nat.eq_zero_of_not_pos hd, Except.ok.injEq, lt_irrefl, false_and, or_false, true_and,
      exists_eq_left]
    exact eq_comm

def Pays (token : TokenProgram) (st : Program) (due : Nat) (tokens' : TokenAccounts) : Prop :=
  due = 0 ∧ tokens' = st.tokens ∨
    ∃ wallet w owner, st.tokens.get? wallet = some w ∧ w.owner = .user owner ∧
      token.transfer st.tokens st.market.vault wallet .vaultAuthority due = some tokens'

/-- The accounts after a deposit: the principal, if some of it enters the pool, and the fee. -/
def Collects (token : TokenProgram) (st : Program) (owner wallet : Pubkey) (principal : Nat)
    (out : OpenOutcome) (tokens' : TokenAccounts) : Prop :=
  ∃ tokens, Transfers token st.tokens out.principalIntoPool wallet st.market.vault (.user owner)
      principal tokens ∧
    Transfers token tokens out.openFee wallet st.market.feeVault (.user owner) out.openFee tokens'

inductive Arranged (maxEntries : U32) (s : SubPoolState) : SubPoolState → Prop
  | ledger (d : Direction) (h : (s.dormant d).ledger = none) :
      Arranged maxEntries s (s.setLedger d (.init s.account.key d.isLong maxEntries))
  | bucket (d : Direction) (tick : Int) (h : (s.dormant d).buckets.get? tick = none) :
      Arranged maxEntries s (s.setBucket (.init s.account.key d.isLong tick))
  | closed (d : Direction) (tick : Int) (b : BucketAccount)
      (h : (s.dormant d).buckets.get? tick = some b) (hd : recordIsDead b = true) :
      Arranged maxEntries s
        (s.setDormant d { s.dormant d with buckets := (s.dormant d).buckets.erase tick })

structure OpenCall where
  subPoolId : Nat
  owner : Pubkey
  wallet : Pubkey
  params : Program.OpenParams

/-- The calls of the engine that run on the view with empty stores. -/
inductive DirectCall where
  | open (c : OpenCall)
  | harvest (subPoolId : Nat) (direction : Direction)

theorem Arranged.account_eq {maxEntries : U32} {s s' : SubPoolState}
    (h : Arranged maxEntries s s') : s'.account = s.account := by
  cases h with
  | ledger d h => exact s.setDormant_account d _
  | bucket d tick h => exact s.setDormant_account _ _
  | closed d tick b h hd => exact s.setDormant_account d _

/-- A successful instruction that called the engine; `reads` tells whether it was handed the
    oracle account, and a direct call is named. -/
inductive EngineEffect (token : TokenProgram) (st : Program) (reads : Bool) :
    Option DirectCall → Program → Prop
  | bridged (id : Nat) (remaining : RemainingAccounts) (call : BridgedCall) (st' : Program)
      (outcome : BridgedOutcome) (hp : call.Priced st reads) (hn : call.position = none)
      (h : st.runBridged id remaining call = .ok (st', outcome)) :
      EngineEffect token st reads none st'
  | settled (id : Nat) (key : PositionKey) (remaining : RemainingAccounts) (p : PositionAccount)
      (call : BridgedCall) (st' : Program) (outcome : BridgedOutcome) (tokens : TokenAccounts)
      (hk : st.positions.get? key = some p) (hs : p.subPool = id) (hp : call.Priced st reads)
      (hc : call.position = some (positionToCore p))
      (h : st.runBridged id remaining call = .ok (st', outcome))
      (hpay : Pays token st' outcome.paid tokens) :
      EngineEffect token st reads none { st' with
        positions := st'.positions.insert key
          ((outcome.position.map (writeBackPosition p)).getD p)
        tokens := tokens }
  | opened (id : Nat) (owner wallet : Pubkey) (params : Program.OpenParams) (s : SubPoolState)
      (view : SubPool) (pos : Position) (out : OpenOutcome) (tokens : TokenAccounts)
      (hs : st.subPools.get? id = some s)
      (hk : st.positions.get? (positionKey owner params.positionId) = none)
      (h : openPosition (marketParamsFrom st.market) (clearingView s.account) params.envelope
        (.ofIsLong params.directionIsLong) params.grossAmount params.positionId
          = .ok (view, pos, out))
      (hpay : Collects token st owner wallet pos.principal out tokens) :
      EngineEffect token st reads (some (.open ⟨id, owner, wallet, params⟩)) { st with
        tokens := tokens
        subPools := st.subPools.insert id { s with account := applyClearingView s.account view }
        positions := st.positions.insert (positionKey owner params.positionId)
          (Program.newPosition st.market owner s.account.key params pos) }
  | harvested (id : Nat) (d : Direction) (s : SubPoolState) (view : SubPool)
      (out : HarvestOutcome) (tokens : TokenAccounts) (hs : st.subPools.get? id = some s)
      (h : harvestDust (marketParamsFrom st.market) (clearingView s.account) d = .ok (view, out))
      (hpay : Transfers token st.tokens out.amount st.market.vault st.market.feeVault
        .vaultAuthority out.amount tokens) :
      EngineEffect token st reads (some (.harvest id d)) { st with
        subPools := st.subPools.insert id { s with account := applyClearingView s.account view }
        tokens := tokens }

inductive Effect (token : TokenProgram) (st : Program) (reads : Bool) :
    Option DirectCall → Program → Prop
  | outside (slot : Nat) (feed : OracleAccount) (tokens : TokenAccounts) (h : st.slot ≤ slot)
      (hv : balanceOf tokens st.market.vault = st.vault)
      (hf : balanceOf tokens st.market.feeVault = st.feeVault) :
      Effect token st reads none { st with slot := slot, oraclePriceFeed := feed, tokens := tokens }
  | governed (config : GlobalConfig) (market : Market) (h : st.market.SameLimits market) :
      Effect token st reads none { st with globalConfig := config, market := market }
  | created (id : Nat) (h : st.subPools.get? id = none) :
      Effect token st reads none
        { st with subPools := st.subPools.insert id ⟨.init id, .none, .none⟩ }
  | arranged (id : Nat) (s s' : SubPoolState) (h : st.subPools.get? id = some s)
      (ha : Arranged st.market.maxDistributionLedgerSize s s') :
      Effect token st reads none { st with subPools := st.subPools.insert id s' }
  | engaged {o : Option DirectCall} {st' : Program} (h : EngineEffect token st reads o st') :
      Effect token st reads o st'

def Instruction.touchesFunds : Instruction → Bool
  | .syncPool _ _ _ | .openPosition _ _ _ _ | .closePosition _ _ _ _ _ _
  | .forceCloseZeroValuePosition _ _ _ _ _ _ | .claimDormantRecovery _ _ _ _ _ _
  | .preSyncDormantBucket _ _ _ _ | .harvestDust _ _ _ => true
  | _ => false

def Instruction.readsOracle : Instruction → Bool
  | .syncPool _ _ _ | .closePosition _ _ _ _ _ _ | .forceCloseZeroValuePosition _ _ _ _ _ _
  | .claimDormantRecovery _ _ _ _ _ _ => true
  | _ => false

def ChainOp.readsOracle : ChainOp → Bool
  | .instruction i => i.readsOracle
  | _ => false

def Instruction.directCall : Instruction → Option DirectCall
  | .openPosition id owner wallet params => some (.open ⟨id, owner, wallet, params⟩)
  | .harvestDust id _ isLong => some (.harvest id (.ofIsLong isLong))
  | _ => none

def ChainOp.directCall : ChainOp → Option DirectCall
  | .instruction i => i.directCall
  | _ => none

def Instruction.openCall : Instruction → Option OpenCall
  | .openPosition id owner wallet params => some ⟨id, owner, wallet, params⟩
  | _ => none

def ChainOp.openCall : ChainOp → Option OpenCall
  | .instruction i => i.openCall
  | _ => none

theorem ChainOp.directCall_open {op : ChainOp} {c : OpenCall} :
    op.directCall = some (.open c) ↔ op.openCall = some c := by
  cases op with
  | instruction i => cases i <;> simp [directCall, Instruction.directCall, openCall,
      Instruction.openCall]
  | _ => simp [directCall, openCall]

namespace Program
variable {token : TokenProgram} {st st' : Program}

theorem modifySubPool_of {id : Nat} {s : SubPoolState} (h : st.subPools.get? id = some s)
    (f : SubPoolState → SubPoolState) :
    st.modifySubPool id f = { st with subPools := st.subPools.insert id (f s) } := by
  simp only [modifySubPool, h]

theorem userTokenAccount_ok {owner wallet : Pubkey} {w : TokenAccount}
    (h : st.userTokenAccount owner wallet = .ok w) :
    st.tokens.get? wallet = some w ∧ w.mint = st.market.collateralMint ∧ w.owner = .user owner := by
  unfold userTokenAccount at h
  obtain ⟨_, hw, h⟩ := except_bind_ok.mp h
  obtain ⟨_, hc, h⟩ := except_bind_ok.mp h
  cases h
  exact ⟨found_ok.mp hw, ensure_ok.mp hc⟩

theorem payOut_moves {wallet : Pubkey} {n : Nat} (h : st.payOut token wallet n = .ok st') :
    ∃ tokens, Transfers token st.tokens n st.market.vault wallet .vaultAuthority n tokens ∧
      st' = { st with tokens := tokens } := by
  unfold payOut at h
  obtain ⟨_, -, h⟩ := except_bind_ok.mp h
  exact transferDue_ok.mp h

theorem payOut_ok {owner wallet : Pubkey} {w : TokenAccount} {n : Nat}
    (hw : st.tokens.get? wallet = some w) (ho : w.owner = .user owner)
    (h : st.payOut token wallet n = .ok st') :
    ∃ tokens, st' = { st with tokens := tokens } ∧ Pays token st n tokens := by
  obtain ⟨tokens, hmoves, rfl⟩ := payOut_moves h
  cases hmoves with
  | inl hnone => exact ⟨tokens, rfl, .inl hnone⟩
  | inr hpaid => exact ⟨tokens, rfl, .inr ⟨wallet, w, owner, hw, ho, hpaid.2⟩⟩

theorem payIn_ok {owner wallet : Pubkey} {principal : Nat} {out : OpenOutcome}
    (h : payIn token st owner wallet principal out = .ok st') :
    ∃ tokens, st' = { st with tokens := tokens } ∧
      Collects token st owner wallet principal out tokens := by
  obtain ⟨st1, h1, h⟩ := except_bind_ok.mp h
  obtain ⟨tokens, hprincipal, rfl⟩ := transferDue_ok.mp h1
  obtain ⟨tokens', hfee, rfl⟩ := transferDue_ok.mp h
  exact ⟨tokens', rfl, tokens, hprincipal, hfee⟩

structure BridgedRun (st : Program) (id : Nat) (remaining : RemainingAccounts)
    (call : BridgedCall) (st' : Program) (outcome : BridgedOutcome) (s : SubPoolState)
    (long short : BridgedSide) (view view' : SubPool) (long' short' : BridgedSide) : Prop where
  loaded : st.loadBridged id remaining = .ok (s, long, short)
  hydrated : hydrate s.account long short = .ok view
  ran : call.run (marketParamsFrom st.market) view = .ok (view', outcome)
  longPacked : packSide (marketParamsFrom st.market) s.account.key .long view'.long.dormant long
    = .ok long'
  shortPacked : packSide (marketParamsFrom st.market) s.account.key .short view'.short.dormant
    short = .ok short'
  state : st' = (st.exitAllBuckets (long'.buckets ++ short'.buckets)).modifySubPool id
    fun s => { (s.setLedger .long long'.ledger).setLedger .short short'.ledger with
      account := applyClearingView s.account view' }

theorem runBridged_ok {id : Nat} {remaining : RemainingAccounts} {call : BridgedCall}
    {outcome : BridgedOutcome} (h : st.runBridged id remaining call = .ok (st', outcome)) :
    ∃ s long short view view' long' short',
      st.BridgedRun id remaining call st' outcome s long short view view' long' short' := by
  unfold runBridged at h
  obtain ⟨⟨s, long, short⟩, hl, h⟩ := except_bind_ok.mp h
  obtain ⟨view, hv, h⟩ := except_bind_ok.mp h
  obtain ⟨⟨view', out⟩, hr, h⟩ := except_bind_ok.mp h
  obtain ⟨long', hpl, h⟩ := except_bind_ok.mp h
  obtain ⟨short', hps, h⟩ := except_bind_ok.mp h
  cases h
  exact ⟨s, long, short, view, view', long', short', hl, hv, engine_ok.mp hr, hpl, hps, rfl⟩

theorem runBridged_subPools {id : Nat} {remaining : RemainingAccounts} {call : BridgedCall}
    {outcome : BridgedOutcome}
    (h : st.runBridged id remaining call = .ok (st', outcome)) :
    ∃ subPools, st' = { st with subPools := subPools } := by
  have modified : ∀ (st : Program) id f, ∃ subPools,
      st.modifySubPool id f = { st with subPools := subPools } := by
    intro st id f
    unfold modifySubPool
    split
    · exact ⟨_, rfl⟩
    · exact ⟨_, rfl⟩
  have exited : ∀ (bs : List BucketAccount) (st : Program), ∃ subPools,
      st.exitAllBuckets bs = { st with subPools := subPools } := by
    intro bs
    induction bs with
    | nil => exact fun st => ⟨st.subPools, rfl⟩
    | cons b bs ih =>
      intro st
      obtain ⟨m, hm⟩ := modified st b.seeds.subPool (·.setBucket b)
      obtain ⟨m', hm'⟩ := ih { st with subPools := m }
      refine ⟨m', ?_⟩
      rw [exitAllBuckets, List.foldl_cons, hm]
      exact hm'
  obtain ⟨s, long, short, view, view', long', short', hrun⟩ := runBridged_ok h
  obtain ⟨m, hm⟩ := exited (long'.buckets ++ short'.buckets) st
  rw [hrun.state, hm]
  exact modified _ _ _

theorem runOnPosition_ok {id : Nat} {key : PositionKey} {remaining : RemainingAccounts}
    {engineCall : Position → BridgedCall} {paid : Nat}
    (h : st.runOnPosition id key remaining engineCall = .ok (st', paid)) :
    ∃ p st1 outcome, st.positions.get? key = some p ∧ p.subPool = id ∧
      st.runBridged id remaining (engineCall (positionToCore p)) = .ok (st1, outcome) ∧
      st' = { st1 with
        positions := st1.positions.insert key
          ((outcome.position.map (writeBackPosition p)).getD p) } ∧
      paid = outcome.paid := by
  unfold runOnPosition at h
  obtain ⟨p, hp, h⟩ := except_bind_ok.mp h
  obtain ⟨_, hs, h⟩ := except_bind_ok.mp h
  obtain ⟨⟨st1, outcome⟩, hr, h⟩ := except_bind_ok.mp h
  cases h
  exact ⟨p, st1, outcome, found_ok.mp hp, ensure_ok.mp hs, hr, rfl, rfl⟩

theorem emergency_ok {signer : Pubkey} {f : Market → Market}
    (h : st.emergency signer f = .ok st') : st' = { st with market := f st.market } := by
  unfold emergency at h
  obtain ⟨_, -, h⟩ := except_bind_ok.mp h
  cases h
  rfl

theorem initializeSubPool_effect {id : Nat} (h : st.initializeSubPool id = .ok st') :
    Effect token st false none st' := by
  unfold initializeSubPool at h
  obtain ⟨_, hv, h⟩ := except_bind_ok.mp h
  obtain ⟨_, -, h⟩ := except_bind_ok.mp h
  cases h
  exact .created id (vacant_ok.mp hv)

theorem initializeDistributionLedger_effect {id : Nat} {isLong : Bool}
    (h : st.initializeDistributionLedger id isLong = .ok st') : Effect token st false none st' := by
  unfold initializeDistributionLedger at h
  obtain ⟨s, hs, h⟩ := except_bind_ok.mp h
  obtain ⟨_, hv, h⟩ := except_bind_ok.mp h
  cases h
  have ha : Arranged st.market.maxDistributionLedgerSize s _ := .ledger _ (vacant_ok.mp hv)
  rw [Direction.ofIsLong_isLong] at ha
  rw [modifySubPool_of (found_ok.mp hs)]
  exact .arranged id s _ (found_ok.mp hs) ha

theorem initializeDormantBucket_effect {id : Nat} {isLong : Bool} {tick : Int}
    (h : st.initializeDormantBucket id isLong tick = .ok st') : Effect token st false none st' := by
  unfold initializeDormantBucket at h
  obtain ⟨s, hs, h⟩ := except_bind_ok.mp h
  obtain ⟨_, hv, h⟩ := except_bind_ok.mp h
  cases h
  have ha : Arranged st.market.maxDistributionLedgerSize s _ := .bucket _ tick (vacant_ok.mp hv)
  rw [Direction.ofIsLong_isLong] at ha
  rw [modifySubPool_of (found_ok.mp hs)]
  exact .arranged id s _ (found_ok.mp hs) ha

theorem closeDormantBucket_effect {seeds : BucketSeeds}
    (h : st.closeDormantBucket seeds = .ok st') : Effect token st false none st' := by
  unfold closeDormantBucket at h
  obtain ⟨s, hs, h⟩ := except_bind_ok.mp h
  obtain ⟨b, hb, h⟩ := except_bind_ok.mp h
  obtain ⟨_, -, h⟩ := except_bind_ok.mp h
  obtain ⟨_, -, h⟩ := except_bind_ok.mp h
  obtain ⟨_, hd, h⟩ := except_bind_ok.mp h
  obtain ⟨_, -, h⟩ := except_bind_ok.mp h
  cases h
  have hs := found_ok.mp hs
  have hb := found_ok.mp hb
  rw [bucketAt, hs, Option.bind_some] at hb
  rw [modifySubPool_of hs]
  exact .arranged seeds.subPool s _ hs (.closed _ _ b hb (ensure_ok.mp hd))

theorem syncPool_effect {id : Nat} {envelope : PriceEnvelope} {remaining : RemainingAccounts}
    (h : st.syncPool id envelope remaining = .ok st') : EngineEffect token st true none st' := by
  unfold syncPool at h
  obtain ⟨e, he, h⟩ := except_bind_ok.mp h
  obtain ⟨⟨st1, outcome⟩, hr, h⟩ := except_bind_ok.mp h
  cases h
  refine .bridged id remaining _ _ outcome ?_ rfl hr
  rintro _ ⟨⟩
  exact ⟨rfl, envelope, he⟩

theorem openPosition_effect {id : Nat} {owner wallet : Pubkey} {params : OpenParams}
    (h : st.openPosition token id owner wallet params = .ok st') :
    EngineEffect token st false (some (.open ⟨id, owner, wallet, params⟩)) st' := by
  unfold openPosition at h
  obtain ⟨s, hs, h⟩ := except_bind_ok.mp h
  obtain ⟨_, hv, h⟩ := except_bind_ok.mp h
  obtain ⟨_, -, h⟩ := except_bind_ok.mp h
  obtain ⟨_, -, h⟩ := except_bind_ok.mp h
  obtain ⟨_, -, h⟩ := except_bind_ok.mp h
  obtain ⟨⟨view, pos, out⟩, ho, h⟩ := except_bind_ok.mp h
  obtain ⟨st1, hpay, h⟩ := except_bind_ok.mp h
  cases h
  obtain ⟨tokens, rfl, hc⟩ := payIn_ok hpay
  have hs := found_ok.mp hs
  have hpaid : ({ st with tokens := tokens : Program }).subPools.get? id = some s := hs
  rw [modifySubPool_of hpaid]
  exact .opened id owner wallet params s view pos out tokens hs (vacant_ok.mp hv)
    (engine_ok.mp ho) hc

theorem runOnPosition_tokens {id : Nat} {key : PositionKey} {remaining : RemainingAccounts}
    {engineCall : Position → BridgedCall} {paid : Nat}
    (h : st.runOnPosition id key remaining engineCall = .ok (st', paid)) :
    st'.tokens = st.tokens := by
  obtain ⟨p, st1, outcome, -, -, hr, rfl, -⟩ := runOnPosition_ok h
  obtain ⟨subPools, rfl⟩ := runBridged_subPools hr
  rfl

/-- The effect of a call on a position, with the payment that follows it. -/
theorem settled_effect {id : Nat} {key : PositionKey} {remaining : RemainingAccounts}
    {engineCall : Position → BridgedCall} {paid : Nat} {st1 : Program} {owner wallet : Pubkey}
    {w : TokenAccount} (hw : st.userTokenAccount owner wallet = .ok w)
    (hr : st.runOnPosition id key remaining engineCall = .ok (st1, paid))
    (hc : ∀ p, (engineCall p).position = some p) (hp : ∀ p, (engineCall p).Priced st true)
    (hpay : st1.payOut token wallet paid = .ok st') : EngineEffect token st true none st' := by
  obtain ⟨hget, -, howner⟩ := userTokenAccount_ok hw
  obtain ⟨tokens, rfl, hpaid⟩ := payOut_ok ((runOnPosition_tokens hr).symm ▸ hget) howner hpay
  obtain ⟨p, st2, outcome, hk, hs, h, rfl, rfl⟩ := runOnPosition_ok hr
  exact .settled id key remaining p _ st2 outcome tokens hk hs (hp _) (hc _) h hpaid

theorem closePosition_effect {id : Nat} {owner wallet : Pubkey} {positionId : Nat}
    {envelope : PriceEnvelope} {remaining : RemainingAccounts}
    (h : st.closePosition token id owner wallet positionId envelope remaining = .ok st') :
    EngineEffect token st true none st' := by
  unfold closePosition at h
  obtain ⟨_, -, h⟩ := except_bind_ok.mp h
  obtain ⟨w, hw, h⟩ := except_bind_ok.mp h
  obtain ⟨e, he, h⟩ := except_bind_ok.mp h
  obtain ⟨⟨st1, paid⟩, hr, h⟩ := except_bind_ok.mp h
  refine settled_effect hw hr (fun _ => rfl) (fun p => ?_) h
  rintro _ ⟨⟩
  exact ⟨rfl, envelope, he⟩

theorem forceCloseZeroValuePosition_effect {id : Nat} {owner : Pubkey} {positionId : Nat}
    {envelope : PriceEnvelope} {ack : Bool} {remaining : RemainingAccounts}
    (h : st.forceCloseZeroValuePosition id owner positionId envelope ack remaining = .ok st') :
    EngineEffect token st true none st' := by
  unfold forceCloseZeroValuePosition at h
  obtain ⟨e, he, h⟩ := except_bind_ok.mp h
  obtain ⟨⟨st1, paid⟩, hr, h⟩ := except_bind_ok.mp h
  cases h
  obtain ⟨p, st2, outcome, hk, hs, hb, rfl, -⟩ := runOnPosition_ok hr
  refine .settled id _ remaining p _ st2 outcome st2.tokens hk hs ?_ rfl hb (.inl ⟨?_, rfl⟩)
  · rintro _ ⟨⟩
    exact ⟨rfl, envelope, he⟩
  · obtain ⟨s, long, short, view, view', long', short', hrun⟩ := runBridged_ok hb
    obtain ⟨_, -, hran⟩ := except_bind_ok.mp hrun.ran
    cases hran
    rfl

theorem claimDormantRecovery_effect {id : Nat} {owner wallet : Pubkey} {positionId : Nat}
    {envelope : PriceEnvelope} {remaining : RemainingAccounts}
    (h : st.claimDormantRecovery token id owner wallet positionId envelope remaining = .ok st') :
    EngineEffect token st true none st' := by
  unfold claimDormantRecovery at h
  obtain ⟨_, -, h⟩ := except_bind_ok.mp h
  obtain ⟨w, hw, h⟩ := except_bind_ok.mp h
  obtain ⟨e, he, h⟩ := except_bind_ok.mp h
  obtain ⟨⟨st1, paid⟩, hr, h⟩ := except_bind_ok.mp h
  refine settled_effect hw hr (fun _ => rfl) (fun p => ?_) h
  rintro _ ⟨⟩
  exact ⟨rfl, envelope, he⟩

theorem preSyncDormantBucket_effect {id : Nat} {isLong : Bool} {tick : Int}
    {remaining : RemainingAccounts}
    (h : st.preSyncDormantBucket id isLong tick remaining = .ok st') :
    EngineEffect token st false none st' := by
  unfold preSyncDormantBucket at h
  obtain ⟨⟨st1, outcome⟩, hr, h⟩ := except_bind_ok.mp h
  cases h
  refine .bridged id remaining _ _ outcome ?_ rfl hr
  rintro _ ⟨⟩

theorem harvestDust_effect {id : Nat} {signer : Pubkey} {isLong : Bool}
    (h : st.harvestDust token id signer isLong = .ok st') :
    EngineEffect token st false (some (.harvest id (.ofIsLong isLong))) st' := by
  unfold harvestDust at h
  obtain ⟨s, hs, h⟩ := except_bind_ok.mp h
  obtain ⟨_, -, h⟩ := except_bind_ok.mp h
  obtain ⟨_, -, h⟩ := except_bind_ok.mp h
  obtain ⟨_, -, h⟩ := except_bind_ok.mp h
  obtain ⟨⟨view, out⟩, ho, h⟩ := except_bind_ok.mp h
  have hs := found_ok.mp hs
  simp only [modifySubPool_of hs] at h
  obtain ⟨_, -, h⟩ := except_bind_ok.mp h
  obtain ⟨tokens, hmoves, rfl⟩ := transferDue_ok.mp h
  exact .harvested id _ s view out tokens hs (engine_ok.mp ho) hmoves

theorem createTokenAccount_ok {key : Pubkey} (h : st.createTokenAccount key = .ok st') :
    ∃ tokens, st' = { st with tokens := tokens } ∧
      ∀ other, balanceOf tokens other = balanceOf st.tokens other := by
  unfold createTokenAccount at h
  obtain ⟨_, hv, h⟩ := except_bind_ok.mp h
  cases h
  refine ⟨_, rfl, fun other => ?_⟩
  unfold balanceOf
  rw [OrdMap.get?_insert]
  split_ifs with ho
  · rw [ho, vacant_ok.mp hv]
    rfl
  · rfl

theorem initializeMarketVaults_ok {signer : Pubkey}
    (h : st.initializeMarketVaults signer = .ok st') :
    ∃ tokens, st' = { st with tokens := tokens } ∧
      ∀ other, balanceOf tokens other = balanceOf st.tokens other := by
  unfold initializeMarketVaults at h
  obtain ⟨st1, h1, h⟩ := except_bind_ok.mp h
  obtain ⟨st2, h2, h⟩ := except_bind_ok.mp h
  obtain ⟨_, -, h⟩ := except_bind_ok.mp h
  obtain ⟨_, -, h⟩ := except_bind_ok.mp h
  obtain ⟨_, -, h⟩ := except_bind_ok.mp h
  cases h
  obtain ⟨tokens, rfl, hsame⟩ := createTokenAccount_ok h1
  obtain ⟨tokens', rfl, hsame'⟩ := createTokenAccount_ok h2
  exact ⟨tokens', rfl, fun other => (hsame' other).trans (hsame other)⟩

theorem initializeMarketVaults_effect {signer : Pubkey}
    (h : st.initializeMarketVaults signer = .ok st') : Effect token st false none st' := by
  obtain ⟨tokens, rfl, hsame⟩ := initializeMarketVaults_ok h
  exact .outside st.slot st.oraclePriceFeed tokens le_rfl (hsame _) (hsame _)

end Program

theorem Instruction.exec_engaged {token : TokenProgram} {st st' : Program} {i : Instruction}
    (ht : i.touchesFunds = true) (h : i.exec token st = .ok st') :
    EngineEffect token st i.readsOracle i.directCall st' := by
  cases i with
  | syncPool id envelope remaining => exact Program.syncPool_effect h
  | openPosition id owner wallet params => exact Program.openPosition_effect h
  | closePosition id owner wallet positionId envelope remaining =>
    exact Program.closePosition_effect h
  | forceCloseZeroValuePosition id owner positionId envelope ack remaining =>
    exact Program.forceCloseZeroValuePosition_effect h
  | claimDormantRecovery id owner wallet positionId envelope remaining =>
    exact Program.claimDormantRecovery_effect h
  | preSyncDormantBucket id isLong tick remaining => exact Program.preSyncDormantBucket_effect h
  | harvestDust id signer isLong => exact Program.harvestDust_effect h
  | _ => cases ht

theorem Instruction.exec_effect {token : TokenProgram} {st st' : Program} {i : Instruction}
    (h : i.exec token st = .ok st') : Effect token st i.readsOracle i.directCall st' := by
  have governed : ∀ config market, st.market.SameLimits market →
      st' = { st with globalConfig := config, market := market } →
          Effect token st false none st' := by
    rintro config market hm rfl
    exact .governed config market hm
  have flagged : ∀ {signer} (f : Market → Market), (∀ m : Market, m.SameLimits (f m)) →
      st.emergency signer f = .ok st' → Effect token st false none st' := by
    intro signer f hf he
    exact governed st.globalConfig _ (hf st.market) (Program.emergency_ok he)
  cases i with
  | initializeMarketVaults signer => exact Program.initializeMarketVaults_effect h
  | initializeSubPool id => exact Program.initializeSubPool_effect h
  | initializeDistributionLedger id isLong => exact Program.initializeDistributionLedger_effect h
  | initializeDormantBucket id isLong tick => exact Program.initializeDormantBucket_effect h
  | closeDormantBucket seeds => exact Program.closeDormantBucket_effect h
  | pauseMarket signer =>
    exact flagged ({ · with paused := true }) (fun _ => rfl) h
  | resumeMarket signer =>
    exact flagged ({ · with paused := false }) (fun _ => rfl) h
  | freezeNewPosition signer =>
    exact flagged ({ · with frozenNewPosition := true }) (fun _ => rfl) h
  | unfreezeNewPosition signer =>
    exact flagged ({ · with frozenNewPosition := false }) (fun _ => rfl) h
  | setGloballyPaused signer paused =>
    obtain ⟨_, -, h⟩ := except_bind_ok.mp h
    cases h
    exact governed _ st.market rfl rfl
  | bumpMarketSchemaVersion signer version =>
    obtain ⟨_, -, h⟩ := except_bind_ok.mp h
    obtain ⟨_, -, h⟩ := except_bind_ok.mp h
    cases h
    exact governed st.globalConfig { st.market with schemaVersion := version } rfl rfl
  | migratePosition key =>
    obtain ⟨_, -, h⟩ := except_bind_ok.mp h
    obtain ⟨_, -, h⟩ := except_bind_ok.mp h
    cases h
    exact governed st.globalConfig st.market rfl rfl
  | migrateMarket signer =>
    obtain ⟨_, -, h⟩ := except_bind_ok.mp h
    obtain ⟨_, -, h⟩ := except_bind_ok.mp h
    cases h
    exact governed st.globalConfig st.market rfl rfl
  | _ => exact .engaged (exec_engaged rfl h)

theorem ChainOp.exec_effect {token : TokenProgram} {st st' : Program} {op : ChainOp}
    (h : op.exec token st = .ok st') : Effect token st op.readsOracle op.directCall st' := by
  cases op with
  | instruction i => exact i.exec_effect h
  | advance slots =>
    cases h
    exact .outside (st.slot + slots) st.oraclePriceFeed st.tokens (Nat.le_add_right _ _) rfl rfl
  | publish feed =>
    cases h
    exact .outside st.slot feed st.tokens le_rfl rfl rfl
  | fund key account =>
    change (if key = st.market.vault ∨ key = st.market.feeVault then _ else _) = _ at h
    split_ifs at h with hkey
    cases h
    obtain ⟨hv, hf⟩ := not_or.mp hkey
    refine .outside st.slot st.oraclePriceFeed _ le_rfl ?_ ?_
    · rw [balanceOf, OrdMap.get?_insert_ne _ _ (Ne.symm hv)]
      rfl
    · rw [balanceOf, OrdMap.get?_insert_ne _ _ (Ne.symm hf)]
      rfl

theorem Effect.slot_le {token : TokenProgram} {st st' : Program} {reads : Bool}
    {o : Option DirectCall} (h : Effect token st reads o st') : st.slot ≤ st'.slot := by
  have bridged : ∀ {id remaining call st1 outcome},
      st.runBridged id remaining call = .ok (st1, outcome) → st.slot ≤ st1.slot := by
    intro id remaining call st1 outcome hr
    obtain ⟨m, rfl⟩ := Program.runBridged_subPools hr
    exact le_rfl
  cases h with
  | outside slot feed tokens hslot hv hf => exact hslot
  | engaged h =>
    cases h with
    | bridged id remaining call st' outcome hp hn h => exact bridged h
    | settled id key remaining p call st1 outcome tokens hk hs hp hc h hpay =>
      have hle := bridged h
      exact hle
    | _ => exact le_rfl
  | _ => exact le_rfl

theorem Program.Reached.induct {token : TokenProgram} {I : Program → Prop}
    (hfresh : ∀ st, Fresh st → I st)
    (hstep : ∀ st reads o st', I st → Effect token st reads o st' → I st')
    {st : Program} (h : st.Reached token) : I st := by
  obtain ⟨start, ops, hs, rfl⟩ := h
  refine Trace.run_preserves (fun op st hst => ?_) (hfresh start hs)
  unfold ChainOp.step
  cases he : op.exec token st with
  | error e => exact hst
  | ok st' => exact hstep st _ _ st' hst (ChainOp.exec_effect he)

end MoleFinance
