import MoleFinance.Chain.Effect

/-! The schema version of a market: who can change it, and which versions the engine serves. -/
namespace MoleFinance
open MoleMath Call Trace

/-- Every entrypoint of the engine turns the market away, whatever else it is asked. -/
def MarketParams.Refused (m : MarketParams) : Prop :=
  ∀ sp : SubPool, (∀ call : BridgedCall, call.run m sp = .error .schemaVersionMismatch) ∧
    (∀ envelope d gross id,
      openPosition m sp envelope d gross id = .error .schemaVersionMismatch) ∧
    ∀ d, harvestDust m sp d = .error .schemaVersionMismatch

theorem assertSchemaVersion_bind {α : Type} {found : Nat} (h : found ≠ schemaVersionCurrent)
    (next : Unit → Except ClearingError α) :
    (assertSchemaVersion found >>= next) = .error .schemaVersionMismatch := by
  unfold assertSchemaVersion
  rw [ensure_not h]
  rfl

section Refused
variable {m : MarketParams}

theorem refused_of_version (h : m.schemaVersion ≠ schemaVersionCurrent) : m.Refused := by
  intro sp
  refine ⟨fun call => ?_, fun envelope d gross id => ?_, fun d => ?_⟩
  · cases call with
    | sync e =>
      have hsync : syncPool m sp e = .error .schemaVersionMismatch := by
        unfold syncPool syncGuards
        rw [assertSchemaVersion_bind h]
        rfl
      change (syncPool m sp e).bind _ = _
      rw [hsync]
      rfl
    | close e p =>
      have hclose : closePosition m sp e p = .error .schemaVersionMismatch :=
        assertSchemaVersion_bind h _
      change (closePosition m sp e p).bind _ = _
      rw [hclose]
      rfl
    | forceClose e p ack =>
      have hclose : forceCloseZeroValuePosition m sp e p ack = .error .schemaVersionMismatch :=
        assertSchemaVersion_bind h _
      change (forceCloseZeroValuePosition m sp e p ack).bind _ = _
      rw [hclose]
      rfl
    | claim e p =>
      have hclaim : claimDormantRecovery m sp e p = .error .schemaVersionMismatch :=
        assertSchemaVersion_bind h _
      change (claimDormantRecovery m sp e p).bind _ = _
      rw [hclaim]
      rfl
    | preSync d tick slot =>
      have hsync : preSyncDormantBucket m sp d tick slot = .error .schemaVersionMismatch :=
        assertSchemaVersion_bind h _
      change (preSyncDormantBucket m sp d tick slot).bind _ = _
      rw [hsync]
      rfl
  · exact assertSchemaVersion_bind h _
  · exact assertSchemaVersion_bind h _

theorem refused_iff : m.Refused ↔ m.schemaVersion ≠ schemaVersionCurrent := by
  refine ⟨fun h hv => ?_, refused_of_version⟩
  have hsync := (h (.new 0 0 0)).1 (.sync ⟨0, 0, 0, 0, by decide⟩)
  unfold BridgedCall.run syncPool syncGuards assertSchemaVersion at hsync
  rw [ensure_of hv] at hsync
  cases hp : m.paused with
  | true =>
    rw [hp] at hsync
    cases hsync
  | false =>
    rw [hp] at hsync
    cases hsync

end Refused

namespace Program

def epoch (st : Program) : Nat × Pubkey := (st.market.schemaVersion, st.globalConfig.adminAuthority)

theorem epoch_modifySubPool (st : Program) (id : Nat) (f : SubPoolState → SubPoolState) :
    (st.modifySubPool id f).epoch = st.epoch := by
  unfold modifySubPool
  split
  · rfl
  · rfl

theorem emergency_epoch {st st' : Program} {signer : Pubkey} {f : Market → Market}
    (hf : ∀ m : Market, (f m).schemaVersion = m.schemaVersion)
    (h : st.emergency signer f = .ok st') : st'.epoch = st.epoch := by
  rw [emergency_ok h]
  exact congrArg (·, st.globalConfig.adminAuthority) (hf st.market)

theorem initializeSubPool_epoch {st st' : Program} {id : Nat}
    (h : st.initializeSubPool id = .ok st') : st'.epoch = st.epoch := by
  obtain ⟨_, -, h⟩ := except_bind_ok.mp h
  obtain ⟨_, -, h⟩ := except_bind_ok.mp h
  cases h
  rfl

theorem initializeDistributionLedger_epoch {st st' : Program} {id : Nat} {isLong : Bool}
    (h : st.initializeDistributionLedger id isLong = .ok st') : st'.epoch = st.epoch := by
  obtain ⟨s, -, h⟩ := except_bind_ok.mp h
  obtain ⟨_, -, h⟩ := except_bind_ok.mp h
  cases h
  exact epoch_modifySubPool _ _ _

theorem initializeDormantBucket_epoch {st st' : Program} {id : Nat} {isLong : Bool} {tick : Int}
    (h : st.initializeDormantBucket id isLong tick = .ok st') : st'.epoch = st.epoch := by
  obtain ⟨s, -, h⟩ := except_bind_ok.mp h
  obtain ⟨_, -, h⟩ := except_bind_ok.mp h
  cases h
  exact epoch_modifySubPool _ _ _

theorem closeDormantBucket_epoch {st st' : Program} {seeds : BucketSeeds}
    (h : st.closeDormantBucket seeds = .ok st') : st'.epoch = st.epoch := by
  obtain ⟨s, -, h⟩ := except_bind_ok.mp h
  obtain ⟨b, -, h⟩ := except_bind_ok.mp h
  obtain ⟨_, -, h⟩ := except_bind_ok.mp h
  obtain ⟨ledger, -, h⟩ := except_bind_ok.mp h
  obtain ⟨_, -, h⟩ := except_bind_ok.mp h
  obtain ⟨_, -, h⟩ := except_bind_ok.mp h
  cases h
  exact epoch_modifySubPool _ _ _

theorem bumpMarketSchemaVersion_ok {st st' : Program} {signer : Pubkey} {version : Nat} :
    st.bumpMarketSchemaVersion signer version = .ok st' ↔
      signer = st.globalConfig.adminAuthority ∧ st.market.schemaVersion < version ∧
        st' = { st with market := { st.market with schemaVersion := version } } := by
  constructor
  · intro h
    obtain ⟨_, hsigner, h⟩ := except_bind_ok.mp h
    obtain ⟨_, hversion, h⟩ := except_bind_ok.mp h
    cases h
    exact ⟨ensure_ok.mp hsigner, ensure_ok.mp hversion, rfl⟩
  · rintro ⟨hsigner, hversion, rfl⟩
    unfold bumpMarketSchemaVersion
    rw [ensure_of hsigner, ensure_of hversion]
    rfl

theorem migrateMarket_ok {st st' : Program} {signer : Pubkey}
    (h : st.migrateMarket signer = .ok st') :
    st' = st ∧ schemaVersionCurrent < st.market.schemaVersion := by
  obtain ⟨_, -, h⟩ := except_bind_ok.mp h
  obtain ⟨_, hm, h⟩ := except_bind_ok.mp h
  obtain ⟨_, hne, hle⟩ := except_bind_ok.mp hm
  cases h
  have hne := ensure_ok.mp hne
  have hle := ensure_ok.mp hle
  exact ⟨rfl, by omega⟩

end Program

theorem EngineEffect.epoch_eq {token : TokenProgram} {st st' : Program} {reads : Bool}
    {o : Option DirectCall} (h : EngineEffect token st reads o st') : st'.epoch = st.epoch := by
  cases h with
  | bridged id remaining call st' outcome hp hn h =>
    obtain ⟨m, rfl⟩ := Program.runBridged_subPools h
    rfl
  | settled id key remaining p call st1 outcome tokens hk hs hp hc h hpay =>
    obtain ⟨m, rfl⟩ := Program.runBridged_subPools h
    rfl
  | opened id owner wallet params s view pos out tokens hs hk h hpay => rfl
  | harvested id d s view out tokens hs h hpay => rfl

theorem Instruction.exec_epoch {token : TokenProgram} {st st' : Program} {i : Instruction}
    (h : i.exec token st = .ok st') : st'.epoch = st.epoch ∨
      ∃ version, i = .bumpMarketSchemaVersion st.globalConfig.adminAuthority version ∧
        st.market.schemaVersion < version ∧
        st'.epoch = (version, st.globalConfig.adminAuthority) := by
  cases i with
  | initializeMarketVaults signer =>
    obtain ⟨tokens, rfl, -⟩ := Program.initializeMarketVaults_ok h
    exact .inl rfl
  | initializeSubPool id => exact .inl (Program.initializeSubPool_epoch h)
  | initializeDistributionLedger id isLong =>
    exact .inl (Program.initializeDistributionLedger_epoch h)
  | initializeDormantBucket id isLong tick => exact .inl (Program.initializeDormantBucket_epoch h)
  | closeDormantBucket seeds => exact .inl (Program.closeDormantBucket_epoch h)
  | pauseMarket signer =>
    exact .inl (Program.emergency_epoch (f := ({ · with paused := true })) (fun _ => rfl) h)
  | resumeMarket signer =>
    exact .inl (Program.emergency_epoch (f := ({ · with paused := false })) (fun _ => rfl) h)
  | freezeNewPosition signer =>
    exact .inl (Program.emergency_epoch (f := ({ · with frozenNewPosition := true }))
      (fun _ => rfl) h)
  | unfreezeNewPosition signer =>
    exact .inl (Program.emergency_epoch (f := ({ · with frozenNewPosition := false }))
      (fun _ => rfl) h)
  | setGloballyPaused signer paused =>
    obtain ⟨_, -, h⟩ := except_bind_ok.mp h
    cases h
    exact .inl rfl
  | bumpMarketSchemaVersion signer version =>
    obtain ⟨rfl, hversion, rfl⟩ := Program.bumpMarketSchemaVersion_ok.mp h
    exact .inr ⟨version, rfl, hversion, rfl⟩
  | migratePosition key =>
    obtain ⟨_, -, h⟩ := except_bind_ok.mp h
    obtain ⟨_, -, h⟩ := except_bind_ok.mp h
    cases h
    exact .inl rfl
  | migrateMarket signer =>
    obtain ⟨rfl, -⟩ := Program.migrateMarket_ok h
    exact .inl rfl
  | _ => exact .inl (Instruction.exec_engaged rfl h).epoch_eq

namespace ChainOp

/-- A bump that the admin signs and that goes past the version of this build. -/
def Outruns (admin : Pubkey) (op : ChainOp) : Prop :=
  ∃ version, op = .instruction (.bumpMarketSchemaVersion admin version) ∧
    schemaVersionCurrent < version

theorem step_epoch {token : TokenProgram} (op : ChainOp) (st : Program) :
    (op.step token st).2.epoch = st.epoch ∨
      ∃ version,
        op = .instruction (.bumpMarketSchemaVersion st.globalConfig.adminAuthority version) ∧
        st.market.schemaVersion < version ∧
        (op.step token st).2.epoch = (version, st.globalConfig.adminAuthority) := by
  unfold step
  cases he : op.exec token st with
  | error e => exact .inl rfl
  | ok st' =>
    cases op with
    | instruction i =>
      cases i.exec_epoch he with
      | inl h => exact .inl h
      | inr h =>
        obtain ⟨version, rfl, hversion, hepoch⟩ := h
        exact .inr ⟨version, rfl, hversion, hepoch⟩
    | advance slots =>
      cases he
      exact .inl rfl
    | publish feed =>
      cases he
      exact .inl rfl
    | fund key account =>
      change (if key = st.market.vault ∨ key = st.market.feeVault then _ else _) = _ at he
      split_ifs at he with hkey
      cases he
      exact .inl rfl

theorem step_outruns {token : TokenProgram} {op : ChainOp} {st : Program}
    (h : op.Outruns st.globalConfig.adminAuthority)
    (hv : st.market.schemaVersion = schemaVersionCurrent) :
    schemaVersionCurrent < (op.step token st).2.market.schemaVersion := by
  obtain ⟨version, rfl, hversion⟩ := h
  have hok : (ChainOp.instruction
      (.bumpMarketSchemaVersion st.globalConfig.adminAuthority version)).exec token st
        = .ok { st with market := { st.market with schemaVersion := version } } :=
    Program.bumpMarketSchemaVersion_ok.mpr ⟨rfl, hv ▸ hversion, rfl⟩
  unfold step
  rw [hok]
  exact hversion

end ChainOp

namespace Program

/-- The engine takes the market, or `migrate_market` makes it one that it takes. -/
def Maintainable (st : Program) : Prop :=
  st.market.schemaVersion = schemaVersionCurrent ∨
    ∃ signer st', st.migrateMarket signer = .ok st' ∧
      st'.market.schemaVersion = schemaVersionCurrent

/-- Every entrypoint refuses the market, and nothing that can happen changes that. -/
def Stranded (token : TokenProgram) (st : Program) : Prop :=
  ∀ ops, (marketParamsFrom (run (ChainOp.step token) ops st).2.market).Refused

/-- The admin stays, and the version never falls behind the build. -/
structure Governed (admin : Pubkey) (st : Program) : Prop where
  admin_eq : st.globalConfig.adminAuthority = admin
  le_version : schemaVersionCurrent ≤ st.market.schemaVersion

theorem Governed.step {token : TokenProgram} {admin : Pubkey} {st : Program} (op : ChainOp)
    (h : st.Governed admin) : (op.step token st).2.Governed admin := by
  have hle := h.le_version
  cases op.step_epoch st with
  | inl he =>
    have hadmin := congrArg Prod.snd he
    have hversion := congrArg Prod.fst he
    exact ⟨hadmin.trans h.admin_eq, hle.trans_eq hversion.symm⟩
  | inr he =>
    obtain ⟨version, -, hlt, he⟩ := he
    have hadmin := congrArg Prod.snd he
    have hversion := congrArg Prod.fst he
    exact ⟨hadmin.trans h.admin_eq, (hle.trans hlt.le).trans_eq hversion.symm⟩

section Governed
variable {token : TokenProgram} {admin : Pubkey} {st : Program}

theorem Governed.served_step {op : ChainOp} (h : st.Governed admin)
    (hv : st.market.schemaVersion = schemaVersionCurrent) : ¬ op.Outruns admin ↔
      (op.step token st).2.market.schemaVersion = schemaVersionCurrent := by
  refine ⟨fun hop => ?_, fun hnext hop => ?_⟩
  · cases op.step_epoch st with
    | inl he => exact (congrArg Prod.fst he).trans hv
    | inr he =>
      obtain ⟨version, hbump, hlt, -⟩ := he
      rw [h.admin_eq] at hbump
      exact absurd ⟨version, hbump, hv ▸ hlt⟩ hop
  · rw [← h.admin_eq] at hop
    exact absurd hnext (ChainOp.step_outruns hop hv).ne'

theorem ahead_run (ops : List ChainOp) (h : schemaVersionCurrent < st.market.schemaVersion) :
    schemaVersionCurrent < (run (ChainOp.step token) ops st).2.market.schemaVersion := by
  refine run_preserves (I := fun st : Program => schemaVersionCurrent < st.market.schemaVersion)
    (fun op st hst => ?_) h
  cases op.step_epoch st with
  | inl he =>
    have hversion : (op.step token st).2.market.schemaVersion = st.market.schemaVersion :=
      congrArg Prod.fst he
    rwa [hversion]
  | inr he =>
    obtain ⟨version, -, hlt, he⟩ := he
    have hversion : (op.step token st).2.market.schemaVersion = version := congrArg Prod.fst he
    exact (hst.trans hlt).trans_eq hversion.symm

theorem not_maintainable (h : st.market.schemaVersion ≠ schemaVersionCurrent) :
    ¬ st.Maintainable := by
  rintro (hv | ⟨signer, st', hm, hv⟩)
  · exact h hv
  · obtain ⟨rfl, -⟩ := migrateMarket_ok hm
    exact h hv

theorem maintained_iff :
    (st.Maintainable ∧ ¬ st.Stranded token) ↔
      st.market.schemaVersion = schemaVersionCurrent := by
  constructor
  · rintro ⟨hm, -⟩
    by_contra hv
    exact not_maintainable hv hm
  · intro hv
    exact ⟨.inl hv, fun hs => refused_iff.mp (hs []) hv⟩

theorem Governed.stranded (h : st.Governed admin)
    (hv : st.market.schemaVersion ≠ schemaVersionCurrent) : st.Stranded token := by
  have hahead : schemaVersionCurrent < st.market.schemaVersion :=
    lt_of_le_of_ne h.le_version hv.symm
  exact fun ops => refused_of_version (ahead_run ops hahead).ne'

end Governed
end Program

/-- A market that this build serves stays maintainable, and is not stranded, in every state of a
    run exactly if the run has no bump by the admin to a later version. -/
theorem schema_maintained_iff (token : TokenProgram) (ops : List ChainOp) (start : Program)
    (h : start.market.schemaVersion = schemaVersionCurrent) :
    (∀ before after, ops = before ++ after →
      (run (ChainOp.step token) before start).2.Maintainable ∧
        ¬ (run (ChainOp.step token) before start).2.Stranded token) ↔
      ∀ op ∈ ops, ¬ op.Outruns start.globalConfig.adminAuthority := by
  let admin := start.globalConfig.adminAuthority
  have hstart : start.Governed admin := ⟨rfl, h.ge⟩
  have hstates : AlongRun (ChainOp.step token) (fun op _ => ¬ op.Outruns admin) ops start ↔ _ :=
    alongRun_iff_states
      (I := fun st : Program => st.Governed admin ∧ st.market.schemaVersion = schemaVersionCurrent)
      (fun op st hst => (hst.1.served_step hst.2).trans
        ⟨fun hv => ⟨hst.1.step op, hv⟩, And.right⟩) ⟨hstart, h⟩
  rw [← alongRun_forall, hstates]
  refine forall_congr' fun before => forall_congr' fun after => forall_congr' fun _ => ?_
  have hgoverned : (run (ChainOp.step token) before start).2.Governed admin :=
    run_preserves (fun op _ hst => hst.step op) hstart
  rw [Program.maintained_iff]
  exact ⟨fun hv => ⟨hgoverned, hv⟩, And.right⟩

/-- A bump by a stranger is refused, a migration has nothing to do. -/
theorem strangerBump_maintained :
    (run (ChainOp.step splToken) [.instruction (.bumpMarketSchemaVersion 9 2),
        .instruction (.migrateMarket 1)] (smallProgram 0)).2.Maintainable ∧
      ¬ (run (ChainOp.step splToken) [.instruction (.bumpMarketSchemaVersion 9 2),
        .instruction (.migrateMarket 1)] (smallProgram 0)).2.Stranded splToken := by
  refine (schema_maintained_iff splToken [.instruction (.bumpMarketSchemaVersion 9 2),
    .instruction (.migrateMarket 1)] (smallProgram 0) rfl).mpr (fun op hop => ?_) _ []
    (List.append_nil _).symm
  intro ⟨version, hbump, hversion⟩
  subst hbump
  simp only [List.mem_cons, List.not_mem_nil, or_false] at hop
  cases hop with
  | inl hop => cases hop
  | inr hop => cases hop

/-- The admin bumps to 2: the bump succeeds, so does a migration after it, and the market is
    lost. -/
theorem adminBump_strands :
    ¬ (∀ (ops : List ChainOp) (start : Program),
      start.market.schemaVersion = schemaVersionCurrent →
      (run (ChainOp.step splToken) ops start).2.Maintainable ∧
        ¬ (run (ChainOp.step splToken) ops start).2.Stranded splToken) ∧
    (chainRun 0 [.instruction (.bumpMarketSchemaVersion 1 2), .instruction (.migrateMarket 1)]).1
      = [none, none] ∧
    (chainRun 0 [.instruction (.bumpMarketSchemaVersion 1 2),
      .instruction (.migrateMarket 1)]).2.Stranded splToken := by
  have hstart : (smallProgram 0).Governed 1 := ⟨by decide +kernel, le_rfl⟩
  have hgoverned : (chainRun 0 [.instruction (.bumpMarketSchemaVersion 1 2),
      .instruction (.migrateMarket 1)]).2.Governed 1 :=
    run_preserves (fun op _ hst => hst.step op) hstart
  have hversion : (chainRun 0 [.instruction (.bumpMarketSchemaVersion 1 2),
      .instruction (.migrateMarket 1)]).2.market.schemaVersion ≠ schemaVersionCurrent := by
    decide +kernel
  exact ⟨fun hall => Program.not_maintainable hversion (hall _ (smallProgram 0) rfl).1,
    by decide +kernel, hgoverned.stranded hversion⟩

end MoleFinance
