import MoleFinance.Keeper.RunLoop
import MoleFinance.Keeper.Executor
import MoleFinance.Keeper.Predictor

/-! One market's bot and the loop it is run in, iteration by iteration: what it asks of its
surroundings, what they answer, and how it ends. -/
namespace MoleFinance
open Decoder

variable [Borsh.Codec]

inductive ActionDispatchResult where
  | submitted (signature : Option String)
  | skipped (reason : String)
  | failed (reason : String)
deriving DecidableEq

def directionName : Direction → String
  | .long => "Long"
  | .short => "Short"

def TxBuildError.message : TxBuildError → String
  | .missingSubPool id => "snapshot is missing sub_pool " ++ toString id
  | .missingBucket id direction tick => "snapshot is missing bucket (" ++ toString id ++ ", "
      ++ directionName direction ++ ", tick=" ++ toString tick ++ ")"
  | .missingLedger id direction => "snapshot is missing ledger (" ++ toString id ++ ", "
      ++ directionName direction ++ ")"

/-- Build, then submit; what is not built is not submitted. -/
def RpcExecutor.execute (x : RpcExecutor) (submit : DispatchedAction → ActionDispatchResult)
    (action : KeeperAction) : ActionDispatchResult :=
  match x.build action with
  | .ok dispatched => submit dispatched
  | .error e => .failed e.message

inductive BotError where
  | snapshot (e : SnapshotError)
  | scheduler (e : KeeperError)
deriving DecidableEq

def isTransient : BotError → Bool
  | .snapshot (.rpc _) => true
  | .snapshot (.decode ..) | .snapshot (.marketNotFound _) | .snapshot (.subPoolNotFound ..)
  | .snapshot (.schemaVersionMismatch ..) | .snapshot .marketPaused => false
  | .scheduler _ => false

structure KeeperKeys where
  keeperPk : Pubkey32
  clockSysvar : Pubkey32
  systemProgram : Pubkey32
deriving DecidableEq

structure KeeperBot where
  runPredictor : Bool
  scheduler : Scheduler
  vol : RealizedVolatilityEstimator

/-- The rotations that the predictor expects, given the volatility so far. -/
abbrev Predictor := RealizedVolatilityEstimator → ChainSnapshot → List BucketKey

namespace KeeperBot

def recordPrices (vol : RealizedVolatilityEstimator) (snap : ChainSnapshot)
    (ctx : MarketContext) : RealizedVolatilityEstimator :=
  ctx.subPools.foldl (fun vol entry =>
    match snap.subPools.get? entry.subPoolId with
    | none => vol
    | some sp => vol.record ⟨sp.lastPrice.toNat, sp.lastSyncSlot.toNat⟩) vol

/-- Samples, hints, plan, and the plan's actions one by one; `submit` knows each by its place. -/
def tickWithSnap (predict : Predictor) (keys : KeeperKeys) (ctx : MarketContext)
    (order : HintOrder) (submit : Nat → DispatchedAction → ActionDispatchResult)
    (snap : ChainSnapshot) (bot : KeeperBot) :
    Except BotError (List (KeeperAction × ActionDispatchResult)) × KeeperBot :=
  let vol := recordPrices bot.vol snap ctx
  let scheduler := if bot.runPredictor = true then
      (predict vol snap).foldl (fun s key =>
        s.recordInitHint key.subPoolId key.direction key.tick .rotateRiskHorizon) bot.scheduler
    else bot.scheduler
  match scheduler.plan order snap.view with
  | .error e => (.error (.scheduler e), { bot with vol := vol, scheduler := scheduler })
  | .ok (actions, scheduler) =>
    let exec := RpcExecutor.new ctx.programId ctx.market keys.keeperPk keys.clockSysvar
      keys.systemProgram snap
    (.ok (actions.mapIdx fun n action => (action, exec.execute (submit n) action)),
      { bot with vol := vol, scheduler := scheduler })

end KeeperBot

def snapshotBestSlot (snap : ChainSnapshot) : Option Nat :=
  (snap.subPools.values.map fun sp => sp.lastSyncSlot.toNat).max?

/-- What a leader instruction says, before it is encoded. -/
inductive LeaderArgs where
  | heartbeat (observedSlot : Nat)
  | release
deriving DecidableEq

structure LeaderInstruction where
  programId : Pubkey32
  args : LeaderArgs
  accounts : List AccountMeta
deriving DecidableEq

def buildKeeperLeaderHeartbeat (programId market lockPda keeper : Pubkey32)
    (observedSlot : Nat) : LeaderInstruction :=
  ⟨programId, .heartbeat observedSlot, [.readonly market, .writable lockPda,
    .signerWritable keeper]⟩

def buildKeeperLeaderRelease (programId market lockPda keeper : Pubkey32) : LeaderInstruction :=
  ⟨programId, .release, [.readonly market, .writable lockPda, .signerWritable keeper]⟩

/-- What one market is answered in one iteration, each question apart from the others. -/
structure SlotAnswers where
  refresh : Except SnapshotError ChainSnapshot
  fetchLock : Except LeaderReconcileError KeeperLeaderLock
  submitLeaderIx : Except String (Option String)
  submit : Nat → DispatchedAction → ActionDispatchResult
  order : HintOrder

inductive LoopEvent where
  | reconcile (lockPda : Pubkey32) (fetched : Except LeaderReconcileError KeeperLeaderLock)
  | gate (currentSlot : Nat) (shouldSubmit : Bool)
  | leaderIx (ix : LeaderInstruction) (answer : Except String (Option String))
  | dispatched (actions : List (KeeperAction × ActionDispatchResult))

structure LoopOutcome where
  reason : LoopTerminationReason
  ticks : Nat
  error : Option BotError
deriving DecidableEq

/-- Only the last leader hands its lock back, and only if it was told to. -/
def tryGracefulRelease (cfg : LeaderRpcReconcileConfig) (lockPda : Pubkey32)
    (answer : Except String (Option String)) (programId market keeperPk : Pubkey32)
    (wasLeaderLastTick : Bool) : List LoopEvent :=
  if cfg.releaseOnShutdown = false then []
  else if wasLeaderLastTick = false then []
  else [.leaderIx (buildKeeperLeaderRelease programId market lockPda keeperPk) answer]

structure LoopConfig where
  ctx : MarketContext
  rpcCfg : LeaderRpcReconcileConfig
  lockPda : Pubkey32
  keys : KeeperKeys

structure LoopVars where
  bot : KeeperBot
  policy : HostMirrorLeaderPolicy
  ticks : Nat
  lastReconcileTick : Option Nat
  lastHeartbeatTick : Option Nat
  wasLeaderLastTick : Bool

namespace LoopVars

def start (bot : KeeperBot) (policy : HostMirrorLeaderPolicy) : LoopVars :=
  ⟨bot, policy, 0, none, none, false⟩

/-- A lock that is not there waits for the next cadence, a failed fetch for the next tick. -/
def reconcileMirror (cfg : LoopConfig) (answers : SlotAnswers) (vars : LoopVars) :
    List LoopEvent × LoopVars :=
  match cfg.rpcCfg.reconcileEvery with
  | none => ([], vars)
  | some every =>
    if cadenceDue vars.lastReconcileTick every vars.ticks = true then
      ([.reconcile cfg.lockPda answers.fetchLock],
        match answers.fetchLock with
        | .ok chainLock => { vars with
            policy := vars.policy.reconcile chainLock
            lastReconcileTick := some vars.ticks }
        | .error (.notFound _) => { vars with lastReconcileTick := some vars.ticks }
        | .error _ => vars)
    else ([], vars)

def publishHeartbeat (cfg : LoopConfig) (answers : SlotAnswers) (currentSlot : Nat)
    (vars : LoopVars) : List LoopEvent × LoopVars :=
  match cfg.rpcCfg.heartbeatEvery with
  | none => ([], vars)
  | some every =>
    if (!vars.wasLeaderLastTick || cadenceDue vars.lastHeartbeatTick every vars.ticks) = true then
      ([.leaderIx (buildKeeperLeaderHeartbeat cfg.ctx.programId cfg.ctx.market cfg.lockPda
          cfg.keys.keeperPk currentSlot) answers.submitLeaderIx],
        match answers.submitLeaderIx with
        | .ok _ => { vars with lastHeartbeatTick := some vars.ticks }
        | .error _ => vars)
    else ([], vars)

/-- A planner's error is permanent, whatever became of the actions is not. -/
def dispatch (predict : Predictor) (cfg : LoopConfig) (answers : SlotAnswers)
    (snap : ChainSnapshot) (vars : LoopVars) : List LoopEvent × Option LoopOutcome × LoopVars :=
  let ticked := vars.bot.tickWithSnap predict cfg.keys cfg.ctx answers.order
    answers.submit snap
  match ticked.1 with
  | .ok dispatched =>
    ([.dispatched dispatched], none, { vars with bot := ticked.2, ticks := vars.ticks + 1 })
  | .error e =>
    ([], some ⟨.permanentError, vars.ticks, some e⟩, { vars with bot := ticked.2 })

def tickAt (predict : Predictor) (cfg : LoopConfig) (answers : SlotAnswers)
    (snap : ChainSnapshot) (vars : LoopVars) : List LoopEvent × Option LoopOutcome × LoopVars :=
  let currentSlot := (snapshotBestSlot snap).getD 0
  let asked := vars.policy.shouldSubmit currentSlot
  let vars := { vars with policy := asked.2 }
  if asked.1 = false then
    ([.gate currentSlot false], none,
      { vars with wasLeaderLastTick := false, ticks := vars.ticks + 1 })
  else
    let beat := vars.publishHeartbeat cfg answers currentSlot
    let ticked := { beat.2 with wasLeaderLastTick := true }.dispatch predict cfg answers snap
    (.gate currentSlot true :: beat.1 ++ ticked.1, ticked.2)

/-- One time around the loop: its events, how it ends if it does, and its variables. -/
def iterate (predict : Predictor) (cfg : LoopConfig) (maxTicks : Option Nat)
    (shutdown : Bool) (answers : SlotAnswers) (vars : LoopVars) :
    List LoopEvent × Option LoopOutcome × LoopVars :=
  if shutdown = true then
    (tryGracefulRelease cfg.rpcCfg cfg.lockPda answers.submitLeaderIx cfg.ctx.programId
      cfg.ctx.market cfg.keys.keeperPk vars.wasLeaderLastTick,
      some ⟨.shutdownSignal, vars.ticks, none⟩, vars)
  else if maxTicks.any (· ≤ vars.ticks) = true then
    ([], some ⟨.tickLimitReached, vars.ticks, none⟩, vars)
  else match answers.refresh with
    | .error e =>
      if isTransient (.snapshot e) = true then ([], none, vars)
      else ([], some ⟨.permanentError, vars.ticks, some (.snapshot e)⟩, vars)
    | .ok snap =>
      let mirrored := vars.reconcileMirror cfg answers
      let ticked := mirrored.2.tickAt predict cfg answers snap
      (mirrored.1 ++ ticked.1, ticked.2)

variable {predict : Predictor} {cfg : LoopConfig} {answers : SlotAnswers} {vars : LoopVars}

omit [Borsh.Codec] in
theorem reconcileMirror_ticks : (vars.reconcileMirror cfg answers).2.ticks = vars.ticks := by
  unfold reconcileMirror
  split
  · rfl
  · split_ifs
    · cases answers.fetchLock with
      | ok chainLock => rfl
      | error e => cases e <;> rfl
    · rfl

omit [Borsh.Codec] in
theorem publishHeartbeat_ticks {currentSlot : Nat} :
    (vars.publishHeartbeat cfg answers currentSlot).2.ticks = vars.ticks := by
  unfold publishHeartbeat
  split
  · rfl
  · split_ifs
    · cases answers.submitLeaderIx <;> rfl
    · rfl

theorem tickAt_ticks {snap : ChainSnapshot} :
    ((vars.tickAt predict cfg answers snap).2.1 = none →
      (vars.tickAt predict cfg answers snap).2.2.ticks = vars.ticks + 1) ∧
    ∀ outcome, (vars.tickAt predict cfg answers snap).2.1 = some outcome →
      outcome.reason = .permanentError ∧ outcome.ticks = vars.ticks := by
  unfold tickAt
  generalize (snapshotBestSlot snap).getD 0 = currentSlot
  simp only
  split_ifs
  · exact ⟨fun _ => rfl, by simp⟩
  · unfold dispatch
    simp only [publishHeartbeat_ticks]
    split
    · exact ⟨fun _ => rfl, by simp⟩
    · refine ⟨by simp, ?_⟩
      rintro outcome ⟨⟩
      exact ⟨rfl, rfl⟩

theorem iterate_continues
    (h : (vars.iterate predict cfg none false answers).2.1 = none) :
    vars.iterate predict cfg none false answers = ([], none, vars) ∨
      (vars.iterate predict cfg none false answers).2.2.ticks = vars.ticks + 1 := by
  unfold iterate at h ⊢
  simp only [Bool.false_eq_true, if_false, Option.any_none] at h ⊢
  cases hrefresh : answers.refresh with
  | error e =>
    rw [hrefresh] at h
    simp only at h ⊢
    split_ifs at h ⊢
    exact .inl rfl
  | ok snap =>
    rw [hrefresh] at h
    right
    have hticks := tickAt_ticks.1 h
    rw [reconcileMirror_ticks] at hticks
    exact hticks

theorem iterate_stops {outcome : LoopOutcome}
    (h : (vars.iterate predict cfg none false answers).2.1 = some outcome) :
    outcome.reason = .permanentError ∧ outcome.ticks = vars.ticks := by
  unfold iterate at h
  simp only [Bool.false_eq_true, if_false, Option.any_none] at h
  cases hrefresh : answers.refresh with
  | error e =>
    rw [hrefresh] at h
    simp only at h
    split_ifs at h
    cases h
    exact ⟨rfl, rfl⟩
  | ok snap =>
    rw [hrefresh] at h
    have hticks := tickAt_ticks.2 outcome h
    rw [reconcileMirror_ticks] at hticks
    exact hticks

theorem iterate_shutdown (maxTicks : Option Nat) :
    vars.iterate predict cfg maxTicks true answers
      = (tryGracefulRelease cfg.rpcCfg cfg.lockPda answers.submitLeaderIx cfg.ctx.programId
          cfg.ctx.market cfg.keys.keeperPk vars.wasLeaderLastTick,
          some ⟨.shutdownSignal, vars.ticks, none⟩, vars) := if_pos rfl

theorem iterate_limit {limit : Nat} (h : limit ≤ vars.ticks) :
    vars.iterate predict cfg (some limit) false answers
      = ([], some ⟨.tickLimitReached, vars.ticks, none⟩, vars) := by
  unfold iterate
  rw [if_neg Bool.false_ne_true, if_pos (by simpa using h)]

theorem iterate_below {limit : Nat} (h : vars.ticks < limit) :
    vars.iterate predict cfg (some limit) false answers
      = vars.iterate predict cfg none false answers := by
  unfold iterate
  rw [if_neg Bool.false_ne_true, if_neg (by simpa using h), if_neg Bool.false_ne_true,
    if_neg (by simp)]

end LoopVars

/-- `run_loop_with_leader_and_rpc_reconcile` on as many iterations as the inputs last; without an
    outcome it is still running. -/
def runLoopWithLeaderAndRpcReconcile (predict : Predictor) (cfg : LoopConfig)
    (maxTicks : Option Nat) : List (Bool × SlotAnswers) → LoopVars →
    List LoopEvent × Option LoopOutcome × LoopVars
  | [], vars => ([], none, vars)
  | (shutdown, answers) :: inputs, vars =>
    let now := vars.iterate predict cfg maxTicks shutdown answers
    match now.2.1 with
    | some outcome => (now.1, some outcome, now.2.2)
    | none =>
      let later := runLoopWithLeaderAndRpcReconcile predict cfg maxTicks inputs now.2.2
      (now.1 ++ later.1, later.2)

section RunLoop
variable {predict : Predictor} {cfg : LoopConfig} {maxTicks : Option Nat} {shutdown : Bool}
  {answers : SlotAnswers} {inputs : List (Bool × SlotAnswers)} {vars vars' : LoopVars}
  {events : List LoopEvent}

theorem runLoop_stops {outcome : LoopOutcome}
    (h : vars.iterate predict cfg maxTicks shutdown answers = (events, some outcome, vars')) :
    runLoopWithLeaderAndRpcReconcile predict cfg maxTicks ((shutdown, answers) :: inputs) vars
      = (events, some outcome, vars') := by
  unfold runLoopWithLeaderAndRpcReconcile
  simp only [h]

theorem runLoop_continues
    (h : vars.iterate predict cfg maxTicks shutdown answers = (events, none, vars')) :
    runLoopWithLeaderAndRpcReconcile predict cfg maxTicks ((shutdown, answers) :: inputs) vars
      = (events ++ (runLoopWithLeaderAndRpcReconcile predict cfg maxTicks inputs vars').1,
          (runLoopWithLeaderAndRpcReconcile predict cfg maxTicks inputs vars').2) := by
  rw [runLoopWithLeaderAndRpcReconcile]
  simp only [h]

end RunLoop

end MoleFinance
