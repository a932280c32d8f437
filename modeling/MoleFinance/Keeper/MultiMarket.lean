import MoleFinance.Keeper.Bot

/-! Several markets in one loop: what each of them sees is what it sees in a loop of its own. -/
namespace MoleFinance
open Decoder

section Codec
variable [Borsh.Codec]

/-- The book-keeping of one market; production starts it from its default. -/
structure MarketSlotState where
  ticks : Nat := 0
  lastReconcileTick : Option Nat := none
  lastHeartbeatTick : Option Nat := none
  wasLeaderLastTick : Bool := false
  /-- the slot is retired -/
  finished : Option LoopOutcome := none

structure MarketSlot where
  label : String
  ctx : MarketContext
  rpcCfg : LeaderRpcReconcileConfig
  lockPda : Pubkey32
  bot : KeeperBot
  policy : HostMirrorLeaderPolicy
  state : MarketSlotState

namespace MarketSlot

def withState (slot : MarketSlot) (f : MarketSlotState → MarketSlotState) : MarketSlot :=
  { slot with state := f slot.state }

def reconcileCadence (answers : SlotAnswers) (ticks : Nat) (slot : MarketSlot) :
    List LoopEvent × MarketSlot :=
  match slot.rpcCfg.reconcileEvery with
  | none => ([], slot)
  | some every =>
    if cadenceDue slot.state.lastReconcileTick every ticks = true then
      ([.reconcile slot.lockPda answers.fetchLock],
        match answers.fetchLock with
        | .ok chainLock =>
          { slot with policy := slot.policy.reconcile chainLock }.withState fun s =>
            { s with lastReconcileTick := some ticks }
        | .error (.notFound _) =>
          slot.withState fun s => { s with lastReconcileTick := some ticks }
        | .error _ => slot)
    else ([], slot)

def heartbeatCadence (keys : KeeperKeys) (answers : SlotAnswers) (ticks currentSlot : Nat)
    (slot : MarketSlot) : List LoopEvent × MarketSlot :=
  match slot.rpcCfg.heartbeatEvery with
  | none => ([], slot)
  | some every =>
    let justBecameLeader := !slot.state.wasLeaderLastTick
    if (justBecameLeader || cadenceDue slot.state.lastHeartbeatTick every ticks) = true then
      ([.leaderIx (buildKeeperLeaderHeartbeat slot.ctx.programId slot.ctx.market slot.lockPda
          keys.keeperPk currentSlot) answers.submitLeaderIx],
        match answers.submitLeaderIx with
        | .ok _ => slot.withState fun s => { s with lastHeartbeatTick := some ticks }
        | .error _ => slot)
    else ([], slot)

def tickBot (predict : Predictor) (keys : KeeperKeys) (answers : SlotAnswers) (ticks : Nat)
    (snap : ChainSnapshot) (slot : MarketSlot) : List LoopEvent × Option LoopOutcome × MarketSlot :=
  let ticked := slot.bot.tickWithSnap predict keys slot.ctx answers.order answers.submit snap
  let slot := { slot with bot := ticked.2 }
  match ticked.1 with
  | .ok dispatched =>
    ([.dispatched dispatched], none, slot.withState fun s => { s with ticks := s.ticks + 1 })
  | .error e => ([], some ⟨.permanentError, ticks, some e⟩, slot)

def passGate (predict : Predictor) (keys : KeeperKeys) (answers : SlotAnswers) (ticks : Nat)
    (snap : ChainSnapshot) (slot : MarketSlot) : List LoopEvent × Option LoopOutcome × MarketSlot :=
  let currentSlot := (snapshotBestSlot snap).getD 0
  let shouldSubmit := (slot.policy.shouldSubmit currentSlot).1
  let slot := { slot with policy := (slot.policy.shouldSubmit currentSlot).2 }
  if !shouldSubmit then
    ([.gate currentSlot shouldSubmit], none, slot.withState fun s =>
      { s with wasLeaderLastTick := false, ticks := s.ticks + 1 })
  else
    let beat := slot.heartbeatCadence keys answers ticks currentSlot
    let slot := beat.2.withState fun s => { s with wasLeaderLastTick := true }
    let ticked := slot.tickBot predict keys answers ticks snap
    (.gate currentSlot shouldSubmit :: beat.1 ++ ticked.1, ticked.2)

def tickOneSlot (predict : Predictor) (keys : KeeperKeys) (answers : SlotAnswers)
    (slot : MarketSlot) : List LoopEvent × Option LoopOutcome × MarketSlot :=
  let ticks := slot.state.ticks
  match answers.refresh with
  | .error e =>
    let botErr := BotError.snapshot e
    if isTransient botErr = true then ([], none, slot)
    else ([], some ⟨.permanentError, ticks, some botErr⟩, slot)
  | .ok snap =>
    let mirrored := slot.reconcileCadence answers ticks
    let ticked := mirrored.2.passGate predict keys answers ticks snap
    (mirrored.1 ++ ticked.1, ticked.2)

def finish (outcome : LoopOutcome) (slot : MarketSlot) : MarketSlot :=
  slot.withState fun s => { s with finished := some outcome }

end MarketSlot

/-- What one pass over the registry meets: the signal, and the answers to each market. -/
structure PassInput where
  shutdown : Bool
  answers : Pubkey32 → SlotAnswers

abbrev MarketEvents := List (Pubkey32 × LoopEvent)

/-- Shutdown: every slot still running releases its lock and is retired. -/
def releaseAll (keys : KeeperKeys) (input : PassInput) :
    List MarketSlot → MarketEvents × List MarketSlot
  | [] => ([], [])
  | slot :: slots =>
    let rest := releaseAll keys input slots
    if slot.state.finished.isSome = true then (rest.1, slot :: rest.2)
    else
      let released := tryGracefulRelease slot.rpcCfg slot.lockPda
        (input.answers slot.ctx.market).submitLeaderIx slot.ctx.programId slot.ctx.market
        keys.keeperPk slot.state.wasLeaderLastTick
      (released.map (slot.ctx.market, ·) ++ rest.1,
        slot.finish ⟨.shutdownSignal, slot.state.ticks, none⟩ :: rest.2)

/-- The cap on passes retires every slot still running. -/
def limitAll (slots : List MarketSlot) : List MarketSlot :=
  slots.map fun slot =>
    if slot.state.finished.isNone = true then
      slot.finish ⟨.tickLimitReached, slot.state.ticks, none⟩
    else slot

/-- Every market once, in the order of the registry; whether all of them were finished before. -/
def walkAll (predict : Predictor) (keys : KeeperKeys) (input : PassInput) :
    List MarketSlot → MarketEvents × Bool × List MarketSlot
  | [] => ([], true, [])
  | slot :: slots =>
    let rest := walkAll predict keys input slots
    if slot.state.finished.isSome = true then (rest.1, rest.2.1, slot :: rest.2.2)
    else
      let ticked := slot.tickOneSlot predict keys (input.answers slot.ctx.market)
      (ticked.1.map (slot.ctx.market, ·) ++ rest.1, false,
        (match ticked.2.1 with
        | some outcome => ticked.2.2.finish outcome
        | none => ticked.2.2) :: rest.2.2)

structure PerMarketOutcome where
  label : String
  ticks : Nat
  reason : LoopTerminationReason
  error : Option BotError
deriving DecidableEq

structure MultiMarketLoopOutcome where
  passes : Nat
  reason : LoopTerminationReason
  perMarket : List PerMarketOutcome
deriving DecidableEq

def LoopTerminationReason.rank : LoopTerminationReason → Nat
  | .permanentError => 3
  | .shutdownSignal => 2
  | .tickLimitReached => 1

def promoteWorst (current candidate : LoopTerminationReason) : LoopTerminationReason :=
  if current.rank < candidate.rank then candidate else current

def MarketSlot.outcome (slot : MarketSlot) : PerMarketOutcome :=
  let outcome := slot.state.finished.getD ⟨.shutdownSignal, slot.state.ticks, none⟩
  ⟨slot.label, outcome.ticks, outcome.reason, outcome.error⟩

def aggregate (passes : Nat) (slots : List MarketSlot) : MultiMarketLoopOutcome where
  passes := passes
  reason := (slots.map fun slot => slot.outcome.reason).foldl promoteWorst .shutdownSignal
  perMarket := slots.map MarketSlot.outcome

/-- `run_loop_multi_market_leader_and_rpc_reconcile` on as many passes as the inputs last; without
    an outcome it is still running. -/
def runLoopMultiMarket (predict : Predictor) (keys : KeeperKeys) (maxPasses : Option Nat) :
    List PassInput → Nat → List MarketSlot → MarketEvents × Option MultiMarketLoopOutcome
  | [], _, _ => ([], none)
  | input :: inputs, passes, slots =>
    if input.shutdown = true then
      let released := releaseAll keys input slots
      (released.1, some (aggregate passes released.2))
    else if maxPasses.any (· ≤ passes) = true then ([], some (aggregate passes (limitAll slots)))
    else
      let walked := walkAll predict keys input slots
      if walked.2.1 = true then (walked.1, some (aggregate (passes + 1) walked.2.2))
      else
        let later := runLoopMultiMarket predict keys maxPasses inputs (passes + 1) walked.2.2
        (walked.1 ++ later.1, later.2)

def ownEvents (market : Pubkey32) (events : MarketEvents) : List LoopEvent :=
  (events.filter fun e => decide (e.1 = market)).map Prod.snd

omit [Borsh.Codec] in
theorem ownEvents_append (market : Pubkey32) (before after : MarketEvents) :
    ownEvents market (before ++ after) = ownEvents market before ++ ownEvents market after := by
  unfold ownEvents
  rw [List.filter_append, List.map_append]

omit [Borsh.Codec] in
theorem ownEvents_own (market : Pubkey32) (events : List LoopEvent) :
    ownEvents market (events.map (market, ·)) = events := by
  induction events with
  | nil => rfl
  | cons e es ih =>
    unfold ownEvents at ih ⊢
    rw [List.map_cons, List.filter_cons_of_pos (by simp), List.map_cons, ih]

omit [Borsh.Codec] in
theorem ownEvents_other {market other : Pubkey32} (h : other ≠ market)
    (events : List LoopEvent) : ownEvents market (events.map (other, ·)) = [] := by
  unfold ownEvents
  rw [List.filter_eq_nil_iff.mpr, List.map_nil]
  intro e he
  obtain ⟨_, _, rfl⟩ := List.mem_map.mp he
  simpa using h

omit [Borsh.Codec] in
/-- Of what a pass does for every market in turn, each sees its own part. -/
theorem ownEvents_flatMap (f : MarketSlot → List LoopEvent) {slots : List MarketSlot} {i : Nat}
    {slot : MarketSlot} (hdistinct : (slots.map (·.ctx.market)).Nodup)
    (hslot : slots[i]? = some slot) :
    ownEvents slot.ctx.market (slots.flatMap fun s => (f s).map (s.ctx.market, ·)) = f slot := by
  have hnone : ∀ others : List MarketSlot, slot.ctx.market ∉ others.map (·.ctx.market) →
      ownEvents slot.ctx.market (others.flatMap fun s => (f s).map (s.ctx.market, ·)) = [] := by
    intro others hother
    induction others with
    | nil => rfl
    | cons s others ih =>
      obtain ⟨hne, hrest⟩ := not_or.mp (List.mem_cons.not.mp hother)
      rw [List.flatMap_cons, ownEvents_append, ownEvents_other (Ne.symm hne), ih hrest,
        List.nil_append]
  induction slots generalizing i with
  | nil => simp at hslot
  | cons s slots ih =>
    obtain ⟨hhead, htail⟩ := List.nodup_cons.mp hdistinct
    rw [List.flatMap_cons, ownEvents_append]
    cases i with
    | zero =>
      obtain rfl : s = slot := by simpa using hslot
      rw [ownEvents_own, hnone slots hhead, List.append_nil]
    | succ i =>
      have hmem : slots[i]? = some slot := by simpa using hslot
      have hne : s.ctx.market ≠ slot.ctx.market := fun heq =>
        hhead (List.mem_map.mpr ⟨slot, List.mem_of_getElem? hmem, heq.symm⟩)
      rw [ownEvents_other hne, ih htail hmem, List.nil_append]

namespace MarketSlot

def config (keys : KeeperKeys) (slot : MarketSlot) : LoopConfig where
  ctx := slot.ctx
  rpcCfg := slot.rpcCfg
  lockPda := slot.lockPda
  keys := keys

def vars (slot : MarketSlot) : LoopVars where
  bot := slot.bot
  policy := slot.policy
  ticks := slot.state.ticks
  lastReconcileTick := slot.state.lastReconcileTick
  lastHeartbeatTick := slot.state.lastHeartbeatTick
  wasLeaderLastTick := slot.state.wasLeaderLastTick

structure Keeps (slot slot' : MarketSlot) : Prop where
  label : slot'.label = slot.label
  ctx : slot'.ctx = slot.ctx
  rpcCfg : slot'.rpcCfg = slot.rpcCfg
  lockPda : slot'.lockPda = slot.lockPda
  finished : slot'.state.finished = slot.state.finished

omit [Borsh.Codec] in
theorem Keeps.refl (slot : MarketSlot) : slot.Keeps slot := ⟨rfl, rfl, rfl, rfl, rfl⟩

omit [Borsh.Codec] in
theorem Keeps.trans {a b c : MarketSlot} (h : a.Keeps b) (h' : b.Keeps c) : a.Keeps c :=
  ⟨h'.label.trans h.label, h'.ctx.trans h.ctx, h'.rpcCfg.trans h.rpcCfg,
    h'.lockPda.trans h.lockPda, h'.finished.trans h.finished⟩

omit [Borsh.Codec] in
theorem Keeps.config {slot slot' : MarketSlot} (h : slot.Keeps slot') (keys : KeeperKeys) :
    slot'.config keys = slot.config keys := by
  unfold MarketSlot.config
  rw [h.ctx, h.rpcCfg, h.lockPda]

variable {predict : Predictor} {keys : KeeperKeys} {answers : SlotAnswers} {slot : MarketSlot}

omit [Borsh.Codec] in
theorem reconcileCadence_vars (keys : KeeperKeys) :
    slot.vars.reconcileMirror (slot.config keys) answers
      = ((slot.reconcileCadence answers slot.state.ticks).1,
          (slot.reconcileCadence answers slot.state.ticks).2.vars) ∧
      slot.Keeps (slot.reconcileCadence answers slot.state.ticks).2 ∧
      (slot.reconcileCadence answers slot.state.ticks).2.state.ticks = slot.state.ticks := by
  unfold LoopVars.reconcileMirror reconcileCadence
  cases hevery : slot.rpcCfg.reconcileEvery with
  | none => simp [config, hevery, Keeps.refl]
  | some every =>
    by_cases hdue : cadenceDue slot.state.lastReconcileTick every slot.state.ticks = true
    · simp only [config, hevery, vars, hdue, if_true]
      cases answers.fetchLock with
      | ok chainLock => exact ⟨rfl, ⟨rfl, rfl, rfl, rfl, rfl⟩, rfl⟩
      | error e =>
        cases e with
        | notFound pda => exact ⟨rfl, ⟨rfl, rfl, rfl, rfl, rfl⟩, rfl⟩
        | rpc e => exact ⟨rfl, Keeps.refl slot, rfl⟩
        | decode e => exact ⟨rfl, Keeps.refl slot, rfl⟩
    · simp only [config, hevery, vars, hdue, Bool.false_eq_true, if_false, Keeps.refl, and_self]

omit [Borsh.Codec] in
theorem heartbeatCadence_vars {currentSlot : Nat} :
    slot.vars.publishHeartbeat (slot.config keys) answers currentSlot
      = ((slot.heartbeatCadence keys answers slot.state.ticks currentSlot).1,
          (slot.heartbeatCadence keys answers slot.state.ticks currentSlot).2.vars) ∧
      slot.Keeps (slot.heartbeatCadence keys answers slot.state.ticks currentSlot).2 ∧
      (slot.heartbeatCadence keys answers slot.state.ticks currentSlot).2.state.ticks
        = slot.state.ticks := by
  unfold LoopVars.publishHeartbeat heartbeatCadence
  cases hevery : slot.rpcCfg.heartbeatEvery with
  | none => simp [config, hevery, Keeps.refl]
  | some every =>
    by_cases hdue : (!slot.state.wasLeaderLastTick
        || cadenceDue slot.state.lastHeartbeatTick every slot.state.ticks) = true
    · simp only [config, hevery, vars, hdue, if_true]
      cases answers.submitLeaderIx with
      | ok signature => exact ⟨rfl, ⟨rfl, rfl, rfl, rfl, rfl⟩, rfl⟩
      | error e => exact ⟨rfl, Keeps.refl slot, rfl⟩
    · simp only [config, hevery, vars, hdue, Bool.false_eq_true, if_false, Keeps.refl, and_self]

theorem tickBot_vars {snap : ChainSnapshot} :
    slot.vars.dispatch predict (slot.config keys) answers snap
      = ((slot.tickBot predict keys answers slot.state.ticks snap).1,
          (slot.tickBot predict keys answers slot.state.ticks snap).2.1,
          (slot.tickBot predict keys answers slot.state.ticks snap).2.2.vars) ∧
      slot.Keeps (slot.tickBot predict keys answers slot.state.ticks snap).2.2 := by
  unfold LoopVars.dispatch tickBot
  simp only [config, vars]
  cases (slot.bot.tickWithSnap predict keys slot.ctx answers.order answers.submit snap).1 with
  | ok dispatched => exact ⟨rfl, ⟨rfl, rfl, rfl, rfl, rfl⟩⟩
  | error e => exact ⟨rfl, ⟨rfl, rfl, rfl, rfl, rfl⟩⟩

theorem passGate_vars {snap : ChainSnapshot} :
    slot.vars.tickAt predict (slot.config keys) answers snap
      = ((slot.passGate predict keys answers slot.state.ticks snap).1,
          (slot.passGate predict keys answers slot.state.ticks snap).2.1,
          (slot.passGate predict keys answers slot.state.ticks snap).2.2.vars) ∧
      slot.Keeps (slot.passGate predict keys answers slot.state.ticks snap).2.2 := by
  unfold LoopVars.tickAt passGate
  generalize (snapshotBestSlot snap).getD 0 = currentSlot
  have hpolicy : slot.vars.policy = slot.policy := rfl
  simp only [hpolicy]
  generalize slot.policy.shouldSubmit currentSlot = asked
  cases asked.1 with
  | false => exact ⟨rfl, ⟨rfl, rfl, rfl, rfl, rfl⟩⟩
  | true =>
    obtain ⟨mirrored, hmirrored⟩ : ∃ mirrored, mirrored = { slot with policy := asked.2 } :=
      ⟨_, rfl⟩
    have hkeeps : slot.Keeps mirrored := by
      rw [hmirrored]
      exact ⟨rfl, rfl, rfl, rfl, rfl⟩
    have hvars : { slot.vars with policy := asked.2 } = mirrored.vars := by
      rw [hmirrored]
      rfl
    have hticks : slot.state.ticks = mirrored.state.ticks := by rw [hmirrored]
    obtain ⟨hbeat, hbeatKeeps, hbeatTicks⟩ :=
      @heartbeatCadence_vars keys answers mirrored currentSlot
    rw [hvars, ← hmirrored, ← hkeeps.config keys, hbeat, hticks]
    generalize mirrored.heartbeatCadence keys answers mirrored.state.ticks currentSlot = beat at *
    obtain ⟨led, hled⟩ : ∃ led,
        led = beat.2.withState fun s => { s with wasLeaderLastTick := true } := ⟨_, rfl⟩
    have hledKeeps : beat.2.Keeps led := by
      rw [hled]
      exact ⟨rfl, rfl, rfl, rfl, rfl⟩
    have hledVars : { beat.2.vars with wasLeaderLastTick := true } = led.vars := by
      rw [hled]
      rfl
    have hledTicks : mirrored.state.ticks = led.state.ticks := by
      rw [hled, ← hbeatTicks]
      rfl
    obtain ⟨htick, htickKeeps⟩ := @tickBot_vars _ predict keys answers led snap
    have hconfig := hledKeeps.config keys
    rw [hbeatKeeps.config keys] at hconfig
    simp only [Bool.not_true, Bool.true_eq_false, Bool.false_eq_true, if_false]
    rw [hledVars, ← hled, ← hconfig, htick, hledTicks]
    exact ⟨rfl, hkeeps.trans (hbeatKeeps.trans (hledKeeps.trans htickKeeps))⟩

theorem tickOneSlot_iterate :
    slot.vars.iterate predict (slot.config keys) none false answers
      = ((slot.tickOneSlot predict keys answers).1, (slot.tickOneSlot predict keys answers).2.1,
          (slot.tickOneSlot predict keys answers).2.2.vars) ∧
      slot.Keeps (slot.tickOneSlot predict keys answers).2.2 := by
  unfold LoopVars.iterate tickOneSlot
  simp only [Bool.false_eq_true, if_false, Option.any_none]
  cases answers.refresh with
  | error e =>
    simp only
    split_ifs
    · exact ⟨rfl, .refl slot⟩
    · exact ⟨rfl, .refl slot⟩
  | ok snap =>
    obtain ⟨hmirror, hkeeps, hticks⟩ := @reconcileCadence_vars answers slot keys
    obtain ⟨hgate, hgateKeeps⟩ := @passGate_vars _ predict keys answers
      (slot.reconcileCadence answers slot.state.ticks).2 snap
    rw [hkeeps.config keys, hticks] at hgate
    rw [hticks] at hgateKeeps
    simp only
    rw [hmirror, hgate]
    exact ⟨rfl, hkeeps.trans hgateKeeps⟩

def passed (predict : Predictor) (keys : KeeperKeys) (input : PassInput) (slot : MarketSlot) :
    List LoopEvent × MarketSlot :=
  if slot.state.finished.isSome = true then ([], slot)
  else
    let ticked := slot.tickOneSlot predict keys (input.answers slot.ctx.market)
    (ticked.1, match ticked.2.1 with
      | some outcome => ticked.2.2.finish outcome
      | none => ticked.2.2)

def released (keys : KeeperKeys) (input : PassInput) (slot : MarketSlot) :
    List LoopEvent × MarketSlot :=
  if slot.state.finished.isSome = true then ([], slot)
  else
    (tryGracefulRelease slot.rpcCfg slot.lockPda (input.answers slot.ctx.market).submitLeaderIx
      slot.ctx.programId slot.ctx.market keys.keeperPk slot.state.wasLeaderLastTick,
      slot.finish ⟨.shutdownSignal, slot.state.ticks, none⟩)

theorem passed_finished {input : PassInput} (h : slot.state.finished.isSome = true) :
    slot.passed predict keys input = ([], slot) := if_pos h

/-- A slot that is still running takes one iteration, and may be retired by it. -/
theorem passed_running {input : PassInput} (h : slot.state.finished = none) :
    ∃ now stopped slot', slot.vars.iterate predict (slot.config keys) none false
        (input.answers slot.ctx.market) = (now, stopped, slot'.vars) ∧ slot.Keeps slot' ∧
      slot.passed predict keys input = (now, match stopped with
        | some outcome => slot'.finish outcome
        | none => slot') := by
  obtain ⟨hiterate, hkeeps⟩ :=
    @tickOneSlot_iterate _ predict keys (input.answers slot.ctx.market) slot
  refine ⟨_, _, _, hiterate, hkeeps, ?_⟩
  unfold passed
  rw [h]
  rfl

theorem passed_market {input : PassInput} :
    (slot.passed predict keys input).2.ctx.market = slot.ctx.market := by
  unfold passed
  split_ifs
  · rfl
  · have hctx := (@tickOneSlot_iterate _ predict keys (input.answers slot.ctx.market) slot).2.ctx
    simp only
    split
    · exact congrArg _ hctx
    · exact congrArg _ hctx

end MarketSlot

theorem walkAll_eq (predict : Predictor) (keys : KeeperKeys) (input : PassInput)
    (slots : List MarketSlot) :
    walkAll predict keys input slots
      = (slots.flatMap fun s => (s.passed predict keys input).1.map (s.ctx.market, ·),
          slots.all (·.state.finished.isSome),
          slots.map fun s => (s.passed predict keys input).2) := by
  induction slots with
  | nil => rfl
  | cons slot slots ih =>
    unfold walkAll
    rw [ih, List.flatMap_cons, List.all_cons, List.map_cons]
    by_cases hfinished : slot.state.finished.isSome = true
    · rw [MarketSlot.passed_finished hfinished, if_pos hfinished, hfinished]
      rfl
    · unfold MarketSlot.passed
      rw [if_neg hfinished, if_neg hfinished, Bool.eq_false_of_not_eq_true hfinished]
      rfl

omit [Borsh.Codec] in
theorem releaseAll_eq (keys : KeeperKeys) (input : PassInput) (slots : List MarketSlot) :
    releaseAll keys input slots
      = (slots.flatMap fun s => (s.released keys input).1.map (s.ctx.market, ·),
          slots.map fun s => (s.released keys input).2) := by
  induction slots with
  | nil => rfl
  | cons slot slots ih =>
    unfold releaseAll
    rw [ih, List.flatMap_cons, List.map_cons]
    by_cases hfinished : slot.state.finished.isSome = true
    · unfold MarketSlot.released
      rw [if_pos hfinished, if_pos hfinished]
      rfl
    · unfold MarketSlot.released
      rw [if_neg hfinished, if_neg hfinished]

def PerMarketOutcome.toLoopOutcome (per : PerMarketOutcome) : LoopOutcome :=
  ⟨per.reason, per.ticks, per.error⟩

/-- The limit on ticks that stops a loop where the cap on passes stopped this one. -/
def PerMarketOutcome.limit (per : PerMarketOutcome) : Option Nat :=
  if per.reason = .tickLimitReached then some per.ticks else none

def ownInputs (market : Pubkey32) (inputs : List PassInput) : List (Bool × SlotAnswers) :=
  inputs.map fun input => (input.shutdown, input.answers market)

/-- What a market has seen from here on, and how it ended, against a loop of its own. -/
structure Alone (predict : Predictor) (keys : KeeperKeys) (inputs : List PassInput)
    (slot : MarketSlot) (events : List LoopEvent) (per : PerMarketOutcome) : Prop where
  label : per.label = slot.label
  retired : ∀ outcome, slot.state.finished = some outcome →
    events = [] ∧ per.toLoopOutcome = outcome
  running : slot.state.finished = none →
    slot.state.ticks ≤ per.ticks ∧
    (per.reason = .tickLimitReached →
      per.error = none ∧ (per.ticks = slot.state.ticks → events = [])) ∧
    ∃ vars, runLoopWithLeaderAndRpcReconcile predict (slot.config keys) per.limit
      (ownInputs slot.ctx.market inputs) slot.vars = (events, some per.toLoopOutcome, vars)

namespace Alone
variable {predict : Predictor} {keys : KeeperKeys} {input : PassInput} {inputs : List PassInput}
  {slot : MarketSlot}

theorem of_retired {outcome : LoopOutcome} (h : slot.state.finished = some outcome) :
    Alone predict keys inputs slot [] slot.outcome := by
  refine ⟨rfl, fun o ho => ⟨rfl, ?_⟩, fun hrunning => ?_⟩
  · unfold MarketSlot.outcome PerMarketOutcome.toLoopOutcome
    rw [ho]
    rfl
  · rw [h] at hrunning
    cases hrunning

theorem of_shutdown (hshutdown : input.shutdown = true) :
    Alone predict keys (input :: inputs) slot (slot.released keys input).1
      (slot.released keys input).2.outcome := by
  unfold MarketSlot.released
  cases hfinished : slot.state.finished with
  | some outcome => exact of_retired hfinished
  | none =>
    refine ⟨rfl, by simp [hfinished], fun _ => ⟨le_rfl, nofun, slot.vars, ?_⟩⟩
    refine runLoop_stops ?_
    rw [hshutdown]
    exact LoopVars.iterate_shutdown _

theorem of_limit (hshutdown : input.shutdown = false) :
    Alone predict keys (input :: inputs) slot []
      (if slot.state.finished.isNone = true then
        slot.finish ⟨.tickLimitReached, slot.state.ticks, none⟩ else slot).outcome := by
  cases hfinished : slot.state.finished with
  | some outcome => exact of_retired hfinished
  | none =>
    refine ⟨rfl, by simp [hfinished], fun _ =>
      ⟨le_rfl, fun _ => ⟨rfl, fun _ => rfl⟩, slot.vars, ?_⟩⟩
    refine runLoop_stops ?_
    rw [hshutdown]
    exact LoopVars.iterate_limit le_rfl

theorem of_pass (hshutdown : input.shutdown = false) {events : List LoopEvent}
    {per : PerMarketOutcome}
    (h : Alone predict keys inputs (slot.passed predict keys input).2 events per) :
    Alone predict keys (input :: inputs) slot ((slot.passed predict keys input).1 ++ events)
      per := by
  cases hfinished : slot.state.finished with
  | some outcome =>
    rw [MarketSlot.passed_finished (by rw [hfinished]; rfl)] at h ⊢
    obtain ⟨hnone, hper⟩ := h.retired outcome hfinished
    refine ⟨h.label, fun o ho => ?_, fun hrunning => ?_⟩
    · cases hfinished.symm.trans ho
      exact ⟨hnone, hper⟩
    · cases hfinished.symm.trans hrunning
  | none =>
    obtain ⟨now, stopped, slot', hiterate, hkeeps, hpassed⟩ :=
      @MarketSlot.passed_running _ predict keys slot input hfinished
    rw [hpassed] at h ⊢
    cases stopped with
    | some outcome =>
      obtain ⟨hnone, hper⟩ := h.retired outcome rfl
      obtain ⟨hreason, hticks⟩ := LoopVars.iterate_stops (congrArg (·.2.1) hiterate)
      have hperReason : per.reason = .permanentError :=
        (congrArg LoopOutcome.reason hper).trans hreason
      have hperTicks : per.ticks = slot.state.ticks :=
        (congrArg LoopOutcome.ticks hper).trans hticks
      have hlimit : per.limit = none := by
        unfold PerMarketOutcome.limit
        rw [hperReason]
        rfl
      subst hnone
      refine ⟨h.label.trans hkeeps.label, by simp [hfinished], fun _ =>
        ⟨hperTicks.ge, fun hreason' => ?_, slot'.vars, ?_⟩⟩
      · rw [hperReason] at hreason'
        cases hreason'
      · rw [hlimit, hper, List.append_nil]
        refine runLoop_stops ?_
        rw [hshutdown]
        exact hiterate
    | none =>
      have h : Alone predict keys inputs slot' events per := h
      obtain ⟨hle, hquiet, vars, hlater⟩ := h.running (hkeeps.finished.trans hfinished)
      rw [hkeeps.config keys, hkeeps.ctx] at hlater
      have hnext : now = [] ∧ slot'.vars = slot.vars ∨
          slot'.state.ticks = slot.state.ticks + 1 := by
        cases LoopVars.iterate_continues (congrArg (·.2.1) hiterate) with
        | inl hidle =>
          have heq := hiterate.symm.trans hidle
          exact .inl ⟨congrArg (·.1) heq, congrArg (·.2.2) heq⟩
        | inr hticked => exact .inr ((congrArg (·.2.2.ticks) hiterate).symm.trans hticked)
      have hmono : slot.state.ticks ≤ slot'.state.ticks := by
        cases hnext with
        | inl hidle => exact (congrArg LoopVars.ticks hidle.2).ge
        | inr hticked => omega
      -- the last ticks were the ones before this pass: it was idle, and so were the later ones
      have hidle : per.reason = .tickLimitReached → per.ticks = slot.state.ticks →
          now = [] ∧ events = [] := by
        intro hreason hticks
        cases hnext with
        | inl hidle =>
          have hsame : slot'.state.ticks = slot.state.ticks := congrArg LoopVars.ticks hidle.2
          exact ⟨hidle.1, (hquiet hreason).2 (hticks.trans hsame.symm)⟩
        | inr hticked => omega
      have hmore : (∀ limit, per.limit = some limit → slot.state.ticks < limit) →
          slot.vars.iterate predict (slot.config keys) per.limit input.shutdown
            (input.answers slot.ctx.market) = (now, none, slot'.vars) := by
        intro hbelow
        rw [hshutdown]
        cases hlimit : per.limit with
        | none => exact hiterate
        | some limit =>
          rw [LoopVars.iterate_below (hbelow limit hlimit)]
          exact hiterate
      refine ⟨h.label.trans hkeeps.label, by simp [hfinished], fun _ =>
        ⟨hmono.trans hle, fun hreason => ⟨(hquiet hreason).1, fun hticks => ?_⟩, ?_⟩⟩
      · obtain ⟨hnow, hevents⟩ := hidle hreason hticks
        rw [hnow, hevents, List.append_nil]
      · by_cases hstop : per.reason = .tickLimitReached ∧ per.ticks = slot.state.ticks
        · obtain ⟨hreason, hticks⟩ := hstop
          obtain ⟨hnow, hevents⟩ := hidle hreason hticks
          refine ⟨slot.vars, ?_⟩
          have hper : per.toLoopOutcome = ⟨.tickLimitReached, slot.state.ticks, none⟩ := by
            unfold PerMarketOutcome.toLoopOutcome
            rw [hreason, hticks, (hquiet hreason).1]
          have hlimit : per.limit = some slot.state.ticks := by
            unfold PerMarketOutcome.limit
            rw [if_pos hreason, hticks]
          rw [hnow, hevents, hper, hlimit]
          refine runLoop_stops ?_
          rw [hshutdown]
          exact LoopVars.iterate_limit le_rfl
        · refine ⟨vars, ?_⟩
          refine (runLoop_continues (hmore fun limit hlimit => ?_)).trans ?_
          · unfold PerMarketOutcome.limit at hlimit
            split_ifs at hlimit with hreason
            cases hlimit
            have hne : per.ticks ≠ slot.state.ticks := fun hticks => hstop ⟨hreason, hticks⟩
            omega
          · exact congrArg (fun later => (now ++ later.1, later.2)) hlater

end Alone

section Together
variable {predict : Predictor} {keys : KeeperKeys} {maxPasses : Option Nat}

theorem passed_markets (input : PassInput) (slots : List MarketSlot) :
    (slots.map fun s => (s.passed predict keys input).2).map (·.ctx.market)
      = slots.map (·.ctx.market) := by
  rw [List.map_map]
  exact List.map_congr_left fun _ _ => MarketSlot.passed_market

theorem runLoopMultiMarket_alone {inputs : List PassInput} {passes i : Nat}
    {slots : List MarketSlot} {slot : MarketSlot} {events : MarketEvents}
    {outcome : MultiMarketLoopOutcome} (hdistinct : (slots.map (·.ctx.market)).Nodup)
    (hslot : slots[i]? = some slot)
    (hrun : runLoopMultiMarket predict keys maxPasses inputs passes slots
      = (events, some outcome)) :
    ∃ per, outcome.perMarket[i]? = some per ∧
      Alone predict keys inputs slot (ownEvents slot.ctx.market events) per := by
  induction inputs generalizing passes slots slot events with
  | nil => cases hrun
  | cons input inputs ih =>
    unfold runLoopMultiMarket at hrun
    simp only [walkAll_eq, releaseAll_eq] at hrun
    cases hshutdown : input.shutdown with
    | true =>
      rw [if_pos hshutdown] at hrun
      cases hrun
      refine ⟨(slot.released keys input).2.outcome, ?_, ?_⟩
      · simp only [aggregate, List.getElem?_map, hslot, Option.map_some]
      · rw [ownEvents_flatMap (fun s => (s.released keys input).1) hdistinct hslot]
        exact .of_shutdown hshutdown
    | false =>
      rw [hshutdown, if_neg Bool.false_ne_true] at hrun
      split_ifs at hrun with hlimit hall
      · cases hrun
        refine ⟨_, ?_, .of_limit hshutdown⟩
        simp only [aggregate, limitAll, List.getElem?_map, hslot, Option.map_some]
      · -- every slot was retired before
        cases hrun
        have hpassed : ((slot.passed predict keys input).2).outcome = slot.outcome := by
          rw [MarketSlot.passed_finished
            (List.all_eq_true.mp hall slot (List.mem_of_getElem? hslot))]
        obtain ⟨o, ho⟩ := Option.isSome_iff_exists.mp
          (List.all_eq_true.mp hall slot (List.mem_of_getElem? hslot))
        refine ⟨slot.outcome, ?_, ?_⟩
        · simp only [aggregate, List.getElem?_map, hslot, Option.map_some, hpassed]
        · rw [ownEvents_flatMap (fun s => (s.passed predict keys input).1) hdistinct hslot,
            MarketSlot.passed_finished (by rw [ho]; rfl)]
          exact .of_retired ho
      · obtain ⟨hevents, hlater⟩ := Prod.mk.inj hrun
        have hslot' : (slots.map fun s => (s.passed predict keys input).2)[i]?
            = some (slot.passed predict keys input).2 := by
          rw [List.getElem?_map, hslot, Option.map_some]
        obtain ⟨per, hper, halone⟩ := ih (by rwa [passed_markets]) hslot'
          (Prod.ext rfl hlater)
        refine ⟨per, hper, ?_⟩
        rw [← hevents, ownEvents_append,
          ownEvents_flatMap (fun s => (s.passed predict keys input).1) hdistinct hslot]
        rw [MarketSlot.passed_market] at halone
        exact halone.of_pass hshutdown

theorem runLoopMultiMarket_running {inputs : List PassInput} {passes i : Nat}
    {slots : List MarketSlot} {slot : MarketSlot} {events : MarketEvents}
    (hdistinct : (slots.map (·.ctx.market)).Nodup) (hslot : slots[i]? = some slot)
    (hrun : runLoopMultiMarket predict keys maxPasses inputs passes slots = (events, none)) :
    (slot.state.finished.isSome = true → ownEvents slot.ctx.market events = []) ∧
    (slot.state.finished = none →
      (runLoopWithLeaderAndRpcReconcile predict (slot.config keys) none
        (ownInputs slot.ctx.market inputs) slot.vars).1 = ownEvents slot.ctx.market events) := by
  induction inputs generalizing passes slots slot events with
  | nil =>
    cases hrun
    exact ⟨fun _ => rfl, fun _ => rfl⟩
  | cons input inputs ih =>
    unfold runLoopMultiMarket at hrun
    simp only [walkAll_eq] at hrun
    split_ifs at hrun with hshutdown
    · simp at hrun
    · simp at hrun
    · simp at hrun
    · obtain ⟨hevents, hlater⟩ := Prod.mk.inj hrun
      have hslot' : (slots.map fun s => (s.passed predict keys input).2)[i]?
          = some (slot.passed predict keys input).2 := by
        rw [List.getElem?_map, hslot, Option.map_some]
      obtain ⟨hretired, hrunning⟩ := ih (by rwa [passed_markets]) hslot' (Prod.ext rfl hlater)
      rw [← hevents, ownEvents_append,
        ownEvents_flatMap (fun s => (s.passed predict keys input).1) hdistinct hslot]
      rw [MarketSlot.passed_market] at hretired hrunning
      cases hfinished : slot.state.finished with
      | some outcome =>
        rw [MarketSlot.passed_finished (by rw [hfinished]; rfl)] at hretired ⊢
        exact ⟨fun h => hretired (by rw [hfinished]; exact h), by simp⟩
      | none =>
        refine ⟨by simp, fun _ => ?_⟩
        obtain ⟨now, stopped, slot', hiterate, hkeeps, hpassed⟩ :=
          @MarketSlot.passed_running _ predict keys slot input hfinished
        rw [hpassed] at hretired hrunning ⊢
        rw [← Bool.eq_false_of_not_eq_true hshutdown] at hiterate
        cases stopped with
        | some outcome =>
          rw [hretired rfl, List.append_nil]
          exact congrArg (·.1) (runLoop_stops hiterate)
        | none =>
          rw [← hrunning (hkeeps.finished.trans hfinished), hkeeps.config keys]
          exact congrArg (·.1) (runLoop_continues hiterate)

end Together

/-- A market among others sees exactly what it would see in a loop of its own with the same
    answers, and ends as that loop does: by itself, by the same signal, or by a limit on ticks where
    the cap on passes stopped it. -/
theorem markets_independent (predict : Predictor) (keys : KeeperKeys) (maxPasses : Option Nat)
    (inputs : List PassInput) (slots : List MarketSlot) (i : Nat) (slot : MarketSlot)
    (hdistinct : (slots.map (·.ctx.market)).Nodup) (hslot : slots[i]? = some slot)
    (hfresh : slot.state = {}) :
    let together := runLoopMultiMarket predict keys maxPasses inputs 0 slots
    let alone := fun maxTicks => runLoopWithLeaderAndRpcReconcile predict (slot.config keys)
      maxTicks (ownInputs slot.ctx.market inputs) (.start slot.bot slot.policy)
    (together.2 = none → (alone none).1 = ownEvents slot.ctx.market together.1) ∧
    ∀ outcome, together.2 = some outcome → ∃ per, outcome.perMarket[i]? = some per ∧
      per.label = slot.label ∧
      (alone per.limit).1 = ownEvents slot.ctx.market together.1 ∧
      (alone per.limit).2.1 = some per.toLoopOutcome := by
  have hstart : LoopVars.start slot.bot slot.policy = slot.vars := by
    unfold MarketSlot.vars
    rw [hfresh]
    rfl
  have hrunning : slot.state.finished = none := by rw [hfresh]
  simp only [hstart]
  refine ⟨fun hnone => ?_, fun outcome hsome => ?_⟩
  · exact (runLoopMultiMarket_running hdistinct hslot (Prod.ext rfl hnone)).2 hrunning
  · obtain ⟨per, hper, halone⟩ :=
      runLoopMultiMarket_alone hdistinct hslot (Prod.ext rfl hsome)
    obtain ⟨-, -, vars, hrun⟩ := halone.running hrunning
    exact ⟨per, hper, halone.label, congrArg (·.1) hrun, congrArg (·.2.1) hrun⟩

end Codec

section Sample

attribute [local instance] Borsh.borsh

/-- A market without sub-pools, and a keeper that reconciles and heartbeats in every tick. -/
def sampleSlot (label : String) (market : Pubkey32) : MarketSlot where
  label := label
  ctx := ⟨.replicate 32 9, market, []⟩
  rpcCfg := ⟨some 1, some 1, true⟩
  lockPda := .replicate 32 2
  bot := ⟨false, .new .default, .new ⟨3, 10⟩⟩
  policy := ⟨1, .fresh 0 75⟩
  state := {}

def sampleKeys : KeeperKeys := ⟨.replicate 32 3, .replicate 32 4, .replicate 32 5⟩

def samplePass (shutdown : Bool) : PassInput where
  shutdown := shutdown
  answers market := {
    refresh := if market = .replicate 32 1 then .error .marketPaused else .ok .new
    fetchLock := .ok (.fresh 0 75)
    submitLeaderIx := .ok none
    submit _ _ := .submitted none
    order := .byKey }

def sampleInputs : List PassInput := [samplePass false, samplePass false, samplePass true]

def sampleSlots : List MarketSlot :=
  [sampleSlot "paused" (.replicate 32 1), sampleSlot "open" (.replicate 32 7)]

theorem sampleSlots_outcome :
    (runLoopMultiMarket (fun _ _ => []) sampleKeys none sampleInputs 0 sampleSlots).2
      = some ⟨2, .permanentError, [⟨"paused", 0, .permanentError, some (.snapshot .marketPaused)⟩,
          ⟨"open", 2, .shutdownSignal, none⟩]⟩ := by decide +kernel

/-- Beside a market that fails for good the other one ticks until the shutdown. -/
theorem sampleSlots_independent :
    let alone := runLoopWithLeaderAndRpcReconcile (fun _ _ => [])
      ((sampleSlot "open" (.replicate 32 7)).config sampleKeys) none
      (ownInputs (.replicate 32 7) sampleInputs)
      (.start ⟨false, .new .default, .new ⟨3, 10⟩⟩ ⟨1, .fresh 0 75⟩)
    alone.1 = ownEvents (.replicate 32 7)
        (runLoopMultiMarket (fun _ _ => []) sampleKeys none sampleInputs 0 sampleSlots).1 ∧
      alone.2.1 = some ⟨.shutdownSignal, 2, none⟩ := by
  obtain ⟨per, hper, -, hevents, houtcome⟩ := (markets_independent (fun _ _ => []) sampleKeys none
    sampleInputs sampleSlots 1 (sampleSlot "open" (.replicate 32 7)) (by decide) rfl rfl).2 _
    sampleSlots_outcome
  cases hper
  exact ⟨hevents, houtcome⟩

end Sample

end MoleFinance
