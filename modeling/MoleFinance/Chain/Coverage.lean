import MoleFinance.Chain.Intact
import MoleFinance.Chain.Pricing

/-! Bridged instructions and the buckets they are given. -/
namespace MoleFinance
open MoleMath Call

/-- The sub-pool and the bucket accounts of an instruction that goes through the bridge. -/
def Instruction.bridged : Instruction → Option (Nat × RemainingAccounts)
  | .syncPool id _ remaining => some (id, remaining)
  | .closePosition id _ _ _ _ remaining => some (id, remaining)
  | .forceCloseZeroValuePosition id _ _ _ _ remaining => some (id, remaining)
  | .claimDormantRecovery id _ _ _ _ remaining => some (id, remaining)
  | .preSyncDormantBucket id _ _ remaining => some (id, remaining)
  | _ => none

theorem Instruction.exec_bridged {token : TokenProgram} {st st' : Program} {i : Instruction}
    {id : Nat} {remaining : RemainingAccounts} (hi : i.bridged = some (id, remaining))
    (h : i.exec token st = .ok st') :
    ∃ call st1 outcome, st.runBridged id remaining call = .ok (st1, outcome) := by
  have positioned : ∀ {key : PositionKey} {f : Position → BridgedCall} {res : Program × Nat},
      st.runOnPosition id key remaining f = .ok res →
      ∃ call st1 outcome, st.runBridged id remaining call = .ok (st1, outcome) := by
    intro key f res hr
    obtain ⟨p, st1, outcome, -, -, hb, -⟩ := Program.runOnPosition_ok hr
    exact ⟨_, st1, outcome, hb⟩
  cases i with
  | syncPool j e r =>
    cases hi
    obtain ⟨_, -, h⟩ := except_bind_ok.mp h
    obtain ⟨⟨st1, outcome⟩, hr, -⟩ := except_bind_ok.mp h
    exact ⟨_, st1, outcome, hr⟩
  | closePosition j owner wallet positionId e r =>
    cases hi
    obtain ⟨_, -, h⟩ := except_bind_ok.mp h
    obtain ⟨_, -, h⟩ := except_bind_ok.mp h
    obtain ⟨_, -, h⟩ := except_bind_ok.mp h
    obtain ⟨res, hr, -⟩ := except_bind_ok.mp h
    exact positioned hr
  | forceCloseZeroValuePosition j owner positionId e ack r =>
    cases hi
    obtain ⟨_, -, h⟩ := except_bind_ok.mp h
    obtain ⟨res, hr, -⟩ := except_bind_ok.mp h
    exact positioned hr
  | claimDormantRecovery j owner wallet positionId e r =>
    cases hi
    obtain ⟨_, -, h⟩ := except_bind_ok.mp h
    obtain ⟨_, -, h⟩ := except_bind_ok.mp h
    obtain ⟨_, -, h⟩ := except_bind_ok.mp h
    obtain ⟨res, hr, -⟩ := except_bind_ok.mp h
    exact positioned hr
  | preSyncDormantBucket j isLong tick r =>
    cases hi
    obtain ⟨⟨st1, outcome⟩, hr, -⟩ := except_bind_ok.mp h
    exact ⟨_, st1, outcome, hr⟩
  | _ => cases hi

namespace Program
variable {st st' : Program} {id : Nat}

theorem Carried.live_supplied {remaining : RemainingAccounts} {call : BridgedCall}
    {outcome : BridgedOutcome} {s : SubPoolState} {t view : SubPool}
    {long short long' short' : BridgedSide}
    (h : st.Carried id remaining call st' outcome s t view long short long' short')
    {d : Direction} {b : BucketAccount} (hb : b ∈ (s.dormant d).live) :
    b.seeds ∈ remaining.accounts := by
  obtain ⟨o, hr⟩ := h.repack d
  have hmem := (List.mem_filter.mp (hr.complete.mem_iff.mpr hb)).1
  have hseeds := List.mem_map_of_mem (f := BucketAccount.seeds) hmem
  rw [← h.supplied, List.mem_append]
  cases d with
  | long => exact .inl hseeds
  | short => exact .inr hseeds

end Program

/-- A bridged instruction succeeds only when every live bucket of both directions is on its
    list of accounts, whatever it has accrued; without one of them it fails. -/
theorem missing_bucket_detected (token : TokenProgram) (st : Program) (h : st.Reached token)
    (i : Instruction) (id : Nat) (remaining : RemainingAccounts)
    (hi : i.bridged = some (id, remaining)) (s : SubPoolState)
    (hs : st.subPools.get? id = some s) :
    (∀ st', i.exec token st = .ok st' →
      ∀ d, ∀ b ∈ (s.dormant d).live, b.seeds ∈ remaining.accounts) ∧
    ∀ d, ∀ b ∈ (s.dormant d).live, b.seeds ∉ remaining.accounts →
      ∃ e, i.exec token st = .error e := by
  have hall : ∀ st', i.exec token st = .ok st' →
      ∀ d, ∀ b ∈ (s.dormant d).live, b.seeds ∈ remaining.accounts := by
    intro st' he d b hb
    obtain ⟨call, st1, outcome, hr⟩ := Instruction.exec_bridged hi he
    obtain ⟨s0, t, view, long, short, long', short', hc⟩ := h.sane.bridged hr
    have hfound := hc.found
    rw [hs] at hfound
    cases hfound
    exact hc.live_supplied hb
  refine ⟨hall, fun d b hb hmiss => ?_⟩
  cases he : i.exec token st with
  | error e => exact ⟨e, rfl⟩
  | ok st' => exact absurd (hall st' he d b hb) hmiss

def dormantAccounts : List ChainOp :=
  [.instruction (.initializeDistributionLedger 0 true),
    .instruction (.initializeDistributionLedger 0 false),
    .instruction (.initializeDormantBucket 0 true 90)]

def publishPrice (price : Nat) : ChainOp := .publish ⟨5, Pyth.feed price 7⟩

def anyQuote : PriceEnvelope := ⟨amount 1, 0, 0, u64Size, by decide⟩

def longBucket (tick : Int) : BucketSeeds := ⟨0, true, tick⟩

def syncWith (ticks : List Int) : Instruction :=
  .syncPool 0 anyQuote ⟨ticks.map longBucket, ticks.length, 0⟩

/-- The price falls to 90, where the long pool is empty. -/
def longDrained : List ChainOp :=
  bothSides ++ dormantAccounts ++ [publishPrice 90, .instruction (syncWith [90])]

/-- The bucket that appeared has accrued nothing, and no call may leave it out. -/
theorem longDrained_missing :
    (chainRun 0 longDrained).1 = longDrained.map (fun _ => none) ∧
    ∃ s, (chainRun 0 longDrained).2.subPools.get? 0 = some s ∧
      (s.dormant .long).live.map (fun b => (b.seeds, b.accruedValue)) = [(longBucket 90, 0)] ∧
      ∃ e, (syncWith []).exec splToken (chainRun 0 longDrained).2 = .error e := by
  have hruns : (chainRun 0 longDrained).1 = longDrained.map (fun _ => none) := by decide +kernel
  have hlive : ((chainRun 0 longDrained).2.subPools.get? 0).map (fun s =>
      (s.dormant .long).live.map (fun b => (b.seeds, b.accruedValue)))
        = some [(longBucket 90, 0)] := by decide +kernel
  obtain ⟨s, hs, hb⟩ := Option.map_eq_some_iff.mp hlive
  refine ⟨hruns, s, hs, hb, ?_⟩
  have hlen : (s.dormant .long).live ≠ [] := by
    rintro hnil
    rw [hnil] at hb
    cases hb
  obtain ⟨b, hmem⟩ := List.exists_mem_of_ne_nil _ hlen
  exact (missing_bucket_detected splToken _ (chainRun_reached (by decide) longDrained) (syncWith [])
    0 _ rfl s hs).2 .long b hmem (by simp)

end MoleFinance
