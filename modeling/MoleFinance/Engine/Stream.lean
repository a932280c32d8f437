import MoleFinance.Engine.Events
import MoleFinance.Engine.Frame

/-! The event stream of a run: its events carry the id of the sub-pool, and name positions that
the run has opened. -/
namespace MoleFinance
open MoleMath Call Trace

namespace EngineEvent

def subPoolId : EngineEvent → Nat
  | .poolSync ev => ev.subPoolId
  | .positionOpened ev => ev.subPoolId
  | .positionClosed ev => ev.subPoolId
  | .positionForceClosed ev => ev.subPoolId
  | .dormantRecoveryClaimed ev => ev.subPoolId
  | .activeRotatedToRecovery ev => ev.subPoolId
  | .dustHarvested ev => ev.subPoolId
  | .dormantBucketPendingApplied ev => ev.subPoolId

def positionId : EngineEvent → Option Nat
  | .positionOpened ev => some ev.positionId
  | .positionClosed ev => some ev.positionId
  | .positionForceClosed ev => some ev.positionId
  | .dormantRecoveryClaimed ev => some ev.positionId
  | _ => none

def opens : EngineEvent → Option Nat
  | .positionOpened ev => some ev.positionId
  | _ => none

end EngineEvent

theorem opens_positionId {event : EngineEvent} {id : Nat} (h : event.opens = some id) :
    event.positionId = some id := by
  cases event <;> simp_all [EngineEvent.opens, EngineEvent.positionId]

theorem Rotation.subPoolId {market : MarketParams} {envelope : PriceEnvelope} {d : Direction}
    {s s' : SubPool} {es : List EngineEvent} (h : Rotation market envelope d s es s') :
    s'.subPoolId = s.subPoolId ∧ ∀ e ∈ es, e.subPoolId = s.subPoolId := by
  cases h with
  | none => exact ⟨rfl, by simp⟩
  | rotated tick x =>
    refine ⟨SubPool.setSide_subPoolId _ _ _, fun e he => ?_⟩
    obtain rfl := List.mem_singleton.mp he
    rfl

theorem SyncPart.subPoolId {market : MarketParams} {s s' : SubPool} {es : List EngineEvent}
    (h : SyncPart market s es s') :
    s'.subPoolId = s.subPoolId ∧ ∀ e ∈ es, e.subPoolId = s.subPoolId := by
  cases h with
  | kept s' hid hs => exact ⟨hid, by simp⟩
  | moved envelope demands s1 s2 s3 long short longEvents shortEvents h0 hp hdem hset hlong
      hshort =>
    have h1 : (s1.atPrice envelope).subPoolId = s.subPoolId := (settleDemands_framed hset).id_eq
    obtain ⟨h2, e2⟩ := hlong.subPoolId
    obtain ⟨h3, e3⟩ := hshort.subPoolId
    rw [h1] at h2 e2
    rw [h2] at h3 e3
    refine ⟨h3, fun e he => ?_⟩
    cases he with
    | head => rfl
    | tail _ he =>
      cases List.mem_append.mp he with
      | inl he => exact e2 e he
      | inr he => exact e3 e he

theorem Act.subPoolId {w w' : World} {burns : Option Nat} {es : List EngineEvent}
    (h : Act w burns es w') : w'.subPool.subPoolId = w.subPool.subPoolId ∧
      ∀ e ∈ es, e.subPoolId = w.subPool.subPoolId := by
  cases h with
  | idle => exact ⟨rfl, by simp⟩
  | opened market s envelope d gross id s' p out sync hk ho =>
    rw [List.forall_mem_singleton]
    refine ⟨?_, rfl⟩
    rw [ho.state]
    exact SubPool.setSide_subPoolId _ _ _
  | closed slot k p p1 p2 p3 s2 s3 b v paid r hk hm hact hrec hp =>
    rw [List.forall_mem_singleton]
    have hid := (settleRecovery_carried hrec).2.trans (redeemActive_carried hact).2
    exact ⟨hid, hid⟩
  | forceClosed slot k p p1 p2 p3 s2 s3 s4 b burned removed r hk hm hact hrec hd =>
    rw [List.forall_mem_singleton]
    have hid := (settleRecovery_carried hrec).2.trans (forfeitActive_carried hact).2
    rw [addDust_ok hd]
    have h4 := (SubPool.setSide_subPoolId s3 p3.direction { s3.side p3.direction with
      dust := (s3.side p3.direction).dust + r.redeemable }).trans hid
    exact ⟨h4, h4⟩
  | claimed slot k p p1 p2 s2 b tick r hk hm h0 hrec =>
    rw [List.forall_mem_singleton]
    have hid := (redeemRecovery_carried hrec).2
    exact ⟨hid, hid⟩
  | harvested d =>
    rw [List.forall_mem_singleton]
    exact ⟨SubPool.setSide_subPoolId _ _ _, rfl⟩
  | preSynced d tick n dormant ev hsub happ =>
    rw [List.forall_mem_singleton]
    exact ⟨SubPool.setSide_subPoolId _ _ _, hsub⟩

def World.has (w : World) (id : Nat) : Prop := (w.positions.get? id).isSome

theorem World.has_insert {w : World} {s : SubPool} {k : Nat} {p : Position} {id : Nat}
    (h : World.has ⟨s, w.positions.insert k p⟩ id) : id = k ∨ w.has id := by
  unfold World.has at h
  rw [OrdMap.get?_insert] at h
  split_ifs at h with hk
  · exact .inl hk
  · exact .inr h

theorem SyncPart.names_none {market : MarketParams} {s s' : SubPool} {es : List EngineEvent}
    (h : SyncPart market s es s') : ∀ e ∈ es, e.positionId = none := by
  have hrot : ∀ {envelope : PriceEnvelope} {d : Direction} {s s' : SubPool}
      {es : List EngineEvent}, Rotation market envelope d s es s' →
      ∀ e ∈ es, e.positionId = none := by
    intro envelope d s s' es h e he
    cases h with
    | none => cases he
    | rotated =>
      obtain rfl := List.mem_singleton.mp he
      rfl
  cases h with
  | kept => simp
  | moved envelope demands s1 s2 s3 long short longEvents shortEvents h0 hp hdem hset hlong
      hshort =>
    intro e he
    cases he with
    | head => rfl
    | tail _ he =>
      cases List.mem_append.mp he with
      | inl he => exact hrot hlong e he
      | inr he => exact hrot hshort e he

/-- An action names a position it finds or opens, and every new position has its event. -/
theorem Act.names {w w' : World} {burns : Option Nat} {es : List EngineEvent} (h : w.Inv)
    (ha : Act w burns es w') :
    (∀ e ∈ es, ∀ id, e.positionId = some id → w.has id ∨ e.opens = some id) ∧
      ∀ id, w'.has id → w.has id ∨ ∃ e ∈ es, e.opens = some id := by
  have hold : ∀ {k : Nat} {p q : Position} {s : SubPool}, w.positions.get? k = some p →
      Carried p q → ∀ {id : Nat}, some q.positionId = some id → w.has id := by
    intro k p q s hk hc id hid
    have hkey := (h.keyed k p hk).1
    rw [hc.id, hkey] at hid
    cases hid
    rw [World.has, hk]
    rfl
  have hkept : ∀ {k : Nat} {p q : Position} {s : SubPool}, w.positions.get? k = some p →
      ∀ id, World.has ⟨s, w.positions.insert k q⟩ id → w.has id := by
    intro k p q s hk id hid
    cases World.has_insert hid with
    | inl hid =>
      rw [World.has, hid, hk]
      rfl
    | inr hid => exact hid
  cases ha with
  | idle => exact ⟨by simp, fun _ => .inl⟩
  | opened market s envelope d gross id s' p out sync hk ho =>
    refine ⟨fun e he j hj => ?_, fun j hj => ?_⟩
    · obtain rfl := List.mem_singleton.mp he
      exact .inr hj
    · cases World.has_insert hj with
      | inl hj => exact .inr ⟨_, List.mem_singleton_self _, congrArg some hj.symm⟩
      | inr hj => exact .inl hj
  | closed slot k p p1 p2 p3 s2 s3 b v paid r hk hm hact hrec hp =>
    have hc := (lazyMigratePosition_ok hm).carried.trans
      ((redeemActive_carried hact).1.trans (settleRecovery_carried hrec).1)
    refine ⟨fun e he j hj => ?_, fun j hj => .inl (hkept hk j hj)⟩
    obtain rfl := List.mem_singleton.mp he
    exact .inl (hold (s := s3) hk hc hj)
  | forceClosed slot k p p1 p2 p3 s2 s3 s4 b burned removed r hk hm hact hrec hd =>
    have hc := (lazyMigratePosition_ok hm).carried.trans
      ((forfeitActive_carried hact).1.trans (settleRecovery_carried hrec).1)
    refine ⟨fun e he j hj => ?_, fun j hj => .inl (hkept hk j hj)⟩
    obtain rfl := List.mem_singleton.mp he
    exact .inl (hold (s := s3) hk hc hj)
  | claimed slot k p p1 p2 s2 b tick r hk hm h0 hrec =>
    have hc := (lazyMigratePosition_ok hm).carried.trans (redeemRecovery_carried hrec).1
    refine ⟨fun e he j hj => ?_, fun j hj => .inl (hkept hk j hj)⟩
    obtain rfl := List.mem_singleton.mp he
    exact .inl (hold (s := s2) hk hc hj)
  | harvested d =>
    refine ⟨fun e he j hj => ?_, fun j hj => .inl hj⟩
    obtain rfl := List.mem_singleton.mp he
    cases hj
  | preSynced d tick n dormant ev hsub happ =>
    refine ⟨fun e he j hj => ?_, fun j hj => .inl hj⟩
    obtain rfl := List.mem_singleton.mp he
    cases hj

def eventsOf (ops : List (MarketParams × EngineOp)) (w : World) : List EngineEvent :=
  (run EngineOp.step ops w).1.flatMap Answer.events

theorem eventsOf_cons (op : MarketParams × EngineOp) (ops : List (MarketParams × EngineOp))
    (w : World) : eventsOf (op :: ops) w
      = (EngineOp.step op w).1.events ++ eventsOf ops (EngineOp.step op w).2 := rfl

theorem step_names {w : World} (h : w.Inv) (op : MarketParams × EngineOp) :
    (EngineOp.step op w).2.Inv ∧
    ((EngineOp.step op w).2.subPool.subPoolId = w.subPool.subPoolId ∧
      ∀ e ∈ (EngineOp.step op w).1.events, e.subPoolId = w.subPool.subPoolId) ∧
    (∀ e ∈ (EngineOp.step op w).1.events, ∀ id, e.positionId = some id →
      w.has id ∨ e.opens = some id) ∧
    ∀ id, (EngineOp.step op w).2.has id →
      w.has id ∨ ∃ e ∈ (EngineOp.step op w).1.events, e.opens = some id := by
  obtain ⟨market, op⟩ := op
  cases hc : op.call market w with
  | none =>
    simp only [EngineOp.step, hc]
    exact ⟨h, ⟨trivial, by simp [Answer.events]⟩, by simp [Answer.events], fun _ => .inl⟩
  | some r =>
    cases r with
    | error e =>
      simp only [EngineOp.step, hc]
      exact ⟨h, ⟨trivial, by simp [Answer.events]⟩, by simp [Answer.events], fun _ => .inl⟩
    | ok wr =>
      obtain ⟨w', reply⟩ := wr
      simp only [EngineOp.step, hc, Answer.events]
      obtain ⟨s1, es1, es2, hsync, h1, hact, hev⟩ := op.call_parts h hc
      obtain ⟨hnames, hnew⟩ := hact.names h1
      obtain ⟨hid1, hes1⟩ := hsync.subPoolId
      obtain ⟨hid2, hes2⟩ := hact.subPoolId
      refine ⟨World.step_inv h hc, ⟨hid2.trans hid1, fun e he => ?_⟩, fun e he id hid => ?_,
        fun id hid => ?_⟩
      · rw [hev] at he
        cases List.mem_append.mp he with
        | inl he => exact hes1 e he
        | inr he => exact (hes2 e he).trans hid1
      · rw [hev] at he
        cases List.mem_append.mp he with
        | inl he =>
          rw [hsync.names_none e he] at hid
          cases hid
        | inr he => exact hnames e he id hid
      · cases hnew id hid with
        | inl hhas => exact .inl hhas
        | inr hopen =>
          obtain ⟨e, he, ho⟩ := hopen
          rw [hev]
          exact .inr ⟨e, List.mem_append_right _ he, ho⟩

theorem eventsOf_names {w : World} (h : w.Inv) (ops : List (MarketParams × EngineOp)) :
    ∀ e ∈ eventsOf ops w, ∀ id, e.positionId = some id →
      w.has id ∨ ∃ e' ∈ eventsOf ops w, e'.opens = some id := by
  induction ops generalizing w with
  | nil => simp [eventsOf, run]
  | cons op ops ih =>
    obtain ⟨hinv, -, hnames, hnew⟩ := step_names h op
    intro e he id hid
    rw [eventsOf_cons] at he ⊢
    cases List.mem_append.mp he with
    | inl he =>
      exact (hnames e he id hid).imp_right fun ho => ⟨e, List.mem_append_left _ he, ho⟩
    | inr he =>
      cases ih hinv e he id hid with
      | inl hhas =>
        cases hnew id hhas with
        | inl hhas => exact .inl hhas
        | inr hopen =>
          obtain ⟨e', he', ho⟩ := hopen
          exact .inr ⟨e', List.mem_append_left _ he', ho⟩
      | inr hopen =>
        obtain ⟨e', he', ho⟩ := hopen
        exact .inr ⟨e', List.mem_append_right _ he', ho⟩

theorem eventsOf_subPoolId {w : World} (h : w.Inv) (ops : List (MarketParams × EngineOp)) :
    ∀ e ∈ eventsOf ops w, e.subPoolId = w.subPool.subPoolId := by
  induction ops generalizing w with
  | nil => simp [eventsOf, run]
  | cons op ops ih =>
    obtain ⟨hinv, ⟨hid, hes⟩, -⟩ := step_names h op
    intro e he
    rw [eventsOf_cons] at he
    cases List.mem_append.mp he with
    | inl he => exact hes e he
    | inr he => exact (ih hinv e he).trans hid

end MoleFinance
