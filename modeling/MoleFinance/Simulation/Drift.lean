import MoleFinance.Simulation.Settlement

/-! The funds of the oracle over a run: rounding moves them by less than one unit for each
position but two. -/
namespace MoleFinance
open MoleMath Call

namespace Simulation
variable {pNow : Nat} {ps ps' : List OraclePosition} {pos : OraclePosition}

/-- The margin covers the locked loss, and a closed position has nothing left. -/
structure Sound (pos : OraclePosition) : Prop where
  covered : pos.lockedLoss ≤ pos.principal
  gone : pos.closed = true → pos.equity = 0

/-- What one operation may do to a position. -/
structure Onward (pos pos' : OraclePosition) : Prop where
  id : pos'.id = pos.id
  direction : pos'.direction = pos.direction
  principal : pos'.principal = pos.principal
  notional : pos'.notional = pos.notional
  locked : pos.lockedLoss ≤ pos'.lockedLoss
  closed : pos.closed = true → pos' = pos

theorem Onward.refl (pos : OraclePosition) : Onward pos pos :=
  ⟨rfl, rfl, rfl, rfl, le_rfl, fun _ => rfl⟩

theorem Onward.trans {p q r : OraclePosition} (h : Onward p q) (h' : Onward q r) :
    Onward p r where
  id := h'.id.trans h.id
  direction := h'.direction.trans h.direction
  principal := h'.principal.trans h.principal
  notional := h'.notional.trans h.notional
  locked := h.locked.trans h'.locked
  closed hp := by
    obtain rfl := h.closed hp
    exact h'.closed hp

theorem pnl_closed (hc : pos.closed = true) : pnl pNow pos = 0 := if_pos (Or.inl hc)

section Settled
variable {sum : SettleSummary}

theorem settled_closed (hc : pos.closed = true) : settled pNow sum pos = pos := by
  have hgain : gainOf pNow pos = 0 := by simp [gainOf, pnl_closed hc]
  have hloss : lossOf pNow pos = 0 := by simp [lossOf, pnl_closed hc]
  rw [settled, hgain, hloss, credited_zero, charged_zero, roll, if_pos hc]

theorem roll_equity (pNow : Nat) (pos : OraclePosition) : (roll pNow pos).equity = pos.equity := by
  unfold roll
  split <;> rfl

theorem roll_locked (pNow : Nat) (pos : OraclePosition) :
    (roll pNow pos).lockedLoss = pos.lockedLoss ∧ (roll pNow pos).principal = pos.principal := by
  unfold roll
  split <;> exact ⟨rfl, rfl⟩

theorem roll_onward (h : Onward pos pos') : Onward pos (roll pNow pos') := by
  unfold roll
  split
  · exact h
  · rename_i hopen
    refine ⟨h.id, h.direction, h.principal, h.notional, h.locked, fun hc => ?_⟩
    exact absurd (h.closed hc ▸ hc) hopen

/-- The cap of the margin never bites: a position gets its shares to the unit. -/
theorem equity_settled (h : pos.lockedLoss ≤ pos.principal)
    (hT : sum.actualTransfer ≤ sum.totalRealizableLoss) :
    (settled pNow sum pos).equity
        + proRata sum.actualTransfer sum.totalRealizableLoss (lossOf pNow pos)
      = pos.equity + proRata sum.actualTransfer sum.totalProfit (gainOf pNow pos) := by
  have hshare : proRata sum.actualTransfer sum.totalRealizableLoss (lossOf pNow pos)
      ≤ lossOf pNow pos := proRata_le_part hT
  have hmargin : lossOf pNow pos ≤ pos.remainingMargin := Nat.min_le_right _ _
  rw [settled, roll_equity]
  simp only [charged, credited, OraclePosition.equity, OraclePosition.remainingMargin] at *
  generalize proRata sum.actualTransfer sum.totalRealizableLoss (lossOf pNow pos) = share at *
  generalize proRata sum.actualTransfer sum.totalProfit (gainOf pNow pos) = gain
  omega

theorem settled_covered (h : pos.lockedLoss ≤ pos.principal) :
    (settled pNow sum pos).lockedLoss ≤ (settled pNow sum pos).principal := by
  obtain ⟨hlocked, hprincipal⟩ := roll_locked pNow (charged sum.actualTransfer
    sum.totalRealizableLoss (lossOf pNow pos)
    (credited sum.actualTransfer sum.totalProfit (gainOf pNow pos) pos))
  rw [settled, hlocked, hprincipal]
  simp only [charged, credited, OraclePosition.remainingMargin]
  omega

theorem settled_onward (pNow : Nat) (sum : SettleSummary) (pos : OraclePosition) :
    Onward pos (settled pNow sum pos) := by
  cases hc : pos.closed with
  | true =>
    rw [settled_closed hc]
    exact .refl pos
  | false =>
    refine roll_onward ⟨rfl, rfl, rfl, rfl, Nat.le_add_right _ _, fun h => ?_⟩
    rw [hc] at h
    cases h

theorem settled_sound (h : Sound pos) : Sound (settled pNow sum pos) := by
  refine ⟨settled_covered h.covered, fun hc => ?_⟩
  cases hopen : pos.closed with
  | true =>
    rw [settled_closed hopen]
    exact h.gone hopen
  | false =>
    have hstill : (settled pNow sum pos).closed = pos.closed := by
      unfold settled roll
      split <;> rfl
    rw [hstill, hopen] at hc
    cases hc

end Settled

def totalEquity (ps : List OraclePosition) : Nat := (ps.map OraclePosition.equity).sum

def totalPrincipal (ps : List OraclePosition) : Nat := (ps.map OraclePosition.principal).sum

theorem sum_zipped {f g u v : OraclePosition → Nat}
    (h : ∀ pos ∈ ps, f pos + u pos = g pos + v pos) :
    (ps.map f).sum + (ps.map u).sum = (ps.map g).sum + (ps.map v).sum := by
  induction ps with
  | nil => rfl
  | cons p ps ih =>
    have hp := h p List.mem_cons_self
    have hps := ih fun x hx => h x (List.mem_cons_of_mem _ hx)
    simp only [List.map_cons, List.sum_cons]
    omega

theorem winners_losers (pNow : Nat) (ps : List OraclePosition) :
    (gains pNow ps).countP (0 < ·) + (losses pNow ps).countP (0 < ·) ≤ ps.length := by
  induction ps with
  | nil => simp [gains, losses]
  | cons p ps ih =>
    have hone := gain_or_loss pNow p
    simp only [gains, losses, List.map_cons, List.countP_cons, List.length_cons] at ih ⊢
    split <;> split <;> simp_all <;> omega

/-- The funds before and after, apart by less than the number of positions less one. -/
theorem Settled.drift {sum : SettleSummary} (h : Settled pNow ps ps' sum)
    (hsound : ∀ pos ∈ ps, Sound pos) :
    totalEquity ps' ≤ totalEquity ps + (ps.length - 2) ∧
      totalEquity ps ≤ totalEquity ps' + (ps.length - 2) := by
  have hT : sum.actualTransfer ≤ sum.totalRealizableLoss := by
    rw [h.transfer]
    exact Nat.min_le_right _ _
  have hsum : totalEquity ps' + ((losses pNow ps).map
        (proRata sum.actualTransfer sum.totalRealizableLoss)).sum
      = totalEquity ps + ((gains pNow ps).map
        (proRata sum.actualTransfer sum.totalProfit)).sum := by
    rw [h.positions]
    simp only [totalEquity, losses, gains, List.map_map]
    exact sum_zipped fun pos hpos => equity_settled (hsound pos hpos).covered hT
  have hlosers := split_le sum.actualTransfer (losses pNow ps)
  have hwinners := split_le sum.actualTransfer (gains pNow ps)
  rw [← h.totalLoss] at hlosers
  rw [← h.totalProfit] at hwinners
  by_cases hzero : sum.actualTransfer = 0
  · omega
  have hL : 0 < (losses pNow ps).sum := by
    have := h.transfer
    rw [← h.totalLoss]
    omega
  have hP : 0 < (gains pNow ps).sum := by
    have := h.transfer
    rw [← h.totalProfit]
    omega
  have hl := split_residual_lt sum.actualTransfer hL
  have hg := split_residual_lt sum.actualTransfer hP
  rw [← h.totalLoss] at hl
  rw [← h.totalProfit] at hg
  have hboth := winners_losers pNow ps
  omega

inductive OracleOp where
  | join (id : Nat) (direction : Direction) (principal leverageBps entryPrice : Nat)
  | settle (pNow : Nat)
  | close (idx pNow : Nat)

/-- The positions, and what was paid out. -/
structure Book where
  positions : List OraclePosition
  paid : Nat

def step (b : Book) : OracleOp → Except OracleError Book
  | .join id direction principal leverageBps entryPrice => do
    let pos ← OraclePosition.new id direction principal leverageBps entryPrice
    return { b with positions := b.positions ++ [pos] }
  | .settle pNow => do
    let (ps, _) ← Simulation.settle b.positions pNow
    return { b with positions := ps }
  | .close idx pNow => do
    let (ps, amount) ← Simulation.close b.positions idx pNow
    return ⟨ps, b.paid + amount⟩

def run : List OracleOp → Book → Except OracleError Book
  | [], b => return b
  | op :: ops, b => do
    let b ← step b op
    run ops b

/-- The positions of before are still there, and did what a position may do. -/
def Grows (ps ps' : List OraclePosition) : Prop :=
  ∀ (i : Nat) (pos : OraclePosition), ps[i]? = some pos →
    ∃ pos', ps'[i]? = some pos' ∧ Onward pos pos'

theorem Grows.refl (ps : List OraclePosition) : Grows ps ps := fun _ pos h => ⟨pos, h, .refl pos⟩

theorem Grows.trans {ps1 ps2 ps3 : List OraclePosition} (h : Grows ps1 ps2) (h' : Grows ps2 ps3) :
    Grows ps1 ps3 := by
  intro i pos hi
  obtain ⟨q, hq, hpq⟩ := h i pos hi
  obtain ⟨r, hr, hqr⟩ := h' i q hq
  exact ⟨r, hr, hpq.trans hqr⟩

/-- What `k` operations did: nothing is lost but by rounding. -/
structure Drifted (k : Nat) (b b' : Book) : Prop where
  sound : ∀ pos ∈ b'.positions, Sound pos
  grows : Grows b.positions b'.positions
  length : b.positions.length ≤ b'.positions.length
  upper : b'.paid + totalEquity b'.positions + totalPrincipal b.positions
    ≤ b.paid + totalEquity b.positions + totalPrincipal b'.positions
      + (b'.positions.length - 2) * k
  lower : b.paid + totalEquity b.positions + totalPrincipal b'.positions
    ≤ b'.paid + totalEquity b'.positions + totalPrincipal b.positions
      + (b'.positions.length - 2) * k

theorem totalPrincipal_settled {sum : SettleSummary} (h : Settled pNow ps ps' sum) :
    totalPrincipal ps' = totalPrincipal ps := by
  rw [h.positions, totalPrincipal, totalPrincipal, List.map_map]
  congr 1
  exact List.map_congr_left fun pos _ => (settled_onward pNow sum pos).principal

theorem Settled.grows {sum : SettleSummary} (h : Settled pNow ps ps' sum) : Grows ps ps' := by
  intro i pos hi
  rw [h.positions, List.getElem?_map, hi]
  exact ⟨_, rfl, settled_onward pNow sum pos⟩

theorem Settled.sound {sum : SettleSummary} (h : Settled pNow ps ps' sum)
    (hsound : ∀ pos ∈ ps, Sound pos) : ∀ pos ∈ ps', Sound pos := by
  intro pos hpos
  rw [h.positions] at hpos
  obtain ⟨p, hp, rfl⟩ := List.mem_map.mp hpos
  exact settled_sound (hsound p hp)

theorem Settled.length {sum : SettleSummary} (h : Settled pNow ps ps' sum) :
    ps'.length = ps.length := by
  rw [h.positions, List.length_map]

theorem Settled.drifted {sum : SettleSummary} {b : Book} (h : Settled pNow b.positions ps' sum)
    (hsound : ∀ pos ∈ b.positions, Sound pos) : Drifted 1 b { b with positions := ps' } := by
  obtain ⟨hup, hlow⟩ := h.drift hsound
  have hprincipal := totalPrincipal_settled h
  refine ⟨h.sound hsound, h.grows, h.length.ge, ?_, ?_⟩
  · simp only [h.length, hprincipal]
    omega
  · simp only [h.length, hprincipal]
    omega

theorem new_sound {id principal leverageBps entryPrice : Nat} {direction : Direction}
    (h : OraclePosition.new id direction principal leverageBps entryPrice = .ok pos) :
    Sound pos ∧ pos.equity = pos.principal := by
  obtain ⟨notional, -, h⟩ := except_bind_ok.mp h
  cases h
  refine ⟨⟨Nat.zero_le _, fun hc => ?_⟩, ?_⟩
  · cases hc
  · simp [OraclePosition.equity]

/-- The closed position in place of the open one. -/
def gone (pos : OraclePosition) : OraclePosition :=
  { pos with closed := true, realizedProfitBalance := 0, lockedLoss := pos.principal }

theorem gone_sound (pos : OraclePosition) : Sound (gone pos) ∧ (gone pos).equity = 0 := by
  have hzero : (gone pos).equity = 0 := by simp [gone, OraclePosition.equity]
  exact ⟨⟨le_rfl, fun _ => hzero⟩, hzero⟩

theorem gone_onward (h : Sound pos) (hopen : pos.closed = false) : Onward pos (gone pos) := by
  refine ⟨rfl, rfl, rfl, rfl, h.covered, fun hc => ?_⟩
  rw [hopen] at hc
  cases hc

theorem sum_set (f : OraclePosition → Nat) {i : Nat} (pos' : OraclePosition)
    (h : ps[i]? = some pos) :
    ((ps.set i pos').map f).sum + f pos = (ps.map f).sum + f pos' := by
  induction ps generalizing i with
  | nil => cases h
  | cons p ps ih =>
    cases i with
    | zero =>
      obtain rfl : p = pos := Option.some_inj.mp h
      simp only [List.set_cons_zero, List.map_cons, List.sum_cons]
      omega
    | succ i =>
      have hrest := ih h
      simp only [List.set_cons_succ, List.map_cons, List.sum_cons]
      omega

theorem Grows.set {i : Nat} (h : ps[i]? = some pos) {pos' : OraclePosition}
    (hon : Onward pos pos') : Grows ps (ps.set i pos') := by
  intro j p hj
  rw [List.getElem?_set]
  split
  · rename_i hij
    subst hij
    obtain rfl : pos = p := Option.some_inj.mp (h.symm.trans hj)
    have hlt : i < ps.length := (List.getElem?_eq_some_iff.mp h).1
    rw [if_pos hlt]
    exact ⟨pos', rfl, hon⟩
  · exact ⟨p, hj, .refl p⟩

theorem gone_drifted {b : Book} {i : Nat} (hsound : ∀ pos ∈ b.positions, Sound pos)
    (h : b.positions[i]? = some pos) (hopen : pos.closed = false) :
    Drifted 0 b ⟨b.positions.set i (gone pos), b.paid + pos.equity⟩ := by
  have hequity := sum_set OraclePosition.equity (gone pos) h
  have hprincipal := sum_set OraclePosition.principal (gone pos) h
  obtain ⟨hgone, hzero⟩ := gone_sound pos
  have hsame : (gone pos).principal = pos.principal := rfl
  refine ⟨fun p hp => ?_, .set h (gone_onward (hsound pos (List.mem_of_getElem? h)) hopen), ?_,
    ?_, ?_⟩
  · cases List.mem_or_eq_of_mem_set hp with
    | inl hp => exact hsound p hp
    | inr hp => exact hp ▸ hgone
  · simp
  · simp only [totalEquity, totalPrincipal]
    omega
  · simp only [totalEquity, totalPrincipal]
    omega

theorem Drifted.trans {k l : Nat} {b1 b2 b3 : Book} (h : Drifted k b1 b2)
    (h' : Drifted l b2 b3) : Drifted (k + l) b1 b3 := by
  have hlen := h'.length
  have hk : (b2.positions.length - 2) * k ≤ (b3.positions.length - 2) * k :=
    Nat.mul_le_mul_right k (by omega)
  have hup := h.upper
  have hup' := h'.upper
  have hlow := h.lower
  have hlow' := h'.lower
  refine ⟨h'.sound, h.grows.trans h'.grows, h.length.trans h'.length, ?_, ?_⟩
  · rw [Nat.mul_add]
    omega
  · rw [Nat.mul_add]
    omega

/-- The number of settlements of an operation. -/
def OracleOp.settlements : OracleOp → Nat
  | .join _ _ _ _ _ => 0
  | .settle _ => 1
  | .close _ _ => 1

theorem step_drifted {b b' : Book} {op : OracleOp} (hsound : ∀ pos ∈ b.positions, Sound pos)
    (h : step b op = .ok b') : Drifted op.settlements b b' := by
  cases op with
  | join id direction principal leverageBps entryPrice =>
    obtain ⟨pos, hpos, h⟩ := except_bind_ok.mp h
    cases h
    obtain ⟨hnew, hequity⟩ := new_sound hpos
    refine ⟨fun p hp => ?_, fun i p hi => ⟨p, ?_, .refl p⟩, ?_, ?_, ?_⟩
    · cases List.mem_append.mp hp with
      | inl hp => exact hsound p hp
      | inr hp => exact List.mem_singleton.mp hp ▸ hnew
    · rw [List.getElem?_append_left (List.getElem?_eq_some_iff.mp hi).1]
      exact hi
    · simp
    · simp only [totalEquity, totalPrincipal, List.map_append, List.sum_append, List.map_cons,
        List.map_nil, List.sum_cons, List.sum_nil, hequity]
      omega
    · simp only [totalEquity, totalPrincipal, List.map_append, List.sum_append, List.map_cons,
        List.map_nil, List.sum_cons, List.sum_nil, hequity]
      omega
  | settle pNow =>
    obtain ⟨⟨ps, sum⟩, hps, h⟩ := except_bind_ok.mp h
    cases h
    exact (settle_ok hps).drifted hsound
  | close idx pNow =>
    obtain ⟨⟨ps, amount⟩, hclose, h⟩ := except_bind_ok.mp h
    cases h
    obtain ⟨⟨ps1, sum⟩, hps1, hclose⟩ := except_bind_ok.mp hclose
    have hsettled := settle_ok hps1
    have hdrift := hsettled.drifted hsound
    dsimp only at hclose
    split at hclose
    · cases hclose
    rename_i pos hpos
    split at hclose
    · cases hclose
      exact hdrift
    · rename_i hopen
      cases hclose
      have hgone := gone_drifted (b := { b with positions := ps1 }) (hsettled.sound hsound) hpos
        (Bool.eq_false_iff.mpr hopen)
      exact hdrift.trans hgone

/-- A run of the oracle from any sound book in which every call succeeds: every position keeps its
terms, its locked loss only grows and stays within its principal, and what was paid out and what
is left is what was paid in, up to a unit for each position but two and each settlement. -/
theorem run_drifted {ops : List OracleOp} {b b' : Book}
    (hsound : ∀ pos ∈ b.positions, Sound pos) (h : run ops b = .ok b') :
    Drifted (ops.map OracleOp.settlements).sum b b' := by
  induction ops generalizing b with
  | nil =>
    cases h
    exact ⟨hsound, .refl _, le_rfl, by omega, by omega⟩
  | cons op ops ih =>
    obtain ⟨b1, hb1, h⟩ := except_bind_ok.mp h
    have hone := step_drifted hsound hb1
    exact hone.trans (ih hone.sound h)

/-- Three traders, two of them on the losing side, and one of them leaves. -/
def threeOps : List OracleOp :=
  [.join 0 .long 100 20000 1000, .join 1 .short 70 20000 1000, .join 2 .short 31 20000 1000,
    .settle 1010, .close 0 1003]

theorem run_drifted_three : ∃ b, run threeOps ⟨[], 0⟩ = .ok b ∧ Drifted 2 ⟨[], 0⟩ b := by
  have hok : (run threeOps ⟨[], 0⟩).toOption.isSome = true := by decide +kernel
  cases hrun : run threeOps ⟨[], 0⟩ with
  | error e =>
    rw [hrun] at hok
    cases hok
  | ok b => exact ⟨b, rfl, run_drifted (fun _ hpos => by cases hpos) hrun⟩

end Simulation

end MoleFinance
