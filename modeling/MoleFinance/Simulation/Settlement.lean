import MoleFinance.Simulation.Oracle

/-! What one settlement does to each position, and to the funds of all. -/
namespace MoleFinance
open MoleMath Call

namespace Simulation
variable {pNow : Nat} {ps : List OraclePosition} {pos : OraclePosition}

theorem orOracle_eq_ok {α : Type} {x : Except MathError α} {a : α} :
    orOracle x = .ok a ↔ x = .ok a := by
  cases x with
  | ok b => simp [orOracle]
  | error e => simp [orOracle]

/-- The pnl of a position since its reset price. -/
def pnl (pNow : Nat) (pos : OraclePosition) : Int :=
  if pos.closed = true ∨ pos.notional = 0 then 0
  else ((signedPnlIncrement pos.direction.sign pos.notional pos.resetPrice pNow).toOption).getD 0

def gainOf (pNow : Nat) (pos : OraclePosition) : Nat := (pnl pNow pos).toNat

def lossOf (pNow : Nat) (pos : OraclePosition) : Nat :=
  min (-pnl pNow pos).toNat pos.remainingMargin

theorem gain_or_loss (pNow : Nat) (pos : OraclePosition) :
    gainOf pNow pos = 0 ∨ lossOf pNow pos = 0 := by
  simp only [gainOf, lossOf]
  omega

def gains (pNow : Nat) (ps : List OraclePosition) : List Nat := ps.map (gainOf pNow)

def losses (pNow : Nat) (ps : List OraclePosition) : List Nat := ps.map (lossOf pNow)

/-- The positive amounts, with their index. -/
def indexed : Nat → List Nat → List (Nat × Nat)
  | _, [] => []
  | idx, v :: vs => if 0 < v then (idx, v) :: indexed (idx + 1) vs else indexed (idx + 1) vs

/-- The increments of these positions, behind others. -/
structure Collected (pNow idx : Nat) (ps : List OraclePosition) (acc inc : Increments) : Prop where
  profits : inc.profits = acc.profits ++ indexed idx (gains pNow ps)
  losses : inc.losses = acc.losses ++ indexed idx (losses pNow ps)
  totalProfit : inc.totalProfit = acc.totalProfit + (gains pNow ps).sum
  totalLoss : inc.totalRealizableLoss = acc.totalRealizableLoss + (Simulation.losses pNow ps).sum
  profitFits : acc.totalProfit < u128Size → inc.totalProfit < u128Size
  lossFits : acc.totalRealizableLoss < u128Size → inc.totalRealizableLoss < u128Size

theorem collect_ok {idx : Nat} {acc inc : Increments} (h : collect pNow idx ps acc = .ok inc) :
    Collected pNow idx ps acc inc := by
  induction ps generalizing idx acc with
  | nil =>
    cases h
    constructor <;> simp [gains, losses, indexed]
  | cons pos rest ih =>
    rw [collect] at h
    split at h
    · rename_i hskip
      have hpnl : pnl pNow pos = 0 := if_pos hskip
      have hgain : gainOf pNow pos = 0 := by simp [gainOf, hpnl]
      have hloss : lossOf pNow pos = 0 := by simp [lossOf, hpnl]
      have hrest := ih h
      constructor
      · simpa [gains, indexed, hgain] using hrest.profits
      · simpa [losses, indexed, hloss] using hrest.losses
      · simpa [gains, hgain] using hrest.totalProfit
      · simpa [losses, hloss] using hrest.totalLoss
      · exact hrest.profitFits
      · exact hrest.lossFits
    rename_i hskip
    obtain ⟨delta, hdelta, h⟩ := except_bind_ok.mp h
    have hpnl : pnl pNow pos = delta := by
      rw [pnl, if_neg hskip, orOracle_eq_ok.mp hdelta]
      rfl
    split at h
    · rename_i hpos
      obtain ⟨total, htotal, h⟩ := except_bind_ok.mp h
      obtain ⟨hfits, rfl⟩ := checkedAdd_ok.mp (orOracle_eq_ok.mp htotal)
      have hgain : gainOf pNow pos = delta.toNat := by rw [gainOf, hpnl]
      have hgain0 : 0 < delta.toNat := by omega
      have hloss : lossOf pNow pos = 0 := by
        rw [lossOf, hpnl]
        omega
      have hrest := ih h
      constructor
      · simpa [gains, indexed, hgain, hgain0] using hrest.profits
      · simpa [losses, indexed, hloss] using hrest.losses
      · simpa [gains, hgain, Nat.add_assoc] using hrest.totalProfit
      · simpa [losses, hloss] using hrest.totalLoss
      · exact fun _ => hrest.profitFits hfits
      · exact hrest.lossFits
    rename_i hpos
    have hgain : gainOf pNow pos = 0 := by
      rw [gainOf, hpnl]
      omega
    have hloss : lossOf pNow pos = min (-delta).toNat pos.remainingMargin := by
      rw [lossOf, hpnl]
    rw [← hloss] at h
    split at h
    · rename_i hloss0
      obtain ⟨total, htotal, h⟩ := except_bind_ok.mp h
      obtain ⟨hfits, rfl⟩ := checkedAdd_ok.mp (orOracle_eq_ok.mp htotal)
      have hrest := ih h
      constructor
      · simpa [gains, indexed, hgain] using hrest.profits
      · simpa [losses, indexed, hloss0] using hrest.losses
      · simpa [gains, hgain] using hrest.totalProfit
      · simpa [losses, Nat.add_assoc] using hrest.totalLoss
      · exact hrest.profitFits
      · exact fun _ => hrest.lossFits hfits
    · rename_i hloss0
      have hzero : lossOf pNow pos = 0 := by omega
      have hrest := ih h
      constructor
      · simpa [gains, indexed, hgain] using hrest.profits
      · simpa [losses, indexed, hzero] using hrest.losses
      · simpa [gains, hgain] using hrest.totalProfit
      · simpa [losses, hzero] using hrest.totalLoss
      · exact hrest.profitFits
      · exact hrest.lossFits

theorem updateAt_append {α : Type} (f : OraclePosition → Except OracleError (OraclePosition × α))
    (before : List OraclePosition) (pos : OraclePosition) (rest : List OraclePosition) :
    updateAt f before.length (before ++ pos :: rest)
      = (fun r => (before ++ r.1 :: rest, r.2)) <$> f pos := by
  induction before with
  | nil =>
    rw [List.length_nil, List.nil_append, updateAt]
    cases f pos <;> rfl
  | cons b before ih =>
    rw [List.length_cons, List.cons_append, updateAt, ih]
    cases f pos <;> rfl

/-- A loop over increments is a pass over the positions, where an increment of zero would
change nothing. -/
theorem distribute_ok {f : Nat → OraclePosition → Except OracleError (OraclePosition × Nat)}
    {F : Nat → OraclePosition → OraclePosition}
    (hf : ∀ inc pos r, f inc pos = .ok r → r.1 = F inc pos) (hzero : ∀ pos, F 0 pos = pos)
    {vs : List Nat} (hlen : vs.length = ps.length) (before : List OraclePosition) {a : Nat}
    {out : List OraclePosition × Nat}
    (h : distribute f (indexed before.length vs) a (before ++ ps) = .ok out) :
    out.1 = before ++ List.zipWith F vs ps := by
  induction vs generalizing ps before a with
  | nil =>
    have hnil : ps = [] := List.length_eq_zero_iff.mp hlen.symm
    subst hnil
    cases h
    rfl
  | cons v vs ih =>
    cases ps with
    | nil => cases hlen
    | cons pos rest =>
      have hrest : vs.length = rest.length := Nat.succ.inj hlen
      rw [indexed] at h
      split at h
      · rw [distribute, updateAt_append] at h
        obtain ⟨⟨ps1, amount⟩, hone, h⟩ := except_bind_ok.mp h
        obtain ⟨r, hr, heq⟩ := except_map_ok.mp hone
        cases heq
        obtain ⟨a', -, h⟩ := except_bind_ok.mp h
        rw [hf v pos r hr, List.append_cons] at h
        have hout := ih hrest (before ++ [F v pos]) (by simpa using h)
        simpa using hout
      · rename_i hv
        obtain rfl : v = 0 := Nat.eq_zero_of_not_pos hv
        have hout := ih hrest (before ++ [pos]) (by simpa using h)
        simpa [hzero] using hout

def credited (transfer total inc : Nat) (pos : OraclePosition) : OraclePosition :=
  { pos with realizedProfitBalance := pos.realizedProfitBalance + proRata transfer total inc }

def charged (transfer total realizable : Nat) (pos : OraclePosition) : OraclePosition :=
  let share := proRata transfer total realizable
  { pos with
    realizedProfitBalance := pos.realizedProfitBalance - share
    lockedLoss := pos.lockedLoss + min (share - pos.realizedProfitBalance) pos.remainingMargin }

theorem credit_ok {transfer total inc : Nat} (ht : total < u128Size)
    {r : OraclePosition × Nat} (h : credit transfer total inc pos = .ok r) :
    r.1 = credited transfer total inc pos := by
  obtain ⟨share, hshare, h⟩ := except_bind_ok.mp h
  obtain ⟨balance, hbalance, h⟩ := except_bind_ok.mp h
  obtain ⟨-, rfl⟩ := mulDivFloor_ok ht (orOracle_eq_ok.mp hshare)
  obtain ⟨-, rfl⟩ := checkedAdd_ok.mp (orOracle_eq_ok.mp hbalance)
  cases h
  rfl

theorem charge_ok {transfer total inc : Nat} (ht : total < u128Size)
    {r : OraclePosition × Nat} (h : charge transfer total inc pos = .ok r) :
    r.1 = charged transfer total inc pos := by
  obtain ⟨share, hshare, h⟩ := except_bind_ok.mp h
  obtain ⟨balance, hbalance, h⟩ := except_bind_ok.mp h
  obtain ⟨lockInc, hlockInc, h⟩ := except_bind_ok.mp h
  obtain ⟨locked, hlocked, h⟩ := except_bind_ok.mp h
  obtain ⟨-, rfl⟩ := mulDivFloor_ok ht (orOracle_eq_ok.mp hshare)
  obtain ⟨-, rfl⟩ := checkedSub_ok.mp (orOracle_eq_ok.mp hbalance)
  obtain ⟨-, rfl⟩ := checkedSub_ok.mp (orOracle_eq_ok.mp hlockInc)
  obtain ⟨-, rfl⟩ := checkedAdd_ok.mp (orOracle_eq_ok.mp hlocked)
  cases h
  have hbal : ∀ share, pos.realizedProfitBalance - min pos.realizedProfitBalance share
      = pos.realizedProfitBalance - share := fun share => by omega
  have hlock : ∀ share, share - min pos.realizedProfitBalance share
      = share - pos.realizedProfitBalance := fun share => by omega
  simp only [hbal, hlock]
  rfl

@[simp] theorem credited_zero (transfer total : Nat) (pos : OraclePosition) :
    credited transfer total 0 pos = pos := by simp [credited]

@[simp] theorem charged_zero (transfer total : Nat) (pos : OraclePosition) :
    charged transfer total 0 pos = pos := by simp [charged]

/-- What a settlement makes of a position. -/
def settled (pNow : Nat) (sum : SettleSummary) (pos : OraclePosition) : OraclePosition :=
  roll pNow (charged sum.actualTransfer sum.totalRealizableLoss (lossOf pNow pos)
    (credited sum.actualTransfer sum.totalProfit (gainOf pNow pos) pos))

structure Settled (pNow : Nat) (ps ps' : List OraclePosition) (sum : SettleSummary) : Prop where
  price : pNow ≠ 0
  totalProfit : sum.totalProfit = (gains pNow ps).sum
  totalLoss : sum.totalRealizableLoss = (losses pNow ps).sum
  transfer : sum.actualTransfer = min sum.totalProfit sum.totalRealizableLoss
  positions : ps' = ps.map (settled pNow sum)

theorem settle_ok {sum : SettleSummary} {ps' : List OraclePosition}
    (h : settle ps pNow = .ok (ps', sum)) : Settled pNow ps ps' sum := by
  obtain ⟨_, hprice, h⟩ := except_bind_ok.mp h
  obtain ⟨inc, hinc, h⟩ := except_bind_ok.mp h
  have hc := collect_ok hinc
  have hprofit : inc.totalProfit = (gains pNow ps).sum := hc.totalProfit.trans (Nat.zero_add _)
  have hloss : inc.totalRealizableLoss = (losses pNow ps).sum :=
    hc.totalLoss.trans (Nat.zero_add _)
  dsimp only at h
  split at h
  · rename_i hzero
    cases h
    refine ⟨ensure_ok.mp hprice, hprofit, hloss, rfl, List.map_congr_left fun pos _ => ?_⟩
    simp [settled, hzero, credited, charged]
  · obtain ⟨⟨ps1, a1⟩, h1, h⟩ := except_bind_ok.mp h
    obtain ⟨⟨ps2, a2⟩, h2, h⟩ := except_bind_ok.mp h
    cases h
    rw [hc.profits] at h1
    rw [hc.losses] at h2
    have hps1 := distribute_ok (fun _ _ _ => credit_ok (hc.profitFits (by decide)))
      (credited_zero _ _) (by simp [gains]) [] h1
    dsimp only [List.nil_append] at hps1
    have hlen : (losses pNow ps).length = ps1.length := by
      rw [hps1]
      simp [gains, losses]
    have hps2 := distribute_ok (fun _ _ _ => charge_ok (hc.lossFits (by decide)))
      (charged_zero _ _) hlen [] h2
    dsimp only [List.nil_append] at hps2
    refine ⟨ensure_ok.mp hprice, hprofit, hloss, rfl, ?_⟩
    rw [hps2, hps1, gains, losses]
    simp [List.zipWith_map_left, List.zipWith_map_right, settled]

/-! A settlement fails only while it collects, before any write. -/

@[simp] theorem orOracle_ok {α : Type} (a : α) : orOracle (.ok a) = .ok a := rfl

theorem collect_of {idx : Nat} {acc : Increments}
    (hpnl : ∀ pos ∈ ps, ¬(pos.closed = true ∨ pos.notional = 0) →
      ∃ delta, signedPnlIncrement pos.direction.sign pos.notional pos.resetPrice pNow = .ok delta)
    (hprofit : acc.totalProfit + (gains pNow ps).sum < u128Size)
    (hloss : acc.totalRealizableLoss + (losses pNow ps).sum < u128Size) :
    ∃ inc, collect pNow idx ps acc = .ok inc := by
  induction ps generalizing idx acc with
  | nil => exact ⟨acc, rfl⟩
  | cons pos rest ih =>
    have hrest : ∀ pos ∈ rest, ¬(pos.closed = true ∨ pos.notional = 0) → ∃ delta,
        signedPnlIncrement pos.direction.sign pos.notional pos.resetPrice pNow = .ok delta :=
      fun p hp => hpnl p (List.mem_cons_of_mem _ hp)
    simp only [gains, losses, List.map_cons, List.sum_cons] at hprofit hloss
    rw [collect]
    split
    · exact ih hrest (by rw [gains]; omega) (by rw [losses]; omega)
    rename_i hskip
    obtain ⟨delta, hdelta⟩ := hpnl pos List.mem_cons_self hskip
    have hpos : pnl pNow pos = delta := by
      rw [pnl, if_neg hskip, hdelta]
      rfl
    rw [hdelta, orOracle_ok, ok_bind]
    split
    · have hgain : gainOf pNow pos = delta.toNat := by rw [gainOf, hpos]
      rw [checkedAdd_ok.mpr ⟨by omega, rfl⟩, orOracle_ok, ok_bind]
      exact ih hrest (by dsimp only; rw [gains]; omega) (by dsimp only; rw [losses]; omega)
    have hlossOf : lossOf pNow pos = min (-delta).toNat pos.remainingMargin := by
      rw [lossOf, hpos]
    rw [← hlossOf]
    split
    · dsimp only
      rw [checkedAdd_ok.mpr ⟨by omega, rfl⟩, orOracle_ok, ok_bind]
      exact ih hrest (by dsimp only; rw [gains]; omega) (by dsimp only; rw [losses]; omega)
    · exact ih hrest (by rw [gains]; omega) (by rw [losses]; omega)

theorem distribute_of {f : Nat → OraclePosition → Except OracleError (OraclePosition × Nat)}
    {A : Nat → Nat} {vs : List Nat} (hlen : vs.length = ps.length)
    (hf : ∀ e ∈ List.zip vs ps, 0 < e.1 → ∃ r, f e.1 e.2 = .ok r ∧ r.2 ≤ A e.1)
    (before : List OraclePosition) {a : Nat} (ha : a + (vs.map A).sum < u128Size) :
    ∃ out, distribute f (indexed before.length vs) a (before ++ ps) = .ok out := by
  induction vs generalizing ps before a with
  | nil => exact ⟨_, rfl⟩
  | cons v vs ih =>
    cases ps with
    | nil => cases hlen
    | cons pos rest =>
      have hrest : ∀ e ∈ List.zip vs rest, 0 < e.1 → ∃ r, f e.1 e.2 = .ok r ∧ r.2 ≤ A e.1 :=
        fun e he => hf e (List.mem_cons_of_mem _ he)
      rw [List.map_cons, List.sum_cons] at ha
      rw [indexed]
      split
      · rename_i hv
        obtain ⟨r, hr, hle⟩ := hf (v, pos) List.mem_cons_self hv
        dsimp only at hr hle
        have hone : updateAt (f v) before.length (before ++ pos :: rest)
            = .ok (before ++ r.1 :: rest, r.2) := by
          rw [updateAt_append, hr]
          rfl
        rw [distribute, hone, ok_bind]
        dsimp only
        rw [checkedAdd_ok.mpr ⟨by omega, rfl⟩, orOracle_ok, ok_bind, List.append_cons]
        have hout := ih (Nat.succ.inj hlen) hrest (before ++ [r.1]) (a := a + r.2) (by omega)
        simpa using hout
      · have hout := ih (Nat.succ.inj hlen) hrest (before ++ [pos]) (a := a) (by omega)
        simpa using hout

theorem credit_of {transfer total inc : Nat} (hinc : inc ≤ total) (hpos : 0 < total)
    (ht : total < u128Size) (hle : transfer < u128Size)
    (hfit : pos.realizedProfitBalance + transfer < u128Size) :
    ∃ r, credit transfer total inc pos = .ok r ∧ r.2 ≤ proRata transfer total inc := by
  have hshare : proRata transfer total inc ≤ transfer := proRata_le hinc
  rw [proRata] at hshare
  rw [credit, mulDivFloor_le ht hinc hpos hle, orOracle_ok, ok_bind,
    checkedAdd_ok.mpr ⟨by omega, rfl⟩]
  exact ⟨_, rfl, le_rfl⟩

theorem charge_of {transfer total inc : Nat} (hinc : inc ≤ total) (hpos : 0 < total)
    (ht : total < u128Size) (hle : transfer < u128Size) (hcovered : pos.lockedLoss ≤ pos.principal)
    (hfit : pos.principal < u128Size) :
    ∃ r, charge transfer total inc pos = .ok r ∧ r.2 ≤ proRata transfer total inc := by
  have hlock : ∀ n, pos.lockedLoss + min n pos.remainingMargin < u128Size := by
    intro n
    simp only [OraclePosition.remainingMargin]
    omega
  rw [charge, mulDivFloor_le ht hinc hpos hle, orOracle_ok, ok_bind, proRata]
  simp only [checkedSub_ok.mpr ⟨Nat.min_le_left _ _, rfl⟩,
    checkedSub_ok.mpr ⟨Nat.min_le_right pos.realizedProfitBalance _, rfl⟩, orOracle_ok, ok_bind,
    checkedAdd_ok.mpr ⟨hlock _, rfl⟩]
  refine ⟨_, rfl, ?_⟩
  dsimp only
  omega

theorem sum_shares_le (fund total : Nat) (claims : List Nat) :
    (claims.map (proRata fund total)).sum * total ≤ fund * claims.sum := by
  induction claims with
  | nil => simp
  | cons c cs ih =>
    have hone : proRata fund total c * total ≤ fund * c := Nat.div_mul_le_self _ _
    simp only [List.map_cons, List.sum_cons, Nat.add_mul, Nat.mul_add]
    omega

theorem split_le (fund : Nat) (claims : List Nat) :
    (claims.map (proRata fund claims.sum)).sum ≤ fund := by
  by_cases h : claims.sum = 0
  · have hsum : (claims.map (proRata fund claims.sum)).sum = 0 := by
      refine List.sum_eq_zero fun x hx => ?_
      obtain ⟨c, -, rfl⟩ := List.mem_map.mp hx
      rw [h, proRata, Nat.div_zero]
    omega
  · have hpos : 0 < claims.sum := Nat.pos_of_ne_zero h
    exact Nat.le_of_mul_le_mul_right (sum_shares_le fund _ claims) hpos

theorem le_sum_map {f : OraclePosition → Nat} (h : pos ∈ ps) : f pos ≤ (ps.map f).sum := by
  induction ps with
  | nil => cases h
  | cons p ps ih =>
    rw [List.map_cons, List.sum_cons]
    cases h with
    | head => exact Nat.le_add_right _ _
    | tail _ h => exact (ih h).trans (Nat.le_add_left _ _)

theorem mem_zip_map {g : OraclePosition → Nat} {f : OraclePosition → OraclePosition}
    {e : Nat × OraclePosition} (h : e ∈ List.zip (ps.map g) (ps.map f)) :
    ∃ pos ∈ ps, e = (g pos, f pos) := by
  rw [List.zip_map'] at h
  simpa [eq_comm] using h

/-- What the positions must be for a settlement to go through. -/
structure Ready (pNow : Nat) (ps : List OraclePosition) : Prop where
  price : pNow ≠ 0
  pnl : ∀ pos ∈ ps, ¬(pos.closed = true ∨ pos.notional = 0) →
    ∃ delta, signedPnlIncrement pos.direction.sign pos.notional pos.resetPrice pNow = .ok delta
  profitFits : (gains pNow ps).sum < u128Size
  lossFits : (losses pNow ps).sum < u128Size
  covered : ∀ pos ∈ ps, pos.lockedLoss ≤ pos.principal ∧ pos.principal < u128Size
  room : ∀ pos ∈ ps, 0 < gainOf pNow pos → pos.realizedProfitBalance +
    min (gains pNow ps).sum (losses pNow ps).sum < u128Size

theorem Ready.settle (h : Ready pNow ps) : ∃ ps' sum, settle ps pNow = .ok (ps', sum) := by
  obtain ⟨inc, hinc⟩ := @collect_of pNow ps 0 ⟨[], [], 0, 0⟩ h.pnl
    (by simpa using h.profitFits) (by simpa using h.lossFits)
  have hc := collect_ok hinc
  have hprofit : inc.totalProfit = (gains pNow ps).sum := hc.totalProfit.trans (Nat.zero_add _)
  have hloss : inc.totalRealizableLoss = (losses pNow ps).sum :=
    hc.totalLoss.trans (Nat.zero_add _)
  rw [Simulation.settle, ensure_of h.price, ok_bind, hinc, ok_bind]
  dsimp only
  split
  · exact ⟨_, _, rfl⟩
  rename_i hzero
  have hprofits : inc.profits = indexed 0 (gains pNow ps) := hc.profits
  have hlosses : inc.losses = indexed 0 (losses pNow ps) := hc.losses
  have hroom := h.room
  rw [← hprofit, ← hloss] at hroom
  have hP := h.profitFits
  have hL := h.lossFits
  rw [← hprofit] at hP
  rw [← hloss] at hL
  generalize htransfer : min inc.totalProfit inc.totalRealizableLoss = transfer at *
  have hcredits : ∀ e ∈ List.zip (gains pNow ps) ps, 0 < e.1 →
      ∃ r, credit transfer inc.totalProfit e.1 e.2 = .ok r ∧
        r.2 ≤ proRata transfer inc.totalProfit e.1 := by
    intro e he hpos
    obtain ⟨pos, hp, rfl⟩ := mem_zip_map (g := gainOf pNow) (f := id) (by simpa [gains] using he)
    have hle : gainOf pNow pos ≤ inc.totalProfit := by
      rw [hprofit]
      exact le_sum_map hp
    exact credit_of hle (by omega) hP (by omega) (hroom pos hp hpos)
  have hsum := split_le transfer (gains pNow ps)
  rw [← hprofit] at hsum
  obtain ⟨out1, h1⟩ := distribute_of (by simp [gains]) hcredits [] (a := 0) (by omega)
  rw [List.length_nil, List.nil_append, ← hprofits] at h1
  rw [h1, ok_bind]
  have hps1 := distribute_ok (fun _ _ _ => credit_ok hP) (credited_zero transfer inc.totalProfit)
    (by simp [gains]) [] (hprofits ▸ h1)
  rw [List.nil_append, gains, List.zipWith_map_left, List.zipWith_self] at hps1
  have hcharges : ∀ e ∈ List.zip (losses pNow ps) out1.1, 0 < e.1 →
      ∃ r, charge transfer inc.totalRealizableLoss e.1 e.2 = .ok r ∧
        r.2 ≤ proRata transfer inc.totalRealizableLoss e.1 := by
    intro e he hpos
    rw [hps1, losses] at he
    obtain ⟨pos, hp, rfl⟩ := mem_zip_map he
    have hle : lossOf pNow pos ≤ inc.totalRealizableLoss := by
      rw [hloss]
      exact le_sum_map hp
    obtain ⟨hcovered, hfit⟩ := h.covered pos hp
    exact charge_of hle (by omega) hL (by omega) hcovered hfit
  have hsum' := split_le transfer (losses pNow ps)
  rw [← hloss] at hsum'
  obtain ⟨out2, h2⟩ := distribute_of (by simp [hps1, losses]) hcharges [] (a := 0) (by omega)
  rw [List.length_nil, List.nil_append, ← hlosses] at h2
  rw [h2, ok_bind]
  exact ⟨_, _, rfl⟩

end Simulation

end MoleFinance
