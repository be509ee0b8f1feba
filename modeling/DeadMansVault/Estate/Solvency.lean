-- SUMMARY: The vault's lamports cover its rent and every unpaid SOL share, and all debts when it was funded.
import DeadMansVault.Estate.Freeze

/-!
# SOL solvency

The snapshot leaves out the SOL bequests and the bounty, so either it is zero and
the shares are too, or what is above the rent covers every unpaid debt at once.
Each payment takes from the balance what it takes from the debts.
-/

namespace DeadMansVault

namespace Estate

/-- The lamports above rent cover every unpaid share, every unpaid SOL bequest and,
    until it is paid, the bounty. -/
def Covers (c : Cluster) (E : Estate) (v : VaultConfig) (l : ExecutionLog) : Prop :=
  Pot.Covered v.beneficiaries.length (share v.beneficiaries l.solSnapshot)
    E.assignments.length (bequest E.assignments .default)
    (Bitmask.test l.solPaidMask) (Bitmask.test E.planBits)
    (if v.executed then 0 else v.keeperBounty)
    (E.lamports - c.minimumBalance VaultConfig.space)

/-- The lamports still owed to the pro-rata beneficiaries. -/
def unpaidShares (v : VaultConfig) (l : ExecutionLog) : Nat :=
  Pot.unpaid v.beneficiaries.length (Bitmask.test l.solPaidMask)
    (share v.beneficiaries l.solSnapshot)

/-- The lamports still owed to the SOL bequests. -/
def unpaidBequests (E : Estate) : Nat :=
  Pot.unpaid E.assignments.length (Bitmask.test E.planBits) (bequest E.assignments .default)

structure Solvent (c : Cluster) (E : Estate) : Prop where
  rent : ∀ v, E.config = some v → c.minimumBalance VaultConfig.space ≤ E.lamports
  covered : ∀ v l, E.config = some v → E.log = some l → l.solSnapshot = 0 ∨ Covers c E v l

variable {c : Cluster} {o : Pubkey} {E E' : Estate}

theorem test_mark_eq {w i : Nat} (hi : i < w) (m : BitVec w) :
    Bitmask.test (Bitmask.mark m i) = Pot.marked (Bitmask.test m) i :=
  funext fun k => Bitmask.test_mark hi m k

namespace Solvent

theorem rent_add_unpaid_le (hS : Solvent c E) {v : VaultConfig} {l : ExecutionLog}
    (hv : E.config = some v) (hl : E.log = some l) :
    c.minimumBalance VaultConfig.space + unpaidShares v l ≤ E.lamports := by
  have hrent := hS.rent v hv
  rcases hS.covered v l hv hl with hzero | hcov
  · have hnone : unpaidShares v l = 0 := by
      apply Pot.unpaid_zero
      intro i _
      rw [hzero, share_zero]
    omega
  · unfold Covers Pot.Covered at hcov
    unfold unpaidShares
    omega

/-- A share is covered by what is above rent. -/
theorem share_le (hE : Lawful c o E) (hS : Solvent c E) {v : VaultConfig} {l : ExecutionLog}
    {i : Nat} {b : Beneficiary} (hv : E.config = some v) (hl : E.log = some l)
    (hb : v.beneficiaries[i]? = some b) (hclear : Bitmask.test l.solPaidMask i = false) :
    c.minimumBalance VaultConfig.space + shareAmount l.solSnapshot b.shareBps ≤ E.lamports := by
  have hsum := (hE.accepted v hv).1.shares
  have hi := (List.getElem?_eq_some_iff.mp hb).1
  rw [shareAmount_eq_share hsum (hE.logged l hl).2 hb]
  have hle := Pot.le_unpaid (f := share v.beneficiaries l.solSnapshot) hi hclear
  have hall := hS.rent_add_unpaid_le hv hl
  unfold unpaidShares at hall
  omega

end Solvent

namespace Covers

variable {v : VaultConfig} {l : ExecutionLog}

theorem mono (h : Covers c E v l) {L : Nat} {H : Pubkey → Nat} {t : Int} (hL : E.lamports ≤ L) :
    Covers c { E with now := t, lamports := L, holding := H } v l :=
  Pot.Covered.mono h (Nat.sub_le_sub_right hL _)

/-- A step of an execution under way keeps the vault covered. -/
theorem step (hE : Lawful c o E) {a : Act} (h : Step c o E a E') (hclose : a.deed ≠ .close) (hv : E.config = some v)
    (hl : E.log = some l) (hcov : Covers c E v l) :
    ∀ v' l', E'.config = some v' → E'.log = some l' → Covers c E' v' l' := by
  intro v' l' hv' hl'
  obtain ⟨hacc, howner⟩ := hE.accepted v hv
  cases h with
  | interfere _ hL _ =>
      obtain rfl : v = v' := by simpa [hv] using hv'
      obtain rfl : l = l' := by simpa [hl] using hl'
      exact hcov.mono hL
  | create hc _ _ _ _ _ _ => simp [hv] at hc
  | amend hw hh hnow _ _ _ _ => simp [hE.log_none hw hh hnow] at hl
  | withdraw hw hh hnow _ => simp [hE.log_none hw hh hnow] at hl
  | revoke hw hh hnow => simp [hE.log_none hw hh hnow] at hl
  | closeRevoked hw hactive hexec => exact absurd ⟨hactive, hexec⟩ (hE.active_or_executed hw)
  | begin _ _ hnone _ _ _ => simp [hl] at hnone
  | beginDist hw _ _ _ _ _ =>
      obtain rfl : v = _ := by simpa [hv] using hw
      obtain rfl : l = l' := by simpa [hl] using hl'
      cases hv'
      exact hcov
  | @specificAsset _ _ p _ _ _ j _ _ hw hlog hp _ ha hm hdefault _ _ _ hclear =>
      obtain rfl : v = v' := by simpa [hv] using hv'
      obtain rfl : l = l' := by simpa [hl] using hl'
      have hj := (List.getElem?_eq_some_iff.mp ha).1
      have hlen := (hE.plan p hp).2
      simp only [Covers, assignments, planBits, hp, Option.elim_some] at hcov ⊢
      rw [test_mark_eq (show j < 64 from hj.trans_le hlen)]
      exact hcov.forgive_bequest hj hclear
  | @specificSol _ _ p j a _ hw hlog hp ha hm _ _ _ hclear =>
      obtain rfl : v = v' := by simpa [hv] using hv'
      obtain rfl : l = l' := by simpa [hl] using hl'
      have hj := (List.getElem?_eq_some_iff.mp ha).1
      have hlen := (hE.plan p hp).2
      simp only [Covers, assignments, planBits, hp, Option.elim_some] at hcov ⊢
      rw [test_mark_eq (show j < 64 from hj.trans_le hlen), Nat.sub_right_comm, ← bequest_of_mem ha hm]
      exact hcov.pay_bequest hj hclear
  | @solShare w k i _ _ b hw _ hlog hb hclear _ _ =>
      obtain rfl : v = w := by simpa [hv] using hw
      obtain rfl : v = v' := by simpa [hv] using hv'
      obtain rfl : l = k := by simpa [hl] using hlog
      cases hl'
      have hi := (List.getElem?_eq_some_iff.mp hb).1
      have hcount : v.beneficiaries.length ≤ 32 := hacc.count.2.trans (by decide)
      simp only [Covers] at hcov ⊢
      change Pot.Covered _ _ E.assignments.length (bequest E.assignments .default) _
        (Bitmask.test E.planBits) _ _
      rw [test_mark_eq (hi.trans_le hcount), Nat.sub_right_comm,
        shareAmount_eq_share hacc.shares (hE.logged l hl).2 hb]
      exact hcov.pay_share hi hclear
  | tokenShare hw hd hb hclear hn hdest =>
      obtain rfl : v = v' := by simpa [hv] using hv'
      obtain rfl : l = l' := by simpa [hl] using hl'
      exact hcov
  | finalize hw hlog hexec _ _ _ =>
      obtain rfl : v = _ := by simpa [hv] using hw
      obtain rfl : l = _ := by simpa [hl] using hlog
      cases hv'
      cases hl'
      simp only [Covers, hexec, Bool.false_eq_true, if_false, if_true] at hcov ⊢
      change Pot.Covered _ _ E.assignments.length (bequest E.assignments .default) _
        (Bitmask.test E.planBits) _ _
      rw [Nat.sub_right_comm]
      exact hcov.pay_reserve
  | closeDist hw _ _ _ _ =>
      obtain rfl : v = _ := by simpa [hv] using hw
      obtain rfl : l = l' := by simpa [hl] using hl'
      cases hv'
      exact hcov
  | close _ _ _ _ _ _ => exact absurd rfl hclose

/-- So does every run that does not close it. -/
theorem run (hE : Lawful c o E) {acts : List Act} (h : Trace (Step c o) E acts E')
    (hclose : ∀ a ∈ acts, a.deed ≠ .close) (hv : E.config = some v) (hl : E.log = some l)
    (hcov : Covers c E v l) :
    ∃ v' l', E'.config = some v' ∧ E'.log = some l' ∧ Covers c E' v' l' := by
  have hrun := (h.restrict hclose).preserves
    (P := fun F => Lawful c o F ∧ ∃ v l, F.config = some v ∧ F.log = some l ∧ Covers c F v l)
    (fun F a F' ⟨hF, w, k, hw, hk, hcov⟩ ⟨hstep, hopen⟩ => by
      have hproceeds := (hF.due hk).proceeds hF hstep hopen
      obtain ⟨w', hw', -⟩ := hproceeds.config w hw
      obtain ⟨k', hk', -⟩ := hproceeds.log k hk
      exact ⟨hF.step hstep, w', k', hw', hk', hcov.step hF hstep hopen hw hk w' k' hw' hk'⟩)
    ⟨hE, v, l, hv, hl, hcov⟩
  exact hrun.2

/-- A funded vault is covered when its execution begins. -/
theorem of_funded (hE : Lawful c o E) {v : VaultConfig} {l : ExecutionLog}
    (hv : E.config = some v) (hnone : E.log = none) (hexec : v.executed = false)
    (hsnap : l.solSnapshot = E.lamports - c.minimumBalance VaultConfig.space -
      bequeathed (E.registered v) .default - v.keeperBounty)
    (hmask : l.solPaidMask = 0)
    (hfund : bequeathed (E.registered v) .default + v.keeperBounty ≤
      E.lamports - c.minimumBalance VaultConfig.space) :
    Covers c { E with log := some l } v l := by
  have hreg : E.registered v = E.assignments := hE.registered_eq hv
  have hbits : E.planBits = 0 := by
    cases hp : E.plan with
    | none => simp [planBits, hp]
    | some p =>
        by_contra hne
        have hlog := hE.paid p hp (by simpa [planBits, hp] using hne)
        simp [hnone] at hlog
  have hshares : Pot.unpaid v.beneficiaries.length (Bitmask.test l.solPaidMask)
      (share v.beneficiaries l.solSnapshot) ≤ l.solSnapshot := by
    have hclear : ∀ i < v.beneficiaries.length, Bitmask.test (0 : BitVec 32) i = false :=
      fun i _ => Bitmask.test_zero i
    rw [hmask, Pot.unpaid_all_clear hclear]
    exact sum_share_le l.solSnapshot (hE.accepted v hv).1.shares
  have hbequests : Pot.unpaid E.assignments.length (Bitmask.test E.planBits)
      (bequest E.assignments .default) = bequeathed (E.registered v) .default := by
    have hclear : ∀ j < E.assignments.length, Bitmask.test (0 : BitVec 64) j = false :=
      fun j _ => Bitmask.test_zero j
    rw [hbits, Pot.unpaid_all_clear hclear, hreg, bequeathed_eq_sum]
  unfold Covers
  rw [hexec]
  change Pot.Covered _ _ E.assignments.length (bequest E.assignments .default) _
    (Bitmask.test E.planBits) _ _
  unfold Pot.Covered
  rw [hbequests]
  simp only [Bool.false_eq_true, if_false]
  omega

end Covers

namespace Solvent

theorem empty (hc : E.config = none) : Solvent c E where
  rent := by simp [hc]
  covered := by simp [hc]

/-- Every step keeps the rent: a payment takes what is above it, or a covered share. -/
theorem rent_step (hE : Lawful c o E) (hS : Solvent c E) {a : Act} (h : Step c o E a E') :
    ∀ v', E'.config = some v' → c.minimumBalance VaultConfig.space ≤ E'.lamports := by
  intro v' hv'
  cases h with
  | interfere _ hL _ => exact (hS.rent v' hv').trans hL
  | create _ _ _ _ _ _ hrent => exact hrent
  | amend hv _ _ _ _ _ _ => exact hS.rent _ hv
  | withdraw hv _ _ hL => exact hL (hS.rent _ hv)
  | revoke _ _ _ => cases hv'
  | closeRevoked _ _ _ => cases hv'
  | begin hv _ _ _ _ _ => exact hS.rent _ hv
  | beginDist hv _ _ _ _ _ => exact hS.rent _ hv
  | specificAsset hv _ _ _ _ _ _ _ _ _ _ => exact hS.rent _ hv
  | specificSol hv _ _ _ _ _ _ _ _ =>
      have hrent := hS.rent _ hv
      change _ ≤ E.lamports - min _ _
      omega
  | solShare hv _ hl hb hclear _ _ =>
      have hle := hS.share_le hE hv hl hb hclear
      change _ ≤ E.lamports - _
      omega
  | tokenShare hv _ _ _ _ _ => exact hS.rent _ hv
  | finalize hv _ _ _ _ _ =>
      have hrent := hS.rent _ hv
      change _ ≤ E.lamports - min _ _
      omega
  | closeDist hv _ _ _ _ => exact hS.rent _ hv
  | close _ _ _ _ _ _ => cases hv'

/-- Every step keeps the vault solvent. -/
theorem step (hE : Lawful c o E) (hS : Solvent c E) {a : Act} (h : Step c o E a E') :
    Solvent c E' := by
  refine ⟨hS.rent_step hE h, fun v' l' hv' hl' => ?_⟩
  by_cases hclose : a.deed = .close
  · cases h <;> cases hclose
    cases hv'
  · cases hl : E.log with
    | some l =>
        -- An execution under way stays covered, or has nothing to share out.
        obtain ⟨v, _, hv, -⟩ := hE.due hl
        have hproceeds := (hE.due hl).proceeds hE h hclose
        obtain ⟨k, hk, hsnap, -⟩ := hproceeds.log l hl
        obtain rfl : k = l' := by simpa [hk] using hl'
        rcases hS.covered v l hv hl with hzero | hcov
        · exact .inl (hsnap.trans hzero)
        · exact .inr (hcov.step hE h hclose hv hl v' k hv' hk)
    | none =>
        -- Only `begin` makes a log, and it makes one that fits the balance.
        cases h with
        | @begin v h hv _ _ hexec _ _ =>
            obtain rfl : v = v' := by simpa [hv] using hv'
            cases hl'
            by_cases hfund : bequeathed (E.registered v) .default + v.keeperBounty ≤
                E.lamports - c.minimumBalance VaultConfig.space
            · exact .inr (Covers.of_funded hE hv hl hexec rfl rfl hfund)
            · refine .inl ?_
              change _ - _ - _ = 0
              omega
        | interfere => simp [hl] at hl'
        | create => simp [hl] at hl'
        | amend => simp [hl] at hl'
        | withdraw => simp [hl] at hl'
        | revoke => cases hv'
        | closeRevoked => cases hv'
        | beginDist => simp [hl] at hl'
        | specificAsset => simp [hl] at hl'
        | specificSol => simp [hl] at hl'
        | solShare _ _ hlog => simp [hl] at hlog
        | tokenShare => simp [hl] at hl'
        | finalize _ hlog => simp [hl] at hlog
        | closeDist => simp [hl] at hl'
        | close => cases hv'

end Solvent

end Estate

end DeadMansVault
