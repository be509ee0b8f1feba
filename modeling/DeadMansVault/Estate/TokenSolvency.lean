-- SUMMARY: The vault's token account covers every unpaid share of an open distribution, and the unpaid bequests with them.
import DeadMansVault.Estate.Dust
import DeadMansVault.Estate.Solvency

/-!
# Token solvency

A distribution sets the bequests of its mint aside, all of them, before it takes its snapshot.
Either nothing is left, and the shares are zero, or the balance covers every unpaid share
and every unpaid bequest at once, whichever is paid first.
-/

namespace DeadMansVault

namespace Estate

variable {c : Cluster} {o : Pubkey} {E E' : Estate}

/-- The tokens still owed to the pro-rata beneficiaries of a distribution. -/
def unpaidTokenShares (v : VaultConfig) (d : TokenDist) : Nat :=
  Pot.unpaid v.beneficiaries.length (Bitmask.test d.paidMask) (share v.beneficiaries d.snapshot)

/-- The balance of the mint covers the unpaid shares of its distribution and its unpaid
    bequests. -/
def CoversMint (E : Estate) (v : VaultConfig) (m : Pubkey) (d : TokenDist) : Prop :=
  Pot.Covered v.beneficiaries.length (share v.beneficiaries d.snapshot)
    E.assignments.length (bequest E.assignments m)
    (Bitmask.test d.paidMask) (Bitmask.test E.planBits) 0 (E.holding m)

/-- So it is for every open distribution with something to share. -/
def TokenSolvent (E : Estate) : Prop :=
  ∀ v m d, E.config = some v → E.dists m = some d → d.snapshot = 0 ∨ CoversMint E v m d

namespace CoversMint

variable {v : VaultConfig} {m : Pubkey} {d : TokenDist}

theorem unpaid_le (h : CoversMint E v m d) :
    unpaidTokenShares v d + E.unpaidOf m ≤ E.holding m := by
  unfold CoversMint Pot.Covered at h
  unfold unpaidTokenShares unpaidOf
  omega

/-- Deposits do no harm. -/
theorem mono (h : CoversMint E v m d) (hassign : E'.assignments = E.assignments)
    (hbits : E'.planBits = E.planBits) (hle : E.holding m ≤ E'.holding m) :
    CoversMint E' v m d := by
  unfold CoversMint
  rw [hassign, hbits]
  exact Pot.Covered.mono h hle

/-- A distribution starts covered, if anything is left for the shares. -/
theorem start (hsum : (v.beneficiaries.map (·.shareBps)).sum = 10000)
    (hsnap : d.snapshot = E.holding m - bequeathed E.assignments m) (hmask : d.paidMask = 0)
    (hpos : d.snapshot ≠ 0) : CoversMint E v m d := by
  have hshares : Pot.unpaid v.beneficiaries.length (Bitmask.test d.paidMask)
      (share v.beneficiaries d.snapshot) ≤ d.snapshot := by
    have hclear : ∀ i < v.beneficiaries.length, Bitmask.test (0 : BitVec 32) i = false :=
      fun i _ => Bitmask.test_zero i
    rw [hmask, Pot.unpaid_all_clear hclear]
    exact sum_share_le d.snapshot hsum
  have hbequests := E.unpaidOf_le m
  unfold unpaidOf at hbequests
  unfold CoversMint Pot.Covered
  omega

end CoversMint

namespace TokenSolvent

/-- Without distributions there is nothing to cover. -/
theorem none_open (hd : ∀ m, E.dists m = none) : TokenSolvent E := by
  intro v m d _ hm
  rw [hd m] at hm
  cases hm

/-- Steps that leave the distributions, the plan and the balances as they are. -/
theorem keep (hS : TokenSolvent E) {v : VaultConfig} (hv : E.config = some v)
    (hbenef : ∀ v', E'.config = some v' → v'.beneficiaries = v.beneficiaries)
    (hd : E'.dists = E.dists) (hassign : E'.assignments = E.assignments)
    (hbits : E'.planBits = E.planBits) (hH : ∀ m, E.holding m ≤ E'.holding m) :
    TokenSolvent E' := by
  intro v' m d hv' hm
  rw [hd] at hm
  refine (hS v m d hv hm).imp_right fun hcov => ?_
  have hnext := hcov.mono hassign hbits (hH m)
  unfold CoversMint at hnext ⊢
  rw [hbenef v' hv']
  exact hnext

/-- A share is covered by the balance. -/
theorem share_le (hE : Lawful c o E) (hS : TokenSolvent E) {v : VaultConfig} {m : Pubkey}
    {d : TokenDist} {i : Nat} {b : Beneficiary} (hv : E.config = some v) (hd : E.dists m = some d)
    (hb : v.beneficiaries[i]? = some b) (hclear : Bitmask.test d.paidMask i = false) :
    shareAmount d.snapshot b.shareBps ≤ E.holding m := by
  have hsum := (hE.accepted v hv).1.shares
  rw [shareAmount_eq_share hsum (hE.dist m d hd).2.2 hb]
  rcases hS v m d hv hd with hzero | hcov
  · rw [hzero, share_zero]
    exact Nat.zero_le _
  · exact Pot.Covered.share_le hcov (List.getElem?_eq_some_iff.mp hb).1 hclear

/-- Every step keeps it, unless it opens a distribution that the counter cannot count. -/
theorem step (hE : Lawful c o E) (hT : Tallied E) (hS : TokenSolvent E) {a : Act}
    (h : Step c o E a E') : TokenSolvent E' := by
  cases h with
  | interfere _ _ hH =>
      intro v m d hv hm
      exact (hS v m d hv hm).imp_right fun hcov => hcov.mono rfl rfl (hH m)
  | create hc _ _ _ _ _ _ =>
      refine none_open fun m => ?_
      have hnone : E.openDists = ∅ := hT.closed hc
      exact Option.not_isSome_iff_eq_none.mp fun hm => (hnone ▸ hm : m ∈ (∅ : Set Pubkey))
  | amend hv hh hnow _ _ _ _ => exact none_open (hT.no_dist (hE.log_none hv hh hnow))
  | withdraw hv hh hnow _ => exact none_open (hT.no_dist (hE.log_none hv hh hnow))
  | revoke hv hh hnow => exact none_open (hT.no_dist (hE.log_none hv hh hnow))
  | closeRevoked hv hactive hexec => exact absurd ⟨hactive, hexec⟩ (hE.active_or_executed hv)
  | begin hv _ _ _ _ _ => exact hS.keep hv (by simp [hv]) rfl rfl rfl fun _ => le_rfl
  | @beginDist v _ m hv _ hnone _ _ _ =>
      rintro _ m' d ⟨⟩ hd
      by_cases hm : m' = m
      · subst hm
        obtain rfl := Option.some.inj ((Function.update_self m' _ E.dists).symm.trans hd)
        by_cases hzero : E.holding m' - bequeathed (E.registered v) m' = 0
        · exact .inl hzero
        · rw [hE.registered_eq hv] at hzero ⊢
          exact .inr (.start (hE.accepted v hv).1.shares rfl rfl hzero)
      · dsimp only at hd
        rw [Function.update_of_ne hm] at hd
        exact (hS v m' d hv hd).imp_right fun hcov => hcov.mono rfl rfl le_rfl
  | @specificAsset v _ p _ m _ j a _ hv _ hp _ ha hm _ _ _ _ hclear =>
      intro v' m' d' hv' hd'
      obtain rfl := Option.some.inj (hv.symm.trans hv')
      have hj := (List.getElem?_eq_some_iff.mp ha).1
      refine (hS v m' d' hv hd').imp_right fun hcov => ?_
      simp only [CoversMint, assignments, planBits, hp, Option.elim_some] at hcov ⊢
      rw [test_mark_eq (show j < 64 from hj.trans_le (hE.plan p hp).2)]
      by_cases hsame : m' = m
      · subst hsame
        rw [Function.update_self, ← bequest_of_mem ha hm]
        exact hcov.pay_bequest hj hclear
      · rw [Function.update_of_ne hsame]
        exact hcov.forgive_bequest hj hclear
  | @specificSol v _ p j a _ hv _ hp ha hm _ _ _ hclear =>
      intro v' m' d' hv' hd'
      obtain rfl := Option.some.inj (hv.symm.trans hv')
      have hj := (List.getElem?_eq_some_iff.mp ha).1
      refine (hS v m' d' hv hd').imp_right fun hcov => ?_
      simp only [CoversMint, assignments, planBits, hp, Option.elim_some] at hcov ⊢
      rw [test_mark_eq (show j < 64 from hj.trans_le (hE.plan p hp).2)]
      exact hcov.forgive_bequest hj hclear
  | solShare hv _ _ _ _ _ _ => exact hS.keep hv (by simp [hv]) rfl rfl rfl fun _ => le_rfl
  | @tokenShare v d m dest i b hv hd hb hclear _ _ =>
      intro v' m' d' hv' hd'
      obtain rfl := Option.some.inj (hv.symm.trans hv')
      obtain ⟨hacc, -⟩ := hE.accepted v hv
      have hi := (List.getElem?_eq_some_iff.mp hb).1
      have hcount : v.beneficiaries.length ≤ 32 := hacc.count.2.trans (by decide)
      by_cases hsame : m' = m
      · subst hsame
        obtain rfl := Option.some.inj ((Function.update_self m' _ E.dists).symm.trans hd')
        refine (hS v m' d hv hd).imp_right fun hcov => ?_
        have hpaid := Pot.Covered.pay_share hcov hi hclear
        unfold CoversMint
        rw [test_mark_eq (hi.trans_le hcount)]
        refine hpaid.mono ?_
        dsimp only
        rw [shareAmount_eq_share hacc.shares (hE.dist m' d hd).2.2 hb, Function.update_self]
        split
        · exact Nat.sub_le _ _
        · exact le_rfl
      · dsimp only at hd'
        rw [Function.update_of_ne hsame] at hd'
        exact (hS v m' d' hv hd').imp_right fun hcov =>
          hcov.mono rfl rfl (Function.update_of_ne hsame _ E.holding).ge
  | finalize hv _ _ _ _ _ =>
      exact hS.keep hv (by rintro _ ⟨⟩; rfl) rfl rfl rfl fun _ => le_rfl
  | @closeDist v d m _ _ hv _ _ _ _ =>
      rintro _ m' d' ⟨⟩ hd'
      by_cases hsame : m' = m
      · dsimp only at hd'
        rw [hsame, Function.update_self] at hd'
        cases hd'
      · dsimp only at hd'
        rw [Function.update_of_ne hsame] at hd'
        exact (hS v m' d' hv hd').imp_right fun hcov =>
          hcov.mono rfl rfl (Function.update_of_ne hsame _ E.holding).ge
  | close _ _ _ _ _ _ => exact fun v m d hv => by cases hv

end TokenSolvent

end Estate

end DeadMansVault
