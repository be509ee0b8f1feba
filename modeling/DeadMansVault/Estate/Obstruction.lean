-- SUMMARY: The debts that no payout can settle, those owed to the vault itself, and executions without any.
import DeadMansVault.Estate.Freeze

/-!
# Obstruction

No payout pays the vault itself. A share of its own lamports, or a bequest, that is
owed to it stays unpaid for ever, and with it the execution stays unfinished.
-/

namespace DeadMansVault

/-- The deeds of a distribution, up to its finalization. -/
def Deed.distributes : Deed → Bool
  | begin | beginDist _ | specificAsset _ _ | specificSol _ | solShare _ => true
  | _ => false

namespace Estate

variable {c : Cluster} {o : Pubkey} {E E' : Estate}

/-- What the shares divide: the snapshot, or what it would be if the execution began now. -/
def shareable (c : Cluster) (E : Estate) (v : VaultConfig) : Nat :=
  match E.log with
  | some l => l.solSnapshot
  | none => E.lamports - c.minimumBalance VaultConfig.space - bequeathed E.assignments .default -
      v.keeperBounty

/-- The paid bits of the shares, none before the execution begins. -/
def shareBits (E : Estate) : BitVec 32 := E.log.elim 0 (·.solPaidMask)

/-- Something unpaid is owed to the vault itself: a share that is not zero, or a bequest. -/
inductive Obstructed (c : Cluster) (o : Pubkey) (E : Estate) : Prop
  | share {v : VaultConfig} {i : Nat} {b : Beneficiary} :
      E.config = some v → v.beneficiaries[i]? = some b → b.wallet = .vault o →
      Bitmask.test E.shareBits i = false → 0 < E.shareable c v * b.shareBps / 10000 →
      Obstructed c o E
  | bequest {v : VaultConfig} {j : Nat} {a : AssetAssignment} {b : Beneficiary} :
      E.config = some v → E.assignments[j]? = some a →
      v.beneficiaries[a.beneficiaryIndex]? = some b → b.wallet = .vault o →
      Bitmask.test E.planBits j = false → Obstructed c o E

/-- A share that is owed to the vault itself is not paid, and does not get less. -/
theorem Step.keeps_share (hE : Lawful c o E) (hdue : E.Due) {a : Act} (h : Step c o E a E')
    (hclose : a.deed ≠ .close) {v v' : VaultConfig} {i : Nat} {b : Beneficiary}
    (hv : E.config = some v) (hv' : E'.config = some v') (hb : v.beneficiaries[i]? = some b)
    (hself : b.wallet = .vault o) (hclear : Bitmask.test E.shareBits i = false)
    (hpos : 0 < E.shareable c v * b.shareBps / 10000) :
    Bitmask.test E'.shareBits i = false ∧ E.shareable c v ≤ E'.shareable c v' := by
  have hliving := hdue.not_living hE h
  have hsame : ∀ {F : Estate} {w : VaultConfig}, F.log = E.log → F.lamports = E.lamports →
      F.assignments = E.assignments → w.keeperBounty = v.keeperBounty →
      Bitmask.test F.shareBits i = false ∧ E.shareable c v ≤ F.shareable c w := by
    intro F w hlog hlamports hassign hbounty
    unfold shareBits shareable at *
    rw [hlog, hlamports, hassign, hbounty]
    exact ⟨hclear, le_rfl⟩
  cases h with
  | create | amend | withdraw | revoke | closeRevoked => cases hliving
  | interfere _ hL _ =>
      obtain rfl := Option.some.inj (hv.symm.trans hv')
      refine ⟨hclear, ?_⟩
      unfold shareable
      dsimp only
      split
      · exact le_rfl
      · exact Nat.sub_le_sub_right (Nat.sub_le_sub_right (Nat.sub_le_sub_right hL _) _) _
  | begin hw _ hl _ _ _ =>
      obtain rfl := Option.some.inj (hv.symm.trans hw)
      refine ⟨by simp [shareBits], ?_⟩
      rw [hE.registered_eq hv]
      simp only [shareable, hl]
      exact le_rfl
  | beginDist hw | closeDist hw =>
      obtain rfl := Option.some.inj (hv.symm.trans hw)
      cases hv'
      exact hsame rfl rfl rfl rfl
  | tokenShare =>
      obtain rfl := Option.some.inj (hv.symm.trans hv')
      exact hsame rfl rfl rfl rfl
  | specificAsset _ hl hp | specificSol _ hl hp =>
      simp only [shareBits, shareable, hl, Option.elim_some] at hclear ⊢
      exact ⟨hclear, le_rfl⟩
  | @solShare w l k _ _ b' hw _ hl hb' _ hpaid _ =>
      obtain rfl := Option.some.inj (hv.symm.trans hw)
      simp only [shareBits, shareable, hl, Option.elim_some] at hclear hpos ⊢
      refine ⟨?_, le_rfl⟩
      have hne : i ≠ k := by
        rintro rfl
        obtain rfl := Option.some.inj (hb.symm.trans hb')
        refine absurd hself (hpaid ?_)
        rwa [shareAmount_eq (hE.logged l hl).2
          (shareBps_le (hE.accepted _ hv).1.shares (List.mem_of_getElem? hb))]
      rwa [Bitmask.test_mark_of_ne hne]
  | finalize hw hl _ _ _ _ =>
      simp only [shareBits, shareable, hl, Option.elim_some] at hclear ⊢
      exact ⟨hclear, le_rfl⟩
  | close => exact absurd rfl hclose

/-- A bequest that is owed to the vault itself is not paid. -/
theorem Step.keeps_bequest {a : Act} (h : Step c o E a E') (hliving : a.deed.living = false)
    (hclose : a.deed ≠ .close) {v : VaultConfig} {j : Nat} {b : Beneficiary} {x : AssetAssignment}
    (hv : E.config = some v) (hx : E.assignments[j]? = some x)
    (hb : v.beneficiaries[x.beneficiaryIndex]? = some b) (hself : b.wallet = .vault o)
    (hclear : Bitmask.test E.planBits j = false) : Bitmask.test E'.planBits j = false := by
  have hmark : ∀ {p : AssetPlan} {k : Nat} {y : AssetAssignment} {b' : Beneficiary}
      {w : VaultConfig}, E.config = some w → E.plan = some p → p.assignments[k]? = some y →
      w.beneficiaries[y.beneficiaryIndex]? = some b' → b'.wallet ≠ .vault o →
      Bitmask.test (Bitmask.mark p.paidMask k) j = false := by
    intro p k y b' w hw hp hy hb' hother
    obtain rfl := Option.some.inj (hv.symm.trans hw)
    simp only [assignments, planBits, hp, Option.elim_some] at hx hclear
    have hne : j ≠ k := by
      rintro rfl
      obtain rfl := Option.some.inj (hx.symm.trans hy)
      obtain rfl := Option.some.inj (hb.symm.trans hb')
      exact hother hself
    rwa [Bitmask.test_mark_of_ne hne]
  cases h with
  | create | amend | withdraw | revoke | closeRevoked => cases hliving
  | specificAsset hw _ hp _ hy _ _ hb' hother _ _ => exact hmark hw hp hy hb' hother
  | specificSol hw _ hp hy _ hb' hother _ _ => exact hmark hw hp hy hb' hother
  | close => exact absurd rfl hclose
  | _ => exact hclear

/-- An obstructed execution cannot be finalized. -/
theorem Obstructed.not_finalize (hE : Lawful c o E) (hob : Obstructed c o E) {a : Act}
    (h : Step c o E a E') : ∀ payer, a.deed ≠ .finalize payer := by
  intro payer hdeed
  cases h with
  | @finalize w l _ hw hl _ hfull hplan _ =>
      cases hob with
      | @share v i b hv hb _ hclear _ =>
          obtain rfl := Option.some.inj (hv.symm.trans hw)
          have hi := (List.getElem?_eq_some_iff.mp hb).1
          have hcount := (hE.accepted _ hv).1.count.2
          rw [shareBits, hl, Option.elim_some,
            Bitmask.test_of_eq_full (hcount.trans (by decide)) hfull hi] at hclear
          cases hclear
      | @bequest v j x b hv hx _ _ hclear =>
          obtain rfl := Option.some.inj (hv.symm.trans hw)
          cases hp : E.plan with
          | none => simp [assignments, hp] at hx
          | some p =>
              have hhas : v.hasAssetPlan = true := by
                obtain ⟨v', hv', hhas⟩ := hE.planned.mp (by simp [hp])
                obtain rfl := Option.some.inj (hv.symm.trans hv')
                exact hhas
              obtain ⟨p', hp', hfull'⟩ := hplan hhas
              obtain rfl := Option.some.inj (hp.symm.trans hp')
              simp only [assignments, planBits, hp, Option.elim_some] at hx hclear
              have hj := (List.getElem?_eq_some_iff.mp hx).1
              have hset := Bitmask.test_of_eq_full (hE.plan p hp).2 hfull' hj
              exact Bool.false_ne_true (hclear.symm.trans hset)
  | _ => cases hdeed

/-- A due estate that is not executed and is obstructed stays so. -/
theorem Obstructed.step (hE : Lawful c o E) (hdue : E.Due) (hob : Obstructed c o E)
    (hexec : ∀ v, E.config = some v → v.executed = false) {a : Act} (h : Step c o E a E') :
    E'.Due ∧ Obstructed c o E' ∧ ∀ v, E'.config = some v → v.executed = false := by
  have hclose : a.deed ≠ .close := by
    intro hdeed
    obtain ⟨v, hv, hx⟩ := h.close_executed hdeed
    rw [hexec v hv] at hx
    cases hx
  have hnext := hdue.proceeds hE h hclose
  refine ⟨hnext.due hdue, ?_, h.unexecuted hexec (hob.not_finalize hE h)⟩
  cases hob with
  | @share v i b hv hb hself hclear hpos =>
      obtain ⟨v', hv', heq, -⟩ := hnext.config v hv
      obtain ⟨hclear', hle⟩ := h.keeps_share hE hdue hclose hv hv' hb hself hclear hpos
      refine .share hv' (by rw [heq]; exact hb) hself hclear' (hpos.trans_le ?_)
      exact Nat.div_le_div_right (Nat.mul_le_mul_right _ hle)
  | @bequest v j x b hv hx hb hself hclear =>
      obtain ⟨v', hv', heq, -⟩ := hnext.config v hv
      exact .bequest hv' (by rw [hnext.assignments_eq]; exact hx) (by rw [heq]; exact hb) hself
        (h.keeps_bequest (hdue.not_living hE h) hclose hv hx hb hself hclear)

/-- Whatever happens, an obstructed execution is not finalized. -/
theorem Obstructed.never (hE : Lawful c o E) (hdue : E.Due) (hob : Obstructed c o E)
    (hexec : ∀ v, E.config = some v → v.executed = false) {acts : List Act}
    (h : Trace (Step c o) E acts E') : ∀ v, E'.config = some v → v.executed = false := by
  have hrun := h.preserves (P := fun F => Lawful c o F ∧ F.Due ∧ Obstructed c o F ∧
      ∀ v, F.config = some v → v.executed = false)
    (fun F a F' ⟨hF, hdue, hob, hexec⟩ hstep => ⟨hF.step hstep, hob.step hF hdue hexec hstep⟩)
    ⟨hE, hdue, hob, hexec⟩
  exact hrun.2.2.2

/-! ## Executions without an obstruction -/

/-- A due estate that waits for its execution, and that owes the vault itself nothing. -/
structure Unobstructed (c : Cluster) (o : Pubkey) (E : Estate) : Prop where
  lawful : Lawful c o E
  due : E.Due
  unexecuted : ∀ v, E.config = some v → v.executed = false
  clear : ¬ Obstructed c o E

theorem Step.distributes_ne_close {a : Act} (hdist : a.deed.distributes = true) :
    a.deed ≠ .close := by
  intro hdeed
  rw [hdeed] at hdist
  cases hdist

/-- A distribution keeps what the shares divide, and takes no payment back. -/
theorem Step.keeps_shareable (hE : Lawful c o E) {a : Act} (h : Step c o E a E')
    (hdist : a.deed.distributes = true) {v v' : VaultConfig} (hv : E.config = some v)
    (hv' : E'.config = some v') :
    E'.shareable c v' = E.shareable c v ∧
      ∀ i, Bitmask.test E.shareBits i = true → Bitmask.test E'.shareBits i = true := by
  cases h with
  | begin hw _ hl _ _ _ =>
      obtain rfl := Option.some.inj (hv.symm.trans hw)
      obtain rfl := Option.some.inj (hv.symm.trans hv')
      refine ⟨?_, by simp [shareBits, hl]⟩
      rw [hE.registered_eq hv]
      simp only [shareable, hl, assignments]
  | beginDist hw =>
      obtain rfl := Option.some.inj (hv.symm.trans hw)
      cases hv'
      exact ⟨rfl, fun _ h => h⟩
  | specificAsset hw hl hp | specificSol hw hl hp =>
      obtain rfl := Option.some.inj (hv.symm.trans hv')
      simp only [shareBits, shareable, hl]
      exact ⟨trivial, fun _ h => h⟩
  | solShare hw _ hl _ _ _ _ =>
      obtain rfl := Option.some.inj (hv.symm.trans hv')
      simp only [shareBits, shareable, hl]
      exact ⟨trivial, fun _ => Bitmask.test_mark_of_test⟩
  | _ => cases hdist

/-- What a distribution is obstructed by, it was obstructed by before. -/
theorem Obstructed.before (hE : Lawful c o E) (hdue : E.Due) {a : Act} (h : Step c o E a E')
    (hdist : a.deed.distributes = true) (hob : Obstructed c o E') : Obstructed c o E := by
  have hnext := hdue.proceeds hE h (Step.distributes_ne_close hdist)
  obtain ⟨v, -, hv, -⟩ := hdue
  obtain ⟨v', hv', heq, -⟩ := hnext.config v hv
  have hbenefs : v'.beneficiaries = v.beneficiaries := by rw [heq]
  cases hob with
  | @share w i b hw hb hself hclear hpos =>
      obtain rfl := Option.some.inj (hv'.symm.trans hw)
      obtain ⟨hsame, hbits⟩ := h.keeps_shareable hE hdist hv hv'
      refine .share hv (hbenefs ▸ hb) hself (Bool.eq_false_iff.mpr fun hset => ?_) (hsame ▸ hpos)
      exact Bool.false_ne_true (hclear.symm.trans (hbits i hset))
  | @bequest w j x b hw hx hb hself hclear =>
      obtain rfl := Option.some.inj (hv'.symm.trans hw)
      refine .bequest hv (hnext.assignments_eq ▸ hx) (hbenefs ▸ hb) hself
        (Bool.eq_false_iff.mpr fun hset => ?_)
      exact Bool.false_ne_true (hclear.symm.trans (hnext.planBits j hset))

/-- The open distributions stay open. -/
theorem Step.keeps_open {a : Act} (h : Step c o E a E') (hdist : a.deed.distributes = true)
    {m : Pubkey} (hm : (E.dists m).isSome = true) : (E'.dists m).isSome = true := by
  cases h with
  | beginDist =>
      dsimp only
      rw [Function.update_apply]
      split
      · rfl
      · exact hm
  | begin | specificAsset | specificSol | solShare => exact hm
  | _ => cases hdist

theorem Unobstructed.step (h : Unobstructed c o E) {a : Act} (hstep : Step c o E a E')
    (hdist : a.deed.distributes = true) : Unobstructed c o E' where
  lawful := h.lawful.step hstep
  due := (h.due.proceeds h.lawful hstep (Step.distributes_ne_close hdist)).due h.due
  unexecuted := by
    refine hstep.unexecuted h.unexecuted fun payer hdeed => ?_
    rw [hdeed] at hdist
    cases hdist
  clear hob := h.clear (hob.before h.lawful h.due hstep hdist)

/-- A run of a distribution meets no obstruction, and loses nothing of what is done. -/
theorem Unobstructed.run (h : Unobstructed c o E) {acts : List Act}
    (hrun : Trace (Step c o) E acts E') (hdist : ∀ a ∈ acts, a.deed.distributes = true) :
    Unobstructed c o E' ∧ Proceeds E E' ∧
      ∀ m, (E.dists m).isSome = true → (E'.dists m).isSome = true := by
  have hkept := (hrun.restrict hdist).preserves
    (P := fun F => Unobstructed c o F ∧ ∀ m, (E.dists m).isSome = true → (F.dists m).isSome = true)
    (fun F a F' ⟨hF, hopen⟩ hstep =>
      ⟨hF.step hstep.1 hstep.2, fun m hm => hstep.1.keeps_open hstep.2 (hopen m hm)⟩)
    ⟨h, fun _ hm => hm⟩
  exact ⟨hkept.1, h.due.proceeds_run h.lawful hrun fun a ha => Step.distributes_ne_close (hdist a ha),
    hkept.2⟩

end Estate

end DeadMansVault
