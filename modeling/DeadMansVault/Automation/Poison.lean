-- SUMMARY: A pass over a vault that owes a token bequest to a wallet off the curve: it throws an unknown fault, and leaves the bequest unpaid.
import DeadMansVault.Automation.Openings
import DeadMansVault.Automation.Payments
import DeadMansVault.Crank.Tick

/-!
# Bequests off the curve

The program pays a bequest to whatever wallet the plan names, also to an address of another
program, which is no point of the curve. The cranks derive the token account of a beneficiary
without the leave for such owners, so the derivation throws, and what it throws is no operational
error: it escapes the `catch` around the bequest, and so the whole pass.
-/

namespace DeadMansVault.Crank

open Script World

variable {c : Cluster} {node : Node} {job : Job World} {o : Pubkey} {v : VaultConfig}
  {as : List AssetAssignment} {j : Nat} {a : AssetAssignment} {w w' : World}

/-! ## Faults -/

/-- A fault that leaves the process of the keeper. -/
def Fatal (e : JsError) : Prop := classifyVaultError e = .fatal

/-- A fault that the `catch` around the work on an asset swallows. -/
def Caught (e : JsError) : Prop := e.message ≠ keeperHalt ∧ isOperational e = true

theorem fatal_typeError : Fatal typeError := by
  unfold Fatal
  decide +kernel

theorem fatal_offCurve : Fatal { name := "TokenOwnerOffCurveError", message := "" } := by
  unfold Fatal
  decide +kernel

theorem Fatal.message_ne {e : JsError} (h : Fatal e) : e.message ≠ keeperHalt := by
  intro heq
  rw [Fatal, classifyVaultError, if_pos heq] at h
  cases h

theorem Fatal.not_operational {e : JsError} (h : Fatal e) : isOperational e = false := by
  have hmessage := h.message_ne
  rw [Fatal, classifyVaultError, if_neg hmessage] at h
  split at h
  · cases h
  · split at h
    · cases h
    next hnot => exact Bool.eq_false_iff.mpr hnot

theorem Fatal.name_ne {e : JsError} (h : Fatal e) : e.name ≠ "TimeoutError" := by
  have hmessage := h.message_ne
  intro heq
  rw [Fatal, classifyVaultError, if_neg hmessage, if_pos heq] at h
  cases h

/-- Only unknown faults escape the `catch`. -/
theorem Job.attempt_fatal (hrevoked : job.revoked = keeperHalt)
    {body giveUp : Routine World PUnit} {P F R : Run World → Prop} {Q : PUnit → Run World → Prop}
    (hbody : Meets P body Q fun e r => Fatal e ∧ F r ∨ Caught e ∧ R r)
    (hgiveUp : Meets R giveUp Q fun e r => Fatal e ∧ F r) :
    Meets P (job.attempt body giveUp) Q fun e r => Fatal e ∧ F r := by
  refine Meets.tryCatch hbody fun e => ?_
  rintro r (⟨hfatal, hr⟩ | ⟨⟨hmessage, hoperational⟩, hr⟩)
  · rw [hrevoked, if_neg hfatal.message_ne, if_pos hfatal.not_operational]
    exact ⟨hfatal, hr⟩
  · rw [hrevoked, if_neg hmessage, if_neg (by simp [hoperational])]
    exact hgiveUp r hr

theorem Node.caught_refusal (node : Node) (submission : Submission) :
    Caught (node.refusal submission) :=
  ⟨(node.unrevoked submission).2, node.operational submission⟩

/-- What is refused is refused with an operational error. -/
theorem Job.OnNode.send_caught (hjob : job.OnNode c node) {P Q : World → List Pubkey → Prop}
    {submission : Submission}
    (hlands : ∀ s s' stuck, P s stuck → submission.lands c s = some s' → Q s' stuck) :
    Meets (fun r => P r.net r.stuckMints) (job.guard >>= fun _ => submit job.client submission)
      (fun _ r => Q r.net r.stuckMints) (fun e r => Caught e ∧ P r.net r.stuckMints) := by
  intro r hr
  obtain ⟨r', -, hstuck, ⟨hland, hrun⟩ | ⟨-, hnet, hrun⟩⟩ := hjob.send submission r
  · rw [hrun]
    dsimp only
    rw [hstuck]
    exact hlands _ _ _ hr hland
  · rw [hrun]
    dsimp only
    rw [hstuck, hnet]
    exact ⟨node.caught_refusal _, hr⟩

theorem Job.OnNode.ensureAta_caught (hjob : job.OnNode c node) {P : World → List Pubkey → Prop}
    (hcreate : ∀ s stuck accounts, P s stuck → P (s.createAtas c accounts) stuck)
    (ata mint owner : Pubkey) (programId : ProgramId) :
    Meets (fun r => P r.net r.stuckMints) (job.ensureAta ata mint owner programId)
      (fun _ r => P r.net r.stuckMints) (fun e r => Caught e ∧ P r.net r.stuckMints) := by
  intro r hr
  obtain ⟨r', accounts, hstuck, hnet, hrun⟩ := hjob.ensureAta ata mint owner programId r
  have hr' : P r'.net r'.stuckMints := by
    rw [hnet, hstuck]
    exact hcreate _ _ accounts hr
  rcases hrun with hrun | ⟨-, -, submission, hrun⟩
  · rw [hrun]
    exact hr'
  · rw [hrun]
    exact ⟨node.caught_refusal _, hr'⟩

/-- The derivation of an account needs a wallet on the curve. -/
theorem getAssociatedTokenAddress_fatal (client : Client World) (P : Run World → Prop)
    (mint owner : Pubkey) (allow : Bool) (programId : ProgramId) :
    Meets P (getAssociatedTokenAddress client mint owner allow programId)
      (fun _ r => P r ∧ (allow = true ∨ client.onCurve owner ≠ false))
      (fun e r => Fatal e ∧ P r) := by
  unfold getAssociatedTokenAddress
  split
  · exact fun r hr => ⟨fatal_offCurve, hr⟩
  next hallowed =>
    refine fun r hr => ⟨hr, ?_⟩
    by_cases hallow : allow = true
    · exact .inl hallow
    · exact .inr fun hcurve => hallowed ⟨Bool.eq_false_iff.mpr hallow, hcurve⟩

/-! ## The bequest -/

/-- The bequest is one of tokens, to a wallet off the curve. -/
structure OffCurve (node : Node) (v : VaultConfig) (as : List AssetAssignment) (j : Nat)
    (a : AssetAssignment) : Prop where
  listed : as[j]? = some a
  token : a.mint ≠ .default
  offCurve : ∀ b, v.beneficiaries[a.beneficiaryIndex]? = some b → node.onCurve b.wallet = false

/-- The execution of the vault of `o` has begun, the distribution of a mint is open, and the first
    of its bequests that is not paid goes to a wallet off the curve. -/
structure Poisoned (c : Cluster) (node : Node) (o : Pubkey) (v : VaultConfig)
    (as : List AssetAssignment) (j : Nat) (a : AssetAssignment) (w : World) : Prop where
  pending : Pending c o v as w
  offCurve : OffCurve node v as j a
  opened : DistOpen o w a.mint
  clear : Bitmask.test (w.estate c o).planBits j = false
  paid : ∀ i < j, ∀ x, as[i]? = some x → x.mint = a.mint →
    Bitmask.test (w.estate c o).planBits i = true

namespace Poisoned

theorem createAtas (h : Poisoned c node o v as j a w) (accounts : List (Pubkey × Pubkey)) :
    Poisoned c node o v as j a (w.createAtas c accounts) := by
  have hpending := h.pending.createAtas accounts
  have hopened := (opened_createAtas (c := c) (o := o) (s := w) accounts).mpr h.opened
  obtain ⟨t, ht⟩ := createAtas_eq (c := c) w accounts
  rw [ht] at hpending hopened ⊢
  exact ⟨hpending, h.offCurve, hopened, h.clear, h.paid⟩

/-- A distribution that does not pay the bequest leaves it as it is. -/
theorem executed (h : Poisoned c node o v as j a w) {i : Instruction}
    (hexec : exec c i w = .ok w') (hi : i.distributes = true) (ho : i.vaultKey = .vault o)
    (hother : ∀ x, ¬ Pays i x j) : Poisoned c node o v as j a w' := by
  obtain ⟨hpending, acts, hrun, hdeeds, -⟩ := h.pending.executed hexec hi ho
  have hproceeds := h.pending.due.proceeds_run h.pending.lawful hrun fun act hact =>
    Estate.Step.distributes_ne_close (hdeeds act hact)
  refine ⟨hpending, h.offCurve, h.pending.keeps_open hexec hi ho h.opened, ?_,
    fun k hk x hx hm => hproceeds.planBits k (h.paid k hk x hx hm)⟩
  refine Bool.eq_false_iff.mpr fun hbit => ?_
  rcases h.pending.planBits hexec hi ho hbit with hbefore | ⟨x, -, hpays⟩
  · exact Bool.false_ne_true (h.clear.symm.trans hbefore)
  · exact hother x hpays

end Poisoned

/-! ## The steps of the pass -/

/-- The bequest is ahead of the pass, which has not given up on its mint. -/
def Ahead (c : Cluster) (node : Node) (o : Pubkey) (v : VaultConfig) (as : List AssetAssignment)
    (j : Nat) (a : AssetAssignment) (w : World) (stuck : List Pubkey) : Prop :=
  Poisoned c node o v as j a w ∧ a.mint ∉ stuck

theorem Ahead.createAtas {stuck : List Pubkey} (h : Ahead c node o v as j a w stuck)
    (accounts : List (Pubkey × Pubkey)) :
    Ahead c node o v as j a (w.createAtas c accounts) stuck :=
  ⟨h.1.createAtas accounts, h.2⟩

/-- Another mint is given up on. -/
theorem markStuck_ahead {mint : Pubkey} (step : StuckStep) (hmint : mint ≠ a.mint) :
    Meets (fun r => Ahead c node o v as j a r.net r.stuckMints) (markStuck mint step)
      (fun _ r => Ahead c node o v as j a r.net r.stuckMints)
      (fun e r => Fatal e ∧ Poisoned c node o v as j a r.net) := by
  intro r hr
  have hmore := stuckMints_markStuck r mint step
  refine ⟨hr.1, ?_⟩
  show a.mint ∉ Run.stuckMints (σ := World) ⟨r.net, r.log ++ [.stuck mint step]⟩
  rw [hmore]
  intro hmem
  rcases List.mem_append.mp hmem with hmem | hmem
  · exact hr.2 hmem
  · exact hmint (List.mem_singleton.mp hmem).symm

/-- An opened mint is passed over, so its distribution is never given up on. -/
theorem Job.OnNode.beginTokenDist_ahead (hjob : job.OnNode c node) (hvault : job.vault = .vault o)
    (hrevoked : job.revoked = keeperHalt) (hasPlan : Bool) (entry : Pubkey × ProgramId) :
    Meets (fun r => Ahead c node o v as j a r.net r.stuckMints)
      (job.beginTokenDist hasPlan entry)
      (fun _ r => Ahead c node o v as j a r.net r.stuckMints)
      (fun e r => Fatal e ∧ Poisoned c node o v as j a r.net) := by
  obtain ⟨mint, programId⟩ := entry
  intro r hr
  have hread : call (job.client.tokenDist (.tokenDist job.vault mint)) r =
      .ok (r.net.tokenDists (.tokenDist (.vault o) mint)) r := by
    rw [hjob.client, hvault]
    exact call_read rfl
  unfold Job.beginTokenDist
  dsimp only
  rw [run_bind_ok hread]
  cases hdist : r.net.tokenDists (.tokenDist (.vault o) mint) with
  | some d => exact hr
  | none =>
      have hmint : mint ≠ a.mint := by
        rintro rfl
        have hopened := hr.1.opened
        rw [DistOpen, hdist] at hopened
        cases hopened
      refine Job.attempt_fatal hrevoked (P := fun r => Ahead c node o v as j a r.net r.stuckMints)
        (R := fun r => Ahead c node o v as j a r.net r.stuckMints) ?_
        (markStuck_ahead _ hmint) r hr
      refine Meets.bind (Q := fun _ r => Ahead c node o v as j a r.net r.stuckMints) ?_ fun ata => ?_
      · exact (getAssociatedTokenAddress_fatal _ (fun r => Ahead c node o v as j a r.net r.stuckMints)
          _ _ _ _).mono (fun _ h => h) (fun _ _ h => h.1) fun _ _ h => .inl ⟨h.1, h.2.1⟩
      refine Meets.bind ((hjob.ensureAta_caught (P := Ahead c node o v as j a)
        (fun _ _ accounts h => h.createAtas accounts) _ _ _ _).mono (fun _ h => h)
        (fun _ _ h => h) fun _ _ h => .inr h) fun _ => ?_
      refine (hjob.send_caught (P := Ahead c node o v as j a) (Q := Ahead c node o v as j a)
        fun s s' stuck h hlands => ⟨?_, h.2⟩).mono (fun _ h => h) (fun _ _ h => h)
        fun _ _ h => .inr h
      have hexec := Submission.exec_of_lands (i := .beginTokenDist _) rfl rfl hlands
      exact h.1.executed hexec rfl hvault fun _ hpays => hpays

/-- What a pass has read of the bits of the plan. -/
def Seen (as : List AssetAssignment) (j : Nat) (a : AssetAssignment) (mask : BitVec 64) : Prop :=
  bitSet mask j = false ∧ ∀ i < j, ∀ x, as[i]? = some x → x.mint = a.mint → bitSet mask i = true

/-- A bequest ahead of it is of another mint, or paid; and at the bequest itself the pass throws. -/
theorem Job.OnNode.specificBequest_ahead (hjob : job.OnNode c node)
    (hvault : job.vault = .vault o) (hrevoked : job.revoked = keeperHalt) {mask : BitVec 64}
    (hbad : OffCurve node v as j a) (hseen : Seen as j a mask) (mints : List (Pubkey × ProgramId))
    {n : Nat} {x : AssetAssignment} (hx : as[n]? = some x) (hn : n ≤ j) :
    Meets (fun r => Ahead c node o v as j a r.net r.stuckMints)
      (job.specificBequest v.beneficiaries mints mask (x, n))
      (fun _ r => Ahead c node o v as j a r.net r.stuckMints ∧ n < j)
      (fun e r => Fatal e ∧ Poisoned c node o v as j a r.net) := by
  let P : Run World → Prop := fun r => Ahead c node o v as j a r.net r.stuckMints
  unfold Job.specificBequest
  dsimp only
  split
  next hset =>
    refine fun r hr => ⟨hr, lt_of_le_of_ne hn ?_⟩
    rintro rfl
    exact Bool.false_ne_true (hseen.1.symm.trans hset)
  next hset =>
  refine Meets.bind (Q := fun given r => P r ∧ given = decide (x.mint ∈ r.stuckMints))
    (fun r hr => ⟨hr, rfl⟩) fun given => ?_
  split
  next hskip =>
    rintro r ⟨hr, rfl⟩
    refine ⟨hr, lt_of_le_of_ne hn ?_⟩
    rintro rfl
    obtain rfl := Option.some.inj (hx.symm.trans hbad.listed)
    have hstuck : x.mint ∈ r.stuckMints := by simpa using (Bool.and_eq_true_iff.mp hskip).2
    exact hr.2 hstuck
  refine Meets.bind (Q := fun wallet r => P r ∧
    ∃ b, v.beneficiaries[x.beneficiaryIndex]? = some b ∧ b.wallet = wallet) ?_ fun wallet => ?_
  · rintro r ⟨hr, -⟩
    unfold walletAt
    cases hb : v.beneficiaries[x.beneficiaryIndex]? with
    | none => exact ⟨fatal_typeError, hr.1⟩
    | some b => exact ⟨hr, b, rfl, rfl⟩
  have hfault : ∀ (e : JsError) (r : Run World), Fatal e ∧ P r →
      Fatal e ∧ Poisoned c node o v as j a r.net := fun _ _ h => ⟨h.1, h.2.1⟩
  rcases lt_or_eq_of_le hn with hlt | rfl
  · -- A bequest of another mint: it is paid, or its mint is given up on.
    have hmint : x.mint ≠ a.mint := fun heq => hset (hseen.2 n hlt x hx heq)
    have hpays : ∀ {i : Instruction} {w w' : World} {stuck : List Pubkey},
        Ahead c node o v as j a w stuck → exec c i w = .ok w' → i.distributes = true →
        i.vaultKey = .vault o → (∀ y k, Pays i y k → k = n) →
        Ahead c node o v as j a w' stuck := fun h hexec hi ho hone =>
      ⟨h.1.executed hexec hi ho fun y hy => hlt.ne' (hone y j hy), h.2⟩
    refine Job.attempt_fatal hrevoked (R := P) ?_ ?_
    · refine Meets.mono (P := P) (Q := fun _ => P)
        (E := fun e r => Fatal e ∧ P r ∨ Caught e ∧ P r) ?_ (fun _ h => h.1)
        (fun _ _ h => ⟨h, hlt⟩) fun e r h => h.imp_left (hfault e r)
      split
      · refine (hjob.send_caught (P := Ahead c node o v as j a) (Q := Ahead c node o v as j a)
          fun s s' stuck h hlands => ?_).mono (fun _ h => h) (fun _ _ h => h) fun _ _ h => .inr h
        have hexec := Submission.exec_of_lands (i := .executeSpecificSol _ _) rfl rfl hlands
        exact hpays h hexec rfl hvault fun _ _ hy => hy.1
      · refine Meets.bind ((getAssociatedTokenAddress_fatal _ P _ _ _ _).mono (fun _ h => h)
          (fun _ _ h => h.1) fun _ _ h => .inl h) fun vaultAta => ?_
        refine Meets.bind ((getAssociatedTokenAddress_fatal _ P _ _ _ _).mono (fun _ h => h)
          (fun _ _ h => h.1) fun _ _ h => .inl h) fun benAta => ?_
        refine Meets.bind ((hjob.ensureAta_caught (P := Ahead c node o v as j a)
          (fun _ _ accounts h => h.createAtas accounts) _ _ _ _).mono (fun _ h => h)
          (fun _ _ h => h) fun _ _ h => .inr h) fun _ => ?_
        refine (hjob.send_caught (P := Ahead c node o v as j a) (Q := Ahead c node o v as j a)
          fun s s' stuck h hlands => ?_).mono (fun _ h => h) (fun _ _ h => h) fun _ _ h => .inr h
        generalize ((mints.find? _).map _).getD _ = programId at hlands
        cases programId with
        | token program =>
            have hexec := Submission.exec_of_lands (i := .executeSpecificAsset _ _) rfl rfl hlands
            exact hpays h hexec rfl hvault fun _ _ hy => hy.1
        | other => cases hlands
    · split
      · intro r hr
        refine ⟨⟨hr.1, ?_⟩, hlt⟩
        have hsame : Run.stuckMints (σ := World) ⟨r.net, r.log ++ [.skippedSol]⟩ =
            r.stuckMints := by
          simp [Run.stuckMints]
        show a.mint ∉ Run.stuckMints (σ := World) ⟨r.net, r.log ++ [.skippedSol]⟩
        rw [hsame]
        exact hr.2
      · exact (markStuck_ahead _ hmint).mono (fun _ h => h) (fun _ _ h => ⟨h, hlt⟩)
          fun _ _ h => h
  · -- The bequest itself: the account of its wallet is not derived.
    obtain rfl := Option.some.inj (hx.symm.trans hbad.listed)
    refine Job.attempt_fatal hrevoked (R := fun _ => False) (Meets.of_fact fun hwallet => ?_)
      fun _ h => h.elim
    obtain ⟨b, hb, rfl⟩ := hwallet
    rw [if_neg (by simpa using hbad.token)]
    refine Meets.bind ((getAssociatedTokenAddress_fatal _ P _ _ _ _).mono (fun _ h => h)
      (fun _ _ h => h.1) fun e r h => .inl (hfault e r h)) fun vaultAta => ?_
    refine Meets.bind (Q := fun _ _ => False) ((getAssociatedTokenAddress_fatal _ P _ _ _ _).mono
      (fun _ h => h) (fun _ r h => ?_) fun e r h => .inl (hfault e r h)) fun benAta _ h => h.elim
    rcases h.2 with hallow | hcurve
    · cases hallow
    · refine hcurve ?_
      rw [hjob.client]
      exact hbad.offCurve b hb

/-- The pass never gets through the bequests. -/
theorem Job.OnNode.specificBequests_ahead (hjob : job.OnNode c node)
    (hvault : job.vault = .vault o) (hrevoked : job.revoked = keeperHalt) {mask : BitVec 64}
    (hbad : OffCurve node v as j a) (hseen : Seen as j a mask) (mints : List (Pubkey × ProgramId)) :
    Meets (fun r => Ahead c node o v as j a r.net r.stuckMints)
      (as.zipIdx.forM (job.specificBequest v.beneficiaries mints mask)) (fun _ _ => False)
      (fun e r => Fatal e ∧ Poisoned c node o v as j a r.net) := by
  have hloop := Meets.forM_prefix as.zipIdx
    (E := fun e (r : Run World) => Fatal e ∧ Poisoned c node o v as j a r.net)
    (f := job.specificBequest v.beneficiaries mints mask)
    (I := fun done r => Ahead c node o v as j a r.net r.stuckMints ∧ done.length ≤ j)
    fun done entry rest hdone => ?_
  · refine hloop.mono (fun r hr => ⟨hr, Nat.zero_le _⟩) (fun _ r h => ?_) fun _ _ h => h
    have hj : j < as.length := (List.getElem?_eq_some_iff.mp hbad.listed).1
    rw [List.length_zipIdx] at h
    omega
  · obtain ⟨x, n⟩ := entry
    have hentry : as.zipIdx[done.length]? = some (x, n) := by
      rw [hdone, List.getElem?_append_right le_rfl, Nat.sub_self, List.getElem?_cons_zero]
    rw [List.getElem?_zipIdx, Option.map_eq_some_iff] at hentry
    obtain ⟨y, hy, heq⟩ := hentry
    obtain ⟨rfl, rfl⟩ := Prod.mk.inj heq
    rw [Nat.zero_add]
    refine Meets.of_fact fun hn => ?_
    refine (hjob.specificBequest_ahead hvault hrevoked hbad hseen mints hy hn).mono (fun _ h => h)
      (fun _ r h => ⟨h.1, ?_⟩) fun _ _ h => h
    rw [List.length_append, List.length_singleton]
    exact h.2

/-! ## The pass -/

/-- The plan that a pass reads. -/
theorem Poisoned.seen (h : Poisoned c node o v as j a w) :
    ∃ p, w.assetPlans (.assetPlan (.vault o)) = some p ∧ p.assignments = as ∧
      Seen as j a p.paidMask := by
  have hlisted := h.offCurve.listed
  cases hp : w.assetPlans (.assetPlan (.vault o)) with
  | none =>
      have hassign := h.pending.assignments
      simp only [Estate.assignments, World.estate, hp, Option.elim_none] at hassign
      rw [← hassign] at hlisted
      cases hlisted
  | some p =>
      obtain ⟨hassign, hbits⟩ := h.pending.plan_assignments hp
      have hclear := h.clear
      have hpaid := h.paid
      rw [hbits] at hclear hpaid
      refine ⟨p, rfl, hassign, ?_, fun i hi x hx hm => ?_⟩
      · rwa [bitSet, ← Bitmask.test_eq_getLsbD]
      · rw [bitSet, ← Bitmask.test_eq_getLsbD]
        exact hpaid i hi x hx hm

/-- The keeper's pass over the vault throws an unknown fault, and the bequest stays unpaid. -/
theorem Job.OnNode.distribute_poisoned (hjob : job.OnNode c node) (hvault : job.vault = .vault o)
    (hrevoked : job.revoked = keeperHalt) {expire : Routine World PUnit}
    (hexpire : ∀ r, expire r = .ok ⟨⟩ r) :
    Meets (fun r => Poisoned c node o v as j a r.net ∧ r.stuckMints = []) (job.distribute expire v)
      (fun _ _ => False) (fun e r => Fatal e ∧ Poisoned c node o v as j a r.net) := by
  let P : Run World → Prop := fun r => Ahead c node o v as j a r.net r.stuckMints
  refine Meets.mono (P := fun r => P r ∧ OffCurve node v as j a) (Meets.of_fact fun hbad => ?_)
    (fun r h => ⟨⟨h.1, ?_⟩, h.1.offCurve⟩) (fun _ _ h => h) fun _ _ h => h
  swap
  · rw [h.2]
    exact List.not_mem_nil
  unfold Job.distribute
  refine Meets.bind (Q := fun _ => P) (fun r hr => ?_) fun _ => ?_
  · obtain ⟨l, hl⟩ := Option.isSome_iff_exists.mp hr.1.pending.log
    have hread : call (job.client.executionLog (.execution job.vault)) r = .ok (some l) r := by
      rw [hjob.client, hvault, ← hl]
      exact call_read rfl
    unfold Job.beginExecution
    rw [run_bind_ok hread]
    exact hr
  refine Meets.bind (Q := fun plan r => P r ∧
    ∃ p, plan = some p ∧ p.assignments = as ∧ Seen as j a p.paidMask) (fun r hr => ?_) fun plan => ?_
  · obtain ⟨p, hp, hassign, hseen⟩ := hr.1.seen
    rw [hr.1.pending.fetchPlan hjob.client hvault, hp]
    exact ⟨hr, p, rfl, hassign, hseen⟩
  refine Meets.of_fact fun hplan => ?_
  obtain ⟨p, rfl, rfl, hseen⟩ := hplan
  refine Meets.bind (Q := fun _ => P) (fun r hr => ?_) fun mints => ?_
  · rw [hjob.client, collectMints_onNode (hexpire r)]
    exact hr
  refine Meets.bind (Q := fun _ => P) (Meets.forM fun entry _ =>
    hjob.beginTokenDist_ahead hvault hrevoked v.hasAssetPlan entry) fun _ => ?_
  refine Meets.bind (Q := fun _ _ => False) ?_ fun _ _ h => h.elim
  simpa using hjob.specificBequests_ahead hvault hrevoked hbad hseen mints

/-- So does the keeper's pass. -/
theorem crankVault_poisoned {payer : Pubkey} {canSubmit : CanSubmit World}
    (hjob : (keeperJob (node.client c) payer (.vault o) canSubmit).OnNode c node) :
    Meets (fun r => Poisoned c node o v as j a r.net ∧ r.stuckMints = [])
      (crankVault (node.client c) payer (.vault o) v canSubmit) (fun _ _ => False)
      (fun e r => Fatal e ∧ Poisoned c node o v as j a r.net) := by
  cases canSubmit with
  | none =>
      intro r _
      obtain ⟨reply, hpermit⟩ := hjob.guard
      cases hpermit r
  | some check =>
      refine Meets.bind
        (Q := fun _ (r : Run World) => Poisoned c node o v as j a r.net ∧ r.stuckMints = [])
        (fun _ hr => hr) fun _ => ?_
      exact Meets.bind (hjob.distribute_poisoned rfl rfl fun r => rfl) fun _ _ h => h.elim

end DeadMansVault.Crank
