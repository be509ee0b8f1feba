-- SUMMARY: No crank submits without the readiness check that it has just passed, and none goes on once it fails.
import DeadMansVault.Crank.Cranks

/-!
# Fail-closed cranking

A crank checks its readiness before each submission. The checks and the
submissions stand in the log of its run, next to the assets that it gives up on;
once a check fails, nothing is added to the log and the run ends with the
revocation. That holds whatever the cluster answers to the reads and to the
submissions, and whatever the check does.
-/

namespace DeadMansVault.Crank

open Script

variable {σ α β : Type}

/-! ## What a run has to keep -/

/-- Which replies let a submission pass. The server cannot await a promise; the keeper does. -/
def serverAffirmative (reply : Option Reply) : Prop := reply = some (.value true)

def keeperAffirmative (reply : Option Reply) : Prop :=
  reply = some (.value true) ∨ reply = some (.promise (some true))

variable (Affirmative : Option Reply → Prop)

/-- Each submission comes right after a check that was affirmative, and all checks were. -/
structure Steady (log : List Entry) : Prop where
  preceded : ∀ pre submission post, log = pre ++ .submitted submission :: post →
    ∃ earlier reply, pre = earlier ++ [.evaluated reply] ∧ Affirmative reply
  affirmed : ∀ reply, .evaluated reply ∈ log → Affirmative reply

/-- The next entry may be a submission. -/
def Armed (log : List Entry) : Prop :=
  Steady Affirmative log ∧ ∃ earlier reply, log = earlier ++ [.evaluated reply]

/-- The last check was not affirmative. -/
def Halted (log : List Entry) : Prop :=
  ∃ pre reply, log = pre ++ [.evaluated reply] ∧ Steady Affirmative pre ∧ ¬ Affirmative reply

/-- The run has thrown the revocation. -/
def Throws (revoked : String) : EStateM.Result JsError (Run σ) α → Prop
  | .ok _ _ => False
  | .error e _ => e.message = revoked

/-- Each submission comes right after an affirmative check; nothing comes after a check that is
    not, and the run ends as a revoked one does. -/
structure FailClosed (Revoked : EStateM.Result JsError (Run σ) α → Prop)
    (result : EStateM.Result JsError (Run σ) α) : Prop where
  preceded : ∀ pre submission post,
    (final result).log = pre ++ .submitted submission :: post →
    ∃ earlier reply, pre = earlier ++ [.evaluated reply] ∧ Affirmative reply
  final : ∀ pre reply post, (final result).log = pre ++ .evaluated reply :: post →
    ¬ Affirmative reply → post = [] ∧ Revoked result

variable {Affirmative : Option Reply → Prop} {log : List Entry}

theorem Steady.nil : Steady Affirmative [] where
  preceded pre _ _ h := by cases pre <;> cases h
  affirmed _ h := absurd h List.not_mem_nil

/-- An entry that is no submission, and no check that fails. -/
theorem Steady.snoc (h : Steady Affirmative log) {entry : Entry}
    (hsubmitted : ∀ submission, entry ≠ .submitted submission)
    (haffirmed : ∀ reply, entry = .evaluated reply → Affirmative reply) :
    Steady Affirmative (log ++ [entry]) where
  preceded pre submission post heq := by
    rcases List.append_eq_append_iff.mp heq with ⟨mid, hpre, hrest⟩ | ⟨mid, hlog, hrest⟩
    · cases mid with
      | nil => exact absurd (List.cons.inj hrest).1 (hsubmitted submission)
      | cons x mid => simp at hrest
    · cases mid with
      | nil => exact absurd (List.cons.inj hrest).1.symm (hsubmitted submission)
      | cons x mid =>
          obtain ⟨rfl, -⟩ := List.cons.inj hrest
          exact h.preceded pre submission mid hlog
  affirmed reply hmem := by
    rcases List.mem_append.mp hmem with hold | hnew
    · exact h.affirmed reply hold
    · exact haffirmed reply (List.mem_singleton.mp hnew).symm

theorem Armed.submitted (h : Armed Affirmative log) (submission : Submission) :
    Steady Affirmative (log ++ [.submitted submission]) where
  preceded pre submission' post heq := by
    obtain ⟨hsteady, earlier, reply, rfl⟩ := h
    rcases List.append_eq_append_iff.mp heq with ⟨mid, hpre, hrest⟩ | ⟨mid, hlog, hrest⟩
    · cases mid with
      | nil =>
          rw [List.append_nil] at hpre
          exact ⟨earlier, reply, hpre, hsteady.affirmed reply (by simp)⟩
      | cons x mid => simp at hrest
    · cases mid with
      | nil =>
          rw [List.append_nil] at hlog
          exact ⟨earlier, reply, hlog.symm, hsteady.affirmed reply (by simp)⟩
      | cons x mid =>
          obtain ⟨rfl, -⟩ := List.cons.inj hrest
          exact hsteady.preceded pre submission' mid hlog
  affirmed reply hmem := by
    rcases List.mem_append.mp hmem with hold | hnew
    · exact h.1.affirmed reply hold
    · cases List.mem_singleton.mp hnew

/-! ## Routines that leave the log alone -/

/-- The log says afterwards what it said before. -/
structure Quiet (x : Routine σ α) : Prop where
  meets : ∀ P : List Entry → Prop,
    Meets (fun r => P r.log) x (fun _ r => P r.log) (fun _ r => P r.log)

namespace Quiet

theorem pure (a : α) : Quiet (pure a : Routine σ α) := ⟨fun _ _ h => h⟩

theorem throw (e : JsError) : Quiet (throw e : Routine σ α) := ⟨fun _ _ h => h⟩

theorem bind {x : Routine σ α} {f : α → Routine σ β} (hx : Quiet x) (hf : ∀ a, Quiet (f a)) :
    Quiet (x >>= f) := ⟨fun P => (hx.meets P).bind fun a => (hf a).meets P⟩

theorem tryCatch {x : Routine σ α} {handler : JsError → Routine σ α} (hx : Quiet x)
    (hh : ∀ e, Quiet (handler e)) : Quiet (tryCatch x handler) :=
  ⟨fun P => (hx.meets P).tryCatch fun e => (hh e).meets P⟩

theorem mapM {xs : List α} {f : α → Routine σ β} (hf : ∀ a, Quiet (f a)) : Quiet (xs.mapM f) :=
  ⟨fun P => Meets.mapM fun a _ => (hf a).meets P⟩

theorem foldlM {xs : List α} {f : β → α → Routine σ β} (hf : ∀ b a, Quiet (f b a)) (b : β) :
    Quiet (xs.foldlM f b) := ⟨fun P => Meets.foldlM (fun b a _ => (hf b a).meets P) b⟩

theorem call (f : σ → Except JsError α × σ) : Quiet (call f) := by
  refine ⟨fun P r hr => ?_⟩
  unfold Crank.call
  rcases f r.net with ⟨_ | a, net⟩
  · exact hr
  · exact hr

theorem fetch (f : σ → Except JsError (Option α) × σ) : Quiet (fetch f) := by
  refine (call f).bind fun a => ?_
  cases a with
  | none => exact throw _
  | some a => exact pure a

theorem get : Quiet (get : Routine σ (Run σ)) := ⟨fun _ _ h => h⟩

theorem isStuck (mint : Pubkey) : Quiet (isStuck (σ := σ) mint) :=
  ⟨fun _ _ hr => hr⟩

theorem toNumber (n : Int) : Quiet (toNumber (σ := σ) n) := by
  unfold Crank.toNumber
  split
  · exact pure n
  · exact throw _

theorem walletAt (beneficiaries : List Beneficiary) (i : Nat) :
    Quiet (walletAt (σ := σ) beneficiaries i) := by
  unfold Crank.walletAt
  split
  · exact pure _
  · exact throw _

theorem getAssociatedTokenAddress (client : Client σ) (mint owner : Pubkey) (allow : Bool)
    (programId : ProgramId) :
    Quiet (getAssociatedTokenAddress client mint owner allow programId) := by
  unfold Crank.getAssociatedTokenAddress
  split
  · exact throw _
  · exact pure _

theorem getAccountInfoRetry (client : Client σ) (key : Pubkey) (tries : Nat) :
    Quiet (getAccountInfoRetry client key tries) := by
  induction tries with
  | zero => exact pure none
  | succ tries ih =>
      refine (tryCatch (call _) fun e => ?_).bind fun acc => ?_
      · split
        · exact throw e
        · exact pure none
      · cases acc with
        | none => exact ih
        | some owner => exact pure _

theorem collectMints (client : Client σ) {expire : Routine σ PUnit} (hexpire : Quiet expire)
    (vault : Pubkey) (plan : Option AssetPlan) :
    Quiet (collectMints client expire vault plan) := by
  refine (call _).bind fun classic => (call _).bind fun extended => ?_
  cases plan with
  | none => exact pure _
  | some plan =>
      refine (foldlM (fun info a => ?_) _).bind fun info => pure _
      unfold addPlanned
      split
      · exact pure info
      · split
        · exact pure _
        · refine (getAccountInfoRetry ..).bind fun owner => hexpire.bind fun _ => ?_
          cases owner with
          | none => exact pure info
          | some owner => exact pure _

theorem fetchPlan (job : Job σ) (hasPlan : Bool) : Quiet (job.fetchPlan hasPlan) := by
  unfold Job.fetchPlan
  split
  · exact (fetch _).bind fun plan => pure _
  · exact pure none

theorem dust (job : Job σ) (vaultAta : Pubkey) (programId : ProgramId) :
    Quiet (job.dust vaultAta programId) := by
  refine (call _).tryCatch fun e => ?_
  split
  · exact throw e
  · exact pure _

end Quiet

/-! ## Routines that fail closed -/

/-- A run that was steady stays so, or it ends with the revocation because a check has failed. -/
structure Keeps (Affirmative : Option Reply → Prop) (revoked : String) (x : Routine σ α) : Prop where
  meets : Meets (fun r => Steady Affirmative r.log) x (fun _ r => Steady Affirmative r.log)
    (fun e r => Steady Affirmative r.log ∨ (Halted Affirmative r.log ∧ e = error revoked))

variable {revoked : String}

/-- What the guard of a crank does. -/
structure Guards (Affirmative : Option Reply → Prop) (revoked : String)
    (guard : Routine σ PUnit) : Prop where
  meets : Meets (fun r => Steady Affirmative r.log) guard (fun _ r => Armed Affirmative r.log)
    (fun e r => Halted Affirmative r.log ∧ e = error revoked)

theorem Quiet.keeps {x : Routine σ α} (h : Quiet x) : Keeps Affirmative revoked x :=
  ⟨(h.meets (Steady Affirmative)).mono (fun _ h => h) (fun _ _ h => h) fun _ _ h => .inl h⟩

theorem Keeps.bind {x : Routine σ α} {f : α → Routine σ β} (hx : Keeps Affirmative revoked x)
    (hf : ∀ a, Keeps Affirmative revoked (f a)) : Keeps Affirmative revoked (x >>= f) :=
  ⟨hx.meets.bind fun a => (hf a).meets⟩

theorem Keeps.forM {xs : List α} {f : α → Routine σ PUnit}
    (hf : ∀ a, Keeps Affirmative revoked (f a)) : Keeps Affirmative revoked (xs.forM f) :=
  ⟨Meets.forM fun a _ => (hf a).meets⟩

theorem Keeps.mapM {xs : List α} {f : α → Routine σ β}
    (hf : ∀ a, Keeps Affirmative revoked (f a)) : Keeps Affirmative revoked (xs.mapM f) :=
  ⟨Meets.mapM fun a _ => (hf a).meets⟩

/-- Recording anything but a check or a submission. -/
theorem Keeps.record {entry : Entry} (hsubmitted : ∀ submission, entry ≠ .submitted submission)
    (hevaluated : ∀ reply, entry ≠ .evaluated reply) :
    Keeps (σ := σ) Affirmative revoked (record entry) :=
  ⟨fun _ hr => hr.snoc hsubmitted fun reply heq => absurd heq (hevaluated reply)⟩

/-- The same from right behind a check that was affirmative. -/
structure Passes (Affirmative : Option Reply → Prop) (revoked : String) (x : Routine σ α) :
    Prop where
  meets : Meets (fun r => Armed Affirmative r.log) x (fun _ r => Steady Affirmative r.log)
    (fun e r => Steady Affirmative r.log ∨ (Halted Affirmative r.log ∧ e = error revoked))

theorem Guards.bind {guard : Routine σ PUnit} {f : PUnit → Routine σ α}
    (hguard : Guards Affirmative revoked guard) (hf : Passes Affirmative revoked (f ⟨⟩)) :
    Keeps Affirmative revoked (guard >>= f) :=
  ⟨(hguard.meets.mono (fun _ h => h) (fun _ _ h => h) fun _ _ h => .inr h).bind fun _ => hf.meets⟩

theorem Passes.submit (client : Client σ) (submission : Submission) :
    Passes Affirmative revoked (submit client submission) := by
  have hrecord : Passes (σ := σ) Affirmative revoked (record (.submitted submission)) :=
    ⟨fun _ hr => hr.submitted submission⟩
  exact ⟨hrecord.meets.bind fun _ => (Quiet.call _).keeps.meets⟩

theorem Passes.bind {x : Routine σ α} {f : α → Routine σ β} (hx : Passes Affirmative revoked x)
    (hf : ∀ a, Keeps Affirmative revoked (f a)) : Passes Affirmative revoked (x >>= f) :=
  ⟨hx.meets.bind fun a => (hf a).meets⟩

theorem Quiet.passes_bind {x : Routine σ α} {f : α → Routine σ β} (hx : Quiet x)
    (hf : ∀ a, Passes Affirmative revoked (f a)) : Passes Affirmative revoked (x >>= f) :=
  ⟨((hx.meets (Armed Affirmative)).mono (fun _ h => h) (fun _ _ h => h)
    fun _ _ h => .inl h.1).bind fun a => (hf a).meets⟩

/-- The `catch` around the work on one asset. -/
theorem Keeps.attempt {job : Job σ} {body giveUp : Routine σ PUnit}
    (hbody : Keeps Affirmative job.revoked body) (hgiveUp : Keeps Affirmative job.revoked giveUp) :
    Keeps Affirmative job.revoked (job.attempt body giveUp) := by
  refine ⟨hbody.meets.tryCatch fun e => ?_⟩
  split
  · exact fun _ h => h
  next hmessage =>
    -- The error is not the guard's.
    have hsteady : ∀ r : Run σ, Steady Affirmative r.log ∨
        (Halted Affirmative r.log ∧ e = error job.revoked) → Steady Affirmative r.log := by
      rintro r (hr | ⟨-, rfl⟩)
      · exact hr
      · exact absurd rfl hmessage
    split
    · exact fun r hr => .inl (hsteady r hr)
    · exact hgiveUp.meets.mono hsteady (fun _ _ h => h) fun _ _ h => h

/-! ## The steps -/

section Steps

variable {job : Job σ} (hguard : Guards Affirmative job.revoked job.guard)
include hguard

theorem Job.ensureAta_keeps (ata mint owner : Pubkey) (programId : ProgramId) :
    Keeps Affirmative job.revoked (job.ensureAta ata mint owner programId) := by
  refine (Quiet.call _).keeps.bind fun info => ?_
  cases info with
  | some owner => exact (Quiet.pure _).keeps
  | none => exact hguard.bind (Passes.submit _ _)

theorem Job.beginExecution_keeps (hasPlan : Bool) :
    Keeps Affirmative job.revoked (job.beginExecution hasPlan) := by
  refine (Quiet.call _).keeps.bind fun log => ?_
  cases log with
  | some log => exact (Quiet.pure _).keeps
  | none =>
      refine hguard.bind ((Passes.submit _ _).bind fun _ => ?_)
      exact ((Quiet.fetch _).bind fun _ => Quiet.pure _).keeps

theorem Job.beginTokenDist_keeps (hasPlan : Bool) (entry : Pubkey × ProgramId) :
    Keeps Affirmative job.revoked (job.beginTokenDist hasPlan entry) := by
  refine (Quiet.call _).keeps.bind fun td => ?_
  cases td with
  | some td => exact (Quiet.pure _).keeps
  | none =>
      refine Keeps.attempt ?_ (Keeps.record nofun nofun)
      refine (Quiet.getAssociatedTokenAddress ..).keeps.bind fun vaultAta => ?_
      exact (job.ensureAta_keeps hguard ..).bind fun _ => hguard.bind (Passes.submit _ _)

theorem Job.specificBequest_keeps (beneficiaries : List Beneficiary)
    (mints : List (Pubkey × ProgramId)) (paidMask : BitVec 64) (entry : AssetAssignment × Nat) :
    Keeps Affirmative job.revoked (job.specificBequest beneficiaries mints paidMask entry) := by
  obtain ⟨a, j⟩ := entry
  unfold Job.specificBequest
  dsimp only
  split
  · exact (Quiet.pure _).keeps
  · refine (Quiet.isStuck _).keeps.bind fun stuck => ?_
    split
    · exact (Quiet.pure _).keeps
    · refine (Quiet.walletAt ..).keeps.bind fun benWallet => Keeps.attempt ?_ ?_
      · split
        · exact hguard.bind (Passes.submit _ _)
        · refine (Quiet.getAssociatedTokenAddress ..).keeps.bind fun vaultAta => ?_
          refine (Quiet.getAssociatedTokenAddress ..).keeps.bind fun benAta => ?_
          exact (job.ensureAta_keeps hguard ..).bind fun _ => hguard.bind (Passes.submit _ _)
      · split
        · exact Keeps.record nofun nofun
        · exact Keeps.record nofun nofun

theorem Job.solShares_keeps (beneficiaries : List Beneficiary) (part : List Nat) :
    Keeps Affirmative job.revoked (job.solShares beneficiaries part) := by
  refine hguard.bind (Quiet.passes_bind ?_ fun accounts => Passes.submit _ _)
  exact Quiet.mapM fun i => (Quiet.walletAt ..).bind fun wallet => Quiet.pure _

theorem Job.finalize_keeps (beneficiaries : List Beneficiary) (hasPlan : Bool) :
    Keeps Affirmative job.revoked (job.finalize beneficiaries hasPlan) := by
  refine (Quiet.fetch _).keeps.bind fun log => (Quiet.fetchPlan ..).keeps.bind fun plan => ?_
  refine Quiet.get.keeps.bind fun r => ?_
  split
  · exact hguard.bind (Passes.submit _ _)
  · exact (Quiet.pure _).keeps

theorem Job.shareAccount_keeps (beneficiaries : List Beneficiary) (mint : Pubkey)
    (programId : ProgramId) (i : Nat) :
    Keeps Affirmative job.revoked (job.shareAccount beneficiaries mint programId i) := by
  refine (Quiet.walletAt ..).keeps.bind fun wallet => ?_
  refine (Quiet.getAssociatedTokenAddress ..).keeps.bind fun benAta => ?_
  exact (job.ensureAta_keeps hguard ..).bind fun _ => (Quiet.pure _).keeps

theorem Job.tokenShares_keeps (beneficiaries : List Beneficiary) (entry : Pubkey × ProgramId) :
    Keeps Affirmative job.revoked (job.tokenShares beneficiaries entry) := by
  obtain ⟨mint, programId⟩ := entry
  refine (Quiet.isStuck mint).keeps.bind fun stuck => ?_
  split
  · exact (Quiet.pure _).keeps
  · refine (Quiet.call _).keeps.bind fun td => ?_
    cases td with
    | none => exact (Quiet.pure _).keeps
    | some td =>
        refine Keeps.attempt ?_ (Keeps.record nofun nofun)
        refine (Quiet.getAssociatedTokenAddress ..).keeps.bind fun vaultAta => Keeps.forM fun part => ?_
        refine (Keeps.mapM fun i => job.shareAccount_keeps hguard ..).bind fun remaining => ?_
        exact hguard.bind (Passes.submit _ _)

theorem Job.dustAccount_keeps (mint maxWallet : Pubkey) (programId : ProgramId) (dust : Nat) :
    Keeps Affirmative job.revoked (job.dustAccount mint maxWallet programId dust) := by
  unfold Job.dustAccount
  split
  · refine (Quiet.getAssociatedTokenAddress ..).keeps.bind fun dustAta => ?_
    exact (job.ensureAta_keeps hguard ..).bind fun _ => (Quiet.pure _).keeps
  · exact (Quiet.pure _).keeps

theorem Job.closeTokenDist_keeps (owner : Pubkey) (beneficiaries : List Beneficiary)
    (entry : Pubkey × ProgramId) :
    Keeps Affirmative job.revoked (job.closeTokenDist owner beneficiaries entry) := by
  obtain ⟨mint, programId⟩ := entry
  refine (Quiet.isStuck mint).keeps.bind fun stuck => ?_
  split
  · exact (Quiet.pure _).keeps
  · refine (Quiet.call _).keeps.bind fun td => ?_
    cases td with
    | none => exact (Quiet.pure _).keeps
    | some td =>
        dsimp only
        split
        · exact (Quiet.pure _).keeps
        · refine Keeps.attempt ?_ (Keeps.record nofun nofun)
          refine (Quiet.getAssociatedTokenAddress ..).keeps.bind fun vaultAta => ?_
          refine (Quiet.walletAt ..).keeps.bind fun maxWallet => ?_
          refine (Quiet.dust ..).keeps.bind fun amounts => ?_
          refine (job.dustAccount_keeps hguard ..).bind fun dustAta => ?_
          exact hguard.bind (Passes.submit _ _)

theorem Job.distribute_keeps {expire : Routine σ PUnit} (hexpire : Quiet expire)
    (cfg : VaultConfig) : Keeps Affirmative job.revoked (job.distribute expire cfg) := by
  refine (job.beginExecution_keeps hguard _).bind fun _ => ?_
  refine (Quiet.fetchPlan ..).keeps.bind fun plan => ?_
  refine (Quiet.collectMints _ hexpire _ _).keeps.bind fun mints => ?_
  refine (Keeps.forM fun entry => job.beginTokenDist_keeps hguard _ entry).bind fun _ => ?_
  refine (Keeps.forM fun entry => job.specificBequest_keeps hguard _ _ _ entry).bind fun _ => ?_
  refine (Quiet.fetch _).keeps.bind fun log => ?_
  refine (Keeps.forM fun part => job.solShares_keeps hguard _ part).bind fun _ => ?_
  refine (job.finalize_keeps hguard _ _).bind fun _ => ?_
  exact (Keeps.forM fun entry => job.tokenShares_keeps hguard _ entry).bind fun _ =>
    (Quiet.pure _).keeps

theorem Job.closeTokenDists_keeps (executed : Bool) (owner : Pubkey)
    (beneficiaries : List Beneficiary) (mints : List (Pubkey × ProgramId)) :
    Keeps Affirmative job.revoked (job.closeTokenDists executed owner beneficiaries mints) := by
  unfold Job.closeTokenDists
  split
  · exact Keeps.forM fun entry => job.closeTokenDist_keeps hguard _ _ entry
  · exact (Quiet.pure _).keeps

end Steps

/-! ## The cranks -/

/-- A check that has just been made. -/
def JustChecked (Affirmative : Option Reply → Prop) (reply : Option Reply) (r : Run σ) : Prop :=
  ∃ pre, r.log = pre ++ [.evaluated reply] ∧ Steady Affirmative pre

theorem evaluate_meets (canSubmit : CanSubmit σ) :
    Meets (fun r => Steady Affirmative r.log) (evaluate canSubmit) (JustChecked Affirmative)
      (fun _ _ => False) := by
  intro r hr
  cases canSubmit with
  | none => exact ⟨r.log, rfl, hr⟩
  | some f => exact ⟨r.log, rfl, hr⟩

theorem JustChecked.armed {reply : Option Reply} {r : Run σ} (h : JustChecked Affirmative reply r)
    (haffirmative : Affirmative reply) : Armed Affirmative r.log := by
  obtain ⟨pre, hlog, hpre⟩ := h
  rw [hlog]
  refine ⟨hpre.snoc nofun fun reply' heq => ?_, pre, reply, rfl⟩
  rwa [← Entry.evaluated.inj heq]

theorem JustChecked.halted {reply : Option Reply} {r : Run σ} (h : JustChecked Affirmative reply r)
    (hnot : ¬ Affirmative reply) : Halted Affirmative r.log := by
  obtain ⟨pre, hlog, hpre⟩ := h
  exact ⟨pre, reply, hlog, hpre, hnot⟩

theorem guards_makeSubmitGuard (canSubmit : CanSubmit σ) :
    Guards serverAffirmative readinessRevoked (makeSubmitGuard canSubmit) := by
  refine ⟨((evaluate_meets canSubmit).mono (fun _ h => h) (fun _ _ h => h) fun _ _ h =>
    h.elim).bind fun reply r hr => ?_⟩
  rcases reply with _ | (_ | _) | _ | _
  · exact ⟨hr.halted nofun, rfl⟩
  · exact ⟨hr.halted nofun, rfl⟩
  · exact hr.armed rfl
  · exact ⟨hr.halted nofun, rfl⟩
  · exact ⟨hr.halted nofun, rfl⟩

theorem guards_makeKeeperGuard (canSubmit : CanSubmit σ) :
    Guards keeperAffirmative keeperHalt (makeKeeperGuard canSubmit) := by
  refine ⟨((evaluate_meets canSubmit).mono (fun _ h => h) (fun _ _ h => h) fun _ _ h =>
    h.elim).bind fun reply r hr => ?_⟩
  rcases reply with _ | (_ | _) | _ | (_ | _ | _)
  · exact ⟨hr.halted (by rintro (h | h) <;> cases h), rfl⟩
  · exact ⟨hr.halted (by rintro (h | h) <;> cases h), rfl⟩
  · exact hr.armed (.inl rfl)
  · exact ⟨hr.halted (by rintro (h | h) <;> cases h), rfl⟩
  · exact ⟨hr.halted (by rintro (h | h) <;> cases h), rfl⟩
  · exact ⟨hr.halted (by rintro (h | h) <;> cases h), rfl⟩
  · exact hr.armed (.inr rfl)

variable (client : Client σ) (canSubmit : CanSubmit σ)

theorem runExecutorInner_keeps (cranker vault : Pubkey) :
    Keeps serverAffirmative readinessRevoked (runExecutorInner client cranker vault canSubmit) := by
  have hguard : Guards serverAffirmative (executorJob client cranker vault canSubmit).revoked
      (executorJob client cranker vault canSubmit).guard := guards_makeSubmitGuard canSubmit
  refine (Quiet.call _).keeps.bind fun _ => (Quiet.call _).keeps.bind fun cfg => ?_
  cases cfg with
  | none => exact (Quiet.pure _).keeps
  | some cfg =>
      dsimp only
      split
      · exact (Quiet.pure _).keeps
      · refine (Quiet.fetch _).keeps.bind fun hb => (Quiet.toNumber _).keeps.bind fun _ => ?_
        refine (Quiet.toNumber _).keeps.bind fun _ => (Quiet.toNumber _).keeps.bind fun _ => ?_
        refine (Quiet.call _).keeps.bind fun now => ?_
        split
        · exact (Quiet.pure _).keeps
        · refine (Job.distribute_keeps hguard (Quiet.pure _) cfg).bind fun mints => ?_
          refine (Quiet.fetch _).keeps.bind fun finalizedCfg => ?_
          refine (Job.closeTokenDists_keeps hguard _ _ _ mints).bind fun _ => ?_
          exact ((Quiet.fetch _).bind fun _ => Quiet.get.bind fun _ => Quiet.pure _).keeps

theorem crankVault_keeps (keeper vault : Pubkey) (cfg : VaultConfig) :
    Keeps keeperAffirmative keeperHalt (crankVault client keeper vault cfg canSubmit) := by
  have hguard : Guards keeperAffirmative (keeperJob client keeper vault canSubmit).revoked
      (keeperJob client keeper vault canSubmit).guard := guards_makeKeeperGuard canSubmit
  cases canSubmit with
  | none => exact (Quiet.throw _).keeps
  | some f =>
      refine (Quiet.call _).keeps.bind fun _ => ?_
      refine (Job.distribute_keeps hguard (Quiet.call _) cfg).bind fun mints => ?_
      refine (Quiet.fetch _).keeps.bind fun freshCfg => ?_
      refine (Job.closeTokenDists_keeps hguard _ _ _ mints).bind fun _ => ?_
      exact (Quiet.get.bind fun _ => Quiet.pure _).keeps

theorem vaultHoldsUndistributedTokens_quiet (vault : Pubkey) :
    Quiet (vaultHoldsUndistributedTokens client vault) := by
  refine (Quiet.call _).bind fun classic => ?_
  split
  · exact Quiet.pure _
  · exact (Quiet.call _).bind fun extended => Quiet.pure _

/-- The handler that looks for the owner's window lets the revocation through. -/
theorem Keeps.windowOpen {x : Routine σ Cleanup} (hx : Keeps keeperAffirmative keeperHalt x) :
    Keeps keeperAffirmative keeperHalt (tryCatch x fun e =>
      if "CloseDelayNotElapsed".toList <:+: (e.name ++ ": " ++ e.message).toList then
        pure .windowOpen
      else throw e) := by
  refine ⟨hx.meets.tryCatch fun e => ?_⟩
  split
  next hwindow =>
    rintro r (hr | ⟨-, rfl⟩)
    · exact hr
    · exact absurd hwindow (by decide)
  · exact fun _ h => h

theorem closeCore_keeps (keeper vault : Pubkey) (cfg : VaultConfig) :
    Keeps keeperAffirmative keeperHalt (closeCore (keeperJob client keeper vault canSubmit) cfg) := by
  have hguard : Guards keeperAffirmative keeperHalt (keeperJob client keeper vault canSubmit).guard :=
    guards_makeKeeperGuard canSubmit
  refine (Quiet.walletAt ..).keeps.bind fun maxWallet => Keeps.windowOpen ?_
  exact hguard.bind ((Passes.submit _ _).bind fun _ => (Quiet.pure _).keeps)

theorem cleanupExecutedVault_keeps (keeper vault : Pubkey) (cfg : VaultConfig) :
    Keeps keeperAffirmative keeperHalt (cleanupExecutedVault client keeper vault cfg canSubmit) := by
  have hcrank := crankVault_keeps client canSubmit keeper vault cfg
  have hclose := closeCore_keeps client canSubmit keeper vault cfg
  cases canSubmit with
  | none => exact (Quiet.throw _).keeps
  | some f =>
      refine (Quiet.call _).keeps.bind fun _ => (Quiet.call _).keeps.bind fun log => ?_
      cases log with
      | none => exact (Quiet.pure _).keeps
      | some log =>
          dsimp only
          split
          · exact (Quiet.pure _).keeps
          · have hfinish : Keeps keeperAffirmative keeperHalt
                (finishTokenDists client keeper vault cfg (some f)) := by
              unfold finishTokenDists
              split
              · exact hcrank.bind fun _ => ((Quiet.fetch _).bind fun _ => Quiet.pure _).keeps
              · exact (Quiet.pure _).keeps
            refine hfinish.bind fun leftOpen => ?_
            split
            · exact (Quiet.pure _).keeps
            · refine (vaultHoldsUndistributedTokens_quiet client vault).keeps.bind fun held => ?_
              split
              · exact (Quiet.pure _).keeps
              · exact hclose

/-! ## Whole runs -/

theorem Steady.failClosed {Revoked : EStateM.Result JsError (Run σ) α → Prop}
    {result : EStateM.Result JsError (Run σ) α} (h : Steady Affirmative (final result).log) :
    FailClosed Affirmative Revoked result where
  preceded := h.preceded
  final pre reply post heq hnot := absurd (h.affirmed reply (by simp [heq])) hnot

theorem Halted.failClosed {Revoked : EStateM.Result JsError (Run σ) α → Prop}
    {result : EStateM.Result JsError (Run σ) α} (h : Halted Affirmative (final result).log)
    (hrevoked : Revoked result) : FailClosed Affirmative Revoked result := by
  obtain ⟨log, last, hlog, hsteady, -⟩ := h
  refine ⟨fun pre submission post heq => ?_, fun pre reply post heq hnot => ⟨?_, hrevoked⟩⟩
  · rw [hlog] at heq
    rcases List.append_eq_append_iff.mp heq with ⟨mid, hpre, hrest⟩ | ⟨mid, hpre, hrest⟩
    · cases mid <;> simp at hrest
    · cases mid with
      | nil => simp at hrest
      | cons x mid =>
          obtain ⟨rfl, -⟩ := List.cons.inj hrest
          exact hsteady.preceded pre submission mid hpre
  · rw [hlog] at heq
    rcases List.append_eq_append_iff.mp heq with ⟨mid, hpre, hrest⟩ | ⟨mid, hpre, hrest⟩
    · cases mid with
      | nil => exact (List.cons.inj hrest).2.symm
      | cons x mid => simp at hrest
    · cases mid with
      | nil => exact (List.cons.inj hrest).2
      | cons x mid =>
          obtain ⟨rfl, -⟩ := List.cons.inj hrest
          exact absurd (hsteady.affirmed reply (by simp [hpre])) hnot

/-- A run that starts with an empty log fails closed. -/
theorem Keeps.failClosed {x : Routine σ α} (h : Keeps Affirmative revoked x) (net : σ) :
    FailClosed Affirmative (Throws revoked) (x ⟨net, []⟩) := by
  have hend := h.meets ⟨net, []⟩ .nil
  cases hrun : x ⟨net, []⟩ with
  | ok a r =>
      rw [hrun] at hend
      exact Steady.failClosed hend
  | error e r =>
      rw [hrun] at hend
      rcases hend with hsteady | ⟨hhalted, rfl⟩
      · exact Steady.failClosed hsteady
      · exact Halted.failClosed hhalted rfl

/-- `runExecutor` answers that the run has been aborted. -/
def Aborts : EStateM.Result JsError (Run σ) Action → Prop
  | .ok action _ => action = .abortedReadinessRevoked
  | .error _ _ => False

/-- The `catch` of `runExecutor`. -/
theorem Keeps.aborted {x : Routine σ Action} (hx : Keeps serverAffirmative readinessRevoked x) :
    Meets (fun r => Steady serverAffirmative r.log)
      (tryCatch x fun e =>
        if e.message = readinessRevoked then pure .abortedReadinessRevoked else throw e)
      (fun action r => Steady serverAffirmative r.log ∨
        (Halted serverAffirmative r.log ∧ action = .abortedReadinessRevoked))
      (fun _ r => Steady serverAffirmative r.log) := by
  refine (hx.meets.mono (fun _ h => h) (fun _ _ h => .inl h) fun _ _ h => h).tryCatch fun e => ?_
  split
  · rintro r (hsteady | ⟨hhalted, -⟩)
    · exact .inl hsteady
    · exact .inr ⟨hhalted, rfl⟩
  next hmessage =>
    rintro r (hsteady | ⟨-, rfl⟩)
    · exact hsteady
    · exact absurd rfl hmessage

theorem runExecutor_failClosed (cranker : Option Pubkey) (inFlight : List Pubkey) (vault : Pubkey)
    (net : σ) : FailClosed serverAffirmative Aborts
      (runExecutor client cranker inFlight vault canSubmit ⟨net, []⟩) := by
  have hempty : Steady serverAffirmative [] := .nil
  cases canSubmit with
  | none => exact Steady.failClosed hempty
  | some f =>
      cases cranker with
      | none => exact Steady.failClosed hempty
      | some cranker =>
          unfold runExecutor
          dsimp only
          split
          · exact Steady.failClosed hempty
          · have hend := (runExecutorInner_keeps client (some f) cranker vault).aborted ⟨net, []⟩ hempty
            generalize tryCatch (runExecutorInner client cranker vault (some f)) _ ⟨net, []⟩ = result
              at hend ⊢
            cases result with
            | error e r => exact Steady.failClosed hend
            | ok action r =>
                rcases hend with hsteady | ⟨hhalted, rfl⟩
                · exact Steady.failClosed hsteady
                · exact Halted.failClosed hhalted rfl

/-- Whatever the cluster answers and whatever the check does: a submission of a crank comes right
    after a check that was affirmative, and after the first one that is not the run submits
    nothing, gives up on no mint, and ends with the revocation. -/
theorem cranks_fail_closed (client : Client σ) (canSubmit : CanSubmit σ) (net : σ) :
    (∀ cranker vault, FailClosed serverAffirmative (Throws readinessRevoked)
      (runExecutorInner client cranker vault canSubmit ⟨net, []⟩)) ∧
    (∀ cranker inFlight vault, FailClosed serverAffirmative Aborts
      (runExecutor client cranker inFlight vault canSubmit ⟨net, []⟩)) ∧
    (∀ keeper vault cfg, FailClosed keeperAffirmative (Throws keeperHalt)
      (crankVault client keeper vault cfg canSubmit ⟨net, []⟩)) ∧
    ∀ keeper vault cfg, FailClosed keeperAffirmative (Throws keeperHalt)
      (cleanupExecutedVault client keeper vault cfg canSubmit ⟨net, []⟩) :=
  ⟨fun _ _ => (runExecutorInner_keeps ..).failClosed net,
    fun _ _ _ => runExecutor_failClosed ..,
    fun _ _ _ => (crankVault_keeps ..).failClosed net,
    fun _ _ _ => (cleanupExecutedVault_keeps ..).failClosed net⟩

end DeadMansVault.Crank
