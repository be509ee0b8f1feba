-- SUMMARY: Properties of routines that go through a crank step by step, from what its calls do.
import DeadMansVault.Crank.Tick

/-!
# Traversals

Much of what is to be shown of a crank is shown of its calls, and goes through the steps
in the way in which these are put together. Here the steps are gone through once, for any
property of routines that is closed under the ways of putting them together.
-/

namespace DeadMansVault.Crank

open Script

variable {σ α β : Type}

/-- The steps of `distribute` after the begin. -/
def Job.distribution (job : Job σ) (expire : Routine σ PUnit) (cfg : VaultConfig) :
    Routine σ (List (Pubkey × ProgramId)) := do
  let plan ← job.fetchPlan cfg.hasAssetPlan
  let mints ← collectMints job.client expire job.vault plan
  mints.forM (job.beginTokenDist cfg.hasAssetPlan)
  (plan.toList.flatMap (·.assignments.zipIdx)).forM
    (job.specificBequest cfg.beneficiaries mints ((plan.map (·.paidMask)).getD 0))
  let log ← fetch (job.client.executionLog (.execution job.vault))
  (chunk (Job.unpaid cfg.beneficiaries log.solPaidMask) batch).forM
    (job.solShares cfg.beneficiaries)
  job.finalize cfg.beneficiaries cfg.hasAssetPlan
  mints.forM (job.tokenShares cfg.beneficiaries)
  pure mints

/-- The closes of an executed vault, of which a cleanup ends with the first. -/
def closesVault : Instruction → Bool
  | .closeExecutedVault _ | .closeExecutedVaultByOwner _ => true
  | _ => false

/-- Whose token accounts a crank creates: those of the vault, and of its beneficiaries. -/
def Party (vault : Pubkey) (beneficiaries : List Beneficiary) (owner : Pubkey) : Prop :=
  owner = vault ∨ ∃ b ∈ beneficiaries, b.wallet = owner

/-- A transaction of a crank over this vault: it creates a token account of a party, or it
    carries an instruction on the vault, which does not close the vault itself. -/
def Submission.Cranks (vault : Pubkey) (beneficiaries : List Beneficiary) : Submission → Prop
  | .createAta _ owner _ _ => Party vault beneficiaries owner
  | .invoke i => i.vaultKey = vault ∧ closesVault i = false
  | .invokeWith _ _ i => ∀ program, (i program).vaultKey = vault ∧ closesVault (i program) = false

/-- The routine changes nothing. -/
abbrev Silent (x : Routine σ α) : Prop := Preserves (fun _ => True) x

/-- `K` is closed under the ways in which a job puts its routines together, and holds of its
    calls; `A` is what holds of that which may come right after the guard. The transactions
    that may be submitted are those of `S`. A lookup of a TokenDist is not among the calls. -/
structure Job.Closed (job : Job σ) (S : Submission → Prop) (K A : (α : Type) → Routine σ α → Prop) :
    Prop where
  silent : ∀ {α} {x : Routine σ α}, Silent x → K α x
  bind : ∀ {α β} {x : Routine σ α} {f : α → Routine σ β}, K α x → (∀ a, K β (f a)) → K β (x >>= f)
  executionLog : ∀ key, K _ (call (job.client.executionLog key))
  assetPlan : ∀ key, K _ (call (job.client.assetPlan key))
  tokenAccountsByOwner : ∀ owner program, K _ (call (job.client.tokenAccountsByOwner owner program))
  accountInfo : ∀ key, K _ (call (job.client.accountInfo key))
  /-- What throws in these two calls is looked at. -/
  accountInfoOr : ∀ key {handler}, (∀ e, K _ (handler e)) →
    K _ (tryCatch (call (job.client.accountInfo key)) handler)
  tokenAccountOr : ∀ key programId {handler}, (∀ e, K _ (handler e)) →
    K _ (tryCatch (call (job.client.tokenAccount key programId)) handler)
  attempt : ∀ {body giveUp}, K _ body → K _ giveUp → K _ (job.attempt body giveUp)
  markStuck : ∀ mint step, K _ (markStuck mint step)
  skipSol : K _ (record .skippedSol)
  guard : ∀ {α} {f : PUnit → Routine σ α}, A α (f ⟨⟩) → K α (job.guard >>= f)
  submit : ∀ {submission}, S submission → A _ (submit job.client submission)
  /-- After the submission anything may follow. -/
  submit_bind : ∀ {α} {submission} {f : PUnit → Routine σ α}, S submission → K α (f ⟨⟩) →
    A α (Crank.submit job.client submission >>= f)
  armed_bind : ∀ {α β} {x : Routine σ α} {f : α → Routine σ β}, Silent x → (∀ a, A β (f a)) →
    A β (x >>= f)

namespace Silent

theorem pure (a : α) : Silent (pure a : Routine σ α) := Preserves.pure a

theorem throw (e : JsError) : Silent (throw e : Routine σ α) := Preserves.throw e

theorem isStuck (mint : Pubkey) : Silent (isStuck (σ := σ) mint) :=
  Preserves.get.bind fun _ => .pure _

theorem toNumber (n : Int) : Silent (toNumber (σ := σ) n) := by
  unfold Crank.toNumber
  split
  · exact .pure n
  · exact .throw _

theorem walletAt (beneficiaries : List Beneficiary) (i : Nat) :
    Silent (walletAt (σ := σ) beneficiaries i) := by
  unfold Crank.walletAt
  split
  · exact .pure _
  · exact .throw _

theorem getAssociatedTokenAddress (client : Client σ) (mint owner : Pubkey) (allow : Bool)
    (programId : ProgramId) :
    Silent (getAssociatedTokenAddress client mint owner allow programId) := by
  unfold Crank.getAssociatedTokenAddress
  split
  · exact .throw _
  · exact .pure _

end Silent

namespace Job.Closed

variable {job : Job σ} {S : Submission → Prop} {K A : (α : Type) → Routine σ α → Prop}
  {beneficiaries : List Beneficiary} (h : job.Closed S K A)
include h

theorem pure (a : α) : K α (pure a : Routine σ α) := h.silent (.pure a)

theorem throw (e : JsError) : K α (throw e : Routine σ α) := h.silent (.throw e)

theorem forM (xs : List α) {f : α → Routine σ PUnit} (hf : ∀ a, K _ (f a)) : K _ (xs.forM f) := by
  induction xs with
  | nil => exact h.pure _
  | cons a xs ih => exact h.bind (hf a) fun _ => ih

theorem mapM {xs : List α} {f : α → Routine σ β} (hf : ∀ a, K _ (f a)) : K _ (xs.mapM f) := by
  induction xs with
  | nil => exact h.pure _
  | cons a xs ih =>
      rw [List.mapM_cons]
      exact h.bind (hf a) fun b => h.bind ih fun bs => h.pure _

theorem foldlM {xs : List α} {f : β → α → Routine σ β} (hf : ∀ b a, K _ (f b a)) (b : β) :
    K _ (xs.foldlM f b) := by
  induction xs generalizing b with
  | nil => exact h.pure b
  | cons a xs ih =>
      rw [List.foldlM_cons]
      exact h.bind (hf b a) fun b => ih b

theorem fetch {f : σ → Except JsError (Option α) × σ} (hf : K _ (call f)) : K _ (fetch f) := by
  refine h.bind hf fun a => ?_
  cases a with
  | none => exact h.throw _
  | some a => exact h.pure a

/-- The wallet that is looked up is a beneficiary's. -/
theorem walletAt_bind {i : Nat} {f : Pubkey → Routine σ α}
    (hf : ∀ b ∈ beneficiaries, K _ (f b.wallet)) : K _ (walletAt beneficiaries i >>= f) := by
  unfold Crank.walletAt
  split
  next b hb => exact hf b (List.mem_of_getElem? hb)
  next => exact h.throw _

/-! ## The mints -/

theorem getAccountInfoRetry (key : Pubkey) (tries : Nat) :
    K _ (getAccountInfoRetry job.client key tries) := by
  induction tries with
  | zero => exact h.pure none
  | succ tries ih =>
      refine h.bind (h.accountInfoOr key fun e => ?_) fun acc => ?_
      · split
        · exact h.throw e
        · exact h.pure none
      · cases acc with
        | none => exact ih
        | some owner => exact h.pure _

theorem collectMints {expire : Routine σ PUnit} (hexpire : K _ expire) (vault : Pubkey)
    (plan : Option AssetPlan) : K _ (collectMints job.client expire vault plan) := by
  refine h.bind (h.tokenAccountsByOwner ..) fun classic => ?_
  refine h.bind (h.tokenAccountsByOwner ..) fun extended => ?_
  cases plan with
  | none => exact h.pure _
  | some plan =>
      refine h.bind (h.foldlM (fun info a => ?_) _) fun info => h.pure _
      unfold addPlanned
      split
      · exact h.pure info
      · split
        · exact h.pure _
        · refine h.bind (h.getAccountInfoRetry ..) fun owner => h.bind hexpire fun _ => ?_
          cases owner with
          | none => exact h.pure info
          | some owner => exact h.pure _

theorem fetchPlan (hasPlan : Bool) : K _ (job.fetchPlan hasPlan) := by
  unfold Job.fetchPlan
  split
  · exact h.bind (h.fetch (h.assetPlan _)) fun plan => h.pure _
  · exact h.pure none

/-! ## The steps -/

theorem send {submission : Submission} (hS : S submission) :
    K _ (job.guard >>= fun _ => Crank.submit job.client submission) :=
  h.guard (h.submit hS)

theorem beginExecution
    (hS : ∀ ctx, ctx.vaultConfig = job.vault → S (.invoke (.beginExecution ctx)))
    (hasPlan : Bool) : K _ (job.beginExecution hasPlan) := by
  refine h.bind (h.executionLog _) fun log => ?_
  cases log with
  | some log => exact h.pure _
  | none =>
      refine h.guard (h.submit_bind (hS _ rfl) ?_)
      exact h.bind (h.fetch (h.executionLog _)) fun _ => h.pure _

theorem solShares (hS : ∀ ctx part, ctx.vaultConfig = job.vault →
      S (.invoke (.executeSolShares ctx part)))
    (beneficiaries : List Beneficiary) (part : List Nat) :
    K _ (job.solShares beneficiaries part) := by
  refine h.guard (h.armed_bind ?_ fun accounts => h.submit (hS _ part rfl))
  exact .mapM fun i => (Silent.walletAt ..).bind fun wallet => .pure _

theorem finalize (hS : ∀ ctx, ctx.vaultConfig = job.vault → S (.invoke (.finalizeExecution ctx)))
    (beneficiaries : List Beneficiary) (hasPlan : Bool) :
    K _ (job.finalize beneficiaries hasPlan) := by
  refine h.bind (h.fetch (h.executionLog _)) fun log => h.bind (h.fetchPlan _) fun plan => ?_
  refine h.bind (h.silent .get) fun r => ?_
  split
  · exact h.send (hS _ rfl)
  · exact h.pure _

variable (beneficiaries) (hata : ∀ ata owner mint programId, Party job.vault beneficiaries owner →
  S (.createAta ata owner mint programId))
include hata

theorem ensureAta (ata mint : Pubkey) {owner : Pubkey} (programId : ProgramId)
    (howner : Party job.vault beneficiaries owner) :
    K _ (job.ensureAta ata mint owner programId) := by
  refine h.bind (h.accountInfo _) fun info => ?_
  cases info with
  | some owner => exact h.pure _
  | none => exact h.send (hata _ _ _ _ howner)

theorem specificBequest
    (hsol : ∀ ctx j, ctx.vaultConfig = job.vault → S (.invoke (.executeSpecificSol ctx j)))
    (hasset : ∀ programId (ctx : TokenProgram → ExecuteSpecificAsset) j,
      (∀ program, (ctx program).vaultConfig = job.vault) →
      S (.invokeWith programId [] fun program => .executeSpecificAsset (ctx program) j))
    (mints : List (Pubkey × ProgramId)) (paidMask : BitVec 64)
    (entry : AssetAssignment × Nat) :
    K _ (job.specificBequest beneficiaries mints paidMask entry) := by
  obtain ⟨a, j⟩ := entry
  unfold Job.specificBequest
  dsimp only
  split
  · exact h.pure _
  · refine h.bind (h.silent (.isStuck _)) fun stuck => ?_
    split
    · exact h.pure _
    · refine h.walletAt_bind fun b hb => h.attempt ?_ ?_
      · split
        · exact h.send (hsol _ j rfl)
        · refine h.bind (h.silent (.getAssociatedTokenAddress ..)) fun vaultAta => ?_
          refine h.bind (h.silent (.getAssociatedTokenAddress ..)) fun benAta => ?_
          exact h.bind (h.ensureAta _ hata _ _ _ (.inr ⟨b, hb, rfl⟩)) fun _ =>
            h.send (hasset _ _ j fun _ => rfl)
      · split
        · exact h.skipSol
        · exact h.markStuck ..

theorem shareAccount (mint : Pubkey) (programId : ProgramId) (i : Nat) :
    K _ (job.shareAccount beneficiaries mint programId i) := by
  refine h.walletAt_bind fun b hb => ?_
  refine h.bind (h.silent (.getAssociatedTokenAddress ..)) fun benAta => ?_
  exact h.bind (h.ensureAta _ hata _ _ _ (.inr ⟨b, hb, rfl⟩)) fun _ => h.pure _

theorem dustAccount (mint : Pubkey) {maxWallet : Pubkey} (programId : ProgramId) (dust : Nat)
    (hparty : Party job.vault beneficiaries maxWallet) :
    K _ (job.dustAccount mint maxWallet programId dust) := by
  unfold Job.dustAccount
  split
  · refine h.bind (h.silent (.getAssociatedTokenAddress ..)) fun dustAta => ?_
    exact h.bind (h.ensureAta _ hata _ _ _ hparty) fun _ => h.pure _
  · exact h.pure _

variable (hdist : ∀ key, K _ (call (job.client.tokenDist key)))
include hdist

theorem beginTokenDist
    (hS : ∀ ctx, ctx.vaultConfig = job.vault → S (.invoke (.beginTokenDist ctx)))
    (hasPlan : Bool) (entry : Pubkey × ProgramId) : K _ (job.beginTokenDist hasPlan entry) := by
  refine h.bind (hdist _) fun td => ?_
  cases td with
  | some td => exact h.pure _
  | none =>
      refine h.attempt ?_ (h.markStuck ..)
      refine h.bind (h.silent (.getAssociatedTokenAddress ..)) fun vaultAta => ?_
      exact h.bind (h.ensureAta _ hata _ _ _ (.inl rfl)) fun _ => h.send (hS _ rfl)

theorem tokenShares (hS : ∀ programId (ctx : TokenProgram → ExecuteTokenShares) part,
      (∀ program, (ctx program).vaultConfig = job.vault) →
      S (.invokeWith programId [] fun program => .executeTokenShares (ctx program) part))
    (entry : Pubkey × ProgramId) :
    K _ (job.tokenShares beneficiaries entry) := by
  obtain ⟨mint, programId⟩ := entry
  refine h.bind (h.silent (.isStuck mint)) fun stuck => ?_
  split
  · exact h.pure _
  · refine h.bind (hdist _) fun td => ?_
    cases td with
    | none => exact h.pure _
    | some td =>
        refine h.attempt ?_ (h.markStuck ..)
        refine h.bind (h.silent (.getAssociatedTokenAddress ..)) fun vaultAta => ?_
        refine h.forM _ fun part => ?_
        refine h.bind (h.mapM fun i => h.shareAccount _ hata ..) fun remaining => ?_
        exact h.send (hS _ _ part fun _ => rfl)

omit hata in
/-- Steps 2 to 6, if all of their transactions are in `S`. -/
theorem distribution {cfg : VaultConfig}
    (hS : ∀ submission, submission.Cranks job.vault cfg.beneficiaries → S submission)
    {expire : Routine σ PUnit} (hexpire : K _ expire) : K _ (job.distribution expire cfg) := by
  have hata : ∀ ata owner mint programId, Party job.vault cfg.beneficiaries owner →
      S (.createAta ata owner mint programId) := fun _ _ _ _ hparty => hS _ hparty
  refine h.bind (h.fetchPlan _) fun plan => ?_
  refine h.bind (h.collectMints hexpire _ plan) fun mints => ?_
  refine h.bind (h.forM _ fun entry => h.beginTokenDist _ hata hdist
    (fun _ hvault => hS _ ⟨hvault, rfl⟩) _ entry) fun _ => ?_
  refine h.bind (h.forM _ fun entry => h.specificBequest _ hata
    (fun _ _ hvault => hS _ ⟨hvault, rfl⟩)
    (fun _ _ _ hvault => hS _ fun program => ⟨hvault program, rfl⟩) mints _ entry) fun _ => ?_
  refine h.bind (h.fetch (h.executionLog _)) fun log => ?_
  refine h.bind (h.forM _ fun part => h.solShares (fun _ _ hvault => hS _ ⟨hvault, rfl⟩) _ part)
    fun _ => ?_
  refine h.bind (h.finalize (fun _ hvault => hS _ ⟨hvault, rfl⟩) _ _) fun _ => ?_
  refine h.bind (h.forM _ fun entry => h.tokenShares _ hata hdist
    (fun _ _ _ hvault => hS _ fun program => ⟨hvault program, rfl⟩) entry) fun _ => ?_
  exact h.pure mints

theorem closeTokenDist (hS : ∀ programId harvest (ctx : TokenProgram → CloseTokenDist),
      (∀ program, (ctx program).vaultConfig = job.vault) →
      S (.invokeWith programId harvest fun program => .closeTokenDist (ctx program)))
    (owner : Pubkey) (entry : Pubkey × ProgramId) :
    K _ (job.closeTokenDist owner beneficiaries entry) := by
  obtain ⟨mint, programId⟩ := entry
  refine h.bind (h.silent (.isStuck mint)) fun stuck => ?_
  split
  · exact h.pure _
  · refine h.bind (hdist _) fun td => ?_
    cases td with
    | none => exact h.pure _
    | some td =>
        dsimp only
        split
        · exact h.pure _
        · refine h.attempt ?_ (h.markStuck ..)
          refine h.bind (h.silent (.getAssociatedTokenAddress ..)) fun vaultAta => ?_
          refine h.walletAt_bind fun b hb => ?_
          refine h.bind (h.tokenAccountOr _ _ fun e => ?_) fun amounts => ?_
          · split
            · exact h.throw e
            · exact h.pure _
          · refine h.bind (h.dustAccount _ hata _ _ _ (.inr ⟨b, hb, rfl⟩)) fun dustAta => ?_
            exact h.send (hS _ _ _ fun _ => rfl)

theorem closeTokenDists (hS : ∀ programId harvest (ctx : TokenProgram → CloseTokenDist),
      (∀ program, (ctx program).vaultConfig = job.vault) →
      S (.invokeWith programId harvest fun program => .closeTokenDist (ctx program)))
    (executed : Bool) (owner : Pubkey) (mints : List (Pubkey × ProgramId)) :
    K _ (job.closeTokenDists executed owner beneficiaries mints) := by
  unfold Job.closeTokenDists
  split
  · exact h.forM _ fun entry => h.closeTokenDist _ hata hdist hS ..
  · exact h.pure _

end Job.Closed

/-! ## Invariants -/

/-- The calls of a job keep `I` of what is behind them. Once its guard has let it pass, `A` holds,
    with which a transaction of `S` may be submitted. -/
structure Job.Maintains (job : Job σ) (S : Submission → Prop) (I A : σ → Prop) : Prop where
  priorityFee : ∀ s, I s → I (job.client.priorityFee s).2
  deadline : ∀ s, I s → I (job.client.deadline s).2
  vaultConfig : ∀ key s, I s → I (job.client.vaultConfig key s).2
  executionLog : ∀ key s, I s → I (job.client.executionLog key s).2
  assetPlan : ∀ key s, I s → I (job.client.assetPlan key s).2
  tokenDist : ∀ key s, I s → I (job.client.tokenDist key s).2
  tokenAccountsByOwner : ∀ owner program s, I s →
    I (job.client.tokenAccountsByOwner owner program s).2
  accountInfo : ∀ key s, I s → I (job.client.accountInfo key s).2
  tokenAccount : ∀ key programId s, I s → I (job.client.tokenAccount key programId s).2
  guard : Meets (fun r => I r.net) job.guard (fun _ r => A r.net) (fun _ r => I r.net)
  armed : ∀ s, A s → I s
  sendAndConfirm : ∀ submission s, S submission → A s →
    I (job.client.sendAndConfirm submission s).2

variable {S : Submission → Prop} {I A : σ → Prop}

theorem call_kept {f : σ → Except JsError α × σ} {P Q : σ → Prop} (h : ∀ s, P s → Q (f s).2) :
    Meets (fun r => P r.net) (call f) (fun _ r => Q r.net) (fun _ r => Q r.net) := by
  intro r hr
  have hnet := h r.net hr
  unfold call
  generalize f r.net = answer at hnet
  obtain ⟨a | a, net⟩ := answer
  · exact hnet
  · exact hnet

theorem fetch_kept {f : σ → Except JsError (Option α) × σ} (h : ∀ s, I s → I (f s).2) :
    Meets (fun r => I r.net) (fetch f) (fun _ r => I r.net) (fun _ r => I r.net) := by
  refine (call_kept h).bind fun a => ?_
  cases a with
  | none => exact fun _ hr => hr
  | some a => exact fun _ hr => hr

theorem record_kept (P : σ → Prop) (entry : Entry) :
    Meets (fun r => P r.net) (record entry) (fun _ r => P r.net) (fun _ r => P r.net) :=
  fun _ hr => hr

namespace Job.Maintains

variable {job : Job σ} (h : job.Maintains S I A)
include h

theorem submit_meets {submission : Submission} (hS : S submission) :
    Meets (fun r => A r.net) (submit job.client submission) (fun _ r => I r.net)
      (fun _ r => I r.net) :=
  ((record_kept A _).mono (fun _ hr => hr) (fun _ _ hr => hr) fun _ _ hr => h.armed _ hr).bind
    fun _ => call_kept fun s hs => h.sendAndConfirm submission s hS hs

/-- The invariant goes through every step of the job. -/
theorem closed : job.Closed S
    (fun _ x => Meets (fun r => I r.net) x (fun _ r => I r.net) (fun _ r => I r.net))
    (fun _ x => Meets (fun r => A r.net) x (fun _ r => I r.net) (fun _ r => I r.net)) where
  silent hx := hx.meets _ trivial
  bind hx hf := hx.bind hf
  executionLog key := call_kept (h.executionLog key)
  assetPlan key := call_kept (h.assetPlan key)
  tokenAccountsByOwner owner program := call_kept (h.tokenAccountsByOwner owner program)
  accountInfo key := call_kept (h.accountInfo key)
  accountInfoOr key _ hh := (call_kept (h.accountInfo key)).tryCatch hh
  tokenAccountOr key programId _ hh := (call_kept (h.tokenAccount key programId)).tryCatch hh
  attempt hbody hgiveUp := by
    refine hbody.tryCatch fun e => ?_
    split
    · exact fun _ hr => hr
    · split
      · exact fun _ hr => hr
      · exact hgiveUp
  markStuck mint step := record_kept I _
  skipSol := record_kept I _
  guard hf := h.guard.bind fun _ => hf
  submit hS := h.submit_meets hS
  submit_bind hS hf := (h.submit_meets hS).bind fun _ => hf
  armed_bind hx hf := ((hx.meets (fun r => A r.net) trivial).mono (fun _ hr => hr)
    (fun _ _ hr => hr) fun _ _ hr => h.armed _ hr).bind hf

end Job.Maintains

/-! ## The keeper's cranks -/

/-- A cleanup submits what a crank does, and the close of the vault. -/
def Submission.CleansUp (vault : Pubkey) (beneficiaries : List Beneficiary)
    (submission : Submission) : Prop :=
  submission.Cranks vault beneficiaries ∨
    ∃ ctx, submission = .invoke (.closeExecutedVault ctx) ∧ ctx.vaultConfig = vault

/-- The routine keeps the invariant, however it ends. -/
abbrev Upholds (I : σ → Prop) (x : Routine σ α) : Prop :=
  Meets (fun r => I r.net) x (fun _ r => I r.net) (fun _ r => I r.net)

/-- The guard asks `revalidate`. -/
theorem makeKeeperGuard_run {env : Surroundings σ} {r : Run σ} {ok : Bool} {s : σ}
    (h : env.revalidate r.net = (ok, s)) :
    makeKeeperGuard env.canSubmit r =
      if ok = false then
        .error (error keeperHalt) ⟨s, r.log ++ [.evaluated (some (.promise (some ok)))]⟩
      else .ok ⟨⟩ ⟨s, r.log ++ [.evaluated (some (.promise (some ok)))]⟩ := by
  have hevaluate : evaluate env.canSubmit r =
      .ok (some (.promise (some ok))) ⟨s, r.log ++ [.evaluated (some (.promise (some ok)))]⟩ := by
    simp only [evaluate, Surroundings.canSubmit, h]
  unfold makeKeeperGuard
  rw [run_bind_ok hevaluate]
  cases ok <;> rfl

/-- So does its pass with a log of its own. -/
theorem apart_kept {x : Routine σ α}
    (h : Upholds I x) : Upholds I (apart x) := by
  intro r hr
  have hend := h ⟨r.net, []⟩ hr
  unfold apart
  cases hrun : x ⟨r.net, []⟩ with
  | ok a r' =>
      rw [hrun] at hend
      exact hend
  | error e r' =>
      rw [hrun] at hend
      exact hend

namespace Job.Maintains

variable {client : Client σ} {keeper vault : Pubkey} {canSubmit : CanSubmit σ}
  (h : (keeperJob client keeper vault canSubmit).Maintains S I A)
include h

theorem crankVault {cfg : VaultConfig}
    (hcranks : ∀ submission, submission.Cranks vault cfg.beneficiaries → S submission) :
    Upholds I (crankVault client keeper vault cfg canSubmit) := by
  have hclosed := h.closed
  have hata : ∀ ata owner mint programId, Party vault cfg.beneficiaries owner →
      S (.createAta ata owner mint programId) := fun _ _ _ _ hparty => hcranks _ hparty
  have hdist : ∀ key, Upholds I (call (client.tokenDist key)) :=
    fun key => call_kept (h.tokenDist key)
  cases canSubmit with
  | none => exact fun _ hr => hr
  | some check =>
      refine Meets.bind (call_kept h.priorityFee) fun _ => ?_
      refine Meets.bind (Q := fun _ r => I r.net) ?_ fun mints => ?_
      · refine hclosed.bind (hclosed.beginExecution (fun _ hvault => hcranks _ ⟨hvault, rfl⟩) _)
          fun _ => ?_
        exact hclosed.distribution hdist hcranks (call_kept h.deadline)
      · refine Meets.bind (fetch_kept (h.vaultConfig vault)) fun freshCfg => ?_
        refine hclosed.bind (hclosed.closeTokenDists _ hata hdist
          (fun _ _ _ hvault => hcranks _ fun program => ⟨hvault program, rfl⟩) _ _ mints)
          fun _ => ?_
        exact hclosed.bind (hclosed.silent .get) fun r => hclosed.pure _

theorem finishTokenDists {cfg : VaultConfig}
    (hcranks : ∀ submission, submission.Cranks vault cfg.beneficiaries → S submission) :
    Upholds I (finishTokenDists client keeper vault cfg canSubmit) := by
  unfold Crank.finishTokenDists
  split
  · refine Meets.bind (h.crankVault hcranks) fun _ => ?_
    refine Meets.bind (fetch_kept (h.vaultConfig vault)) fun fresh => ?_
    exact h.closed.pure _
  · exact h.closed.pure _

theorem vaultHoldsUndistributedTokens (key : Pubkey) :
    Upholds I (vaultHoldsUndistributedTokens client key) := by
  have hclosed := h.closed
  refine hclosed.bind (hclosed.tokenAccountsByOwner _ _) fun classic => ?_
  split
  · exact hclosed.pure _
  · exact hclosed.bind (hclosed.tokenAccountsByOwner _ _) fun extended => hclosed.pure _

theorem cleanupExecutedVault {cfg : VaultConfig}
    (hcleans : ∀ submission, submission.CleansUp vault cfg.beneficiaries → S submission) :
    Upholds I (cleanupExecutedVault client keeper vault cfg canSubmit) := by
  have hclosed := h.closed
  cases canSubmit with
  | none => exact fun _ hr => hr
  | some check =>
      refine Meets.bind (call_kept h.priorityFee) fun _ => ?_
      refine hclosed.bind (hclosed.executionLog _) fun log => ?_
      cases log with
      | none => exact hclosed.pure _
      | some log =>
          dsimp only
          split
          · exact hclosed.pure _
          · refine hclosed.bind (h.finishTokenDists fun _ hS => hcleans _ (.inl hS))
              fun dists => ?_
            split
            · exact hclosed.pure _
            · refine hclosed.bind (h.vaultHoldsUndistributedTokens vault) fun held => ?_
              split
              · exact hclosed.pure _
              · refine hclosed.bind (hclosed.silent (.walletAt ..)) fun maxWallet => ?_
                refine Meets.tryCatch (E := fun _ r => I r.net) (hclosed.guard ?_) fun e => ?_
                · exact hclosed.submit_bind (hcleans _ (.inr ⟨_, rfl, rfl⟩))
                    (hclosed.pure Cleanup.closed)
                · split
                  · exact hclosed.pure _
                  · exact hclosed.throw _

end Job.Maintains

end DeadMansVault.Crank
