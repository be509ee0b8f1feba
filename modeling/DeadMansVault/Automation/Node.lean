-- SUMMARY: A node that answers a crank from the chain and lands what the program accepts, and what its calls keep.
import DeadMansVault.Crank.Traversal
import DeadMansVault.Guarantees.Completion

/-!
# A node of the cluster

Here nothing fails: every read is answered from the world, every transaction that the
program accepts lands at once, and the readiness check always permits. A transaction that
the program rejects is refused with an operational error, and leaves the world as it is.
-/

namespace DeadMansVault.Crank

open Script World

variable {c : Cluster} {s s' : World}

/-! ## Transactions -/

/-- The instruction of the program that a transaction carries. -/
def Submission.instruction : Submission → Option Instruction
  | .invoke i => some i
  | .invokeWith (.token program) _ instruction => some (instruction program)
  | _ => none

/-- The accounts that it harvests first. -/
def Submission.harvest : Submission → List Pubkey
  | .invokeWith _ harvest _ => harvest
  | _ => []

/-- The world after the transaction, if it is accepted. The associated token program needs the
    mint, and finds no other account at the address. -/
def Submission.lands (c : Cluster) (s : World) : Submission → Option World
  | .createAta ata owner mint programId =>
    if ata = canonicalAta c owner mint ∧ programId = .token (c.tokenProgram mint) ∧
        (s.mints mint).isSome = true ∧
        (∀ a ∈ s.tokenAccounts ata, a = ⟨some (c.tokenProgram mint), mint, owner⟩) then
      some (s.createAta c (owner, mint))
    else none
  | .invoke i => (exec c i s).toOption
  | .invokeWith (.token program) harvest instruction =>
    (exec c (instruction program) (s.harvest harvest)).toOption
  | .invokeWith (.other _) _ _ => none

@[simp] theorem harvest_nil (s : World) : s.harvest [] = s := by
  simp [World.harvest]

/-- An instruction that lands is accepted, after the harvest. -/
theorem Submission.exec_of_harvest {submission : Submission} {i : Instruction}
    (hi : submission.instruction = some i) (h : submission.lands c s = some s') :
    exec c i (s.harvest submission.harvest) = .ok s' := by
  have hland : (exec c i (s.harvest submission.harvest)).toOption = some s' := by
    cases submission with
    | createAta => cases hi
    | invoke i' =>
        obtain rfl := Option.some.inj hi
        have hnone : (Submission.invoke i').harvest = [] := rfl
        rw [hnone, harvest_nil]
        exact h
    | invokeWith programId harvest instruction =>
        cases programId with
        | token program =>
            obtain rfl := Option.some.inj hi
            exact h
        | other n => cases hi
  cases hrun : exec c i (s.harvest submission.harvest) with
  | error e =>
      rw [hrun] at hland
      cases hland
  | ok t =>
      rw [hrun] at hland
      rw [Option.some.inj hland]

theorem Submission.exec_of_lands {submission : Submission} {i : Instruction}
    (hi : submission.instruction = some i) (hnone : submission.harvest = [])
    (h : submission.lands c s = some s') : exec c i s = .ok s' := by
  have hexec := exec_of_harvest hi h
  rwa [hnone, harvest_nil] at hexec

/-- What lands is an instruction of the program, or it creates a token account. -/
theorem Submission.lands_cases {submission : Submission} (h : submission.lands c s = some s') :
    (∃ i, submission.instruction = some i ∧ exec c i (s.harvest submission.harvest) = .ok s') ∨
      ∃ account, s' = s.createAta c account := by
  cases hi : submission.instruction with
  | some i => exact .inl ⟨i, rfl, exec_of_harvest hi h⟩
  | none =>
      cases submission with
      | createAta ata owner mint programId =>
          rw [lands] at h
          split at h
          · exact .inr ⟨_, (Option.some.inj h).symm⟩
          · cases h
      | invoke => cases hi
      | invokeWith programId =>
          cases programId with
          | token => cases hi
          | other => cases h

theorem Submission.lands_reachable {submission : Submission} (hs : Reachable c s)
    (h : submission.lands c s = some s') : Reachable c s' := by
  rcases lands_cases h with ⟨i, -, hexec⟩ | ⟨account, rfl⟩
  · exact (harvest_reachable hs _).step (.executed hexec)
  · exact hs.step (.environment (createAta_environment hs.sound.regular account))

/-! ## The client -/

/-- What a node knows beside the world, and what the process that cranks has of its own. -/
structure Node where
  /-- The clock of the process. -/
  now : World → Int
  /-- The addresses that a listing of the token accounts of an owner goes through. -/
  accounts : World → Pubkey → TokenProgram → List Pubkey
  /-- The owner of an account that is no mint and no account of a token program. -/
  stranger : World → Pubkey → Option ProgramId
  refusal : Submission → JsError
  operational : ∀ submission, isOperational (refusal submission) = true
  unrevoked : ∀ submission, (refusal submission).message ≠ readinessRevoked ∧
    (refusal submission).message ≠ keeperHalt
  onCurve : Pubkey → Bool
  foreignAta : Pubkey → Pubkey → Nat → Pubkey
  /-- At an associated address there is nothing but a token account. -/
  vacant : ∀ s owner mint program, stranger s (.associatedToken owner mint program) = none
  /-- Addresses derived with different programs are different. -/
  foreign : ∀ owner mint n program,
    foreignAta owner mint n ≠ .associatedToken owner mint program

/-- `getAccountInfo` -/
def Node.ownerOf (c : Cluster) (node : Node) (s : World) (key : Pubkey) : Option ProgramId :=
  match s.mints key, (s.tokenAccounts key).bind (·.program) with
  | some _, _ => some (.token (c.tokenProgram key))
  | none, some program => some (.token program)
  | none, none => node.stranger s key

/-- `getParsedTokenAccountsByOwner` -/
def Node.held (node : Node) (s : World) (owner : Pubkey) (program : TokenProgram) :
    List (Pubkey × Nat) :=
  (node.accounts s owner program).filterMap fun key => (s.tokenAccounts key).bind fun account =>
    if account.owner = owner ∧ account.program = some program then
      some (account.mint, s.tokenAmounts key)
    else none

/-- `getAccount` -/
def tokenAccountOf (s : World) (key : Pubkey) (programId : ProgramId) :
    Except JsError (Nat × Nat) :=
  match s.tokenAccounts key with
  | none => .error { name := "TokenAccountNotFoundError", message := "" }
  | some account =>
    if account.program.map ProgramId.token = some programId then
      .ok (s.tokenAmounts key, s.withheldFees key)
    else .error { name := "TokenInvalidAccountOwnerError", message := "" }

def Node.client (c : Cluster) (node : Node) : Client World where
  priorityFee s := (.ok ⟨⟩, s)
  deadline s := (.ok ⟨⟩, s)
  now s := (node.now s, s)
  vaultConfig key s := (.ok (s.vaultConfigs key), s)
  heartbeatRecord key s := (.ok (s.heartbeatRecords key), s)
  executionLog key s := (.ok (s.executionLogs key), s)
  assetPlan key s := (.ok (s.assetPlans key), s)
  tokenDist key s := (.ok (s.tokenDists key), s)
  tokenAccountsByOwner owner program s := (.ok (node.held s owner program), s)
  accountInfo key s := (.ok (node.ownerOf c s key), s)
  tokenAccount key programId s := (tokenAccountOf s key programId, s)
  sendAndConfirm submission s :=
    match submission.lands c s with
    | some s' => (.ok ⟨⟩, s')
    | none => (.error (node.refusal submission), s)
  onCurve := node.onCurve
  foreignAta := node.foreignAta

/-- The readiness check that always permits. -/
def permitted : CanSubmit World := some fun s => (.value true, s)

/-! ## Calls -/

variable {node : Node} {α : Type}

theorem call_read {f : World → Except JsError α × World} {a : α} {r : Run World}
    (h : f r.net = (.ok a, r.net)) : call f r = .ok a r := by
  unfold call
  rw [h]

theorem fetch_read {f : World → Except JsError (Option α) × World} {a : α} {r : Run World}
    (h : f r.net = (.ok (some a), r.net)) : fetch f r = .ok a r :=
  run_bind_ok (call_read h)

theorem submit_landed {submission : Submission} {r : Run World}
    (h : submission.lands c r.net = some s') :
    submit (node.client c) submission r =
      .ok ⟨⟩ ⟨s', r.log ++ [.submitted submission]⟩ := by
  show call _ _ = _
  unfold call Node.client
  dsimp only
  rw [h]

theorem submit_refused {submission : Submission} {r : Run World}
    (h : submission.lands c r.net = none) :
    submit (node.client c) submission r =
      .error (node.refusal submission) ⟨r.net, r.log ++ [.submitted submission]⟩ := by
  show call _ _ = _
  unfold call Node.client
  dsimp only
  rw [h]

/-! ## Jobs on the node -/

/-- The job of a crank against the node. -/
structure Job.OnNode (c : Cluster) (node : Node) (job : Job World) : Prop where
  client : job.client = node.client c
  guard : ∃ reply, ∀ r, job.guard r = .ok ⟨⟩ { r with log := r.log ++ [.evaluated reply] }
  unrevoked : ∀ submission, (node.refusal submission).message ≠ job.revoked

theorem executorJob_onNode (c : Cluster) (node : Node) (payer vault : Pubkey) :
    (executorJob (node.client c) payer vault permitted).OnNode c node :=
  ⟨rfl, ⟨_, fun _ => rfl⟩, fun submission => (node.unrevoked submission).1⟩

theorem keeperJob_onNode (c : Cluster) (node : Node) (payer vault : Pubkey) :
    (keeperJob (node.client c) payer vault permitted).OnNode c node :=
  ⟨rfl, ⟨_, fun _ => rfl⟩, fun submission => (node.unrevoked submission).2⟩

/-- Nothing in a submission marks a mint as stuck. -/
theorem stuckMints_submitted (r : Run World) (s : World) (submission : Submission) :
    Run.stuckMints (σ := World) ⟨s, r.log ++ [.submitted submission]⟩ = r.stuckMints := by
  simp [Run.stuckMints]

theorem stuckMints_evaluated (r : Run World) (reply : Option Reply) :
    Run.stuckMints (σ := World) ⟨r.net, r.log ++ [.evaluated reply]⟩ = r.stuckMints := by
  simp [Run.stuckMints]

theorem stuckMints_markStuck (r : Run World) (mint : Pubkey) (step : StuckStep) :
    Run.stuckMints (σ := World) ⟨r.net, r.log ++ [.stuck mint step]⟩ =
      r.stuckMints ++ [mint] := by
  simp [Run.stuckMints]

/-- After the guard the transaction lands, or is refused. -/
theorem Job.OnNode.send {job : Job World} (hjob : job.OnNode c node) (submission : Submission)
    (r : Run World) :
    ∃ r', Entry.submitted submission ∈ r'.log ∧ r'.stuckMints = r.stuckMints ∧
      (submission.lands c r.net = some r'.net ∧
          (job.guard >>= fun _ => submit job.client submission) r = .ok ⟨⟩ r' ∨
        submission.lands c r.net = none ∧ r'.net = r.net ∧
          (job.guard >>= fun _ => submit job.client submission) r =
            .error (node.refusal submission) r') := by
  obtain ⟨reply, hpermit⟩ := hjob.guard
  have hguard := hpermit r
  rw [hjob.client]
  have hlogged : Entry.submitted submission ∈
      (r.log ++ [.evaluated reply]) ++ [.submitted submission] :=
    List.mem_append_right _ (List.mem_singleton_self _)
  cases hlands : submission.lands c r.net with
  | none =>
      exact ⟨_, hlogged, (stuckMints_submitted ..).trans (stuckMints_evaluated ..),
        .inr ⟨rfl, rfl, (run_bind_ok hguard).trans (submit_refused hlands)⟩⟩
  | some s' =>
      exact ⟨_, hlogged, (stuckMints_submitted ..).trans (stuckMints_evaluated ..),
        .inl ⟨rfl, (run_bind_ok hguard).trans (submit_landed hlands)⟩⟩

/-- The associated account is there already, or it is created, or its creation is refused. -/
theorem Job.OnNode.ensureAta {job : Job World} (hjob : job.OnNode c node)
    (ata mint owner : Pubkey) (programId : ProgramId) (r : Run World) :
    ∃ r' accounts, r'.stuckMints = r.stuckMints ∧ r'.net = r.net.createAtas c accounts ∧
      (job.ensureAta ata mint owner programId r = .ok ⟨⟩ r' ∨
        (Submission.createAta ata owner mint programId).lands c r.net = none ∧
          node.ownerOf c r.net ata = none ∧ ∃ submission,
            job.ensureAta ata mint owner programId r = .error (node.refusal submission) r') := by
  have hread : call (job.client.accountInfo ata) r = .ok (node.ownerOf c r.net ata) r := by
    rw [hjob.client]
    exact call_read rfl
  unfold Job.ensureAta
  rw [run_bind_ok hread]
  cases howner : node.ownerOf c r.net ata with
  | some program => exact ⟨r, [], rfl, rfl, .inl rfl⟩
  | none =>
      obtain ⟨r', -, hstuck, ⟨hlands, hrun⟩ | ⟨hlands, hnet, hrun⟩⟩ :=
        hjob.send (.createAta ata owner mint programId) r
      · refine ⟨r', [(owner, mint)], hstuck, ?_, .inl hrun⟩
        rw [Submission.lands] at hlands
        split at hlands
        · exact (Option.some.inj hlands).symm
        · cases hlands
      · exact ⟨r', [], hstuck, hnet, .inr ⟨hlands, rfl, _, hrun⟩⟩

/-- Where the address can only be that of a token account, there is one afterwards. -/
theorem Job.OnNode.ensureAta_there {job : Job World} (hjob : job.OnNode c node)
    {mint owner : Pubkey} {r r' : Run World}
    (hvacant : r.net.mints (canonicalAta c owner mint) = none)
    (hrun : job.ensureAta (canonicalAta c owner mint) mint owner (.token (c.tokenProgram mint)) r =
      .ok ⟨⟩ r') : (r'.net.tokenAccounts (canonicalAta c owner mint)).isSome = true := by
  have hread : call (job.client.accountInfo (canonicalAta c owner mint)) r =
      .ok (node.ownerOf c r.net (canonicalAta c owner mint)) r := by
    rw [hjob.client]
    exact call_read rfl
  unfold Job.ensureAta at hrun
  rw [run_bind_ok hread] at hrun
  cases howner : node.ownerOf c r.net (canonicalAta c owner mint) with
  | some program =>
      rw [howner] at hrun
      obtain ⟨-, rfl⟩ := EStateM.Result.ok.inj hrun
      cases hacc : r.net.tokenAccounts (canonicalAta c owner mint) with
      | some account => rfl
      | none =>
          simp only [Node.ownerOf, hvacant, hacc, Option.bind_none] at howner
          exact absurd ((node.vacant _ _ _ _).symm.trans howner) nofun
  | none =>
      rw [howner] at hrun
      obtain ⟨r'', -, -, ⟨hlands, hsent⟩ | ⟨-, -, hsent⟩⟩ :=
        hjob.send (.createAta (canonicalAta c owner mint) owner mint
          (.token (c.tokenProgram mint))) r
      · obtain ⟨-, rfl⟩ := EStateM.Result.ok.inj (hsent.symm.trans hrun)
        rw [Submission.lands] at hlands
        split at hlands
        · obtain hnet := Option.some.inj hlands
          rw [← hnet]
          unfold World.createAta
          split
          next account hacc => rw [hacc]; rfl
          next => simp
        · cases hlands
      · cases hsent.symm.trans hrun

/-- What the program accepts lands. -/
theorem Job.OnNode.send_lands {job : Job World} (hjob : job.OnNode c node)
    {submission : Submission} {r : Run World} (h : submission.lands c r.net = some s') :
    ∃ r', (job.guard >>= fun _ => submit job.client submission) r = .ok ⟨⟩ r' ∧ r'.net = s' ∧
      r'.stuckMints = r.stuckMints := by
  obtain ⟨r', -, hstuck, ⟨hlands, hrun⟩ | ⟨hlands, -⟩⟩ := hjob.send submission r
  · exact ⟨r', hrun, Option.some.inj (hlands.symm.trans h), hstuck⟩
  · cases hlands.symm.trans h

/-- An account of a wallet that is not someone else's is there in the end. -/
theorem Job.OnNode.ensureAta_ok {job : Job World} (hjob : job.OnNode c node)
    {mint owner : Pubkey} {r : Run World} (hmint : (r.net.mints mint).isSome = true)
    (hvacant : r.net.mints (canonicalAta c owner mint) = none)
    (hown : ∀ a, r.net.tokenAccounts (canonicalAta c owner mint) = some a →
      a = ⟨some (c.tokenProgram mint), mint, owner⟩) :
    ∃ r' accounts, job.ensureAta (canonicalAta c owner mint) mint owner
        (.token (c.tokenProgram mint)) r = .ok ⟨⟩ r' ∧
      r'.stuckMints = r.stuckMints ∧ r'.net = r.net.createAtas c accounts ∧
      (r'.net.tokenAccounts (canonicalAta c owner mint)).isSome = true := by
  obtain ⟨r', accounts, hstuck, hnet, hrun | ⟨hlands, -⟩⟩ := hjob.ensureAta
    (canonicalAta c owner mint) mint owner (.token (c.tokenProgram mint)) r
  · exact ⟨r', accounts, hrun, hstuck, hnet, hjob.ensureAta_there hvacant hrun⟩
  · rw [Submission.lands, if_pos ⟨rfl, rfl, hmint, fun a ha => hown a ha⟩] at hlands
    cases hlands

theorem Job.OnNode.guard_meets {job : Job World} (hjob : job.OnNode c node)
    {P : World → List Pubkey → Prop} {E : JsError → Run World → Prop} :
    Meets (fun r => P r.net r.stuckMints) job.guard (fun _ r => P r.net r.stuckMints) E := by
  intro r hr
  obtain ⟨reply, hpermit⟩ := hjob.guard
  rw [hpermit r]
  dsimp only
  rw [stuckMints_evaluated]
  exact hr

/-- What lands takes `P` to `Q`, and a refusal leaves it. -/
theorem Job.OnNode.submit_meets {job : Job World} (hjob : job.OnNode c node)
    {P Q : World → List Pubkey → Prop} {submission : Submission}
    (hlands : ∀ s s' stuck, P s stuck → submission.lands c s = some s' → Q s' stuck) :
    Meets (fun r => P r.net r.stuckMints) (submit job.client submission)
      (fun _ r => Q r.net r.stuckMints) (fun _ r => P r.net r.stuckMints) := by
  intro r hr
  rw [hjob.client]
  cases hland : submission.lands c r.net with
  | none =>
      rw [submit_refused hland]
      dsimp only
      rw [stuckMints_submitted]
      exact hr
  | some s' =>
      rw [submit_landed hland]
      dsimp only
      rw [stuckMints_submitted]
      exact hlands _ _ _ hr hland

theorem Job.OnNode.send_meets {job : Job World} (hjob : job.OnNode c node)
    {P Q : World → List Pubkey → Prop} {submission : Submission}
    (hlands : ∀ s s' stuck, P s stuck → submission.lands c s = some s' → Q s' stuck) :
    Meets (fun r => P r.net r.stuckMints)
      (job.guard >>= fun _ => submit job.client submission)
      (fun _ r => Q r.net r.stuckMints) (fun _ r => P r.net r.stuckMints) :=
  hjob.guard_meets.bind fun _ => hjob.submit_meets hlands

theorem Job.OnNode.ensureAta_meets {job : Job World} (hjob : job.OnNode c node)
    {P : World → List Pubkey → Prop}
    (hcreate : ∀ s stuck accounts, P s stuck → P (s.createAtas c accounts) stuck)
    (ata mint owner : Pubkey) (programId : ProgramId) :
    Meets (fun r => P r.net r.stuckMints) (job.ensureAta ata mint owner programId)
      (fun _ r => P r.net r.stuckMints) (fun _ r => P r.net r.stuckMints) := by
  intro r hr
  obtain ⟨r', accounts, hstuck, hnet, hrun⟩ := hjob.ensureAta ata mint owner programId r
  have hr' : P r'.net r'.stuckMints := by
    rw [hnet, hstuck]
    exact hcreate _ _ accounts hr
  rcases hrun with hrun | ⟨-, -, submission, hrun⟩ <;> rw [hrun] <;> exact hr'

/-- The body is done. -/
theorem Job.attempt_ok {job : Job World} {body giveUp : Routine World PUnit} {r r' : Run World}
    (h : body r = .ok ⟨⟩ r') : job.attempt body giveUp r = .ok ⟨⟩ r' :=
  run_tryCatch_ok h

/-- After a refusal the asset is given up on. -/
theorem Job.OnNode.attempt_refused {job : Job World} (hjob : job.OnNode c node)
    {body giveUp : Routine World PUnit} {r r' : Run World} {submission : Submission}
    (h : body r = .error (node.refusal submission) r') :
    job.attempt body giveUp r = giveUp r' := by
  refine (run_tryCatch_error h).trans ?_
  rw [if_neg (hjob.unrevoked submission), if_neg (by simp [node.operational submission])]

/-! ## What the calls keep -/

/-- A property that neither the entries of a log nor the transactions of `S` spoil. -/
structure Stable (c : Cluster) (S : Submission → Prop) (P : Run World → Prop) : Prop where
  entry : ∀ r entry, (∀ submission, entry = .submitted submission → S submission) → P r →
    P { r with log := r.log ++ [entry] }
  lands : ∀ r submission s', S submission → submission.lands c r.net = some s' → P r →
    P { r with net := s' }

variable {S S' : Submission → Prop} {job : Job World}

theorem Stable.mono {P : Run World → Prop} (h : Stable c S' P)
    (hS : ∀ submission, S submission → S' submission) : Stable c S P where
  entry r entry hentry := h.entry r entry fun submission heq => hS submission (hentry submission heq)
  lands r submission s' hmem := h.lands r submission s' (hS submission hmem)

theorem preserves_read {f : World → Except JsError α × World} (h : ∀ s, (f s).2 = s) :
    Preserves (Stable c S) (call f) := by
  refine ⟨fun P hP r hr => ?_⟩
  have hnet := h r.net
  unfold call
  generalize f r.net = answer at hnet
  obtain ⟨a, net⟩ := answer
  obtain rfl : net = r.net := hnet
  cases a with
  | error e => exact hr
  | ok a => exact hr

theorem preserves_record {entry : Entry}
    (h : ∀ submission, entry = .submitted submission → S submission) :
    Preserves (Stable c S) (record entry) :=
  ⟨fun _ hP r hr => hP.entry r entry h hr⟩

theorem preserves_submit {submission : Submission} (h : S submission) :
    Preserves (Stable c S) (submit (node.client c) submission) := by
  refine ⟨fun P hP r hr => ?_⟩
  have hrecorded := hP.entry r (.submitted submission) (by rintro _ ⟨⟩; exact h) hr
  cases hlands : submission.lands c r.net with
  | none =>
      rw [submit_refused hlands]
      exact hrecorded
  | some s' =>
      rw [submit_landed hlands]
      exact hP.lands ⟨r.net, r.log ++ [.submitted submission]⟩ submission s' h hlands hrecorded

theorem Job.OnNode.preserves_guard (hjob : job.OnNode c node) :
    Preserves (Stable c S) job.guard := by
  refine ⟨fun P hP r hr => ?_⟩
  obtain ⟨reply, hpermit⟩ := hjob.guard
  rw [hpermit r]
  exact hP.entry r _ (by rintro _ ⟨⟩) hr

theorem Job.OnNode.closed (hjob : job.OnNode c node) :
    job.Closed S (fun _ x => Preserves (Stable c S) x) (fun _ x => Preserves (Stable c S) x) where
  silent hx := hx.mono fun _ _ => trivial
  bind hx hf := hx.bind hf
  executionLog key := hjob.client ▸ preserves_read fun _ => rfl
  assetPlan key := hjob.client ▸ preserves_read fun _ => rfl
  tokenAccountsByOwner owner program := hjob.client ▸ preserves_read fun _ => rfl
  accountInfo key := hjob.client ▸ preserves_read fun _ => rfl
  accountInfoOr key _ h := .tryCatch (hjob.client ▸ preserves_read fun _ => rfl) h
  tokenAccountOr key programId _ h := .tryCatch (hjob.client ▸ preserves_read fun _ => rfl) h
  attempt hbody hgiveUp := by
    refine hbody.tryCatch fun e => ?_
    split
    · exact .throw e
    · split
      · exact .throw e
      · exact hgiveUp
  markStuck mint step := preserves_record (by rintro _ ⟨⟩)
  skipSol := preserves_record (by rintro _ ⟨⟩)
  guard hf := hjob.preserves_guard.bind fun _ => hf
  submit hS := hjob.client ▸ preserves_submit hS
  submit_bind hS hf := (hjob.client ▸ preserves_submit hS).bind fun _ => hf
  armed_bind hx hf := (hx.mono fun _ _ => trivial).bind hf

theorem Job.OnNode.preserves_tokenDist (hjob : job.OnNode c node) (key : Pubkey) :
    Preserves (Stable c S) (call (job.client.tokenDist key)) :=
  hjob.client ▸ preserves_read fun _ => rfl

end DeadMansVault.Crank
