-- SUMMARY: A client that notes which TokenDists a run has asked for and begun, and what leaves its notes alone.
import DeadMansVault.Crank.Cranks

/-!
# Notes

A pass asks for the TokenDists of the mints that it has selected, begins those that are
missing, and finalizes. To speak of what it knows when it finalizes, the client is wrapped
into one that takes notes. The notes change no answer.
-/

namespace DeadMansVault.Crank

open Script

variable {σ α β : Type}

structure Notes where
  /-- The TokenDists that the run has asked for. -/
  asked : List Pubkey := []
  /-- Those that it has found, or has begun in a transaction that went through. -/
  begun : List Pubkey := []
  /-- `asked` and `begun`, at each submission of a finalize. -/
  finalizes : List (List Pubkey × List Pubkey) := []

/-- The TokenDist that a submission begins. -/
def Submission.begins : Submission → Option Pubkey
  | .invoke (.beginTokenDist ctx) => some ctx.tokenDist
  | _ => none

def Submission.finalizes : Submission → Bool
  | .invoke (.finalizeExecution _) => true
  | _ => false

namespace Notes

/-- A TokenDist has been looked up. -/
def ask (notes : Notes) (dist : Pubkey) (found : Bool) : Notes :=
  { notes with
    asked := notes.asked ++ [dist]
    begun := if found then notes.begun ++ [dist] else notes.begun }

/-- A transaction has been submitted. -/
def sent (notes : Notes) (tx : List Submission) (confirmed : Bool) : Notes :=
  { notes with
    begun := if confirmed then notes.begun ++ tx.filterMap Submission.begins else notes.begun
    finalizes := if tx.any Submission.finalizes then notes.finalizes ++ [(notes.asked, notes.begun)]
      else notes.finalizes }

/-- A transaction that neither begins a TokenDist nor finalizes leaves no trace. -/
theorem sent_of_plain {tx : List Submission} (hbegins : tx.filterMap Submission.begins = [])
    (hfinalizes : tx.any Submission.finalizes = false) (notes : Notes) (confirmed : Bool) :
    notes.sent tx confirmed = notes := by
  simp [sent, hbegins, hfinalizes]

end Notes

/-- A run that has not begun yet. -/
def fresh (net : σ) : Run (σ × Notes) := ⟨(net, {}), []⟩

/-- A call that leaves the notes alone. -/
def noting (f : σ → α × σ) : σ × Notes → α × (σ × Notes) := fun s =>
  let (a, net) := f s.1
  (a, (net, s.2))

/-- The client that answers as this one does, and takes notes. -/
def Client.noted (client : Client σ) : Client (σ × Notes) where
  priorityFee := noting client.priorityFee
  deadline := noting client.deadline
  now := noting client.now
  vaultConfig key := noting (client.vaultConfig key)
  heartbeatRecord key := noting (client.heartbeatRecord key)
  executionLog key := noting (client.executionLog key)
  assetPlan key := noting (client.assetPlan key)
  tokenDist key := fun s =>
    let (found, net) := client.tokenDist key s.1
    (found, (net, s.2.ask key (found.toOption.join.isSome)))
  tokenAccountsByOwner owner program := noting (client.tokenAccountsByOwner owner program)
  accountInfo key := noting (client.accountInfo key)
  tokenAccount key programId := noting (client.tokenAccount key programId)
  sendAndConfirm submission := fun s =>
    let (confirmed, net) := client.sendAndConfirm submission s.1
    (confirmed, (net, s.2.sent [submission] confirmed.isOk))
  onCurve := client.onCurve
  foreignAta := client.foreignAta

def CanSubmit.noted (canSubmit : CanSubmit σ) : CanSubmit (σ × Notes) :=
  canSubmit.map noting

/-! ## What leaves the notes alone -/

/-- A property of the notes and of the stuck mints that more stuck mints cannot spoil. -/
def Watched (P : Run (σ × Notes) → Prop) : Prop :=
  ∃ Q : Notes → List Pubkey → Prop, (∀ notes stuck mint, Q notes stuck → Q notes (stuck ++ [mint])) ∧
    P = fun r => Q r.net.2 r.stuckMints

/-- A property of the notes on finalizes. -/
def Concluded (P : Run (σ × Notes) → Prop) : Prop :=
  ∃ Q : List (List Pubkey × List Pubkey) → Prop, P = fun r => Q r.net.2.finalizes

/-- The routine takes no notes, and unsticks no mint. -/
abbrev Mild (x : Routine (σ × Notes) α) : Prop := Preserves Watched x

/-- The routine submits no finalize. -/
abbrev Late (x : Routine (σ × Notes) α) : Prop := Preserves Concluded x

theorem Concluded.watched {P : Run (σ × Notes) → Prop} (h : Concluded P) : Watched P := by
  obtain ⟨Q, rfl⟩ := h
  exact ⟨fun notes _ => Q notes.finalizes, fun _ _ _ h => h, rfl⟩

theorem Mild.late {x : Routine (σ × Notes) α} (h : Mild x) : Late x :=
  h.mono fun _ => Concluded.watched

namespace Mild

/-- A call that takes no notes. -/
theorem call_of_eq {f : σ × Notes → Except JsError α × (σ × Notes)} (h : ∀ s, (f s).2.2 = s.2) :
    Mild (call f) := by
  refine ⟨fun P hP r hr => ?_⟩
  obtain ⟨Q, -, rfl⟩ := hP
  have hnotes := h r.net
  unfold Crank.call
  generalize f r.net = answer at hnotes
  obtain ⟨a, net, notes⟩ := answer
  dsimp only at hnotes
  rw [hnotes]
  cases a with
  | error e => exact hr
  | ok a => exact hr

theorem call (f : σ → Except JsError α × σ) : Mild (call (noting f)) :=
  call_of_eq fun _ => rfl

theorem fetch (f : σ → Except JsError (Option α) × σ) : Mild (fetch (noting f)) := by
  refine (call f).bind fun a => ?_
  cases a with
  | none => exact .throw _
  | some a => exact .pure a

/-- Whatever is recorded, the stuck mints are as they were, or one more. -/
theorem record (entry : Entry) : Mild (σ := σ) (record entry) := by
  refine ⟨fun P hP r hr => ?_⟩
  obtain ⟨Q, hmore, rfl⟩ := hP
  have hstuck : Run.stuckMints { r with log := r.log ++ [entry] } = r.stuckMints ∨
      ∃ mint, Run.stuckMints { r with log := r.log ++ [entry] } = r.stuckMints ++ [mint] := by
    cases entry with
    | stuck mint step => exact .inr ⟨mint, by simp [Run.stuckMints]⟩
    | evaluated | submitted | skippedSol => exact .inl (by simp [Run.stuckMints])
  show Q r.net.2 (Run.stuckMints { r with log := r.log ++ [entry] })
  rcases hstuck with heq | ⟨mint, heq⟩
  · rw [heq]
    exact hr
  · rw [heq]
    exact hmore _ _ _ hr

theorem submit (client : Client σ) {submission : Submission} (hbegins : submission.begins = none)
    (hfinalizes : submission.finalizes = false) : Mild (submit client.noted submission) := by
  refine (record _).bind fun _ => call_of_eq fun s => ?_
  exact s.2.sent_of_plain (by simp [hbegins]) (by simp [hfinalizes]) _

theorem isStuck (mint : Pubkey) : Mild (isStuck (σ := σ × Notes) mint) :=
  Preserves.get.bind fun _ => .pure _

theorem walletAt (beneficiaries : List Beneficiary) (i : Nat) :
    Mild (walletAt (σ := σ × Notes) beneficiaries i) := by
  unfold Crank.walletAt
  split
  · exact .pure _
  · exact .throw _

theorem getAssociatedTokenAddress (client : Client (σ × Notes)) (mint owner : Pubkey) (allow : Bool)
    (programId : ProgramId) :
    Mild (getAssociatedTokenAddress client mint owner allow programId) := by
  unfold Crank.getAssociatedTokenAddress
  split
  · exact .throw _
  · exact .pure _

theorem getAccountInfoRetry (client : Client σ) (key : Pubkey) (tries : Nat) :
    Mild (getAccountInfoRetry client.noted key tries) := by
  induction tries with
  | zero => exact .pure none
  | succ tries ih =>
      refine (Preserves.tryCatch (call _) fun e => ?_).bind fun acc => ?_
      · split
        · exact .throw e
        · exact .pure none
      · cases acc with
        | none => exact ih
        | some owner => exact .pure _

theorem collectMints (client : Client σ) {expire : Routine (σ × Notes) PUnit} (hexpire : Mild expire)
    (vault : Pubkey) (plan : Option AssetPlan) :
    Mild (collectMints client.noted expire vault plan) := by
  refine (call _).bind fun classic => (call _).bind fun extended => ?_
  cases plan with
  | none => exact .pure _
  | some plan =>
      refine (Preserves.foldlM (fun info a => ?_) _).bind fun info => .pure _
      unfold addPlanned
      split
      · exact .pure info
      · split
        · exact .pure _
        · refine (getAccountInfoRetry ..).bind fun owner => hexpire.bind fun _ => ?_
          cases owner with
          | none => exact .pure info
          | some owner => exact .pure _

theorem evaluate (canSubmit : CanSubmit σ) : Mild (evaluate canSubmit.noted) := by
  refine ⟨fun P hP r hr => ?_⟩
  obtain ⟨Q, -, rfl⟩ := hP
  have hstuck : ∀ reply, Run.stuckMints { r with log := r.log ++ [.evaluated reply] } =
      r.stuckMints := fun reply => by simp [Run.stuckMints]
  cases canSubmit with
  | none =>
      show Q r.net.2 (Run.stuckMints { r with log := r.log ++ [.evaluated none] })
      rw [hstuck]
      exact hr
  | some f =>
      show Q r.net.2 (Run.stuckMints { r with log := r.log ++ [.evaluated (some (f r.net.1).1)] })
      rw [hstuck]
      exact hr

theorem makeSubmitGuard (canSubmit : CanSubmit σ) : Mild (makeSubmitGuard canSubmit.noted) := by
  refine (evaluate canSubmit).bind fun reply => ?_
  split
  · exact .throw _
  · exact .throw _
  · exact .throw _
  · split
    · exact .throw _
    · exact .pure _

theorem makeKeeperGuard (canSubmit : CanSubmit σ) : Mild (makeKeeperGuard canSubmit.noted) := by
  refine (evaluate canSubmit).bind fun reply => ?_
  split
  · exact .throw _
  · exact .throw _
  · exact .throw _
  · split
    · exact .throw _
    · exact .pure _
  · split
    · exact .throw _
    · exact .pure _

end Mild

end DeadMansVault.Crank
