-- SUMMARY: No crank of the server or the keeper finalizes over a mint that it has failed to begin.
import DeadMansVault.Crank.Notes

/-!
# Finality

The passes go over vaults that are not executed yet: a mint that has no TokenDist when its
vault is finalized may never get one. So a pass that finalizes should know of a TokenDist for
each of the mints that it has selected.
-/

namespace DeadMansVault.Crank

open Script

variable {σ α : Type}

/-- The TokenDists of these mints. -/
def distsOf (vault : Pubkey) (mints : List Pubkey) : List Pubkey :=
  mints.map (.tokenDist vault)

/-- At each submission of a finalize, the run has asked for the TokenDists of exactly the mints it
    has selected, and each of them was there, or has been begun. -/
def Complete (Selected : List Pubkey → Prop) (vault : Pubkey) (notes : Notes) : Prop :=
  ∀ note ∈ notes.finalizes, ∃ mints, Selected mints ∧ note.1 = distsOf vault mints ∧
    ∀ mint ∈ mints, .tokenDist vault mint ∈ note.2

/-! ## The notes along a pass -/

/-- The run has asked for these TokenDists, and has not finalized. Unless a mint is stuck, all
    of them have been begun. -/
structure Opening (asked : List Pubkey) (notes : Notes) (stuck : List Pubkey) : Prop where
  asked_eq : notes.asked = asked
  open_ : notes.finalizes = []
  begun : stuck = [] → ∀ dist ∈ asked, dist ∈ notes.begun

/-- All of them have been begun. -/
structure Opened (asked : List Pubkey) (notes : Notes) : Prop where
  asked_eq : notes.asked = asked
  open_ : notes.finalizes = []
  begun : ∀ dist ∈ asked, dist ∈ notes.begun

/-- The last TokenDist was not found. -/
structure Missing (asked : List Pubkey) (dist : Pubkey) (notes : Notes) (stuck : List Pubkey) :
    Prop where
  asked_eq : notes.asked = asked ++ [dist]
  open_ : notes.finalizes = []
  begun : stuck = [] → ∀ dist ∈ asked, dist ∈ notes.begun

/-- Each finalize was complete for these TokenDists. -/
def Sound (asked : List Pubkey) (notes : Notes) : Prop :=
  ∀ note ∈ notes.finalizes, note.1 = asked ∧ ∀ dist ∈ asked, dist ∈ note.2

section Families

variable {asked : List Pubkey} {dist : Pubkey}

theorem Opening.watched :
    Watched fun r : Run (σ × Notes) => Opening asked r.net.2 r.stuckMints := by
  refine ⟨Opening asked, fun notes stuck mint h => ⟨h.asked_eq, h.open_, fun hnone => ?_⟩, rfl⟩
  exact absurd hnone (by simp)

theorem Opened.watched : Watched fun r : Run (σ × Notes) => Opened asked r.net.2 :=
  ⟨fun notes _ => Opened asked notes, fun _ _ _ h => h, rfl⟩

theorem Missing.watched :
    Watched fun r : Run (σ × Notes) => Missing asked dist r.net.2 r.stuckMints := by
  refine ⟨Missing asked dist, fun notes stuck mint h => ⟨h.asked_eq, h.open_, fun hnone => ?_⟩, rfl⟩
  exact absurd hnone (by simp)

end Families

/-- What takes no notes does not finalize either. -/
theorem Mild.opening {x : Routine (σ × Notes) α} (h : Mild x) (asked : List Pubkey)
    {E : Notes → Prop} (hE : ∀ notes, notes.finalizes = [] → E notes) :
    Meets (fun r => Opening asked r.net.2 r.stuckMints) x
      (fun _ r => Opening asked r.net.2 r.stuckMints) (fun _ r => E r.net.2) :=
  (h.meets _ Opening.watched).mono (fun _ h => h) (fun _ _ h => h) fun _ _ h => hE _ h.open_

theorem Mild.opened {x : Routine (σ × Notes) α} (h : Mild x) (asked : List Pubkey)
    {E : Notes → Prop} (hE : ∀ notes, notes.finalizes = [] → E notes) :
    Meets (fun r => Opened asked r.net.2) x (fun _ r => Opened asked r.net.2)
      (fun _ r => E r.net.2) :=
  (h.meets _ Opened.watched).mono (fun _ h => h) (fun _ _ h => h) fun _ _ h => hE _ h.open_

theorem Sound.complete {Selected : List Pubkey → Prop} {vault : Pubkey} {mints : List Pubkey}
    {notes : Notes} (h : Sound (distsOf vault mints) notes) (hselected : Selected mints) :
    Complete Selected vault notes := by
  intro note hnote
  obtain ⟨hasked, hbegun⟩ := h note hnote
  exact ⟨mints, hselected, hasked, fun mint hmint => hbegun _ (List.mem_map_of_mem hmint)⟩

/-! ## The calls that take notes -/

/-- A call answers as its function does. -/
theorem call_meets (f : σ → Except JsError α × σ) (P : Run σ → Prop) :
    Meets P (call f) (fun a r => ∃ r₀, P r₀ ∧ f r₀.net = (.ok a, r.net) ∧ r.log = r₀.log)
      (fun e r => ∃ r₀, P r₀ ∧ f r₀.net = (.error e, r.net) ∧ r.log = r₀.log) := by
  intro r hr
  unfold Crank.call
  rcases hans : f r.net with ⟨answer, net⟩
  cases answer with
  | error e => exact ⟨r, hr, hans, rfl⟩
  | ok a => exact ⟨r, hr, hans, rfl⟩

/-- A transaction is submitted. -/
theorem submit_meets (client : Client σ) (submission : Submission)
    (P : Notes → List Pubkey → Prop) :
    Meets (fun r => P r.net.2 r.stuckMints) (submit client.noted submission)
      (fun _ r => ∃ notes, P notes r.stuckMints ∧ r.net.2 = notes.sent [submission] true)
      (fun _ r => ∃ notes, P notes r.stuckMints ∧ r.net.2 = notes.sent [submission] false) := by
  have hsent : ∀ (r₀ r : Run (σ × Notes)) (confirmed : Except JsError Unit),
      client.noted.sendAndConfirm submission r₀.net = (confirmed, r.net) →
      r.net.2 = r₀.net.2.sent [submission] confirmed.isOk := by
    intro r₀ r confirmed hans
    obtain ⟨hconfirmed, hnet⟩ := Prod.mk.inj hans
    rw [← hnet, ← hconfirmed]
  have hstuck : ∀ r₀ r : Run (σ × Notes), r.log = r₀.log → r.stuckMints = r₀.stuckMints :=
    fun r₀ r hlog => by rw [Run.stuckMints, hlog, Run.stuckMints]
  have hrecord : Meets (fun r : Run (σ × Notes) => P r.net.2 r.stuckMints)
      (record (.submitted submission)) (fun _ r => P r.net.2 r.stuckMints)
      (fun _ r => ∃ notes, P notes r.stuckMints ∧ r.net.2 = notes.sent [submission] false) := by
    intro r hr
    show P r.net.2 (Run.stuckMints { r with log := r.log ++ [.submitted submission] })
    have hsame : Run.stuckMints { r with log := r.log ++ [.submitted submission] } = r.stuckMints := by
      simp [Run.stuckMints]
    rw [hsame]
    exact hr
  refine hrecord.bind fun _ => (call_meets _ _).mono (fun _ h => h) ?_ ?_
  · rintro a r ⟨r₀, hr₀, hans, hlog⟩
    exact ⟨r₀.net.2, hstuck r₀ r hlog ▸ hr₀, hsent r₀ r _ hans⟩
  · rintro e r ⟨r₀, hr₀, hans, hlog⟩
    exact ⟨r₀.net.2, hstuck r₀ r hlog ▸ hr₀, hsent r₀ r _ hans⟩

/-- A begin that has gone through. -/
theorem Missing.sent {asked : List Pubkey} {dist : Pubkey} {notes : Notes} {stuck : List Pubkey}
    (h : Missing asked dist notes stuck) {tx : List Submission}
    (hbegins : tx.filterMap Submission.begins = [dist])
    (hfinalizes : tx.any Submission.finalizes = false) :
    Opening (asked ++ [dist]) (notes.sent tx true) stuck := by
  refine ⟨h.asked_eq, ?_, fun hnone dist' hmem => ?_⟩
  · simp only [Notes.sent, hfinalizes]
    exact h.open_
  · simp only [Notes.sent, hbegins, if_true]
    rcases List.mem_append.mp hmem with hmem | hmem
    · exact List.mem_append_left _ (h.begun hnone dist' hmem)
    · exact List.mem_append_right _ hmem

/-- A begin that has failed. -/
theorem Missing.failed {asked : List Pubkey} {dist : Pubkey} {notes : Notes} {stuck : List Pubkey}
    (h : Missing asked dist notes stuck) {tx : List Submission}
    (hfinalizes : tx.any Submission.finalizes = false) :
    Missing asked dist (notes.sent tx false) stuck := by
  refine ⟨h.asked_eq, ?_, h.begun⟩
  simp only [Notes.sent, hfinalizes]
  exact h.open_

/-- A finalize after everything has been begun. -/
theorem Opened.sent {asked : List Pubkey} {notes : Notes} (h : Opened asked notes)
    (submission : Submission) (confirmed : Bool) : Sound asked (notes.sent [submission] confirmed) := by
  intro note hnote
  have hlast : note ∈ notes.finalizes ++ [(notes.asked, notes.begun)] := by
    simp only [Notes.sent] at hnote
    split at hnote
    · exact hnote
    · exact List.mem_append_left _ hnote
  rw [h.open_, List.nil_append, List.mem_singleton] at hlast
  rw [hlast]
  exact ⟨h.asked_eq, h.begun⟩

/-! ## The steps of the server and the keeper -/

namespace Job

variable {client : Client σ} {job : Job (σ × Notes)} (hclient : job.client = client.noted)
  (hguard : Mild job.guard)

include hclient

include hguard

omit hclient hguard in
/-- The steps up to the selection of the mints. -/
def selection (job : Job σ) (expire : Routine σ PUnit) (cfg : VaultConfig) :
    Routine σ (List Pubkey) := do
  job.beginExecution cfg.hasAssetPlan
  let plan ← job.fetchPlan cfg.hasAssetPlan
  let mints ← collectMints job.client expire job.vault plan
  return mints.map (·.1)

end Job

/-! ## The passes of the server and the keeper -/

section Passes

variable (client : Client σ) (canSubmit : CanSubmit σ)

theorem Mild.toNumber (n : Int) : Mild (toNumber (σ := σ × Notes) n) := by
  unfold Crank.toNumber
  split
  · exact .pure n
  · exact .throw _

theorem Opening.fresh (net : σ) : Opening [] (fresh net).net.2 (fresh net).stuckMints :=
  ⟨rfl, rfl, fun _ _ hmem => absurd hmem List.not_mem_nil⟩

end Passes

end DeadMansVault.Crank
