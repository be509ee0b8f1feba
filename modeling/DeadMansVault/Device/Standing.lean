-- SUMMARY: What the stored settings of an owner say about the registration that the server has accepted last.
import DeadMansVault.Device.Turns

/-!
# Standing registration

A registration stands once its record is written, until the server accepts another
operation or a closure is recorded. The invariant here says what the settings then
hold: that record, no marker of a deregistration, and no closure that the record
does not postdate. A write fits if it keeps the invariant.
-/

namespace DeadMansVault.Device

/-! ## Standing -/

def standingAfter (owner : String) (standing : Option SuccessRecord) :
    Event → Option SuccessRecord
  | .registered o => if o = owner then none else standing
  | .deregistered o => if o = owner then none else standing
  | .wrote o (.success (.success record)) => if o = owner then some record else standing
  | .wrote o (.closedVault _) => if o = owner then none else standing
  | _ => standing

/-- The record of the registration that stands after these events. -/
def standing (owner : String) (es : List Event) : Option SuccessRecord :=
  es.foldl (standingAfter owner) none

section

variable {φ ρ : Type} {owner : String}

theorem standing_append (es es' : List Event) :
    standing owner (es ++ es') = es'.foldl (standingAfter owner) (standing owner es) :=
  List.foldl_append

/-- What an operation calls, emits or returns changes nothing of it. -/
theorem standing_started [Awaits φ] (now : Option SuccessRecord) (owner' : String)
    (next : Next φ ρ) : (next.started owner').foldl (standingAfter owner) now = now := by
  cases next with
  | wait phase =>
      rw [Next.started]
      cases Awaits.write phase <;> rfl
  | finish | threw => rfl

theorem standing_emits (now : Option SuccessRecord) (current : Bool)
    (connectedOwner : Option String) (next : Next φ LifecycleState) :
    (next.emits current connectedOwner).foldl (standingAfter owner) now = now := by
  cases next with
  | finish state => cases current <;> rfl
  | wait | threw => rfl

end

/-! ## Settings that agree with it -/

/-- A registration at this revision is later than all that the settings tell of. -/
structure Settings.Below (s : Settings) (revision : Nat) : Prop where
  record : ∀ record, s.success = .value (.success record) → record.revision < revision
  closure : ∀ tomb, s.closedVault = .value tomb →
    ∃ prior, tomb.priorRevision = some prior ∧ prior < revision

/-- The record is that of the owner and the device token. -/
structure SuccessRecord.Genuine (deps : Deps) (owner token : String) (record : SuccessRecord) :
    Prop where
  own : record.owner = owner
  canonical : owner ≠ ""
  derived : ∃ vault, deps.deriveVault owner = some vault
  fingerprint : record.tokenFingerprint = Device.tokenFingerprint (deps.tokenHash token)
  available : token ≠ ""

structure Settings.Stands (deps : Deps) (owner token : String) (s : Settings)
    (record : SuccessRecord) : Prop where
  genuine : record.Genuine deps owner token
  stored : s.success = .value (.success record)
  unmarked : s.deregPending = .absent
  stale : ∀ tomb, s.closedVault = .value tomb → tomb.isStale (.success record) = true

structure Settings.Coherent (deps : Deps) (owner token : String) (now : Option SuccessRecord)
    (s : Settings) : Prop where
  /-- The watermark bounds the revisions that the settings tell of. -/
  record : ∀ record, s.success = .value (.success record) →
    ∃ n, s.revision = .value n ∧ record.revision ≤ n
  closure : ∀ tomb, s.closedVault = .value tomb →
    ∃ prior n, tomb.priorRevision = some prior ∧ s.revision = .value n ∧ prior ≤ n
  stands : ∀ record, now = some record → s.Stands deps owner token record

/-- The write keeps the settings coherent. -/
def Write.Fits (deps : Deps) (owner token : String) (now : Option SuccessRecord) (s : Settings) :
    Write → Prop
  | revision n => s.Below n
  | success (.success record) =>
    record.Genuine deps owner token ∧ s.Below record.revision ∧
      s.revision = .value record.revision ∧ s.deregPending = .absent
  | success (.tombstone _) => now = none
  | deregPending _ => now = none
  | closedVault tomb =>
    ∃ prior n, tomb.priorRevision = some prior ∧ s.revision = .value n ∧ prior ≤ n
  | clearDeregPending | clearClosedVault | pending _ => True

section Coherent

variable {deps : Deps} {owner token : String} {now : Option SuccessRecord} {s : Settings}

theorem Settings.empty_coherent : Settings.empty.Coherent deps owner token none where
  record := nofun
  closure := nofun
  stands := nofun

theorem ClosedVaultTombstone.isStale_of_lt {tomb : ClosedVaultTombstone} {record : SuccessRecord}
    {prior : Nat} (hprior : tomb.priorRevision = some prior) (hlt : prior < record.revision) :
    tomb.isStale (.success record) = true := by
  rw [isStale, hprior]
  exact decide_eq_true hlt

theorem Settings.Coherent.put {w : Write} (h : s.Coherent deps owner token now)
    (hw : w.Fits deps owner token now s) :
    (s.put w).Coherent deps owner token (standingAfter owner now (.wrote owner w)) := by
  cases w with
  | revision revision =>
      refine ⟨fun record hrecord => ?_, fun tomb htomb => ?_, fun record hnow => ?_⟩
      · exact ⟨revision, rfl, Nat.le_of_lt (hw.record record hrecord)⟩
      · obtain ⟨prior, hprior, hlt⟩ := hw.closure tomb htomb
        exact ⟨prior, revision, hprior, rfl, Nat.le_of_lt hlt⟩
      · obtain ⟨hgenuine, hstored, hunmarked, hstale⟩ := h.stands record hnow
        exact ⟨hgenuine, hstored, hunmarked, hstale⟩
  | success stored =>
      cases stored with
      | success record =>
          obtain ⟨hgenuine, hbelow, hrevision, hunmarked⟩ := hw
          refine ⟨fun record' hrecord => ?_, h.closure, fun record' hnow => ?_⟩
          · cases hrecord
            exact ⟨record.revision, hrevision, Nat.le_refl _⟩
          · rw [standingAfter, if_pos rfl] at hnow
            cases hnow
            refine ⟨hgenuine, rfl, hunmarked, fun tomb htomb => ?_⟩
            obtain ⟨prior, hprior, hlt⟩ := hbelow.closure tomb htomb
            exact ClosedVaultTombstone.isStale_of_lt hprior hlt
      | tombstone tombstone =>
          refine ⟨nofun, h.closure, fun record hnow => ?_⟩
          cases hnow.symm.trans hw
  | deregPending time =>
      cases time with
      | none | some time =>
          refine ⟨h.record, h.closure, fun record hnow => ?_⟩
          cases hnow.symm.trans hw
  | clearDeregPending =>
      refine ⟨h.record, h.closure, fun record hnow => ?_⟩
      obtain ⟨hgenuine, hstored, -, hstale⟩ := h.stands record hnow
      exact ⟨hgenuine, hstored, rfl, hstale⟩
  | closedVault tomb =>
      refine ⟨h.record, fun tomb' htomb => ?_, fun record hnow => ?_⟩
      · cases htomb
        exact hw
      · rw [standingAfter, if_pos rfl] at hnow
        cases hnow
  | clearClosedVault =>
      refine ⟨h.record, nofun, fun record hnow => ?_⟩
      obtain ⟨hgenuine, hstored, hunmarked, -⟩ := h.stands record hnow
      exact ⟨hgenuine, hstored, hunmarked, nofun⟩
  | pending marker =>
      refine ⟨h.record, h.closure, fun record hnow => ?_⟩
      obtain ⟨hgenuine, hstored, hunmarked, hstale⟩ := h.stands record hnow
      exact ⟨hgenuine, hstored, hunmarked, hstale⟩

/-- An operation of the owner whose write fits leaves the settings coherent, however it ends. -/
theorem Settings.Coherent.settle {φ : Type} [Awaits φ] {op : Operation φ}
    (h : s.Coherent deps owner token now) (result : WriteResult) (howner : op.owner = owner)
    (hfits : ∀ w, op.landed = false → Awaits.write op.phase = some w → result.lands = true →
      w.Fits deps owner token now s) :
    (s.settle op.pending result).Coherent deps owner token
      ((op.wrote result).foldl (standingAfter owner) now) := by
  rcases op.settle_cases s result with ⟨hnone, hsame⟩ | ⟨w, hlanded, hw, hlands, hwrote, hput⟩
  · rw [hnone, hsame]
    exact h
  · rw [hwrote, hput, howner]
    exact h.put (hfits w hlanded hw hlands)

end Coherent

end DeadMansVault.Device
