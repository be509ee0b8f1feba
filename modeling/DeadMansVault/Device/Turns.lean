-- SUMMARY: Which phase of an operation a turn leads to, and on what grounds.
import DeadMansVault.Device.App

/-!
# Turns

For each operation, the phases that a turn can wait in next, with what it has read
to get there. Statements about runs use these instead of the turns themselves.
-/

namespace DeadMansVault.Device

/-! ## Registration -/

/-- A turn of a registration leads from one phase to another. -/
inductive RegistrationPhase.Goes (deps : Deps) (m : Moment) (s : Settings) :
    RegistrationPhase → RegistrationPhase → Prop
  | token {input : ValidRegistration} {token nonce : String} :
      m.deviceToken = some (some token) → 10 ≤ token.length →
      Goes deps m s (.deviceToken input) (.readRevision input token nonce)
  | revision {input : ValidRegistration} {token nonce : String} {revision : Nat} :
      computeNextRevision s.revision m.nowMs = some revision →
      Goes deps m s (.readRevision input token nonce) (.storeRevision input token nonce revision)
  | stored {input : ValidRegistration} {token nonce : String} {revision timestamp : Nat} :
      m.write.isOk = true →
      Goes deps m s (.storeRevision input token nonce revision)
        (.hash input token nonce revision timestamp)
  | handed {input : ValidRegistration} {token nonce : String} {revision timestamp : Nat} :
      Goes deps m s (.hash input token nonce revision timestamp)
        (.sign token (deps.registerFields input (deps.tokenHash token) nonce revision timestamp))
  | signed {token signature : String} {fields : RegisterFields} :
      Goes deps m s (.sign token fields) (.post token fields signature)
  | accepted {token signature : String} {fields : RegisterFields} {created : Bool} :
      m.delivery.registers = true →
      Goes deps m s (.post token fields signature) (.storeSuccess created (fields.record m.nowSec))
  | cached {created : Bool} {record : SuccessRecord} :
      Goes deps m s (.storeSuccess created record) (.clearClosedVault created record)

theorem RegistrationPhase.turn_goes {deps : Deps} {m : Moment} {s : Settings}
    {phase phase' : RegistrationPhase} (h : (phase.turn deps m s).2 = .wait phase') :
    Goes deps m s phase phase' := by
  cases phase with
  | deviceToken input =>
      rw [turn] at h
      split at h
      · cases h
      · cases h
      next token htoken =>
        split at h
        · cases h
        next hlength =>
          split at h
          · cases h
          · split at h
            · cases h
            · cases h
              exact .token htoken (Nat.not_lt.mp hlength)
  | readRevision input token nonce =>
      rw [turn] at h
      split at h
      · cases h
      · split at h
        · cases h
        next revision hrevision =>
          cases h
          exact .revision hrevision
  | storeRevision input token nonce revision =>
      rw [turn] at h
      split at h
      · cases h
      next hok =>
        split at h
        · cases h
        · cases h
          exact .stored (Bool.not_eq_false _ ▸ hok)
  | hash input token nonce revision timestamp =>
      rw [turn] at h
      split at h
      · cases h
      · dsimp only at h
        split at h
        · cases h
        · cases h
          exact .handed
  | sign token fields =>
      rw [turn] at h
      split at h
      · cases h
      · split at h
        · cases h
        · split at h
          · cases h
          · cases h
            exact .signed
  | post token fields signature =>
      rw [turn] at h
      split at h
      · cases h
      next res hdelivery =>
        split at h
        next hstatus =>
          cases h
          refine .accepted ?_
          rw [hdelivery, Delivery.registers]
          rcases hstatus with hstatus | hstatus
          · rw [hstatus]
            rfl
          · rw [hstatus]
            rfl
        · cases h
  | storeSuccess created record =>
      cases h
      exact .cached
  | clearClosedVault => cases h

/-- Who a registration is for. -/
def RegistrationPhase.owner : RegistrationPhase → String
  | deviceToken input => input.owner
  | readRevision input _ _ => input.owner
  | storeRevision input _ _ _ => input.owner
  | hash input _ _ _ _ => input.owner
  | sign _ fields => fields.owner
  | post _ fields _ => fields.owner
  | storeSuccess _ record => record.owner
  | clearClosedVault _ record => record.owner

theorem RegistrationPhase.Goes.owner {deps : Deps} {m : Moment} {s : Settings}
    {phase phase' : RegistrationPhase} (h : phase.Goes deps m s phase') :
    phase'.owner = phase.owner := by
  cases h <;> rfl

theorem Deps.startRegistration_wait {deps : Deps} {input : RegistrationInput}
    {phase : RegistrationPhase} (h : deps.startRegistration input = .wait phase) :
    ∃ vault stage1 stage2 stage3, input.owner ≠ "" ∧ deps.deriveVault input.owner = some vault ∧
      phase = .deviceToken ⟨input.owner, vault, stage1, stage2, stage3⟩ := by
  unfold startRegistration at h
  split at h
  · cases h
  next hcanonical =>
    have howner : input.owner ≠ "" := fun heq => hcanonical (heq ▸ rfl)
    split at h
    · cases h
    next vault hvault =>
      split at h
      · cases h
      · split at h
        · cases h
        · split at h
          · cases h
            exact ⟨vault, _, _, _, howner, hvault, rfl⟩
          · cases h

/-! ## Deregistration -/

/-- The server has refused the deregistration as one of a vault that is not the owner's. -/
def Delivery.ownershipFailed : Delivery → Bool
  | lost _ => false
  | answered res => decide (res.codeOr (mapDeregisterStatusToCode res.status) = "ownership_failed")

inductive DeregistrationPhase.Goes (deps : Deps) (m : Moment) (s : Settings) :
    DeregistrationPhase → DeregistrationPhase → Prop
  | record {parties : Parties} {postCloseCleanup : Bool} {record : Option StoredRecord} :
      Goes deps m s (.readSuccess parties postCloseCleanup)
        (.readClosedVault parties postCloseCleanup record)
  | handed {parties : Parties} {postCloseCleanup closureProven : Bool}
      {record : Option StoredRecord} {fields : DeregisterFields} :
      (closureProven = true → ∃ tomb, s.closedVault = .value tomb ∧ tomb.proves parties = true) →
      fields.owner = parties.owner → fields.vault = parties.vault →
      Goes deps m s (.readClosedVault parties postCloseCleanup record)
        (.sign record closureProven fields)
  | signed {record : Option StoredRecord} {closureProven : Bool} {fields : DeregisterFields}
      {signature : String} :
      Goes deps m s (.sign record closureProven fields)
        (.post record closureProven fields signature)
  | removed {record : Option StoredRecord} {closureProven : Bool} {fields : DeregisterFields}
      {signature : String} {cleanup : Cleanup} :
      m.delivery.deregisters = true →
      Goes deps m s (.post record closureProven fields signature)
        (.storeTombstone cleanup (deps.tombstone fields m.nowSec))
  | nothing {record : Option StoredRecord} {closureProven : Bool} {fields : DeregisterFields}
      {signature : String} {cleanup : Cleanup} :
      m.delivery.deregisters = true →
      Goes deps m s (.post record closureProven fields signature) (.clearClosedVault cleanup)
  | absent {record : Option StoredRecord} {fields : DeregisterFields} {signature : String}
      {cleanup : Cleanup} :
      m.delivery.deregisters = false → m.delivery.ownershipFailed = true →
      Goes deps m s (.post record true fields signature)
        (.storeTombstone cleanup (deps.tombstone fields m.nowSec))
  | stored {cleanup : Cleanup} {tombstone : Tombstone} :
      m.write.isOk = true →
      Goes deps m s (.storeTombstone cleanup tombstone) (.clearClosedVault cleanup)
  | notStored {cleanup : Cleanup} {tombstone : Tombstone} :
      m.write.isOk = false →
      Goes deps m s (.storeTombstone cleanup tombstone) (.storeMarker cleanup m.nowSec)

theorem Stored.readable_eq_some {α : Type} {stored : Stored α} {readFails : Bool} {a : α}
    (h : stored.readable readFails = some a) : stored = .value a := by
  cases stored with
  | value b =>
      rw [readable] at h
      split at h
      · cases h
      · exact congrArg Stored.value (Option.some.inj h)
  | absent | corrupt => cases h

/-- What the code takes for a removal is an answer with which the server reports one. -/
theorem Delivery.deregisters_answered (res : Response) :
    (answered res).deregisters =
      (if res.status = 200 then res.removed.filter (· ≤ 1) else none).isSome := by
  rw [deregisters]
  split
  next hstatus =>
    rw [hstatus]
    cases res.removed with
    | none => rfl
    | some n =>
        rw [Option.any_some, Option.filter_some]
        cases decide (n ≤ 1) with
        | true | false => rfl
  next hstatus =>
    rw [decide_eq_false hstatus]
    rfl

theorem DeregistrationPhase.turn_goes {deps : Deps} {m : Moment} {s : Settings}
    {phase phase' : DeregistrationPhase} (h : (phase.turn deps m s).2 = .wait phase') :
    Goes deps m s phase phase' := by
  cases phase with
  | readSuccess parties postCloseCleanup =>
      rw [turn] at h
      split at h
      · cases h
      · cases h
        exact .record
  | readClosedVault parties postCloseCleanup record =>
      rw [turn] at h
      split at h
      · cases h
      · split at h
        · cases h
        · split at h
          · cases h
          · dsimp only at h
            split at h
            · cases h
            · cases h
              refine .handed (fun hproven => ?_) rfl rfl
              obtain ⟨-, hany⟩ := Bool.and_eq_true_iff.mp hproven
              obtain ⟨tomb, htomb, hproves⟩ := (Option.any_eq_true _ _).mp hany
              exact ⟨tomb, Stored.readable_eq_some htomb, hproves⟩
  | sign record closureProven fields =>
      rw [turn] at h
      split at h
      · cases h
      · split at h
        · cases h
        · split at h
          · cases h
          · cases h
            exact .signed
  | post record closureProven fields signature =>
      rw [turn] at h
      split at h
      · cases h
      next res hdelivery =>
        have hremoves := Delivery.deregisters_answered res
        rw [← hdelivery] at hremoves
        split at h
        next removed hremoved =>
          rw [hremoved] at hremoves
          split at h
          · cases h
            exact .removed hremoves
          · cases h
            exact .nothing hremoves
        next hnone =>
          rw [hnone] at hremoves
          dsimp only at h
          split at h
          next hfailed =>
            obtain ⟨hcode, rfl⟩ := hfailed
            cases h
            refine .absent hremoves ?_
            rw [hdelivery, Delivery.ownershipFailed]
            exact decide_eq_true hcode
          · cases h
  | storeTombstone cleanup tombstone =>
      rw [turn] at h
      split at h
      next hok =>
        cases h
        exact .stored hok
      next hok =>
        cases h
        exact .notStored (Bool.eq_false_iff.mpr hok)
  | storeMarker => cases h
  | clearClosedVault => cases h

theorem Deps.startDeregistration_wait {deps : Deps} {input : DeregisterInput}
    {phase : DeregistrationPhase} (h : deps.startDeregistration input = .wait phase) :
    ∃ vault, deps.deriveVault input.owner = some vault ∧
      phase = .readSuccess ⟨input.owner, vault⟩ input.postCloseCleanup := by
  unfold startDeregistration at h
  split at h
  · cases h
  · split at h
    · cases h
    next vault hvault =>
      split at h
      · cases h
      · split at h
        · cases h
        · cases h
          exact ⟨vault, hvault, rfl⟩

/-! ## Closure -/

inductive ClosurePhase.Goes (s : Settings) : ClosurePhase → ClosurePhase → Prop
  | active {parties : Parties} {revokeSig : String} {revokedAt : Nat} {record : StoredRecord}
      {tombstone : ClosedVaultTombstone} :
      s.success = .value record → record.isDeregistered = false →
      tombstone.priorRevision = record.revision →
      Goes s (.readSuccess parties revokeSig revokedAt) (.storeClosedVault tombstone)

theorem ClosurePhase.turn_goes {deps : Deps} {m : Moment} {s : Settings}
    {phase phase' : ClosurePhase} (h : (phase.turn deps m s).2 = .wait phase') :
    Goes s phase phase' := by
  cases phase with
  | readSuccess parties revokeSig revokedAt =>
      rw [turn] at h
      split at h
      · cases h
      next record hrecord =>
        split at h
        · cases h
        next hactive =>
          cases h
          refine .active (Stored.readable_eq_some hrecord) ?_ rfl
          exact Bool.eq_false_iff.mpr fun hdown => hactive (.inr (.inr hdown))
  | storeClosedVault => cases h

theorem Deps.startClosure_wait {deps : Deps} {input : VaultClosureInput} {phase : ClosurePhase}
    (h : deps.startClosure input = .wait phase) :
    ∃ parties revokeSig revokedAt, phase = .readSuccess parties revokeSig revokedAt := by
  unfold startClosure at h
  split at h
  · cases h
  · split at h
    · cases h
    · split at h
      · split at h
        · cases h
        · split at h
          · cases h
          · cases h
            exact ⟨_, _, _, rfl⟩
      · cases h

/-! ## Check -/

/-- The check replaces the local record, or has done so. -/
def CheckPhase.repairs : CheckPhase → Bool
  | storeTombstone _ => true
  | clearDeregPending => true
  | _ => false

theorem CheckNext.conclude_repairs {parties : Parties} {record : Option StoredRecord}
    {hash : Option String} {phase : CheckPhase}
    (h : CheckNext.conclude parties record hash = .wait phase) : phase.repairs = false := by
  unfold CheckNext.conclude at h
  split at h
  · cases h
    rfl
  · cases h

/-- A check comes to repair only on the strength of a marker. -/
theorem CheckPhase.turn_repairs {deps : Deps} {parties : Parties} {current : Bool} {m : Moment}
    {s : Settings} {phase phase' : CheckPhase}
    (h : (phase.turn deps parties current m s).2 = .wait phase') (hrepairs : phase'.repairs = true) :
    phase.repairs = true ∨ phase = .readDeregPending ∧ s.deregPending ≠ .absent := by
  cases phase with
  | readClosedVault =>
      rw [turn] at h
      split at h
      · cases h
        cases hrepairs
      · split at h
        · cases h
          cases hrepairs
        · cases h
          cases hrepairs
  | readClosedRecord tomb =>
      rw [turn] at h
      split at h
      · cases h
        cases hrepairs
      · split at h
        · cases h
          cases hrepairs
        · cases h
  | clearClosedVault =>
      cases h
      cases hrepairs
  | readDeregPending =>
      rw [turn] at h
      split at h
      · cases h
        cases hrepairs
      · split at h
        · cases h
          cases hrepairs
        next hmarker =>
          refine .inr ⟨rfl, fun habsent => ?_⟩
          rw [hmarker] at habsent
          cases habsent
        next time hmarker =>
          refine .inr ⟨rfl, fun habsent => ?_⟩
          rw [hmarker] at habsent
          cases habsent
  | storeTombstone => exact .inl rfl
  | clearDeregPending => exact .inl rfl
  | readSuccess =>
      rw [turn] at h
      split at h
      · cases h
      · split at h
        · cases h
          cases hrepairs
        · cases h
        · cases h
          cases hrepairs
  | deviceToken record =>
      rw [turn] at h
      split at h
      · split at h
        · cases (CheckNext.conclude_repairs h).symm.trans hrepairs
        · cases h
          cases hrepairs
      · cases (CheckNext.conclude_repairs h).symm.trans hrepairs
  | hash record token =>
      cases (CheckNext.conclude_repairs h).symm.trans hrepairs
  | readPending fingerprint =>
      rw [turn] at h
      split at h
      · cases h
      · split at h
        · cases h
        · cases h
          cases hrepairs
  | storePending => cases h

end DeadMansVault.Device
