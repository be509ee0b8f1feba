-- SUMMARY: The statements of a signed registration one by one, each of which may fail.
import DeadMansVault.Notify.Store

/-!
# Transactions, statement by statement

A transaction is a list of statements on the open database. When one of them
fails, the session ends there and the database is what it was when the
transaction began. What the store's operations say about a failing database is
this, whichever statement it is that fails.
-/

namespace DeadMansVault.Notify

/-- An open transaction: the database as its statements have left it, and how many of those
    to come succeed, if one fails. -/
structure Session where
  store : Store
  succeed : Option Nat

abbrev Statements := EStateM Unit Session

/-- Run one statement, which may fail by itself (`none`) or because the database does. -/
def statement {α : Type} (f : Store → Option (α × Store)) : Statements α := fun t =>
  match t.succeed with
  | some 0 => .error () t
  | n =>
    match f t.store with
    | none => .error () t
    | some (a, s) => .ok a ⟨s, n.map (· - 1)⟩

/-- The commit is a statement as well. -/
def committed (body : Statements Outcome) : Statements Outcome := do
  let outcome ← body
  statement fun s => some ((), s)
  return outcome

/-- Run the statements and commit, or roll back. -/
def runTransaction (body : Statements Outcome) (succeed : Option Nat) (s : Store) : Store × Outcome :=
  match (committed body).run ⟨s, succeed⟩ with
  | .ok outcome t => (t.store, outcome)
  | .error _ _ => (s, { code := .databaseError })

/-- `INSERT OR IGNORE INTO used_nonces`; whether it has changed a row. -/
def claimStatement (owner nonce : String) (usedAt : Int) : Statements Bool :=
  statement fun s =>
    if s.nonceUsed owner nonce then some (false, s) else some (true, s.claim owner nonce usedAt)

def readStatement (vault : String) : Statements (Option Row) :=
  statement fun s => some (s.getRegistration vault, s)

/-- `INSERT INTO registrations`, which fails if the vault is there. -/
def insertStatement (row : Row) : Statements Unit :=
  statement fun s =>
    if h : s.getRegistration row.vault = none then some ((), s.insert row h) else none

def updateStatement (vault : String) (f : Row → Row) (hf : ∀ r, (f r).vault = r.vault) :
    Statements Unit :=
  statement fun s => some ((), s.update vault f hf)

/-- The body of the transaction of a signed registration. -/
def signedRegistrationStatements (cmd : SignedRegistration) : Statements Outcome := do
  let claimed ← claimStatement cmd.owner cmd.nonce cmd.nonceUsedAt
  if claimed = false then return { code := .nonceReused }
  match ← readStatement cmd.vault with
  | none =>
    insertStatement cmd.fresh
    return { code := .created }
  | some row =>
    if row.owner ≠ cmd.owner then return { code := .ownerConflict }
    if cmd.revision ≤ row.registrationRevision then return { code := .staleRevision }
    updateStatement cmd.vault cmd.renew cmd.renew_vault
    return { code := .updated }

/-- One attempt at a signed registration; `succeed` tells which statement fails, if any. -/
def attemptSignedRegistration (succeed : Option Nat) (cmd : SignedRegistration) (s : Store) :
    Store × Outcome :=
  runTransaction (signedRegistrationStatements cmd) succeed s

/-! ## The statements and the operation -/

/-- The script ends early, or it does what it does on a database that does not fail. -/
def Statements.Interruptible {α : Type} (x : Statements α) : Prop :=
  ∀ s n, (∃ t, x.run ⟨s, n⟩ = .error () t) ∨
    ∃ a s' n', x.run ⟨s, none⟩ = .ok a ⟨s', none⟩ ∧ x.run ⟨s, n⟩ = .ok a ⟨s', n'⟩

namespace Statements.Interruptible

variable {α β : Type}

theorem pure (a : α) : Interruptible (Pure.pure a) :=
  fun s n => .inr ⟨a, s, n, rfl, rfl⟩

theorem bind {x : Statements α} {f : α → Statements β} (hx : Interruptible x)
    (hf : ∀ a, Interruptible (f a)) : Interruptible (x >>= f) := by
  intro s n
  rw [EStateM.run_bind, EStateM.run_bind]
  rcases hx s n with ⟨t, hstop⟩ | ⟨a, s', n', hnone, hok⟩
  · rw [hstop]
    exact .inl ⟨t, rfl⟩
  · rw [hnone, hok]
    exact hf a s' n'

theorem statement (f : Store → Option (α × Store)) : Interruptible (Notify.statement f) := by
  intro s n
  unfold Notify.statement EStateM.run
  dsimp only
  split
  · exact .inl ⟨_, rfl⟩
  · cases hf : f s with
    | none => exact .inl ⟨_, rfl⟩
    | some r => exact .inr ⟨r.1, r.2, _, rfl, rfl⟩

end Statements.Interruptible

/-- A transaction is rolled back, or nothing has failed. -/
theorem runTransaction_cases {body : Statements Outcome} (h : body.Interruptible)
    (succeed : Option Nat) (s : Store) :
    runTransaction body succeed s = (s, { code := .databaseError }) ∨
      runTransaction body succeed s = runTransaction body none s := by
  have hcommit := h.bind fun outcome =>
    (Statements.Interruptible.statement fun s => some ((), s)).bind fun _ =>
      Statements.Interruptible.pure outcome
  unfold runTransaction committed
  rcases hcommit s succeed with ⟨t, hstop⟩ | ⟨outcome, s', n', hnone, hok⟩
  · exact .inl (by rw [hstop])
  · exact .inr (by rw [hnone, hok])

theorem signedRegistrationStatements_interruptible (cmd : SignedRegistration) :
    (signedRegistrationStatements cmd).Interruptible := by
  refine .bind (.statement _) fun claimed => ?_
  split
  · exact .pure _
  · refine .bind (.statement _) fun found => ?_
    split
    · exact .bind (.statement _) fun _ => .pure _
    · split
      · exact .pure _
      · split
        · exact .pure _
        · exact .bind (.statement _) fun _ => .pure _

theorem statement_run {α : Type} (f : Store → Option (α × Store)) (s : Store) :
    (statement f).run ⟨s, none⟩ = match f s with
      | none => .error () ⟨s, none⟩
      | some (a, s') => .ok a ⟨s', none⟩ := rfl

/-! What a signed registration does, by what it finds. -/

section Found

variable {s : Store} {cmd : SignedRegistration}

theorem applySignedRegistration_reused (h : s.nonceUsed cmd.owner cmd.nonce = true) :
    applySignedRegistration false cmd s = (s, { code := .nonceReused }) := by
  simp [applySignedRegistration, transaction, h]

theorem applySignedRegistration_created (hnonce : s.nonceUsed cmd.owner cmd.nonce = false)
    (h : s.getRegistration cmd.vault = none) :
    applySignedRegistration false cmd s =
      ((s.claim cmd.owner cmd.nonce cmd.nonceUsedAt).insert cmd.fresh h, { code := .created }) := by
  simp only [applySignedRegistration, transaction, hnonce, Bool.false_eq_true, if_false]
  split
  · rfl
  next row hrow => cases h.symm.trans hrow

variable {row : Row}

/-- With a row there, the nonce is claimed, and the rest is decided by its owner and revision. -/
theorem applySignedRegistration_found (hnonce : s.nonceUsed cmd.owner cmd.nonce = false)
    (h : s.getRegistration cmd.vault = some row) :
    applySignedRegistration false cmd s =
      let claimed := s.claim cmd.owner cmd.nonce cmd.nonceUsedAt
      if row.owner ≠ cmd.owner then (claimed, { code := .ownerConflict })
      else if cmd.revision ≤ row.registrationRevision then (claimed, { code := .staleRevision })
      else (claimed.update cmd.vault cmd.renew fun _ => rfl, { code := .updated }) := by
  simp only [applySignedRegistration, transaction, hnonce, Bool.false_eq_true, if_false]
  split
  next hnone => cases hnone.symm.trans h
  next row' hrow =>
    obtain rfl := Option.some.inj (hrow.symm.trans h)
    rfl

end Found

theorem attemptSignedRegistration_none (cmd : SignedRegistration) (s : Store) :
    attemptSignedRegistration none cmd s = applySignedRegistration false cmd s := by
  unfold attemptSignedRegistration runTransaction committed signedRegistrationStatements
  simp only [claimStatement, readStatement, insertStatement, updateStatement, EStateM.run_bind,
    statement_run]
  cases hused : s.nonceUsed cmd.owner cmd.nonce with
  | true => simp [statement_run, applySignedRegistration_reused hused]
  | false =>
      cases hrow : s.getRegistration cmd.vault with
      | none =>
          have hvault : cmd.fresh.vault = cmd.vault := rfl
          rw [applySignedRegistration_created hused hrow]
          simp [statement_run, hrow, hvault, -bind_pure_comp]
      | some row =>
          rw [applySignedRegistration_found hused hrow]
          by_cases howner : row.owner = cmd.owner
          · by_cases hstale : cmd.revision ≤ row.registrationRevision
            · simp [statement_run, hrow, howner, hstale]
            · simp [statement_run, hrow, howner, hstale, -bind_pure_comp]
          · simp [statement_run, hrow, howner]

/-- Wherever the database fails, the operation has failed as a whole. -/
theorem attemptSignedRegistration_eq (succeed : Option Nat) (cmd : SignedRegistration) (s : Store) :
    ∃ dbFails, (succeed = none → dbFails = false) ∧
      attemptSignedRegistration succeed cmd s = applySignedRegistration dbFails cmd s := by
  cases succeed with
  | none => exact ⟨false, fun _ => rfl, attemptSignedRegistration_none cmd s⟩
  | some n =>
      rcases runTransaction_cases (signedRegistrationStatements_interruptible cmd) (some n) s with
        hback | hsame
      · exact ⟨true, nofun, hback⟩
      · exact ⟨false, nofun, hsame.trans (attemptSignedRegistration_none cmd s)⟩

end DeadMansVault.Notify
