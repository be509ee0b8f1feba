-- SUMMARY: Signed registrations of one vault, in any order and through any failures, come to the greatest revision.
import DeadMansVault.Notify.Transactions

/-!
# Revisions

Each signed registration is one transaction: it claims its nonce, and writes the
row if its revision is greater than the one stored. Whatever the order of the
registrations of an owner's vault, and wherever the database fails in between,
the row ends with what the one of greatest revision says.
-/

namespace DeadMansVault.Notify

/-- What a registration says, and the row remembers. -/
structure Content where
  deviceToken : String
  stage1 : Rat
  stage2 : Rat
  stage3 : Rat
  revision : Nat
  deviceTokenHash : Option String
  signedAt : Option Int
  deriving DecidableEq, Repr

def Row.content (row : Row) : Content where
  deviceToken := row.deviceToken
  stage1 := row.stage1
  stage2 := row.stage2
  stage3 := row.stage3
  revision := row.registrationRevision
  deviceTokenHash := row.deviceTokenHash
  signedAt := row.signedAt

def SignedRegistration.content (cmd : SignedRegistration) : Content := cmd.fresh.content

@[simp] theorem SignedRegistration.renew_content (cmd : SignedRegistration) (row : Row) :
    (cmd.renew row).content = cmd.content := rfl

/-- What a registration leaves of an old row: its notification state, and when it was created. -/
structure Row.Keeps (row row' : Row) : Prop where
  owner : row'.owner = row.owner
  lastStage : row'.lastStage = row.lastStage
  lastNotifiedAt : row'.lastNotifiedAt = row.lastNotifiedAt
  createdAt : row'.createdAt = row.createdAt

theorem Row.Keeps.refl (row : Row) : row.Keeps row := ⟨rfl, rfl, rfl, rfl⟩

theorem Row.Keeps.trans {row row' row'' : Row} (h : row.Keeps row') (h' : row'.Keeps row'') :
    row.Keeps row'' :=
  ⟨h'.owner.trans h.owner, h'.lastStage.trans h.lastStage,
    h'.lastNotifiedAt.trans h.lastNotifiedAt, h'.createdAt.trans h.createdAt⟩

theorem Row.Keeps.renew {row row' : Row} (h : row.Keeps row') (cmd : SignedRegistration) :
    row.Keeps (cmd.renew row') :=
  ⟨h.owner, h.lastStage, h.lastNotifiedAt, h.createdAt⟩

/-- How often the nonce has been claimed. -/
def Store.claims (s : Store) (owner nonce : String) : Nat :=
  s.usedNonces.countP fun entry => entry.1 = (owner, nonce)

theorem Store.nonceUsed_iff {s : Store} {owner nonce : String} :
    s.nonceUsed owner nonce = true ↔ 0 < s.claims owner nonce := by
  simp [nonceUsed, claims, List.any_eq_true, List.countP_pos_iff]

theorem Store.claims_claim (s : Store) (owner nonce nonce' : String) (t : Int) :
    (s.claim owner nonce t).claims owner nonce' =
      s.claims owner nonce' + if nonce = nonce' then 1 else 0 := by
  simp [claims, claim, List.countP_append, List.countP_singleton]

/-! ## One attempt -/

section Attempt

variable {s : Store} {cmd : SignedRegistration}

/-- What an attempt does: nothing, or a claim of the nonce, with which goes a new row, or a
    renewed one, or no change of the rows. -/
theorem applySignedRegistration_cases (dbFails : Bool) (s : Store) (cmd : SignedRegistration) :
    let r := applySignedRegistration dbFails cmd s
    let claimed := s.claim cmd.owner cmd.nonce cmd.nonceUsedAt
    (r = (s, { code := .databaseError }) ∧ dbFails = true) ∨
    (s.nonceUsed cmd.owner cmd.nonce = true ∧ r = (s, { code := .nonceReused })) ∨
    s.nonceUsed cmd.owner cmd.nonce = false ∧
    ((∃ h : s.getRegistration cmd.vault = none, r = (claimed.insert cmd.fresh h, { code := .created })) ∨
      ∃ row, s.getRegistration cmd.vault = some row ∧
        (row.owner ≠ cmd.owner ∧ r = (claimed, { code := .ownerConflict }) ∨
          row.owner = cmd.owner ∧ cmd.revision ≤ row.registrationRevision ∧
            r = (claimed, { code := .staleRevision }) ∨
          row.owner = cmd.owner ∧ row.registrationRevision < cmd.revision ∧
            r = (claimed.update cmd.vault cmd.renew fun _ => rfl, { code := .updated }))) := by
  dsimp only
  cases dbFails with
  | true => exact .inl ⟨rfl, rfl⟩
  | false =>
      refine .inr ?_
      cases hused : s.nonceUsed cmd.owner cmd.nonce with
      | true => exact .inl ⟨rfl, applySignedRegistration_reused hused⟩
      | false =>
          refine .inr ⟨rfl, ?_⟩
          rcases (s.getRegistration cmd.vault).eq_none_or_eq_some with hnone | ⟨row, hrow⟩
          · exact .inl ⟨hnone, applySignedRegistration_created hused hnone⟩
          · refine .inr ⟨row, hrow, ?_⟩
            rw [applySignedRegistration_found hused hrow]
            dsimp only
            by_cases howner : row.owner = cmd.owner
            · rw [if_neg (not_not.mpr howner)]
              by_cases hstale : cmd.revision ≤ row.registrationRevision
              · exact .inr (.inl ⟨howner, hstale, by rw [if_pos hstale]⟩)
              · exact .inr (.inr ⟨howner, by omega, by rw [if_neg hstale]⟩)
            · exact .inl ⟨howner, by rw [if_pos howner]⟩

/-- An attempt that is refused changes no row, and one at which the database fails nothing. -/
theorem attemptSignedRegistration_refused (succeed : Option Nat) (cmd : SignedRegistration)
    (s : Store) :
    let r := attemptSignedRegistration succeed cmd s
    (r.2.code ∈ [.nonceReused, .ownerConflict, .staleRevision] → r.1.rows = s.rows) ∧
    (r.2.code = .databaseError → r.1 = s) := by
  dsimp only
  obtain ⟨dbFails, -, heq⟩ := attemptSignedRegistration_eq succeed cmd s
  rw [heq]
  rcases applySignedRegistration_cases dbFails s cmd with
    ⟨hr, -⟩ | ⟨-, hr⟩ | ⟨-, ⟨hnone, hr⟩ | ⟨row, -, ⟨-, hr⟩ | ⟨-, -, hr⟩ | ⟨-, -, hr⟩⟩⟩
  all_goals
    rw [hr]
    simp [Store.claim]

end Attempt

/-! ## Any order of attempts -/

section Attempts

variable {s₀ s : Store} {owner vault : String} {cmds : List SignedRegistration}

/-- The registrations are all of this vault, by its owner, and each has its own nonce. -/
structure Commands (owner vault : String) (cmds : List SignedRegistration) : Prop where
  addressed : ∀ cmd ∈ cmds, cmd.owner = owner ∧ cmd.vault = vault
  nonces : (cmds.map (·.nonce)).Nodup

/-- Between the attempts: a registration has claimed its nonce at most once, and a row that
    remembers none of them is the one that was there at the start. -/
structure Settling (owner vault : String) (cmds : List SignedRegistration) (s₀ s : Store) : Prop where
  owned : ∀ row, s.getRegistration vault = some row → row.owner = owner
  claims : ∀ cmd ∈ cmds, s.claims owner cmd.nonce ≤ 1
  /-- A claimed registration has been written, or one of greater revision was there. -/
  written : ∀ cmd ∈ cmds, s.nonceUsed owner cmd.nonce = true →
    ∃ row, s.getRegistration vault = some row ∧ cmd.revision ≤ row.registrationRevision
  source : s.getRegistration vault = s₀.getRegistration vault ∨
    ∃ cmd ∈ cmds, (∃ row, s.getRegistration vault = some row ∧ row.content = cmd.content) ∧
      ∀ row, s₀.getRegistration vault = some row → row.registrationRevision < cmd.revision
  keeps : ∀ row, s₀.getRegistration vault = some row →
    ∃ row', s.getRegistration vault = some row' ∧ row.Keeps row' ∧
      row.registrationRevision ≤ row'.registrationRevision

theorem Settling.start (howned : ∀ row, s.getRegistration vault = some row → row.owner = owner)
    (hunused : ∀ cmd ∈ cmds, s.nonceUsed owner cmd.nonce = false) :
    Settling owner vault cmds s s where
  owned := howned
  claims cmd hcmd := by
    have hzero := Store.nonceUsed_iff.not.mp (Bool.eq_false_iff.mp (hunused cmd hcmd))
    omega
  written cmd hcmd hused := by
    rw [hunused cmd hcmd] at hused
    cases hused
  source := .inl rfl
  keeps row hrow := ⟨row, hrow, .refl row, le_rfl⟩

/-- The row behind a claim: the one that was there, which is at least as new as the registration,
    or what the registration has written over an older one. -/
def Claimed (vault : String) (cmd : SignedRegistration) (s s' : Store) : Prop :=
  (s'.getRegistration vault = s.getRegistration vault ∧
    ∃ row, s.getRegistration vault = some row ∧ cmd.revision ≤ row.registrationRevision) ∨
  ∃ row', s'.getRegistration vault = some row' ∧ row'.owner = cmd.owner ∧
    row'.content = cmd.content ∧ ∀ row, s.getRegistration vault = some row →
      row.registrationRevision < cmd.revision ∧ row.Keeps row'

theorem Settling.claim (hS : Settling owner vault cmds s₀ s) (hcmds : Commands owner vault cmds)
    {cmd : SignedRegistration} (hcmd : cmd ∈ cmds) (hunused : s.nonceUsed owner cmd.nonce = false)
    {s' : Store} (hclaims : ∀ nonce, s'.claims owner nonce =
      s.claims owner nonce + if cmd.nonce = nonce then 1 else 0)
    (hrow : Claimed vault cmd s s') : Settling owner vault cmds s₀ s' where
  owned row' hrow' := by
    rcases hrow with ⟨hsame, -⟩ | ⟨row'', hrow'', howner, -, -⟩
    · exact hS.owned row' (hsame ▸ hrow')
    · obtain rfl := Option.some.inj (hrow'.symm.trans hrow'')
      exact howner.trans (hcmds.addressed cmd hcmd).1
  claims cmd' hcmd' := by
    rw [hclaims]
    split
    next hnonce =>
      have hzero := Store.nonceUsed_iff.not.mp (Bool.eq_false_iff.mp hunused)
      rw [← hnonce]
      omega
    · simpa using hS.claims cmd' hcmd'
  written cmd' hcmd' hused := by
    by_cases hnonce : cmd.nonce = cmd'.nonce
    · obtain rfl := List.inj_on_of_nodup_map hcmds.nonces hcmd hcmd' hnonce
      rcases hrow with ⟨hsame, row, hrow, hle⟩ | ⟨row', hrow', -, hcontent, -⟩
      · exact ⟨row, hsame.trans hrow, hle⟩
      · exact ⟨row', hrow', (congrArg Content.revision hcontent).ge⟩
    · have hold : s.nonceUsed owner cmd'.nonce = true := by
        rw [Store.nonceUsed_iff, hclaims, if_neg hnonce] at hused
        exact Store.nonceUsed_iff.mpr hused
      obtain ⟨row, hold, hle⟩ := hS.written cmd' hcmd' hold
      rcases hrow with ⟨hsame, -⟩ | ⟨row', hrow', -, hcontent, hnewer⟩
      · exact ⟨row, hsame.trans hold, hle⟩
      · have hlt := (hnewer row hold).1
        have hrev : row'.registrationRevision = cmd.revision := congrArg Content.revision hcontent
        exact ⟨row', hrow', by omega⟩
  source := by
    rcases hrow with ⟨hsame, -⟩ | ⟨row', hrow', -, hcontent, hnewer⟩
    · rcases hS.source with hstart | ⟨cmd', hcmd', hfrom, hover⟩
      · exact .inl (hsame.trans hstart)
      · exact .inr ⟨cmd', hcmd', hsame ▸ hfrom, hover⟩
    · refine .inr ⟨cmd, hcmd, ⟨row', hrow', hcontent⟩, fun row hrow => ?_⟩
      obtain ⟨row₁, hrow₁, -, hle⟩ := hS.keeps row hrow
      have hlt := (hnewer row₁ hrow₁).1
      omega
  keeps row hrow₀ := by
    obtain ⟨row₁, hrow₁, hkeeps, hle⟩ := hS.keeps row hrow₀
    rcases hrow with ⟨hsame, -⟩ | ⟨row', hrow', -, hcontent, hnewer⟩
    · exact ⟨row₁, hsame.trans hrow₁, hkeeps, hle⟩
    · obtain ⟨hlt, hkeeps'⟩ := hnewer row₁ hrow₁
      have hrev : row'.registrationRevision = cmd.revision := congrArg Content.revision hcontent
      exact ⟨row', hrow', hkeeps.trans hkeeps', by omega⟩

/-- One attempt keeps the account, and an attempt at which nothing fails claims the nonce. -/
theorem Settling.attempt (hS : Settling owner vault cmds s₀ s) (hcmds : Commands owner vault cmds)
    {cmd : SignedRegistration} (hcmd : cmd ∈ cmds) (succeed : Option Nat) :
    let s' := (attemptSignedRegistration succeed cmd s).1
    Settling owner vault cmds s₀ s' ∧
      (∀ nonce, s.nonceUsed owner nonce = true → s'.nonceUsed owner nonce = true) ∧
      (succeed = none → s'.nonceUsed owner cmd.nonce = true) := by
  dsimp only
  obtain ⟨rfl, rfl⟩ := hcmds.addressed cmd hcmd
  obtain ⟨dbFails, hnever, heq⟩ := attemptSignedRegistration_eq succeed cmd s
  rw [heq]
  -- A claim, with the row behind it.
  have hclaimed : ∀ s' : Store, s.nonceUsed cmd.owner cmd.nonce = false →
      s'.usedNonces = (s.claim cmd.owner cmd.nonce cmd.nonceUsedAt).usedNonces →
      Claimed cmd.vault cmd s s' →
      Settling cmd.owner cmd.vault cmds s₀ s' ∧
        (∀ nonce, s.nonceUsed cmd.owner nonce = true → s'.nonceUsed cmd.owner nonce = true) ∧
        (succeed = none → s'.nonceUsed cmd.owner cmd.nonce = true) := by
    intro s' hunused hnonces hrow
    have hclaims : ∀ nonce, s'.claims cmd.owner nonce =
        s.claims cmd.owner nonce + if cmd.nonce = nonce then 1 else 0 := by
      intro nonce
      rw [← Store.claims_claim s cmd.owner cmd.nonce nonce cmd.nonceUsedAt, Store.claims, hnonces]
      rfl
    refine ⟨hS.claim hcmds hcmd hunused hclaims hrow, fun nonce hused => ?_, fun _ => ?_⟩
    · rw [Store.nonceUsed_iff] at hused ⊢
      have := hclaims nonce
      omega
    · rw [Store.nonceUsed_iff, hclaims, if_pos rfl]
      omega
  rcases applySignedRegistration_cases dbFails s cmd with
    ⟨hr, hfails⟩ | ⟨hused, hr⟩ | ⟨hunused, ⟨hnone, hr⟩ | ⟨row, hrow, ⟨hother, -⟩ | ⟨-, hle, hr⟩ |
      ⟨howner, hlt, hr⟩⟩⟩
  · rw [hr]
    refine ⟨hS, fun _ h => h, fun hnone => ?_⟩
    rw [hnever hnone] at hfails
    cases hfails
  · rw [hr]
    exact ⟨hS, fun _ h => h, fun _ => hused⟩
  · rw [hr]
    refine hclaimed _ hunused rfl (.inr ⟨cmd.fresh, ?_, rfl, rfl, fun row hrow => ?_⟩)
    · have hvacant : (s.claim cmd.owner cmd.nonce cmd.nonceUsedAt).getRegistration cmd.fresh.vault =
          none := hnone
      exact (Store.getRegistration_insert hvacant cmd.vault).trans (if_pos rfl)
    · cases hnone.symm.trans hrow
  · exact absurd (hS.owned row hrow) hother
  · rw [hr]
    exact hclaimed _ hunused rfl (.inl ⟨rfl, row, hrow, hle⟩)
  · rw [hr]
    refine hclaimed _ hunused rfl (.inr ⟨cmd.renew row, ?_, howner, rfl, fun row' hrow' => ?_⟩)
    · have hrenewed : (s.getRegistration cmd.vault).map cmd.renew = some (cmd.renew row) :=
        congrArg (Option.map cmd.renew) hrow
      refine Eq.trans ?_ hrenewed
      exact (Store.getRegistration_update cmd.renew_vault cmd.vault).trans (if_pos rfl)
    · obtain rfl := Option.some.inj (hrow.symm.trans hrow')
      exact ⟨hlt, (Row.Keeps.refl row).renew cmd⟩

/-- Attempts one after the other, with what the database does at each. -/
def attemptAll (attempts : List (SignedRegistration × Option Nat)) (s : Store) : Store :=
  attempts.foldl (fun s attempt => (attemptSignedRegistration attempt.2 attempt.1 s).1) s

theorem Settling.attemptAll (hS : Settling owner vault cmds s₀ s) (hcmds : Commands owner vault cmds)
    {attempts : List (SignedRegistration × Option Nat)} (hfrom : ∀ a ∈ attempts, a.1 ∈ cmds) :
    Settling owner vault cmds s₀ (attemptAll attempts s) ∧
      (∀ nonce, s.nonceUsed owner nonce = true →
        (Notify.attemptAll attempts s).nonceUsed owner nonce = true) ∧
      ∀ cmd, (cmd, none) ∈ attempts →
        (Notify.attemptAll attempts s).nonceUsed owner cmd.nonce = true := by
  induction attempts generalizing s with
  | nil => exact ⟨hS, fun _ h => h, nofun⟩
  | cons a rest ih =>
      obtain ⟨hnext, hmono, hdone⟩ := hS.attempt hcmds (hfrom a (by simp)) a.2
      obtain ⟨hend, hmono', hdone'⟩ := ih hnext fun a' ha' => hfrom a' (by simp [ha'])
      refine ⟨hend, fun nonce hused => hmono' nonce (hmono nonce hused), fun cmd hcmd => ?_⟩
      rcases List.mem_cons.mp hcmd with heq | hcmd
      · refine hmono' _ ?_
        rw [← heq] at hdone ⊢
        exact hdone rfl
      · exact hdone' cmd hcmd

end Attempts

/-- Signed registrations of one owner's vault, tried in any order and tried again after any
    failures, end with the one of greatest revision, or with the row that was there. -/
theorem registrations_confluent (s : Store) {owner vault : String} {cmds : List SignedRegistration}
    (hcmds : Commands owner vault cmds) (hrevisions : (cmds.map (·.revision)).Nodup)
    (howned : ∀ row, s.getRegistration vault = some row → row.owner = owner)
    (hunused : ∀ cmd ∈ cmds, s.nonceUsed owner cmd.nonce = false)
    {attempts : List (SignedRegistration × Option Nat)} (hfrom : ∀ a ∈ attempts, a.1 ∈ cmds)
    (hdone : ∀ cmd ∈ cmds, (cmd, none) ∈ attempts) :
    let s' := attemptAll attempts s
    (∀ best ∈ cmds, (∀ cmd ∈ cmds, cmd.revision ≤ best.revision) →
      (∀ row, s.getRegistration vault = some row → row.registrationRevision < best.revision) →
      ∃ row, s'.getRegistration vault = some row ∧ row.content = best.content) ∧
    ((∀ cmd ∈ cmds, ∃ row, s.getRegistration vault = some row ∧
        cmd.revision ≤ row.registrationRevision) →
      s'.getRegistration vault = s.getRegistration vault) ∧
    (∀ row, s.getRegistration vault = some row →
      ∃ row', s'.getRegistration vault = some row' ∧ row.Keeps row') ∧
    (∀ cmd ∈ cmds, s'.claims owner cmd.nonce = 1) ∧
    ∀ (succeed : Option Nat) (cmd : SignedRegistration) (t : Store),
      ((attemptSignedRegistration succeed cmd t).2.code ∈
          [.nonceReused, .ownerConflict, .staleRevision] →
        (attemptSignedRegistration succeed cmd t).1.rows = t.rows) ∧
      ((attemptSignedRegistration succeed cmd t).2.code = .databaseError →
        (attemptSignedRegistration succeed cmd t).1 = t) := by
  dsimp only
  obtain ⟨hS, -, hclaimed⟩ := (Settling.start howned hunused).attemptAll hcmds hfrom
  refine ⟨fun best hbest hgreatest hover => ?_, fun hnewer => ?_, fun row hrow => ?_,
    fun cmd hcmd => ?_, fun succeed cmd t => attemptSignedRegistration_refused succeed cmd t⟩
  · obtain ⟨row, hrow, hle⟩ := hS.written best hbest (hclaimed best (hdone best hbest))
    rcases hS.source with hsame | ⟨cmd, hcmd, ⟨row', hrow', hcontent⟩, -⟩
    · have hlt := hover row (hsame.symm.trans hrow)
      omega
    · -- The row says what a registration says, and only the greatest is great enough.
      obtain rfl := Option.some.inj (hrow.symm.trans hrow')
      have hrev : row.registrationRevision = cmd.revision := congrArg Content.revision hcontent
      have hmax := hgreatest cmd hcmd
      have heq : cmd.revision = best.revision := by omega
      obtain rfl := List.inj_on_of_nodup_map hrevisions hcmd hbest heq
      exact ⟨row, hrow, hcontent⟩
  · rcases hS.source with hsame | ⟨cmd, hcmd, -, hover⟩
    · exact hsame
    · obtain ⟨row, hrow, hle⟩ := hnewer cmd hcmd
      have hlt := hover row hrow
      omega
  · obtain ⟨row', hrow', hkeeps, -⟩ := hS.keeps row hrow
    exact ⟨row', hrow', hkeeps⟩
  · have hle := hS.claims cmd hcmd
    have hpos := Store.nonceUsed_iff.mp (hclaimed cmd (hdone cmd hcmd))
    omega

/-! Two registrations of a new vault, the newer one first, and a database that fails once. -/

namespace Sample

def renewal (revision : Nat) (nonce : String) : SignedRegistration where
  owner := "owner"
  vault := "vault"
  deviceToken := "token of " ++ nonce
  deviceTokenHash := "hash of " ++ nonce
  stage1 := 1
  stage2 := 1
  stage3 := 1
  revision := revision
  signedAt := 100
  nonce := nonce
  nonceUsedAt := 100

def emptied : Store := ⟨[], List.nodup_nil, []⟩

end Sample

theorem registrations_confluent_sample :
    ∃ row, (attemptAll [(Sample.renewal 2 "b", some 2), (Sample.renewal 2 "b", none),
        (Sample.renewal 1 "a", none)] Sample.emptied).getRegistration "vault" = some row ∧
      row.content = (Sample.renewal 2 "b").content := by
  have h := registrations_confluent Sample.emptied
    (show Commands "owner" "vault" [Sample.renewal 1 "a", Sample.renewal 2 "b"] from
      ⟨by decide, by decide⟩) (by decide)
    (by decide) (by decide) (show ∀ a ∈ [(Sample.renewal 2 "b", some 2),
      (Sample.renewal 2 "b", none), (Sample.renewal 1 "a", none)], a.1 ∈ _ by decide) (by decide)
  exact h.1 (Sample.renewal 2 "b") (by decide) (by decide) (by decide)

end DeadMansVault.Notify
