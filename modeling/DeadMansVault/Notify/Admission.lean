-- SUMMARY: Which requests come to which store operations, and what the legacy operations leave alone.
import DeadMansVault.Notify.Routes

/-!
# Admission

Every store operation of a run is one that its request was admitted to when it
arrived, however long its handler was suspended since then. The legacy operations
look at the row once more, in their own transaction.
-/

namespace DeadMansVault.Notify

variable {host : Host} {cfg : Config} {req : Request}

/-- The operation is one on the row of this vault. -/
def Call.names (host : Host) (vault : String) : Call → Prop
  | signedRegistration cmd => cmd.vault = vault
  | signedDeregistration cmd => cmd.vault = vault
  | legacyRegistration _ v .. => host.bindText v = some vault
  | legacyDeregistration v => host.bindText v = some vault
  | legacyDeregistrationByOwner _ => False

/-! ## The legacy operations -/

@[simp] theorem LegacyRegistration.fresh_vault (cmd : LegacyRegistration) :
    cmd.fresh.vault = cmd.vault := rfl

@[simp] theorem LegacyRegistration.renew_vault (cmd : LegacyRegistration) (row : Row) :
    (cmd.renew row).vault = row.vault := rfl

/-- What a legacy registration does: nothing, or an insertion, or an update of a row that is
    not signed. -/
theorem applyLegacyRegistration_cases (dbFails : Bool) (cmd : LegacyRegistration) (s : Store) :
    (applyLegacyRegistration dbFails cmd s).1 = s ∨
    (∃ h : s.getRegistration cmd.fresh.vault = none,
      (applyLegacyRegistration dbFails cmd s).1 = s.insert cmd.fresh h) ∨
    ∃ row, s.getRegistration cmd.vault = some row ∧ row.isSigned = false ∧
      (applyLegacyRegistration dbFails cmd s).1 = s.update cmd.vault cmd.renew cmd.renew_vault := by
  unfold applyLegacyRegistration transaction
  split
  · exact .inl rfl
  · beta_reduce
    split
    next hnone => exact .inr (.inl ⟨hnone, rfl⟩)
    next row hrow =>
      split
      · exact .inl rfl
      next hunsigned => exact .inr (.inr ⟨row, hrow, Bool.eq_false_of_not_eq_true hunsigned, rfl⟩)

theorem deleteLegacyRegistration_cases (dbFails : Bool) (vault : String) (s : Store) :
    (deleteLegacyRegistration dbFails vault s).1 = s ∨
    ∃ row, s.getRegistration vault = some row ∧ row.isSigned = false ∧
      (deleteLegacyRegistration dbFails vault s).1 = s.delete fun row => row.vault = vault := by
  unfold deleteLegacyRegistration transaction
  split
  · exact .inl rfl
  · beta_reduce
    split
    · exact .inl rfl
    next row hrow =>
      split
      · exact .inl rfl
      next hunsigned => exact .inr ⟨row, hrow, Bool.eq_false_of_not_eq_true hunsigned, rfl⟩

/-- Every signed row of the first store is in the second, as it was. -/
def Store.KeepsSigned (s s' : Store) : Prop :=
  ∀ vault row, s.getRegistration vault = some row → row.isSigned = true →
    s'.getRegistration vault = some row

theorem Store.KeepsSigned.refl (s : Store) : s.KeepsSigned s :=
  fun _ _ hrow _ => hrow

theorem applyLegacyRegistration_keepsSigned (dbFails : Bool) (cmd : LegacyRegistration) (s : Store) :
    s.KeepsSigned (applyLegacyRegistration dbFails cmd s).1 := by
  intro vault row hrow hsigned
  rcases applyLegacyRegistration_cases dbFails cmd s with heq | ⟨hnone, heq⟩ |
    ⟨old, hold, hunsigned, heq⟩
  · rw [heq]
    exact hrow
  · have hne : vault ≠ cmd.fresh.vault := by
      rintro rfl
      cases hnone.symm.trans hrow
    rw [heq, Store.getRegistration_insert, if_neg hne]
    exact hrow
  · have hne : vault ≠ cmd.vault := by
      rintro rfl
      obtain rfl := Option.some.inj (hold.symm.trans hrow)
      rw [hsigned] at hunsigned
      cases hunsigned
    rw [heq, Store.getRegistration_update, if_neg hne]
    exact hrow

theorem deleteLegacyRegistration_keepsSigned (dbFails : Bool) (vault : String) (s : Store) :
    s.KeepsSigned (deleteLegacyRegistration dbFails vault s).1 := by
  intro vault' row hrow hsigned
  rcases deleteLegacyRegistration_cases dbFails vault s with heq | ⟨old, hold, hunsigned, heq⟩
  · rw [heq]
    exact hrow
  · have hne : row.vault ≠ vault := by
      intro hvault
      rw [(Store.getRegistration_eq_some.mp hrow).2] at hvault
      rw [hvault] at hrow
      obtain rfl := Option.some.inj (hold.symm.trans hrow)
      rw [hsigned] at hunsigned
      cases hunsigned
    rw [heq, Store.getRegistration_delete, hrow]
    simp [hne]

theorem deleteLegacyRegistrationsByOwner_keepsSigned (dbFails : Bool) (owner : String) (s : Store) :
    s.KeepsSigned (deleteLegacyRegistrationsByOwner dbFails owner s).1 := by
  intro vault row hrow hsigned
  unfold deleteLegacyRegistrationsByOwner transaction
  split
  · exact hrow
  · -- The condition of the statement is the negation of `isSigned`.
    rw [Row.isSigned, Bool.or_eq_true, decide_eq_true_eq, decide_eq_true_eq] at hsigned
    have hkept : ¬ (row.authVersion < 2 ∧ row.migrationStatus ≠ .signed) := by
      rintro ⟨hversion, hstatus⟩
      rcases hsigned with h | h
      · omega
      · exact hstatus h
    rw [Store.getRegistration_delete, hrow]
    simp only [Option.filter_some, ite_eq_left_iff]
    intro hdeleted
    simp only [Bool.not_eq_true', Bool.not_eq_false, Bool.and_eq_true, decide_eq_true_eq] at hdeleted
    exact absurd ⟨hdeleted.1.2, hdeleted.2⟩ hkept

/-! ## Calls -/

/-- The store operation that a legacy call comes to, with its arguments as texts. -/
theorem Call.apply_legacy_cases {call : Call} (host : Host) (hlegacy : call.isLegacy = true)
    (now : Int) (dbFails : Bool) (s : Store) :
    (call.apply host now dbFails s).1 = s ∨
    (∃ cmd, call.names host cmd.vault ∧
      (call.apply host now dbFails s).1 = (applyLegacyRegistration dbFails cmd s).1) ∨
    (∃ vault, call.names host vault ∧
      (call.apply host now dbFails s).1 = (deleteLegacyRegistration dbFails vault s).1) ∨
    ∃ owner, (∀ vault, ¬ call.names host vault) ∧
      (call.apply host now dbFails s).1 = (deleteLegacyRegistrationsByOwner dbFails owner s).1 := by
  cases call with
  | signedRegistration | signedDeregistration => cases hlegacy
  | legacyRegistration owner vault token stage1 stage2 stage3 =>
      cases howner : host.bindText owner with
      | none => exact .inl (by simp [Call.apply, howner])
      | some o =>
          cases hvault : host.bindText vault with
          | none => exact .inl (by simp [Call.apply, howner, hvault])
          | some v =>
              refine .inr (.inl ⟨⟨o, v, token, stage1, stage2, stage3, now⟩, hvault, ?_⟩)
              simp [Call.apply, howner, hvault]
  | legacyDeregistration vault =>
      cases hvault : host.bindText vault with
      | none => exact .inl (by simp [Call.apply, hvault])
      | some v => exact .inr (.inr (.inl ⟨v, hvault, by simp [Call.apply, hvault]⟩))
  | legacyDeregistrationByOwner owner =>
      cases howner : host.bindText owner with
      | none => exact .inl (by simp [Call.apply, howner])
      | some o => exact .inr (.inr (.inr ⟨o, fun _ => not_false, by simp [Call.apply, howner]⟩))

/-- No legacy operation touches a signed row, whatever it is called with. -/
theorem Call.apply_keepsSigned {call : Call} (hlegacy : call.isLegacy = true) (now : Int)
    (dbFails : Bool) (s : Store) : s.KeepsSigned (call.apply host now dbFails s).1 := by
  rcases Call.apply_legacy_cases host hlegacy now dbFails s with
    heq | ⟨cmd, -, heq⟩ | ⟨vault, -, heq⟩ | ⟨owner, -, heq⟩
  · rw [heq]
    exact .refl s
  · rw [heq]
    exact applyLegacyRegistration_keepsSigned dbFails cmd s
  · rw [heq]
    exact deleteLegacyRegistration_keepsSigned dbFails vault s
  · rw [heq]
    exact deleteLegacyRegistrationsByOwner_keepsSigned dbFails owner s

theorem Call.names_unique {call : Call} {vault vault' : String} (h : call.names host vault)
    (h' : call.names host vault') : vault = vault' := by
  cases call with
  | signedRegistration | signedDeregistration => exact h.symm.trans h'
  | legacyRegistration | legacyDeregistration => exact Option.some.inj (h.symm.trans h')
  | legacyDeregistrationByOwner => exact absurd h not_false

/-- A legacy operation on the row of a vault changes nothing at all if that row is signed. -/
theorem Call.apply_of_signed {call : Call} {vault : String} {s : Store} {row : Row}
    (hlegacy : call.isLegacy = true) (hnames : call.names host vault)
    (hrow : s.getRegistration vault = some row) (hsigned : row.isSigned = true) (now : Int)
    (dbFails : Bool) : (call.apply host now dbFails s).1 = s := by
  rcases Call.apply_legacy_cases host hlegacy now dbFails s with
    heq | ⟨cmd, hcmd, heq⟩ | ⟨vault', hvault', heq⟩ | ⟨owner, hnone, heq⟩
  · exact heq
  · rw [heq]
    obtain rfl := Call.names_unique hnames hcmd
    rcases applyLegacyRegistration_cases dbFails cmd s with heq | ⟨hnone, -⟩ |
      ⟨old, hold, hunsigned, -⟩
    · exact heq
    · cases hnone.symm.trans hrow
    · obtain rfl := Option.some.inj (hold.symm.trans hrow)
      cases hunsigned.symm.trans hsigned
  · rw [heq]
    obtain rfl := Call.names_unique hnames hvault'
    rcases deleteLegacyRegistration_cases dbFails vault s with heq | ⟨old, hold, hunsigned, -⟩
    · exact heq
    · obtain rfl := Option.some.inj (hold.symm.trans hrow)
      cases hunsigned.symm.trans hsigned
  · exact absurd hnames (hnone vault)

/-! ## Admission -/

/-- What the handlers have checked of a request before they call the store for it. -/
def Call.Admitted (cfg : Config) (req : Request) : Call → Prop
  | signedRegistration _ | signedDeregistration _ =>
    isSignedAttempt req.body = true ∧ cfg.mode ≠ .legacyOnly
  | legacyRegistration .. =>
    isSignedAttempt req.body = false ∧ cfg.mode ≠ .signedRequired ∧ req.route = .register
  | legacyDeregistration vault =>
    isSignedAttempt req.body = false ∧ cfg.mode ≠ .signedRequired ∧ req.route = .deregister ∧
      req.body.get "vault" = some vault
  | legacyDeregistrationByOwner owner =>
    isSignedAttempt req.body = false ∧ cfg.mode = .legacyOnly ∧ req.route = .deregister ∧
      req.body.get "owner" = some owner

theorem Call.Admitted.isLegacy {call : Call} (h : call.Admitted cfg req) :
    call.isLegacy = !isSignedAttempt req.body := by
  cases call with
  | signedRegistration | signedDeregistration =>
      have hsigned : isSignedAttempt req.body = true := h.1
      rw [hsigned]
      rfl
  | legacyRegistration | legacyDeregistration | legacyDeregistrationByOwner =>
      have hunsigned : isSignedAttempt req.body = false := h.1
      rw [hunsigned]
      rfl

/-- In each mode, only the requests of that mode come to the store. -/
theorem Call.Admitted.mode {call : Call} (h : call.Admitted cfg req) :
    cfg.mode ≠ if isSignedAttempt req.body then .legacyOnly else .signedRequired := by
  cases call with
  | signedRegistration | signedDeregistration =>
      have hsigned : isSignedAttempt req.body = true := h.1
      rw [if_pos hsigned]
      exact h.2
  | legacyRegistration | legacyDeregistration =>
      have hunsigned : isSignedAttempt req.body = false := h.1
      rw [hunsigned]
      exact h.2.1
  | legacyDeregistrationByOwner =>
      have hunsigned : isSignedAttempt req.body = false := h.1
      have hmode : cfg.mode = .legacyOnly := h.2.1
      simp [hunsigned, hmode]

/-- The call that a reply makes, now or after its await. -/
def Reply.call : Reply → Option Call
  | respond _ => none
  | run call | await call => some call

theorem Transition.get_eq (now : Int) (t : Transition) :
    (t.get cfg now).1 = t ∨ (t.get cfg now).2.legacyAccepting = false := by
  by_cases hexpired : cfg.mode = .dualAccept ∧ t.expiredLatched = false ∧
      cfg.legacyAcceptUntil.any (fun deadline => decide (deadline ≤ now)) = true
  · refine .inr ?_
    simp [Transition.get, Transition.observe, hexpired]
  · refine .inl ?_
    simp only [Transition.get, Transition.observe, if_neg hexpired]

/-- A request that finds the window open leaves the latch as it is. -/
theorem handle_transition (host : Host) (cfg : Config) (limits : Limits) (now : Int) (store : Store)
    (req : Request) (t : Transition) :
    (handle host cfg limits now store req t).1 = t ∨
    (handle host cfg limits now store req t).2 = .respond .windowExpired := by
  unfold handle
  split
  · exact .inl rfl
  · split
    · exact .inl rfl
    · split
      · exact .inl rfl
      · split
        · exact .inl rfl
        · dsimp only
          split
          · exact .inr rfl
          next haccepting =>
            have heq := (Transition.get_eq now t).resolve_right haccepting
            split
            · exact .inl heq
            · exact .inl heq

theorem legacyRegister_admitted (hsigned : isSignedAttempt req.body = false)
    (hmode : cfg.mode ≠ .signedRequired) (hroute : req.route = .register) :
    ∀ call ∈ (legacyRegister host cfg req).call, call.Admitted cfg req := by
  intro call hcall
  unfold legacyRegister at hcall
  repeat' split at hcall
  all_goals cases hcall
  exact ⟨hsigned, hmode, hroute⟩

theorem legacyDeregister_admitted (hsigned : isSignedAttempt req.body = false)
    (hmode : cfg.mode ≠ .signedRequired) (hroute : req.route = .deregister) :
    ∀ call ∈ (legacyDeregister host cfg req).call, call.Admitted cfg req := by
  intro call hcall
  unfold legacyDeregister at hcall
  dsimp only at hcall
  split at hcall
  · cases hcall
  · split at hcall
    next hlegacy =>
      split at hcall
      next vault _ hvault =>
        cases hcall
        exact ⟨hsigned, hmode, hroute, (Option.filter_eq_some_iff.mp hvault).1⟩
      next owner _ howner =>
        cases hcall
        exact ⟨hsigned, hlegacy, hroute, (Option.filter_eq_some_iff.mp howner).1⟩
      · cases hcall
    · split at hcall
      next vault hvault =>
        cases hcall
        exact ⟨hsigned, hmode, hroute, (Option.filter_eq_some_iff.mp hvault).1⟩
      · cases hcall

theorem handle_admitted (limits : Limits) (now : Int) (store : Store) (t : Transition) :
    ∀ call ∈ (handle host cfg limits now store req t).2.call, call.Admitted cfg req := by
  intro call hcall
  unfold handle at hcall
  split at hcall
  · cases hcall
  · split at hcall
    · cases hcall
    · split at hcall
      next hsigned =>
        dsimp only at hcall
        split at hcall
        · cases hcall
        next hmode =>
          repeat' split at hcall
          all_goals
            cases hcall
          all_goals exact ⟨hsigned, hmode⟩
      next hunsigned =>
        have hunsigned := Bool.eq_false_of_not_eq_true hunsigned
        split at hcall
        · cases hcall
        next hmode =>
          dsimp only at hcall
          split at hcall
          · cases hcall
          · split at hcall
            next hroute => exact legacyRegister_admitted hunsigned hmode hroute call hcall
            next hroute => exact legacyDeregister_admitted hunsigned hmode hroute call hcall

/-- Every suspended handler has been admitted to the call that it will make. -/
def Server.Admitted (cfg : Config) (s : Server) : Prop :=
  ∀ waiting ∈ s.suspended, waiting.call.Admitted cfg waiting.request

section Step

variable {s : Server} {id : Nat} {now : Int} {dbFails : Bool} {r : Reply}

theorem Server.Admitted.reply (hs : s.Admitted cfg)
    (hreply : ∀ call ∈ r.call, call.Admitted cfg req) :
    (s.reply host cfg id req now dbFails r).1.Admitted cfg := by
  cases r with
  | respond | run => exact hs
  | await call =>
      intro waiting hwaiting
      rcases List.mem_append.mp hwaiting with hold | hnew
      · exact hs waiting hold
      · rw [List.mem_singleton.mp hnew]
        exact hreply call rfl

theorem Server.reply_activity {a : Activity}
    (h : (s.reply host cfg id req now dbFails r).2 = some a) :
    a.request = req ∧
    (a.call = none ∧ (s.reply host cfg id req now dbFails r).1.store = s.store ∨
      ∃ call ∈ r.call, a.call = some call ∧
        (s.reply host cfg id req now dbFails r).1.store = (call.apply host now dbFails s.store).1) := by
  cases r with
  | respond | await =>
      obtain rfl := Option.some.inj h
      exact ⟨rfl, .inl ⟨rfl, rfl⟩⟩
  | run call =>
      obtain rfl := Option.some.inj h
      exact ⟨rfl, .inr ⟨call, rfl, rfl, rfl⟩⟩

/-- A handler goes on with the call that it was suspended in, or not at all. -/
theorem proceed_call {verdict : OwnershipVerdict} {call call' : Call}
    (h : call' ∈ (proceed verdict call).call) : call' = call := by
  unfold proceed at h
  repeat' split at h
  all_goals cases h
  all_goals rfl

theorem Server.Admitted.step (hs : s.Admitted cfg) (e : Event) :
    (s.step host cfg e).1.Admitted cfg := by
  cases e with
  | arrive id req limits now dbFails =>
      exact Server.Admitted.reply hs (handle_admitted limits now s.store s.transition)
  | resume id verdict now dbFails =>
      unfold Server.step
      dsimp only
      split
      · exact hs
      next waiting hwaiting =>
        refine Server.Admitted.reply ?_ ?_
        · intro other hother
          exact hs other (List.mem_filter.mp hother).1
        · intro call hcall
          rw [proceed_call hcall]
          exact hs waiting (List.mem_of_find?_eq_some hwaiting)
  | observe | deleteRegistration | updateNotifyState | pruneNonces => exact hs

theorem Server.Admitted.run (hs : s.Admitted cfg) (host : Host) (es : List Event) :
    (s.run host cfg es).Admitted cfg := by
  induction es generalizing s with
  | nil => exact hs
  | cons e es ih => exact ih (hs.step e)

/-- What a step does for a request: nothing to the store, or an operation that the request
    was admitted to. -/
theorem Server.step_activity {e : Event} {a : Activity} (hs : s.Admitted cfg)
    (h : (s.step host cfg e).2 = some a) :
    a.call = none ∧ (s.step host cfg e).1.store = s.store ∨
    ∃ call now dbFails, call.Admitted cfg a.request ∧ a.call = some call ∧
      (s.step host cfg e).1.store = (call.apply host now dbFails s.store).1 := by
  cases e with
  | arrive id req limits now dbFails =>
      obtain ⟨hreq, hnone | ⟨call, hcall, hsome, hstore⟩⟩ := Server.reply_activity h
      · exact .inl hnone
      · rw [hreq]
        exact .inr ⟨call, now, dbFails, handle_admitted _ _ _ _ call hcall, hsome, hstore⟩
  | resume id verdict now dbFails =>
      unfold Server.step at h ⊢
      dsimp only at h ⊢
      split at h
      · cases h
      next waiting hwaiting =>
        obtain ⟨hreq, hnone | ⟨call, hcall, hsome, hstore⟩⟩ := Server.reply_activity h
        · exact .inl hnone
        · have hadmitted := hs waiting (List.mem_of_find?_eq_some hwaiting)
          rw [← proceed_call hcall, ← hreq] at hadmitted
          exact .inr ⟨call, now, dbFails, hadmitted, hsome, hstore⟩
  | observe | deleteRegistration | updateNotifyState | pruneNonces => cases h

end Step

/-- The server when it comes up: the registrations are those of earlier runs. -/
def Server.start (store : Store) : Server :=
  { store := store, transition := {}, suspended := [] }

theorem Server.start_admitted (cfg : Config) (store : Store) : (Server.start store).Admitted cfg := nofun

end DeadMansVault.Notify
