-- SUMMARY: Legacy requests cannot reach signed rows, and how far the legacy window closes for good.
import DeadMansVault.Notify.Admission

/-!
# Registrations

The store of registrations takes two kinds of requests, and both may come to the
same rows. The runs below interleave any of them, with any bodies and secrets and
under any clock.
-/

namespace DeadMansVault.Notify

variable {host : Host} {cfg : Config}

/-! ## Downgrade resistance -/

/-- What a step with this activity may do to the store. -/
structure Activity.Resists (host : Host) (cfg : Config) (a : Activity) (s s' : Store) : Prop where
  /-- A signed attempt never falls back to a legacy operation. -/
  no_fallback : isSignedAttempt a.request.body = true → ∀ call ∈ a.call, call.isLegacy = false
  /-- Signed rows are out of the reach of a legacy request. -/
  keeps_signed : isSignedAttempt a.request.body = false → s.KeepsSigned s'
  signed_mode : cfg.mode = .signedRequired → isSignedAttempt a.request.body = false → s' = s
  legacy_mode : cfg.mode = .legacyOnly → isSignedAttempt a.request.body = true → s' = s
  /-- A legacy deregistration removes one row, and its body names it. -/
  dual_deregister : cfg.mode = .dualAccept → isSignedAttempt a.request.body = false →
    a.request.route = .deregister → s' = s ∨ ∃ value vault,
      a.request.body.get "vault" = some value ∧ host.bindText value = some vault ∧
        s' = s.delete fun row => row.vault = vault

theorem Server.step_resists {s : Server} {e : Event} {a : Activity} (hs : s.Admitted cfg)
    (h : (s.step host cfg e).2 = some a) :
    a.Resists host cfg s.store (s.step host cfg e).1.store := by
  rcases Server.step_activity hs h with ⟨hnone, hstore⟩ | ⟨call, now, dbFails, hadm, hcall, hstore⟩
  · rw [hstore]
    refine ⟨fun _ call hcall => ?_, fun _ => .refl _, fun _ _ => rfl, fun _ _ => rfl,
      fun _ _ _ => .inl rfl⟩
    rw [hnone] at hcall
    cases hcall
  · rw [hstore]
    have hlegacy := hadm.isLegacy
    have hmode := hadm.mode
    cases hsigned : isSignedAttempt a.request.body with
    | true =>
        rw [hsigned] at hlegacy hmode
        refine ⟨fun _ call' hcall' => ?_, ?_, ?_, fun hlegacyOnly _ => absurd hlegacyOnly hmode, ?_⟩
        · rw [hcall, Option.mem_some_iff] at hcall'
          rw [← hcall', hlegacy]
          rfl
        · simp [hsigned]
        · simp [hsigned]
        · simp [hsigned]
    | false =>
        rw [hsigned] at hlegacy hmode
        refine ⟨?_, fun _ => Call.apply_keepsSigned hlegacy now dbFails s.store,
          fun hsignedOnly _ => absurd hsignedOnly hmode, ?_, ?_⟩
        · simp [hsigned]
        · simp [hsigned]
        · intro hdual _ hroute
          cases call with
          | signedRegistration | signedDeregistration => cases hlegacy
          | legacyRegistration => cases hadm.2.2.symm.trans hroute
          | legacyDeregistrationByOwner => cases hadm.2.1.symm.trans hdual
          | legacyDeregistration value =>
              simp only [Call.apply]
              cases hvault : host.bindText value with
              | none => exact .inl rfl
              | some vault =>
                  rcases deleteLegacyRegistration_cases dbFails vault s.store with heq | ⟨_, -, -, heq⟩
                  · exact .inl heq
                  · exact .inr ⟨value, vault, hadm.2.2.2, hvault, heq⟩

/-! ### Requests that leave no trace -/

/-- A legacy request directed at the row of the vault while it is signed: its store
    transaction, once it comes to one, finds the row signed. A request that the closed
    window turns away comes to none. -/
def Activity.DirectedAt (host : Host) (vault : String) (s : Store) (a : Activity) : Prop :=
  isSignedAttempt a.request.body = false ∧ a.response ≠ some .windowExpired ∧
  ∀ call ∈ a.call, call.names host vault ∧
    ∃ row, s.getRegistration vault = some row ∧ row.isSigned = true

/-- The event is about one of these requests. -/
def Event.isOf (requests : List Nat) (e : Event) : Bool :=
  e.id.any (· ∈ requests)

/-- In the run, these requests are legacy requests directed at the signed row. -/
def Server.OnlyDirected (host : Host) (cfg : Config) (s : Server) (vault : String)
    (requests : List Nat) (es : List Event) : Prop :=
  ∀ pre e post, es = pre ++ e :: post → e.isOf requests = true →
    ∀ a ∈ ((s.run host cfg pre).step host cfg e).2,
      a.DirectedAt host vault (s.run host cfg pre).store

/-- The servers differ at most in the suspended handlers of these requests. -/
structure Server.Alike (requests : List Nat) (s s' : Server) : Prop where
  store : s.store = s'.store
  transition : s.transition = s'.transition
  suspended : s.suspended.filter (fun waiting => !decide (waiting.id ∈ requests)) =
    s'.suspended.filter (fun waiting => !decide (waiting.id ∈ requests))

namespace Server.Alike

variable {requests : List Nat} {s s' s'' : Server}

theorem refl (s : Server) : s.Alike requests s := ⟨rfl, rfl, rfl⟩

theorem symm (h : s.Alike requests s') : s'.Alike requests s :=
  ⟨h.store.symm, h.transition.symm, h.suspended.symm⟩

theorem trans (h : s.Alike requests s') (h' : s'.Alike requests s'') : s.Alike requests s'' :=
  ⟨h.store.trans h'.store, h.transition.trans h'.transition, h.suspended.trans h'.suspended⟩

theorem reply (h : s.Alike requests s') (id : Nat) (req : Request) (now : Int) (dbFails : Bool)
    (r : Reply) :
    (s.reply host cfg id req now dbFails r).1.Alike requests
      (s'.reply host cfg id req now dbFails r).1 := by
  cases r with
  | respond => exact h
  | run call => exact ⟨by simp [Server.reply, h.store], h.transition, h.suspended⟩
  | await call =>
      refine ⟨h.store, h.transition, ?_⟩
      simp only [Server.reply, List.filter_append, h.suspended]

/-- The same suspended handler is found for a request that is not among these. -/
theorem find (h : s.Alike requests s') {id : Nat} (hid : id ∉ requests) :
    s.suspended.find? (·.id = id) = s'.suspended.find? (·.id = id) := by
  have hfind : ∀ l : List Suspended, l.find? (·.id = id) =
      (l.filter fun waiting => !decide (waiting.id ∈ requests)).find? (·.id = id) := by
    intro l
    rw [List.find?_filter]
    congr 1
    funext waiting
    by_cases hwaiting : waiting.id = id
    · simp [hwaiting, hid]
    · simp [hwaiting]
  rw [hfind, h.suspended, ← hfind]

theorem step (h : s.Alike requests s') {e : Event} (he : e.isOf requests = false) :
    (s.step host cfg e).1.Alike requests (s'.step host cfg e).1 := by
  cases e with
  | arrive id req limits now dbFails =>
      obtain ⟨store, transition, suspended⟩ := s
      obtain ⟨store', transition', suspended'⟩ := s'
      obtain rfl : store = store' := h.store
      obtain rfl : transition = transition' := h.transition
      have hnext (t : Transition) :
          Server.Alike requests ⟨store, t, suspended⟩ ⟨store, t, suspended'⟩ :=
        ⟨rfl, rfl, h.suspended⟩
      exact (hnext _).reply id req now dbFails _
  | resume id verdict now dbFails =>
      have hid : id ∉ requests := by simpa [Event.isOf, Event.id] using he
      have hnext : Server.Alike requests
          { s with suspended := s.suspended.filter fun other => !decide (other.id = id) }
          { s' with suspended := s'.suspended.filter fun other => !decide (other.id = id) } := by
        refine ⟨h.store, h.transition, ?_⟩
        have hcomm (l : List Suspended) :
            (l.filter fun other => !decide (other.id = id)).filter
                (fun waiting => !decide (waiting.id ∈ requests)) =
              (l.filter fun waiting => !decide (waiting.id ∈ requests)).filter
                fun other => !decide (other.id = id) := by
          simp only [List.filter_filter, Bool.and_comm]
        rw [hcomm, hcomm, h.suspended]
      simp only [Server.step, h.find hid]
      split
      · exact h
      · exact hnext.reply id _ now dbFails _
  | observe now => exact ⟨h.store, by simp [Server.step, h.transition], h.suspended⟩
  | deleteRegistration | updateNotifyState | pruneNonces =>
      exact ⟨by simp [Server.step, h.store], h.transition, h.suspended⟩

end Server.Alike

theorem Server.reply_alike {s : Server} {vault : String} {requests : List Nat} {id : Nat}
    {req : Request} {now : Int} {dbFails : Bool} {r : Reply} (hid : id ∈ requests)
    (hadm : ∀ call ∈ r.call, call.Admitted cfg req)
    (hdirected : ∀ a ∈ (s.reply host cfg id req now dbFails r).2, a.DirectedAt host vault s.store) :
    s.Alike requests (s.reply host cfg id req now dbFails r).1 := by
  cases r with
  | respond => exact .refl s
  | run call =>
      obtain ⟨hunsigned, -, hcall⟩ := hdirected _ rfl
      obtain ⟨hnames, row, hrow, hsigned⟩ := hcall call rfl
      have hlegacy : call.isLegacy = true := by
        rw [(hadm call rfl).isLegacy, hunsigned]
        rfl
      exact ⟨(Call.apply_of_signed hlegacy hnames hrow hsigned now dbFails).symm, rfl, rfl⟩
  | await call =>
      refine ⟨rfl, rfl, ?_⟩
      simp [Server.reply, List.filter_append, hid]

/-- A request that is directed at the signed row leaves no trace but its own handler. -/
theorem Server.alike_of_directed {s : Server} {vault : String} {requests : List Nat} {e : Event}
    (hs : s.Admitted cfg) (he : e.isOf requests = true)
    (hdirected : ∀ a ∈ (s.step host cfg e).2, a.DirectedAt host vault s.store) :
    s.Alike requests (s.step host cfg e).1 := by
  cases e with
  | arrive id req limits now dbFails =>
      have hid : id ∈ requests := by simpa [Event.isOf, Event.id] using he
      rcases handle_transition host cfg limits now s.store req s.transition with hsame | hexpired
      · simp only [Server.step, hsame] at hdirected ⊢
        exact Server.reply_alike hid (handle_admitted limits now s.store s.transition) hdirected
      · simp only [Server.step, hexpired] at hdirected
        exact absurd rfl (hdirected _ rfl).2.1
  | resume id verdict now dbFails =>
      have hid : id ∈ requests := by simpa [Event.isOf, Event.id] using he
      simp only [Server.step] at hdirected ⊢
      split
      · exact .refl s
      next waiting hwaiting =>
        rw [hwaiting] at hdirected
        have hgone : s.Alike requests
            { s with suspended := s.suspended.filter fun other => !decide (other.id = id) } := by
          refine ⟨rfl, rfl, ?_⟩
          rw [List.filter_filter]
          refine List.filter_congr fun other _ => ?_
          by_cases hother : other.id = id
          · simp [hother, hid]
          · simp [hother]
        refine hgone.trans (Server.reply_alike hid ?_ hdirected)
        intro call hcall
        rw [proceed_call hcall]
        exact hs waiting (List.mem_of_find?_eq_some hwaiting)
  | observe | deleteRegistration | updateNotifyState | pruneNonces => cases he

theorem Server.OnlyDirected.tail {s : Server} {vault : String} {requests : List Nat} {e : Event}
    {es : List Event} (h : s.OnlyDirected host cfg vault requests (e :: es)) :
    (s.step host cfg e).1.OnlyDirected host cfg vault requests es := by
  intro pre e' post hes
  exact h (e :: pre) e' post (by rw [hes]; rfl)

/-- The run without these requests ends alike. -/
theorem Server.OnlyDirected.alike {s s' : Server} {vault : String} {requests : List Nat}
    {es : List Event} (hs : s.Admitted cfg) (h : s.OnlyDirected host cfg vault requests es)
    (halike : s.Alike requests s') :
    (s.run host cfg es).Alike requests
      (s'.run host cfg (es.filter fun e => !e.isOf requests)) := by
  induction es generalizing s s' with
  | nil => exact halike
  | cons e es ih =>
      rw [Server.run_cons]
      cases he : e.isOf requests with
      | true =>
          have hhead := Server.alike_of_directed hs he (h [] e es rfl he)
          rw [List.filter_cons_of_neg (by simp [he])]
          exact ih (hs.step e) h.tail (hhead.symm.trans halike)
      | false =>
          rw [List.filter_cons_of_pos (by simp [he]), Server.run_cons]
          exact ih (hs.step e) h.tail (halike.step he)

/-- The legacy path is no way around a signed row: not in a step of any run, and not for
    any requests directed at it, without which the run would have ended with the same row. -/
theorem downgrade_resistance (host : Host) (cfg : Config) (store : Store) :
    (∀ es e a, a ∈ (((Server.start store).run host cfg es).step host cfg e).2 →
      a.Resists host cfg ((Server.start store).run host cfg es).store
        (((Server.start store).run host cfg es).step host cfg e).1.store) ∧
    ∀ vault requests es es',
      (Server.start store).OnlyDirected host cfg vault requests es →
      (Server.start store).OnlyDirected host cfg vault requests es' →
      (es.filter fun e => !e.isOf requests) = (es'.filter fun e => !e.isOf requests) →
      ((Server.start store).run host cfg es).store.getRegistration vault =
        ((Server.start store).run host cfg es').store.getRegistration vault := by
  have hstart := Server.start_admitted cfg store
  refine ⟨fun es e a ha => Server.step_resists (hstart.run host es) ha, ?_⟩
  intro vault requests es es' hes hes' hsame
  have h := hes.alike hstart (.refl _)
  have h' := hes'.alike hstart (.refl _)
  rw [hsame] at h
  rw [h.store, h'.store]

/-! ### A sample server -/

namespace Sample

/-- A host whose texts are all keys and whose signatures all fail. -/
def sampleHost : Host where
  isPubkey
    | .string _ => true
    | _ => false
  canonicalPubkey _ := true
  number
    | some (.number n) => some n
    | _ => none
  sha256Hex _ := ""
  findVaultPda _ _ := none
  bs58Decode _ := none
  bs58Encode _ := ""
  verifyEd25519 _ _ _ := false
  bindText
    | .string s => some s
    | _ => none

/-- Legacy requests are accepted before 100. -/
def dualConfig : Config where
  mode := .dualAccept
  legacyAcceptUntil := some 100
  expected := { cluster := "devnet", programId := "dmv", audience := notifyAudience }
  registerSecret := "secret"

/-- What a signed registration has stored. -/
def signedRow : Row where
  vault := "vault"
  owner := "owner"
  deviceToken := "fedcba9876543210fedcba9876543210"
  stage1 := 1
  stage2 := 1
  stage3 := 1
  lastStage := 0
  lastNotifiedAt := 0
  createdAt := 10
  updatedAt := 10
  authVersion := 2
  registrationRevision := 1
  deviceTokenHash := some (String.ofList (List.replicate 64 '0'))
  signedAt := some 10
  migrationStatus := .signed
  lastAuthOp := some "register"

def emptyStore : Store := ⟨[], List.nodup_nil, []⟩

def signedStore : Store := ⟨[signedRow], by simp, []⟩

def deregisterBody : Body := [("vault", .string "vault")]

def deregisterRequest : Request := ⟨.deregister, deregisterBody, some "secret"⟩

def deregister : Event := .arrive 1 deregisterRequest ⟨true, true⟩ 50 false

end Sample

theorem downgrade_resistance_sample :
    ((Server.start Sample.signedStore).run Sample.sampleHost Sample.dualConfig
        [Sample.deregister]).store.getRegistration "vault" = some Sample.signedRow := by
  have h := (downgrade_resistance Sample.sampleHost Sample.dualConfig Sample.signedStore).2 "vault" [1]
    [Sample.deregister] [] ?_ ?_ ?_
  · rw [h]
    rfl
  · intro pre e post hsplit he a ha
    have hstep : ((Server.start Sample.signedStore).step Sample.sampleHost Sample.dualConfig
        Sample.deregister).2 = some ⟨Sample.deregisterRequest,
          some (.legacyDeregistration (.string "vault")),
          some (.failed .signedAuthorizationRequired)⟩ := rfl
    obtain ⟨rfl, rfl, rfl⟩ : pre = [] ∧ e = Sample.deregister ∧ post = [] := by
      cases pre with
      | nil => simp_all
      | cons => simp at hsplit
    obtain rfl := Option.some.inj (hstep.symm.trans ha)
    refine ⟨rfl, nofun, fun call hcall => ?_⟩
    obtain rfl := Option.some.inj hcall
    exact ⟨rfl, Sample.signedRow, rfl, rfl⟩
  · intro pre e post hsplit
    simp at hsplit
  · rfl

/-! ## The legacy window -/

/-- The clock is at the end of the window, or past it. -/
def Config.expired (cfg : Config) (now : Int) : Bool :=
  decide (cfg.mode = .dualAccept) && cfg.legacyAcceptUntil.any fun deadline => decide (deadline ≤ now)

/-- The event observes the window, and finds it over. -/
def Event.expires (cfg : Config) : Event → Bool
  | arrive _ req limits now _ =>
    limits.ip && limits.facets && !isSignedAttempt req.body && cfg.expired now
  | observe now => cfg.expired now
  | _ => false

/-- No handler of a legacy registration awaits the ownership of its vault. -/
def Server.NoLegacySuspended (s : Server) : Prop :=
  ∀ waiting ∈ s.suspended, waiting.call.isLegacy = false

/-- Whenever a step of the run closes the latch, no legacy handler is suspended. -/
def Server.Drained (host : Host) (cfg : Config) (s : Server) (es : List Event) : Prop :=
  ∀ pre e post, es = pre ++ e :: post → e.expires cfg = true →
    (s.run host cfg pre).transition.expiredLatched = false → (s.run host cfg pre).NoLegacySuspended

theorem Server.Drained.tail {s : Server} {e : Event} {es : List Event}
    (h : s.Drained host cfg (e :: es)) : (s.step host cfg e).1.Drained host cfg es := by
  intro pre e' post hes
  exact h (e :: pre) e' post (by rw [hes]; rfl)

theorem Transition.observe_expiredLatched (cfg : Config) (now : Int) (t : Transition) :
    (t.observe cfg now).expiredLatched = (t.expiredLatched || cfg.expired now) := by
  unfold Transition.observe Config.expired
  cases hlatched : t.expiredLatched with
  | true => simp [hlatched]
  | false =>
      split
      next h => simp [h]
      next h =>
        by_cases hmode : cfg.mode = .dualAccept
        · have hnot := fun hany => h ⟨hmode, rfl, hany⟩
          simp [hmode, hlatched, Bool.eq_false_of_not_eq_true hnot]
        · simp [hmode, hlatched]

/-- The latch in force: a legacy request that finds it closed gets no further. -/
theorem Transition.get_latched {now : Int} {t : Transition} (hdual : cfg.mode = .dualAccept)
    (h : (t.observe cfg now).expiredLatched = true) : (t.get cfg now).2.legacyAccepting = false := by
  simp [Transition.get, hdual, h]

section Latch

variable {limits : Limits} {now : Int} {store : Store} {t : Transition} {req : Request} {s : Server}

theorem handle_expiredLatched :
    (handle host cfg limits now store req t).1.expiredLatched =
      (t.expiredLatched || (limits.ip && limits.facets && !isSignedAttempt req.body &&
        cfg.expired now)) := by
  unfold handle
  split
  next hip => simp [hip]
  · split
    next hfacets => simp [hfacets]
    next hip hfacets =>
      rw [Bool.not_eq_false] at hip hfacets
      split
      next hsigned => simp [hsigned]
      next hunsigned =>
        rw [Bool.not_eq_true] at hunsigned
        split
        next hmode => simp [Config.expired, hmode]
        · have hobserve := Transition.observe_expiredLatched cfg now t
          rw [hip, hfacets, hunsigned, Bool.not_false, Bool.and_self, Bool.true_and, Bool.true_and,
            ← hobserve]
          dsimp only
          repeat' split
          all_goals rfl

theorem Server.step_expiredLatched (e : Event) :
    (s.step host cfg e).1.transition.expiredLatched =
      (s.transition.expiredLatched || e.expires cfg) := by
  have hreply (s : Server) (id req now dbFails r) :
      (s.reply host cfg id req now dbFails r).1.transition = s.transition := by
    cases r <;> rfl
  cases e with
  | arrive id req limits now dbFails =>
      simp only [Server.step, hreply]
      exact handle_expiredLatched
  | resume id verdict now dbFails =>
      simp only [Server.step, Event.expires, Bool.or_false]
      split
      · rfl
      · rw [hreply]
  | observe now => exact Transition.observe_expiredLatched cfg now s.transition
  | deleteRegistration | updateNotifyState | pruneNonces =>
      simp [Server.step, Event.expires]

/-- Behind the latch a legacy request is answered at once. -/
theorem handle_latched (hdual : cfg.mode = .dualAccept) (hlegacy : isSignedAttempt req.body = false)
    (h : (handle host cfg limits now store req t).1.expiredLatched = true) :
    (handle host cfg limits now store req t).2.call = none := by
  unfold handle at h ⊢
  rw [hlegacy] at h ⊢
  split
  · rfl
  next hip =>
    split
    · rfl
    next hfacets =>
      rw [if_neg hip, if_neg hfacets, if_neg Bool.false_ne_true, if_neg (by simp [hdual])] at h
      rw [if_neg Bool.false_ne_true, if_neg (by simp [hdual])]
      have hobserve : (t.observe cfg now).expiredLatched = true := by
        dsimp only at h
        repeat' split at h
        all_goals exact h
      dsimp only
      rw [if_pos (Transition.get_latched hdual hobserve)]
      rfl

/-- A step that leaves the latch closed suspends no handler of a legacy registration. -/
theorem Server.NoLegacySuspended.step (hdual : cfg.mode = .dualAccept)
    (hquiet : s.NoLegacySuspended) {e : Event}
    (hlatched : (s.step host cfg e).1.transition.expiredLatched = true) :
    (s.step host cfg e).1.NoLegacySuspended := by
  have hreply (s : Server) (id req now dbFails) (r : Reply) (hs : s.NoLegacySuspended)
      (hr : ∀ call ∈ r.call, call.isLegacy = false) :
      (s.reply host cfg id req now dbFails r).1.NoLegacySuspended := by
    cases r with
    | respond | run => exact hs
    | await call =>
        intro waiting hwaiting
        rcases List.mem_append.mp hwaiting with hold | hnew
        · exact hs waiting hold
        · rw [List.mem_singleton.mp hnew]
          exact hr call rfl
  cases e with
  | arrive id req limits now dbFails =>
      refine hreply { s with transition := (handle host cfg limits now s.store req s.transition).1 }
        id req now dbFails (handle host cfg limits now s.store req s.transition).2 hquiet ?_
      intro call hcall
      rw [(handle_admitted limits now s.store s.transition call hcall).isLegacy]
      cases hsigned : isSignedAttempt req.body with
      | true => rfl
      | false =>
          have hhandle : (handle host cfg limits now s.store req s.transition).1.expiredLatched = true := by
            rw [handle_expiredLatched]
            rw [Server.step_expiredLatched] at hlatched
            exact hlatched
          rw [handle_latched hdual hsigned hhandle] at hcall
          cases hcall
  | resume id verdict now dbFails =>
      simp only [Server.step] at hlatched ⊢
      split
      · exact hquiet
      next waiting hwaiting =>
        refine hreply _ id _ now dbFails _ (fun other hother => ?_) (fun call hcall => ?_)
        · exact hquiet other (List.mem_filter.mp hother).1
        · rw [proceed_call hcall]
          exact hquiet waiting (List.mem_of_find?_eq_some hwaiting)
  | observe | deleteRegistration | updateNotifyState | pruneNonces => exact hquiet

/-- If no legacy handler is suspended when the latch closes, none is ever after. -/
theorem Server.Drained.noLegacySuspended {es : List Event} (hdual : cfg.mode = .dualAccept)
    (h : s.Drained host cfg es)
    (hquiet : s.transition.expiredLatched = true → s.NoLegacySuspended)
    (hlatched : (s.run host cfg es).transition.expiredLatched = true) :
    (s.run host cfg es).NoLegacySuspended := by
  induction es generalizing s with
  | nil => exact hquiet hlatched
  | cons e es ih =>
      refine ih h.tail (fun hnext => ?_) hlatched
      refine Server.NoLegacySuspended.step hdual ?_ hnext
      cases hnow : s.transition.expiredLatched with
      | true => exact hquiet hnow
      | false =>
          rw [Server.step_expiredLatched, hnow, Bool.false_or] at hnext
          exact h [] e es rfl hnext hnow

end Latch

theorem legacy_window_closes (host : Host) (cfg : Config) (hdual : cfg.mode = .dualAccept)
    (store : Store) (es : List Event) (e : Event) (a : Activity)
    (hdrained : (Server.start store).Drained host cfg es)
    (hlatched : ((Server.start store).run host cfg es).transition.expiredLatched = true)
    (ha : a ∈ (((Server.start store).run host cfg es).step host cfg e).2)
    (hlegacy : isSignedAttempt a.request.body = false) :
    (((Server.start store).run host cfg es).step host cfg e).1.store =
      ((Server.start store).run host cfg es).store := by
  have hquiet := hdrained.noLegacySuspended hdual nofun hlatched
  have hadmitted := (Server.start_admitted cfg store).run host es
  generalize (Server.start store).run host cfg es = s at *
  cases e with
  | arrive id req limits now dbFails =>
      have hactivity := Server.reply_activity
        (s := { s with transition := (handle host cfg limits now s.store req s.transition).1 })
        (r := (handle host cfg limits now s.store req s.transition).2) ha
      obtain ⟨hreq, ⟨-, hstore⟩ | ⟨call, hcall, -⟩⟩ := hactivity
      · exact hstore
      · have hhandle : (handle host cfg limits now s.store req s.transition).1.expiredLatched = true := by
          rw [handle_expiredLatched, hlatched, Bool.true_or]
        rw [hreq] at hlegacy
        rw [handle_latched hdual hlegacy hhandle] at hcall
        cases hcall
  | resume id verdict now dbFails =>
      simp only [Server.step] at ha ⊢
      split at ha
      · cases ha
      next waiting hwaiting =>
        obtain ⟨hreq, ⟨-, hstore⟩ | ⟨call, hcall, -⟩⟩ := Server.reply_activity ha
        · exact hstore
        · have hmem := List.mem_of_find?_eq_some hwaiting
          have hkind := (hadmitted waiting hmem).isLegacy
          rw [hquiet waiting hmem, ← hreq, hlegacy] at hkind
          cases hkind
  | observe | deleteRegistration | updateNotifyState | pruneNonces => cases ha

/-! The window closes for good in the sample, and it does not when a registration is
suspended across its end. -/

namespace Sample

def registerRequest : Request where
  route := .register
  body := [("owner", .string "owner"), ("vault", .string "vault"),
    ("deviceToken", .string "0123456789"), ("stage1", .number 1), ("stage2", .number 1),
    ("stage3", .number 1)]
  secret := some "secret"

def register (now : Int) : Event := .arrive 2 registerRequest ⟨true, true⟩ now false

def resumed : Event := .resume 2 .owned 160 false

end Sample

theorem legacy_window_closes_sample :
    (((Server.start Sample.emptyStore).run Sample.sampleHost Sample.dualConfig [.observe 150]).step
      Sample.sampleHost Sample.dualConfig (Sample.register 50)).1.store = Sample.emptyStore := by
  refine legacy_window_closes Sample.sampleHost Sample.dualConfig rfl Sample.emptyStore [.observe 150]
    (Sample.register 50) ⟨Sample.registerRequest, none, some .windowExpired⟩ ?_ rfl rfl rfl
  intro pre e post hsplit _ _
  cases pre with
  | nil => exact nofun
  | cons => simp at hsplit

theorem legacy_window_closes_fails :
    ¬ ∀ (host : Host) (cfg : Config) (store : Store) (es : List Event) (e : Event) (a : Activity),
      cfg.mode = .dualAccept →
      ((Server.start store).run host cfg es).transition.expiredLatched = true →
      a ∈ (((Server.start store).run host cfg es).step host cfg e).2 →
      isSignedAttempt a.request.body = false →
      (((Server.start store).run host cfg es).step host cfg e).1.store =
        ((Server.start store).run host cfg es).store := by
  intro h
  -- It arrives at 50, the window ends, and its verdict comes at 160.
  have hsame := h Sample.sampleHost Sample.dualConfig Sample.emptyStore [Sample.register 50, .observe 150]
    Sample.resumed _ rfl rfl rfl rfl
  have hrows := congrArg (fun store : Store => store.rows.length) hsame
  exact absurd hrows (by decide)

end DeadMansVault.Notify
