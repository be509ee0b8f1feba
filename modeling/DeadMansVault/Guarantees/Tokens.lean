-- SUMMARY: Whose registration a push can delete, with requests and poll cycles interleaved in any way.
import DeadMansVault.Guarantees.Escalation
import DeadMansVault.Guarantees.Nonces
import DeadMansVault.Notify.Cycles

/-!
# Device tokens

A pass sends to the device token that its cycle found, and when FCM reports that
token dead it deletes the vault's registration, whatever token that has by then.
-/

namespace DeadMansVault.Notify

variable {num : Arithmetic} {host : Host} {cfg : Config}

/-- The vault's registration, if there is one, has this device token. -/
def Store.HasToken (s : Store) (vault token : String) : Prop :=
  ∀ row, s.getRegistration vault = some row → row.deviceToken = token

/-- The step stores a registration of the vault with another token. -/
def Store.Supersedes (s s' : Store) (vault token : String) : Prop :=
  s.HasToken vault token ∧ ¬ s'.HasToken vault token

/-- Since the cycle has taken its registrations, one of the vault with another token has been
    stored. -/
def System.Superseded (num : Arithmetic) (host : Host) (cfg : Config) (s : System)
    (hs : List Happening) (cycle : Nat) (vault token : String) : Prop :=
  ∃ pre h post, hs = pre ++ h :: post ∧ cycle < (s.run num host cfg pre).started ∧
    (s.run num host cfg pre).server.store.Supersedes
      ((s.run num host cfg pre).step num host cfg h).1.server.store vault token

theorem System.Superseded.snoc {s : System} {hs : List Happening} {cycle : Nat}
    {vault token : String} (h : s.Superseded num host cfg hs cycle vault token) (e : Happening) :
    s.Superseded num host cfg (hs ++ [e]) cycle vault token := by
  obtain ⟨pre, e', post, rfl, hstarted, hsupersedes⟩ := h
  exact ⟨pre, e', post ++ [e], by simp, hstarted, hsupersedes⟩

/-- The registrations that the poller knows are those in the store, or superseded ones. -/
def System.Known (num : Arithmetic) (host : Host) (cfg : Config) (s₀ : System)
    (hs : List Happening) (s : System) : Prop :=
  ∀ cycle p, (cycle, p) ∈ s.watch → cycle < s.started ∧
    (s.server.store.HasToken p.row.vault p.row.deviceToken ∨
      s₀.Superseded num host cfg hs cycle p.row.vault p.row.deviceToken)

theorem System.Known.step {s₀ s : System} {hs : List Happening}
    (hk : System.Known num host cfg s₀ hs s) (hrun : s = s₀.run num host cfg hs) (h : Happening) :
    System.Known num host cfg s₀ (hs ++ [h]) (s.step num host cfg h).1 := by
  intro cycle p hp
  obtain ⟨hstarted, ⟨p₁, hold, hrow⟩ | ⟨rfl, hone, hserver, hrow⟩⟩ :=
    (s.step_moves num host cfg h).watch hp
  · obtain ⟨hcycle, hknown⟩ := hk cycle p₁ hold
    rw [hrow] at hknown
    refine ⟨by omega, ?_⟩
    rcases hknown with htoken | hsuperseded
    · by_cases hkeeps : (s.step num host cfg h).1.server.store.HasToken p.row.vault p.row.deviceToken
      · exact .inl hkeeps
      · refine .inr ⟨hs, h, [], rfl, ?_, ?_⟩
        · rwa [← hrun]
        · rw [← hrun]
          exact ⟨htoken, hkeeps⟩
    · exact .inr (hsuperseded.snoc h)
  · refine ⟨by omega, .inl fun row' hrow' => ?_⟩
    -- The store's rows are what the cycle has just taken.
    rw [hserver] at hrow'
    have hsame := Store.getRegistration_eq_some.mpr ⟨hrow, rfl⟩
    rw [Option.some.inj (hrow'.symm.trans hsame)]

theorem System.known_run (num : Arithmetic) (host : Host) (cfg : Config) (store : Store)
    (hs : List Happening) :
    System.Known num host cfg (System.start store) hs
      ((System.start store).run num host cfg hs) := by
  induction hs using List.reverseRecOn with
  | nil => exact fun cycle p hp => absurd hp List.not_mem_nil
  | append_singleton hs h ih =>
      rw [System.run_append]
      exact ih.step rfl h

/-- No deed gives a registration another token. -/
theorem Deed.apply_hasToken {vault vault' token : String} {s : Store}
    (h : s.HasToken vault' token) (deed : Deed) : (deed.apply vault s).HasToken vault' token := by
  cases deed with
  | request | submission => exact h
  | updateNotifyState lastStage lastNotifiedAt =>
      intro row hrow
      rw [Deed.apply, Store.updateNotifyState, Store.getRegistration_update] at hrow
      split at hrow
      · obtain ⟨row', hrow', rfl⟩ := Option.map_eq_some_iff.mp hrow
        exact h row' hrow'
      · exact h row hrow
  | deleteRegistration =>
      intro row hrow
      rw [Deed.apply, Store.deleteRegistration, Store.getRegistration_delete] at hrow
      exact h row (Option.filter_eq_some_iff.mp hrow).1

theorem Deed.foldl_hasToken {vault vault' token : String} {s : Store} (deeds : List Deed)
    (h : s.HasToken vault' token) :
    (deeds.foldl (fun store deed => deed.apply vault store) s).HasToken vault' token := by
  induction deeds generalizing s with
  | nil => exact h
  | cons deed deeds ih => exact ih (Deed.apply_hasToken h deed)

/-- A pass sends to the token that its cycle found, and it deletes no registration but one with
    this token, unless another one was stored for the vault since the cycle began. -/
theorem pass_deletes_own_token (num : Arithmetic) (host : Host) (cfg : Config) (store : Store)
    (hs : List Happening) (h : Happening) {stride : Stride} :
    let s := (System.start store).run num host cfg hs
    let s' := (s.step num host cfg h).1
    (s.step num host cfg h).2 = some stride →
    ¬ (System.start store).Superseded num host cfg hs stride.cycle stride.pass.row.vault
      stride.pass.row.deviceToken →
    (∀ token message, .request token message ∈ stride.turn.deeds →
      token = stride.pass.row.deviceToken) ∧
    ∀ vault row, s.server.store.getRegistration vault = some row →
      s'.server.store.getRegistration vault = none →
      vault = stride.pass.row.vault ∧ row.deviceToken = stride.pass.row.deviceToken := by
  intro s s' hstride hcurrent
  have hmoves := s.step_moves num host cfg h
  rw [hstride] at hmoves
  cases hmoves with
  | turn cycle p live m answer hp hstore =>
      refine ⟨fun token message hrequest => ?_, fun vault row hrow hgone => ?_⟩
      · have haccounts := p.resume_accounts num live m answer _ hrequest
        generalize (p.resume num live m answer).next = next at haccounts
        cases haccounts with
        | request => rfl
      · by_cases hvault : vault = p.row.vault
        · obtain ⟨-, htoken | hsuperseded⟩ :=
            System.known_run num host cfg store hs cycle p (hp ▸ by simp)
          · exact ⟨hvault, htoken row (hvault ▸ hrow)⟩
          · exact absurd hsuperseded hcurrent
        · have hkept := Deed.foldl_other hvault (p.resume num live m answer).deeds s.server.store
          rw [← hstore, hrow] at hkept
          cases hgone.symm.trans hkept

/-- Only a request supersedes a registration. -/
theorem System.Superseded.request {s : System} {hs : List Happening} {cycle : Nat}
    {vault token : String} (h : s.Superseded num host cfg hs cycle vault token) :
    ∃ e, .request e ∈ hs := by
  obtain ⟨pre, h, post, rfl, -, hsupersedes⟩ := h
  generalize s.run num host cfg pre = s₁ at hsupersedes
  have hmoves := s₁.step_moves num host cfg h
  generalize s₁.step num host cfg h = next at hmoves hsupersedes
  obtain ⟨s₂, stride⟩ := next
  cases hmoves with
  | request e heq => exact ⟨e, by simp [heq]⟩
  | idle hserver | start _ hserver =>
      rw [hserver] at hsupersedes
      exact absurd hsupersedes.1 hsupersedes.2
  | turn cycle p live m answer _ hstore =>
      refine absurd (hstore ▸ ?_) hsupersedes.2
      exact Deed.foldl_hasToken _ hsupersedes.1

/-! The owner registers a new device while a push to the old one is under way. -/

namespace Sample

/-- Every dependency is ready. -/
def fair : Moment := ⟨true, false, false, true, nofun⟩

/-- A vault whose heartbeat has been due for a second. -/
def dueState : VaultState := ⟨some watchedVault, some 3599⟩

/-- A push to the old device, up to its request. -/
def pushStarted : List Happening :=
  [.pollNow 90000000 true, .take 0 fair, .resume 0 fair (.state (some dueState)) false,
    .resume 0 fair (.token true) false]

/-- The new device's registration. -/
def registeredMeanwhile : List Happening :=
  [.request (.arrive 1 ⟨.register, signedBody "register" 90000 firstNonce, none⟩ ⟨true, true⟩ 90001
      false),
    .request (.resume 1 .owned 90002 false)]

def notFound : Happening := .resume 0 fair (.response (some 404)) false

def reportedDead : Happening := .resume 0 fair (.body (some "UNREGISTERED")) false

def poll (hs : List Happening) : System :=
  (System.start signedStore).run exactArithmetic trustingHost dualConfig hs

end Sample

theorem pass_deletes_own_token_sample :
    ((Sample.poll (Sample.pushStarted ++ [Sample.notFound])).step Sample.exactArithmetic
      Sample.trustingHost Sample.dualConfig Sample.reportedDead).2.map
        (fun stride => stride.pass.row.deviceToken) = some Sample.signedRow.deviceToken := by
  obtain ⟨stride, hstride⟩ := Option.isSome_iff_exists.mp (show
    ((Sample.poll (Sample.pushStarted ++ [Sample.notFound])).step Sample.exactArithmetic
      Sample.trustingHost Sample.dualConfig Sample.reportedDead).2.isSome = true by decide +kernel)
  have hquiet : ¬ (System.start Sample.signedStore).Superseded Sample.exactArithmetic Sample.trustingHost
      Sample.dualConfig (Sample.pushStarted ++ [Sample.notFound]) stride.cycle stride.pass.row.vault
        stride.pass.row.deviceToken := by
    intro hsuperseded
    obtain ⟨e, he⟩ := hsuperseded.request
    simp [Sample.pushStarted, Sample.notFound] at he
  have h := pass_deletes_own_token Sample.exactArithmetic Sample.trustingHost Sample.dualConfig
    Sample.signedStore (Sample.pushStarted ++ [Sample.notFound]) Sample.reportedDead hstride hquiet
  obtain ⟨-, htoken⟩ := h.2 "vault" Sample.signedRow (by decide +kernel) (by decide +kernel)
  rw [hstride, Option.map_some, htoken]

/-- The registration of the new device goes when the old one is reported dead. -/
theorem pass_deletes_own_token_fails :
    let s := Sample.poll (Sample.pushStarted ++ Sample.registeredMeanwhile ++ [Sample.notFound])
    let next := s.step Sample.exactArithmetic Sample.trustingHost Sample.dualConfig Sample.reportedDead
    (s.server.store.getRegistration "vault").map (·.deviceToken) =
      some "0123456789abcdef0123456789abcdef" ∧
    next.2.map (fun stride => (stride.pass.row.deviceToken, stride.turn.deeds)) =
      some ("fedcba9876543210fedcba9876543210", [.deleteRegistration]) ∧
    next.1.server.store.getRegistration "vault" = none := by
  decide +kernel

end DeadMansVault.Notify
