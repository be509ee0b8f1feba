-- SUMMARY: What a turn of a pass can do to the outside and why, and what holds of a pass while it waits.
import DeadMansVault.Notify.Pass

/-!
# Turns

Everything about the runs of a pass follows from what one turn can do. A turn
has a cause for each of its deeds, and if one of them changes the registration,
the pass ends with it. While a pass waits, it knows what it has read.
-/

namespace DeadMansVault.Notify

variable {num : Arithmetic} {live : Bool} {m : Moment} {p : Pass} {answer : Answer}

/-! ## Causes -/

/-- Why a turn does what it does, and how it ends then. -/
inductive Pass.Causes (num : Arithmetic) (live : Bool) (m : Moment) (p : Pass) (answer : Answer) :
    Deed → Next → Prop
  | request {notice : Notice} {message : Message} :
      live = true → m.networkVerified = true → p.phase = .sending notice message .token →
      Causes num live m p answer (.request p.row.deviceToken message)
        (.wait { p with phase := .sending notice message .response })
  | submission :
      live = true → m.executorReady = true → Causes num live m p answer .submission (.wait p)
  /-- The vault is not overdue. -/
  | reset {state : VaultState} {config : VaultConfig} {lastHeartbeat : Int} :
      live = true → m.networkVerified = true → p.phase = .reading → answer = .state (some state) →
      state.config = some config → ¬ (config.active = false ∨ config.executed = true) →
      state.lastHeartbeat = some lastHeartbeat →
      (computeStage num lastHeartbeat config.heartbeatInterval p.row.stages p.now).stage = 0 →
      Causes num live m p answer (.updateNotifyState 0 0) (.finish .normal)
  /-- The vault is gone, and the program is not. -/
  | missing :
      live = true → m.networkVerified = true → p.phase = .probing → answer = .program (some true) →
      Causes num live m p answer .deleteRegistration (.finish .deregisteredMissing)
  | inactive {state : VaultState} {config : VaultConfig} :
      live = true → m.networkVerified = true → p.phase = .reading → answer = .state (some state) →
      state.config = some config → config.active = false ∨ config.executed = true →
      Causes num live m p answer .deleteRegistration (.finish .deregisteredInactive)
  | delivered {stage : Nat} {message : Message} {status : Nat} {code : Option String} :
      p.phase = .sending (.stage stage) message (.body status) → answer = .body code →
      sendResult status code = .ok →
      Causes num live m p answer (.updateNotifyState stage p.now) (.finish .sent)
  | completed {message : Message} {status : Nat} {code : Option String} :
      p.phase = .sending .complete message (.body status) → answer = .body code →
      sendResult status code = .ok →
      Causes num live m p answer .deleteRegistration (.finish .deregisteredInactive)
  /-- The device token is dead. -/
  | dead {notice : Notice} {message : Message} {status : Nat} {code : Option String} :
      p.phase = .sending notice message (.body status) → answer = .body code →
      sendResult status code = .unregistered →
      Causes num live m p answer .deleteRegistration
        (.finish (if notice = .complete then .deregisteredInactive else .deregisteredUnregistered))

theorem Pass.settle_failed (p : Pass) (notice : Notice) :
    p.settle notice .failed = { next := .finish .sendFailed } := by
  cases notice <;> rfl

theorem Pass.settle_suppressed (p : Pass) (notice : Notice) :
    p.settle notice .suppressed = { next := .finish .netUnverified } := by
  cases notice <;> rfl

/-- `sendPush` and `remind` come to an await of `sendPush`, or end the pass without a deed. -/
theorem Pass.sendPush_cases (m : Moment) (p : Pass) (notice : Notice) (message : Message) :
    (∃ action, p.sendPush m notice message = { next := .finish action }) ∨
    p.sendPush m notice message = { next := .wait { p with phase := .sending notice message .token } } := by
  unfold Pass.sendPush
  split
  · exact .inl ⟨_, p.settle_failed notice⟩
  · exact .inr rfl

theorem Pass.remind_cases (live : Bool) (m : Moment) (p : Pass) (escalation : Escalation) :
    (∃ action, p.remind live m escalation = { next := .finish action }) ∨
    (p.row.pushDue p.now escalation.stage ∧ ∃ message, p.remind live m escalation =
      { next := .wait { p with phase := .sending (.stage escalation.stage) message .token } }) := by
  unfold Pass.remind
  dsimp only
  split
  · exact .inl ⟨_, rfl⟩
  next hdue =>
    split
    · exact .inl ⟨_, rfl⟩
    · split
      · exact .inl ⟨_, rfl⟩
      · split
        · exact .inl ⟨_, rfl⟩
        · exact (p.sendPush_cases m _ _).imp_right fun h => ⟨not_not.mp hdue, _, h⟩

theorem Pass.sendPush_deeds (m : Moment) (p : Pass) (notice : Notice) (message : Message) :
    (p.sendPush m notice message).deeds = [] := by
  rcases p.sendPush_cases m notice message with ⟨action, h⟩ | h
  · rw [h]
  · rw [h]

theorem Pass.remind_deeds (live : Bool) (m : Moment) (p : Pass) (escalation : Escalation) :
    (p.remind live m escalation).deeds = [] := by
  rcases p.remind_cases live m escalation with ⟨action, h⟩ | ⟨-, message, h⟩
  · rw [h]
  · rw [h]

theorem Pass.dropInactive_cases (hverified : m.networkVerified = true) (p : Pass) (executed : Bool) :
    p.dropInactive m executed =
      { deeds := [.deleteRegistration], next := .finish .deregisteredInactive } ∨
    (executed = true ∧ p.row.lastStage = 4 ∧
      ∃ message, p.dropInactive m executed = p.sendPush m .complete message) := by
  unfold Pass.dropInactive
  rw [hverified]
  dsimp only
  split
  next hlast =>
    cases stageMessage "" .complete with
    | none => exact .inl rfl
    | some message => exact .inr ⟨hlast.1, hlast.2.1, message, rfl⟩
  · exact .inl rfl

/-- The turn has a cause for each of its deeds. -/
def Pass.Accounts (num : Arithmetic) (live : Bool) (m : Moment) (p : Pass) (answer : Answer)
    (turn : Turn) : Prop :=
  ∀ deed ∈ turn.deeds, p.Causes num live m answer deed turn.next

theorem Pass.Accounts.none {turn : Turn} (h : turn.deeds = []) :
    p.Accounts num live m answer turn := by
  intro deed hdeed
  rw [h] at hdeed
  cases hdeed

theorem Pass.Accounts.one {deed : Deed} {next : Next} (h : p.Causes num live m answer deed next) :
    p.Accounts num live m answer { deeds := [deed], next := next } := by
  intro deed' hdeed
  rw [List.mem_singleton.mp hdeed]
  exact h

theorem Pass.settle_accounts {notice : Notice} {message : Message} {status : Nat}
    {code : Option String} (hphase : p.phase = .sending notice message (.body status))
    (hanswer : answer = .body code) :
    p.Accounts num live m answer (p.settle notice (sendResult status code)) := by
  cases hresult : sendResult status code with
  | suppressed => exact .none (by rw [p.settle_suppressed])
  | failed => exact .none (by rw [p.settle_failed])
  | unregistered =>
      cases notice with
      | complete | stage => exact .one (.dead hphase hanswer hresult)
  | ok =>
      cases notice with
      | complete => exact .one (.completed hphase hanswer hresult)
      | stage stage => exact .one (.delivered hphase hanswer hresult)

theorem Pass.act_accounts {state : VaultState} (hphase : p.phase = .reading)
    (hanswer : answer = .state (some state)) :
    p.Accounts num live m answer (p.act num live m state) := by
  unfold Pass.act
  dsimp only
  split
  · exact .none rfl
  next hlive =>
    have hlive := Bool.eq_true_of_not_eq_false hlive
    split
    · exact .none rfl
    next hverified =>
      have hverified := Bool.eq_true_of_not_eq_false hverified
      split
      · exact .none rfl
      next config hconfig =>
        split
        next hinactive =>
          -- One last push, or the registration goes.
          rcases Pass.dropInactive_cases hverified { p with state := some state } config.executed
            with heq | ⟨-, -, message, heq⟩
          · rw [heq]
            exact .one (.inactive hlive hverified hphase hanswer hconfig hinactive)
          · exact .none (by rw [heq, Pass.sendPush_deeds])
        next hactive =>
          split
          · exact .none rfl
          next lastHeartbeat hheartbeat =>
            unfold Pass.escalate
            split
            next hstage =>
              split
              · exact .one (.reset hlive hverified hphase hanswer hconfig hactive hheartbeat hstage)
              · exact .none rfl
            · split
              · exact .none rfl
              · exact .none (Pass.remind_deeds _ _ _ _)

theorem Pass.resume_accounts (num : Arithmetic) (live : Bool) (m : Moment) (p : Pass)
    (answer : Answer) : p.Accounts num live m answer (p.resume num live m answer) := by
  unfold Pass.resume
  split
  next => exact .none rfl
  next state hphase => exact Pass.act_accounts hphase rfl
  next => exact .none rfl
  next ok hphase =>
    unfold Pass.probed
    split
    · exact .none rfl
    next hlive =>
      split
      · exact .none rfl
      next hverified =>
        split
        · exact .none rfl
        next hok =>
          rw [Bool.eq_true_of_not_eq_false hok]
          exact .one (.missing (Bool.eq_true_of_not_eq_false hlive)
            (Bool.eq_true_of_not_eq_false hverified) hphase rfl)
  next escalation revoked hphase =>
    unfold Pass.submit
    split
    next hguard => exact .one (.submission hguard.2.1 hguard.2.2)
    · exact .none rfl
  next => exact .none (Pass.remind_deeds _ _ _ _)
  next notice message acquired hphase =>
    unfold Pass.send
    split
    · exact .none (by rw [p.settle_failed])
    · split
      · exact .none (by rw [p.settle_suppressed])
      next hguard =>
        obtain ⟨hlive, hverified⟩ := not_not.mp hguard
        exact .one (.request hlive hverified hphase)
  next => exact .none (by rw [p.settle_failed])
  next => exact .none rfl
  next notice message status code hphase => exact Pass.settle_accounts hphase rfl
  next => exact .none rfl

/-! ## Waiting -/

/-- What the pass has read puts the vault in this stage of its escalation. -/
def Pass.Reads (num : Arithmetic) (p : Pass) (lastHeartbeat : Int) (escalation : Escalation) : Prop :=
  ∃ state config, p.state = some state ∧ state.config = some config ∧
    ¬ (config.active = false ∨ config.executed = true) ∧ state.lastHeartbeat = some lastHeartbeat ∧
    escalation = computeStage num lastHeartbeat config.heartbeatInterval p.row.stages p.now

/-- How a pass comes to its next await. -/
inductive Pass.Waits (num : Arithmetic) (live : Bool) (m : Moment) (p : Pass) (answer : Answer) :
    Pass → Prop
  | stay : Waits num live m p answer p
  | probe {state : VaultState} :
      p.phase = .reading → answer = .state (some state) → state.config = none →
      Waits num live m p answer { p with state := some state, phase := .probing }
  | execute {state : VaultState} {lastHeartbeat : Int} {escalation : Escalation} :
      p.phase = .reading → answer = .state (some state) →
      Pass.Reads num { p with state := some state } lastHeartbeat escalation → escalation.stage = 4 →
      Waits num live m p answer { p with state := some state, phase := .executing escalation false }
  | revoke {escalation : Escalation} {revoked : Bool} :
      p.phase = .executing escalation revoked →
      Waits num live m p answer { p with phase := .executing escalation true }
  /-- A push is due, in the turn of the read. -/
  | remind {state : VaultState} {lastHeartbeat : Int} {escalation : Escalation} {message : Message} :
      p.phase = .reading → answer = .state (some state) →
      Pass.Reads num { p with state := some state } lastHeartbeat escalation → escalation.stage ≠ 0 →
      p.row.pushDue p.now escalation.stage →
      Waits num live m p answer
        { p with state := some state, phase := .sending (.stage escalation.stage) message .token }
  /-- A push is due, after the executor. -/
  | driven {escalation : Escalation} {revoked : Bool} {message : Message} :
      p.phase = .executing escalation revoked → p.row.pushDue p.now escalation.stage →
      Waits num live m p answer
        { p with phase := .sending (.stage escalation.stage) message .token }
  | complete {state : VaultState} {config : VaultConfig} {message : Message} :
      p.phase = .reading → answer = .state (some state) → state.config = some config →
      config.executed = true → p.row.lastStage = 4 →
      Waits num live m p answer
        { p with state := some state, phase := .sending .complete message .token }
  | requested {notice : Notice} {message : Message} :
      p.phase = .sending notice message .token → answer = .token true → live = true →
      m.networkVerified = true →
      Waits num live m p answer { p with phase := .sending notice message .response }
  | answered {notice : Notice} {message : Message} {status : Nat} :
      p.phase = .sending notice message .response → answer = .response (some status) →
      Waits num live m p answer { p with phase := .sending notice message (.body status) }

/-- The registration of a pass stays what it was when its cycle began. -/
theorem Pass.Waits.same {p' : Pass} (h : p.Waits num live m answer p') :
    p'.row = p.row ∧ p'.now = p.now := by
  cases h with
  | stay | probe | execute | revoke | remind | driven | complete | requested | answered =>
      exact ⟨rfl, rfl⟩

theorem Pass.act_waits {state : VaultState} {p' : Pass} (hphase : p.phase = .reading)
    (hanswer : answer = .state (some state)) (h : (p.act num live m state).next = .wait p') :
    p.Waits num live m answer p' := by
  unfold Pass.act at h
  dsimp only at h
  split at h
  · cases h
  · split at h
    · cases h
    next hverified =>
      have hverified := Bool.eq_true_of_not_eq_false hverified
      split at h
      next hconfig =>
        cases h
        exact .probe hphase hanswer hconfig
      next config hconfig =>
        split at h
        next hinactive =>
          rcases Pass.dropInactive_cases hverified { p with state := some state } config.executed
            with heq | ⟨hexecuted, hlast, message, heq⟩
          · rw [heq] at h
            cases h
          · rw [heq] at h
            rcases Pass.sendPush_cases m { p with state := some state } .complete message with
              ⟨action, hpush⟩ | hpush
            · rw [hpush] at h
              cases h
            · rw [hpush] at h
              cases h
              exact .complete hphase hanswer hconfig hexecuted hlast
        next hactive =>
          split at h
          · cases h
          next lastHeartbeat hheartbeat =>
            have hreads : Pass.Reads num { p with state := some state } lastHeartbeat
                (computeStage num lastHeartbeat config.heartbeatInterval p.row.stages p.now) :=
              ⟨state, config, rfl, hconfig, hactive, hheartbeat, rfl⟩
            unfold Pass.escalate at h
            split at h
            · cases h
            next hstage =>
              split at h
              next hdriven =>
                cases h
                exact .execute hphase hanswer hreads hdriven.1
              · rcases Pass.remind_cases live m { p with state := some state } (computeStage num
                  lastHeartbeat config.heartbeatInterval p.row.stages p.now) with
                  ⟨action, hpush⟩ | ⟨hdue, message, hpush⟩
                · rw [hpush] at h
                  cases h
                · rw [hpush] at h
                  cases h
                  exact .remind hphase hanswer hreads hstage hdue

theorem Pass.settle_next (p : Pass) (notice : Notice) (result : SendResult) :
    ∃ action, (p.settle notice result).next = .finish action := by
  cases notice <;> cases result <;> exact ⟨_, rfl⟩

/-- A pass that waits again has come to it in one of these ways. -/
theorem Pass.resume_waits {p' : Pass} (h : (p.resume num live m answer).next = .wait p') :
    p.Waits num live m answer p' := by
  unfold Pass.resume at h
  split at h
  next => cases h
  next state hphase => exact Pass.act_waits hphase rfl h
  next => cases h
  next ok hphase =>
    unfold Pass.probed at h
    repeat' split at h
    all_goals cases h
  next escalation revoked hphase =>
    unfold Pass.submit at h
    split at h
    · cases h
      exact .stay
    · cases h
      exact .revoke hphase
  next escalation revoked hphase =>
    rcases p.remind_cases live m escalation with ⟨action, hpush⟩ | ⟨hdue, message, hpush⟩
    · rw [hpush] at h
      cases h
    · rw [hpush] at h
      cases h
      exact .driven hphase hdue
  next notice message acquired hphase =>
    unfold Pass.send at h
    split at h
    · rw [p.settle_failed] at h
      cases h
    next hacquired =>
      split at h
      · rw [p.settle_suppressed] at h
        cases h
      next hguard =>
        obtain ⟨hlive, hverified⟩ := not_not.mp hguard
        cases h
        rw [Bool.eq_true_of_not_eq_false hacquired]
        exact .requested hphase rfl hlive hverified
  next notice _ hphase =>
    rw [p.settle_failed] at h
    cases h
  next notice message status hphase =>
    cases h
    exact .answered hphase rfl
  next notice message status code hphase =>
    obtain ⟨action, hfinish⟩ := p.settle_next notice (sendResult status code)
    rw [hfinish] at h
    cases h
  next =>
    cases h
    exact .stay

/-- A turn after which the pass waits again changes nothing. -/
theorem Pass.resume_unchanged {p' : Pass} (h : (p.resume num live m answer).next = .wait p') :
    ∀ deed ∈ (p.resume num live m answer).deeds, deed.change = none := by
  intro deed hdeed
  have hcauses := p.resume_accounts num live m answer deed hdeed
  rw [h] at hcauses
  cases hcauses with
  | request | submission => rfl

end DeadMansVault.Notify
