-- SUMMARY: How far the reminders of a vault are neither repeated too early nor silenced by old ones.
import DeadMansVault.Guarantees.Tokens
import DeadMansVault.Notify.Sightings

/-!
# Reminders

A stage of an episode is announced once, and a new episode is announced, as long
as no two passes work on the same registration at a time. What the registration
remembers is the last push, not the heartbeat that it was for: that is why a vault
must be seen not overdue in between.
-/

namespace DeadMansVault.Notify

variable {num : Arithmetic} {host : Host} {cfg : Config} {vault : String}

/-! ## Runs of polls -/

/-- The registrations are changed by the poller alone, and its writes succeed. -/
structure Undisturbed (hs : List Happening) : Prop where
  requests : ∀ e, .request e ∉ hs
  writes : ∀ index m answer, .resume index m answer true ∉ hs

instance (s : System) : Decidable (s.Clear vault) :=
  inferInstanceAs (Decidable (∀ w ∈ s.watch, _))

/-- No cycle starts while there is a pass over the vault, in progress or to come. -/
def System.NoOverlap (num : Arithmetic) (host : Host) (cfg : Config) (vault : String) :
    System → List Happening → Prop
  | _, [] => True
  | s, h :: hs =>
    let s' := (s.step num host cfg h).1
    (s'.started ≠ s.started → s.Clear vault) ∧ s'.NoOverlap num host cfg vault hs

instance System.decidableNoOverlap :
    ∀ (s : System) (hs : List Happening), Decidable (s.NoOverlap num host cfg vault hs)
  | _, [] => .isTrue trivial
  | s, h :: hs =>
    have := decidableNoOverlap (s.step num host cfg h).1 hs
    inferInstanceAs (Decidable (_ ∧ _))

theorem System.Tracked.run {s : System} {first : Option Push} {history : List Sighting}
    {hs : List Happening} (ht : s.Tracked num vault first history)
    (hrequests : ∀ e, .request e ∉ hs) (hoverlap : s.NoOverlap num host cfg vault hs) :
    (s.run num host cfg hs).Tracked num vault first
      (history ++ s.history num host cfg vault hs) := by
  induction hs generalizing s history with
  | nil => simpa [System.history] using ht
  | cons h hs ih =>
      obtain ⟨hclear, hrest⟩ := hoverlap
      have hnext := ht.step (fun e heq => hrequests e (heq ▸ List.mem_cons_self)) hclear
      have hall := ih hnext (fun e he => hrequests e (List.mem_cons_of_mem h he)) hrest
      simpa [System.history] using hall

theorem System.start_tracked {store : Store} {first : Option Push}
    (hfirst : ∀ row, store.getRegistration vault = some row → row.Remembers first) :
    (System.start store).Tracked num vault first [] where
  single := Nat.zero_le 1
  current _ hw := absurd hw List.not_mem_nil
  remembers := hfirst
  inOrder := .nil

/-! ## At most one entry for each stage -/

/-- Some push that the registration may remember at the start. -/
theorem Row.exists_remembers (row : Row) : ∃ first, row.Remembers first := by
  by_cases hzero : row.lastStage = 0
  · exact ⟨none, hzero⟩
  · exact ⟨some ⟨none, row.lastStage, row.lastNotifiedAt⟩, rfl, rfl⟩

/-- For each heartbeat the poller enters a stage with one push, and repeats it after no less than
    the stage's interval, if no two passes over the vault overlap and the vault does not come to
    be overdue for the same heartbeat again. -/
theorem one_entry_push_per_stage (num : Arithmetic) (host : Host) (cfg : Config) (store : Store)
    (vault : String) {hs : List Happening} (hundisturbed : Undisturbed hs)
    (hoverlap : (System.start store).NoOverlap num host cfg vault hs)
    (hrelapse : NoRelapse ((System.start store).history num host cfg vault hs)) :
    Spaced ((System.start store).history num host cfg vault hs) := by
  have hfirst : ∃ first, ∀ row, store.getRegistration vault = some row → row.Remembers first := by
    cases store.getRegistration vault with
    | none => exact ⟨none, fun row heq => by cases heq⟩
    | some row =>
        obtain ⟨first, hfirst⟩ := row.exists_remembers
        exact ⟨first, fun row' heq => Option.some.inj heq ▸ hfirst⟩
  obtain ⟨first, hfirst⟩ := hfirst
  have hstart : (System.start store).Tracked num vault first [] := System.start_tracked hfirst
  have htracked := hstart.run hundisturbed.requests hoverlap
  rw [List.nil_append] at htracked
  exact htracked.inOrder.spaced hrelapse

/-! ## New episodes -/

theorem lastPush_append (first : Option Push) (past history : List Sighting) :
    lastPush first (past ++ history) = lastPush (lastPush first past) history :=
  List.foldl_append ..

/-- The last push, if there is one since the vault was seen not overdue, is in the history. -/
theorem mem_of_lastPush {history : List Sighting} {push : Push}
    (h : lastPush none history = some push) : ∃ entry, .accepted push entry ∈ history := by
  induction history using List.reverseRecOn with
  | nil => cases h
  | append_singleton history x ih =>
      cases x with
      | found lastHeartbeat stage =>
          rw [lastPush_found] at h
          split at h
          · cases h
          · obtain ⟨entry, hmem⟩ := ih h
            exact ⟨entry, List.mem_append_left _ hmem⟩
      | accepted push' entry =>
          rw [lastPush_accepted] at h
          cases h
          exact ⟨entry, List.mem_append_right _ (List.mem_singleton_self _)⟩

/-- No push of at least this stage has been accepted for the heartbeat. -/
def NonePushed (history : List Sighting) (lastHeartbeat : Int) (stage : Nat) : Prop :=
  ∀ push entry, .accepted push entry ∈ history → push.lastHeartbeat = some lastHeartbeat →
    push.stage < stage

/-- The last push since the vault was seen not overdue was for another heartbeat, and of a later
    stage, or of this one less than its interval ago. -/
def Silenced (history : List Sighting) (lastHeartbeat : Int) (stage : Nat) (now : Int) : Prop :=
  ∃ push, lastPush none history = some push ∧ push.lastHeartbeat ≠ some lastHeartbeat ∧
    (stage < push.stage ∨ (stage = push.stage ∧ now - push.time < stageRecurInterval stage))

/-- The pass is not over. -/
def Next.waits : Next → Bool
  | .wait _ => true
  | .finish _ | .threw => false

/-- The pass goes on to a push of the stage: it requests it as soon as it has a token. -/
def Stride.Announces (num : Arithmetic) (stride : Stride) (stage : Nat) : Prop :=
  ∃ p text message, stride.turn.next = .wait p ∧ stageMessage text (.stage stage) = some message ∧
    ∀ m : Moment, m.networkVerified = true →
      .request stride.pass.row.deviceToken message ∈ (p.resume num true m (.token true)).deeds

theorem dueAfter_iff_not_silenced {history : List Sighting} {lastHeartbeat now : Int} {stage : Nat}
    (hnone : NonePushed history lastHeartbeat stage) (hone : 1 ≤ stage) (hthree : stage ≤ 3) :
    DueAfter (lastPush none history) stage now ↔ ¬ Silenced history lastHeartbeat stage now := by
  unfold Silenced DueAfter
  cases hlast : lastPush none history with
  | none => simp; omega
  | some push =>
      obtain ⟨entry, hmem⟩ := mem_of_lastPush hlast
      by_cases hsame : push.lastHeartbeat = some lastHeartbeat
      · have hlater := hnone push entry hmem hsame
        simp [hsame, hlater]
      · constructor
        · rintro hdue ⟨_, heq, -, hsilent⟩
          cases heq
          omega
        · intro hloud
          by_contra hdue
          exact hloud ⟨push, rfl, hsame, by omega⟩

theorem stageMessage_reminder (text : String) {stage : Nat} (hone : 1 ≤ stage) (hthree : stage ≤ 3) :
    ∃ message, stageMessage text (.stage stage) = some message := by
  obtain rfl | rfl | rfl : stage = 1 ∨ stage = 2 ∨ stage = 3 := by omega
  all_goals exact ⟨_, rfl⟩

/-- A pass that finds a stage to remind of goes on to the push exactly when it is due. -/
theorem Pass.escalate_announces {m : Moment} {p : Pass} {escalation : Escalation}
    (hverified : m.networkVerified = true) (hconfigured : m.fcmConfigured = true)
    (hone : 1 ≤ escalation.stage) (hthree : escalation.stage ≤ 3) :
    (p.row.pushDue p.now escalation.stage ∧
      ∃ message, stageMessage (formatDuration escalation.secondsToExecution)
          (.stage escalation.stage) = some message ∧
        p.escalate true m escalation =
          { next := .wait { p with phase := .sending (.stage escalation.stage) message .token } }) ∨
    (¬ p.row.pushDue p.now escalation.stage ∧
      p.escalate true m escalation = { next := .finish .noChange }) := by
  obtain ⟨message, hmessage⟩ :=
    stageMessage_reminder (formatDuration escalation.secondsToExecution) hone hthree
  unfold Pass.escalate
  rw [if_neg (by omega), if_neg (by omega)]
  unfold Pass.remind
  dsimp only
  by_cases hdue : p.row.pushDue p.now escalation.stage
  · refine .inl ⟨hdue, message, hmessage, ?_⟩
    rw [if_neg (not_not.mpr hdue), hmessage]
    simp [hverified, Pass.sendPush, hconfigured]
  · exact .inr ⟨hdue, if_pos hdue⟩

theorem Stride.announces_iff_due {cycle : Nat} {p : Pass} {live : Bool} {m : Moment}
    {answer : Answer} {store : Store} {lastHeartbeat : Int} {stage : Nat}
    (hfound : Stride.found num ⟨cycle, p, live, m, answer, p.resume num live m answer, store⟩ =
      some (lastHeartbeat, stage))
    (hone : 1 ≤ stage) (hthree : stage ≤ 3) (hconfigured : m.fcmConfigured = true) :
    Stride.Announces num ⟨cycle, p, live, m, answer, p.resume num live m answer, store⟩ stage ↔
      p.row.pushDue p.now stage := by
  obtain ⟨state, escalation, -, -, hlive, hverified, -, rfl, hturn⟩ := Stride.found_eq_some hfound
  dsimp only at hlive hverified hturn
  unfold Stride.Announces
  dsimp only
  rw [hturn, hlive]
  rcases Pass.escalate_announces (p := { p with state := some state }) hverified hconfigured hone
    hthree with ⟨hdue, message, hmessage, heq⟩ | ⟨hdue, heq⟩
  · refine iff_of_true ⟨_, _, message, congrArg Turn.next heq, hmessage, fun m' hm' => ?_⟩ hdue
    simp [Pass.resume, Pass.send, hm']
  · refine iff_of_false ?_ hdue
    rintro ⟨p', _, _, hnext, -⟩
    rw [heq] at hnext
    cases hnext

/-- Of a stage that no push has announced for the heartbeat yet, the pass that finds it sends one,
    unless a push for another heartbeat silences it. `past` is what the registration remembers
    at the start. -/
theorem new_episode_announced (num : Arithmetic) (host : Host) (cfg : Config) (store : Store)
    (vault : String) (past : List Sighting) {hs : List Happening} {h : Happening} {stride : Stride}
    {lastHeartbeat : Int} {stage : Nat} :
    let s := (System.start store).run num host cfg hs
    let history := past ++ (System.start store).history num host cfg vault hs
    (∀ row, store.getRegistration vault = some row → row.Remembers (lastPush none past)) →
    (∀ e, .request e ∉ hs) →
    (System.start store).NoOverlap num host cfg vault hs →
    (s.step num host cfg h).2 = some stride → stride.pass.row.vault = vault →
    stride.found num = some (lastHeartbeat, stage) → 1 ≤ stage → stage ≤ 3 →
    NonePushed history lastHeartbeat stage → stride.moment.fcmConfigured = true →
    (stride.Announces num stage ↔ ¬ Silenced history lastHeartbeat stage stride.pass.now) := by
  intro s history hpast hrequests hoverlap hstride hvault hfound hone hthree hnone hconfigured
  have hstart : (System.start store).Tracked num vault (lastPush none past) [] :=
    System.start_tracked hpast
  have htracked := hstart.run hrequests hoverlap
  rw [List.nil_append] at htracked
  have hmoves := s.step_moves num host cfg h
  rw [hstride] at hmoves
  cases hmoves with
  | turn cycle p live m answer hbefore =>
      obtain ⟨hrow, -⟩ := htracked.current (cycle, p) (hbefore ▸ by simp) hvault
      have hremembers := htracked.remembers p.row hrow
      rw [← lastPush_append] at hremembers
      rw [Stride.announces_iff_due hfound hone hthree hconfigured, hremembers.pushDue_iff,
        dueAfter_iff_not_silenced hnone hone hthree]

/-! Two manual polls at a time enter a stage twice, and a later stage of the last episode silences
the first one of the next. -/

namespace Sample

def reminderRow : Row := { signedRow with stage1 := 10, stage2 := 100000, stage3 := 100000 }

def reminderStore : Store := ⟨[reminderRow], by simp, []⟩

def beating (lastHeartbeat : Int) : VaultState := ⟨some watchedVault, some lastHeartbeat⟩

/-- The pass at this place, from the read to a push that FCM accepts. -/
def pushed (index : Nat) (lastHeartbeat : Int) : List Happening :=
  [.resume index fair (.state (some (beating lastHeartbeat))) false,
    .resume index fair (.token true) false, .resume index fair (.response (some 200)) false,
    .resume index fair (.body (some "")) false]

def cycle (now lastHeartbeat : Int) : List Happening :=
  [.pollNow (now * 1000) true, .take 0 fair] ++ pushed 0 lastHeartbeat

/-- Two cycles in one stage. -/
def twoCycles : List Happening := cycle 90000 3585 ++ cycle 120000 3585

/-- Two cycles at a time. -/
def overlapping : List Happening :=
  [.pollNow 90000000 true, .pollNow 90000000 true, .take 0 fair, .take 1 fair] ++
    pushed 0 3585 ++ pushed 0 3585

/-- A push, and the start of a cycle after another heartbeat. -/
def nextEpisode (now : Int) : List Happening :=
  cycle now 3585 ++ [.pollNow 176515000 true, .take 0 fair]

def reads (lastHeartbeat : Int) : Happening :=
  .resume 0 fair (.state (some (beating lastHeartbeat))) false

def remindedOf (hs : List Happening) : List Sighting :=
  (System.start reminderStore).history exactArithmetic trustingHost dualConfig "vault" hs

def remind (hs : List Happening) (h : Happening) : System × Option Stride :=
  ((System.start reminderStore).run exactArithmetic trustingHost dualConfig hs).step exactArithmetic
    trustingHost dualConfig h

end Sample

theorem one_entry_push_per_stage_sample : Spaced (Sample.remindedOf Sample.twoCycles) := by
  obtain ⟨hoverlap, hhistory⟩ : (System.start Sample.reminderStore).NoOverlap Sample.exactArithmetic
        Sample.trustingHost Sample.dualConfig "vault" Sample.twoCycles ∧
      Sample.remindedOf Sample.twoCycles = [.found 3585 2, .accepted ⟨some 3585, 2, 90000⟩ true,
        .found 3585 2, .accepted ⟨some 3585, 2, 120000⟩ false] := by
    decide +kernel
  refine one_entry_push_per_stage Sample.exactArithmetic Sample.trustingHost Sample.dualConfig
    Sample.reminderStore "vault" ⟨fun e he => ?_, fun index m answer he => ?_⟩ hoverlap ?_
  · simp [Sample.twoCycles, Sample.cycle, Sample.pushed] at he
  · simp [Sample.twoCycles, Sample.cycle, Sample.pushed] at he
  · -- No pass finds the vault not overdue.
    intro lastHeartbeat stage calmHeartbeat stage' _ _ hsublist
    have hcalm : Sighting.found calmHeartbeat 0 ∈ Sample.remindedOf Sample.twoCycles :=
      hsublist.subset (by simp)
    simp [hhistory] at hcalm

/-- Both cycles find the registration in no stage yet, and both push. -/
theorem one_entry_push_per_stage_fails :
    ¬ Spaced (Sample.remindedOf Sample.overlapping) := by
  have hhistory : Sample.remindedOf Sample.overlapping =
      [.found 3585 2] ++ .accepted ⟨some 3585, 2, 90000⟩ true :: [.found 3585 2] ++
        .accepted ⟨some 3585, 2, 90000⟩ true :: [] := by
    decide +kernel
  intro hspaced
  obtain ⟨hentry, -⟩ := hspaced _ _ _ _ _ _ _ hhistory rfl rfl
  cases hentry

theorem new_episode_announced_sample :
    ∃ stride, (Sample.remind (Sample.nextEpisode 89990) (Sample.reads 90100)).2 = some stride ∧
      stride.Announces Sample.exactArithmetic 2 := by
  obtain ⟨hoverlap, hhistory, hstride⟩ : (System.start Sample.reminderStore).NoOverlap
        Sample.exactArithmetic Sample.trustingHost Sample.dualConfig "vault"
        (Sample.nextEpisode 89990) ∧
      Sample.remindedOf (Sample.nextEpisode 89990) =
        [.found 3585 1, .accepted ⟨some 3585, 1, 89990⟩ true] ∧
      ((Sample.remind (Sample.nextEpisode 89990) (Sample.reads 90100)).2.any fun stride =>
        decide (stride.pass.row.vault = "vault" ∧
          stride.found Sample.exactArithmetic = some (90100, 2) ∧
          stride.moment.fcmConfigured = true)) = true := by
    decide +kernel
  obtain ⟨stride, hstride, hfacts⟩ := (Option.any_eq_true ..).mp hstride
  obtain ⟨hvault, hfound, hconfigured⟩ := of_decide_eq_true hfacts
  refine ⟨stride, hstride, ?_⟩
  have h := new_episode_announced Sample.exactArithmetic Sample.trustingHost Sample.dualConfig
    Sample.reminderStore "vault" [] (fun row hrow => ?_) (fun e he => ?_) hoverlap hstride hvault
    hfound (by decide) (by decide) ?_ hconfigured
  · refine h.mpr ?_
    -- The push of the first episode was of stage 1.
    rintro ⟨push, hlast, -, hsilent⟩
    have hpush : push = ⟨some 3585, 1, 89990⟩ := by
      have hlast : lastPush none ([] ++ Sample.remindedOf (Sample.nextEpisode 89990)) =
        some push := hlast
      rw [hhistory] at hlast
      exact (Option.some.inj hlast).symm
    rw [hpush] at hsilent
    dsimp only at hsilent
    omega
  · obtain rfl : Sample.reminderRow = row := Option.some.inj hrow
    rfl
  · simp [Sample.nextEpisode, Sample.cycle, Sample.pushed] at he
  · intro push entry hmem hheartbeat
    have hmem : Sighting.accepted push entry ∈ [] ++ Sample.remindedOf (Sample.nextEpisode 89990) :=
      hmem
    simp only [hhistory, List.nil_append, List.mem_cons, reduceCtorEq, Sighting.accepted.injEq,
      List.not_mem_nil, or_false, false_or] at hmem
    rw [hmem.1] at hheartbeat
    cases hheartbeat

/-- Stage 2 of an episode has been pushed a day before the next one comes to stage 1. -/
theorem new_episode_announced_fails :
    Sample.remindedOf (Sample.nextEpisode 90000) =
      [.found 3585 2, .accepted ⟨some 3585, 2, 90000⟩ true] ∧
    ∃ stride, (Sample.remind (Sample.nextEpisode 90000) (Sample.reads 90110)).2 = some stride ∧
      stride.found Sample.exactArithmetic = some (90110, 1) ∧
      ¬ stride.Announces Sample.exactArithmetic 1 := by
  obtain ⟨hhistory, hstride⟩ : Sample.remindedOf (Sample.nextEpisode 90000) =
        [.found 3585 2, .accepted ⟨some 3585, 2, 90000⟩ true] ∧
      ((Sample.remind (Sample.nextEpisode 90000) (Sample.reads 90110)).2.any fun stride =>
        decide (stride.found Sample.exactArithmetic = some (90110, 1)) &&
          !stride.turn.next.waits) = true := by
    decide +kernel
  refine ⟨hhistory, ?_⟩
  obtain ⟨stride, hstride, hfacts⟩ := (Option.any_eq_true ..).mp hstride
  obtain ⟨hfound, hfinish⟩ := Bool.and_eq_true_iff.mp hfacts
  refine ⟨stride, hstride, of_decide_eq_true hfound, ?_⟩
  rintro ⟨p, text, message, hnext, -⟩
  rw [hnext] at hfinish
  cases hfinish

end DeadMansVault.Notify
