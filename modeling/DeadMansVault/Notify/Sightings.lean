-- SUMMARY: What the poller sees and sends for a vault, as a history, and what the registration remembers of it.
import DeadMansVault.Notify.Cycles

/-!
# Sightings

The reminders of a vault depend on what happened before through two columns of
its registration. As long as no pass works on an old copy of them, these columns
are what the history of the vault says: the last push since a pass has found the
vault not overdue.
-/

namespace DeadMansVault.Notify

/-! ## Histories -/

/-- A push that FCM has accepted: the heartbeat that the pass has read, the stage, and the time of
    the cycle. -/
structure Push where
  lastHeartbeat : Option Int
  stage : Nat
  time : Int
  deriving DecidableEq, Repr

/-- What a turn of a pass over a vault adds to its history. -/
inductive Sighting
  /-- A pass finds the vault in this stage of the escalation for its heartbeat. -/
  | found (lastHeartbeat : Int) (stage : Nat)
  /-- The push is an `entry` if the registration was in another stage before. -/
  | accepted (push : Push) (entry : Bool)
  deriving DecidableEq, Repr

/-- The last push since a pass has found the vault not overdue; `first` is the one before the
    history. -/
def lastPush (first : Option Push) (history : List Sighting) : Option Push :=
  history.foldl (fun push sighting => match sighting with
    | .found _ stage => if stage = 0 then none else push
    | .accepted push _ => some push) first

@[simp] theorem lastPush_nil (first : Option Push) : lastPush first [] = first := rfl

@[simp] theorem lastPush_found (first : Option Push) (history : List Sighting)
    (lastHeartbeat : Int) (stage : Nat) :
    lastPush first (history ++ [.found lastHeartbeat stage]) =
      if stage = 0 then none else lastPush first history := by
  simp [lastPush]

@[simp] theorem lastPush_accepted (first : Option Push) (history : List Sighting) (push : Push)
    (entry : Bool) : lastPush first (history ++ [.accepted push entry]) = some push := by
  simp [lastPush]

/-- The columns that remember the last push. -/
def Row.Remembers (row : Row) (push : Option Push) : Prop :=
  match push with
  | none => row.lastStage = 0
  | some push => row.lastStage = push.stage ∧ row.lastNotifiedAt = push.time

theorem stageRecurInterval_pos (stage : Nat) : 0 < stageRecurInterval stage := by
  unfold stageRecurInterval
  split <;> decide

/-- A push of the stage is due after this one. -/
def DueAfter (push : Option Push) (stage : Nat) (time : Int) : Prop :=
  match push with
  | none => 0 < stage
  | some push =>
    push.stage < stage ∨
      (stage = push.stage ∧ 1 ≤ stage ∧ stage ≤ 3 ∧ stageRecurInterval stage ≤ time - push.time) ∨
      (stage = 4 ∧ push.stage ≠ 4)

theorem Row.Remembers.pushDue_iff {row : Row} {push : Option Push} (h : row.Remembers push)
    {stage : Nat} {time : Int} : row.pushDue time stage ↔ DueAfter push stage time := by
  unfold Row.pushDue DueAfter
  cases push with
  | none =>
      have hzero : row.lastStage = 0 := h
      dsimp only
      omega
  | some push =>
      obtain ⟨hstage, htime⟩ : row.lastStage = push.stage ∧ row.lastNotifiedAt = push.time := h
      rw [hstage, htime]

/-- The pass that pushes has found the vault just before, and the push was due. -/
structure DueAt (first : Option Push) (before : List Sighting) (push : Push) (entry : Bool) :
    Prop where
  stage_le : push.stage ≤ 4
  due : DueAfter (lastPush first before) push.stage push.time
  entry_ne : entry = true → ∀ last, lastPush first before = some last → last.stage ≠ push.stage
  found : ∃ lastHeartbeat earlier, push.lastHeartbeat = some lastHeartbeat ∧
    before = earlier ++ [.found lastHeartbeat push.stage]

/-- Each push of the history was due when it was accepted. -/
def InOrder (first : Option Push) (history : List Sighting) : Prop :=
  ∀ before push entry after, history = before ++ .accepted push entry :: after →
    DueAt first before push entry

variable {first : Option Push}

theorem DueAfter.pos {push : Option Push} {stage : Nat} {time : Int}
    (h : DueAfter push stage time) : 0 < stage := by
  unfold DueAfter at h
  cases push with
  | none => exact h
  | some push =>
      dsimp only at h
      omega

theorem InOrder.nil : InOrder first [] := by
  intro before push entry after h
  cases before <;> cases h

theorem InOrder.found {history : List Sighting} (h : InOrder first history) {lastHeartbeat : Int}
    {stage : Nat} : InOrder first (history ++ [.found lastHeartbeat stage]) := by
  intro before push entry after heq
  rcases List.append_eq_append_iff.mp heq with ⟨mid, hbefore, hrest⟩ | ⟨mid, hhistory, hrest⟩
  · cases mid <;> simp at hrest
  · cases mid with
    | nil => simp at hrest
    | cons x mid =>
        obtain ⟨rfl, -⟩ := List.cons.inj hrest
        exact h before push entry mid hhistory

theorem InOrder.accepted {history : List Sighting} (h : InOrder first history) {push : Push}
    {entry : Bool} (hdue : DueAt first history push entry) :
    InOrder first (history ++ [.accepted push entry]) := by
  intro before push' entry' after heq
  rcases List.append_eq_append_iff.mp heq with ⟨mid, hbefore, hrest⟩ | ⟨mid, hhistory, hrest⟩
  · cases mid with
    | nil =>
        obtain ⟨hlast, -⟩ := List.cons.inj hrest
        cases hlast
        rwa [hbefore, List.append_nil]
    | cons x mid => simp at hrest
  · cases mid with
    | nil =>
        obtain ⟨hlast, -⟩ := List.cons.inj hrest
        cases hlast
        rw [List.append_nil] at hhistory
        rwa [← hhistory]
    | cons x mid =>
        obtain ⟨rfl, -⟩ := List.cons.inj hrest
        exact h before push' entry' mid hhistory

theorem InOrder.before {history later : List Sighting} (h : InOrder first (history ++ later)) :
    InOrder first history := by
  intro before push entry after heq
  exact h before push entry (after ++ later) (by rw [heq]; simp)

/-- After a push, the last push is one of the same stage and no earlier, or one of a later stage,
    until a pass finds the vault not overdue. -/
theorem InOrder.lastPush_since {before after : List Sighting} {push : Push} {entry : Bool}
    (h : InOrder first (before ++ .accepted push entry :: after))
    (hcalm : ∀ lastHeartbeat, .found lastHeartbeat 0 ∉ after) :
    ∃ last, lastPush first (before ++ .accepted push entry :: after) = some last ∧
      push.stage ≤ last.stage ∧ last.stage ≤ 4 ∧
      (last.stage = push.stage → push.time ≤ last.time) := by
  induction after using List.reverseRecOn with
  | nil =>
      have hdue := h before push entry [] rfl
      exact ⟨push, lastPush_accepted .., le_rfl, hdue.stage_le, fun _ => le_rfl⟩
  | append_singleton after x ih =>
      have hrest : ∀ lastHeartbeat, .found lastHeartbeat 0 ∉ after :=
        fun lastHeartbeat hmem => hcalm lastHeartbeat (List.mem_append_left _ hmem)
      rw [← List.cons_append, ← List.append_assoc] at h ⊢
      obtain ⟨last, hlast, hle, hfour, htime⟩ := ih h.before hrest
      cases x with
      | found lastHeartbeat stage =>
          have hstage : stage ≠ 0 := by
            rintro rfl
            exact hcalm lastHeartbeat (List.mem_append_right _ (List.mem_singleton_self _))
          rw [lastPush_found, if_neg hstage]
          exact ⟨last, hlast, hle, hfour, htime⟩
      | accepted next entry' =>
          obtain ⟨hle', hdue, -, -⟩ := h _ next entry' [] rfl
          rw [hlast] at hdue
          refine ⟨next, lastPush_accepted .., ?_⟩
          rcases hdue with hlater | ⟨heq, hone, hthree, hrecur⟩ | ⟨heq, hnot⟩
          · exact ⟨by omega, hle', by omega⟩
          · have hpos : 0 < stageRecurInterval next.stage := stageRecurInterval_pos next.stage
            refine ⟨by omega, hle', fun hsame => ?_⟩
            have := htime (by omega)
            omega
          · exact ⟨by omega, hle', by omega⟩

/-- No pass finds the vault overdue, then one finds it not overdue, and then one finds it overdue
    for the first heartbeat again. -/
def NoRelapse (history : List Sighting) : Prop :=
  ∀ lastHeartbeat stage calmHeartbeat stage', stage ≠ 0 → stage' ≠ 0 →
    ¬ [.found lastHeartbeat stage, .found calmHeartbeat 0, .found lastHeartbeat stage'].Sublist
      history

/-- For one heartbeat a stage is entered once; it is repeated, unless it is the last stage, after
    no less than its interval. -/
def Spaced (history : List Sighting) : Prop :=
  ∀ before push entry between push' entry' after,
    history = before ++ .accepted push entry :: between ++ .accepted push' entry' :: after →
    push'.lastHeartbeat = push.lastHeartbeat → push'.stage = push.stage →
    entry' = false ∧ push.stage ≤ 3 ∧ stageRecurInterval push.stage ≤ push'.time - push.time

/-- Between two pushes for one heartbeat, no pass finds the vault not overdue. -/
theorem InOrder.never_calm {before between after : List Sighting} {push push' : Push}
    {entry entry' : Bool}
    (h : InOrder first (before ++ .accepted push entry :: between ++
      .accepted push' entry' :: after))
    (hrelapse : NoRelapse (before ++ .accepted push entry :: between ++
      .accepted push' entry' :: after))
    (hsame : push'.lastHeartbeat = push.lastHeartbeat) (calmHeartbeat : Int) :
    .found calmHeartbeat 0 ∉ between := by
  intro hcalm
  have hdue' := h _ push' entry' after rfl
  have hdue := h before push entry (between ++ .accepted push' entry' :: after) (by simp)
  obtain ⟨lastHeartbeat, earlier, hheartbeat, rfl⟩ := hdue.found
  obtain ⟨lastHeartbeat', earlier', hheartbeat', hbetween⟩ := hdue'.found
  obtain rfl : lastHeartbeat = lastHeartbeat' :=
    Option.some.inj (hheartbeat.symm.trans (hsame.symm.trans hheartbeat'))
  -- The pass that pushes last has found the vault after the calm.
  rcases List.eq_nil_or_concat between with rfl | ⟨rest, x, rfl⟩
  · cases hcalm
  · rw [List.concat_eq_append, ← List.cons_append, ← List.append_assoc] at hbetween
    obtain ⟨-, hx⟩ := List.append_inj' hbetween rfl
    obtain rfl := List.singleton_inj.mp hx
    have hrest : .found calmHeartbeat 0 ∈ rest := by
      rw [List.concat_eq_append, List.mem_append, List.mem_singleton] at hcalm
      refine hcalm.resolve_right fun heq => ?_
      obtain ⟨-, hzero⟩ := Sighting.found.inj heq
      exact absurd hdue'.due.pos hzero.not_lt
    refine hrelapse lastHeartbeat push.stage calmHeartbeat push'.stage hdue.due.pos.ne'
      hdue'.due.pos.ne' ?_
    have hmid : [Sighting.found calmHeartbeat 0, .found lastHeartbeat push'.stage].Sublist
        (rest ++ [.found lastHeartbeat push'.stage]) :=
      (List.singleton_sublist.mpr hrest).append (.refl _)
    have hfirst : [Sighting.found lastHeartbeat push.stage].Sublist
        (earlier ++ [.found lastHeartbeat push.stage]) := List.sublist_append_right ..
    have hall := (hfirst.append (hmid.cons (.accepted push entry))).trans
      (List.sublist_append_left _ (.accepted push' entry' :: after))
    simpa using hall

theorem InOrder.spaced {history : List Sighting} (h : InOrder first history)
    (hrelapse : NoRelapse history) : Spaced history := by
  intro before push entry between push' entry' after heq hsame hstage
  rw [heq] at h hrelapse
  obtain ⟨last, hlast, hle, hfour, htime⟩ :=
    h.before.lastPush_since (h.never_calm hrelapse hsame)
  obtain ⟨hle', hdue, hentry, -⟩ := h _ push' entry' after rfl
  rw [hlast] at hdue
  rcases hdue with hlater | ⟨heq', hone, hthree, hrecur⟩ | ⟨heq', hnot⟩
  · omega
  · have := htime (by omega)
    rw [hstage] at hrecur
    exact ⟨Bool.eq_false_iff.mpr fun hnew => hentry hnew last hlast (by omega), by omega, by omega⟩
  · omega

/-! ## The history of a run -/

/-- The heartbeat and the stage that a pass finds when it reads an active vault. -/
def Stride.found (num : Arithmetic) (stride : Stride) : Option (Int × Nat) :=
  match stride.pass.phase, stride.answer with
  | .reading, .state (some ⟨some config, some lastHeartbeat⟩) =>
    if stride.live = true ∧ stride.moment.networkVerified = true ∧
        ¬ (config.active = false ∨ config.executed = true) then
      some (lastHeartbeat, (computeStage num lastHeartbeat config.heartbeatInterval
        stride.pass.row.stages stride.pass.now).stage)
    else none
  | _, _ => none

def Stride.sighting (num : Arithmetic) (stride : Stride) : Option Sighting :=
  match stride.found num with
  | some (lastHeartbeat, stage) => some (.found lastHeartbeat stage)
  | none =>
    match stride.pass.phase, stride.turn.next with
    | .sending (.stage stage) _ _, .finish .sent =>
      some (.accepted ⟨stride.pass.state.bind (·.lastHeartbeat), stage, stride.pass.now⟩
        (decide (stride.pass.row.lastStage ≠ stage)))
    | _, _ => none

theorem Stride.sighting_found {num : Arithmetic} {stride : Stride} {lastHeartbeat : Int}
    {stage : Nat} (h : stride.sighting num = some (.found lastHeartbeat stage)) :
    stride.found num = some (lastHeartbeat, stage) := by
  unfold Stride.sighting at h
  split at h
  next hfound =>
    cases h
    exact hfound
  · split at h
    · cases h
    · cases h

theorem Stride.sighting_accepted {num : Arithmetic} {stride : Stride} {push : Push} {entry : Bool}
    (h : stride.sighting num = some (.accepted push entry)) :
    ∃ stage message phase, stride.pass.phase = .sending (.stage stage) message phase ∧
      stride.turn.next = .finish .sent ∧
      push = ⟨stride.pass.state.bind (·.lastHeartbeat), stage, stride.pass.now⟩ ∧
      entry = decide (stride.pass.row.lastStage ≠ stage) := by
  unfold Stride.sighting at h
  split at h
  · cases h
  · split at h
    next stage' message phase hphase hsent =>
      cases h
      exact ⟨stage', message, phase, hphase, hsent, rfl, rfl⟩
    · cases h

/-- A pass that has read the vault before and goes on waiting adds nothing to the history. -/
theorem Stride.sighting_wait {num : Arithmetic} {stride : Stride} {p' : Pass}
    (hphase : stride.pass.phase ≠ .reading) (hnext : stride.turn.next = .wait p') :
    stride.sighting num = none := by
  have hfound : stride.found num = none := by
    unfold Stride.found
    split
    next hreading _ => exact absurd hreading hphase
    · rfl
  unfold Stride.sighting
  rw [hfound, hnext]
  dsimp only
  split
  next hsent => cases hsent
  · rfl

/-- What a step adds to the history of the vault. -/
def Stride.record (num : Arithmetic) (vault : String) (stride : Option Stride) : List Sighting :=
  ((stride.filter fun stride => stride.pass.row.vault = vault).bind (Stride.sighting num)).toList

/-- The history of a vault in a run. -/
def System.history (num : Arithmetic) (host : Host) (cfg : Config) (vault : String) :
    System → List Happening → List Sighting
  | _, [] => []
  | s, h :: hs =>
    let next := s.step num host cfg h
    Stride.record num vault next.2 ++ next.1.history num host cfg vault hs

section Effects

variable {num : Arithmetic} {live : Bool} {m : Moment} {p : Pass} {answer : Answer}

/-- A pass that finds the vault in some stage goes on with it in the same turn. -/
theorem Stride.found_eq_some {stride : Stride} {lastHeartbeat : Int} {stage : Nat}
    (h : stride.found num = some (lastHeartbeat, stage)) :
    ∃ state escalation, stride.pass.phase = .reading ∧ stride.answer = .state (some state) ∧
      stride.live = true ∧ stride.moment.networkVerified = true ∧
      Pass.Reads num { stride.pass with state := some state } lastHeartbeat escalation ∧
      escalation.stage = stage ∧
      stride.pass.resume num stride.live stride.moment stride.answer =
        Pass.escalate stride.live stride.moment { stride.pass with state := some state } escalation := by
  obtain ⟨cycle, p, live, m, answer, turn, store⟩ := stride
  unfold Stride.found at h
  dsimp only at h ⊢
  split at h
  next config heartbeat hphase =>
    split at h
    next hactive =>
      obtain ⟨rfl, rfl⟩ := Prod.mk.inj (Option.some.inj h)
      obtain ⟨hlive, hverified, hactive⟩ := hactive
      refine ⟨⟨some config, some heartbeat⟩, _, hphase, rfl, hlive, hverified,
        ⟨_, config, rfl, rfl, hactive, rfl, rfl⟩, rfl, ?_⟩
      simp [Pass.resume, hphase, Pass.act, hlive, hverified, if_neg hactive]
    · cases h
  · cases h

/-- A pass that finds the vault overdue changes nothing in the same turn. -/
theorem Pass.escalate_deeds {escalation : Escalation} (hstage : escalation.stage ≠ 0) :
    (p.escalate live m escalation).deeds = [] := by
  unfold Pass.escalate
  rw [if_neg hstage]
  split
  · rfl
  · exact Pass.remind_deeds _ _ _ _

/-- The pass is over when a push of a stage has been delivered, and the registration remembers it. -/
theorem Pass.resume_sent {stage : Nat} {message : Message} {phase : SendPhase}
    (hphase : p.phase = .sending (.stage stage) message phase)
    (h : (p.resume num live m answer).next = .finish .sent) :
    (p.resume num live m answer).deeds = [.updateNotifyState stage p.now] := by
  revert h
  unfold Pass.resume
  rw [hphase]
  split
  iterate 6
    next hother => cases hother
  next notice message' acquired hsending =>
    unfold Pass.send
    split
    · rw [p.settle_failed]
      exact nofun
    · split
      · rw [p.settle_suppressed]
        exact nofun
      · exact nofun
  next =>
    rw [p.settle_failed]
    exact nofun
  next => exact nofun
  next notice message' status code hsending =>
    obtain ⟨rfl, rfl, rfl⟩ := Phase.sending.inj hsending
    cases sendResult status code with
    | suppressed | unregistered | failed => exact nofun
    | ok => exact fun _ => rfl
  next => exact nofun

/-- A turn that adds nothing to the history leaves the columns alone. -/
theorem Pass.resume_unsighted {cycle : Nat} {store : Store}
    (h : Stride.sighting num ⟨cycle, p, live, m, answer, p.resume num live m answer, store⟩ = none)
    {lastStage : Nat} {lastNotifiedAt : Int} :
    .updateNotifyState lastStage lastNotifiedAt ∉ (p.resume num live m answer).deeds := by
  intro hdeed
  have hcauses := p.resume_accounts num live m answer _ hdeed
  unfold Stride.sighting at h
  dsimp only at h
  generalize (p.resume num live m answer).next = next at hcauses h
  cases hcauses with
  | @reset state config lastHeartbeat hlive hverified hphase hanswer hconfig hactive hheartbeat hstage =>
      obtain ⟨stateConfig, stateHeartbeat⟩ := state
      dsimp only at hconfig hheartbeat
      simp [Stride.found, hphase, hanswer, hconfig, hheartbeat, hlive, hverified, hactive] at h
  | @delivered stage message status code hphase hanswer hresult =>
      simp [Stride.found, hphase] at h

/-- What the deeds of a turn leave of the registration remembers what the turn adds to the
    history. -/
theorem Pass.resume_remembers {cycle : Nat} {store : Store} {history : List Sighting}
    {first : Option Push} (hrow : store.getRegistration p.row.vault = some p.row)
    (hremembers : p.row.Remembers (lastPush first history)) {row : Row} :
    let turn := p.resume num live m answer
    (turn.deeds.foldl (fun store deed => deed.apply p.row.vault store) store).getRegistration
        p.row.vault = some row →
      row.Remembers (lastPush first (history ++
        (Stride.sighting num ⟨cycle, p, live, m, answer, turn, store⟩).toList)) := by
  intro turn hafter
  cases hsighting : Stride.sighting num ⟨cycle, p, live, m, answer, turn, store⟩ with
  | none =>
      have hsame := Deed.foldl_same (fun _ _ => Pass.resume_unsighted hsighting) hafter
      obtain rfl := Option.some.inj (hrow.symm.trans hsame)
      simpa using hremembers
  | some sighting =>
      rw [Option.toList_some]
      cases sighting with
      | found lastHeartbeat stage =>
          obtain ⟨state, escalation, -, -, -, -, -, hstage, hturn⟩ :=
            Stride.found_eq_some (Stride.sighting_found hsighting)
          have hturn : turn = Pass.escalate live m { p with state := some state } escalation := hturn
          rw [lastPush_found]
          by_cases hzero : stage = 0
          · rw [if_pos hzero]
            rw [hturn, Pass.escalate, if_pos (hstage.trans hzero)] at hafter
            dsimp only at hafter
            split at hafter
            · exact (Deed.apply_update hafter).1
            next hlast =>
              obtain rfl := Option.some.inj (hrow.symm.trans hafter)
              exact not_not.mp hlast
          · rw [if_neg hzero]
            rw [hturn, Pass.escalate_deeds (hstage ▸ hzero)] at hafter
            obtain rfl := Option.some.inj (hrow.symm.trans hafter)
            exact hremembers
      | accepted push entry =>
          obtain ⟨stage, message, phase, hphase, hsent, rfl, -⟩ :=
            Stride.sighting_accepted hsighting
          have hdeeds : turn.deeds = [.updateNotifyState stage p.now] := Pass.resume_sent hphase hsent
          rw [hdeeds] at hafter
          rw [lastPush_accepted]
          exact Deed.apply_update hafter

/-- What a waiting pass is about to push is due for the stage that it has found last. -/
def Pass.Sound (num : Arithmetic) (history : List Sighting) (p : Pass) : Prop :=
  match p.phase with
  | .reading | .probing | .sending .complete _ _ => True
  | .executing escalation _ =>
    ∃ lastHeartbeat earlier, p.Reads num lastHeartbeat escalation ∧ escalation.stage = 4 ∧
      history = earlier ++ [.found lastHeartbeat 4]
  | .sending (.stage stage) _ _ =>
    ∃ lastHeartbeat escalation earlier, p.Reads num lastHeartbeat escalation ∧
      escalation.stage = stage ∧ p.row.pushDue p.now stage ∧
      history = earlier ++ [.found lastHeartbeat stage]

theorem Pass.act_live {state : VaultState} {p' : Pass} (h : (p.act num live m state).next = .wait p') :
    live = true ∧ m.networkVerified = true := by
  unfold Pass.act at h
  dsimp only at h
  split at h
  · cases h
  next hlive =>
    split at h
    · cases h
    next hverified =>
      exact ⟨Bool.eq_true_of_not_eq_false hlive, Bool.eq_true_of_not_eq_false hverified⟩

/-- What a pass that has read the vault and waits again adds to the history. -/
theorem Pass.Reads.sighting {state : VaultState} {lastHeartbeat : Int} {escalation : Escalation}
    (h : Pass.Reads num { p with state := some state } lastHeartbeat escalation)
    (hphase : p.phase = .reading) (hlive : live = true) (hverified : m.networkVerified = true)
    (cycle : Nat) (turn : Turn) (store : Store) :
    Stride.sighting num ⟨cycle, p, live, m, .state (some state), turn, store⟩ =
      some (.found lastHeartbeat escalation.stage) := by
  obtain ⟨_, config, hstate, hconfig, hactive, hheartbeat, rfl⟩ := h
  obtain rfl := Option.some.inj hstate
  obtain ⟨stateConfig, stateHeartbeat⟩ := state
  dsimp only at hconfig hheartbeat
  simp [Stride.sighting, Stride.found, hphase, hconfig, hheartbeat, hlive, hverified, hactive]

theorem Pass.resume_sound {p' : Pass} {history : List Sighting}
    (h : (p.resume num live m answer).next = .wait p') (hp : p.Sound num history)
    (cycle : Nat) (store : Store) :
    p'.Sound num (history ++ (Stride.sighting num
      ⟨cycle, p, live, m, answer, p.resume num live m answer, store⟩).toList) := by
  have hread : ∀ state, p.phase = .reading → answer = .state (some state) →
      live = true ∧ m.networkVerified = true := by
    intro state hphase hanswer
    have hact : p.resume num live m answer = p.act num live m state := by
      simp [Pass.resume, hphase, hanswer]
    exact Pass.act_live (hact ▸ h)
  have hwait : p.phase ≠ .reading → Stride.sighting num
      ⟨cycle, p, live, m, answer, p.resume num live m answer, store⟩ = none :=
    fun hphase => Stride.sighting_wait hphase h
  cases Pass.resume_waits h with
  | stay =>
      by_cases hphase : p.phase = .reading
      · rw [Pass.Sound, hphase]
        trivial
      · rw [hwait hphase]
        simpa using hp
  | probe | complete => trivial
  | execute hphase hanswer hreads hstage =>
      obtain ⟨hlive, hverified⟩ := hread _ hphase hanswer
      subst hanswer
      rw [hreads.sighting hphase hlive hverified, hstage]
      exact ⟨_, _, hreads, hstage, rfl⟩
  | revoke hphase =>
      rw [hwait (by simp [hphase]), Option.toList_none, List.append_nil]
      rw [Pass.Sound, hphase] at hp
      exact hp
  | remind hphase hanswer hreads _ hdue =>
      obtain ⟨hlive, hverified⟩ := hread _ hphase hanswer
      subst hanswer
      rw [hreads.sighting hphase hlive hverified]
      exact ⟨_, _, _, hreads, rfl, hdue, rfl⟩
  | driven hphase hdue =>
      rw [hwait (by simp [hphase]), Option.toList_none, List.append_nil]
      rw [Pass.Sound, hphase] at hp
      obtain ⟨lastHeartbeat, earlier, hreads, hfour, heq⟩ := hp
      exact ⟨lastHeartbeat, _, earlier, hreads, rfl, hdue, hfour ▸ heq⟩
  | @requested notice message hphase | @answered notice message _ hphase =>
      rw [hwait (by simp [hphase]), Option.toList_none, List.append_nil]
      rw [Pass.Sound, hphase] at hp
      cases notice with
      | complete => trivial
      | stage stage => exact hp

theorem computeStage_le_four (num : Arithmetic) (lastHeartbeat interval : Int) (stages : Stages)
    (now : Int) : (computeStage num lastHeartbeat interval stages now).stage ≤ 4 := by
  unfold computeStage
  dsimp only
  repeat' split
  all_goals decide

end Effects

/-! ## Tracking -/

/-- The passes over the vault work on the registration as it is, one at a time, and it remembers
    the history. -/
structure System.Tracked (num : Arithmetic) (vault : String) (first : Option Push)
    (history : List Sighting) (s : System) : Prop where
  single : s.watch.countP (fun w => w.2.row.vault = vault) ≤ 1
  current : ∀ w ∈ s.watch, w.2.row.vault = vault →
    s.server.store.getRegistration vault = some w.2.row ∧ w.2.Sound num history
  remembers : ∀ row, s.server.store.getRegistration vault = some row →
    row.Remembers (lastPush first history)
  inOrder : InOrder first history

/-- A cycle that starts finds no pass over the vault. -/
def System.Clear (vault : String) (s : System) : Prop :=
  ∀ w ∈ s.watch, w.2.row.vault ≠ vault

section Step

variable {num : Arithmetic} {host : Host} {cfg : Config} {vault : String}
  {first : Option Push} {history : List Sighting} {s s' : System}

theorem System.Tracked.idle (hs : s.Tracked num vault first history)
    (hserver : s'.server = s.server) (hwatch : s'.watch.Sublist s.watch) :
    s'.Tracked num vault first history where
  single := hwatch.countP_le.trans hs.single
  current w hw hvault := by
    rw [hserver]
    exact hs.current w (hwatch.subset hw) hvault
  remembers := by
    rw [hserver]
    exact hs.remembers
  inOrder := hs.inOrder

/-- The rows of a store are of different vaults. -/
theorem Store.countP_le_one (store : Store) (vault : String) :
    store.rows.countP (fun row => row.vault = vault) ≤ 1 := by
  have hcount := List.nodup_iff_count_le_one.mp store.unique vault
  rw [List.count, List.countP_map] at hcount
  refine le_trans (le_of_eq (List.countP_congr fun row _ => ?_)) hcount
  simp

theorem System.Tracked.start (hs : s.Tracked num vault first history) (hclear : s.Clear vault)
    {now : Int} (hserver : s'.server = s.server)
    (hwatch : s'.watch = s.watch ++
      s.server.store.rows.map (fun row => (s.started, ({ row, now } : Pass)))) :
    s'.Tracked num vault first history where
  single := by
    have hold : s.watch.countP (fun w => w.2.row.vault = vault) = 0 :=
      List.countP_eq_zero.mpr fun w hw => by simpa using hclear w hw
    rw [hwatch, List.countP_append, hold, Nat.zero_add, List.countP_map]
    exact s.server.store.countP_le_one vault
  current w hw hvault := by
    rw [hserver]
    rw [hwatch] at hw
    rcases List.mem_append.mp hw with hold | hnew
    · exact hs.current w hold hvault
    · obtain ⟨row, hrow, rfl⟩ := List.mem_map.mp hnew
      exact ⟨Store.getRegistration_eq_some.mpr ⟨hrow, hvault⟩, trivial⟩
  remembers := by
    rw [hserver]
    exact hs.remembers
  inOrder := hs.inOrder

/-- A turn of a pass over another vault. -/
theorem System.Tracked.other (hs : s.Tracked num vault first history) {pre post : List (Nat × Pass)}
    {cycle : Nat} {p : Pass} {live : Bool} {m : Moment} {answer : Answer}
    (hbefore : s.watch = pre ++ (cycle, p) :: post) (hvault : p.row.vault ≠ vault)
    (hstore : s'.server.store = (p.resume num live m answer).deeds.foldl
      (fun store deed => deed.apply p.row.vault store) s.server.store)
    (hafter : s'.watch = pre ++ (p.resume num live m answer).next.watch cycle ++ post) :
    s'.Tracked num vault first history := by
  have hrow : s'.server.store.getRegistration vault = s.server.store.getRegistration vault := by
    rw [hstore, Deed.foldl_other hvault.symm]
  have hnext : ∀ w ∈ (p.resume num live m answer).next.watch cycle, w.2.row.vault ≠ vault := by
    intro w hw
    cases hresume : (p.resume num live m answer).next with
    | finish | threw =>
        rw [hresume] at hw
        cases hw
    | wait p' =>
        rw [hresume] at hw
        rw [List.mem_singleton.mp hw, (Pass.resume_waits hresume).same.1]
        exact hvault
  refine ⟨?_, fun w hw hw' => ?_, ?_, hs.inOrder⟩
  · have hzero : ((p.resume num live m answer).next.watch cycle).countP
        (fun w => w.2.row.vault = vault) = 0 :=
      List.countP_eq_zero.mpr fun w hw => by simpa using hnext w hw
    have hsingle := hs.single
    rw [hbefore, List.countP_append, List.countP_cons_of_neg (by simpa using hvault)] at hsingle
    rw [hafter, List.countP_append, List.countP_append, hzero, Nat.add_zero]
    exact hsingle
  · rw [hrow]
    rw [hafter] at hw
    rcases List.mem_append.mp hw with hw | hpost
    · rcases List.mem_append.mp hw with hpre | hmid
      · exact hs.current w (by simp [hbefore, hpre]) hw'
      · exact absurd hw' (hnext w hmid)
    · exact hs.current w (by simp [hbefore, hpost]) hw'
  · rw [hrow]
    exact hs.remembers

/-- A pass that has pushed a stage did so when it was due. -/
theorem System.Tracked.record (hs : s.Tracked num vault first history) {stride : Stride}
    (hrow : s.server.store.getRegistration vault = some stride.pass.row)
    (hsound : stride.pass.Sound num history) :
    InOrder first (history ++ (stride.sighting num).toList) := by
  cases hsighting : stride.sighting num with
  | none => simpa using hs.inOrder
  | some sighting =>
      cases sighting with
      | found lastHeartbeat stage => exact hs.inOrder.found
      | accepted push entry =>
          obtain ⟨stage, message, phase, hphase, -, rfl, rfl⟩ := Stride.sighting_accepted hsighting
          rw [Pass.Sound, hphase] at hsound
          obtain ⟨heartbeat, escalation, earlier, hreads, rfl, hdue, hfound⟩ := hsound
          obtain ⟨state, config, hstate, -, -, hheartbeat, rfl⟩ := hreads
          have hremembers := hs.remembers _ hrow
          refine hs.inOrder.accepted ⟨computeStage_le_four .., hremembers.pushDue_iff.mp hdue, ?_,
            heartbeat, earlier, ?_, hfound⟩
          · intro hentry last hlast heq
            rw [hlast] at hremembers
            exact of_decide_eq_true hentry (hremembers.1.trans heq)
          · rw [hstate]
            exact hheartbeat

/-- A turn of the pass over the vault. -/
theorem System.Tracked.own (hs : s.Tracked num vault first history) {pre post : List (Nat × Pass)}
    {cycle : Nat} {p : Pass} {live : Bool} {m : Moment} {answer : Answer}
    (hbefore : s.watch = pre ++ (cycle, p) :: post) (hvault : p.row.vault = vault)
    (hstore : s'.server.store = (p.resume num live m answer).deeds.foldl
      (fun store deed => deed.apply p.row.vault store) s.server.store)
    (hafter : s'.watch = pre ++ (p.resume num live m answer).next.watch cycle ++ post) :
    s'.Tracked num vault first (history ++ (Stride.sighting num
      ⟨cycle, p, live, m, answer, p.resume num live m answer, s.server.store⟩).toList) := by
  obtain ⟨hrow, hsound⟩ := hs.current (cycle, p) (by simp [hbefore]) hvault
  -- It is the only one.
  have hsingle := hs.single
  rw [hbefore, List.countP_append, List.countP_cons_of_pos (by simpa using hvault)] at hsingle
  have hpre : pre.countP (fun w => w.2.row.vault = vault) = 0 := by omega
  have hpost : post.countP (fun w => w.2.row.vault = vault) = 0 := by omega
  refine ⟨?_, fun w hw hw' => ?_, fun row hrow' => ?_, hs.record hrow hsound⟩
  · have hone : ((p.resume num live m answer).next.watch cycle).countP
        (fun w => w.2.row.vault = vault) ≤ 1 := by
      refine List.countP_le_length.trans ?_
      cases (p.resume num live m answer).next <;> simp [Next.watch]
    rw [hafter, List.countP_append, List.countP_append]
    omega
  · rw [hafter] at hw
    rcases List.mem_append.mp hw with hw | hmem
    · rcases List.mem_append.mp hw with hmem | hnext
      · exact absurd hw' (by simpa using List.countP_eq_zero.mp hpre w hmem)
      · cases hresume : (p.resume num live m answer).next with
        | finish | threw =>
            rw [hresume] at hnext
            cases hnext
        | wait p' =>
            rw [hresume] at hnext
            rw [List.mem_singleton.mp hnext]
            refine ⟨?_, Pass.resume_sound hresume hsound cycle s.server.store⟩
            rw [hstore, Deed.foldl_unchanged (Pass.resume_unchanged hresume),
              (Pass.resume_waits hresume).same.1]
            exact hrow
    · exact absurd hw' (by simpa using List.countP_eq_zero.mp hpost w hmem)
  · rw [hstore, ← hvault] at hrow'
    rw [← hvault] at hrow
    have hremembers := hs.remembers p.row (hvault ▸ hrow)
    exact Pass.resume_remembers hrow hremembers hrow'

theorem System.Tracked.step (hs : s.Tracked num vault first history) {h : Happening}
    (hpoll : ∀ e, h ≠ .request e)
    (hclear : (s.step num host cfg h).1.started ≠ s.started → s.Clear vault) :
    (s.step num host cfg h).1.Tracked num vault first
      (history ++ Stride.record num vault (s.step num host cfg h).2) := by
  have hmoves := s.step_moves num host cfg h
  generalize s.step num host cfg h = next at hmoves hclear ⊢
  obtain ⟨s', stride⟩ := next
  dsimp only at hmoves hclear ⊢
  cases hmoves with
  | idle hserver _ hwatch => simpa [Stride.record] using hs.idle hserver hwatch
  | start now hserver hstarted hwatch =>
      simpa [Stride.record] using hs.start (hclear (by omega)) hserver hwatch
  | request e heq => exact absurd heq (hpoll e)
  | turn cycle p live m answer hbefore hstore _ hafter =>
      by_cases hvault : p.row.vault = vault
      · simpa [Stride.record, Option.filter, hvault] using hs.own hbefore hvault hstore hafter
      · simpa [Stride.record, Option.filter, hvault] using hs.other hbefore hvault hstore hafter

end Step

end DeadMansVault.Notify
