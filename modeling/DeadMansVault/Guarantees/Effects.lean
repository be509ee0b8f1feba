-- SUMMARY: A pass of the poller acts on the outside only while it is live and the network is verified.
import DeadMansVault.Notify.Turns

/-!
# Effects

A pass may lose its time limit, and the network its verification, while it waits
for anything. What it starts to do afterwards is nothing, but for writing down
what has definitely become of a push that it started before.
-/

namespace DeadMansVault.Notify

variable {num : Arithmetic} {p : Pass} {row : Row} {now : Int}

/-- What a turn meets: whether the pass is live, the surroundings, and the answer to its await. -/
structure Input where
  live : Bool
  moment : Moment
  answer : Answer

/-- The turns of a pass that gets these answers. -/
def Next.run (num : Arithmetic) : Next → List Input → List (Input × Turn)
  | .wait p, i :: inputs =>
    let turn := p.resume num i.live i.moment i.answer
    (i, turn) :: turn.next.run num inputs
  | _, _ => []

/-- All the turns of a pass behind its first one. -/
def passRun (num : Arithmetic) (row : Row) (now : Int) (m : Moment) (inputs : List Input) :
    List (Input × Turn) :=
  (processRegistrationTurn m row now).next.run num inputs

/-- FCM has been asked before. -/
def Requested (history : List (Input × Turn)) : Prop :=
  ∃ t ∈ history, ∃ token message, .request token message ∈ t.2.deeds

/-- The push has been delivered, or its device token is dead. -/
def Definitive (history : List (Input × Turn)) (i : Input) : Prop :=
  Requested history ∧ ∃ status code, (∃ t ∈ history, t.1.answer = .response (some status)) ∧
    i.answer = .body code ∧ (sendResult status code = .ok ∨ sendResult status code = .unregistered)

/-- What a turn may do, after this history. -/
structure LawfulTurn (history : List (Input × Turn)) (i : Input) (turn : Turn) : Prop where
  verified : ∀ deed ∈ turn.deeds, (i.live = true ∧ i.moment.networkVerified = true) ∨
    (deed.change.isSome = true ∧ Definitive history i)
  /-- A registration goes after a probe that has found the program, after a read that has found
      the vault inactive, or after a push. -/
  deleted : .deleteRegistration ∈ turn.deeds → i.answer = .program (some true) ∨
    (∃ state config, i.answer = .state (some state) ∧ state.config = some config ∧
      (config.active = false ∨ config.executed = true)) ∨ Definitive history i
  missing : .deleteRegistration ∈ turn.deeds → turn.next = .finish .deregisteredMissing →
    i.answer = .program (some true) ∧ i.live = true ∧ i.moment.networkVerified = true
  /-- A send that was suppressed or has failed changes nothing, neither now nor before. -/
  failed : turn.next = .finish .sendFailed ∨ turn.next = .finish .netUnverified →
    turn.deeds = [] ∧ ∀ t ∈ history, ∀ deed ∈ t.2.deeds, deed.change = none

/-! ## What a waiting pass has done -/

/-- The history of a pass that waits. -/
structure Started (history : List (Input × Turn)) (p : Pass) : Prop where
  unchanged : ∀ t ∈ history, ∀ deed ∈ t.2.deeds, deed.change = none
  requested : ∀ notice message, p.phase = .sending notice message .response → Requested history
  answered : ∀ notice message status, p.phase = .sending notice message (.body status) →
    Requested history ∧ ∃ t ∈ history, t.1.answer = .response (some status)

theorem Requested.append {history : List (Input × Turn)} (h : Requested history)
    (t : Input × Turn) : Requested (history ++ [t]) := by
  obtain ⟨t', ht', hrequest⟩ := h
  exact ⟨t', List.mem_append_left _ ht', hrequest⟩

theorem Started.definitive {history : List (Input × Turn)} (hp : Started history p)
    {notice : Notice} {message : Message} {status : Nat} {code : Option String} {i : Input}
    (hphase : p.phase = .sending notice message (.body status)) (hanswer : i.answer = .body code)
    (hresult : sendResult status code = .ok ∨ sendResult status code = .unregistered) :
    Definitive history i := by
  obtain ⟨hrequested, hanswered⟩ := hp.answered _ _ _ hphase
  exact ⟨hrequested, status, code, hanswered, hanswer, hresult⟩

/-- A turn of a waiting pass does what it may do. -/
theorem Started.lawful {history : List (Input × Turn)} (hp : Started history p) (i : Input) :
    LawfulTurn history i (p.resume num i.live i.moment i.answer) := by
  have haccounts := p.resume_accounts num i.live i.moment i.answer
  generalize p.resume num i.live i.moment i.answer = turn at haccounts ⊢
  obtain ⟨deeds, next⟩ := turn
  refine ⟨fun deed hdeed => ?_, fun hdeed => ?_, fun hdeed hnext => ?_, fun hnext => ⟨?_, hp.unchanged⟩⟩
  · cases haccounts deed hdeed with
    | request hlive hverified _ => exact .inl ⟨hlive, hverified⟩
    | submission hlive hready => exact .inl ⟨hlive, i.moment.executorReady_verified hready⟩
    | reset hlive hverified => exact .inl ⟨hlive, hverified⟩
    | missing hlive hverified => exact .inl ⟨hlive, hverified⟩
    | inactive hlive hverified => exact .inl ⟨hlive, hverified⟩
    | delivered hphase hanswer hresult =>
        exact .inr ⟨rfl, hp.definitive hphase hanswer (.inl hresult)⟩
    | completed hphase hanswer hresult =>
        exact .inr ⟨rfl, hp.definitive hphase hanswer (.inl hresult)⟩
    | dead hphase hanswer hresult =>
        exact .inr ⟨rfl, hp.definitive hphase hanswer (.inr hresult)⟩
  · cases haccounts _ hdeed with
    | missing _ _ _ hanswer => exact .inl hanswer
    | inactive _ _ _ hanswer hconfig hinactive =>
        exact .inr (.inl ⟨_, _, hanswer, hconfig, hinactive⟩)
    | completed hphase hanswer hresult =>
        exact .inr (.inr (hp.definitive hphase hanswer (.inl hresult)))
    | dead hphase hanswer hresult =>
        exact .inr (.inr (hp.definitive hphase hanswer (.inr hresult)))
  · cases haccounts _ hdeed with
    | missing hlive hverified _ hanswer => exact ⟨hanswer, hlive, hverified⟩
    | inactive | completed => cases hnext
    | dead =>
        dsimp only at hnext
        split at hnext
        · cases hnext
        · cases hnext
  · -- None of the causes ends so.
    refine List.eq_nil_iff_forall_not_mem.mpr fun deed hdeed => ?_
    cases haccounts _ hdeed with
    | request | submission | reset | missing | inactive | delivered | completed => simp at hnext
    | dead =>
        dsimp only at hnext
        split at hnext
        · simp at hnext
        · simp at hnext

/-- A pass that waits again has changed nothing, and knows what it has started. -/
theorem Started.resume {history : List (Input × Turn)} (hp : Started history p) (i : Input)
    {p' : Pass} (h : (p.resume num i.live i.moment i.answer).next = .wait p') :
    Started (history ++ [(i, p.resume num i.live i.moment i.answer)]) p' := by
  refine ⟨fun t ht => ?_, fun notice message hphase' => ?_, fun notice message status hphase' => ?_⟩
  · rcases List.mem_append.mp ht with hold | hnew
    · exact hp.unchanged t hold
    · rw [List.mem_singleton.mp hnew]
      have haccounts := p.resume_accounts num i.live i.moment i.answer
      generalize p.resume num i.live i.moment i.answer = turn at haccounts h
      obtain ⟨deeds, next⟩ := turn
      intro deed hdeed
      cases haccounts deed hdeed with
      | request | submission => rfl
      | reset | missing | inactive | delivered | completed | dead => cases h
  · cases Pass.resume_waits h with
    | stay => exact (hp.requested notice message hphase').append _
    | requested hphase hanswer hlive hverified =>
        refine ⟨_, List.mem_append_right _ (List.mem_singleton_self _), p.row.deviceToken, message, ?_⟩
        obtain ⟨rfl, rfl, -⟩ := Phase.sending.inj hphase'
        simp [Pass.resume, hphase, hanswer, Pass.send, hlive, hverified]
    | probe | execute | revoke | remind | driven | complete | answered => cases hphase'
  · cases Pass.resume_waits h with
    | stay =>
        obtain ⟨hrequested, t, ht, hanswer⟩ := hp.answered notice message status hphase'
        exact ⟨hrequested.append _, t, List.mem_append_left _ ht, hanswer⟩
    | answered hphase hanswer =>
        obtain ⟨rfl, rfl, hbody⟩ := Phase.sending.inj hphase'
        obtain rfl := SendPhase.body.inj hbody
        exact ⟨(hp.requested _ _ hphase).append _, _,
          List.mem_append_right _ (List.mem_singleton_self _), hanswer⟩
    | probe | execute | revoke | remind | driven | complete | requested => cases hphase'

/-- Every turn of a run is lawful after the turns before it. -/
theorem lawful_run {history : List (Input × Turn)} {next : Next}
    (hnext : ∀ p, next = .wait p → Started history p) (inputs : List Input) :
    ∀ pre i turn post, next.run num inputs = pre ++ (i, turn) :: post →
      LawfulTurn (history ++ pre) i turn := by
  induction inputs generalizing history next with
  | nil =>
      intro pre i turn post hrun
      cases next <;> cases pre <;> cases hrun
  | cons i inputs ih =>
      cases next with
      | finish | threw =>
          intro pre i turn post hrun
          cases pre <;> cases hrun
      | wait p =>
          have hp := hnext p rfl
          intro pre i' turn post hrun
          cases pre with
          | nil =>
              obtain ⟨heq, -⟩ := List.cons.inj hrun
              cases heq
              rw [List.append_nil]
              exact hp.lawful i
          | cons t pre =>
              obtain ⟨rfl, hrest⟩ := List.cons.inj hrun
              have hlawful := ih (fun p' hp' => hp.resume i hp') pre i' turn post hrest
              rwa [List.append_assoc] at hlawful

/-- A pass that waits for the first time has done nothing. -/
theorem Started.start {m : Moment} (h : (processRegistrationTurn m row now).next = .wait p) :
    Started [] p := by
  have hphase : p.phase = .reading := by
    unfold processRegistrationTurn at h
    split at h
    · cases h
    · rw [← Next.wait.inj h]
  refine ⟨fun t ht => absurd ht List.not_mem_nil, fun notice message hsending => ?_,
    fun notice message status hsending => ?_⟩
  · cases hphase.symm.trans hsending
  · cases hphase.symm.trans hsending

/-- Whatever the pass meets, it lives up to its history; its first turn does nothing. -/
theorem poller_effects_verified (num : Arithmetic) (row : Row) (now : Int) (m : Moment)
    (inputs : List Input) :
    (processRegistrationTurn m row now).deeds = [] ∧
    ∀ history i turn rest, passRun num row now m inputs = history ++ (i, turn) :: rest →
      LawfulTurn history i turn := by
  constructor
  · unfold processRegistrationTurn
    split
    · rfl
    · rfl
  · intro history i turn rest hrun
    exact lawful_run (fun p hp => Started.start hp) inputs history i turn rest hrun

end DeadMansVault.Notify
