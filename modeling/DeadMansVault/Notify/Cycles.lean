-- SUMMARY: Poll cycles in one process: the ticks, the watchdog, manual polls, and the workers, next to the requests.
import DeadMansVault.Notify.Admission
import DeadMansVault.Notify.Turns

/-!
# Poll cycles

A cycle takes all the registrations at its start, and its workers process them, a
few at a time. A worker whose time limit has passed goes on with the next
registration; the pass it leaves behind goes on too. Nothing keeps a second cycle
from starting meanwhile: the watchdog and manual polls do not wait, and the
requests change the registrations at any time.
-/

namespace DeadMansVault.Notify

def pollConcurrency : Nat := 4
def maxTickMs : Int := 5 * 60000

/-- A registration in a cycle, as it was when the cycle began. -/
inductive Job
  /-- No worker has taken it yet. -/
  | queued (cycle : Nat) (now : Int) (row : Row)
  /-- Its pass is in progress, and `live` until its worker leaves it. -/
  | running (cycle : Nat) (pass : Pass) (live : Bool)

namespace Job

def cycle : Job → Nat
  | queued cycle _ _ => cycle
  | running cycle _ _ => cycle

def row : Job → Row
  | queued _ _ row => row
  | running _ pass _ => pass.row

def isQueued : Job → Bool
  | queued .. => true
  | running .. => false

/-- A worker is with it. -/
def isBusy : Job → Bool
  | queued .. => false
  | running _ _ live => live

end Job

structure System where
  server : Server
  jobs : List Job
  /-- How many cycles have been started. -/
  started : Nat
  /-- The flag of the timer, with the time when it was set. -/
  runningSince : Option Int
  /-- The cycles that the timer has started, and waits for. -/
  ticks : List Nat

inductive Happening
  | request (e : Event)
  /-- The timer goes off, at a time in milliseconds. -/
  | tick (ms : Int) (networkVerified : Bool)
  /-- A manual poll. -/
  | pollNow (ms : Int) (networkVerified : Bool)
  /-- A worker takes the job at this place. -/
  | take (index : Nat) (m : Moment)
  /-- The time limit of the pass at this place is over. -/
  | expire (index : Nat)
  | resume (index : Nat) (m : Moment) (answer : Answer) (dbFails : Bool)
  /-- The workers of a cycle have nothing left to do. -/
  | finish (cycle : Nat)

/-- The registration's deeds in the store. -/
def Deed.apply (vault : String) : Deed → Store → Store
  | updateNotifyState lastStage lastNotifiedAt, s => s.updateNotifyState vault lastStage lastNotifiedAt
  | deleteRegistration, s => s.deleteRegistration vault
  | request _ _, s | submission, s => s

/-- A deed leaves the registrations of other vaults as they are. -/
theorem Deed.apply_other {vault vault' : String} (hne : vault' ≠ vault) (deed : Deed) (s : Store) :
    (deed.apply vault s).getRegistration vault' = s.getRegistration vault' := by
  cases deed with
  | request | submission => rfl
  | updateNotifyState lastStage lastNotifiedAt =>
      rw [Deed.apply, Store.updateNotifyState, Store.getRegistration_update, if_neg hne]
  | deleteRegistration =>
      rw [Deed.apply, Store.deleteRegistration, Store.getRegistration_delete]
      cases hrow : s.getRegistration vault' with
      | none => rfl
      | some row =>
          have hvault := (Store.getRegistration_eq_some.mp hrow).2
          simp [hvault, hne]

theorem Deed.foldl_other {vault vault' : String} (hne : vault' ≠ vault) (deeds : List Deed)
    (s : Store) :
    (deeds.foldl (fun store deed => deed.apply vault store) s).getRegistration vault' =
      s.getRegistration vault' := by
  induction deeds generalizing s with
  | nil => rfl
  | cons deed deeds ih => rw [List.foldl_cons, ih, Deed.apply_other hne]

/-- The columns after an update of the notification state. -/
theorem Deed.apply_update {vault : String} {lastStage : Nat} {lastNotifiedAt : Int} {s : Store}
    {row : Row}
    (h : ((updateNotifyState lastStage lastNotifiedAt).apply vault s).getRegistration vault = some row) :
    row.lastStage = lastStage ∧ row.lastNotifiedAt = lastNotifiedAt := by
  rw [Deed.apply, Store.updateNotifyState, Store.getRegistration_update, if_pos rfl] at h
  obtain ⟨row', -, rfl⟩ := Option.map_eq_some_iff.mp h
  exact ⟨rfl, rfl⟩

/-- Without an update, a registration that is still there is the one that was there. -/
theorem Deed.foldl_same {vault : String} {deeds : List Deed} {s : Store} {row : Row}
    (hno : ∀ lastStage lastNotifiedAt, updateNotifyState lastStage lastNotifiedAt ∉ deeds)
    (h : (deeds.foldl (fun store deed => deed.apply vault store) s).getRegistration vault = some row) :
    s.getRegistration vault = some row := by
  induction deeds generalizing s with
  | nil => exact h
  | cons deed deeds ih =>
      have hrest : (deed.apply vault s).getRegistration vault = some row :=
        ih (fun a b hmem => hno a b (List.mem_cons_of_mem deed hmem)) h
      cases deed with
      | request | submission => exact hrest
      | updateNotifyState a b => exact absurd List.mem_cons_self (hno a b)
      | deleteRegistration =>
          rw [Deed.apply, Store.deleteRegistration, Store.getRegistration_delete] at hrest
          exact (Option.filter_eq_some_iff.mp hrest).1

theorem Deed.foldl_unchanged {vault : String} {deeds : List Deed}
    (h : ∀ deed ∈ deeds, deed.change = none) (s : Store) :
    deeds.foldl (fun store deed => deed.apply vault store) s = s := by
  induction deeds generalizing s with
  | nil => rfl
  | cons deed deeds ih =>
      have hhead := h deed List.mem_cons_self
      have hrest := ih fun deed' hdeed' => h deed' (List.mem_cons_of_mem deed hdeed')
      cases deed with
      | request | submission => exact hrest s
      | updateNotifyState | deleteRegistration => cases hhead

/-- `pollOnce` up to its first await. -/
def System.startCycle (s : System) (ms : Int) : System :=
  { s with
    jobs := s.jobs ++ s.server.store.rows.map fun row => .queued s.started (ms / 1000) row
    started := s.started + 1 }

/-- The job at this place is the next one of its cycle, and a worker of the cycle is free. -/
def System.mayTake (s : System) (index cycle : Nat) : Bool :=
  (s.jobs.take index).all (fun job => job.cycle ≠ cycle || !job.isQueued) &&
    s.jobs.countP (fun job => job.cycle = cycle && job.isBusy) < pollConcurrency

/-- A turn of a pass, with the store before it. -/
structure Stride where
  cycle : Nat
  pass : Pass
  live : Bool
  moment : Moment
  answer : Answer
  turn : Turn
  store : Store

/-- A pass goes on. Its changes are made unless the database fails, which ends it. -/
def System.stride (num : Arithmetic) (s : System) (index cycle : Nat) (p : Pass) (live : Bool)
    (m : Moment) (answer : Answer) (dbFails : Bool) : System × Option Stride :=
  let turn := p.resume num live m answer
  let store := s.server.store
  let failed : Bool := dbFails && turn.deeds.any fun deed => deed.change.isSome
  ({ s with
     server := { s.server with
       store := if failed then store
         else turn.deeds.foldl (fun store deed => deed.apply p.row.vault store) store }
     jobs := match turn.next with
       | .wait pass => s.jobs.set index (.running cycle pass live)
       | .finish _ | .threw => s.jobs.eraseIdx index },
   if failed then none else some ⟨cycle, p, live, m, answer, turn, store⟩)

def System.step (num : Arithmetic) (host : Host) (cfg : Config) (s : System) :
    Happening → System × Option Stride
  | .request (.deleteRegistration _) | .request (.updateNotifyState ..) => (s, none)
  | .request e => ({ s with server := (s.server.step host cfg e).1 }, none)
  | .tick ms networkVerified =>
    if s.runningSince.any fun since => decide (ms - since < maxTickMs) then (s, none)
    else if networkVerified then
      ({ s.startCycle ms with runningSince := some ms, ticks := s.started :: s.ticks }, none)
    else ({ s with runningSince := none }, none)
  | .pollNow ms networkVerified =>
    if networkVerified then (s.startCycle ms, none) else (s, none)
  | .take index m =>
    match s.jobs[index]? with
    | some (.queued cycle now row) =>
      if s.mayTake index cycle then
        ({ s with
           jobs := match (processRegistrationTurn m row now).next with
             | .wait pass => s.jobs.set index (.running cycle pass true)
             | .finish _ | .threw => s.jobs.eraseIdx index }, none)
      else (s, none)
    | _ => (s, none)
  | .expire index =>
    match s.jobs[index]? with
    | some (.running cycle pass _) =>
      ({ s with jobs := s.jobs.set index (.running cycle pass false) }, none)
    | _ => (s, none)
  | .resume index m answer dbFails =>
    match s.jobs[index]? with
    | some (.running cycle pass live) => s.stride num index cycle pass live m answer dbFails
    | _ => (s, none)
  | .finish cycle =>
    if cycle ∈ s.ticks ∧ ∀ job ∈ s.jobs, job.cycle = cycle → (job.isQueued || job.isBusy) = false then
      ({ s with runningSince := none, ticks := s.ticks.erase cycle }, none)
    else (s, none)

def System.run (num : Arithmetic) (host : Host) (cfg : Config) (s : System) (hs : List Happening) :
    System :=
  hs.foldl (fun s h => (s.step num host cfg h).1) s

/-- The process when it comes up. -/
def System.start (store : Store) : System where
  server := Server.start store
  jobs := []
  started := 0
  runningSince := none
  ticks := []

section Run

variable {num : Arithmetic} {host : Host} {cfg : Config}

@[simp] theorem System.run_nil (s : System) : s.run num host cfg [] = s := rfl

@[simp] theorem System.run_cons (s : System) (h : Happening) (hs : List Happening) :
    s.run num host cfg (h :: hs) = (s.step num host cfg h).1.run num host cfg hs := rfl

theorem System.run_append (s : System) (hs hs' : List Happening) :
    s.run num host cfg (hs ++ hs') = (s.run num host cfg hs).run num host cfg hs' :=
  List.foldl_append ..

end Run

/-! ## What a step does -/

/-- The pass of a job, which has not begun while the job is queued. -/
def Job.pass : Job → Pass
  | queued _ now row => { row, now }
  | running _ pass _ => pass

/-- The passes that are in progress or to come, each with its cycle. -/
def System.watch (s : System) : List (Nat × Pass) :=
  s.jobs.map fun job => (job.cycle, job.pass)

def Next.watch (cycle : Nat) : Next → List (Nat × Pass)
  | wait p => [(cycle, p)]
  | finish _ | threw => []

/-- What a step is for the passes and the store. -/
inductive System.Moves (num : Arithmetic) (host : Host) (cfg : Config) (s : System) (h : Happening) :
    System → Option Stride → Prop
  /-- Nothing happens to the store, and no pass comes or goes on. -/
  | idle {s' : System} :
      s'.server = s.server → s'.started = s.started → s'.watch.Sublist s.watch →
      Moves num host cfg s h s' none
  | start {s' : System} (now : Int) :
      s'.server = s.server → s'.started = s.started + 1 →
      s'.watch = s.watch ++
        s.server.store.rows.map (fun row => (s.started, ({ row, now } : Pass))) →
      Moves num host cfg s h s' none
  | request {s' : System} (e : Event) :
      h = .request e → s'.server = (s.server.step host cfg e).1 → s'.started = s.started → s'.watch = s.watch →
      Moves num host cfg s h s' none
  /-- A pass waits for something else now, or is over. -/
  | turn {s' : System} {pre post : List (Nat × Pass)} (cycle : Nat) (p : Pass) (live : Bool)
      (m : Moment) (answer : Answer) :
      s.watch = pre ++ (cycle, p) :: post →
      s'.server.store = (p.resume num live m answer).deeds.foldl
        (fun store deed => deed.apply p.row.vault store) s.server.store →
      s'.started = s.started →
      s'.watch = pre ++ (p.resume num live m answer).next.watch cycle ++ post →
      Moves num host cfg s h s'
        (some ⟨cycle, p, live, m, answer, p.resume num live m answer, s.server.store⟩)

section Moves

variable {num : Arithmetic} {host : Host} {cfg : Config} {s : System}

theorem processRegistrationTurn_wait {m : Moment} {row : Row} {now : Int} {p : Pass}
    (h : (processRegistrationTurn m row now).next = .wait p) : p = { row, now } := by
  unfold processRegistrationTurn at h
  split at h
  · cases h
  · exact (Next.wait.inj h).symm

/-- A job that is replaced by one with the same pass. -/
theorem System.watch_same {index : Nat} {job job' : Job} (h : s.jobs[index]? = some job)
    (hcycle : job'.cycle = job.cycle) (hpass : job'.pass = job.pass) :
    (s.jobs.set index job').map (fun job => (job.cycle, job.pass)) = s.watch := by
  obtain ⟨hlt, rfl⟩ := List.getElem?_eq_some_iff.mp h
  rw [List.map_set, hcycle, hpass, watch]
  have hlt' : index < (s.jobs.map fun job => (job.cycle, job.pass)).length := by simpa using hlt
  have hself := List.set_getElem_self hlt'
  rwa [List.getElem_map] at hself

theorem System.startCycle_watch (ms : Int) :
    (s.startCycle ms).watch = s.watch ++
      s.server.store.rows.map (fun row => (s.started, ({ row, now := ms / 1000 } : Pass))) := by
  simp [watch, startCycle, Job.cycle, Job.pass]

theorem System.step_moves (num : Arithmetic) (host : Host) (cfg : Config) (s : System)
    (h : Happening) : s.Moves num host cfg h (s.step num host cfg h).1 (s.step num host cfg h).2 := by
  cases h with
  | request e =>
      cases e with
      | arrive | resume | observe | pruneNonces => exact .request _ rfl rfl rfl rfl
      | deleteRegistration | updateNotifyState => exact .idle rfl rfl (.refl _)
  | tick ms networkVerified =>
      simp only [step]
      split
      · exact .idle rfl rfl (.refl _)
      · split
        · exact .start (ms / 1000) rfl rfl (s.startCycle_watch ms)
        · exact .idle rfl rfl (.refl _)
  | pollNow ms networkVerified =>
      simp only [step]
      split
      · exact .start (ms / 1000) rfl rfl (s.startCycle_watch ms)
      · exact .idle rfl rfl (.refl _)
  | take index m =>
      simp only [step]
      split
      next cycle now row hjob =>
        split
        · refine .idle rfl rfl ?_
          unfold watch
          dsimp only
          split
          next p hp =>
            have hsame : (s.jobs.set index (.running cycle { row, now } true)).map
                (fun job => (job.cycle, job.pass)) = s.watch := s.watch_same hjob rfl rfl
            rw [processRegistrationTurn_wait hp, hsame]
            exact .refl _
          · exact (List.eraseIdx_sublist ..).map _
          · exact (List.eraseIdx_sublist ..).map _
        · exact .idle rfl rfl (.refl _)
      · exact .idle rfl rfl (.refl _)
  | expire index =>
      simp only [step]
      split
      next cycle pass live hjob =>
        have hsame : (s.jobs.set index (.running cycle pass false)).map
            (fun job => (job.cycle, job.pass)) = s.watch := s.watch_same hjob rfl rfl
        refine .idle rfl rfl ?_
        rw [watch, hsame]
      · exact .idle rfl rfl (.refl _)
  | finish cycle =>
      simp only [step]
      split
      · exact .idle rfl rfl (.refl _)
      · exact .idle rfl rfl (.refl _)
  | resume index m answer dbFails =>
      simp only [step]
      split
      next cycle p live hjob =>
        obtain ⟨hlt, hget⟩ := List.getElem?_eq_some_iff.mp hjob
        have hsplit : s.jobs = s.jobs.take index ++ .running cycle p live :: s.jobs.drop (index + 1) := by
          rw [← hget, List.getElem_cons_drop, List.take_append_drop]
        have hlength : (s.jobs.take index).length = index := List.length_take_of_le hlt.le
        simp only [stride]
        split
        next hfailed =>
          -- A change that the database refuses is the last thing that a pass does.
          obtain ⟨deed, hdeed, hchange⟩ := List.any_eq_true.mp (Bool.and_eq_true_iff.mp hfailed).2
          refine .idle rfl rfl ?_
          have hlast := p.resume_accounts num live m answer deed hdeed
          unfold watch
          dsimp only
          split
          next p' hp' =>
            rw [hp'] at hlast
            cases hlast with
            | request | submission => cases hchange
          · exact (List.eraseIdx_sublist ..).map _
          · exact (List.eraseIdx_sublist ..).map _
        next hdone =>
          have hwatch := congrArg (List.map fun job : Job => (job.cycle, job.pass)) hsplit
          rw [List.map_append, List.map_cons] at hwatch
          refine .turn cycle p live m answer hwatch rfl rfl ?_
          unfold watch
          dsimp only
          generalize s.jobs.take index = pre at hsplit hlength hwatch ⊢
          generalize s.jobs.drop (index + 1) = post at hsplit hwatch ⊢
          cases hnext : (p.resume num live m answer).next with
          | wait p' => simp [hsplit, ← hlength, Next.watch, Job.cycle, Job.pass]
          | finish action => simp [hsplit, ← hlength, Next.watch, List.eraseIdx_append]
          | threw => simp [hsplit, ← hlength, Next.watch, List.eraseIdx_append]
      · exact .idle rfl rfl (.refl _)

/-- The passes after a step: those of a new cycle, or ones of before with the same registration. -/
theorem System.Moves.watch {s s' : System} {h : Happening} {stride : Option Stride}
    (hmoves : s.Moves num host cfg h s' stride) {cycle : Nat} {p' : Pass} (hp' : (cycle, p') ∈ s'.watch) :
    s.started ≤ s'.started ∧
    ((∃ p, (cycle, p) ∈ s.watch ∧ p.row = p'.row) ∨
      (cycle = s.started ∧ s'.started = s.started + 1 ∧ s'.server = s.server ∧
        p'.row ∈ s.server.store.rows)) := by
  cases hmoves with
  | idle hserver hstarted hwatch => exact ⟨hstarted.ge, .inl ⟨p', hwatch.subset hp', rfl⟩⟩
  | request e heq hserver hstarted hwatch =>
      rw [hwatch] at hp'
      exact ⟨hstarted.ge, .inl ⟨p', hp', rfl⟩⟩
  | start now hserver hstarted hwatch =>
      rw [hwatch] at hp'
      refine ⟨by omega, ?_⟩
      rcases List.mem_append.mp hp' with hold | hnew
      · exact .inl ⟨p', hold, rfl⟩
      · obtain ⟨row, hrow, heq⟩ := List.mem_map.mp hnew
        obtain ⟨rfl, rfl⟩ := Prod.mk.inj heq
        exact .inr ⟨rfl, hstarted, hserver, hrow⟩
  | turn cycle' p live m answer hbefore hstore hstarted hwatch =>
      rw [hwatch] at hp'
      refine ⟨hstarted.ge, .inl ?_⟩
      rw [hbefore]
      rcases List.mem_append.mp hp' with hp' | hpost
      · rcases List.mem_append.mp hp' with hpre | hnext
        · exact ⟨p', by simp [hpre], rfl⟩
        · cases hresume : (p.resume num live m answer).next with
          | finish | threw =>
              rw [hresume] at hnext
              cases hnext
          | wait p'' =>
              rw [hresume] at hnext
              obtain ⟨rfl, rfl⟩ := Prod.mk.inj (List.mem_singleton.mp hnext)
              exact ⟨p, by simp, (Pass.resume_waits hresume).same.1.symm⟩
      · exact ⟨p', by simp [hpost], rfl⟩

end Moves

end DeadMansVault.Notify
