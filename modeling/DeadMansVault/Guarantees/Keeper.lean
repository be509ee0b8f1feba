-- SUMMARY: What the keeper's process has verified and read before it submits anything, along its whole run.
import DeadMansVault.Crank.Journal
import DeadMansVault.Program.Scenario

/-!
# The keeper's submissions

However the calls are answered and whatever the clock shows: before each of its transactions
the process has verified the network, and has read that the vault is executed, or due.
-/

namespace DeadMansVault

open Crank Journal Script

variable {σ α : Type} {cfg : KeeperConfig} {rpc : Rpc σ} {closeExecuted : Bool}
  {es calls : List Noted} {x : Noted} {stamp g t : Int}

namespace Crank

/-! ## The gate -/

/-- The calls end with those of a gate that passed. -/
def Gated (cfg : KeeperConfig) (es : List Noted) (g : Int) : Prop :=
  ∃ before hash lamports,
    Latest Noted.isGenesis es before (.genesis (.ok hash)) [.clock g,
      .program (.ok (.account true)), .balance (.ok (some lamports))] ∧
    cfg.canonical hash = true ∧ hash = cfg.expectedGenesis ∧ 0 ≤ lamports ∧ cfg.minLamports ≤ lamports

theorem Gated.vouched (h : Gated cfg es g) : Vouched cfg es g := by
  obtain ⟨before, hash, lamports, hlatest, hcanonical, hexpected, hpos, hmin⟩ := h
  exact ⟨before, hash, g, lamports, [], hlatest, hcanonical, hexpected, hpos, hmin, .inl rfl⟩

/-- The next reading of the clock may be the stamp. -/
theorem Gated.restamped (h : Gated cfg es g) (t : Int) : Vouched cfg (es ++ [.clock t]) t := by
  obtain ⟨before, hash, lamports, hlatest, hcanonical, hexpected, hpos, hmin⟩ := h
  exact ⟨before, hash, g, lamports, [.clock t], hlatest.snoc (by simp [Noted.isGenesis]),
    hcanonical, hexpected, hpos, hmin, .inr rfl⟩

theorem Vouched.snoc (h : Vouched cfg es stamp) (hx : ¬ x.isGenesis) :
    Vouched cfg (es ++ [x]) stamp := by
  obtain ⟨before, hash, g, lamports, since, hlatest, hcanonical, hexpected, hpos, hmin, hstamp⟩ := h
  refine ⟨before, hash, g, lamports, since ++ [x], hlatest.snoc hx, hcanonical, hexpected, hpos,
    hmin, hstamp.imp_right fun hhead => ?_⟩
  rw [List.head?_append, hhead]
  rfl

/-- An entry that is judged by no rule, and ends no scan. -/
def Noted.Quiet (x : Noted) : Prop := ¬ x.isScan ∧ ¬ x.isSent

theorem justified_of_not_sent (hx : ¬ x.isSent) : Justified cfg closeExecuted es x := by
  cases x with
  | sent => exact absurd trivial hx
  | _ => trivial

theorem clean_append (h : Clean (Justified cfg closeExecuted) es)
    (hcalls : ∀ x ∈ calls, x.Quiet) : Clean (Justified cfg closeExecuted) (es ++ calls) := by
  induction calls generalizing es with
  | nil => rwa [List.append_nil]
  | cons x calls ih =>
      rw [List.append_cons]
      refine ih (h.snoc (justified_of_not_sent (hcalls x List.mem_cons_self).2)) fun y hy => ?_
      exact hcalls y (List.mem_cons_of_mem x hy)

theorem classifyGenesis_verified {canonical : String → Bool} {expected : String}
    {answer : Except JsError String} (h : classifyGenesis canonical expected answer = .verified) :
    answer = .ok expected ∧ canonical expected = true := by
  cases answer with
  | error e => cases h
  | ok received =>
      rw [classifyGenesis] at h
      split at h
      · cases h
      next hcanonical =>
        split at h
        next heq => exact ⟨by rw [heq], by simpa [heq] using hcanonical⟩
        · cases h

theorem checkProgramAccount_ok {answer : Except JsError ProgramAnswer}
    (h : checkProgramAccount answer = .ok) : answer = .ok (.account true) := by
  rcases answer with e | (_ | _ | executable)
  · cases h
  · cases h
  · cases h
  · rw [checkProgramAccount] at h
    split at h
    next htrue => rw [htrue]
    · cases h

theorem evaluateBalance_ok {minLamports warnLamports : Int} {balance : Option Int} {low : Bool}
    (h : evaluateBalance minLamports warnLamports balance = .ok low) :
    ∃ lamports, balance = some lamports ∧ 0 ≤ lamports ∧ minLamports ≤ lamports := by
  cases balance with
  | none => cases h
  | some lamports =>
      rw [evaluateBalance] at h
      split at h
      · cases h
      · split at h
        · cases h
        · exact ⟨lamports, rfl, by omega, by omega⟩

/-- What a gate writes down, and that it passes only where everything was verified. -/
theorem gate_noted (cfg : KeeperConfig) (rpc : Rpc σ) (s : σ × List Noted) :
    ∃ calls, (gate cfg rpc.noteDown s).2.2 = s.2 ++ calls ∧ (∀ x ∈ calls, x.Quiet) ∧
      ∀ low g, (gate cfg rpc.noteDown s).1 = .ok low g → Gated cfg (s.2 ++ calls) g := by
  obtain ⟨net, es⟩ := s
  rcases hgenesis : rpc.getGenesisHash net with ⟨genesis, net₁⟩
  rcases hnow : rpc.now net₁ with ⟨g, net₂⟩
  rcases hprogram : rpc.getAccountInfo net₂ with ⟨program, net₃⟩
  rcases hbalance : rpc.getBalance net₃ with ⟨balance, net₄⟩
  have hquiet : ∀ x ∈ [Noted.genesis genesis, .clock g, .program program, .balance balance],
      x.Quiet := by
    simp [Noted.Quiet, Noted.isScan, Noted.isSent]
  simp only [gate, Rpc.noteDown, noteDown, hgenesis]
  cases hclass : classifyGenesis cfg.canonical cfg.expectedGenesis genesis with
  | mismatch | unknown =>
      refine ⟨_, rfl, fun x hx => hquiet x (List.mem_append_left [_, _, _] hx), ?_⟩
      intro low g' hok
      cases hok
  | verified =>
      obtain ⟨rfl, hcanonical⟩ := classifyGenesis_verified hclass
      simp only [hnow, hprogram]
      cases hcheck : checkProgramAccount program with
      | unknown | failed =>
          refine ⟨[.genesis (.ok cfg.expectedGenesis), .clock g, .program program], by simp,
            fun x hx => hquiet x (List.mem_append_left [_] hx), ?_⟩
          intro low g' hok
          cases hok
      | ok =>
          obtain rfl := checkProgramAccount_ok hcheck
          simp only [hbalance]
          refine ⟨[.genesis _, .clock g, .program _, .balance balance], ?_, hquiet, ?_⟩
          · cases balance with
            | error => simp
            | ok lamports =>
                dsimp only
                split <;> simp
          · intro low g' hok
            cases balance with
            | error => cases hok
            | ok answer =>
                dsimp only at hok
                split at hok
                · cases hok
                next hok' =>
                  obtain ⟨lamports, rfl, hpos, hmin⟩ := evaluateBalance_ok hok'
                  obtain ⟨-, rfl⟩ := GateResult.ok.inj hok
                  refine ⟨es, cfg.expectedGenesis, lamports, ⟨rfl, trivial, ?_⟩, hcanonical, rfl,
                    hpos, hmin⟩
                  simp [Noted.isGenesis]

/-! ## The process in a tick -/

/-- A fact about the journal that only a scan can spoil. -/
def Scene (W : List Noted → Prop) : Prop := ∀ es x, ¬ x.isScan → W es → W (es ++ [x])

/-- The cached readiness rests on the latest gate. -/
def Cached (cfg : KeeperConfig) (p : Process (σ × List Noted)) : Prop :=
  p.cache.live = true → ∃ stamp, p.cache.lastOkAt = some stamp ∧ Vouched cfg p.net.2 stamp

structure Within (cfg : KeeperConfig) (closeExecuted : Bool) (W : List Noted → Prop)
    (p : Process (σ × List Noted)) : Prop where
  clean : Clean (Justified cfg closeExecuted) p.net.2
  cached : Cached cfg p
  scene : W p.net.2

variable {W : List Noted → Prop} {p p' : Process (σ × List Noted)}

theorem Within.mono {W' : List Noted → Prop} (h : Within cfg closeExecuted W p)
    (hW : ∀ es, W es → W' es) : Within cfg closeExecuted W' p :=
  ⟨h.clean, h.cached, hW _ h.scene⟩

/-- What the process writes down without touching its cache, if it is no gate. -/
theorem Within.next {W' : List Noted → Prop} (h : Within cfg closeExecuted W p)
    (hcache : p'.cache = p.cache) (hnet : p'.net.2 = p.net.2 ++ [x]) (hgenesis : ¬ x.isGenesis)
    (hx : Justified cfg closeExecuted p.net.2 x) (hscene : W' (p.net.2 ++ [x])) :
    Within cfg closeExecuted W' p' where
  clean := hnet ▸ h.clean.snoc hx
  cached hlive := by
    rw [hcache] at hlive ⊢
    obtain ⟨stamp, hstamp, hvouched⟩ := h.cached hlive
    exact ⟨stamp, hstamp, hnet ▸ hvouched.snoc hgenesis⟩
  scene := hnet ▸ hscene

/-- A read of the client. -/
theorem Within.calling (hW : Scene W) {f : σ → α × σ} {entry : α → Noted}
    (hentry : ∀ a, ¬ (entry a).isGenesis ∧ (entry a).Quiet) (p : Process (σ × List Noted))
    (h : Within cfg closeExecuted W p) :
    Within cfg closeExecuted W (Process.calling (noteDown entry f) p).2 :=
  h.next rfl rfl (hentry _).1 (justified_of_not_sent (hentry _).2.2)
    (hW _ _ (hentry _).2.1 h.scene)

theorem quiet_read (a : α) : ¬ ((fun _ => .read : α → Noted) a).isGenesis ∧
    ((fun _ => .read : α → Noted) a).Quiet :=
  ⟨id, id, id⟩

/-- What a call is answered, is then the last entry. -/
theorem call_noted {f : σ → Except JsError α × σ} {entry : Except JsError α → Noted}
    {W' : Except JsError α → List Noted → Prop}
    (hentry : ∀ a, ¬ (entry a).isGenesis ∧ ¬ (entry a).isSent)
    (hW : ∀ es a, W es → W' a (es ++ [entry a])) :
    Meets (fun r => Within cfg closeExecuted W r.net) (call (Process.calling (noteDown entry f)))
      (fun a r => Within cfg closeExecuted (W' (.ok a)) r.net)
      (fun e r => Within cfg closeExecuted (W' (.error e)) r.net) := by
  intro r hr
  have hnext : Within cfg closeExecuted (W' (f r.net.net.1).1)
      (Process.calling (noteDown entry f) r.net).2 :=
    hr.next rfl rfl (hentry _).1 (justified_of_not_sent (hentry _).2) (hW _ _ hr.scene)
  have hanswer : (Process.calling (noteDown entry f) r.net).1 = (f r.net.net.1).1 := rfl
  rw [← hanswer] at hnext
  unfold call
  generalize Process.calling (noteDown entry f) r.net = result at hnext
  obtain ⟨a | a, p⟩ := result
  · exact hnext
  · exact hnext

/-- It may submit now. -/
def Vetted (cfg : KeeperConfig) (closeExecuted : Bool) (W : List Noted → Prop)
    (p : Process (σ × List Noted)) : Prop :=
  Within cfg closeExecuted W p ∧ Backed cfg p.net.2

theorem scene_append (hW : Scene W) (h : W es) (hcalls : ∀ x ∈ calls, x.Quiet) :
    W (es ++ calls) := by
  induction calls generalizing es with
  | nil => rwa [List.append_nil]
  | cons x calls ih =>
      rw [List.append_cons]
      refine ih (hW es x (hcalls x List.mem_cons_self).1 h) fun y hy => ?_
      exact hcalls y (List.mem_cons_of_mem x hy)

/-- Where `revalidate` says so, the latest gate is fresh. -/
theorem revalidate_noted (rpc : Rpc σ) (hW : Scene W) (h : Within cfg closeExecuted W p) :
    Within cfg closeExecuted W (revalidate cfg rpc.noteDown p).2 ∧
      ((revalidate cfg rpc.noteDown p).1 = true →
        Backed cfg (revalidate cfg rpc.noteDown p).2.net.2) := by
  obtain ⟨⟨net, es⟩, cache⟩ := p
  obtain ⟨t, net₁, hnow⟩ : ∃ t net₁, rpc.noteDown.now (net, es) = (t, (net₁, es ++ [.clock t])) :=
    ⟨_, _, rfl⟩
  have hread : Within cfg closeExecuted W ⟨(net₁, es ++ [.clock t]), cache⟩ :=
    h.next rfl rfl id trivial (hW _ _ id h.scene)
  unfold revalidate
  simp only [hnow]
  split
  next hreusable =>
    refine ⟨hread, fun _ => ?_⟩
    simp only [Keeper.reusable, Bool.and_eq_true, Option.any_eq_true, decide_eq_true_eq] at hreusable
    obtain ⟨hlive, ok, hok, hpast, hyoung⟩ := hreusable
    obtain ⟨stamp, hstamp, hvouched⟩ := hread.cached hlive
    obtain rfl := Option.some.inj (hok.symm.trans hstamp)
    exact ⟨es, t, ok, rfl, hvouched, by omega, by omega⟩
  · obtain ⟨calls, hcalls, hquiet, hgated⟩ := gate_noted cfg rpc (net₁, es ++ [.clock t])
    have hclean := clean_append hread.clean hquiet
    have hscene := scene_append hW hread.scene hquiet
    rcases hgate : gate cfg rpc.noteDown (net₁, es ++ [.clock t]) with ⟨result, net₂, es₂⟩
    rw [hgate] at hcalls hgated
    simp only [hgate]
    obtain rfl : es₂ = es ++ [.clock t] ++ calls := hcalls
    cases result with
    | ok low g =>
        -- The stamp is what the clock shows after the gate.
        obtain ⟨u, net₃, hnow₂⟩ : ∃ u net₃, rpc.noteDown.now (net₂, es ++ [.clock t] ++ calls) =
            (u, (net₃, es ++ [.clock t] ++ calls ++ [.clock u])) :=
          ⟨_, _, rfl⟩
        have hvouched := (hgated low g rfl).restamped u
        simp only [hnow₂]
        refine ⟨⟨hclean.snoc trivial, fun _ => ⟨u, rfl, hvouched⟩, hW _ _ id hscene⟩, fun _ => ?_⟩
        exact ⟨_, u, u, rfl, hvouched, le_rfl, by simp [revalidateTtlMs]⟩
    | fatal => exact ⟨⟨hclean, nofun, hscene⟩, nofun⟩
    | degraded => exact ⟨⟨hclean, nofun, hscene⟩, nofun⟩

/-! ## The cranks -/

/-- In the scene, the transactions of `S` are warranted. -/
def Grants (closeExecuted : Bool) (W : List Noted → Prop) (S : Submission → Prop) : Prop :=
  ∀ es submission, W es → S submission → Warranted closeExecuted es submission

variable {S : Submission → Prop} {keeper vault : Pubkey} {v : VaultConfig}

/-- The job of the keeper's cranks, as the process runs them. -/
def noteDownJob (cfg : KeeperConfig) (rpc : Rpc σ) (keeper vault : Pubkey) :
    Job (Process (σ × List Noted)) :=
  keeperJob (surroundings cfg rpc.noteDown).client keeper vault
    (surroundings cfg rpc.noteDown).canSubmit

theorem guard_noted (hW : Scene W) :
    Meets (fun r => Within cfg closeExecuted W r.net) (noteDownJob cfg rpc keeper vault).guard
      (fun _ r => Vetted cfg closeExecuted W r.net)
      (fun _ r => Within cfg closeExecuted W r.net) := by
  intro r hr
  obtain ⟨hwithin, hbacked⟩ := revalidate_noted rpc hW hr
  rcases hok : revalidate cfg rpc.noteDown r.net with ⟨ok, p⟩
  rw [hok] at hwithin hbacked
  have hreply : (surroundings cfg rpc.noteDown).revalidate r.net = (ok, p) := hok
  rw [show (noteDownJob cfg rpc keeper vault).guard r = _ from makeKeeperGuard_run hreply]
  cases ok with
  | false => exact hwithin
  | true => exact ⟨hwithin, hbacked rfl⟩

theorem keeps_noted (hW : Scene W) (hgrants : Grants closeExecuted W S) :
    (noteDownJob cfg rpc keeper vault).Maintains S (Within cfg closeExecuted W)
      (Vetted cfg closeExecuted W) where
  priorityFee s hs := hs.calling hW quiet_read s
  deadline s hs := hs.calling hW quiet_read s
  vaultConfig _ s hs := hs.calling hW quiet_read s
  executionLog _ s hs := hs.calling hW quiet_read s
  assetPlan _ s hs := hs.calling hW quiet_read s
  tokenDist _ s hs := hs.calling hW quiet_read s
  tokenAccountsByOwner _ _ s hs := hs.calling hW quiet_read s
  accountInfo _ s hs := hs.calling hW quiet_read s
  tokenAccount _ _ s hs := hs.calling hW quiet_read s
  guard := guard_noted hW
  armed _ hs := hs.1
  sendAndConfirm _ _ hS hs :=
    hs.1.next rfl rfl id ⟨hs.2, hgrants _ _ hs.1.scene hS⟩ (hW _ _ id hs.1.scene)

/-- The routine keeps within the rules. -/
abbrev Abides (cfg : KeeperConfig) (closeExecuted : Bool) (W : List Noted → Prop)
    (x : Routine (Process (σ × List Noted)) α) : Prop :=
  Upholds (Within cfg closeExecuted W) x

/-! ## The vaults of a tick -/

variable {listed : List (Pubkey × Option VaultConfig)} {τ : Type}

/-- The latest scan was answered so. -/
def Scanned (answer : Except JsError (List (Pubkey × Option VaultConfig))) (es : List Noted) : Prop :=
  ∃ before since, Latest Noted.isScan es before (.scanned answer) since

/-- Since then, the vault was found to be due. -/
def Overdue (listed : List (Pubkey × Option VaultConfig)) (vault : Pubkey) (v : VaultConfig)
    (es : List Noted) : Prop :=
  ∃ before since, Latest Noted.isScan es before (.scanned (.ok listed)) since ∧
    Expired vault v since

/-- The heartbeat was the last thing that was read. -/
def Beat (listed : List (Pubkey × Option VaultConfig)) (vault : Pubkey)
    (answer : Except JsError (Option HeartbeatRecord)) (es : List Noted) : Prop :=
  ∃ before early, Latest Noted.isScan es before (.scanned (.ok listed))
    (early ++ [.heartbeat (.heartbeat vault) answer])

theorem Beat.scanned {answer : Except JsError (Option HeartbeatRecord)}
    (h : Beat listed vault answer es) : Scanned (.ok listed) es := by
  obtain ⟨before, early, h⟩ := h
  exact ⟨before, _, h⟩

theorem scene_scanned {answer : Except JsError (List (Pubkey × Option VaultConfig))} :
    Scene (Scanned answer) := by
  rintro es x hx ⟨before, since, h⟩
  exact ⟨before, _, h.snoc hx⟩

theorem scene_overdue : Scene (Overdue listed vault v) := by
  rintro es x hx ⟨before, since, h, early, late, hb, t, rfl, hdue⟩
  exact ⟨before, _, h.snoc hx, early, late ++ [x], hb, t, by simp, hdue⟩

theorem grants_scanned (hmem : (vault, some v) ∈ listed) (hexecuted : v.executed = true)
    (hclose : closeExecuted = true) :
    Grants closeExecuted (Scanned (.ok listed)) (Submission.CleansUp vault v.beneficiaries) := by
  rintro es submission ⟨before, since, h⟩ hS
  exact ⟨before, listed, since, vault, v, h, hmem, .inl ⟨hexecuted, hclose, hS⟩⟩

theorem grants_overdue (hmem : (vault, some v) ∈ listed) (hopen : v.executed = false)
    (hactive : v.active = true) :
    Grants closeExecuted (Overdue listed vault v) fun submission =>
      submission.Cranks vault v.beneficiaries := by
  rintro es submission ⟨before, since, h, hdue⟩ hS
  exact ⟨before, listed, since, vault, v, h, hmem, .inr ⟨hopen, hactive, hdue, hS⟩⟩

theorem perform_kept {f : τ → α × τ} {P : τ → Prop} {Q : α → τ → Prop}
    (h : ∀ s, P s → Q (f s).1 (f s).2) {E : JsError → Run τ → Prop} :
    Meets (fun r => P r.net) (perform f) (fun a r => Q a r.net) E :=
  fun r hr => h r.net hr

/-- A number is read as it is, or not at all. -/
theorem toNumber_kept {P : Run τ → Prop} (n : Int) :
    Meets P (toNumber n) (fun a r => P r ∧ a = n) (fun _ r => P r) := by
  unfold toNumber
  split
  · exact fun r hr => ⟨hr, rfl⟩
  · exact fun r hr => hr

theorem heartbeat_noted :
    Meets (fun r => Within cfg closeExecuted (Scanned (.ok listed)) r.net)
      (fetch ((surroundings cfg rpc.noteDown).client.heartbeatRecord (.heartbeat vault)))
      (fun hb r => Within cfg closeExecuted (Beat listed vault (.ok (some hb))) r.net)
      (fun _ r => Within cfg closeExecuted (Scanned (.ok listed)) r.net) := by
  have hcall : Meets (fun r => Within cfg closeExecuted (Scanned (.ok listed)) r.net)
      (call ((surroundings cfg rpc.noteDown).client.heartbeatRecord (.heartbeat vault)))
      (fun a r => Within cfg closeExecuted (Beat listed vault (.ok a)) r.net)
      (fun e r => Within cfg closeExecuted (Beat listed vault (.error e)) r.net) := by
    refine call_noted (fun _ => ⟨id, id⟩) ?_
    rintro es a ⟨before, since, h⟩
    exact ⟨before, since, h.snoc id⟩
  refine (hcall.mono (fun _ hr => hr) (fun _ _ hr => hr) fun _ _ hr => hr.mono fun _ => Beat.scanned).bind
    fun a => ?_
  cases a with
  | none => exact fun r hr => hr.mono fun _ => Beat.scanned
  | some hb => exact fun r hr => hr

/-- The clock is read right after the heartbeat. -/
def Timed (listed : List (Pubkey × Option VaultConfig)) (vault : Pubkey) (hb : HeartbeatRecord)
    (now : Int) (es : List Noted) : Prop :=
  ∃ before early t, Latest Noted.isScan es before (.scanned (.ok listed))
    (early ++ [.heartbeat (.heartbeat vault) (.ok (some hb)), .clock t]) ∧ now = t / 1000

theorem Timed.scanned {hb : HeartbeatRecord} {now : Int} (h : Timed listed vault hb now es) :
    Scanned (.ok listed) es := by
  obtain ⟨before, early, t, h, -⟩ := h
  exact ⟨before, _, h⟩

theorem Timed.overdue {hb : HeartbeatRecord} {now : Int} (h : Timed listed vault hb now es)
    (hdue : hb.lastHeartbeat + v.heartbeatInterval + v.gracePeriod ≤ now) :
    Overdue listed vault v es := by
  obtain ⟨before, early, t, h, rfl⟩ := h
  exact ⟨before, _, h, early, [], hb, t, rfl, hdue⟩

theorem clock_noted {hb : HeartbeatRecord} {E : JsError → Run (Process (σ × List Noted)) → Prop} :
    Meets (fun r => Within cfg closeExecuted (Beat listed vault (.ok (some hb))) r.net)
      (perform (surroundings cfg rpc.noteDown).client.now)
      (fun now r => Within cfg closeExecuted (Timed listed vault hb now) r.net) E := by
  intro r hr
  obtain ⟨before, early, hlatest⟩ := hr.scene
  refine hr.next rfl rfl id trivial ⟨before, early, (rpc.now r.net.net.1).1, ?_, rfl⟩
  have hsnoc := hlatest.snoc (x := .clock (rpc.now r.net.net.1).1) id
  rwa [List.append_assoc] at hsnoc

theorem Overdue.scanned (h : Overdue listed vault v es) : Scanned (.ok listed) es := by
  obtain ⟨before, since, h, -⟩ := h
  exact ⟨before, since, h⟩

theorem number_noted {hb : HeartbeatRecord} (n : Int) :
    Meets (fun r : Run (Process (σ × List Noted)) =>
        Within cfg closeExecuted (Beat listed vault (.ok (some hb))) r.net) (toNumber n)
      (fun a r => Within cfg closeExecuted (Beat listed vault (.ok (some hb))) r.net ∧ a = n)
      (fun _ r => Within cfg closeExecuted (Scanned (.ok listed)) r.net) :=
  (toNumber_kept n).mono (fun _ hr => hr) (fun _ _ hr => hr) fun _ _ hr => hr.mono fun _ => Beat.scanned

theorem attend_noted (hmem : (vault, some v) ∈ listed) :
    Abides cfg closeExecuted (Scanned (.ok listed))
      (attend (surroundings cfg rpc.noteDown) keeper closeExecuted vault v) := by
  have hrevalidate : ∀ {W : List Noted → Prop}, Scene W →
      Abides cfg closeExecuted W (perform (surroundings cfg rpc.noteDown).revalidate) := by
    intro W hW
    have hstep : ∀ p, Within cfg closeExecuted W p →
        Within cfg closeExecuted W (revalidate cfg rpc.noteDown p).2 :=
      fun p hp => (revalidate_noted rpc hW hp).1
    exact perform_kept (Q := fun _ p => Within cfg closeExecuted W p) hstep
  unfold attend
  split
  next hexecuted =>
    split
    · exact fun r hr => hr
    next hclose =>
      refine (hrevalidate scene_scanned).bind fun ok => ?_
      split
      · exact fun r hr => hr
      · have hgrants := grants_scanned hmem hexecuted (eq_true_of_ne_false hclose)
        have hkeeps : (noteDownJob cfg rpc keeper vault).Maintains _ _ _ :=
          keeps_noted scene_scanned hgrants
        refine (apart_kept (hkeeps.cleanupExecutedVault fun _ hS => hS)).bind fun _ => ?_
        exact fun r hr => hr
  next hopen =>
    split
    · exact fun r hr => hr
    next hactive =>
      refine heartbeat_noted.bind fun hb => ?_
      refine (number_noted _).bind fun lastHeartbeat => Meets.of_fact fun hlast => ?_
      refine (number_noted _).bind fun interval => Meets.of_fact fun hinterval => ?_
      refine (number_noted _).bind fun grace => Meets.of_fact fun hgrace => ?_
      subst hlast hinterval hgrace
      refine clock_noted.bind fun now => ?_
      split
      · exact fun r hr => hr.mono fun _ => Timed.scanned
      next hlate =>
        have hgrants : Grants closeExecuted (Overdue listed vault v) fun submission =>
            submission.Cranks vault v.beneficiaries :=
          grants_overdue hmem (eq_false_of_ne_true hopen) (eq_true_of_ne_false hactive)
        refine Meets.mono (Q := fun _ r => Within cfg closeExecuted (Overdue listed vault v) r.net)
          (E := fun _ r => Within cfg closeExecuted (Overdue listed vault v) r.net)
          (P := fun r => Within cfg closeExecuted (Overdue listed vault v) r.net) ?_
          (fun r hr => hr.mono fun _ h => h.overdue (not_lt.mp hlate))
          (fun _ _ hr => hr.mono fun _ => Overdue.scanned)
          (fun _ _ hr => hr.mono fun _ => Overdue.scanned)
        refine (hrevalidate scene_overdue).bind fun ok => ?_
        split
        · exact fun r hr => hr
        · have hkeeps : (noteDownJob cfg rpc keeper vault).Maintains _ _ _ :=
            keeps_noted scene_overdue hgrants
          refine (apart_kept (hkeeps.crankVault fun _ hS => hS)).bind fun _ => ?_
          exact fun r hr => hr

theorem visit_noted (hmem : (vault, some v) ∈ listed) :
    Abides cfg closeExecuted (Scanned (.ok listed))
      (visit (surroundings cfg rpc.noteDown) keeper closeExecuted vault v) := by
  refine (attend_noted hmem).tryCatch fun e => ?_
  split
  · exact fun r hr => hr
  · split <;> exact fun r hr => hr

theorem visits_noted {vaults : List (Pubkey × VaultConfig)}
    (hmem : ∀ entry ∈ vaults, (entry.1, some entry.2) ∈ listed) :
    Abides cfg closeExecuted (Scanned (.ok listed))
      (visits (surroundings cfg rpc.noteDown) keeper closeExecuted vaults) := by
  induction vaults with
  | nil => exact fun r hr => hr
  | cons entry rest ih =>
      refine (visit_noted (hmem entry List.mem_cons_self)).bind fun ending => ?_
      cases ending with
      | next => exact ih fun entry hentry => hmem entry (List.mem_cons_of_mem _ hentry)
      | halted => exact fun r hr => hr
      | deadlineHit => exact fun r hr => hr

/-! ## The tick and the loop -/

/-- What has been submitted was justified. -/
abbrev Lawabiding (cfg : KeeperConfig) (closeExecuted : Bool)
    (x : Routine (Process (σ × List Noted)) α) : Prop :=
  Meets (fun r => Clean (Justified cfg closeExecuted) r.net.net.2) x
    (fun _ r => Clean (Justified cfg closeExecuted) r.net.net.2)
    (fun _ r => Clean (Justified cfg closeExecuted) r.net.net.2)

/-- What a scan returns, it was answered. -/
def ScanEnd (cfg : KeeperConfig) (closeExecuted : Bool)
    (scanned : Except String (List (Pubkey × VaultConfig))) (p : Process (σ × List Noted)) : Prop :=
  Clean (Justified cfg closeExecuted) p.net.2 ∧ ∀ vaults, scanned = .ok vaults →
    ∃ listed, Within cfg closeExecuted (Scanned (.ok listed)) p ∧
      ∀ entry ∈ vaults, (entry.1, some entry.2) ∈ listed

theorem scan_noted :
    Meets (fun r => Within cfg closeExecuted (fun _ => True) r.net)
      (scan (surroundings cfg rpc.noteDown)) (fun a r => ScanEnd cfg closeExecuted a r.net)
      (fun _ r => Clean (Justified cfg closeExecuted) r.net.net.2) := by
  have hcall : Meets (fun r => Within cfg closeExecuted (fun _ => True) r.net)
      (call (surroundings cfg rpc.noteDown).getProgramAccounts)
      (fun a r => Within cfg closeExecuted (Scanned (.ok a)) r.net)
      (fun e r => Within cfg closeExecuted (Scanned (.error e)) r.net) :=
    call_noted (fun _ => ⟨id, id⟩) fun es a _ => ⟨es, [], .self trivial⟩
  unfold scan scanVaults
  rw [← bind_pure_comp, bind_assoc]
  refine Meets.tryCatch (E := fun _ r => Clean (Justified cfg closeExecuted) r.net.net.2)
    ((hcall.mono (fun _ hr => hr) (fun _ _ hr => hr) fun _ _ hr => hr.clean).bind fun raw => ?_)
    fun e => ?_
  · intro r hr
    refine ⟨hr.clean, fun vaults hvaults => ⟨raw, hr, fun entry hentry => ?_⟩⟩
    obtain rfl := Except.ok.inj hvaults
    obtain ⟨account, haccount, hdecoded⟩ := List.mem_filterMap.mp hentry
    obtain ⟨key, config⟩ := account
    cases config with
    | none => cases hdecoded
    | some config =>
        obtain rfl := Option.some.inj hdecoded
        exact haccount
  · split
    · exact fun r hr => hr
    · exact fun r hr => ⟨hr, nofun⟩

theorem tick_noted :
    Meets (fun r => Within cfg closeExecuted (fun _ => True) r.net)
      (tick (surroundings cfg rpc.noteDown) keeper closeExecuted)
      (fun _ r => Clean (Justified cfg closeExecuted) r.net.net.2)
      (fun _ r => Clean (Justified cfg closeExecuted) r.net.net.2) := by
  refine scan_noted.bind fun scanned => ?_
  cases scanned with
  | error reason => exact fun r hr => hr.1
  | ok vaults =>
      intro r hr
      obtain ⟨hclean, hscan⟩ := hr
      obtain ⟨listed, hwithin, hmem⟩ := hscan vaults rfl
      refine Meets.bind (P := fun r => Within cfg closeExecuted (Scanned (.ok listed)) r.net)
        ((visits_noted hmem).mono (fun _ hr => hr) (fun _ _ hr => hr) fun _ _ hr => hr.clean)
        (fun ending => ?_) r hwithin
      unfold ticked
      split
      · exact fun r hr => hr.clean
      · have hbalance : Abides cfg closeExecuted (Scanned (.ok listed))
            (call (surroundings cfg rpc.noteDown).getBalance) :=
          call_kept fun s hs => hs.calling scene_scanned (fun _ => ⟨id, id, id⟩) s
        have hshown : Abides cfg closeExecuted (Scanned (.ok listed)) (tryCatch (do
            let _ ← call (surroundings cfg rpc.noteDown).getBalance) fun _ => pure ⟨⟩) :=
          (hbalance.bind fun _ _ hr => hr).tryCatch fun _ _ hr => hr
        exact (hshown.mono (fun _ hr => hr) (fun _ _ hr => hr.clean) fun _ _ hr => hr.clean).bind
          fun _ _ hr => hr

theorem runKeeperOnce_noted :
    Lawabiding cfg closeExecuted (runKeeperOnce cfg rpc.noteDown keeper closeExecuted) := by
  intro r hr
  obtain ⟨calls, hcalls, hquiet, hgated⟩ := gate_noted cfg rpc r.net.net
  rcases hgate : gate cfg rpc.noteDown r.net.net with ⟨result, net⟩
  rw [hgate] at hcalls hgated
  have hclean : Clean (Justified cfg closeExecuted) net.2 := by
    rw [show net.2 = _ from hcalls]
    exact clean_append hr hquiet
  have hrun : perform (Process.calling (gate cfg rpc.noteDown)) r =
      .ok result ⟨⟨net, r.net.cache⟩, r.log⟩ := by
    simp only [perform, Process.calling, hgate]
  unfold runKeeperOnce
  rw [run_bind_ok hrun]
  cases result with
  | fatal => exact hclean
  | degraded => exact hclean
  | ok low g =>
      have hvouched : Vouched cfg net.2 g := by
        rw [show net.2 = _ from hcalls]
        exact (hgated low g rfl).vouched
      exact (tick_noted.bind fun _ _ hr => hr) ⟨⟨net, r.net.cache.markVerified g⟩, r.log⟩
        ⟨hclean, fun _ => ⟨g, rfl, hvouched⟩, trivial⟩

theorem runLoop_noted (turns backoffAttempt : Nat) :
    Lawabiding cfg closeExecuted
      (runLoop cfg rpc.noteDown keeper closeExecuted turns backoffAttempt) := by
  induction turns generalizing backoffAttempt with
  | zero => exact fun r hr => hr
  | succ turns ih =>
      refine runKeeperOnce_noted.bind fun once => ?_
      rcases once with _ | _ | _
      · exact fun r hr => hr
      · exact fun r hr => ih _ _ hr
      · exact fun r hr => ih _ _ hr

/-- What a process that has just been started writes down in so many turns of its loop. -/
def journal (cfg : KeeperConfig) (rpc : Rpc σ) (keeper : Pubkey) (closeExecuted : Bool)
    (turns : Nat) (net : σ) : List Noted :=
  (final (runLoop cfg rpc.noteDown keeper closeExecuted turns 0 ⟨⟨(net, []), {}⟩, []⟩)).net.net.2

end Crank

/-- **The keeper submits with good reason.** Along every run of the process, whatever its calls are
    answered: before each transaction the clock has just been read, less than the time to live
    after the stamp of the latest gate, which has verified the genesis hash, the program and the
    balance; and the latest scan lists a vault that is executed, where the process cleans up, or
    one that is active and whose deadline has been read to be over, and the transaction is one on
    that vault, and closes it only where it is executed. -/
theorem keeper_submits_justified (cfg : KeeperConfig) (rpc : Rpc σ) (keeper : Pubkey)
    (closeExecuted : Bool) (turns : Nat) (net : σ) :
    Clean (Justified cfg closeExecuted) (journal cfg rpc keeper closeExecuted turns net) :=
  (runLoop_noted turns 0).at_end Clean.nil

namespace Sample

/-- Answers that never change: the sample vault is due, and has no plan. -/
def steadyRpc : Rpc Unit where
  client := {
    priorityFee s := (.ok ⟨⟩, s)
    deadline s := (.ok ⟨⟩, s)
    now s := (0, s)
    vaultConfig _ s := (.ok (some { config with hasAssetPlan := false }), s)
    heartbeatRecord _ s := (.ok (some heartbeat), s)
    executionLog _ s := (.ok none, s)
    assetPlan _ s := (.ok none, s)
    tokenDist _ s := (.ok none, s)
    tokenAccountsByOwner _ _ s := (.ok [], s)
    accountInfo _ s := (.ok none, s)
    tokenAccount _ _ s := (.ok (0, 0), s)
    sendAndConfirm _ s := (.ok ⟨⟩, s)
    onCurve _ := true
    foreignAta _ _ n := .key n }
  now s := (691_200_000, s)
  getGenesisHash s := (.ok "genesis", s)
  getAccountInfo s := (.ok (.account true), s)
  getBalance s := (.ok (some 10), s)
  getProgramAccounts s := (.ok [(vault, some { config with hasAssetPlan := false })], s)
  sleep _ s := s

/-- The keeper does submit something. -/
example : ∃ x ∈ journal ⟨fun _ => true, "genesis", 1, 1⟩ steadyRpc keeper true 1 (), x.isSent := by
  decide +kernel

end Sample

end DeadMansVault
