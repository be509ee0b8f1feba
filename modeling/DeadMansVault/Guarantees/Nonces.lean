-- SUMMARY: How often a signed message can claim its nonce, with handlers suspended across the pruning of nonces.
import DeadMansVault.Guarantees.Registrations
import DeadMansVault.Guarantees.Revisions
import DeadMansVault.Notify.Stages

/-!
# Nonces

A signed request is fresh when it arrives, and its nonce is claimed in the
transaction of its operation. In between, its handler may be suspended for any
time. Every minute the server forgets the nonces claimed for a time more than two
signature windows ago: no request that arrives later can carry one of them. A
handler that is still suspended can.
-/

namespace DeadMansVault.Notify

variable {host : Host} {cfg : Config} {req : Request} {owner nonce : String} {last : Int}

/-! ## What a call claims -/

/-- The nonce that a call claims, when its message was signed, and the time it is claimed for. -/
structure Stamp where
  owner : String
  nonce : String
  signedAt : Int
  usedAt : Int

def Call.stamp : Call → Option Stamp
  | signedRegistration cmd => some ⟨cmd.owner, cmd.nonce, cmd.signedAt, cmd.nonceUsedAt⟩
  | signedDeregistration cmd => some ⟨cmd.owner, cmd.nonce, cmd.signedAt, cmd.nonceUsedAt⟩
  | legacyRegistration .. | legacyDeregistration _ | legacyDeregistrationByOwner _ => none

/-- The call carries this nonce of this owner. -/
def Call.Carries (owner nonce : String) (call : Call) : Prop :=
  ∃ stamp ∈ call.stamp, stamp.owner = owner ∧ stamp.nonce = nonce

instance (call : Call) : Decidable (call.Carries owner nonce) :=
  inferInstanceAs (Decidable (∃ stamp ∈ call.stamp, stamp.owner = owner ∧ stamp.nonce = nonce))

/-- What a transaction does with the nonces: nothing, or it claims one that is not there. -/
structure Store.Claims (stamp : Stamp) (s s' : Store) : Prop where
  unused : s.nonceUsed stamp.owner stamp.nonce = false
  usedNonces : s'.usedNonces = s.usedNonces ++ [((stamp.owner, stamp.nonce), stamp.usedAt)]

theorem applySignedRegistration_claims (dbFails : Bool) (cmd : SignedRegistration) (s : Store) :
    (applySignedRegistration dbFails cmd s).1 = s ∨
      s.Claims ⟨cmd.owner, cmd.nonce, cmd.signedAt, cmd.nonceUsedAt⟩
        (applySignedRegistration dbFails cmd s).1 := by
  rcases applySignedRegistration_cases dbFails s cmd with
    ⟨hr, -⟩ | ⟨-, hr⟩ | ⟨hunused, ⟨hnone, hr⟩ | ⟨row, -, ⟨-, hr⟩ | ⟨-, -, hr⟩ | ⟨-, -, hr⟩⟩⟩
  · exact .inl (congrArg Prod.fst hr)
  · exact .inl (congrArg Prod.fst hr)
  all_goals
    rw [hr]
    exact .inr ⟨hunused, rfl⟩

theorem applySignedDeregistration_claims (dbFails : Bool) (cmd : SignedDeregistration) (s : Store) :
    (applySignedDeregistration dbFails cmd s).1 = s ∨
      s.Claims ⟨cmd.owner, cmd.nonce, cmd.signedAt, cmd.nonceUsedAt⟩
        (applySignedDeregistration dbFails cmd s).1 := by
  unfold applySignedDeregistration transaction
  split
  · exact .inl rfl
  · dsimp only
    split
    · exact .inl rfl
    next hunused =>
      have hunused := Bool.eq_false_of_not_eq_true hunused
      split
      · exact .inr ⟨hunused, rfl⟩
      · exact .inr ⟨hunused, rfl⟩

theorem applyLegacyRegistration_usedNonces (dbFails : Bool) (cmd : LegacyRegistration) (s : Store) :
    (applyLegacyRegistration dbFails cmd s).1.usedNonces = s.usedNonces := by
  rcases applyLegacyRegistration_cases dbFails cmd s with heq | ⟨hnone, heq⟩ | ⟨_, -, -, heq⟩
  · rw [heq]
  · rw [heq]
    rfl
  · rw [heq]
    rfl

theorem deleteLegacyRegistration_usedNonces (dbFails : Bool) (vault : String) (s : Store) :
    (deleteLegacyRegistration dbFails vault s).1.usedNonces = s.usedNonces := by
  rcases deleteLegacyRegistration_cases dbFails vault s with heq | ⟨_, -, -, heq⟩
  · rw [heq]
  · rw [heq]
    rfl

theorem deleteLegacyRegistrationsByOwner_usedNonces (dbFails : Bool) (owner : String) (s : Store) :
    (deleteLegacyRegistrationsByOwner dbFails owner s).1.usedNonces = s.usedNonces := by
  unfold deleteLegacyRegistrationsByOwner transaction
  split
  · rfl
  · rfl

/-- Only a signed call touches the nonces, and it claims its own or changes nothing at all. -/
theorem Call.apply_claims (call : Call) (now : Int) (dbFails : Bool) (s : Store) :
    (call.stamp = none ∧ (call.apply host now dbFails s).1.usedNonces = s.usedNonces) ∨
    ∃ stamp, call.stamp = some stamp ∧ ((call.apply host now dbFails s).1 = s ∨
      s.Claims stamp (call.apply host now dbFails s).1) := by
  cases hlegacy : call.isLegacy with
  | false =>
      cases call with
      | signedRegistration cmd => exact .inr ⟨_, rfl, applySignedRegistration_claims dbFails cmd s⟩
      | signedDeregistration cmd =>
          exact .inr ⟨_, rfl, applySignedDeregistration_claims dbFails cmd s⟩
      | legacyRegistration | legacyDeregistration | legacyDeregistrationByOwner => cases hlegacy
  | true =>
      have hstamp : call.stamp = none := by
        cases call with
        | signedRegistration | signedDeregistration => cases hlegacy
        | legacyRegistration | legacyDeregistration | legacyDeregistrationByOwner => rfl
      refine .inl ⟨hstamp, ?_⟩
      rcases Call.apply_legacy_cases host hlegacy now dbFails s with
        heq | ⟨cmd, -, heq⟩ | ⟨vault, -, heq⟩ | ⟨owner, -, heq⟩
      · rw [heq]
      · rw [heq, applyLegacyRegistration_usedNonces]
      · rw [heq, deleteLegacyRegistration_usedNonces]
      · rw [heq, deleteLegacyRegistrationsByOwner_usedNonces]

/-! ## Freshness -/

/-- The message was signed within the signature window around the time it is claimed for. -/
def Stamp.Fresh (now : Int) (stamp : Stamp) : Prop :=
  stamp.usedAt = now ∧ (now - stamp.signedAt).natAbs ≤ sigWindowSec

theorem v2PosInt_number {n : Rat} {k : Nat} (h : v2PosInt (some (.number n)) = some k) :
    (k : Int) = n.num := by
  simp only [v2PosInt] at h
  split at h
  next hbounds =>
    obtain rfl := Option.some.inj h
    exact Int.toNat_of_nonneg hbounds.2.1.le
  · cases h

theorem freshnessError_none {timestamp : Option Json} {now : Int} {k : Nat}
    (hfresh : ∀ code, freshnessError timestamp now ≠ some code) (hvalid : v2PosInt timestamp = some k) :
    (now - (k : Int)).natAbs ≤ sigWindowSec := by
  have hnone := Option.eq_none_iff_forall_ne_some.mpr hfresh
  unfold freshnessError at hnone
  split at hnone
  next n =>
    rw [v2PosInt_number hvalid]
    split at hnone
    · cases hnone
    · split at hnone
      · cases hnone
      next hwindow => exact not_lt.mp hwindow
  · cases hnone

theorem authorizeRegisterV2_fresh {expected : Expected} {now : Int} {body : Body}
    {cmd : SignedRegistration} (h : authorizeRegisterV2 host expected now body = .ok cmd) :
    Stamp.Fresh now ⟨cmd.owner, cmd.nonce, cmd.signedAt, cmd.nonceUsedAt⟩ := by
  unfold authorizeRegisterV2 at h
  simp only [throw_bind, ite_eq_iff, reduceCtorEq, and_false, false_or] at h
  obtain ⟨-, -, -, h⟩ := h
  obtain ⟨deviceToken, -, h⟩ := Except.bind_eq_ok.mp h
  split at h
  · cases h
  next hfresh =>
    obtain ⟨fields, hfields, h⟩ := Except.bind_eq_ok.mp h
    obtain ⟨_, -, h⟩ := Except.bind_eq_ok.mp h
    obtain rfl := Except.pure_eq_ok.mp h
    have hfields := orFail_eq_ok.mp hfields
    simp only [registerFieldsV2, Option.bind_eq_bind, Option.bind_eq_some_iff] at hfields
    obtain ⟨_, -, _, -, _, -, _, -, _, -, _, -, _, -, _, -, _, -, timestamp, htime, _, -, hfields⟩ :=
      hfields
    obtain rfl := Option.some.inj hfields
    exact ⟨rfl, freshnessError_none hfresh htime⟩

theorem authorizeDeregisterV2_fresh {expected : Expected} {now : Int} {store : Store} {body : Body}
    {cmd : SignedDeregistration} {verify : Bool}
    (h : authorizeDeregisterV2 host expected now store body = .ok (cmd, verify)) :
    Stamp.Fresh now ⟨cmd.owner, cmd.nonce, cmd.signedAt, cmd.nonceUsedAt⟩ := by
  unfold authorizeDeregisterV2 at h
  simp only [throw_bind, ite_eq_iff, reduceCtorEq, and_false, false_or] at h
  obtain ⟨-, -, -, h⟩ := h
  split at h
  · cases h
  next hfresh =>
    obtain ⟨fields, hfields, h⟩ := Except.bind_eq_ok.mp h
    obtain ⟨pda, -, h⟩ := Except.bind_eq_ok.mp h
    have hfields := orFail_eq_ok.mp hfields
    simp only [deregisterFieldsV2, Option.bind_eq_bind, Option.bind_eq_some_iff] at hfields
    obtain ⟨_, -, _, -, _, -, _, -, timestamp, htime, _, -, hfields⟩ := hfields
    obtain rfl := Option.some.inj hfields
    simp only [ite_eq_iff, reduceCtorEq, and_false, false_or] at h
    obtain ⟨-, h⟩ := h
    obtain ⟨_, -, h⟩ := Except.bind_eq_ok.mp h
    have hfinal := freshnessError_none hfresh htime
    split at h
    · split at h
      · obtain ⟨rfl, -⟩ := Prod.mk.inj (Except.pure_eq_ok.mp h)
        exact ⟨rfl, hfinal⟩
      · cases h
    · obtain ⟨rfl, -⟩ := Prod.mk.inj (Except.pure_eq_ok.mp h)
      exact ⟨rfl, hfinal⟩

/-- What a handler calls the store with is fresh at the time of the request. -/
theorem handle_fresh (limits : Limits) (now : Int) (store : Store) (t : Transition) :
    ∀ call ∈ (handle host cfg limits now store req t).2.call, ∀ stamp ∈ call.stamp,
      stamp.Fresh now := by
  intro call hcall
  cases hsigned : isSignedAttempt req.body with
  | false =>
      -- A legacy call carries no nonce.
      have hlegacy := (handle_admitted limits now store t call hcall).isLegacy
      rw [hsigned] at hlegacy
      cases call with
      | signedRegistration | signedDeregistration => cases hlegacy
      | legacyRegistration | legacyDeregistration | legacyDeregistrationByOwner => exact nofun
  | true =>
      simp only [handle, hsigned, if_true] at hcall
      repeat' split at hcall
      all_goals cases hcall
      next hauthorized =>
        rintro stamp ⟨⟩
        exact authorizeRegisterV2_fresh hauthorized
      next hauthorized =>
        rintro stamp ⟨⟩
        exact authorizeDeregisterV2_fresh hauthorized
      next hauthorized =>
        rintro stamp ⟨⟩
        exact authorizeDeregisterV2_fresh hauthorized

/-! ## Claims in a run -/

/-- The time of a step, if it looks at the clock; nonces are forgotten two windows late. -/
def Event.time : Event → Option Int
  | arrive _ _ _ now _ | resume _ _ now _ | observe now => some now
  | pruneNonces olderThan => some (olderThan + 2 * sigWindowSec)
  | deleteRegistration _ | updateNotifyState .. => none

/-- The clock never goes back. -/
def Clock (es : List Event) : Prop :=
  (es.filterMap Event.time).Pairwise (· ≤ ·)

/-- How often the run claims this nonce. -/
def Server.claimed (host : Host) (cfg : Config) (owner nonce : String) : Server → List Event → Nat
  | _, [] => 0
  | s, e :: es =>
    let s' := (s.step host cfg e).1
    s'.store.claims owner nonce - s.store.claims owner nonce + s'.claimed host cfg owner nonce es

/-- Every step of the run is one that the condition allows. -/
def Server.Throughout (host : Host) (cfg : Config) (P : Server → Event → Prop) (s : Server)
    (es : List Event) : Prop :=
  ∀ pre e post, es = pre ++ e :: post → P (s.run host cfg pre) e

theorem Server.Throughout.head {P : Server → Event → Prop} {s : Server} {e : Event}
    {es : List Event} (h : s.Throughout host cfg P (e :: es)) : P s e :=
  h [] e es rfl

theorem Server.Throughout.tail {P : Server → Event → Prop} {s : Server} {e : Event}
    {es : List Event} (h : s.Throughout host cfg P (e :: es)) :
    (s.step host cfg e).1.Throughout host cfg P es := by
  intro pre e' post hes
  exact h (e :: pre) e' post (by rw [hes]; rfl)

theorem Server.Throughout.nil {P : Server → Event → Prop} {s : Server} :
    s.Throughout host cfg P [] := by
  intro pre e post hes
  cases pre <;> cases hes

theorem Server.Throughout.cons {P : Server → Event → Prop} {s : Server} {e : Event}
    {es : List Event} (hhead : P s e) (htail : (s.step host cfg e).1.Throughout host cfg P es) :
    s.Throughout host cfg P (e :: es) := by
  intro pre e' post hes
  cases pre with
  | nil =>
      obtain ⟨rfl, -⟩ := List.cons.inj hes
      exact hhead
  | cons e₁ pre =>
      obtain ⟨rfl, rfl⟩ := List.cons.inj hes
      exact htail pre e' post rfl

instance Server.decidableThroughout {P : Server → Event → Prop} [∀ s e, Decidable (P s e)] :
    ∀ (s : Server) (es : List Event), Decidable (s.Throughout host cfg P es)
  | _, [] => isTrue .nil
  | s, e :: es =>
    have := decidableThroughout (P := P) (s.step host cfg e).1 es
    decidable_of_iff (P s e ∧ (s.step host cfg e).1.Throughout host cfg P es)
      ⟨fun h => .cons h.1 h.2, fun h => ⟨h.head, h.tail⟩⟩

/-- When the nonce is forgotten, no suspended handler carries it. -/
def Server.ForgetsUnneeded (owner nonce : String) (s : Server) : Event → Prop
  | .pruneNonces olderThan =>
    ∀ entry ∈ s.store.usedNonces, entry.1 = (owner, nonce) → entry.2 < olderThan →
      ∀ waiting ∈ s.suspended, ¬ waiting.call.Carries owner nonce
  | _ => True

instance (s : Server) : ∀ e, Decidable (s.ForgetsUnneeded owner nonce e)
  | .pruneNonces olderThan =>
    inferInstanceAs (Decidable (∀ entry ∈ s.store.usedNonces, entry.1 = (owner, nonce) →
      entry.2 < olderThan → ∀ waiting ∈ s.suspended, ¬ waiting.call.Carries owner nonce))
  | .arrive .. | .resume .. | .observe _ | .deleteRegistration _ | .updateNotifyState .. =>
    isTrue trivial

/-- The owner has signed with the nonce until `last`, and no accepted request carries it more
    than the signature window before that. -/
def Server.SignedUntil (host : Host) (cfg : Config) (owner nonce : String) (last : Int) (s : Server) :
    Event → Prop
  | .arrive _ request limits now _ =>
    ∀ call ∈ (handle host cfg limits now s.store request s.transition).2.call,
      ∀ stamp ∈ call.stamp, stamp.owner = owner → stamp.nonce = nonce →
        stamp.signedAt ≤ last ∧ last ≤ now + sigWindowSec
  | _ => True

instance (s : Server) : ∀ e, Decidable (s.SignedUntil host cfg owner nonce last e)
  | .arrive _ request limits now _ =>
    inferInstanceAs (Decidable (
      ∀ call ∈ (handle host cfg limits now s.store request s.transition).2.call,
        ∀ stamp ∈ call.stamp, stamp.owner = owner → stamp.nonce = nonce →
          stamp.signedAt ≤ last ∧ last ≤ now + sigWindowSec))
  | .resume .. | .observe _ | .deleteRegistration _ | .updateNotifyState .. | .pruneNonces _ =>
    isTrue trivial

/-- The nonce is there, claimed for a time near the last signature. -/
def Store.Holds (owner nonce : String) (last : Int) (s : Store) : Prop :=
  ∃ usedAt, ((owner, nonce), usedAt) ∈ s.usedNonces ∧ last ≤ usedAt + sigWindowSec

/-- No suspended handler carries the nonce, and no request to come can be fresh. -/
structure Server.Closed (owner nonce : String) (last : Int) (s : Server) (es : List Event) : Prop where
  suspended : ∀ waiting ∈ s.suspended, ¬ waiting.call.Carries owner nonce
  late : ∀ time ∈ es.filterMap Event.time, last + sigWindowSec < time

/-- Before the rest of a run: the nonce has not been claimed, or it has been once. -/
structure Server.Single (owner nonce : String) (last : Int) (s : Server) (n : Nat) (es : List Event) :
    Prop where
  near : ∀ waiting ∈ s.suspended, ∀ stamp ∈ waiting.call.stamp, stamp.owner = owner →
    stamp.nonce = nonce → last ≤ stamp.usedAt + sigWindowSec
  once : n = 0 ∨ n = 1 ∧ (s.store.Holds owner nonce last ∨ s.Closed owner nonce last es)

theorem Store.Claims.claims {s s' : Store} {stamp : Stamp} (h : s.Claims stamp s')
    (owner nonce : String) :
    s'.claims owner nonce = s.claims owner nonce +
      if (stamp.owner, stamp.nonce) = (owner, nonce) then 1 else 0 := by
  rw [Store.claims, h.usedNonces, List.countP_append, List.countP_singleton]
  simp [Store.claims]

section Step

variable {s : Server} {n : Nat} {es : List Event} {e : Event}

theorem Store.Holds.nonceUsed {s : Store} (h : s.Holds owner nonce last) :
    s.nonceUsed owner nonce = true := by
  obtain ⟨usedAt, hmem, -⟩ := h
  exact List.any_eq_true.mpr ⟨_, hmem, decide_eq_true rfl⟩

/-- What leaves the nonces alone, and suspends nothing. -/
theorem Server.Single.mono (hs : s.Single owner nonce last n es) {s' : Server}
    (hnonces : s'.store.usedNonces = s.store.usedNonces)
    (hsub : ∀ waiting ∈ s'.suspended, waiting ∈ s.suspended) : s'.Single owner nonce last n es := by
  refine ⟨fun waiting hwaiting => hs.near waiting (hsub waiting hwaiting), ?_⟩
  refine hs.once.imp_right fun ⟨hone, honce⟩ => ⟨hone, honce.imp ?_ ?_⟩
  · rintro ⟨usedAt, hmem, hlast⟩
    exact ⟨usedAt, hnonces ▸ hmem, hlast⟩
  · intro hclosed
    exact ⟨fun waiting hwaiting => hclosed.suspended waiting (hsub waiting hwaiting), hclosed.late⟩

theorem Server.Single.quiet (hs : s.Single owner nonce last n es) {s' : Server}
    (hnonces : s'.store.usedNonces = s.store.usedNonces)
    (hsub : ∀ waiting ∈ s'.suspended, waiting ∈ s.suspended) :
    s'.Single owner nonce last (n + (s'.store.claims owner nonce - s.store.claims owner nonce)) es := by
  have hsame : s'.store.claims owner nonce = s.store.claims owner nonce := by
    rw [Store.claims, hnonces, Store.claims]
  rw [hsame, Nat.sub_self, Nat.add_zero]
  exact hs.mono hnonces hsub

/-- A handler that runs its call, or is suspended with it; the nonce it carries is not out of
    reach yet. -/
theorem Server.Single.reply (hs : s.Single owner nonce last n es) {r : Reply}
    (hnear : ∀ call ∈ r.call, ∀ stamp ∈ call.stamp, stamp.owner = owner → stamp.nonce = nonce →
      last ≤ stamp.usedAt + sigWindowSec)
    (hreach : ∀ call ∈ r.call, call.Carries owner nonce → n = 0 ∨ s.store.Holds owner nonce last)
    (id : Nat) (req : Request) (now : Int) (dbFails : Bool) :
    let s' := (s.reply host cfg id req now dbFails r).1
    s'.Single owner nonce last (n + (s'.store.claims owner nonce - s.store.claims owner nonce)) es := by
  cases r with
  | respond response => exact hs.quiet rfl fun _ h => h
  | await call =>
      simp only [Server.reply, Nat.sub_self, Nat.add_zero]
      refine ⟨fun waiting hwaiting => ?_, ?_⟩
      · rcases List.mem_append.mp hwaiting with hold | hnew
        · exact hs.near waiting hold
        · rw [List.mem_singleton.mp hnew]
          exact hnear call rfl
      · rcases hs.once with hzero | ⟨hone, hholds | hc⟩
        · exact .inl hzero
        · exact .inr ⟨hone, .inl hholds⟩
        · by_cases hcarries : call.Carries owner nonce
          · exact (hreach call rfl hcarries).imp_right fun hholds => ⟨hone, .inl hholds⟩
          · refine .inr ⟨hone, .inr ⟨fun waiting hwaiting => ?_, hc.late⟩⟩
            rcases List.mem_append.mp hwaiting with hold | hnew
            · exact hc.suspended waiting hold
            · rw [List.mem_singleton.mp hnew]
              exact hcarries
  | run call =>
      rcases @Call.apply_claims host call now dbFails s.store with
        ⟨-, hsame⟩ | ⟨stamp, hstamp, hsame | hclaims⟩
      · exact hs.quiet hsame fun _ h => h
      · exact hs.quiet (congrArg Store.usedNonces hsame) fun _ h => h
      · dsimp only [Server.reply]
        rw [hclaims.claims, Nat.add_sub_cancel_left]
        refine ⟨hs.near, ?_⟩
        split
        next hkey =>
          -- It is claimed now, so it was not there.
          obtain ⟨howner, hnonce⟩ := Prod.mk.inj hkey
          rcases hreach call rfl ⟨stamp, hstamp, howner, hnonce⟩ with rfl | hholds
          · refine .inr ⟨rfl, .inl ⟨stamp.usedAt, ?_, hnear call rfl stamp hstamp howner hnonce⟩⟩
            rw [hclaims.usedNonces, hkey]
            exact List.mem_append_right _ (List.mem_singleton_self _)
          · have hused := hholds.nonceUsed
            rw [← howner, ← hnonce, hclaims.unused] at hused
            cases hused
        · refine hs.once.imp_right fun honce => ⟨honce.1, honce.2.imp ?_ ?_⟩
          · rintro ⟨usedAt, hmem, hlast⟩
            refine ⟨usedAt, ?_, hlast⟩
            rw [hclaims.usedNonces]
            exact List.mem_append_left _ hmem
          · exact fun hc => ⟨hc.suspended, hc.late⟩

/-- The clock reads this at the first of the steps, so it reads no less at the others. -/
theorem Clock.late {time : Int} (hclock : Clock (e :: es)) (htime : e.time = some time) :
    ∀ time' ∈ es.filterMap Event.time, time ≤ time' := by
  rw [Clock, List.filterMap_cons_some htime] at hclock
  exact (List.pairwise_cons.mp hclock).1

theorem Clock.tail (hclock : Clock (e :: es)) : Clock es := by
  cases htime : e.time with
  | none =>
      rw [Clock, List.filterMap_cons_none htime] at hclock
      exact hclock
  | some time =>
      rw [Clock, List.filterMap_cons_some htime] at hclock
      exact (List.pairwise_cons.mp hclock).2

/-- The step looks at the clock, or it does not. -/
theorem Server.Closed.tail (hc : s.Closed owner nonce last (e :: es)) :
    s.Closed owner nonce last es := by
  refine ⟨hc.suspended, fun time htime => hc.late time ?_⟩
  obtain ⟨e', he', heq⟩ := List.mem_filterMap.mp htime
  exact List.mem_filterMap.mpr ⟨e', List.mem_cons_of_mem e he', heq⟩

theorem Server.Single.tail (hs : s.Single owner nonce last n (e :: es)) :
    s.Single owner nonce last n es :=
  ⟨hs.near, hs.once.imp_right fun ⟨hone, honce⟩ => ⟨hone, honce.imp_right Server.Closed.tail⟩⟩

theorem Server.Single.step (hs : s.Single owner nonce last n (e :: es)) (hclock : Clock (e :: es))
    (hforgets : s.ForgetsUnneeded owner nonce e) (hsigned : s.SignedUntil host cfg owner nonce last e) :
    let s' := (s.step host cfg e).1
    s'.Single owner nonce last (n + (s'.store.claims owner nonce - s.store.claims owner nonce)) es := by
  cases e with
  | arrive id req limits now dbFails =>
      let s₁ : Server := { s with transition := (handle host cfg limits now s.store req s.transition).1 }
      have hs₁ : s₁.Single owner nonce last n (Event.arrive id req limits now dbFails :: es) :=
        hs.mono rfl fun _ h => h
      refine hs₁.tail.reply (fun call hcall stamp hstamp howner hnonce => ?_) ?_ id req now dbFails
      · have hfresh := handle_fresh limits now s.store s.transition call hcall stamp hstamp
        rw [hfresh.1]
        exact (hsigned call hcall stamp hstamp howner hnonce).2
      · rintro call hcall ⟨stamp, hstamp, howner, hnonce⟩
        refine hs.once.imp_right fun honce => honce.2.resolve_right fun hc => ?_
        -- By now no request that carries the nonce is fresh.
        have hwindow := (handle_fresh limits now s.store s.transition call hcall stamp hstamp).2
        have hlast := (hsigned call hcall stamp hstamp howner hnonce).1
        have hlate := hc.late now (by simp [Event.time])
        omega
  | resume id verdict now dbFails =>
      simp only [Server.step]
      split
      · exact hs.tail.quiet rfl fun _ h => h
      next waiting hwaiting =>
        have hmem := List.mem_of_find?_eq_some hwaiting
        let s₁ : Server :=
          { s with suspended := s.suspended.filter fun other => !decide (other.id = id) }
        have hs₁ : s₁.Single owner nonce last n es :=
          hs.tail.mono rfl fun _ h => (List.mem_filter.mp h).1
        refine hs₁.reply (fun call hcall => ?_) ?_ id waiting.request now dbFails
        · rw [proceed_call hcall]
          exact hs.near waiting hmem
        · intro call hcall hcarries
          rw [proceed_call hcall] at hcarries
          exact hs.once.imp_right fun honce =>
            honce.2.resolve_right fun hc => hc.suspended waiting hmem hcarries
  | observe now => exact hs.tail.quiet rfl fun _ h => h
  | deleteRegistration vault => exact hs.tail.quiet rfl fun _ h => h
  | updateNotifyState vault lastStage lastNotifiedAt => exact hs.tail.quiet rfl fun _ h => h
  | pruneNonces olderThan =>
      have hfewer : (s.store.pruneNonces olderThan).claims owner nonce ≤ s.store.claims owner nonce :=
        List.Sublist.countP_le List.filter_sublist
      dsimp only [Server.step]
      rw [Nat.sub_eq_zero_of_le hfewer, Nat.add_zero]
      refine ⟨hs.near, hs.once.imp_right fun honce => ⟨honce.1, ?_⟩⟩
      rcases honce.2 with ⟨usedAt, hmem, hlast⟩ | hc
      · by_cases hold : usedAt < olderThan
        · -- It is forgotten two windows after its use, that is one after the last signature.
          refine .inr ⟨hforgets _ hmem rfl hold, fun time htime => ?_⟩
          have hlate := hclock.late rfl time htime
          simp only [sigWindowSec] at hlast hlate ⊢
          omega
        · exact .inl ⟨usedAt, List.mem_filter.mpr ⟨hmem, by simpa using hold⟩, hlast⟩
      · exact .inr ⟨hc.suspended, hc.tail.late⟩

theorem Server.Single.claimed (hs : s.Single owner nonce last n es) (hclock : Clock es)
    (hforgets : s.Throughout host cfg (Server.ForgetsUnneeded owner nonce) es)
    (hsigned : s.Throughout host cfg (Server.SignedUntil host cfg owner nonce last) es) :
    n + s.claimed host cfg owner nonce es ≤ 1 := by
  induction es generalizing s n with
  | nil =>
      have honce := hs.once
      simp only [Server.claimed]
      omega
  | cons e es ih =>
      have hrest := ih (hs.step hclock hforgets.head hsigned.head) hclock.tail hforgets.tail hsigned.tail
      simp only [Server.claimed]
      omega

end Step

/-- An operation that does not claim its nonce does nothing. -/
theorem Server.step_unclaimed {s : Server} {e : Event} {a : Activity} {call : Call}
    (hs : s.Admitted cfg) (ha : a ∈ (s.step host cfg e).2) (hcall : call ∈ a.call)
    (hcarries : call.Carries owner nonce)
    (hsame : (s.step host cfg e).1.store.claims owner nonce = s.store.claims owner nonce) :
    (s.step host cfg e).1.store = s.store := by
  obtain ⟨stamp, hstamp, howner, hnonce⟩ := hcarries
  rcases Server.step_activity hs ha with ⟨hnone, -⟩ | ⟨call', now, dbFails, -, hcall', hstore⟩
  · cases hnone.symm.trans hcall
  · obtain rfl := Option.some.inj (hcall'.symm.trans hcall)
    rw [hstore] at hsame ⊢
    rcases @Call.apply_claims host call' now dbFails s.store with
      ⟨hnone, -⟩ | ⟨stamp', hstamp', hunchanged | hclaims⟩
    · cases hnone.symm.trans hstamp
    · exact hunchanged
    · obtain rfl := Option.some.inj (hstamp'.symm.trans hstamp)
      rw [hclaims.claims, howner, hnonce, if_pos rfl] at hsame
      omega

/-- A signed message takes effect at most once, if no handler that carries its nonce is suspended
    when the nonce is forgotten. -/
theorem signed_takes_effect_once (host : Host) (cfg : Config) (store : Store) {owner nonce : String}
    {last : Int} {es : List Event} (hclock : Clock es)
    (hforgets : (Server.start store).Throughout host cfg (Server.ForgetsUnneeded owner nonce) es)
    (hsigned : (Server.start store).Throughout host cfg
      (Server.SignedUntil host cfg owner nonce last) es) :
    (Server.start store).claimed host cfg owner nonce es ≤ 1 ∧
    (Server.start store).Throughout host cfg (fun s e =>
      ∀ a ∈ (s.step host cfg e).2, ∀ call ∈ a.call, call.Carries owner nonce →
        (s.step host cfg e).1.store.claims owner nonce = s.store.claims owner nonce →
        (s.step host cfg e).1.store = s.store) es := by
  constructor
  · have hstart : (Server.start store).Single owner nonce last 0 es := ⟨nofun, .inl rfl⟩
    simpa using hstart.claimed hclock hforgets hsigned
  · intro pre e post _ a ha call hcall hcarries hsame
    have hadmitted := (Server.start_admitted cfg store).run host pre
    exact Server.step_unclaimed hadmitted ha hcall hcarries hsame

/-! A registration that is replayed: it is refused when it arrives after its nonce is forgotten,
and it is applied again when it was suspended at that time. -/

namespace Sample

/-- A host that takes every signature for valid. -/
def trustingHost : Host :=
  { sampleHost with
    sha256Hex := fun _ => String.ofList (List.replicate 64 '0')
    findVaultPda := fun _ _ => some "vault"
    bs58Decode := fun text => some (List.replicate (if text = "signature" then 64 else 32) 0)
    bs58Encode := fun _ => "signature"
    verifyEd25519 := fun _ _ _ => true }

def signedBody (action : String) (timestamp : Rat) (nonce : String) : Body :=
  [("version", .number 2), ("cluster", .string "devnet"), ("programId", .string "dmv"),
    ("audience", .string notifyAudience), ("action", .string action), ("owner", .string "owner"),
    ("vault", .string "vault"), ("deviceToken", .string "0123456789abcdef0123456789abcdef"),
    ("stage1", .number 1), ("stage2", .number 1), ("stage3", .number 1), ("revision", .number 2),
    ("timestamp", .number timestamp), ("nonce", .string nonce), ("signature", .string "signature")]

def firstNonce : String := "1111111111111111111111"

def secondNonce : String := "2222222222222222222222"

/-- The registration signed at 1000, whenever it arrives. -/
def signedRegister (id : Nat) (now : Int) : Event :=
  .arrive id ⟨.register, signedBody "register" 1000 firstNonce, none⟩ ⟨true, true⟩ now false

def signedDeregister (id : Nat) (now : Int) : Event :=
  .arrive id ⟨.deregister, signedBody "deregister" 1003 secondNonce, none⟩ ⟨true, true⟩ now false

def lateReplay : List Event :=
  [signedRegister 1 1000, .resume 1 .owned 1001 false, .pruneNonces 1020, signedRegister 2 2220]

/-- The owner has deregistered in between, and nonces are forgotten every minute. -/
def suspendedReplay : List Event :=
  [signedRegister 1 1000, .resume 1 .owned 1001 false, signedRegister 2 1002,
    signedDeregister 3 1003] ++
    ((List.range 21).map fun minute => .pruneNonces (1020 + 60 * minute - 2 * sigWindowSec)) ++
    [.resume 2 .owned 2221 false]

end Sample

theorem signed_takes_effect_once_sample :
    (Server.start Sample.emptyStore).claimed Sample.trustingHost Sample.dualConfig "owner"
      Sample.firstNonce Sample.lateReplay ≤ 1 := by
  have hclock : Clock Sample.lateReplay := by
    unfold Clock
    decide +kernel
  have hsigned : (Server.start Sample.emptyStore).Throughout Sample.trustingHost Sample.dualConfig
      (Server.SignedUntil Sample.trustingHost Sample.dualConfig "owner" Sample.firstNonce 1000)
      Sample.lateReplay := by decide +kernel
  exact (signed_takes_effect_once Sample.trustingHost Sample.dualConfig Sample.emptyStore hclock
    (by decide +kernel) hsigned).1

theorem signed_takes_effect_once_fails :
    let s := (Server.start Sample.emptyStore).run Sample.trustingHost Sample.dualConfig
    Clock Sample.suspendedReplay ∧
    (Server.start Sample.emptyStore).claimed Sample.trustingHost Sample.dualConfig "owner"
      Sample.firstNonce Sample.suspendedReplay = 2 ∧
    (s Sample.suspendedReplay.dropLast).store.getRegistration "vault" = none ∧
    ((s Sample.suspendedReplay).store.getRegistration "vault").isSome = true := by
  unfold Clock
  decide +kernel

end DeadMansVault.Notify
