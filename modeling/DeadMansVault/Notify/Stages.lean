-- SUMMARY: The stages of every stored registration are positive, whichever way it came in.
import DeadMansVault.Library.Guard
import DeadMansVault.Notify.Admission
import Mathlib.Data.Nat.Cast.Order.Field
import Mathlib.Data.Rat.Cast.Order

/-!
# Stored stages

The store takes the durations of the stages as they come. It is the handlers that
refuse anything but positive numbers, before they call it.
-/

namespace DeadMansVault.Notify

variable {host : Host} {cfg : Config} {req : Request}

/-! ## What the handlers check -/

@[simp] theorem orFail_eq_ok {α : Type} {code : Result} {x : Option α} {a : α} :
    orFail code x = .ok a ↔ x = some a := by
  cases x <;> simp [orFail]

theorem v2PosInt_pos {value : Option Json} {n : Nat} (h : v2PosInt value = some n) : 0 < n := by
  unfold v2PosInt at h
  split at h
  · split at h
    next hbounds =>
      obtain rfl := Option.some.inj h
      have hpos := hbounds.2.1
      omega
    · cases h
  · cases h

theorem registerFieldsV2_pos {host : Host} {body : Body} {hash : String} {fields : RegisterFieldsV2}
    (h : registerFieldsV2 host body hash = some fields) :
    0 < fields.stage1 ∧ 0 < fields.stage2 ∧ 0 < fields.stage3 := by
  simp only [registerFieldsV2, Option.bind_eq_bind, Option.bind_eq_some_iff] at h
  obtain ⟨_, -, _, -, _, -, _, -, _, -, _, h1, _, h2, _, h3, _, -, _, -, _, -, h⟩ := h
  obtain rfl := Option.some.inj h
  exact ⟨v2PosInt_pos h1, v2PosInt_pos h2, v2PosInt_pos h3⟩

/-- A failed check ends the chain. -/
@[simp] theorem throw_bind {α β : Type} (code : Result) (f : α → Except Result β) :
    (throw code >>= f) = .error code := rfl

theorem authorizeRegisterV2_pos {host : Host} {expected : Expected} {now : Int} {body : Body}
    {cmd : SignedRegistration} (h : authorizeRegisterV2 host expected now body = .ok cmd) :
    0 < cmd.stage1 ∧ 0 < cmd.stage2 ∧ 0 < cmd.stage3 := by
  unfold authorizeRegisterV2 at h
  simp only [throw_bind, ite_eq_iff, reduceCtorEq, and_false, false_or] at h
  obtain ⟨-, -, -, h⟩ := h
  obtain ⟨deviceToken, -, h⟩ := Except.bind_eq_ok.mp h
  split at h
  · cases h
  · obtain ⟨fields, hfields, h⟩ := Except.bind_eq_ok.mp h
    obtain ⟨_, -, h⟩ := Except.bind_eq_ok.mp h
    obtain rfl := Except.pure_eq_ok.mp h
    obtain ⟨h1, h2, h3⟩ := registerFieldsV2_pos (orFail_eq_ok.mp hfields)
    exact ⟨Nat.cast_pos.mpr h1, Nat.cast_pos.mpr h2, Nat.cast_pos.mpr h3⟩

/-- The registration that a call stores has positive stages. -/
def Call.StagesPositive : Call → Prop
  | signedRegistration cmd => 0 < cmd.stage1 ∧ 0 < cmd.stage2 ∧ 0 < cmd.stage3
  | legacyRegistration _ _ _ stage1 stage2 stage3 => 0 < stage1 ∧ 0 < stage2 ∧ 0 < stage3
  | signedDeregistration _ | legacyDeregistration _ | legacyDeregistrationByOwner _ => True

theorem legacyRegister_positive :
    ∀ call ∈ (legacyRegister host cfg req).call, call.StagesPositive := by
  intro call hcall
  unfold legacyRegister at hcall
  repeat' split at hcall
  all_goals cases hcall
  assumption

theorem legacyDeregister_positive :
    ∀ call ∈ (legacyDeregister host cfg req).call, call.StagesPositive := by
  intro call hcall
  unfold legacyDeregister at hcall
  dsimp only at hcall
  repeat' split at hcall
  all_goals cases hcall
  all_goals trivial

theorem handle_positive (limits : Limits) (now : Int) (store : Store) (t : Transition) :
    ∀ call ∈ (handle host cfg limits now store req t).2.call, call.StagesPositive := by
  intro call hcall
  unfold handle at hcall
  split at hcall
  · cases hcall
  · split at hcall
    · cases hcall
    · split at hcall
      · dsimp only at hcall
        split at hcall
        · cases hcall
        · split at hcall
          · split at hcall
            next hauthorized =>
              cases hcall
              exact authorizeRegisterV2_pos hauthorized
            · cases hcall
          · split at hcall
            all_goals cases hcall
            all_goals trivial
      · split at hcall
        · cases hcall
        · dsimp only at hcall
          split at hcall
          · cases hcall
          · split at hcall
            · exact legacyRegister_positive call hcall
            · exact legacyDeregister_positive call hcall

/-! ## What the store keeps -/

def Row.StagesPositive (row : Row) : Prop :=
  0 < row.stage1 ∧ 0 < row.stage2 ∧ 0 < row.stage3

def Store.StagesPositive (s : Store) : Prop :=
  ∀ row ∈ s.rows, row.StagesPositive

namespace Store.StagesPositive

variable {s : Store}

theorem insert (hs : s.StagesPositive) {row : Row} (hrow : row.StagesPositive)
    (h : s.getRegistration row.vault = none) : (s.insert row h).StagesPositive := by
  intro row' hmem
  rcases List.mem_append.mp hmem with hold | hnew
  · exact hs row' hold
  · rw [List.mem_singleton.mp hnew]
    exact hrow

theorem update (hs : s.StagesPositive) (vault : String) (f : Row → Row)
    (hf : ∀ r, (f r).vault = r.vault) (hpos : ∀ r, r.StagesPositive → (f r).StagesPositive) :
    (s.update vault f hf).StagesPositive := by
  intro row' hmem
  obtain ⟨row, hrow, rfl⟩ := List.mem_map.mp hmem
  split
  · exact hpos row (hs row hrow)
  · exact hs row hrow

theorem delete (hs : s.StagesPositive) (p : Row → Bool) : (s.delete p).StagesPositive :=
  fun row hmem => hs row (List.mem_filter.mp hmem).1

theorem applySignedRegistration (hs : s.StagesPositive) {cmd : SignedRegistration}
    (hcmd : 0 < cmd.stage1 ∧ 0 < cmd.stage2 ∧ 0 < cmd.stage3) (dbFails : Bool) :
    (applySignedRegistration dbFails cmd s).1.StagesPositive := by
  unfold Notify.applySignedRegistration transaction
  split
  · exact hs
  · beta_reduce
    split
    · exact hs
    · dsimp only
      -- Claiming the nonce leaves the rows as they are.
      have hclaim : (s.claim cmd.owner cmd.nonce cmd.nonceUsedAt).StagesPositive := hs
      have hfresh : cmd.fresh.StagesPositive := hcmd
      split
      next hnone => exact hclaim.insert hfresh hnone
      · split
        · exact hclaim
        · split
          · exact hclaim
          · exact hclaim.update cmd.vault cmd.renew (fun _ => rfl) fun _ _ => hcmd

theorem applySignedDeregistration (hs : s.StagesPositive) (cmd : SignedDeregistration)
    (dbFails : Bool) : (applySignedDeregistration dbFails cmd s).1.StagesPositive := by
  unfold Notify.applySignedDeregistration transaction
  split
  · exact hs
  · dsimp only
    split
    · exact hs
    · have hclaim : (s.claim cmd.owner cmd.nonce cmd.nonceUsedAt).StagesPositive := hs
      split
      · exact hclaim
      · exact hclaim.delete _

theorem deleteLegacyRegistrationsByOwner (hs : s.StagesPositive) (owner : String) (dbFails : Bool) :
    (deleteLegacyRegistrationsByOwner dbFails owner s).1.StagesPositive := by
  unfold Notify.deleteLegacyRegistrationsByOwner transaction
  split
  · exact hs
  · exact hs.delete _

theorem apply (hs : s.StagesPositive) {call : Call} (hcall : call.StagesPositive) (now : Int)
    (dbFails : Bool) : (call.apply host now dbFails s).1.StagesPositive := by
  cases call with
  | signedRegistration cmd =>
      exact hs.applySignedRegistration hcall dbFails
  | signedDeregistration cmd => exact hs.applySignedDeregistration cmd dbFails
  | legacyRegistration owner vault token stage1 stage2 stage3 =>
      simp only [Call.apply]
      cases host.bindText owner with
      | none => exact hs
      | some owner =>
          cases host.bindText vault with
          | none => exact hs
          | some vault =>
              let cmd : LegacyRegistration := ⟨owner, vault, token, stage1, stage2, stage3, now⟩
              have hfresh : cmd.fresh.StagesPositive := hcall
              rcases applyLegacyRegistration_cases dbFails cmd s with heq | ⟨hnone, heq⟩ |
                ⟨_, -, -, heq⟩
              · rw [heq]
                exact hs
              · rw [heq]
                exact hs.insert hfresh hnone
              · rw [heq]
                exact hs.update cmd.vault cmd.renew cmd.renew_vault fun _ _ => hcall
  | legacyDeregistration vault =>
      simp only [Call.apply]
      cases host.bindText vault with
      | none => exact hs
      | some vault =>
          rcases deleteLegacyRegistration_cases dbFails vault s with heq | ⟨_, -, -, heq⟩
          · rw [heq]
            exact hs
          · rw [heq]
            exact hs.delete _
  | legacyDeregistrationByOwner owner =>
      simp only [Call.apply]
      cases host.bindText owner with
      | none => exact hs
      | some owner => exact hs.deleteLegacyRegistrationsByOwner owner dbFails

end Store.StagesPositive

/-! ## Runs -/

/-- The rows of the server, and the registrations of its suspended handlers. -/
structure Server.StagesPositive (s : Server) : Prop where
  rows : s.store.StagesPositive
  suspended : ∀ waiting ∈ s.suspended, waiting.call.StagesPositive

namespace Server.StagesPositive

variable {s : Server}

theorem reply (hs : s.StagesPositive) {r : Reply} (hr : ∀ call ∈ r.call, call.StagesPositive)
    (id : Nat) (req : Request) (now : Int) (dbFails : Bool) :
    (s.reply host cfg id req now dbFails r).1.StagesPositive := by
  cases r with
  | respond => exact hs
  | run call => exact ⟨hs.rows.apply (hr call rfl) now dbFails, hs.suspended⟩
  | await call =>
      refine ⟨hs.rows, fun waiting hwaiting => ?_⟩
      rcases List.mem_append.mp hwaiting with hold | hnew
      · exact hs.suspended waiting hold
      · rw [List.mem_singleton.mp hnew]
        exact hr call rfl

theorem step (hs : s.StagesPositive) (e : Event) : (s.step host cfg e).1.StagesPositive := by
  cases e with
  | arrive id req limits now dbFails =>
      exact reply (s := { s with transition := (handle host cfg limits now s.store req s.transition).1 })
        ⟨hs.rows, hs.suspended⟩ (handle_positive limits now s.store s.transition) id req now dbFails
  | resume id verdict now dbFails =>
      simp only [Server.step]
      split
      · exact hs
      next waiting hwaiting =>
        have hwoken : Server.StagesPositive
            { s with suspended := s.suspended.filter fun other => !decide (other.id = id) } :=
          ⟨hs.rows, fun other hother => hs.suspended other (List.mem_filter.mp hother).1⟩
        refine hwoken.reply (fun call hcall => ?_) id _ now dbFails
        rw [proceed_call hcall]
        exact hs.suspended waiting (List.mem_of_find?_eq_some hwaiting)
  | observe => exact ⟨hs.rows, hs.suspended⟩
  | deleteRegistration vault => exact ⟨hs.rows.delete _, hs.suspended⟩
  | updateNotifyState vault lastStage lastNotifiedAt =>
      exact ⟨hs.rows.update vault (fun row => { row with lastStage, lastNotifiedAt })
        (fun _ => rfl) fun _ hpos => hpos, hs.suspended⟩
  | pruneNonces => exact ⟨hs.rows, hs.suspended⟩

theorem run (hs : s.StagesPositive) (es : List Event) : (s.run host cfg es).StagesPositive := by
  induction es generalizing s with
  | nil => exact hs
  | cons e es ih => exact ih (hs.step e)

end Server.StagesPositive

/-- The stores that servers have filled, one after the other, from an empty one. -/
inductive Store.Accepted (host : Host) : Store → Prop
  | empty : Store.Accepted host ⟨[], List.nodup_nil, []⟩
  | run {store : Store} (cfg : Config) (es : List Event) :
      Store.Accepted host store → Store.Accepted host ((Server.start store).run host cfg es).store

theorem Store.Accepted.stagesPositive {store : Store} (h : store.Accepted host) :
    store.StagesPositive := by
  induction h with
  | empty => exact fun row hrow => absurd hrow List.not_mem_nil
  | @run store cfg es _ ih =>
      have hstart : (Server.start store).StagesPositive := ⟨ih, nofun⟩
      exact (hstart.run es).rows

end DeadMansVault.Notify
