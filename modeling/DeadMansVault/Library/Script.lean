-- SUMMARY: Triples for programs with a state and exceptions, and the rules for their loops and handlers.
import Mathlib.Logic.Basic

/-!
# Scripts

A script runs in `EStateM`: it changes a state, and it returns or throws. A triple
has a postcondition for each of the two endings. The rules follow the ways in
which a script is put together, so that a property of a long script is shown
once for each of its calls.
-/

universe u

namespace Script

variable {ε σ : Type u} {α β : Type u}

/-- From a state of `P` the script returns in a state of `Q`, or throws in one of `E`. -/
def Meets (P : σ → Prop) (x : EStateM ε σ α) (Q : α → σ → Prop) (E : ε → σ → Prop) : Prop :=
  ∀ s, P s → match x s with
    | .ok a s' => Q a s'
    | .error e s' => E e s'

variable {P P' : σ → Prop} {Q Q' : α → σ → Prop} {R : β → σ → Prop} {E E' : ε → σ → Prop}
  {x : EStateM ε σ α}

/-! ## Endings -/

/-- The state in which a script has ended, in either way. -/
def final : EStateM.Result ε σ α → σ
  | .ok _ s => s
  | .error _ s => s

theorem Meets.ok (h : Meets P x Q E) {s s' : σ} {a : α} (hs : P s) (hrun : x s = .ok a s') :
    Q a s' := by
  have hend := h s hs
  rwa [hrun] at hend

theorem Meets.error (h : Meets P x Q E) {s s' : σ} {e : ε} (hs : P s) (hrun : x s = .error e s') :
    E e s' := by
  have hend := h s hs
  rwa [hrun] at hend

/-- What holds at both endings holds at the end. -/
theorem Meets.at_end {P Q : σ → Prop} (h : Meets P x (fun _ => Q) (fun _ => Q)) {s : σ}
    (hs : P s) : Q (final (x s)) := by
  have hend := h s hs
  cases hrun : x s with
  | ok a s' =>
      rw [hrun] at hend
      exact hend
  | error e s' =>
      rw [hrun] at hend
      exact hend

section Runs

variable {s s' : σ} {a : α} {e : ε}

theorem run_bind_ok {f : α → EStateM ε σ β} (h : x s = .ok a s') : (x >>= f) s = f a s' := by
  show EStateM.bind x f s = _
  unfold EStateM.bind
  rw [h]

theorem run_bind_error {f : α → EStateM ε σ β} (h : x s = .error e s') :
    (x >>= f) s = .error e s' := by
  show EStateM.bind x f s = _
  unfold EStateM.bind
  rw [h]

theorem run_bind_congr {y : EStateM ε σ α} {s₁ : σ} (h : x s = y s₁) (f : α → EStateM ε σ β) :
    (x >>= f) s = (y >>= f) s₁ := by
  show EStateM.bind x f s = EStateM.bind y f s₁
  unfold EStateM.bind
  rw [h]

theorem run_tryCatch_ok {handler : ε → EStateM ε σ α} (h : x s = .ok a s') :
    (tryCatch x handler : EStateM ε σ α) s = .ok a s' := by
  show EStateM.tryCatch x handler s = _
  unfold EStateM.tryCatch
  rw [h]

/-- What is thrown, the handler gets, with the state as it is then. -/
theorem run_tryCatch_error {handler : ε → EStateM ε σ α} (h : x s = .error e s') :
    (tryCatch x handler : EStateM ε σ α) s = handler e s' := by
  show EStateM.tryCatch x handler s = _
  unfold EStateM.tryCatch
  rw [h]
  rfl

end Runs

/-! ## Rules -/

theorem Meets.mono (h : Meets P x Q E) (hP : ∀ s, P' s → P s) (hQ : ∀ a s, Q a s → Q' a s)
    (hE : ∀ e s, E e s → E' e s) : Meets P' x Q' E' := by
  intro s hs
  have hend := h s (hP s hs)
  cases hrun : x s with
  | ok a s' =>
      rw [hrun] at hend
      exact hQ a s' hend
  | error e s' =>
      rw [hrun] at hend
      exact hE e s' hend

/-- What two triples say of a script holds together. -/
theorem Meets.and (h : Meets P x Q E) (h' : Meets P' x Q' E') :
    Meets (fun s => P s ∧ P' s) x (fun a s => Q a s ∧ Q' a s) (fun e s => E e s ∧ E' e s) := by
  rintro s ⟨hs, hs'⟩
  have hend := h s hs
  have hend' := h' s hs'
  cases hrun : x s with
  | ok a s' =>
      rw [hrun] at hend hend'
      exact ⟨hend, hend'⟩
  | error e s' =>
      rw [hrun] at hend hend'
      exact ⟨hend, hend'⟩

theorem Meets.pure (a : α) : Meets (Q a) (pure a : EStateM ε σ α) Q E := fun _ h => h

theorem Meets.throw (e : ε) : Meets (E e) (throw e : EStateM ε σ α) Q E := fun _ h => h

theorem Meets.bind {f : α → EStateM ε σ β} (hx : Meets P x Q E) (hf : ∀ a, Meets (Q a) (f a) R E) :
    Meets P (x >>= f) R E := by
  intro s hs
  have hend := hx s hs
  have hbind : (x >>= f) s = match x s with
      | .ok a s' => f a s'
      | .error e s' => .error e s' := rfl
  rw [hbind]
  cases hrun : x s with
  | ok a s' =>
      rw [hrun] at hend
      exact hf a s' hend
  | error e s' =>
      rw [hrun] at hend
      exact hend

/-- A run that has got through a call is in the rest of the script. -/
theorem Meets.follow {f : α → EStateM ε σ β} {run : EStateM.Result ε σ β} (h : Meets P x Q E) :
    Meets (fun s => P s ∧ (x >>= f) s = run) x (fun a s => Q a s ∧ f a s = run) E := by
  rintro s ⟨hs, hrun⟩
  have hend := h s hs
  cases hx : x s with
  | ok a s' =>
      rw [hx] at hend
      exact ⟨hend, (run_bind_ok hx).symm.trans hrun⟩
  | error e s' =>
      rw [hx] at hend
      exact hend

/-- A fact about no state can be assumed before a script. -/
theorem Meets.of_fact {p : Prop} (h : p → Meets P x Q E) : Meets (fun s => P s ∧ p) x Q E :=
  fun s hs => h hs.2 s hs.1

/-- A script that has looked at its state knows what the state is. -/
theorem Meets.get_bind {f : σ → EStateM ε σ β}
    (h : ∀ s₀, P s₀ → Meets (fun s => s = s₀) (f s₀) R E) : Meets P (get >>= f) R E :=
  fun s hs => h s hs s rfl

/-- A handler starts where the script has thrown. -/
theorem Meets.tryCatch {handler : ε → EStateM ε σ α} (hx : Meets P x Q E)
    (hh : ∀ e, Meets (E e) (handler e) Q E') : Meets P (tryCatch x handler) Q E' := by
  intro s hs
  have hend := hx s hs
  have hcatch : (MonadExceptOf.tryCatch x handler : EStateM ε σ α) s = match x s with
      | .ok a s' => .ok a s'
      | .error e s' => handler e s' := by
    change EStateM.tryCatch x handler s = _
    unfold EStateM.tryCatch
    cases x s <;> rfl
  change match (MonadExceptOf.tryCatch x handler : EStateM ε σ α) s with
    | .ok a s' => Q a s'
    | .error e s' => E' e s'
  rw [hcatch]
  cases hrun : x s with
  | ok a s' =>
      rw [hrun] at hend
      exact hend
  | error e s' =>
      rw [hrun] at hend
      exact hh e s' hend

/-- A loop keeps what each of its turns keeps. -/
theorem Meets.forM {γ : Type u} {xs : List γ} {f : γ → EStateM ε σ PUnit}
    (hf : ∀ a ∈ xs, Meets P (f a) (fun _ => P) E) : Meets P (xs.forM f) (fun _ => P) E := by
  induction xs with
  | nil => exact fun _ h => h
  | cons a xs ih =>
      exact (hf a List.mem_cons_self).bind fun _ => ih fun b hb => hf b (List.mem_cons_of_mem a hb)

/-- As `forM_done`, for a loop that needs to know where in the list it is. -/
theorem Meets.forM_prefix {γ : Type u} {I : List γ → σ → Prop} (xs : List γ)
    {f : γ → EStateM ε σ PUnit}
    (hf : ∀ done a rest, xs = done ++ a :: rest →
      Meets (I done) (f a) (fun _ => I (done ++ [a])) E) :
    Meets (I []) (xs.forM f) (fun _ => I xs) E := by
  suffices h : ∀ ys done, xs = done ++ ys → Meets (I done) (ys.forM f) (fun _ => I xs) E from
    h xs [] rfl
  intro ys
  induction ys with
  | nil =>
      intro done hdone
      rw [List.append_nil] at hdone
      rw [hdone]
      exact fun _ h => h
  | cons a ys ih =>
      intro done hdone
      refine (hf done a ys hdone).bind fun _ => ih (done ++ [a]) ?_
      rw [hdone, List.append_cons]

theorem Meets.mapM {γ : Type u} {xs : List γ} {f : γ → EStateM ε σ β}
    (hf : ∀ a ∈ xs, Meets P (f a) (fun _ => P) E) : Meets P (xs.mapM f) (fun _ => P) E := by
  induction xs with
  | nil => exact fun _ h => h
  | cons a xs ih =>
      rw [List.mapM_cons]
      refine (hf a List.mem_cons_self).bind fun b => ?_
      exact (ih fun c hc => hf c (List.mem_cons_of_mem a hc)).bind fun bs _ h => h

theorem Meets.foldlM {γ : Type u} {xs : List γ} {f : β → γ → EStateM ε σ β}
    (hf : ∀ b, ∀ a ∈ xs, Meets P (f b a) (fun _ => P) E) (b : β) :
    Meets P (xs.foldlM f b) (fun _ => P) E := by
  induction xs generalizing b with
  | nil => exact fun _ h => h
  | cons a xs ih =>
      rw [List.foldlM_cons]
      exact (hf b a List.mem_cons_self).bind fun b =>
        ih (fun b c hc => hf b c (List.mem_cons_of_mem a hc)) b

/-! ## Scripts that keep every property of a family -/

/-- Whichever property of the family holds when the script starts, it holds at both endings. -/
structure Preserves (F : (σ → Prop) → Prop) (x : EStateM ε σ α) : Prop where
  meets : ∀ P, F P → Meets P x (fun _ => P) (fun _ => P)

namespace Preserves

variable {F G : (σ → Prop) → Prop}

theorem pure (a : α) : Preserves F (pure a : EStateM ε σ α) := ⟨fun _ _ _ h => h⟩

theorem throw (e : ε) : Preserves F (throw e : EStateM ε σ α) := ⟨fun _ _ _ h => h⟩

theorem get : Preserves F (get : EStateM ε σ σ) := ⟨fun _ _ _ h => h⟩

theorem bind {f : α → EStateM ε σ β} (hx : Preserves F x) (hf : ∀ a, Preserves F (f a)) :
    Preserves F (x >>= f) :=
  ⟨fun P hP => (hx.meets P hP).bind fun a => (hf a).meets P hP⟩

theorem tryCatch {handler : ε → EStateM ε σ α} (hx : Preserves F x)
    (hh : ∀ e, Preserves F (handler e)) : Preserves F (tryCatch x handler) :=
  ⟨fun P hP => (hx.meets P hP).tryCatch fun e => (hh e).meets P hP⟩

theorem forM {γ : Type u} {xs : List γ} {f : γ → EStateM ε σ PUnit} (hf : ∀ a, Preserves F (f a)) :
    Preserves F (xs.forM f) :=
  ⟨fun P hP => Meets.forM fun a _ => (hf a).meets P hP⟩

theorem mapM {γ : Type u} {xs : List γ} {f : γ → EStateM ε σ β} (hf : ∀ a, Preserves F (f a)) :
    Preserves F (xs.mapM f) :=
  ⟨fun P hP => Meets.mapM fun a _ => (hf a).meets P hP⟩

theorem foldlM {γ : Type u} {xs : List γ} {f : β → γ → EStateM ε σ β}
    (hf : ∀ b a, Preserves F (f b a)) (b : β) : Preserves F (xs.foldlM f b) :=
  ⟨fun P hP => Meets.foldlM (fun b a _ => (hf b a).meets P hP) b⟩

/-- Fewer properties are kept all the more. -/
theorem mono (hx : Preserves F x) (hFG : ∀ P, G P → F P) : Preserves G x :=
  ⟨fun P hP => hx.meets P (hFG P hP)⟩

end Preserves

/-- As `Preserves`, for a script that returns nothing but what has a property. -/
structure Yields (F : (σ → Prop) → Prop) (p : α → Prop) (x : EStateM ε σ α) : Prop where
  meets : ∀ P, F P → Meets P x (fun a s => P s ∧ p a) (fun _ => P)

namespace Yields

variable {F : (σ → Prop) → Prop} {p : α → Prop} {q : β → Prop} {f : α → EStateM ε σ β}

theorem pure {a : α} (h : p a) : Yields F p (pure a : EStateM ε σ α) := ⟨fun _ _ _ hs => ⟨hs, h⟩⟩

/-- What the first script returns can be used in the rest. -/
theorem bind (hx : Yields F p x) (hf : ∀ a, p a → Preserves F (f a)) : Preserves F (x >>= f) :=
  ⟨fun P hP => (hx.meets P hP).bind fun a => Meets.of_fact fun ha => (hf a ha).meets P hP⟩

theorem bind_yields (hx : Yields F p x) (hf : ∀ a, p a → Yields F q (f a)) :
    Yields F q (x >>= f) :=
  ⟨fun P hP => (hx.meets P hP).bind fun a => Meets.of_fact fun ha => (hf a ha).meets P hP⟩

theorem mapM {γ : Type u} {xs : List γ} {f : γ → EStateM ε σ β} (hf : ∀ a, Yields F q (f a)) :
    Yields F (fun bs => ∀ b ∈ bs, q b) (xs.mapM f) := by
  induction xs with
  | nil => exact .pure fun b hb => absurd hb List.not_mem_nil
  | cons a xs ih =>
      rw [List.mapM_cons]
      refine (hf a).bind_yields fun b hb => ih.bind_yields fun bs hbs => .pure ?_
      exact List.forall_mem_cons.mpr ⟨hb, hbs⟩

end Yields

/-! ## Scripts that only read -/

/-- The script returns `a` and leaves the state as it is. -/
def Gives (x : EStateM ε σ α) (a : α) : Prop := ∀ s, x s = .ok a s

theorem Gives.pure (a : α) : Gives (pure a : EStateM ε σ α) a := fun _ => rfl

theorem Gives.run_bind {a : α} (h : Gives x a) (f : α → EStateM ε σ β) (s : σ) :
    (x >>= f) s = f a s := by
  show EStateM.bind x f s = _
  unfold EStateM.bind
  rw [h s]

theorem Gives.bind {a : α} {b : β} {f : α → EStateM ε σ β} (h : Gives x a) (hf : Gives (f a) b) :
    Gives (x >>= f) b := by
  intro s
  rw [h.run_bind f s]
  exact hf s

theorem Gives.tryCatch {a : α} {handler : ε → EStateM ε σ α} (h : Gives x a) :
    Gives (tryCatch x handler) a := by
  intro s
  show EStateM.tryCatch x handler s = _
  unfold EStateM.tryCatch
  rw [h s]

theorem Gives.mapM {γ : Type u} {β : Type u} {f : γ → EStateM ε σ β} {g : γ → β} {xs : List γ}
    (h : ∀ a ∈ xs, Gives (f a) (g a)) : Gives (xs.mapM f) (xs.map g) := by
  induction xs with
  | nil => exact .pure []
  | cons a xs ih =>
      rw [List.mapM_cons]
      refine (h a List.mem_cons_self).bind ?_
      exact (ih fun b hb => h b (List.mem_cons_of_mem a hb)).bind (.pure _)

end Script
