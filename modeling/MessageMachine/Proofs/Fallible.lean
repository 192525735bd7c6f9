import Mathlib.Order.Defs.Unbundled
import MessageMachine.Machine.Statement

/-!
# Computations that may fail

Readings and actions are of one shape: a computation on a state that may fail, and that keeps
what it has done when it fails.  `Within R P a` says two things of such a computation `a`.
However `a` ends, the state before it and the state after it are related by `R`; and a fault that
it ends with satisfies `P`.

When `R` is reflexive and transitive, `Within R P` passes from the parts of a computation to the
whole (`Within.bind`, `Within.collect`), so that one line about each part is enough to bound what a
whole statement can do.

`Keeps I Q a` is for what has to hold of the values as well as of the states: from states with `I`
the computation leads to states with `I`, and its results have `Q`.  It passes to the whole as well,
and a part may rely on the results of the parts before it (`Keeps.bind`).
-/

namespace MessageMachine

variable {σ α β : Type}

/-- However `a` ends, the states before and after it are related by `R`, and a fault that it ends
with satisfies `P`. -/
def Within (R : σ → σ → Prop) (P : Fault → Prop) (a : ExceptT Fault (StateM σ) α) : Prop :=
  ∀ s, R s (a s).2 ∧ ∀ f, (a s).1 = .error f → P f

/-- An outcome as a computation leaves the state alone. -/
@[simp] theorem liftM_run (x : Except Fault α) (s : σ) :
    (liftM x : ExceptT Fault (StateM σ) α) s = (x, s) := by
  cases x <;> rfl

/-- A computation goes on with what its first part has given. -/
theorem bind_of_ok {a : ExceptT Fault (StateM σ) α} {k : α → ExceptT Fault (StateM σ) β}
    {s s' : σ} {x : α} (h : a s = (.ok x, s')) : (a >>= k) s = k x s' := by
  have e : (a >>= k) s = ExceptT.bindCont k (a s).1 (a s).2 := rfl
  rw [e, h]
  rfl

/-- A computation ends where its first part has failed. -/
theorem bind_of_error {a : ExceptT Fault (StateM σ) α} {k : α → ExceptT Fault (StateM σ) β}
    {s s' : σ} {f : Fault} (h : a s = (.error f, s')) : (a >>= k) s = (.error f, s') := by
  have e : (a >>= k) s = ExceptT.bindCont k (a s).1 (a s).2 := rfl
  rw [e, h]
  rfl

/-- A computation that has given a result went through its first part. -/
theorem ok_of_bind {a : ExceptT Fault (StateM σ) α} {k : α → ExceptT Fault (StateM σ) β}
    {s s'' : σ} {y : β} (h : (a >>= k) s = (.ok y, s'')) :
    ∃ x s', a s = (.ok x, s') ∧ k x s' = (.ok y, s'') := by
  generalize run : a s = outcome
  match outcome with
  | (.ok x, s') =>
    rw [bind_of_ok run] at h
    exact ⟨x, s', rfl, h⟩
  | (.error f, s') =>
    rw [bind_of_error run] at h
    cases h

/-- A computation has failed in its first part or after it. -/
theorem error_of_bind {a : ExceptT Fault (StateM σ) α} {k : α → ExceptT Fault (StateM σ) β}
    {s s'' : σ} {f : Fault} (h : (a >>= k) s = (.error f, s'')) :
    a s = (.error f, s'') ∨ ∃ x s', a s = (.ok x, s') ∧ k x s' = (.error f, s'') := by
  generalize run : a s = outcome
  match outcome with
  | (.ok x, s') =>
    rw [bind_of_ok run] at h
    exact .inr ⟨x, s', rfl, h⟩
  | (.error g, s') =>
    rw [bind_of_error run] at h
    cases h
    exact .inl rfl

namespace Within

variable {R : σ → σ → Prop} {P : Fault → Prop}

/-- What is known of an outcome that has been worked out. -/
theorem of_run {a : ExceptT Fault (StateM σ) α} (h : Within R P a) {s s' : σ}
    {x : Except Fault α} (run : a s = (x, s')) : R s s' ∧ ∀ f, x = .error f → P f := by
  have hs := h s
  rw [run] at hs
  exact hs

theorem mono {R' : σ → σ → Prop} {P' : Fault → Prop} {a : ExceptT Fault (StateM σ) α}
    (h : Within R P a) (states : ∀ s s', R s s' → R' s s') (faults : ∀ f, P f → P' f) :
    Within R' P' a :=
  fun s => ⟨states _ _ (h s).1, fun f hf => faults f ((h s).2 f hf)⟩

section Refl

variable [Std.Refl R]

theorem pure (a : α) : Within R P (Pure.pure a : ExceptT Fault (StateM σ) α) :=
  fun s => ⟨refl_of R s, fun _ h => by cases h⟩

theorem throw {f : Fault} (h : P f) :
    Within R P (MonadExcept.throw f : ExceptT Fault (StateM σ) α) :=
  fun s => ⟨refl_of R s, fun g hg => by cases hg; exact h⟩

theorem get : Within R P (MonadState.get : ExceptT Fault (StateM σ) σ) :=
  fun s => ⟨refl_of R s, fun _ h => by cases h⟩

theorem lift {x : Except Fault α} (h : ∀ f, x = .error f → P f) :
    Within R P (liftM x : ExceptT Fault (StateM σ) α) := by
  intro s
  rw [liftM_run]
  exact ⟨refl_of R s, h⟩

end Refl

theorem modify {f : σ → σ} (h : ∀ s, R s (f s)) :
    Within R P (modify f : ExceptT Fault (StateM σ) PUnit) :=
  fun s => ⟨h s, fun _ he => by cases he⟩

theorem bind [IsTrans σ R] {a : ExceptT Fault (StateM σ) α}
    {k : α → ExceptT Fault (StateM σ) β} (ha : Within R P a) (hk : ∀ x, Within R P (k x)) :
    Within R P (a >>= k) := by
  intro s
  have h := ha s
  have e : (a >>= k) s = ExceptT.bindCont k (a s).1 (a s).2 := rfl
  rw [e]
  generalize a s = outcome at h
  match outcome with
  | (.ok x, s') => exact ⟨trans_of R h.1 (hk x s').1, (hk x s').2⟩
  | (.error f, s') => exact ⟨h.1, fun g hg => h.2 g (by cases hg; rfl)⟩

theorem collect [Std.Refl R] [IsTrans σ R] {a : ExceptT Fault (StateM σ) α} (ha : Within R P a) :
    ∀ n, Within R P (MessageMachine.collect a n)
  | 0 => pure _
  | n + 1 => ha.bind fun _ => (collect ha n).bind fun _ => pure _

theorem mapM [Std.Refl R] [IsTrans σ R] {g : α → ExceptT Fault (StateM σ) β}
    (hg : ∀ a, Within R P (g a)) (as : List α) : Within R P (as.mapM g) := by
  induction as with
  | nil =>
    rw [List.mapM_nil]
    exact pure _
  | cons a as ih =>
    rw [List.mapM_cons]
    exact (hg a).bind fun _ => ih.bind fun _ => pure _

end Within

/-- All results of the computation satisfy `Q`. -/
def Gives (Q : α → Prop) (a : ExceptT Fault (StateM σ) α) : Prop :=
  ∀ s x s', a s = (.ok x, s') → Q x

namespace Gives

variable {Q : β → Prop}

theorem pure {b : β} (h : Q b) : Gives Q (Pure.pure b : ExceptT Fault (StateM σ) β) := by
  intro s x s' run
  cases run
  exact h

theorem bind {a : ExceptT Fault (StateM σ) α} {k : α → ExceptT Fault (StateM σ) β}
    (hk : ∀ x, Gives Q (k x)) : Gives Q (a >>= k) := by
  intro s y s' run
  obtain ⟨x, s₁, -, run⟩ := ok_of_bind run
  exact hk x s₁ y s' run

end Gives

/-- From states that satisfy `I` the computation leads to such states again, and all its
results satisfy `Q`. -/
def Keeps (I : σ → Prop) (Q : α → Prop) (a : ExceptT Fault (StateM σ) α) : Prop :=
  ∀ s, I s → I (a s).2 ∧ ∀ x, (a s).1 = .ok x → Q x

namespace Keeps

variable {I : σ → Prop} {P : α → Prop} {Q : β → Prop}

theorem of_run {a : ExceptT Fault (StateM σ) α} (h : Keeps I P a) {s s' : σ} {x : Except Fault α}
    (hs : I s) (run : a s = (x, s')) : I s' ∧ ∀ y, x = .ok y → P y := by
  have kept := h s hs
  rw [run] at kept
  exact kept

theorem pure {a : α} (h : P a) : Keeps I P (Pure.pure a : ExceptT Fault (StateM σ) α) :=
  fun _ hs => ⟨hs, fun _ e => by cases e; exact h⟩

theorem throw (f : Fault) : Keeps I P (MonadExcept.throw f : ExceptT Fault (StateM σ) α) :=
  fun _ hs => ⟨hs, fun _ e => by cases e⟩

theorem lift {x : Except Fault α} (h : ∀ y, x = .ok y → P y) :
    Keeps I P (liftM x : ExceptT Fault (StateM σ) α) := by
  intro s hs
  rw [liftM_run]
  exact ⟨hs, h⟩

theorem bind {a : ExceptT Fault (StateM σ) α} {k : α → ExceptT Fault (StateM σ) β}
    (ha : Keeps I P a) (hk : ∀ x, P x → Keeps I Q (k x)) : Keeps I Q (a >>= k) := by
  intro s hs
  generalize run : a s = outcome
  match outcome with
  | (.ok x, s') =>
    obtain ⟨kept, result⟩ := ha.of_run hs run
    rw [bind_of_ok run]
    exact hk x (result x rfl) s' kept
  | (.error f, s') =>
    rw [bind_of_error run]
    exact ⟨(ha.of_run hs run).1, fun _ e => by cases e⟩

theorem mapM {g : α → ExceptT Fault (StateM σ) β} {as : List α} (hg : ∀ a ∈ as, Keeps I Q (g a)) :
    Keeps I (fun bs => ∀ b ∈ bs, Q b) (as.mapM g) := by
  induction as with
  | nil =>
    rw [List.mapM_nil]
    exact pure (by simp)
  | cons a as ih =>
    obtain ⟨first, others⟩ := List.forall_mem_cons.mp hg
    rw [List.mapM_cons]
    exact first.bind fun b hb => (ih others).bind fun bs hbs =>
      pure (List.forall_mem_cons.mpr ⟨hb, hbs⟩)

end Keeps

end MessageMachine
