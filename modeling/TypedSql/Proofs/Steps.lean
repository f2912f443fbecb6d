/-!
# Computations step by step

A computation that keeps a state and may fail is read from its first step on:
a step that succeeds hands its value and the state to the next one, and a
step that fails is the last one, whatever was to come.

What is left of a run is read from its end: it is what the last step did that
did anything of the kind (`LastIn`).
-/

namespace TypedSql

variable {ε σ α β : Type} {x : ExceptT ε (StateM σ) α} {f : α → ExceptT ε (StateM σ) β}
  {before after : σ}

/-- A step that succeeds hands its value on. -/
theorem run_bind_of_ok {a : α} (h : x.run.run before = (.ok a, after)) :
    (x >>= f).run.run before = (f a).run.run after := by
  rw [ExceptT.run_bind, StateT.run_bind, h]
  rfl

/-- A step that fails is the last one. -/
theorem run_bind_of_error {cause : ε} (h : x.run.run before = (.error cause, after)) :
    (x >>= f).run.run before = (.error cause, after) := by
  rw [ExceptT.run_bind, StateT.run_bind, h]
  rfl

/-- Where there is no state: **what succeeds** has succeeded in its first step. -/
theorem exists_of_bind_eq_ok {x : Except ε α} {f : α → Except ε β} {b : β}
    (h : x >>= f = .ok b) : ∃ a, x = .ok a ∧ f a = .ok b := by
  cases x with
  | error cause => cases h
  | ok a => exact ⟨a, rfl, h⟩

theorem run_pure (a : α) : (pure a : ExceptT ε (StateM σ) α).run.run before = (.ok a, before) :=
  rfl

/-! ## What is left of a run -/

/-- **The last step that counts**: it has `P`, and all steps after it have
`Q`. -/
def LastIn (P Q : α → Prop) (steps : List α) : Prop :=
  ∃ earlier step later, steps = earlier ++ step :: later ∧ P step ∧ ∀ other ∈ later, Q other

/-- **One step more** counts itself, or lets count what did before. -/
theorem lastIn_concat {P Q : α → Prop} {steps : List α} {last : α} :
    LastIn P Q (steps ++ [last]) ↔ P last ∨ Q last ∧ LastIn P Q steps := by
  constructor
  · rintro ⟨earlier, step, later, heq, hstep, hlater⟩
    -- the step that counts is the one at the end, or it stands before that
    obtain rfl | ⟨later, other, rfl⟩ := List.eq_nil_or_concat later
    · obtain ⟨-, hlast⟩ := List.append_inj' heq rfl
      obtain rfl := List.singleton_inj.mp hlast
      exact .inl hstep
    · rw [List.concat_eq_append, ← List.cons_append, ← List.append_assoc] at heq
      obtain ⟨rfl, hlast⟩ := List.append_inj' heq rfl
      obtain rfl := List.singleton_inj.mp hlast
      rw [List.concat_eq_append, List.forall_mem_append] at hlater
      exact .inr ⟨List.forall_mem_singleton.mp hlater.2, earlier, step, later, rfl, hstep, hlater.1⟩
  · rintro (hlast | ⟨hlast, earlier, step, later, rfl, hstep, hlater⟩)
    · exact ⟨steps, last, [], rfl, hlast, List.forall_mem_nil _⟩
    · refine ⟨earlier, step, later ++ [last], by rw [List.append_assoc]; rfl, hstep, ?_⟩
      exact List.forall_mem_append.mpr ⟨hlater, List.forall_mem_singleton.mpr hlast⟩

theorem not_lastIn_nil {P Q : α → Prop} : ¬ LastIn P Q [] := by
  rintro ⟨earlier, step, later, heq, -⟩
  cases earlier <;> cases heq

end TypedSql
