import Mathlib.Tactic.Common

namespace Execution

variable {σ α : Type}

/-- A run is the list of its steps, each an action with the state it leads to.
`EachStep R s run` holds when `R` relates the states before and after every step. -/
def EachStep (R : σ → α → σ → Prop) : σ → List (α × σ) → Prop
  | _, [] => True
  | s, (a, s') :: rest => R s a s' ∧ EachStep R s' rest

instance EachStep.decidable {R : σ → α → σ → Prop} [∀ s a s', Decidable (R s a s')] :
    (s : σ) → (run : List (α × σ)) → Decidable (EachStep R s run)
  | _, [] => .isTrue trivial
  | _, (_, s') :: rest => @instDecidableAnd _ _ inferInstance (decidable s' rest)

/-- The run that takes the given actions, as far as they can be taken. -/
def run_of (perform : α → σ → Option σ) : List α → σ → List (α × σ)
  | [], _ => []
  | a :: rest, s =>
    match perform a s with
    | none => []
    | some s' => (a, s') :: run_of perform rest s'

/-- The run that makes the given calls, as far as they can be made, with their results. -/
def run_calls {ρ : Type} (perform : α → σ → Option (ρ × σ)) : List α → σ → List ((α × ρ) × σ)
  | [], _ => []
  | a :: rest, s =>
    match perform a s with
    | none => []
    | some (r, s') => ((a, r), s') :: run_calls perform rest s'

/-- The state in which a run ends. -/
def final : σ → List (α × σ) → σ
  | s, [] => s
  | _, (_, s') :: rest => final s' rest

section EachStep

variable {R S : σ → α → σ → Prop} {s s' : σ} {a : α} {run : List (α × σ)}

@[simp] theorem eachStep_nil : EachStep R s [] := trivial

@[simp] theorem eachStep_cons :
    EachStep R s ((a, s') :: run) ↔ R s a s' ∧ EachStep R s' run := Iff.rfl

theorem EachStep.imp (h : EachStep R s run) (himp : ∀ s a s', R s a s' → S s a s') :
    EachStep S s run := by
  induction run generalizing s with
  | nil => trivial
  | cons x rest ih => exact ⟨himp _ _ _ h.1, ih h.2⟩

theorem EachStep.and (hr : EachStep R s run) (hs : EachStep S s run) :
    EachStep (fun s a s' => R s a s' ∧ S s a s') s run := by
  induction run generalizing s with
  | nil => trivial
  | cons x rest ih => exact ⟨⟨hr.1, hs.1⟩, ih hr.2 hs.2⟩

theorem forall_mem_iff_eachStep {P : σ → Prop} :
    (∀ x ∈ run, P x.2) ↔ EachStep (fun _ _ s' => P s') s run := by
  induction run generalizing s with
  | nil => simp
  | cons x rest ih =>
    obtain ⟨a, s'⟩ := x
    rw [List.forall_mem_cons, eachStep_cons, ih]

theorem eachStep_of_actions {A : α → Prop} (h : ∀ x ∈ run, A x.1) :
    EachStep (fun _ a _ => A a) s run := by
  induction run generalizing s with
  | nil => trivial
  | cons x rest ih =>
    obtain ⟨hx, hrest⟩ := List.forall_mem_cons.mp h
    exact ⟨hx, ih hrest⟩

theorem eachStep_run_of (perform : α → σ → Option σ) (s : σ) (actions : List α) :
    EachStep (fun s a s' => perform a s = some s') s (run_of perform actions s) := by
  induction actions generalizing s with
  | nil => trivial
  | cons a rest ih =>
    unfold run_of
    split
    · trivial
    · next s' h => exact ⟨h, ih s'⟩

theorem eachStep_run_calls {ρ : Type} (perform : α → σ → Option (ρ × σ)) (s : σ) (calls : List α) :
    EachStep (fun s step s' => perform step.1 s = some (step.2, s')) s (run_calls perform calls s) := by
  induction calls generalizing s with
  | nil => trivial
  | cons a rest ih =>
    unfold run_calls
    split
    · trivial
    · next r s' h => exact ⟨h, ih s'⟩

/-- Where every call can be made, all are. -/
theorem run_calls_actions {ρ : Type} (perform : α → σ → ρ × σ) (s : σ) (calls : List α) :
    (run_calls (fun a s => some (perform a s)) calls s).map (·.1.1) = calls := by
  induction calls generalizing s with
  | nil => rfl
  | cons a rest ih => exact congrArg (a :: ·) (ih _)

/-- Where, under an invariant, every call does what the calls of another system do to what the
states stand for, the whole runs correspond. -/
theorem run_calls_map {τ ρ : Type} {perform : α → σ → Option (ρ × σ)} {spec : α → τ → Option (ρ × τ)} {abs : σ → τ}
    {I : σ → Prop} {s : σ} {calls : List α} (hI : I s)
    (hstep : ∀ a ∈ calls, ∀ s, I s → ∃ r s', perform a s = some (r, s') ∧ I s' ∧ spec a (abs s) = some (r, abs s')) :
    (run_calls perform calls s).map (Prod.map id abs) = run_calls spec calls (abs s) := by
  induction calls generalizing s with
  | nil => rfl
  | cons a rest ih =>
    obtain ⟨r, s', hperform, hI', hspec⟩ := hstep a List.mem_cons_self s hI
    have hrest := ih hI' fun b hb => hstep b (List.mem_cons_of_mem a hb)
    rw [run_calls, run_calls, hperform, hspec]
    exact congrArg (((a, r), abs s') :: ·) hrest

@[simp] theorem final_nil : final s ([] : List (α × σ)) = s := rfl

@[simp] theorem final_cons : final s ((a, s') :: run) = final s' run := rfl

end EachStep

section Invariant

variable {R C : σ → α → σ → Prop} {I P : σ → Prop} {s : σ} {run : List (α × σ)}

/-- What holds at the start and is kept by every step holds in every state reached. -/
theorem EachStep.invariant (h : EachStep R s run) (hinit : I s)
    (hstep : ∀ s a s', R s a s' → I s → I s') : ∀ x ∈ run, I x.2 := by
  induction run generalizing s with
  | nil => simp
  | cons x rest ih =>
    intro y hy
    have hx : I x.2 := hstep _ _ _ h.1 hinit
    rcases List.mem_cons.mp hy with rfl | hmem
    · exact hx
    · exact ih h.2 hx y hmem

/-- What every step does in the states that an invariant allows. -/
theorem EachStep.of_invariant {Q : σ → α → σ → Prop} (h : EachStep R s run) (hI : I s)
    (hstep : ∀ s a s', R s a s' → I s → I s' ∧ Q s a s') : EachStep Q s run := by
  induction run generalizing s with
  | nil => trivial
  | cons x rest ih =>
    obtain ⟨hI', hQ⟩ := hstep _ _ _ h.1 hI
    exact ⟨hQ, ih h.2 hI'⟩

theorem EachStep.final_of_forall (hinit : I s) (h : ∀ x ∈ run, I x.2) : I (final s run) := by
  induction run generalizing s with
  | nil => exact hinit
  | cons x rest ih =>
    obtain ⟨a, s'⟩ := x
    rw [final_cons]
    exact ih (h (a, s') (by simp)) fun y hy => h y (by simp [hy])

/-- Where, under an invariant, one step keeps a property exactly when it meets a
condition, a whole run keeps the property exactly when all its steps meet the condition. -/
theorem EachStep.forall_iff (h : EachStep R s run) (hI : I s) (hP : P s)
    (hstepI : ∀ s a s', R s a s' → I s → I s')
    (hiff : ∀ s a s', R s a s' → I s → P s → (P s' ↔ C s a s')) :
    (∀ x ∈ run, P x.2) ↔ EachStep C s run := by
  induction run generalizing s with
  | nil => simp
  | cons x rest ih =>
    obtain ⟨a, s'⟩ := x
    obtain ⟨hR, hrest⟩ := h
    have hI' : I s' := hstepI _ _ _ hR hI
    have hone := hiff _ _ _ hR hI hP
    simp only [List.forall_mem_cons, eachStep_cons]
    constructor
    · rintro ⟨hP', hall⟩
      exact ⟨hone.mp hP', (ih hrest hI' hP').mp hall⟩
    · rintro ⟨hC, hall⟩
      have hP' : P s' := hone.mpr hC
      exact ⟨hP', (ih hrest hI' hP').mpr hall⟩

/-- Where, under an invariant that the steps meeting a condition keep, one step has a
property exactly when it meets the condition, so do all the steps of a run. -/
theorem EachStep.iff_of_invariant {Q : σ → α → σ → Prop} (h : EachStep R s run) (hI : I s)
    (hstepI : ∀ s a s', R s a s' → I s → C s a s' → I s')
    (hiff : ∀ s a s', R s a s' → I s → (Q s a s' ↔ C s a s')) :
    EachStep Q s run ↔ EachStep C s run := by
  induction run generalizing s with
  | nil => rfl
  | cons x rest ih =>
    obtain ⟨a, s'⟩ := x
    obtain ⟨hR, hrest⟩ := h
    rw [eachStep_cons, eachStep_cons, hiff _ _ _ hR hI]
    exact and_congr_right fun hC => ih hrest (hstepI _ _ _ hR hI hC)

end Invariant

end Execution
