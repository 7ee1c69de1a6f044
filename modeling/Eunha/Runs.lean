import Mathlib.Data.List.Infix
import Mathlib.Tactic.TypeStar

/-!
# Runs of a deterministic step function

A run folds a step function over a list of operations. Two induction rules
cover what is proved about runs here: an invariant every step preserves, and
one that only the steps meeting a guard preserve. The guard reads the state
before the step and the operation, never the state after it.
-/
namespace Eunha.Runs

variable {S O : Type*}

/-- The state after the operations, in order. -/
def run (step : S → O → S) (s : S) (ops : List O) : S := ops.foldl step s

variable {step : S → O → S}

@[simp] theorem run_nil (s : S) : run step s [] = s := rfl

@[simp] theorem run_cons (s : S) (o : O) (ops : List O) :
    run step s (o :: ops) = run step (step s o) ops := rfl

theorem run_append (s : S) (ops more : List O) :
    run step s (ops ++ more) = run step (run step s ops) more :=
  List.foldl_append

/-- Every operation of the run meets the guard in the state it is run from. -/
def Guarded (step : S → O → S) (guard : S → O → Prop) : S → List O → Prop
  | _, [] => True
  | s, o :: ops => guard s o ∧ Guarded step guard (step s o) ops

instance decidableGuarded {guard : S → O → Prop} [∀ s o, Decidable (guard s o)] :
    (s : S) → (ops : List O) → Decidable (Guarded step guard s ops)
  | _, [] => inferInstanceAs (Decidable True)
  | s, o :: ops =>
      haveI : Decidable (Guarded step guard (step s o) ops) := decidableGuarded (step s o) ops
      inferInstanceAs (Decidable (guard s o ∧ Guarded step guard (step s o) ops))

theorem guarded_append {guard : S → O → Prop} (s : S) (ops more : List O) :
    Guarded step guard s (ops ++ more) ↔
      Guarded step guard s ops ∧ Guarded step guard (run step s ops) more := by
  induction ops generalizing s with
  | nil => simp [Guarded]
  | cons o ops ih => simp only [List.cons_append, Guarded, run_cons, ih, and_assoc]

theorem guarded_iff_forall_split {guard : S → O → Prop} (s : S) (ops : List O) :
    Guarded step guard s ops ↔
      ∀ before o after, ops = before ++ o :: after → guard (run step s before) o := by
  induction ops generalizing s with
  | nil => simp [Guarded]
  | cons o ops ih =>
      rw [Guarded, ih]
      constructor
      · rintro ⟨ho, hrest⟩ before p after hsplit
        cases before with
        | nil =>
            obtain ⟨rfl, _⟩ := List.cons.inj hsplit
            exact ho
        | cons q before =>
            obtain ⟨rfl, htail⟩ := List.cons.inj hsplit
            exact hrest before p after htail
      · intro h
        refine ⟨h [] o ops rfl, fun before p after hsplit => ?_⟩
        exact h (o :: before) p after (by rw [hsplit, List.cons_append])

theorem run_guarded {P : S → Prop} {guard : S → O → Prop}
    (hstep : ∀ s o, P s → guard s o → P (step s o)) (s : S) (ops : List O)
    (hs : P s) (hg : Guarded step guard s ops) : P (run step s ops) := by
  induction ops generalizing s with
  | nil => exact hs
  | cons o ops ih => exact ih (step s o) (hstep s o hs hg.1) hg.2

theorem guarded_congr {P : S → Prop} {guard guard' : S → O → Prop}
    (hstep : ∀ s o, P s → P (step s o)) (h : ∀ s o, P s → (guard s o ↔ guard' s o))
    (s : S) (ops : List O) (hs : P s) : Guarded step guard s ops ↔ Guarded step guard' s ops := by
  induction ops generalizing s with
  | nil => rfl
  | cons o ops ih => exact and_congr (h s o hs) (ih (step s o) (hstep s o hs))

theorem guarded_of_invariant {P : S → Prop} {guard guard' : S → O → Prop}
    (hstep : ∀ s o, P s → guard s o → P (step s o))
    (h : ∀ s o, P s → guard s o → guard' s o)
    (s : S) (ops : List O) (hs : P s) (hg : Guarded step guard s ops) :
    Guarded step guard' s ops := by
  induction ops generalizing s with
  | nil => trivial
  | cons o ops ih => exact ⟨h s o hs hg.1, ih (step s o) (hstep s o hs hg.1) hg.2⟩

theorem guarded_of_forall {guard : O → Prop} (s : S) (ops : List O)
    (h : ∀ o ∈ ops, guard o) : Guarded step (fun _ o => guard o) s ops := by
  induction ops generalizing s with
  | nil => trivial
  | cons o ops ih =>
      exact ⟨h o (by simp), ih (step s o) (fun p hp => h p (by simp [hp]))⟩

theorem guarded_and {guard guard' : S → O → Prop} {s : S} {ops : List O}
    (h : Guarded step guard s ops) (h' : Guarded step guard' s ops) :
    Guarded step (fun s o => guard s o ∧ guard' s o) s ops := by
  induction ops generalizing s with
  | nil => trivial
  | cons o ops ih => exact ⟨⟨h.1, h'.1⟩, ih h.2 h'.2⟩

theorem throughout_iff_guarded_of {J P : S → Prop} {A guard : S → O → Prop}
    (hJ : ∀ s o, J s → A s o → J (step s o))
    (hstep : ∀ s o, J s → A s o → P s → (P (step s o) ↔ guard s o))
    (s : S) (ops : List O) (hs : J s) (hp : P s) (hall : Guarded step A s ops) :
    (∀ before, before <+: ops → P (run step s before)) ↔ Guarded step guard s ops := by
  induction ops generalizing s with
  | nil =>
      refine iff_of_true (fun before hb => ?_) trivial
      rw [List.prefix_nil.mp hb]
      exact hp
  | cons o ops ih =>
      constructor
      · intro h
        have ho : P (step s o) := h [o] (List.prefix_append [o] ops)
        refine ⟨(hstep s o hs hall.1 hp).mp ho,
          (ih (step s o) (hJ s o hs hall.1) ho hall.2).mp fun before hb => ?_⟩
        exact h (o :: before) (List.cons_prefix_cons.mpr ⟨rfl, hb⟩)
      · rintro ⟨hg, hgs⟩ before hb
        cases before with
        | nil => exact hp
        | cons o' before =>
            obtain ⟨rfl, htail⟩ := List.cons_prefix_cons.mp hb
            exact (ih (step s o') (hJ s o' hs hall.1) ((hstep s o' hs hall.1 hp).mpr hg)
              hall.2).mpr hgs before htail

theorem throughout_iff_guarded {J P : S → Prop} {guard : S → O → Prop}
    (hJ : ∀ s o, J s → J (step s o))
    (hstep : ∀ s o, J s → P s → (P (step s o) ↔ guard s o))
    (s : S) (ops : List O) (hs : J s) (hp : P s) :
    (∀ before, before <+: ops → P (run step s before)) ↔ Guarded step guard s ops :=
  throughout_iff_guarded_of (A := fun _ _ => True) (fun s o hj _ => hJ s o hj)
    (fun s o hj _ => hstep s o hj) s ops hs hp (guarded_of_forall s ops fun _ _ => trivial)

theorem run_iff_guarded {P : S → Prop} {guard : S → O → Prop}
    (hstep : ∀ s o, P (step s o) ↔ P s ∧ guard s o) (s : S) (ops : List O) :
    P (run step s ops) ↔ P s ∧ Guarded step guard s ops := by
  induction ops generalizing s with
  | nil => simp [Guarded]
  | cons o ops ih => rw [run_cons, ih, hstep, Guarded, and_assoc]

theorem run_invariant {P : S → Prop} (hstep : ∀ s o, P s → P (step s o))
    (s : S) (ops : List O) (hs : P s) : P (run step s ops) := by
  induction ops generalizing s with
  | nil => exact hs
  | cons o ops ih => exact ih (step s o) (hstep s o hs)

end Eunha.Runs
