import Mathlib.Tactic.TypeStar

/-!
# Runs that can abort

A run returns a value, fails with a reason that its caller handles, or aborts: it panics,
overflows, or has more turns of a loop to go than it was given.
-/
namespace Eunha.Aborts

abbrev Result (α : Type*) := Except String α

abbrev Run := ExceptT String Option

def abort {α : Type} : Run α := ExceptT.mk none

def returns {α : Type} (result : Result α) : Run α := ExceptT.mk (some result)

/-- `context` -/
def expect {α : Type} (found : Option α) (why : String) : Run α :=
  match found with
  | some a => pure a
  | none => throw why

theorem throw_bind {α β : Type} (why : String) (f : α → Run β) :
    (throw why : Run α) >>= f = throw why := rfl

theorem abort_bind {α β : Type} (f : α → Run β) : (abort : Run α) >>= f = abort := rfl

@[simp] theorem expect_some {α : Type} (a : α) (why : String) :
    expect (some a) why = pure a := rfl

@[simp] theorem expect_none {α : Type} (why : String) :
    expect (none : Option α) why = throw why := rfl

theorem pure_eq_returns {α : Type} (a : α) : (pure a : Run α) = returns (.ok a) := rfl

theorem abort_ne_returns {α : Type} (result : Result α) : abort ≠ returns result := by
  intro h
  cases h

end Eunha.Aborts
