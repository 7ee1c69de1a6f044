import Eunha.Runs
import Mathlib.Data.List.Perm.Basic

/-!
# Calls interleaved statement by statement

A request enters, and becomes a call in progress or is over at once. A call in progress
runs its next statement on the store, and goes on or is over. The calls may take their
turns in any order. What an invariant says of the store and the calls does not depend on
the order the calls are listed in, so each step is proved for the call at the head.
-/
namespace Eunha.Interleaving
open Runs

variable {σ κ ρ ω : Type*}

/-- What a request does as it enters, and what the next statement of a call does. A
statement may depend on what it is answered from elsewhere. -/
structure Machine (σ κ ρ ω : Type*) where
  enter : σ → ρ → σ × Option κ
  exec : σ → κ → ω → σ × Option κ

structure Config (σ κ : Type*) where
  store : σ
  calls : List κ

/-- No call is in progress. -/
def Config.Quiescent (c : Config σ κ) : Prop := c.calls = []

inductive Event (ρ ω : Type*) where
  | request (r : ρ)
  | advance (k : ℕ) (w : ω)

def replace (calls : List κ) (k : ℕ) (next : Option κ) : List κ :=
  calls.take k ++ next.toList ++ calls.drop (k + 1)

def Machine.step (m : Machine σ κ ρ ω) (c : Config σ κ) : Event ρ ω → Config σ κ
  | .request r => ⟨(m.enter c.store r).1, c.calls ++ (m.enter c.store r).2.toList⟩
  | .advance k w =>
      match c.calls[k]? with
      | none => c
      | some call =>
          ⟨(m.exec c.store call w).1, replace c.calls k (m.exec c.store call w).2⟩

def others (calls : List κ) (k : ℕ) : List κ := calls.take k ++ calls.drop (k + 1)

theorem perm_of_getElem? {calls : List κ} {k : ℕ} {call : κ} (h : calls[k]? = some call) :
    calls.Perm (call :: others calls k) := by
  obtain ⟨hlt, rfl⟩ := List.getElem?_eq_some_iff.mp h
  have hsplit : calls = calls.take k ++ calls[k] :: calls.drop (k + 1) := by
    rw [← List.drop_eq_getElem_cons hlt, List.take_append_drop]
  conv_lhs => rw [hsplit]
  exact List.perm_middle

theorem replace_perm (calls : List κ) (k : ℕ) (next : Option κ) :
    (replace calls k next).Perm (next.toList ++ others calls k) := by
  rw [replace, others, ← List.append_assoc]
  exact List.perm_append_comm.append_right _

/-! ### Guarded statements -/

/-- What is asked of a request, and of a statement of a call beside the other calls. -/
structure Guards (σ κ ρ ω : Type*) where
  request : σ → List κ → ρ → Prop
  statement : σ → κ → List κ → ω → Prop

def Guards.meets (g : Guards σ κ ρ ω) (c : Config σ κ) : Event ρ ω → Prop
  | .request r => g.request c.store c.calls r
  | .advance k w =>
      match c.calls[k]? with
      | none => True
      | some call => g.statement c.store call (others c.calls k) w

structure GuardedInvariant (m : Machine σ κ ρ ω) (Inv : σ → List κ → Prop)
    (g : Guards σ κ ρ ω) : Prop where
  perm : ∀ {s : σ} {calls calls' : List κ}, calls.Perm calls' → Inv s calls → Inv s calls'
  enter : ∀ {s : σ} {calls : List κ} (r : ρ), Inv s calls → g.request s calls r →
    Inv (m.enter s r).1 ((m.enter s r).2.toList ++ calls)
  exec : ∀ {s : σ} {call : κ} {calls : List κ} (w : ω), Inv s (call :: calls) →
    g.statement s call calls w → Inv (m.exec s call w).1 ((m.exec s call w).2.toList ++ calls)

variable {m : Machine σ κ ρ ω} {Inv : σ → List κ → Prop} {g : Guards σ κ ρ ω}

theorem GuardedInvariant.step (h : GuardedInvariant m Inv g) (c : Config σ κ) (e : Event ρ ω)
    (hc : Inv c.store c.calls) (hg : g.meets c e) :
    Inv (m.step c e).store (m.step c e).calls := by
  cases e with
  | request r => exact h.perm List.perm_append_comm (h.enter r hc hg)
  | advance k w =>
      cases hcall : c.calls[k]? with
      | none =>
          rw [Machine.step, hcall]
          exact hc
      | some call =>
          rw [Guards.meets, hcall] at hg
          rw [Machine.step, hcall]
          refine h.perm (replace_perm c.calls k _).symm ?_
          exact h.exec w (h.perm (perm_of_getElem? hcall) hc) hg

theorem GuardedInvariant.run (h : GuardedInvariant m Inv g) (c : Config σ κ)
    (es : List (Event ρ ω)) (hc : Inv c.store c.calls) (hg : Guarded m.step g.meets c es) :
    Inv (run m.step c es).store (run m.step c es).calls :=
  run_guarded (P := fun c => Inv c.store c.calls) h.step c es hc hg

/-! ### Guarded requests alone -/

/-- An invariant of the requests that meet a guard, and of every statement. -/
structure Invariant (m : Machine σ κ ρ ω) (Inv : σ → List κ → Prop)
    (guard : σ → List κ → ρ → Prop) : Prop where
  perm : ∀ {s : σ} {calls calls' : List κ}, calls.Perm calls' → Inv s calls → Inv s calls'
  enter : ∀ {s : σ} {calls : List κ} (r : ρ), Inv s calls → guard s calls r →
    Inv (m.enter s r).1 ((m.enter s r).2.toList ++ calls)
  exec : ∀ {s : σ} {call : κ} {calls : List κ} (w : ω), Inv s (call :: calls) →
    Inv (m.exec s call w).1 ((m.exec s call w).2.toList ++ calls)

def onRequests (guard : σ → List κ → ρ → Prop) (c : Config σ κ) : Event ρ ω → Prop
  | .request r => guard c.store c.calls r
  | .advance _ _ => True

variable {guard : σ → List κ → ρ → Prop}

theorem Invariant.guarded (h : Invariant m Inv guard) :
    GuardedInvariant m Inv ⟨guard, fun _ _ _ _ => True⟩ :=
  ⟨h.perm, h.enter, fun w hc _ => h.exec w hc⟩

theorem Invariant.step (h : Invariant m Inv guard) (c : Config σ κ) (e : Event ρ ω)
    (hc : Inv c.store c.calls) (hg : onRequests guard c e) :
    Inv (m.step c e).store (m.step c e).calls := by
  refine h.guarded.step c e hc ?_
  cases e with
  | request r => exact hg
  | advance k w =>
      rw [Guards.meets]
      split <;> trivial

theorem Invariant.run (h : Invariant m Inv guard) (c : Config σ κ) (es : List (Event ρ ω))
    (hc : Inv c.store c.calls) (hg : Guarded m.step (onRequests guard) c es) :
    Inv (run m.step c es).store (run m.step c es).calls :=
  run_guarded (P := fun c => Inv c.store c.calls) h.step c es hc hg

end Eunha.Interleaving
