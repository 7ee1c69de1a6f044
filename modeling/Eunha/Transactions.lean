import Eunha.Programs
import Mathlib

/-!
# Transactions

A program in a transaction works on a copy of the store, which becomes the store when it
commits. An error before that leaves what was committed as it was. When a run ends well is
told statement by statement.
-/
namespace Eunha.Transactions
open Programs Programs.Program

variable {L σ ε α β : Type} {fails : L → Bool}

/-- What is committed, and what the open transaction sees. -/
structure Db (σ : Type) where
  committed : σ
  working : σ

def Db.of (s : σ) : Db σ := ⟨s, s⟩

def openTx (l : L) (e : ε) : Program L (Db σ) ε Unit :=
  exec l e fun d => { d with working := d.committed }

def commit (l : L) (e : ε) : Program L (Db σ) ε Unit :=
  exec l e fun d => { d with committed := d.working }

def write (l : L) (e : ε) (move : σ → σ) : Program L (Db σ) ε Unit :=
  exec l e fun d => { d with working := move d.working }

def ofExcept : Except ε α → Program L σ ε α
  | .ok a => done a
  | .error e => fail e

/-! ### What is committed -/

/-- The store that others see is as it was. -/
def Kept (d d' : Db σ) : Prop := d'.committed = d.committed

theorem kept_openTx (l : L) (e : ε) : (openTx l e : Program L (Db σ) ε Unit).Always Kept :=
  .exec fun _ => rfl

theorem kept_write (l : L) (e : ε) (move : σ → σ) : (write l e move).Always Kept :=
  .exec fun _ => rfl

theorem kept_ask (l : L) (e : ε) (read : Db σ → α) : (ask l e read).Always Kept :=
  Always.ask (G := Kept) (fun _ => rfl) l e read

theorem kept_ofExcept (x : Except ε α) : (ofExcept x : Program L (Db σ) ε α).Always Kept := by
  cases x with
  | ok a => trivial
  | error e => trivial

theorem kept_run {p : Program L (Db σ) ε α} (h : p.Always Kept) (d : Db σ) :
    (p.run fails d).1.committed = d.committed :=
  h.run (G := Kept) (fun _ => rfl) (fun hst htu => Eq.trans htu hst) d

/-! ### Runs that end well -/

theorem done_ok {a b : α} {s t : σ} :
    (done a : Program L σ ε α).run fails s = (t, .ok b) ↔ t = s ∧ b = a := by
  rw [run_done, Prod.mk.injEq, Except.ok.injEq]
  exact ⟨fun h => ⟨h.1.symm, h.2.symm⟩, fun h => ⟨h.1.symm, h.2.symm⟩⟩

theorem bind_ok {p : Program L σ ε α} {k : α → Program L σ ε β} {s t : σ} {b : β} :
    (p >>= k).run fails s = (t, .ok b) ↔
      ∃ u a, p.run fails s = (u, .ok a) ∧ (k a).run fails u = (t, .ok b) := by
  constructor
  · intro h
    cases hp : p.run fails s with
    | mk u result =>
        cases result with
        | error e =>
            rw [run_bind_error hp] at h
            cases h
        | ok a => exact ⟨u, a, rfl, run_bind_ok hp ▸ h⟩
  · rintro ⟨u, a, hp, hk⟩
    rw [run_bind_ok hp, hk]

theorem exec_ok {l : L} {e : ε} {move : σ → σ} {s t : σ} {u : Unit} :
    (exec l e move).run fails s = (t, .ok u) ↔ fails l = false ∧ t = move s := by
  rw [Program.exec, run]
  cases hl : fails l with
  | true => simp
  | false => simp [eq_comm]

theorem ask_ok {l : L} {e : ε} {read : σ → α} {s t : σ} {a : α} :
    (ask l e read).run fails s = (t, .ok a) ↔ fails l = false ∧ t = s ∧ a = read s := by
  rw [Program.ask, run]
  cases hl : fails l with
  | true => simp
  | false => simp [eq_comm]

theorem ofExcept_ok {x : Except ε α} {s t : σ} {a : α} :
    (ofExcept x : Program L σ ε α).run fails s = (t, .ok a) ↔ t = s ∧ x = .ok a := by
  cases x with
  | ok b =>
      rw [ofExcept, done_ok, Except.ok.injEq]
      exact and_congr_right fun _ => eq_comm
  | error e => simp [ofExcept]

theorem openTx_ok {l : L} {e : ε} {d d' : Db σ} {u : Unit} :
    (openTx l e).run fails d = (d', .ok u) ↔
      fails l = false ∧ d' = ⟨d.committed, d.committed⟩ := exec_ok

theorem commit_ok {l : L} {e : ε} {d d' : Db σ} {u : Unit} :
    (commit l e).run fails d = (d', .ok u) ↔
      fails l = false ∧ d' = ⟨d.working, d.working⟩ := exec_ok

theorem write_ok {l : L} {e : ε} {move : σ → σ} {d d' : Db σ} {u : Unit} :
    (write l e move).run fails d = (d', .ok u) ↔
      fails l = false ∧ d' = ⟨d.committed, move d.working⟩ := exec_ok

/-- Statements for one element after the other all go well, or none is left. -/
theorem each_ok {body : β → Program L σ ε Unit} {P : β → Prop} {move : β → σ → σ}
    (h : ∀ b s t u, (body b).run fails s = (t, .ok u) ↔ P b ∧ t = move b s) (bs : List β)
    {s t : σ} {u : Unit} :
    (each body bs).run fails s = (t, .ok u) ↔
      (∀ b ∈ bs, P b) ∧ t = bs.foldl (fun s b => move b s) s := by
  induction bs generalizing s with
  | nil => simp [each, eq_comm]
  | cons b bs ih =>
      change (body b >>= fun _ => each body bs).run fails s = (t, .ok u) ↔ _
      rw [bind_ok, List.foldl_cons, List.forall_mem_cons]
      constructor
      · rintro ⟨s', a, hb, hbs⟩
        obtain ⟨hP, rfl⟩ := (h b s s' a).mp hb
        obtain ⟨hall, ht⟩ := ih.mp hbs
        exact ⟨⟨hP, hall⟩, ht⟩
      · rintro ⟨⟨hP, hall⟩, ht⟩
        exact ⟨_, (), (h b s _ ()).mpr ⟨hP, rfl⟩, ih.mpr ⟨hall, ht⟩⟩

end Eunha.Transactions
