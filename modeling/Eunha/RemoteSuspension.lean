import Eunha.JsonText
import Eunha.Runs
import Mathlib.Logic.Function.Basic

/-!
# Suspensions made here and elsewhere

A moderator suspends an account and lifts the suspension. The account's own server says
whether it is suspended there: in the actor's document, which is read when an activity
brings it and when an unsuspended account is refreshed, and by answering that the account is
gone. A reader loads the account, waits for the document, and decides by what it loaded.
-/
namespace Eunha.RemoteSuspension
open JsonText Runs

variable {N : Type}

/-- `suspension_origin` -/
inductive Origin where
  | here
  | remote
  deriving DecidableEq

structure Suspension where
  suspended : Bool
  origin : Option Origin
  deriving DecidableEq

def Suspension.none : Suspension := ⟨false, Option.none⟩

/-- A suspension a moderator made, which `set_suspension` leaves alone. -/
def Suspension.made (a : Suspension) : Bool := a.suspended ∧ a.origin ≠ some .remote

/-! ### The readers -/

def truthy : Option (Value N) → Bool
  | Option.none => false
  | some .null => false
  | some (.bool false) => false
  | _ => true

/-- `Value::as_bool`, and false for anything else. -/
def asBool : Option (Value N) → Bool
  | some (.bool b) => b
  | _ => false

/-- Who reads the document: `process`, or `refresh`. -/
inductive Reader where
  | process
  | refresh
  deriving DecidableEq

def Reader.flag : Reader → Option (Value N) → Bool
  | .process, v => truthy v
  | .refresh, v => asBool v

/-! ### Runs -/

/-- A reader that waits for the document, and the account as it was loaded. -/
structure Reading where
  reader : Reader
  id : ℕ
  account : Suspension

structure World where
  accounts : ℕ → Suspension
  readings : List Reading

def World.set (w : World) (id : ℕ) (a : Suspension) : World :=
  { w with accounts := Function.update w.accounts id a }

def suspend (w : World) (id : ℕ) (origin : Origin) : World := w.set id ⟨true, some origin⟩

def unsuspend (w : World) (id : ℕ) : World := w.set id Suspension.none

def setSuspension (w : World) (id : ℕ) (account : Suspension) (suspended : Bool) : World :=
  if account.made then w
  else if account.suspended && !suspended then unsuspend w id
  else if !account.suspended && suspended then suspend w id .remote
  else w

inductive Op (N : Type) where
  | suspend (id : ℕ)
  | unsuspend (id : ℕ)
  | approveAppeal (id : ℕ)
  | load (reader : Reader) (id : ℕ)
  | document (k : ℕ) (suspended : Option (Value N))
  | abandon (k : ℕ)
  | gone (id : ℕ)

def step (w : World) : Op N → World
  | .suspend id => suspend w id .here
  | .unsuspend id =>
      -- `AccountPolicy#unsuspend?`
      if (w.accounts id).origin = some .here then unsuspend w id else w
  | .approveAppeal id => unsuspend w id
  | .load reader id => { w with readings := w.readings ++ [⟨reader, id, w.accounts id⟩] }
  | .document k suspended =>
      match w.readings[k]? with
      | none => w
      | some r =>
          setSuspension { w with readings := w.readings.eraseIdx k } r.id r.account
            (r.reader.flag suspended)
  | .abandon k => { w with readings := w.readings.eraseIdx k }
  -- `queue_deletion`
  | .gone id => suspend w id .remote

@[simp] theorem accounts_set (w : World) (id : ℕ) (a : Suspension) :
    (w.set id a).accounts = Function.update w.accounts id a := rfl

@[simp] theorem readings_set (w : World) (id : ℕ) (a : Suspension) :
    (w.set id a).readings = w.readings := rfl

/-- What a reader writes: nothing, or the suspension its document says. -/
def decision (account : Suspension) (suspended : Bool) : Option Suspension :=
  if account.made ∨ account.suspended = suspended then none
  else if suspended then some ⟨true, some .remote⟩
  else some Suspension.none

theorem setSuspension_eq (w : World) (id : ℕ) (account : Suspension) (suspended : Bool) :
    setSuspension w id account suspended = (decision account suspended).elim w (w.set id) := by
  rw [setSuspension, decision]
  by_cases hmade : account.made = true
  · simp [hmade]
  · cases hs : account.suspended <;> cases suspended <;> simp [hmade, suspend, unsuspend]

theorem decision_ne {account a : Suspension} {suspended : Bool}
    (h : decision account suspended = some a) : a ≠ ⟨true, some .here⟩ := by
  rw [decision] at h
  split at h
  · cases h
  · split at h
    · cases h
      simp
    · cases h
      simp [Suspension.none]

/-! ### What a moderator suspended -/

def World.Made (w : World) (id : ℕ) : Prop := w.accounts id = ⟨true, some .here⟩

instance (w : World) (id : ℕ) : Decidable (w.Made id) :=
  inferInstanceAs (Decidable (_ = _))

def Lifts (id : ℕ) : Op N → Prop
  | .unsuspend id' => id' = id
  | .approveAppeal id' => id' = id
  | _ => False

def StaysMade (w : World) (ops : List (Op N)) : Prop :=
  ∀ before o after, ops = before ++ o :: after → ∀ id, (run step w before).Made id →
    Lifts id o ∨ (run step w (before ++ [o])).Made id

def Heeds (w : World) : Op N → Prop
  | .gone id => ¬ w.Made id
  | .document k suspended =>
      match w.readings[k]? with
      | none => True
      | some r =>
          w.Made r.id → r.account.made = true ∨ r.account.suspended = r.reader.flag suspended
  | _ => True

theorem made_set_iff {w : World} {id : ℕ} {a : Suspension} (ha : a ≠ ⟨true, some .here⟩) :
    (∀ id', w.Made id' → (w.set id a).Made id') ↔ ¬ w.Made id := by
  constructor
  · intro h hmade
    have := h id hmade
    rw [World.Made, accounts_set, Function.update_self] at this
    exact ha this
  · intro hmade id' hmade'
    rw [World.Made, accounts_set, Function.update_of_ne]
    · exact hmade'
    · rintro rfl
      exact hmade hmade'

theorem made_document_iff {w : World} {r : Reading} {suspended : Bool} :
    (∀ id, w.Made id → (setSuspension w r.id r.account suspended).Made id) ↔
      (w.Made r.id → r.account.made = true ∨ r.account.suspended = suspended) := by
  rw [setSuspension_eq]
  cases hd : decision r.account suspended with
  | none =>
      have hkept : r.account.made = true ∨ r.account.suspended = suspended := by
        by_contra hne
        rw [decision, if_neg hne] at hd
        split at hd <;> cases hd
      exact iff_of_true (fun _ h => h) fun _ => hkept
  | some a =>
      rw [Option.elim_some, made_set_iff (decision_ne hd)]
      have hwrites : ¬ (r.account.made = true ∨ r.account.suspended = suspended) := by
        intro hkept
        rw [decision, if_pos hkept] at hd
        cases hd
      simp [hwrites]

theorem stays_iff_heeds (w : World) (o : Op N) :
    (∀ id, w.Made id → Lifts id o ∨ (step w o).Made id) ↔ Heeds w o := by
  cases o with
  | suspend id =>
      refine iff_of_true (fun id' h => .inr ?_) trivial
      by_cases hid : id' = id
      · simp [step, suspend, World.Made, hid]
      · simpa [step, suspend, World.Made, hid] using h
  | unsuspend id =>
      refine iff_of_true (fun id' h => ?_) trivial
      by_cases hid : id = id'
      · exact .inl hid
      · refine .inr ?_
        rw [step]
        split
        · rw [unsuspend, World.Made, accounts_set, Function.update_of_ne (Ne.symm hid)]
          exact h
        · exact h
  | approveAppeal id =>
      refine iff_of_true (fun id' h => ?_) trivial
      by_cases hid : id = id'
      · exact .inl hid
      · refine .inr ?_
        rw [step, unsuspend, World.Made, accounts_set, Function.update_of_ne (Ne.symm hid)]
        exact h
  | load reader id => exact iff_of_true (fun _ h => .inr h) trivial
  | abandon k => exact iff_of_true (fun _ h => .inr h) trivial
  | gone id =>
      simp only [Lifts, false_or, Heeds]
      exact made_set_iff (by decide)
  | document k suspended =>
      simp only [Lifts, false_or, Heeds, step]
      cases w.readings[k]? with
      | none => exact iff_of_true (fun _ h => h) trivial
      | some r => exact made_document_iff (w := { w with readings := w.readings.eraseIdx k })

theorem stays_made_iff (w : World) (ops : List (Op N)) :
    StaysMade w ops ↔ Guarded step Heeds w ops := by
  rw [guarded_iff_forall_split, StaysMade]
  refine forall_congr' fun before => forall_congr' fun o => forall_congr' fun after =>
    imp_congr_right fun _ => ?_
  rw [← stays_iff_heeds, run_append]
  rfl

/-! ### What the document says -/

def IsFlag : Option (Value N) → Prop
  | none => True
  | some .null => True
  | some (.bool _) => True
  | _ => False

theorem flags_agree_iff (v : Option (Value N)) : truthy v = asBool v ↔ IsFlag v := by
  rcases v with _ | v
  · simp [truthy, asBool, IsFlag]
  · cases v with
    | null => simp [truthy, asBool, IsFlag]
    | bool b => cases b <;> simp [truthy, asBool, IsFlag]
    | number n => simp [truthy, asBool, IsFlag]
    | string s => simp [truthy, asBool, IsFlag]
    | array values => simp [truthy, asBool, IsFlag]
    | object members => simp [truthy, asBool, IsFlag]

/-- The account read by these, one after the other, each answered with the same document. -/
def visits (id : ℕ) (v : Option (Value N)) (readers : List Reader) : List (Op N) :=
  readers.flatMap fun reader => [.load reader id, .document 0 v]

def visit (v : Option (Value N)) (a : Suspension) (reader : Reader) : Suspension :=
  (decision a (reader.flag v)).getD a

theorem run_visits (id : ℕ) (v : Option (Value N)) (readers : List Reader) (w : World)
    (hw : w.readings = []) :
    run step w (visits id v readers) = w.set id (readers.foldl (visit v) (w.accounts id)) := by
  induction readers generalizing w with
  | nil => simp [visits, World.set]
  | cons reader readers ih =>
      have hvisit : run step w [.load reader id, .document 0 v] =
          w.set id (visit v (w.accounts id) reader) := by
        simp only [run_cons, run_nil, step, hw, List.nil_append, List.getElem?_cons_zero,
          List.eraseIdx_zero, List.tail_cons, setSuspension_eq, visit]
        cases decision (w.accounts id) (reader.flag v) <;> simp [World.set, hw]
      have hsplit : visits id v (reader :: readers) =
          [.load reader id, .document 0 v] ++ visits id v readers := by
        simp [visits]
      rw [hsplit, run_append, hvisit, ih _ (by simpa using hw)]
      simp [World.set, List.foldl_cons]

/-- While its document stays the same, an account that is read once stays as it is. -/
def Steady (v : Option (Value N)) : Prop :=
  ∀ (w : World) (id : ℕ) (reader : Reader) (readers : List Reader), w.readings = [] →
    run step w (visits id v (reader :: readers)) = run step w (visits id v [reader])

theorem visit_visit {v : Option (Value N)} (hv : IsFlag v) (a : Suspension)
    (reader reader' : Reader) : visit v (visit v a reader) reader' = visit v a reader := by
  have hflag (r : Reader) : r.flag v = asBool v := by
    cases r with
    | process => exact (flags_agree_iff v).mpr hv
    | refresh => rfl
  simp only [visit, hflag, decision]
  generalize asBool v = flag
  obtain ⟨suspended, origin⟩ := a
  rcases origin with _ | origin
  · cases suspended <;> cases flag <;> simp [Suspension.made]
  · cases suspended <;> cases flag <;> cases origin <;> simp [Suspension.made, Suspension.none]

theorem foldl_visit {v : Option (Value N)} (hv : IsFlag v) (a : Suspension) (reader : Reader)
    (readers : List Reader) : (reader :: readers).foldl (visit v) a = visit v a reader := by
  induction readers generalizing a reader with
  | nil => rfl
  | cons next readers ih =>
      rw [List.foldl_cons, ih, visit_visit hv]

theorem steady_iff (v : Option (Value N)) : Steady v ↔ IsFlag v := by
  constructor
  · intro h
    by_contra hv
    have hne : truthy v ≠ asBool v := fun he => hv ((flags_agree_iff v).mp he)
    have htrue : truthy v = true ∧ asBool v = false := by
      revert hv hne
      rcases v with _ | v
      · simp [IsFlag]
      · cases v <;> simp [IsFlag, truthy, asBool]
    have hruns := h ⟨fun _ => Suspension.none, []⟩ 0 .process [.refresh] rfl
    rw [run_visits _ _ _ _ rfl, run_visits _ _ _ _ rfl] at hruns
    have := congrArg (fun w : World => w.accounts 0) hruns
    simp [visit, decision, Reader.flag, htrue, Suspension.made, Suspension.none] at this
  · intro hv w id reader readers hw
    rw [run_visits _ _ _ _ hw, run_visits _ _ _ _ hw, foldl_visit hv]
    rfl

/-- A suspension made here is lifted here alone, and the readers agree on a document and hold
to it, exactly where every step heeds what was made here and the document's property is a
flag. -/
theorem lifted_here_iff (w : World) (ops : List (Op N)) (v : Option (Value N)) :
    (StaysMade w ops ∧ truthy v = asBool v ∧ Steady v) ↔
      (Guarded step Heeds w ops ∧ IsFlag v) := by
  rw [stays_made_iff, flags_agree_iff, steady_iff, and_self_iff]

/-- An account a moderator suspended, whose server then says that it is gone, is suspended
from there, so that its next document can lift the suspension. -/
theorem gone_takes_over :
    ¬ (StaysMade (N := ℤ) ⟨fun _ => Suspension.none, []⟩ [.suspend 1, .gone 1]) := by
  intro h
  have := h [.suspend 1] (.gone 1) [] rfl 1 (by decide)
  simp [Lifts, run, step, suspend, World.set, World.Made] at this

end Eunha.RemoteSuspension
