import Eunha.Runs

/-!
# A handler that puts an object in a store and one that takes it out

The two run side by side, a command at a time. The first takes a lock if it can, asks for
a marker and for a seal, makes up its mind and inserts. The second takes the same lock if
it can, looks up what to delete, deletes it, leaves the marker when it deleted nothing, and
seals. A lock is tried for a bounded number of times, and may lapse or be someone else's.
What is left in the store once both have returned depends on one thing alone: that no
insertion falls behind the deletion that would have removed it.
-/
namespace Eunha.Undoing
open Runs

/-- A pair of handlers over a store. The object may have several parts, each put there by
its own insertion. -/
structure Pair (σ : Type) where
  Part : Type
  Insert : Type
  Delete : Type
  Found : Type
  Other : Type
  has : Part → σ → Prop
  /-- A seal in the store that stops the insertion. -/
  isSealed : σ → Bool
  insert : Insert → σ → σ
  part : Insert → Part
  /-- The insertion does nothing here. -/
  blocked : Insert → σ → Prop
  nothing : Found
  lookups : List (σ → Found → Found)
  deletes : Found → List Delete
  /-- A deletion, and whether it removed anything. -/
  delete : Delete → σ → σ × Bool
  covers : Delete → Part → Prop
  canSeal : σ → Bool
  putSeal : σ → σ
  /-- What neither handler decides, stored in the meantime. -/
  other : Other → σ → σ
  tries : ℕ
  /-- The marker asked for is the one the second handler leaves. -/
  heeds : Bool
  /-- The second handler can leave its marker. -/
  remembers : Bool

variable {σ : Type} {P : Pair σ}

def Pair.present (P : Pair σ) (s : σ) : Prop := ∃ part, P.has part s

structure Pair.Lawful (P : Pair σ) : Prop where
  insert : ∀ i s q, P.has q (P.insert i s) ↔ P.has q s ∨ (q = P.part i ∧ ¬ P.blocked i s)
  delete : ∀ d s q, P.has q (P.delete d s).1 ↔ P.has q s ∧ ¬ P.covers d q
  putSeal : ∀ s q, P.has q (P.putSeal s) ↔ P.has q s
  other : ∀ o s q, P.has q (P.other o s) ↔ P.has q s

def Pair.Covered (P : Pair σ) (ds : List P.Delete) (s : σ) : Prop :=
  ∀ q, P.has q s → ∃ d ∈ ds, P.covers d q

@[simp] theorem covered_nil {s : σ} : P.Covered [] s ↔ ¬ P.present s := by
  simp [Pair.Covered, Pair.present]

theorem covered_delete (hP : P.Lawful) (d : P.Delete) (ds : List P.Delete) (s : σ) :
    P.Covered ds (P.delete d s).1 ↔ P.Covered (d :: ds) s := by
  refine forall_congr' fun q => ?_
  rw [hP.delete, and_imp, List.exists_mem_cons_iff, or_iff_not_imp_left]

theorem covered_insert (hP : P.Lawful) (i : P.Insert) (ds : List P.Delete) (s : σ) :
    P.Covered ds (P.insert i s) ↔
      P.Covered ds s ∧ (¬ P.blocked i s → ∃ d ∈ ds, P.covers d (P.part i)) := by
  simp only [Pair.Covered, hP.insert]
  constructor
  · intro h
    exact ⟨fun q hq => h q (.inl hq), fun hb => h _ (.inr ⟨rfl, hb⟩)⟩
  · rintro ⟨hs, hi⟩ q (hq | ⟨rfl, hb⟩)
    · exact hs q hq
    · exact hi hb

theorem covered_other (hP : P.Lawful) (o : P.Other) (ds : List P.Delete) (s : σ) :
    P.Covered ds (P.other o s) ↔ P.Covered ds s := by
  simp only [Pair.Covered, hP.other]

/-! ### The two handlers side by side -/

inductive Holder where
  | doer
  | undoer
  | other
  deriving DecidableEq

/-- Where the first handler is; waiting, with so many tries at the lock left. -/
inductive Doer (P : Pair σ) where
  | waiting (tries : ℕ)
  | checking
  | gating
  | resolving
  | ready (i : P.Insert)
  | leaving
  | returned

inductive Undoer (P : Pair σ) where
  | waiting (tries : ℕ)
  | looking (lookups : List (σ → P.Found → P.Found)) (found : P.Found)
  | deleting (deletes : List P.Delete) (removed : Bool)
  | asking
  | putSeal
  | leaving
  | returned

structure World (P : Pair σ) where
  store : σ
  marked : Bool
  lock : Option Holder
  doer : Doer P
  undoer : Undoer P

def World.start (P : Pair σ) (store : σ) : World P where
  store := store
  marked := false
  lock := none
  doer := .waiting P.tries
  undoer := .waiting P.tries

def World.release (w : World P) (h : Holder) : World P :=
  { w with lock := if w.lock = some h then none else w.lock }

/-- The first handler's next command, with what it has made up its mind to when it comes
to that. -/
def doerStep (w : World P) (decided : Option P.Insert) : World P :=
  match w.doer with
  | .waiting (n + 1) =>
      if w.lock = none then { w with lock := some .doer, doer := .checking }
      else { w with doer := .waiting n }
  | .waiting 0 => { w with doer := .checking }
  | .checking => { w with doer := if P.heeds && w.marked then .leaving else .gating }
  | .gating => { w with doer := if P.isSealed w.store then .leaving else .resolving }
  | .resolving => { w with doer := (decided.map Doer.ready).getD .leaving }
  | .ready i => { w with store := P.insert i w.store, doer := .leaving }
  | .leaving => { w.release .doer with doer := .returned }
  | .returned => w

/-- The second handler's next command. -/
def undoerStep (w : World P) : World P :=
  match w.undoer with
  | .waiting (n + 1) =>
      if w.lock = none then
        { w with lock := some .undoer, undoer := .looking P.lookups P.nothing }
      else { w with undoer := .waiting n }
  | .waiting 0 => { w with undoer := .looking P.lookups P.nothing }
  | .looking (l :: ls) found => { w with undoer := .looking ls (l w.store found) }
  | .looking [] found => { w with undoer := .deleting (P.deletes found) false }
  | .deleting (d :: ds) removed =>
      let deleted := P.delete d w.store
      { w with store := deleted.1, undoer := .deleting ds (removed || deleted.2) }
  | .deleting [] removed =>
      { w with marked := w.marked || (!removed && P.remembers), undoer := .asking }
  | .asking => { w with undoer := if P.canSeal w.store then .putSeal else .leaving }
  | .putSeal => { w with store := P.putSeal w.store, undoer := .leaving }
  | .leaving => { w.release .undoer with undoer := .returned }
  | .returned => w

inductive Move (P : Pair σ) where
  | doer (decided : Option P.Insert)
  | undoer
  | other (o : P.Other)
  | lockLapses
  | lockTaken

def step (w : World P) : Move P → World P
  | .doer decided => doerStep w decided
  | .undoer => undoerStep w
  | .other o => { w with store := P.other o w.store }
  | .lockLapses => { w with lock := none }
  | .lockTaken => { w with lock := if w.lock = none then some .other else w.lock }

def World.bothReturned (w : World P) : Prop := w.doer = .returned ∧ w.undoer = .returned

/-! ### Nothing is inserted behind its deletion -/

def Undoer.remaining : Undoer P → Option (List P.Delete)
  | .waiting _ | .looking _ _ => none
  | .deleting ds _ => some ds
  | .asking | .putSeal | .leaving | .returned => some []

def guard (w : World P) : Move P → Prop
  | .doer _ =>
      ∀ i, w.doer = .ready i → ∀ ds ∈ w.undoer.remaining,
        ¬ P.blocked i w.store → ∃ d ∈ ds, P.covers d (P.part i)
  | .undoer => ∀ found, w.undoer = .looking [] found → P.Covered (P.deletes found) w.store
  | _ => True

/-- The deletions still to come cover the object. -/
def Clear (w : World P) : Prop := ∀ ds ∈ w.undoer.remaining, P.Covered ds w.store

theorem clear_doerStep (hP : P.Lawful) (w : World P) (decided : Option P.Insert) :
    Clear (doerStep w decided) ↔ Clear w ∧ guard w (.doer decided) := by
  obtain ⟨store, marked, lock, doer, undoer⟩ := w
  cases doer with
  | waiting n =>
      cases n with
      | zero => simp [doerStep, Clear, guard]
      | succ n =>
          simp only [doerStep]
          split <;> simp [Clear, guard]
  | ready i =>
      simp only [doerStep, Clear, guard, covered_insert hP, Doer.ready.injEq]
      constructor
      · intro h
        refine ⟨fun ds hds => (h ds hds).1, ?_⟩
        rintro i rfl ds hds
        exact (h ds hds).2
      · intro h ds hds
        exact ⟨h.1 ds hds, h.2 i rfl ds hds⟩
  | checking | gating | resolving | leaving | returned =>
      simp [doerStep, Clear, guard, World.release]

theorem clear_undoerStep (hP : P.Lawful) (w : World P) :
    Clear (undoerStep w) ↔ Clear w ∧ guard w .undoer := by
  obtain ⟨store, marked, lock, doer, undoer⟩ := w
  cases undoer with
  | waiting n =>
      cases n with
      | zero => simp [undoerStep, Clear, guard, Undoer.remaining]
      | succ n =>
          simp only [undoerStep]
          split <;> simp [Clear, guard, Undoer.remaining]
  | looking ls found =>
      cases ls with
      | nil => simp [undoerStep, Clear, guard, Undoer.remaining]
      | cons l ls => simp [undoerStep, Clear, guard, Undoer.remaining]
  | deleting ds removed =>
      cases ds with
      | nil => simp [undoerStep, Clear, guard, Undoer.remaining]
      | cons d ds => simp [undoerStep, Clear, guard, Undoer.remaining, covered_delete hP]
  | putSeal =>
      simp [undoerStep, Clear, guard, Undoer.remaining, Pair.present, hP.putSeal]
  | asking =>
      simp only [undoerStep]
      split <;> simp [Clear, guard, Undoer.remaining]
  | leaving | returned => simp [undoerStep, Clear, guard, Undoer.remaining, World.release]

theorem clear_step (hP : P.Lawful) (w : World P) (m : Move P) :
    Clear (step w m) ↔ Clear w ∧ guard w m := by
  cases m with
  | doer decided => exact clear_doerStep hP w decided
  | undoer => exact clear_undoerStep hP w
  | other o => simp [step, Clear, guard, covered_other hP]
  | lockLapses => simp [step, Clear, guard]
  | lockTaken => simp [step, Clear, guard]

theorem absent_iff_guarded (hP : P.Lawful) (store : σ) (moves : List (Move P))
    (hreturned : (run step (World.start P store) moves).bothReturned) :
    ¬ P.present (run step (World.start P store) moves).store ↔
      Guarded step guard (World.start P store) moves := by
  have hstart : Clear (World.start P store) := by simp [Clear, World.start, Undoer.remaining]
  have hclear : Clear (run step (World.start P store) moves) ↔
      ¬ P.present (run step (World.start P store) moves).store := by
    simp [Clear, hreturned.2, Undoer.remaining]
  rw [← hclear, run_iff_guarded (clear_step hP), and_iff_right hstart]

end Eunha.Undoing
