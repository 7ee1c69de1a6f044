import Eunha.Interleaving
import Mathlib

/-!
# Deciding an appeal

A moderator who has seen that an appeal is pending approves or rejects it. Approving undoes what
the strike did, partly after its transaction, and marks the strike overruled. Each call runs
statement by statement, and a statement may fail, which ends the call.

The account and the posts that the strike is about stand as what the strike could have done to
them. What is done to them otherwise, by anyone, is an action of its own. A history, the newest
moment first, says which call did what.
-/
namespace Eunha.Appeals
open Interleaving Runs

/-! ### The model -/

/-- `warning::action` -/
inductive StrikeAction where
  | none | disable | markStatusesAsSensitive | deleteStatuses | sensitive | silence | suspend
  deriving DecidableEq

/-- The account, and whether posts of the strike are marked. -/
structure Account where
  disabled : Bool := false
  sensitized : Bool := false
  silenced : Bool := false
  suspended : Bool := false
  marked : Bool := false
  deriving DecidableEq

structure Strike where
  action : StrikeAction
  hasTarget : Bool

inductive Decision where
  | approve | reject
  deriving DecidableEq

inductive Moment where
  | decided (ticket : ℕ) (d : Decision)
  | undone (ticket : ℕ)
  | acted
  deriving DecidableEq

structure Store where
  approved : Bool := false
  rejected : Bool := false
  overruled : Bool := false
  account : Account
  log : List Decision := []
  tickets : ℕ := 0
  history : List Moment := []

def Store.pending (s : Store) : Bool := !s.approved && !s.rejected

inductive Phase where
  | isPending | appeal | log | strike | decide | undo
  deriving DecidableEq

structure Call where
  ticket : ℕ
  decision : Decision
  phase : Phase
  deriving DecidableEq

inductive Request where
  | decision (d : Decision)
  | act (account : Account)

def StrikeAction.undoable : StrikeAction → Bool
  | .none | .deleteStatuses => false
  | _ => true

def StrikeAction.undoneLater : StrikeAction → Bool
  | .suspend | .markStatusesAsSensitive => true
  | _ => false

def StrikeAction.effect (a : Account) : StrikeAction → Bool
  | .none | .deleteStatuses => false
  | .disable => a.disabled
  | .markStatusesAsSensitive => a.marked
  | .sensitive => a.sensitized
  | .silence => a.silenced
  | .suspend => a.suspended

def StrikeAction.undo (a : Account) : StrikeAction → Account
  | .none | .deleteStatuses => a
  | .disable => { a with disabled := false }
  | .markStatusesAsSensitive => { a with marked := false }
  | .sensitive => { a with sensitized := false }
  | .silence => { a with silenced := false }
  | .suspend => { a with suspended := false }

def Store.undone (s : Store) (action : StrikeAction) (ticket : ℕ) : Store :=
  { s with account := action.undo s.account, history := .undone ticket :: s.history }

def enter (s : Store) : Request → Store × Option Call
  | .decision d => ({ s with tickets := s.tickets + 1 }, some ⟨s.tickets, d, .isPending⟩)
  | .act account => ({ s with account := account, history := .acted :: s.history }, none)

/-- The transaction of `approve`. -/
def approveTx (strike : Strike) (s : Store) (ticket : ℕ) : Store :=
  let s := { s with
    approved := true, overruled := true, history := .decided ticket .approve :: s.history }
  if strike.action.undoable && !strike.action.undoneLater then s.undone strike.action ticket else s

/-- The UPDATE of `reject`. -/
def rejectUpdate (s : Store) (ticket : ℕ) : Store :=
  { s with rejected := true, history := .decided ticket .reject :: s.history }

/-- The next statement of `approve` or `reject`. -/
def exec (strike : Strike) (s : Store) (c : Call) (fails : Bool) : Store × Option Call :=
  if fails then (s, none)
  else
    match c.phase, c.decision with
    | .isPending, _ => (s, if s.pending then some { c with phase := .appeal } else none)
    | .appeal, _ => (s, some { c with phase := .log })
    | .log, .approve =>
        ({ s with log := .approve :: s.log }, some { c with phase := .strike })
    | .log, .reject => ({ s with log := .reject :: s.log }, some { c with phase := .decide })
    | .strike, .approve =>
        (s, if strike.hasTarget then some { c with phase := .decide } else none)
    | .strike, .reject => (s, none)
    | .decide, .approve =>
        (approveTx strike s c.ticket,
          if strike.action.undoneLater then some { c with phase := .undo } else none)
    | .decide, .reject => (rejectUpdate s c.ticket, some { c with phase := .strike })
    | .undo, _ => (s.undone strike.action c.ticket, none)

def machine (strike : Strike) : Machine Store Call Request Bool where
  enter := enter
  exec := exec strike

/-- The appeal is undecided, and nobody has begun to decide it. -/
structure Store.Fresh (s : Store) : Prop where
  approved : s.approved = false
  rejected : s.rejected = false
  overruled : s.overruled = false
  history : s.history = []

/-! ### Decided once -/

/-- What is undone stays so until the account is acted on again. -/
def Cleared (history : List Moment) (effect : Bool) : Prop :=
  ∀ j pre post, history = post ++ .undone j :: pre → .acted ∉ post → effect = false

structure DecidedOnce (strike : Strike) (s : Store) (quiescent : Prop) : Prop where
  never_both : ¬ (s.approved = true ∧ s.rejected = true)
  overruled_iff : s.overruled = true ↔ s.approved = true
  decided_once : ∀ i d j d', .decided i d ∈ s.history → .decided j d' ∈ s.history → i = j ∧ d = d'
  /-- Nothing is undone but by the call that approved the appeal. -/
  undone_by : ∀ i d j, .decided i d ∈ s.history → .undone j ∈ s.history → j = i ∧ d = .approve
  undone_only : ∀ j, .undone j ∈ s.history → s.approved = true
  undone : quiescent → s.approved = true → strike.action.undoable = true →
    ∃ j, .undone j ∈ s.history
  cleared : Cleared s.history (strike.action.effect s.account)

/-- The decision is written while the appeal is pending, and an approval is finished. -/
def inTime (s : Store) (c : Call) (fails : Bool) : Prop :=
  (c.phase = .decide → fails = false → s.pending = true) ∧ (c.phase = .undo → fails = false)

def guards : Guards Store Call Request Bool where
  request := fun _ _ _ => True
  statement := fun s c _ fails => inTime s c fails

/-! ### The invariant -/

structure Inv (strike : Strike) (s : Store) (calls : List Call) : Prop where
  approved_iff : s.approved = true ↔ ∃ i, .decided i .approve ∈ s.history
  rejected_iff : s.rejected = true ↔ ∃ i, .decided i .reject ∈ s.history
  overruled : s.overruled = s.approved
  unique : ∀ i d j d', .decided i d ∈ s.history → .decided j d' ∈ s.history → i = j ∧ d = d'
  undone_by : ∀ j, .undone j ∈ s.history → .decided j .approve ∈ s.history
  undoing : ∀ c ∈ calls, c.phase = .undo → .decided c.ticket .approve ∈ s.history
  undone : strike.action.undoable = true → ∀ i, .decided i .approve ∈ s.history →
    .undone i ∈ s.history ∨ ∃ c ∈ calls, c.phase = .undo ∧ c.ticket = i
  cleared : Cleared s.history (strike.action.effect s.account)

theorem effect_undo (a : Account) (action : StrikeAction) :
    action.effect (action.undo a) = false := by
  cases action with
  | none => rfl
  | disable => rfl
  | markStatusesAsSensitive => rfl
  | deleteStatuses => rfl
  | sensitive => rfl
  | silence => rfl
  | suspend => rfl

variable {strike : Strike} {s : Store} {calls : List Call}

theorem Inv.congr (h : Inv strike s calls) {s' : Store} {calls' : List Call}
    (happroved : s'.approved = s.approved) (hrejected : s'.rejected = s.rejected)
    (hoverruled : s'.overruled = s.overruled) (haccount : s'.account = s.account)
    (hhistory : s'.history = s.history)
    (hcalls : ∀ c, c.phase = .undo → (c ∈ calls' ↔ c ∈ calls)) : Inv strike s' calls' where
  approved_iff := by
    rw [happroved, hhistory]
    exact h.approved_iff
  rejected_iff := by
    rw [hrejected, hhistory]
    exact h.rejected_iff
  overruled := by
    rw [hoverruled, happroved]
    exact h.overruled
  unique := by
    rw [hhistory]
    exact h.unique
  undone_by := by
    rw [hhistory]
    exact h.undone_by
  undoing := by
    rw [hhistory]
    exact fun c hc hphase => h.undoing c ((hcalls c hphase).mp hc) hphase
  undone := by
    rw [hhistory]
    intro hundoable i hi
    refine (h.undone hundoable i hi).imp id ?_
    rintro ⟨c, hc, hphase, hticket⟩
    exact ⟨c, (hcalls c hphase).mpr hc, hphase, hticket⟩
  cleared := by
    rw [hhistory, haccount]
    exact h.cleared

theorem not_decided (h : Inv strike s calls) (hpending : s.pending = true) (i : ℕ) (d : Decision) :
    .decided i d ∉ s.history := by
  rw [Store.pending, Bool.and_eq_true, Bool.not_eq_true', Bool.not_eq_true'] at hpending
  intro hmem
  cases d with
  | approve =>
      have hcontra := h.approved_iff.mpr ⟨i, hmem⟩
      rw [hpending.1] at hcontra
      cases hcontra
  | reject =>
      have hcontra := h.rejected_iff.mpr ⟨i, hmem⟩
      rw [hpending.2] at hcontra
      cases hcontra

theorem Cleared.cons {history : List Moment} {m : Moment} {effect : Bool}
    (hundone : ∀ j, m = .undone j → effect = false)
    (h : m ≠ .acted → Cleared history effect) : Cleared (m :: history) effect := by
  intro j pre post heq hacted
  cases post with
  | nil =>
      obtain ⟨rfl, -⟩ := List.cons.inj heq
      exact hundone j rfl
  | cons p post =>
      obtain ⟨rfl, rfl⟩ := List.cons.inj heq
      rw [List.mem_cons, not_or] at hacted
      exact h (fun hm => hacted.1 hm.symm) j pre post rfl hacted.2

theorem exists_decided_cons {history : List Moment} {m : Moment} {d : Decision}
    (hm : ∀ i, m ≠ .decided i d) :
    (∃ i, .decided i d ∈ m :: history) ↔ ∃ i, .decided i d ∈ history :=
  exists_congr fun i => by rw [List.mem_cons, or_iff_right (Ne.symm (hm i))]

/-! ### Steps -/

theorem inv_enter (r : Request) (h : Inv strike s calls) :
    Inv strike (enter s r).1 ((enter s r).2.toList ++ calls) := by
  cases r with
  | decision d =>
      refine h.congr rfl rfl rfl rfl rfl fun c hphase => ?_
      change c ∈ _ :: calls ↔ _
      rw [List.mem_cons]
      refine or_iff_right fun hc => ?_
      rw [hc] at hphase
      cases hphase
  | act account =>
      exact
        { approved_iff :=
            h.approved_iff.trans (exists_decided_cons fun _ hm => by cases hm).symm
          rejected_iff :=
            h.rejected_iff.trans (exists_decided_cons fun _ hm => by cases hm).symm
          overruled := h.overruled
          unique := by
            rw [show (enter s (.act account)).1.history = .acted :: s.history from rfl]
            simpa using h.unique
          undone_by := by
            rw [show (enter s (.act account)).1.history = .acted :: s.history from rfl]
            simpa using h.undone_by
          undoing := fun c hc hphase => List.mem_cons_of_mem _ (h.undoing c hc hphase)
          undone := fun hundoable i hi => (h.undone hundoable i (by simpa [enter] using hi)).imp
            (List.mem_cons_of_mem _) id
          cleared := Cleared.cons (fun j hj => by cases hj) fun hne => absurd rfl hne }

theorem inv_goOn {c : Call} (h : Inv strike s (c :: calls)) (hphase : c.phase ≠ .undo)
    {s' : Store} (next : Option Call) (hnext : ∀ c', next = some c' → c'.phase ≠ .undo)
    (happroved : s'.approved = s.approved) (hrejected : s'.rejected = s.rejected)
    (hoverruled : s'.overruled = s.overruled) (haccount : s'.account = s.account)
    (hhistory : s'.history = s.history) : Inv strike s' (next.toList ++ calls) := by
  refine h.congr happroved hrejected hoverruled haccount hhistory fun c' hc' => ?_
  rw [List.mem_append, List.mem_cons]
  refine or_congr ?_ Iff.rfl
  constructor
  · intro hmem
    exact absurd hc' (hnext c' (Option.mem_toList.mp hmem))
  · rintro rfl
    exact absurd hc' hphase

theorem inv_undo {c : Call} (h : Inv strike s (c :: calls)) (hphase : c.phase = .undo) :
    Inv strike (s.undone strike.action c.ticket) calls where
  approved_iff :=
    h.approved_iff.trans (exists_decided_cons fun _ hm => by cases hm).symm
  rejected_iff :=
    h.rejected_iff.trans (exists_decided_cons fun _ hm => by cases hm).symm
  overruled := h.overruled
  unique := by
    rw [show (s.undone strike.action c.ticket).history = .undone c.ticket :: s.history from rfl]
    simpa using h.unique
  undone_by := by
    intro j hj
    refine List.mem_cons_of_mem _ ?_
    rcases List.mem_cons.mp hj with heq | hmem
    · obtain rfl := Moment.undone.inj heq
      exact h.undoing c List.mem_cons_self hphase
    · exact h.undone_by j hmem
  undoing := fun c' hc' hphase' =>
    List.mem_cons_of_mem _ (h.undoing c' (List.mem_cons_of_mem c hc') hphase')
  undone := by
    intro _ i hi
    have hi : .decided i .approve ∈ s.history := by
      rcases List.mem_cons.mp hi with heq | hmem
      · cases heq
      · exact hmem
    obtain ⟨rfl, -⟩ := h.unique i _ c.ticket _ hi (h.undoing c List.mem_cons_self hphase)
    exact .inl List.mem_cons_self
  cleared := Cleared.cons (fun _ _ => effect_undo s.account strike.action) fun _ _ _ _ _ _ =>
    effect_undo s.account strike.action

theorem inv_reject {c : Call} (h : Inv strike s (c :: calls))
    (hpending : s.pending = true) :
    Inv strike (rejectUpdate s c.ticket) ({ c with phase := .strike } :: calls) where
  approved_iff :=
    h.approved_iff.trans (exists_decided_cons fun _ hm => by cases hm).symm
  rejected_iff := ⟨fun _ => ⟨c.ticket, List.mem_cons_self⟩, fun _ => rfl⟩
  overruled := h.overruled
  unique := by
    intro i d j d' hi hj
    rcases List.mem_cons.mp hi with hi | hi
    · rcases List.mem_cons.mp hj with hj | hj
      · obtain ⟨rfl, rfl⟩ := Moment.decided.inj hi
        obtain ⟨rfl, rfl⟩ := Moment.decided.inj hj
        exact ⟨rfl, rfl⟩
      · exact absurd hj (not_decided h hpending j d')
    · exact absurd hi (not_decided h hpending i d)
  undone_by := by
    intro j hj
    rcases List.mem_cons.mp hj with heq | hmem
    · cases heq
    · exact absurd (h.undone_by j hmem) (not_decided h hpending j _)
  undoing := by
    intro c' hc' hphase'
    rcases List.mem_cons.mp hc' with rfl | hmem
    · cases hphase'
    · exact absurd (h.undoing c' (List.mem_cons_of_mem c hmem) hphase')
        (not_decided h hpending _ _)
  undone := by
    intro _ i hi
    rcases List.mem_cons.mp hi with heq | hmem
    · cases heq
    · exact absurd hmem (not_decided h hpending i _)
  cleared := Cleared.cons (fun _ hj => by cases hj) fun _ => h.cleared

theorem inv_approved {c : Call} (h : Inv strike s (c :: calls))
    (hpending : s.pending = true) {s' : Store} (happroved : s'.approved = true)
    (hrejected : s'.rejected = s.rejected) (hoverruled : s'.overruled = true)
    (haccount : s'.account = s.account)
    (hhistory : s'.history = .decided c.ticket .approve :: s.history) :
    Inv strike s' ({ c with phase := .undo } :: calls) where
  approved_iff := by
    rw [hhistory]
    exact ⟨fun _ => ⟨c.ticket, List.mem_cons_self⟩, fun _ => happroved⟩
  rejected_iff := by
    rw [hrejected, hhistory]
    exact h.rejected_iff.trans (exists_decided_cons fun _ hm => by cases hm).symm
  overruled := hoverruled.trans happroved.symm
  unique := by
    rw [hhistory]
    intro i d j d' hi hj
    rcases List.mem_cons.mp hi with hi | hi
    · rcases List.mem_cons.mp hj with hj | hj
      · obtain ⟨rfl, rfl⟩ := Moment.decided.inj hi
        obtain ⟨rfl, rfl⟩ := Moment.decided.inj hj
        exact ⟨rfl, rfl⟩
      · exact absurd hj (not_decided h hpending j d')
    · exact absurd hi (not_decided h hpending i d)
  undone_by := by
    rw [hhistory]
    intro j hj
    rcases List.mem_cons.mp hj with heq | hmem
    · cases heq
    · exact absurd (h.undone_by j hmem) (not_decided h hpending j _)
  undoing := by
    rw [hhistory]
    intro c' hc' hphase'
    rcases List.mem_cons.mp hc' with rfl | hmem
    · exact List.mem_cons_self
    · exact absurd (h.undoing c' (List.mem_cons_of_mem c hmem) hphase')
        (not_decided h hpending _ _)
  undone := by
    rw [hhistory]
    intro _ i hi
    rcases List.mem_cons.mp hi with heq | hmem
    · obtain ⟨rfl, -⟩ := Moment.decided.inj heq
      exact .inr ⟨_, List.mem_cons_self, rfl, rfl⟩
    · exact absurd hmem (not_decided h hpending i _)
  cleared := by
    rw [hhistory, haccount]
    exact Cleared.cons (fun _ hj => by cases hj) fun _ => h.cleared

theorem inv_drop {c : Call} (h : Inv strike s (c :: calls))
    (hundoable : strike.action.undoable = false) : Inv strike s calls where
  approved_iff := h.approved_iff
  rejected_iff := h.rejected_iff
  overruled := h.overruled
  unique := h.unique
  undone_by := h.undone_by
  undoing := fun c' hc' => h.undoing c' (List.mem_cons_of_mem c hc')
  undone := fun h' => by
    rw [hundoable] at h'
    cases h'
  cleared := h.cleared

theorem inv_approve {c : Call} (h : Inv strike s (c :: calls)) (hpending : s.pending = true) :
    Inv strike (approveTx strike s c.ticket)
      ((if strike.action.undoneLater then some { c with phase := Phase.undo }
        else none).toList ++ calls) := by
  have happroved : Inv strike
      { s with
        approved := true, overruled := true, history := .decided c.ticket .approve :: s.history }
      ({ c with phase := .undo } :: calls) := inv_approved h hpending rfl rfl rfl rfl rfl
  cases hlater : strike.action.undoneLater with
  | true =>
      rw [approveTx, hlater, if_pos rfl, if_neg (by simp)]
      exact happroved
  | false =>
      cases hundoable : strike.action.undoable with
      | true =>
          rw [approveTx, hlater, hundoable, if_neg Bool.false_ne_true, if_pos (by simp)]
          exact inv_undo (c := { c with phase := .undo }) happroved rfl
      | false =>
          rw [approveTx, hlater, hundoable, if_neg Bool.false_ne_true, if_neg (by simp)]
          exact inv_drop happroved hundoable

theorem inv_exec {c : Call} (fails : Bool) (h : Inv strike s (c :: calls))
    (hg : inTime s c fails) :
    Inv strike (exec strike s c fails).1 ((exec strike s c fails).2.toList ++ calls) := by
  obtain ⟨ticket, decision, phase⟩ := c
  cases fails with
  | true =>
      have hphase : phase ≠ .undo := fun hu => by
        cases hg.2 hu
      exact inv_goOn h hphase none (fun _ hc => by cases hc) rfl rfl rfl rfl rfl
  | false =>
      cases phase with
      | isPending =>
          refine inv_goOn h (by simp) _ (fun c' hc' => ?_) rfl rfl rfl rfl rfl
          change (if s.pending then _ else none) = some c' at hc'
          cases hpending : s.pending with
          | true =>
              rw [hpending, if_pos rfl, Option.some.injEq] at hc'
              rw [← hc']
              simp
          | false =>
              rw [hpending, if_neg Bool.false_ne_true] at hc'
              cases hc'
      | appeal =>
          refine inv_goOn h (by simp) _ (fun c' hc' => ?_) rfl rfl rfl rfl rfl
          obtain rfl := Option.some.inj hc'
          simp
      | log =>
          cases decision with
          | approve =>
              refine inv_goOn h (by simp) _ (fun c' hc' => ?_) rfl rfl rfl rfl rfl
              obtain rfl := Option.some.inj hc'
              simp
          | reject =>
              refine inv_goOn h (by simp) _ (fun c' hc' => ?_) rfl rfl rfl rfl rfl
              obtain rfl := Option.some.inj hc'
              simp
      | strike =>
          cases decision with
          | approve =>
              refine inv_goOn h (by simp) _ (fun c' hc' => ?_) rfl rfl rfl rfl rfl
              change (if strike.hasTarget then _ else none) = some c' at hc'
              cases htarget : strike.hasTarget with
              | true =>
                  rw [htarget, if_pos rfl, Option.some.injEq] at hc'
                  rw [← hc']
                  simp
              | false =>
                  rw [htarget, if_neg Bool.false_ne_true] at hc'
                  cases hc'
          | reject =>
              exact inv_goOn h (by simp) none (fun _ hc => by cases hc) rfl rfl rfl rfl
                rfl
      | decide =>
          cases decision with
          | approve => exact inv_approve h (hg.1 rfl rfl)
          | reject => exact inv_reject h (hg.1 rfl rfl)
      | undo => exact inv_undo h rfl

theorem inv_perm {calls' : List Call} (hperm : calls.Perm calls') (h : Inv strike s calls) :
    Inv strike s calls' :=
  h.congr rfl rfl rfl rfl rfl fun _ _ => hperm.mem_iff.symm

theorem inv_fresh (h : s.Fresh) : Inv strike s [] where
  approved_iff := by
    rw [h.approved, h.history]
    simp
  rejected_iff := by
    rw [h.rejected, h.history]
    simp
  overruled := h.overruled.trans h.approved.symm
  unique := by
    rw [h.history]
    intro i d j d' hi
    cases hi
  undone_by := by
    rw [h.history]
    intro j hj
    cases hj
  undoing := fun c hc => by cases hc
  undone := by
    rw [h.history]
    intro _ i hi
    cases hi
  cleared := by
    rw [h.history]
    intro j pre post heq
    cases post with
    | nil => cases heq
    | cons m post => cases heq

theorem guarded_inv (strike : Strike) : GuardedInvariant (machine strike) (Inv strike) guards where
  perm := inv_perm
  enter := fun r h _ => inv_enter r h
  exec := fun fails h hg => inv_exec fails h hg

theorem Inv.decidedOnce (h : Inv strike s calls) : DecidedOnce strike s (calls = []) where
  never_both := by
    rintro ⟨happroved, hrejected⟩
    obtain ⟨i, hi⟩ := h.approved_iff.mp happroved
    obtain ⟨j, hj⟩ := h.rejected_iff.mp hrejected
    cases (h.unique i _ j _ hi hj).2
  overruled_iff := by rw [h.overruled]
  decided_once := h.unique
  undone_by := by
    intro i d j hi hj
    obtain ⟨rfl, rfl⟩ := h.unique i d j .approve hi (h.undone_by j hj)
    exact ⟨rfl, rfl⟩
  undone_only := fun j hj => h.approved_iff.mpr ⟨j, h.undone_by j hj⟩
  undone := by
    rintro rfl happroved hundoable
    obtain ⟨i, hi⟩ := h.approved_iff.mp happroved
    rcases h.undone hundoable i hi with hundone | ⟨c, hc, -⟩
    · exact ⟨i, hundone⟩
    · cases hc
  cleared := h.cleared

/-- Decided in time, an appeal is decided once, whatever the order of the statements. -/
theorem appeal_decided_once (strike : Strike) (s : Store) (h : s.Fresh)
    (es : List (Event Request Bool))
    (hg : Guarded (machine strike).step guards.meets ⟨s, []⟩ es) :
    DecidedOnce strike (run (machine strike).step ⟨s, []⟩ es).store
      (run (machine strike).step ⟨s, []⟩ es).Quiescent :=
  ((guarded_inv strike).run ⟨s, []⟩ es (inv_fresh h) hg).decidedOnce

/-! ### Two moderators -/

def silenced : Store := { account := { silenced := true } }

def silence : Strike := ⟨.silence, true⟩

def statements (place count : ℕ) : List (Event Request Bool) :=
  List.replicate count (.advance place false)

/-- One approves, and another rejects who had seen the appeal pending. -/
def crossed : List (Event Request Bool) :=
  [.request (.decision .approve), .request (.decision .reject)] ++
    statements 1 1 ++ statements 0 5 ++ statements 0 4

/-- The appeal ends both approved and rejected. -/
theorem approved_and_rejected :
    ¬ DecidedOnce silence (run (machine silence).step ⟨silenced, []⟩ crossed).store
      (run (machine silence).step ⟨silenced, []⟩ crossed).Quiescent := by
  intro h
  have hboth : (run (machine silence).step ⟨silenced, []⟩ crossed).store.approved = true ∧
      (run (machine silence).step ⟨silenced, []⟩ crossed).store.rejected = true := by
    decide +kernel
  exact h.never_both hboth

/-- One approves, and then another finds the appeal decided. -/
def inTurn : List (Event Request Bool) :=
  [.request (.decision .approve)] ++ statements 0 5 ++
    [.request (.act { silenced := true }), .request (.decision .reject)] ++ statements 0 1

theorem decided_in_turn :
    DecidedOnce silence (run (machine silence).step ⟨silenced, []⟩ inTurn).store
      (run (machine silence).step ⟨silenced, []⟩ inTurn).Quiescent :=
  appeal_decided_once silence silenced ⟨rfl, rfl, rfl, rfl⟩ inTurn
    (by simp [inTurn, statements, Guarded, guards, Guards.meets, inTime, machine, Machine.step,
      enter, exec, silenced, silence, Store.pending, replace, List.replicate, approveTx,
      StrikeAction.undoneLater, StrikeAction.undoable, Store.undone])

end Eunha.Appeals
