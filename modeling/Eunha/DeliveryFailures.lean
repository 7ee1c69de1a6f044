import Eunha.Runs
import Mathlib.Logic.Function.Basic

/-!
# Servers that have stopped answering

The delivery failure tracker: the days with failures of each host, the table of hosts marked
unavailable, and what each process remembers of the table. A success clears a host's failures,
and asks the table only where there were any or the process remembers a mark. So a mark
without failures stays, until the process has read it.

Each call runs to its end before the next; what it asks of Redis and the database may be
refused, or done and not answered. The table is read in the background, in two steps.
-/
namespace Eunha.DeliveryFailures
open Runs

/-- What became of a command. -/
inductive Outcome where
  | answered
  | refused
  | unanswered
  deriving DecidableEq

def Outcome.Done (o : Outcome) : Prop := o ≠ .refused

instance decidableDone (o : Outcome) : Decidable o.Done := inferInstanceAs (Decidable (_ ≠ _))

/-- `UNAVAILABLE_TTL`, in seconds. -/
def unavailableTtl : ℕ := 60

def failureDays : ℕ := 7

def failureMinutes : ℕ := 5

/-- The hosts marked unavailable, as last read: when that was, whether they are being read, and
what the reading has answered. -/
structure Memory where
  read : Option ℕ
  hosts : List String
  reading : Bool
  answer : Option (List String)
  deriving DecidableEq

def Memory.new : Memory := ⟨none, [], false, none⟩

def Memory.forget (m : Memory) : Memory := { m with read := none }

/-- A process's answer, and its memory with a reading begun where it is due. -/
def Memory.isUnavailable (m : Memory) (now : ℕ) (host : String) : Memory × Bool :=
  let due := m.read.all fun read => unavailableTtl ≤ now - read
  (if due && !m.reading then { m with reading := true, answer := none } else m,
    m.hosts.contains host)

structure State where
  days : String → List String
  unavailable : List String
  memory : ℕ → Memory

def start : State := ⟨fun _ => [], [], fun _ => .new⟩

namespace State

/-! ### Commands -/

def setMemory (s : State) (p : ℕ) (m : Memory) : State :=
  { s with memory := Function.update s.memory p m }

def forget (s : State) (p : ℕ) : State := s.setMemory p (s.memory p).forget

/-- `SADD` -/
def addDay (s : State) (host stamp : String) : State :=
  { s with
    days := Function.update s.days host
      (if stamp ∈ s.days host then s.days host else s.days host ++ [stamp]) }

/-- `DEL` -/
def clearDays (s : State) (host : String) : State :=
  { s with days := Function.update s.days host [] }

/-- `INSERT INTO unavailable_domains … ON CONFLICT (domain) DO NOTHING` -/
def mark (s : State) (host : String) : State :=
  { s with
    unavailable := if host ∈ s.unavailable then s.unavailable else s.unavailable ++ [host] }

/-- `DELETE FROM unavailable_domains` -/
def unmark (s : State) (host : String) : State :=
  { s with unavailable := s.unavailable.filter (· ≠ host) }

/-! ### Calls, each with whether it returns `Ok` -/

def trackFailureAt (s : State) (p : ℕ) (host stamp : String) (threshold : ℕ)
    (add insert : Outcome) : State × Bool :=
  match add with
  | .refused => (s, false)
  | .unanswered => (s.addDay host stamp, false)
  | .answered =>
      let t := s.addDay host stamp
      if threshold ≤ (t.days host).length then
        match insert with
        | .refused => (t, false)
        | .unanswered => (t.mark host, false)
        | .answered =>
            if host ∈ t.unavailable then (t, true) else ((t.mark host).forget p, true)
      else (t, true)

def clearFailures (s : State) (host : String) (del : Outcome) : State × Bool :=
  match del with
  | .refused => (s, false)
  | .unanswered => (s.clearDays host, false)
  | .answered => (s.clearDays host, true)

def trackSuccess (s : State) (p : ℕ) (host : String) (now : ℕ) (del delete : Outcome) :
    State × Bool :=
  match del with
  | .refused => (s, false)
  | .unanswered => (s.clearDays host, false)
  | .answered =>
      let t := s.clearDays host
      -- The process's memory is asked only where there was nothing to clear.
      let asked := (s.memory p).isUnavailable now host
      let t := if s.days host = [] then t.setMemory p asked.1 else t
      if s.days host ≠ [] ∨ asked.2 = true then
        match delete with
        | .refused => (t, false)
        | .unanswered => (t.unmark host, false)
        | .answered =>
            if host ∈ t.unavailable then ((t.unmark host).forget p, true) else (t, true)
      else (t, true)

def restart (s : State) (p : ℕ) (host : String) (del delete : Outcome) : State × Bool :=
  match s.clearFailures host del with
  | (t, false) => (t, false)
  | (t, true) =>
      match delete with
      | .refused => (t, false)
      | .unanswered => (t.unmark host, false)
      | .answered => ((t.unmark host).forget p, true)

def stop (s : State) (p : ℕ) (host : String) (insert : Outcome) : State × Bool :=
  match insert with
  | .refused => (s, false)
  | .unanswered => (s.mark host, false)
  | .answered => if host ∈ s.unavailable then (s, true) else ((s.mark host).forget p, true)

/-- The reading in the background gets its answer, or gives up. -/
def readTable (s : State) (p : ℕ) (select : Outcome) : State :=
  if (s.memory p).reading then
    match select with
    | .answered => s.setMemory p { s.memory p with answer := some s.unavailable }
    | _ => s.setMemory p { s.memory p with reading := false, answer := none }
  else s

def storeTable (s : State) (p : ℕ) (now : ℕ) : State :=
  match (s.memory p).answer with
  | some hosts => s.setMemory p ⟨some now, hosts, false, none⟩
  | none => s

/-- The version that always asks the table. -/
def plainSuccess (s : State) (host : String) : State := (s.clearDays host).unmark host

end State

/-! ### Runs -/

/-- What happens in a process. -/
inductive Op where
  | trackFailure (host day : String) (add insert : Outcome)
  | trackFailureMinutes (host minute : String) (add insert : Outcome)
  | trackSuccess (host : String) (now : ℕ) (del delete : Outcome)
  | restart (host : String) (del delete : Outcome)
  | clearFailures (host : String) (del : Outcome)
  | stop (host : String) (insert : Outcome)
  | isUnavailable (host : String) (now : ℕ)
  | readTable (select : Outcome)
  | storeTable (now : ℕ)
  | boot

def step (s : State) (e : ℕ × Op) : State :=
  match e.2 with
  | .trackFailure host day add insert =>
      (s.trackFailureAt e.1 host day failureDays add insert).1
  | .trackFailureMinutes host minute add insert =>
      (s.trackFailureAt e.1 host minute failureMinutes add insert).1
  | .trackSuccess host now del delete => (s.trackSuccess e.1 host now del delete).1
  | .restart host del delete => (s.restart e.1 host del delete).1
  | .clearFailures host del => (s.clearFailures host del).1
  | .stop host insert => (s.stop e.1 host insert).1
  | .isUnavailable host now => s.setMemory e.1 ((s.memory e.1).isUnavailable now host).1
  | .readTable select => s.readTable e.1 select
  | .storeTable now => s.storeTable e.1 now
  | .boot => s.setMemory e.1 .new

/-- A success that returns leaves neither mark nor failures, as the plain version does. -/
def Sound (s : State) (e : ℕ × Op) : Prop :=
  match e.2 with
  | .trackSuccess host now del delete =>
      let r := s.trackSuccess e.1 host now del delete
      r.2 = true →
        (r.1.unavailable = (s.plainSuccess host).unavailable ∧
          r.1.days = (s.plainSuccess host).days) ∧
        host ∉ r.1.unavailable ∧ r.1.days host = []
  | _ => True

/-- A success finds its host unmarked, with failures or remembered. -/
def Seen (s : State) (e : ℕ × Op) : Prop :=
  match e.2 with
  | .trackSuccess host _ .answered _ =>
      host ∈ s.unavailable → s.days host ≠ [] ∨ host ∈ (s.memory e.1).hosts
  | _ => True

/-- A mark comes with failures and goes with them: none is made without, none is left behind. -/
def Keeps (s : State) (e : ℕ × Op) : Prop :=
  match e.2 with
  | .stop host insert => insert.Done → s.days host ≠ [] ∨ host ∈ s.unavailable
  | .clearFailures host del => del.Done → host ∉ s.unavailable
  | .trackSuccess host _ del delete | .restart host del delete =>
      host ∈ s.unavailable → del = .refused ∨ del = .answered ∧ delete.Done
  | _ => True

/-! ### One success -/

theorem State.unmark_eq {s : State} {host : String} (h : host ∉ s.unavailable) :
    s.unavailable.filter (· ≠ host) = s.unavailable := by
  apply List.filter_eq_self.mpr
  intro other hother
  apply decide_eq_true
  intro heq
  exact h (heq ▸ hother)

theorem State.not_mem_unmark (s : State) (host : String) :
    host ∉ s.unavailable.filter (· ≠ host) := by
  intro h
  exact absurd rfl (of_decide_eq_true (List.mem_filter.mp h).2)

theorem State.asked (s : State) (p : ℕ) (host : String) (m : Memory) :
    (if s.days host = [] then (s.clearDays host).setMemory p m
      else s.clearDays host).unavailable = s.unavailable ∧
    (if s.days host = [] then (s.clearDays host).setMemory p m
      else s.clearDays host).days = (s.clearDays host).days := by
  split
  next => exact ⟨rfl, rfl⟩
  next => exact ⟨rfl, rfl⟩

theorem sound_iff_seen (s : State) (e : ℕ × Op) : Sound s e ↔ Seen s e := by
  cases hop : e.2 with
  | trackSuccess host now del delete =>
      simp only [Sound, Seen, hop]
      cases del with
      | refused => exact iff_of_true (by intro h; cases h) trivial
      | unanswered => exact iff_of_true (by intro h; cases h) trivial
      | answered =>
          have hcontains : ((s.memory e.1).isUnavailable now host).2 = true ↔
              host ∈ (s.memory e.1).hosts := List.contains_iff_mem
          obtain ⟨hunavailable, hdays⟩ := s.asked e.1 host
            ((s.memory e.1).isUnavailable now host).1
          have hnone : (s.clearDays host).days host = [] := Function.update_self _ _ _
          unfold State.trackSuccess
          dsimp only
          generalize (if s.days host = [] then (s.clearDays host).setMemory e.1
            ((s.memory e.1).isUnavailable now host).1 else s.clearDays host) = t at *
          by_cases hasked : s.days host ≠ [] ∨
              ((s.memory e.1).isUnavailable now host).2 = true
          · rw [if_pos hasked]
            have hseen : host ∈ s.unavailable →
                s.days host ≠ [] ∨ host ∈ (s.memory e.1).hosts :=
              fun _ => hasked.imp_right hcontains.mp
            apply iff_of_true _ hseen
            cases delete with
            | refused => intro h; cases h
            | unanswered => intro h; cases h
            | answered =>
                dsimp only
                split
                next =>
                  intro _
                  refine ⟨⟨?_, hdays⟩, ?_, ?_⟩
                  · show t.unavailable.filter _ = s.unavailable.filter _
                    rw [hunavailable]
                  · exact State.not_mem_unmark t host
                  · show t.days host = []
                    rw [hdays, hnone]
                next hmarked =>
                  intro _
                  refine ⟨⟨?_, hdays⟩, hmarked, by rw [hdays, hnone]⟩
                  show t.unavailable = s.unavailable.filter _
                  rw [hunavailable] at hmarked ⊢
                  exact (State.unmark_eq hmarked).symm
          · rw [if_neg hasked]
            rw [not_or, not_not, hcontains] at hasked
            constructor
            · intro h hmarked
              have hclean := (h rfl).2.1
              rw [hunavailable] at hclean
              exact absurd hmarked hclean
            · intro h _
              have hmarked : host ∉ s.unavailable := by
                intro hmarked
                cases h hmarked with
                | inl hdays => exact hdays hasked.1
                | inr hmemory => exact hasked.2 hmemory
              refine ⟨⟨?_, hdays⟩, ?_, by rw [hdays, hnone]⟩
              · show t.unavailable = s.unavailable.filter _
                rw [hunavailable]
                exact (State.unmark_eq hmarked).symm
              · rw [hunavailable]
                exact hmarked
  | _ => simp only [Sound, Seen, hop]

/-! ### Marks that come with failures -/

/-- Every host marked has failures. -/
def Inv (s : State) : Prop := ∀ host ∈ s.unavailable, s.days host ≠ []

theorem Inv.start : Inv start := by
  intro host h
  cases h

theorem Inv.of_eq {s t : State} (h : Inv s) (hdays : t.days = s.days)
    (hunavailable : t.unavailable = s.unavailable) : Inv t := by
  intro host hhost
  rw [hdays]
  rw [hunavailable] at hhost
  exact h host hhost

theorem Inv.addDay {s : State} (h : Inv s) (host stamp : String) : Inv (s.addDay host stamp) := by
  intro other hother
  show Function.update s.days host _ other ≠ []
  by_cases heq : other = host
  · rw [heq, Function.update_self]
    split
    next hmem => exact List.ne_nil_of_mem hmem
    next => simp
  · rw [Function.update_of_ne heq]
    exact h other hother

theorem Inv.mark {s : State} (h : Inv s) {host : String}
    (hdays : s.days host ≠ [] ∨ host ∈ s.unavailable) : Inv (s.mark host) := by
  intro other hother
  show s.days other ≠ []
  change other ∈ (if host ∈ s.unavailable then s.unavailable else s.unavailable ++ [host])
    at hother
  split at hother
  next => exact h other hother
  next hmarked =>
    cases List.mem_append.mp hother with
    | inl hold => exact h other hold
    | inr hnew =>
        rw [List.mem_singleton.mp hnew]
        exact hdays.resolve_right hmarked

theorem Inv.clearDays {s : State} (h : Inv s) {host : String} (hmarked : host ∉ s.unavailable) :
    Inv (s.clearDays host) := by
  intro other hother
  have hne : other ≠ host := fun heq => hmarked (heq ▸ hother)
  show Function.update s.days host [] other ≠ []
  rw [Function.update_of_ne hne]
  exact h other hother

theorem Inv.plainSuccess {s : State} (h : Inv s) (host : String) : Inv (s.plainSuccess host) := by
  intro other hother
  have hne : other ≠ host := of_decide_eq_true (List.mem_filter.mp hother).2
  show Function.update s.days host [] other ≠ []
  rw [Function.update_of_ne hne]
  exact h other (List.mem_filter.mp hother).1

theorem inv_trackFailureAt {s : State} (h : Inv s) (p : ℕ) (host stamp : String) {n : ℕ}
    (add insert : Outcome) : Inv (s.trackFailureAt p host stamp (n + 1) add insert).1 := by
  have hadded := h.addDay host stamp
  unfold State.trackFailureAt
  cases add with
  | refused => exact h
  | unanswered => exact hadded
  | answered =>
      dsimp only
      split
      next hmany =>
        have hdays : (s.addDay host stamp).days host ≠ [] := by
          intro hnil
          rw [hnil] at hmany
          exact absurd hmany (Nat.not_succ_le_zero n)
        cases insert with
        | refused => exact hadded
        | unanswered => exact hadded.mark (.inl hdays)
        | answered =>
            dsimp only
            split
            next => exact hadded
            next => exact (hadded.mark (.inl hdays)).of_eq rfl rfl
      next => exact hadded

theorem inv_stop {s : State} (h : Inv s) (p : ℕ) (host : String) {insert : Outcome}
    (hkeeps : insert.Done → s.days host ≠ [] ∨ host ∈ s.unavailable) :
    Inv (s.stop p host insert).1 := by
  unfold State.stop
  cases insert with
  | refused => exact h
  | unanswered => exact h.mark (hkeeps (by decide))
  | answered =>
      dsimp only
      split
      next => exact h
      next => exact (h.mark (hkeeps (by decide))).of_eq rfl rfl

theorem inv_clearFailures {s : State} (h : Inv s) (host : String) {del : Outcome}
    (hkeeps : del.Done → host ∉ s.unavailable) : Inv (s.clearFailures host del).1 := by
  unfold State.clearFailures
  cases del with
  | refused => exact h
  | unanswered => exact h.clearDays (hkeeps (by decide))
  | answered => exact h.clearDays (hkeeps (by decide))

theorem inv_restart {s : State} (h : Inv s) (p : ℕ) (host : String) {del delete : Outcome}
    (hkeeps : host ∈ s.unavailable → del = .refused ∨ del = .answered ∧ delete.Done) :
    Inv (s.restart p host del delete).1 := by
  unfold State.restart State.clearFailures
  cases del with
  | refused => exact h
  | unanswered =>
      apply h.clearDays
      intro hmarked
      cases hkeeps hmarked with
      | inl hrefused => cases hrefused
      | inr hanswered => cases hanswered.1
  | answered =>
      cases delete with
      | refused =>
          apply h.clearDays
          intro hmarked
          cases hkeeps hmarked with
          | inl hrefused => cases hrefused
          | inr hdone => exact hdone.2 rfl
      | unanswered => exact h.plainSuccess host
      | answered => exact (h.plainSuccess host).of_eq rfl rfl

theorem inv_trackSuccess {s : State} (h : Inv s) (p : ℕ) (host : String) (now : ℕ)
    {del delete : Outcome}
    (hkeeps : host ∈ s.unavailable → del = .refused ∨ del = .answered ∧ delete.Done) :
    Inv (s.trackSuccess p host now del delete).1 := by
  unfold State.trackSuccess
  cases del with
  | refused => exact h
  | unanswered =>
      apply h.clearDays
      intro hmarked
      cases hkeeps hmarked with
      | inl hrefused => cases hrefused
      | inr hanswered => cases hanswered.1
  | answered =>
      have hplain := h.plainSuccess host
      have hremembered : ∀ t : State, t.days = (s.clearDays host).days →
          t.unavailable = s.unavailable → host ∉ s.unavailable → Inv t :=
        fun t hdays hunavailable hmarked =>
          (h.clearDays hmarked).of_eq hdays hunavailable
      obtain ⟨hunavailable, hdays⟩ := s.asked p host ((s.memory p).isUnavailable now host).1
      dsimp only
      generalize (if s.days host = [] then (s.clearDays host).setMemory p
        ((s.memory p).isUnavailable now host).1 else s.clearDays host) = t at *
      have hgone : Inv (t.unmark host) := by
        apply hplain.of_eq (t := t.unmark host) hdays
        show t.unavailable.filter _ = s.unavailable.filter _
        rw [hunavailable]
      split
      next =>
        cases delete with
        | refused =>
            apply hremembered t hdays hunavailable
            intro hmarked
            cases hkeeps hmarked with
            | inl hrefused => cases hrefused
            | inr hdone => exact hdone.2 rfl
        | unanswered => exact hgone
        | answered =>
            dsimp only
            split
            next => exact hgone.of_eq rfl rfl
            next hmarked =>
              rw [hunavailable] at hmarked
              exact hremembered t hdays hunavailable hmarked
      next hasked =>
        apply hremembered t hdays hunavailable
        intro hmarked
        exact hasked (.inl (h host hmarked))

theorem inv_step {s : State} (e : ℕ × Op) (h : Inv s) (hkeeps : Keeps s e) :
    Inv (step s e) := by
  cases hop : e.2 with
  | trackFailure host day add insert =>
      simp only [step, hop]
      exact inv_trackFailureAt h e.1 host day add insert
  | trackFailureMinutes host minute add insert =>
      simp only [step, hop]
      exact inv_trackFailureAt h e.1 host minute add insert
  | trackSuccess host now del delete =>
      simp only [step, hop]
      simp only [Keeps, hop] at hkeeps
      exact inv_trackSuccess h e.1 host now hkeeps
  | restart host del delete =>
      simp only [step, hop]
      simp only [Keeps, hop] at hkeeps
      exact inv_restart h e.1 host hkeeps
  | clearFailures host del =>
      simp only [step, hop]
      simp only [Keeps, hop] at hkeeps
      exact inv_clearFailures h host hkeeps
  | stop host insert =>
      simp only [step, hop]
      simp only [Keeps, hop] at hkeeps
      exact inv_stop h e.1 host hkeeps
  | isUnavailable host now =>
      simp only [step, hop]
      exact h.of_eq rfl rfl
  | readTable select =>
      simp only [step, hop, State.readTable]
      split
      next =>
        cases select with
        | answered => exact h.of_eq rfl rfl
        | refused => exact h.of_eq rfl rfl
        | unanswered => exact h.of_eq rfl rfl
      next => exact h
  | storeTable now =>
      simp only [step, hop, State.storeTable]
      split
      next => exact h.of_eq rfl rfl
      next => exact h
  | boot =>
      simp only [step, hop]
      exact h.of_eq rfl rfl

theorem Inv.seen {s : State} (h : Inv s) (e : ℕ × Op) : Seen s e := by
  unfold Seen
  split
  next host now delete hop => exact fun hmarked => .inl (h host hmarked)
  next => trivial

/-- The successes of a run are sound where each finds its host unmarked, with failures or
remembered, and only there; and they all do in a run whose other calls keep marks and failures
together. -/
theorem successes_sound_iff (run : List (ℕ × Op)) :
    (Guarded step Sound start run ↔ Guarded step Seen start run) ∧
      (Guarded step Keeps start run → Guarded step Sound start run) := by
  have hiff : Guarded step Sound start run ↔ Guarded step Seen start run :=
    guarded_congr (P := fun _ => True) (fun _ _ _ => trivial)
      (fun s e _ => sound_iff_seen s e) start run trivial
  refine ⟨hiff, fun hkeeps => hiff.mpr ?_⟩
  exact guarded_of_invariant (fun s e h hk => inv_step e h hk) (fun s e h _ => h.seen e) start
    run Inv.start hkeeps

/-- A host that an administrator stopped deliveries to, before anything had failed. -/
theorem stopped_host_stays :
    ¬ ∀ run : List (ℕ × Op), Guarded step Sound start run := by
  intro h
  have hrun := h [(0, .stop "a.example" .answered),
    (0, .trackSuccess "a.example" 100 .answered .answered)]
  have hclean := (hrun.2.1 (by decide +kernel)).2.1
  exact hclean (by decide +kernel)

end Eunha.DeliveryFailures
