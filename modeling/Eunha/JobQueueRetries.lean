import Eunha.JobQueueLocks

/-!
# How often a job that always fails is performed

A job's lease is kept when no worker claims the job from another, and none gives
it up unfinished. Then its row, its one execution and its part of the history go
through the phases below together: the attempts the row counts are the performs
that have returned, and the last of them, once `retries_exhausted` has run, ends
the job. From any phase a worker can carry it on.
-/
namespace Eunha.JobQueue
open Runs

variable {A : Type*}

/-- The runs of a job in the history, and of its worker's `retries_exhausted`. -/
inductive JobRun where
  | performed
  | exhausted
  deriving DecidableEq

def Event.jobRun (id : ℕ) : Event A → Option JobRun
  | .performed job _ => if job.id = id then some .performed else none
  | .exhausted i => if i = id then some .exhausted else none
  | _ => none

def State.runsOf (s : State A) (id : ℕ) : List JobRun := s.history.filterMap (Event.jobRun id)

def State.executionsOf (s : State A) (id : ℕ) : List (Execution A) :=
  s.executions.filter (·.job.id = id)

/-- All the runs of a job retried `n` times that fails each time. -/
def allRuns (n : ℕ) : List JobRun := List.replicate (n + 1) .performed ++ [.exhausted]

def Execution.runs (e : Execution A) : List JobRun :=
  (if e.failed then [.performed] else []) ++ if e.exhausted then [.exhausted] else []

section
variable [DecidableEq A] [ToString A] (registered : String → Bool)

/-- A step in which the job's lease is kept, and its `perform` only fails. -/
def Steady (id : ℕ) (s : State A) : Op A → Prop
  | .claim order limit _ only => ∀ row, s.jobs id = some row → row.lockedAt.isSome →
      id ∉ (s.picked order limit only).map Prod.fst
  | .returns e result => e.job.id = id → ∃ message, result = .error message
  | .dies e => e.job.id ≠ id
  | .handBack worker => ∀ row, s.jobs id = some row → row.lockedBy ≠ some worker
  | _ => True

/-- A row of a job that has failed `a` times, and is retried `n` times. -/
structure Row.Retried (row : Row A) (n a : ℕ) : Prop where
  registered : registered row.kind = true
  maxRetries : row.maxRetries = n
  attempts : row.attempts = a
  alive : row.deadAt = none
  inRange : (n : ℤ) ≤ i32Max

/-- Its execution, which has returned an error if anything. -/
structure Execution.Retries (e : Execution A) (n a : ℕ) : Prop where
  registered : registered e.job.kind = true
  maxRetries : e.job.maxRetries = n
  attempts : e.job.attempts = a
  fails : e.returned = none ∨ e.failed = true
  last : e.exhausted = true → e.failed = true ∧ a = n

/-- The row, the executions and the runs of a job, `a` of whose performs have failed
and been recorded. -/
inductive Phase (n : ℕ) : Option (Row A) → List (Execution A) → List JobRun → Prop
  | waiting (a row) :
      a ≤ n → row.Retried registered n a → row.lockedAt = none → row.lockedBy = none →
      Phase n (some row) [] (List.replicate a .performed)
  | executing (a row e) :
      a ≤ n → row.Retried registered n a → row.lockedAt.isSome → row.lockedBy = some e.worker →
      e.Retries registered n a →
      Phase n (some row) [e] (List.replicate a .performed ++ e.runs)
  | ended (o) :
      (∀ row, o = some row → row.deadAt.isSome ∨ row.lockedAt.isSome) →
      Phase n o [] (allRuns n)

variable {registered}

/-! ### What a step does to a job's executions and runs -/

theorem filter_eq_singleton {X K : Type*} [DecidableEq K] (f : X → K) {l : List X}
    (h : (l.map f).Nodup) {x : X} (hx : x ∈ l) : l.filter (fun y => decide (f y = f x)) = [x] := by
  induction l with
  | nil => cases hx
  | cons y l ih =>
      rw [List.map_cons, List.nodup_cons] at h
      rcases List.mem_cons.mp hx with rfl | hx
      · have hnone : l.filter (fun y => decide (f y = f x)) = [] :=
          List.filter_eq_nil_iff.mpr fun y hy => by
            simpa using fun heq : f y = f x => h.1 (heq ▸ List.mem_map_of_mem hy)
        simp [hnone]
      · have hne : f y ≠ f x := fun heq => h.1 (heq ▸ List.mem_map_of_mem hx)
        simp [hne, ih h.2 hx]

omit [DecidableEq A] [ToString A] in
theorem picked_nodup (s : State A) (order : List Queue) (limit : ℕ) (only : Option ℕ) :
    ((s.picked order limit only).map Prod.fst).Nodup := by
  have hrows : (s.rows.map Prod.fst).Nodup := by
    have hsub : s.rows.map Prod.fst = (List.range s.nextId).filter fun id => (s.jobs id).isSome := by
      unfold State.rows
      induction List.range s.nextId with
      | nil => rfl
      | cons i ids ih => cases hi : s.jobs i <;> simp [hi, ih]
    exact hsub ▸ List.Nodup.filter _ List.nodup_range
  unfold State.picked
  refine List.Nodup.sublist ((List.take_sublist _ _).map _) ?_
  refine ((List.perm_insertionSort (claimedBefore order) _).map Prod.fst).nodup_iff.mpr ?_
  exact hrows.sublist (List.filter_sublist.map _)

omit [ToString A] in
theorem executionsOf_erase_of_ne (s : State A) {e : Execution A} {id : ℕ} (h : e.job.id ≠ id) :
    (s.executions.erase e).filter (fun e => decide (e.job.id = id)) = s.executionsOf id := by
  rw [← List.erase_filter, List.erase_of_not_mem]
  · rfl
  · simp [h]

omit [ToString A] in
theorem executionsOf_erase_self {s : State A} {e : Execution A} {id : ℕ}
    (h : s.executionsOf id = [e]) :
    (s.executions.erase e).filter (fun e => decide (e.job.id = id)) = [] := by
  rw [← List.erase_filter]
  change (s.executionsOf id).erase e = []
  simp [h]

omit [DecidableEq A] [ToString A] in
theorem mem_executionsOf {s : State A} {e : Execution A} (he : e ∈ s.executions) :
    e ∈ s.executionsOf e.job.id :=
  List.mem_filter.mpr ⟨he, by simp⟩

variable (registered) in
theorem runsOf_step {s : State A} (hs : Fresh s) (op : Op A) (id : ℕ)
    (hreturns : ∀ e result, op ≠ .returns e result) (hexhaust : ∀ e, op ≠ .exhaust e) :
    (step registered s op).runsOf id = s.runsOf id := by
  obtain ⟨new, hnew, hevents⟩ := history_step registered hs op
  have hquiet : new.filterMap (Event.jobRun id) = [] := by
    refine List.filterMap_eq_nil_iff.mpr fun event hevent => ?_
    cases hevents event hevent with
    | performed e result => exact (hreturns e result rfl).elim
    | exhausted e => exact (hexhaust e rfl).elim
    | _ => rfl
  simp only [State.runsOf, hnew, List.filterMap_append, hquiet, List.append_nil]

/-! ### From phase to phase -/

section
variable {s : State A} {id n : ℕ}

omit [DecidableEq A] in
theorem Phase.of_rowStep {op : Op A} {before after : Option (Row A)} {es : List (Execution A)}
    {rs : List JobRun} (h : Phase registered n before es rs)
    (hstep : RowStep registered s id op before after) (hid : id < s.nextId)
    (hclaim : ∀ order limit worker only, op ≠ .claim order limit worker only)
    (hrecord : ∀ e delay, op ≠ .record e delay)
    (hback : ∀ worker row, op = .handBack worker → before = some row →
      row.lockedBy ≠ some worker) :
    Phase registered n after es rs := by
  cases hstep with
  | same => exact h
  | inserted _ _ _ _ hnext => omega
  | bulkInserted _ _ _ _ hnext => omega
  | expired key row =>
      cases h with
      | waiting a _ ha hrow hat hby => exact .waiting a _ ha ⟨hrow.1, hrow.2, hrow.3, hrow.4, hrow.5⟩ hat hby
      | executing a _ e ha hrow hat hby he =>
          exact .executing a _ e ha ⟨hrow.1, hrow.2, hrow.3, hrow.4, hrow.5⟩ hat hby he
      | ended _ hend => exact .ended _ fun _ heq => by cases heq; exact hend row rfl
  | claimed order limit worker only => exact (hclaim order limit worker only rfl).elim
  | renewed e row he hid hl =>
      cases h with
      | waiting a _ ha hrow hat hby => cases hby.symm.trans hl
      | executing a _ e ha hrow hat hby he =>
          exact .executing a _ e ha ⟨hrow.1, hrow.2, hrow.3, hrow.4, hrow.5⟩ rfl hby he
      | ended => exact .ended _ fun _ heq => by cases heq; exact .inr rfl
  | recorded e delay => exact (hrecord e delay rfl).elim
  | handedBack worker row hl => exact (hback worker row rfl rfl hl).elim
  | pruned op row hop hdead =>
      cases h with
      | waiting a _ ha hrow => rw [hrow.alive] at hdead; cases hdead
      | executing a _ e ha hrow => rw [hrow.alive] at hdead; cases hdead
      | ended => exact .ended _ fun _ heq => by cases heq

def InPhase (registered : String → Bool) (n id : ℕ) (s : State A) : Prop :=
  Phase registered n (s.jobs id) (s.executionsOf id) (s.runsOf id)

theorem InPhase.claim (h : Tracked s) (hp : InPhase registered n id s) {order : List Queue}
    {limit : ℕ} {worker : String} {only : Option ℕ}
    (hsteady : Steady id s (.claim order limit worker only)) :
    InPhase registered n id (step registered s (.claim order limit worker only)) := by
  have hruns := runsOf_step registered h.fresh (.claim order limit worker only) id
    (by simp) (by simp)
  unfold InPhase at hp ⊢
  rw [hruns]
  simp only [step, State.claim, State.executionsOf, List.filter_append, List.filter_map,
    Function.comp_def, Row.claimed]
  by_cases hpicked : id ∈ (s.picked order limit only).map Prod.fst
  · obtain ⟨⟨id, row⟩, hr, rfl⟩ := List.mem_map.mp hpicked
    obtain ⟨hrow, hclaimable⟩ := of_mem_picked hr
    have hfree : row.lockedAt = none := by
      by_contra hlocked
      exact hsteady row hrow (Option.isSome_iff_ne_none.mpr hlocked) hpicked
    rw [if_pos hpicked, filter_eq_singleton Prod.fst (picked_nodup s order limit only) hr]
    rw [hrow] at hp ⊢
    change Phase registered n (some (row.claim s.now worker)) (s.executionsOf id ++ [_]) _
    generalize s.executionsOf id = es at hp ⊢
    generalize s.runsOf id = rs at hp ⊢
    cases hp with
    | waiting a _ ha hretried =>
        have hnew : (⟨worker, row.claimed id, none, false⟩ : Execution A).Retries registered n a :=
          ⟨hretried.1, hretried.2, hretried.3, .inl rfl, by simp⟩
        have hphase := Phase.executing a (row.claim s.now worker) _ ha
          ⟨hretried.1, hretried.2, hretried.3, hretried.4, hretried.5⟩ rfl rfl hnew
        simpa [Execution.runs, Execution.failed, Row.claimed] using hphase
    | executing a _ e ha hretried hat => rw [hfree] at hat; cases hat
    | ended _ hend =>
        rcases hend row rfl with hdead | hat
        · rw [(claimable_iff.mp hclaimable).1] at hdead; cases hdead
        · rw [hfree] at hat; cases hat
  · rw [if_neg hpicked]
    have hnone : (s.picked order limit only).filter (fun r => decide (r.1 = id)) = [] :=
      List.filter_eq_nil_iff.mpr fun r hr => by
        simpa using fun heq : r.1 = id => hpicked (heq ▸ List.mem_map_of_mem hr)
    rw [hnone, List.map_nil, List.append_nil]
    exact hp

theorem InPhase.returns (hp : InPhase registered n id s) {e : Execution A} {result : Result}
    (hsteady : Steady id s (.returns e result)) :
    InPhase registered n id (step registered s (.returns e result)) := by
  unfold InPhase at hp ⊢
  simp only [step, State.returns]
  split_ifs with hvalid
  · obtain ⟨he, -, hreturned⟩ := hvalid
    by_cases hjob : e.job.id = id
    · subst hjob
      have hmem := mem_executionsOf he
      obtain ⟨message, rfl⟩ := hsteady rfl
      simp only [State.executionsOf, State.runsOf, List.filterMap_append] at hp hmem ⊢
      generalize hes : s.executions.filter (fun e' => decide (e'.job.id = e.job.id)) = es at hp hmem
      generalize s.history.filterMap (Event.jobRun e.job.id) = rs at hp ⊢
      generalize s.jobs e.job.id = o at hp ⊢
      cases hp with
      | waiting => cases hmem
      | executing a row e₀ ha hrow hat hby hretries =>
          obtain rfl := List.mem_singleton.mp hmem
          have hnone := Option.isNone_iff_eq_none.mp hreturned
          have hfailed : e.failed = false := by simp [Execution.failed, hnone]
          have hexhausted : e.exhausted = false := by
            by_contra h
            simp [(hretries.last (by simpa using h)).1] at hfailed
          have hnew : ({ e with returned := some (.error message) } : Execution A).Retries
              registered n a :=
            ⟨hretries.1, hretries.2, hretries.3, .inr rfl, by simp [hexhausted]⟩
          have hphase := Phase.executing a row
            { e with returned := some (.error message) } ha hrow hat hby hnew
          rw [List.filter_cons_of_pos (by simp), executionsOf_erase_self hes]
          simpa [Execution.runs, Execution.failed, hnone, hexhausted, Event.jobRun] using hphase
      | ended => cases hmem
    · have herase := executionsOf_erase_of_ne s hjob
      simp only [State.executionsOf, State.runsOf, List.filterMap_append] at hp herase ⊢
      rw [List.filter_cons_of_neg (by simpa using hjob), herase]
      simpa [Event.jobRun, hjob] using hp
  · exact hp

theorem InPhase.exhaust (hp : InPhase registered n id s) (e : Execution A) :
    InPhase registered n id (step registered s (.exhaust e)) := by
  unfold InPhase at hp ⊢
  simp only [step, State.exhaust]
  split_ifs with hvalid
  · obtain ⟨he, hfailed, hout, hexhausted⟩ := hvalid
    by_cases hjob : e.job.id = id
    · subst hjob
      have hmem := mem_executionsOf he
      simp only [State.executionsOf, State.runsOf, List.filterMap_append] at hp hmem ⊢
      generalize hes : s.executions.filter (fun e' => decide (e'.job.id = e.job.id)) = es at hp hmem
      generalize s.history.filterMap (Event.jobRun e.job.id) = rs at hp ⊢
      generalize s.jobs e.job.id = o at hp ⊢
      cases hp with
      | waiting => cases hmem
      | executing a row e₀ ha hrow hat hby hretries =>
          obtain rfl := List.mem_singleton.mp hmem
          have hlast : a = n := by
            have hmax := hretries.maxRetries
            have hattempts := hretries.attempts
            simp only [Claimed.outOfRetries, decide_eq_true_eq] at hout
            omega
          have hnew : ({ e with exhausted := true } : Execution A).Retries registered n a :=
            ⟨hretries.1, hretries.2, hretries.3, .inr hfailed, fun _ => ⟨hfailed, hlast⟩⟩
          have hphase := Phase.executing a row { e with exhausted := true }
            ha hrow hat hby hnew
          have hfailed' : ({ e with exhausted := true } : Execution A).failed = true := hfailed
          rw [List.filter_cons_of_pos (by simp), executionsOf_erase_self hes]
          simpa [Execution.runs, hfailed, hfailed', hexhausted, Event.jobRun] using hphase
      | ended => cases hmem
    · have herase := executionsOf_erase_of_ne s hjob
      simp only [State.executionsOf, State.runsOf, List.filterMap_append] at hp herase ⊢
      rw [List.filter_cons_of_neg (by simpa using hjob), herase]
      simpa [Event.jobRun, hjob] using hp
  · exact hp

omit [DecidableEq A] [ToString A] in
theorem Phase.of_statement {a now delay : ℕ} {row : Row A} {e : Execution A} {statement : Statement}
    (ha : a ≤ n) (hrow : row.Retried registered n a) (hat : row.lockedAt.isSome)
    (he : e.Retries registered n a) (hstatement : e.statement registered delay = some statement) :
    Phase registered n (statement.run now row) [] (List.replicate a .performed ++ e.runs) := by
  have hall : ∀ (hf : e.failed = true) (hx : e.exhausted = true),
      List.replicate a .performed ++ e.runs = allRuns n := by
    intro hf hx
    rw [(he.last hx).2]
    simp [Execution.runs, hf, hx, allRuns, List.replicate_succ']
  have hmax := he.maxRetries
  have hattempts := he.attempts
  rcases e with ⟨worker, job, returned, exhausted⟩
  rcases returned with _ | _ | _ | message
  · simp [Execution.statement, he.registered] at hstatement
  · simpa [Execution.failed] using he.fails
  · simpa [Execution.failed] using he.fails
  · have hretried : ¬job.maxRetries < 0 := by
      simp only at hmax
      omega
    simp only [Execution.statement, he.registered, not_true_eq_false, if_false, hretried]
      at hstatement
    split_ifs at hstatement with hout hexhausted hkeep
    · rw [hall rfl (by simpa using hexhausted)]
      cases hstatement
      refine .ended _ fun row' hrow' => ?_
      simp only [Statement.run] at hrow'
      split_ifs at hrow' <;> cases hrow'
      · exact .inl rfl
      · exact .inr hat
    · rw [hall rfl (by simpa using hexhausted)]
      cases hstatement
      exact .ended _ fun row' hrow' => by cases hrow'
    · have hlt : a < n := by
        simp only at hmax hattempts
        simp only [Claimed.outOfRetries, decide_eq_true_eq] at hout
        omega
      have hexhausted : exhausted = false := by
        by_contra hx
        have := (he.last (by simpa using hx)).2
        omega
      cases hstatement
      have hrange := hrow.inRange
      have hcount := hrow.attempts
      rw [show List.replicate a .performed ++
          Execution.runs ⟨worker, job, some (.error message), exhausted⟩ =
          List.replicate (a + 1) JobRun.performed by
        simp [Execution.runs, Execution.failed, hexhausted, List.replicate_succ']]
      simp only [Statement.run]
      rw [if_pos (by omega)]
      refine .waiting (a + 1) _ hlt ⟨hrow.1, hrow.2, ?_, hrow.4, hrow.5⟩ rfl rfl
      simp only
      push_cast
      omega

theorem InPhase.record (hp : InPhase registered n id s) (h : Tracked s) (e : Execution A)
    (delay : ℕ) : InPhase registered n id (step registered s (.record e delay)) := by
  have hruns := runsOf_step registered h.fresh (.record e delay) id
    (by simp) (by simp)
  unfold InPhase at hp ⊢
  rw [hruns]
  simp only [step, State.record]
  split
  · next statement hstatement =>
      split_ifs with he
      · by_cases hjob : e.job.id = id
        · subst hjob
          have hmem := mem_executionsOf he
          simp only [State.executionsOf, update_jobs, if_true] at hp hmem ⊢
          generalize hes : s.executions.filter (fun e' => decide (e'.job.id = e.job.id)) = es
            at hp hmem
          generalize s.runsOf e.job.id = rs at hp ⊢
          generalize s.jobs e.job.id = o at hp ⊢
          cases hp with
          | waiting => cases hmem
          | executing a row e₀ ha hrow hat hby hretries =>
              obtain rfl := List.mem_singleton.mp hmem
              rw [executionsOf_erase_self hes]
              exact Phase.of_statement ha hrow hat hretries hstatement
          | ended => cases hmem
        · have herase := executionsOf_erase_of_ne s hjob
          simp only [State.executionsOf, update_jobs, if_neg (Ne.symm hjob)] at hp herase ⊢
          rwa [herase]
      · exact hp
  · exact hp

omit [DecidableEq A] [ToString A] in
theorem Phase.held {o : Option (Row A)} {es : List (Execution A)} {rs : List JobRun}
    (h : Phase registered n o es rs) {e : Execution A} (he : e ∈ es) :
    ∃ row, o = some row ∧ row.lockedBy = some e.worker := by
  cases h with
  | waiting => cases he
  | executing a row e₀ ha hrow hat hby => exact ⟨row, rfl, List.mem_singleton.mp he ▸ hby⟩
  | ended => cases he

theorem InPhase.of_executions (hp : InPhase registered n id s) (h : Tracked s)
    (hid : id < s.nextId) (op : Op A)
    (hexecutions : (step registered s op).executions = s.executions)
    (hclaim : ∀ order limit worker only, op ≠ .claim order limit worker only)
    (hreturns : ∀ e result, op ≠ .returns e result) (hexhaust : ∀ e, op ≠ .exhaust e)
    (hrecord : ∀ e delay, op ≠ .record e delay) (hback : ∀ worker, op ≠ .handBack worker) :
    InPhase registered n id (step registered s op) := by
  have hrow := step_row registered h.fresh op id
  unfold InPhase State.executionsOf at hp ⊢
  rw [hexecutions, runsOf_step registered h.fresh op id hreturns hexhaust]
  exact hp.of_rowStep hrow hid hclaim hrecord fun worker _ hop => (hback worker hop).elim

theorem InPhase.handBack (hp : InPhase registered n id s) (h : Tracked s) (hid : id < s.nextId)
    {worker : String} (hsteady : Steady id s (.handBack worker)) :
    InPhase registered n id (step registered s (.handBack worker)) := by
  have hrow := step_row registered h.fresh (.handBack worker) id
  have hphase := hp.of_rowStep hrow hid (by simp) (by simp) fun w row hop hjob => by
    cases hop
    exact hsteady row hjob
  have hkept : (step registered s (.handBack worker)).executionsOf id = s.executionsOf id := by
    simp only [step, State.handBack, State.executionsOf]
    rw [List.filter_filter, List.filter_congr fun e _ => Bool.and_comm _ _, ← List.filter_filter]
    refine List.filter_eq_self.mpr fun e he => ?_
    obtain ⟨row, hjob, hby⟩ := hp.held he
    simpa using fun hw : e.worker = worker => hsteady row hjob (hw ▸ hby)
  unfold InPhase
  rw [hkept]
  exact hphase

theorem InPhase.step (hp : InPhase registered n id s) (h : Tracked s) (hid : id < s.nextId)
    (op : Op A) (hsteady : Steady id s op) : InPhase registered n id (step registered s op) := by
  cases op with
  | claim order limit worker only => exact hp.claim h hsteady
  | returns e result => exact hp.returns hsteady
  | exhaust e => exact hp.exhaust e
  | record e delay => exact hp.record h e delay
  | dies e =>
      have herase := executionsOf_erase_of_ne s hsteady
      unfold InPhase at hp ⊢
      simp only [JobQueue.step, State.dies, State.executionsOf, State.runsOf] at hp herase ⊢
      rwa [herase]
  | handBack worker => exact hp.handBack h hid hsteady
  | insert kind options args delay =>
      refine hp.of_executions h hid _ ?_ (by simp) (by simp) (by simp) (by simp) (by simp)
      simp only [JobQueue.step, State.insert]
      split_ifs <;> rfl
  | performBulk kind options argss =>
      refine hp.of_executions h hid _ ?_ (by simp) (by simp) (by simp) (by simp) (by simp)
      simp only [JobQueue.step, State.performBulk]
      split_ifs
      · rfl
      · exact performBulk_executions s.now kind options argss s
  | heartbeat e =>
      refine hp.of_executions h hid _ ?_ (by simp) (by simp) (by simp) (by simp) (by simp)
      simp only [JobQueue.step, State.heartbeat]
      split_ifs <;> rfl
  | _ => exact hp.of_executions h hid _ rfl (by simp) (by simp) (by simp) (by simp) (by simp)

/-! ### The first phase and the last -/

omit [ToString A] in
theorem mem_newEvents_executions {op : Op A} [ToString A] {kind : String} {args : A}
    {options : Options} {due : ℕ}
    (h : NewEvent registered s op (.accepted id kind args options due)) :
    (step registered s op).executions = s.executions := by
  cases h with
  | inserted =>
      simp only [JobQueue.step, State.insert]
      split_ifs <;> rfl
  | bulkInserted kind options argss =>
      simp only [JobQueue.step, State.performBulk]
      split_ifs
      · rfl
      · exact performBulk_executions s.now kind options argss s

theorem inPhase_of_accepted (h : Tracked s) {op : Op A} {kind : String} {args : A}
    {options : Options} {due : ℕ} (hkind : registered kind = true)
    (hn : (retryColumns options).1 = n)
    (hnew : NewEvent registered s op (.accepted id kind args options due)) :
    InPhase registered n id (step registered s op) := by
  have hexecutions := mem_newEvents_executions hnew
  have hle : s.nextId ≤ id := by
    cases hnew with
    | inserted => exact le_rfl
    | bulkInserted _ _ _ _ _ _ hle => exact hle
  have hes : (step registered s op).executionsOf id = [] := by
    rw [State.executionsOf, hexecutions]
    refine List.filter_eq_nil_iff.mpr fun e he => ?_
    have := h.issued e he
    simp
    omega
  have hrs : (step registered s op).runsOf id = [] := by
    rw [runsOf_step registered h.fresh op id (by rintro e r rfl; cases hnew) (by rintro e rfl; cases hnew)]
    refine List.filterMap_eq_nil_iff.mpr fun event hevent => ?_
    have hlt := (h.past event hevent).trans_le hle
    cases event with
    | performed job result => exact if_neg hlt.ne
    | exhausted i => exact if_neg hlt.ne
    | _ => rfl
  have hrange : (n : ℤ) ≤ i32Max := hn ▸ (retryColumns_bounds options).2
  unfold InPhase
  rw [hes, hrs]
  cases hnew with
  | inserted _ _ _ delay _ hrow =>
      rw [hrow]
      exact .waiting 0 _ (Nat.zero_le n) ⟨hkind, hn, rfl, rfl, hrange⟩ rfl rfl
  | bulkInserted _ _ argss _ _ _ _ _ hrow =>
      rw [hrow]
      exact .waiting 0 _ (Nat.zero_le n) ⟨hkind, hn, rfl, rfl, hrange⟩ rfl rfl

omit [DecidableEq A] [ToString A] in
theorem Phase.runs_prefix {o : Option (Row A)} {es : List (Execution A)} {rs : List JobRun}
    (h : Phase registered n o es rs) : rs <+: allRuns n := by
  have hreplicate : ∀ a ≤ n + 1, List.replicate a JobRun.performed <+: allRuns n := by
    intro a ha
    refine List.IsPrefix.trans ?_ (List.prefix_append _ _)
    exact List.prefix_iff_eq_take.mpr (by simp [List.take_replicate, ha])
  cases h with
  | waiting a row ha => exact hreplicate a (by omega)
  | executing a row e ha hrow hat hby he =>
      cases hx : e.exhausted with
      | true =>
          obtain ⟨hf, rfl⟩ := he.last hx
          simp [Execution.runs, hf, hx, allRuns, List.replicate_succ']
      | false =>
          cases hf : e.failed with
          | true =>
              have := hreplicate (a + 1) (by omega)
              simpa [Execution.runs, hf, hx, List.replicate_succ'] using this
          | false => simpa [Execution.runs, hf, hx] using hreplicate a (by omega)
  | ended => exact List.prefix_rfl

omit [DecidableEq A] [ToString A] in
theorem Phase.runs_of_ended {o : Option (Row A)} {es : List (Execution A)} {rs : List JobRun}
    (h : Phase registered n o es rs) (ho : ∀ row, o = some row → row.deadAt.isSome) :
    rs = allRuns n := by
  cases h with
  | waiting a row ha hrow =>
      have := ho row rfl
      rw [hrow.alive] at this
      cases this
  | executing a row e ha hrow =>
      have := ho row rfl
      rw [hrow.alive] at this
      cases this
  | ended => rfl

/-! ### Carrying a job on -/

omit [DecidableEq A] [ToString A] in
theorem mem_picked_of_claimable {row : Row A} {order : List Queue} {limit : ℕ} {only : Option ℕ}
    (hid : id < s.nextId) (hrow : s.jobs id = some row)
    (hclaimable : claimable s.now only id row = true) (hlimit : s.nextId ≤ limit) :
    (id, row) ∈ s.picked order limit only := by
  unfold State.picked
  rw [List.take_of_length_le]
  · rw [List.mem_insertionSort, List.mem_filter]
    exact ⟨mem_rows.mpr ⟨hid, hrow⟩, hclaimable⟩
  · rw [List.length_insertionSort]
    refine (List.length_filter_le _ _).trans ((List.length_filterMap_le _ _).trans ?_)
    rwa [List.length_range]

theorem exists_run_of_waiting {row : Row A} (hid : id < s.nextId) (hrow : s.jobs id = some row)
    (hkind : registered row.kind = true) (hdead : row.deadAt = none) (hat : row.lockedAt = none) :
    ∃ more, Guarded (step registered) (Steady id) s more ∧
      (run (step registered) s more).runsOf id = s.runsOf id ++ [.performed] := by
  let claim : Op A := .claim [] s.nextId "worker" none
  let e : Execution A := ⟨"worker", row.claimed id, none, false⟩
  refine ⟨[.tick row.runAt, claim, .returns e (.error "")], ⟨trivial, ?_, ?_, trivial⟩, ?_⟩
  · intro row' hrow' hlocked
    cases hrow.symm.trans hrow'
    rw [hat] at hlocked
    cases hlocked
  · exact fun _ => ⟨_, rfl⟩
  · have hpicked : (id, row) ∈ ({ s with now := s.now + row.runAt } : State A).picked [] s.nextId
        none := by
      refine mem_picked_of_claimable hid hrow (claimable_iff.mpr ⟨hdead, by simp, ?_, ?_⟩) le_rfl
      · exact .inr (Nat.le_add_left _ _)
      · simp [hat]
    have he : e ∈ (step registered (step registered s (.tick row.runAt)) claim).executions :=
      List.mem_append_right _ (List.mem_map_of_mem hpicked)
    have hvalid : e ∈ (step registered (step registered s (.tick row.runAt)) claim).executions ∧
        registered e.job.kind = true ∧ e.returned.isNone = true := ⟨he, hkind, rfl⟩
    change (State.returns registered _ e (.error "")).runsOf id = _
    rw [State.returns, if_pos hvalid]
    simp only [State.runsOf, List.filterMap_append]
    congr 1
    simp [Event.jobRun, e, Row.claimed]

theorem exists_more_runs (h : Tracked s) (hid : id < s.nextId) (hp : InPhase registered n id s)
    (hleft : s.runsOf id ≠ allRuns n) :
    ∃ more, Guarded (step registered) (Steady id) s more ∧
      ∃ jobRun, (run (step registered) s more).runsOf id = s.runsOf id ++ [jobRun] := by
  unfold InPhase at hp
  generalize hrow : s.jobs id = o at hp
  generalize hes : s.executionsOf id = es at hp
  generalize hrs : s.runsOf id = rs at hp hleft
  cases hp with
  | waiting a row ha hretried hat hby =>
      obtain ⟨more, hmore, hruns⟩ := exists_run_of_waiting hid hrow hretried.registered hretried.alive hat
      exact ⟨more, hmore, _, hrs ▸ hruns⟩
  | executing a row e ha hretried hat hby he =>
      obtain ⟨hmem, hjob⟩ := List.mem_filter.mp (hes ▸ List.mem_singleton_self e :
        e ∈ s.executionsOf id)
      have hjob : e.job.id = id := by simpa using hjob
      rcases he.fails with hnone | hfailed
      · -- The execution is performing.
        refine ⟨[.returns e (.error "")], ⟨fun _ => ⟨_, rfl⟩, trivial⟩, .performed, ?_⟩
        change (State.returns registered s e (.error "")).runsOf id = _
        rw [State.returns, if_pos ⟨hmem, he.registered, by simp [hnone]⟩, ← hrs]
        simp [State.runsOf, Event.jobRun, hjob]
      · have hexhausted : e.exhausted = false := by
          by_contra hx
          have hx : e.exhausted = true := by simpa using hx
          refine hleft ?_
          rw [(he.last hx).2]
          simp [Execution.runs, hfailed, hx, allRuns, List.replicate_succ']
        by_cases hout : e.job.outOfRetries = true
        · -- It has failed for the last time.
          refine ⟨[.exhaust e], ⟨trivial, trivial⟩, .exhausted, ?_⟩
          change (State.exhaust s e).runsOf id = _
          rw [State.exhaust, if_pos ⟨hmem, hfailed, hout, by simp [hexhausted]⟩, ← hrs]
          simp [State.runsOf, Event.jobRun, hjob]
        · -- It is rescheduled, and the job waits again.
          have hstatement : ∃ message, e.statement registered 0 = some (.reschedule 0 message) := by
            have hretried : ¬e.job.maxRetries < 0 := by
              have := he.maxRetries
              omega
            unfold Execution.failed at hfailed
            split at hfailed
            · next message hreturned =>
                exact ⟨message, by simp [Execution.statement, he.registered, hreturned, hretried, hout]⟩
            · cases hfailed
          obtain ⟨message, hstatement⟩ := hstatement
          have hlt : a < n := by
            have hmax := he.maxRetries
            have hattempts := he.attempts
            simp only [Claimed.outOfRetries, decide_eq_true_eq] at hout
            omega
          have hrow' : (step registered s (.record e 0)).jobs id = some { row with
              attempts := row.attempts + 1
              runAt := s.now + 0
              lockedAt := none
              lockedBy := none
              lastError := some message
              failedAt := some s.now } := by
            have hrange := hretried.inRange
            have hcount := hretried.attempts
            simp only [step, State.record, hstatement, if_pos hmem, update_jobs, hjob, if_true, hrow,
              Option.bind_some, Statement.run]
            rw [if_pos (by omega)]
          have hruns' : (step registered s (.record e 0)).runsOf id = s.runsOf id :=
            runsOf_step registered h.fresh _ id (by simp) (by simp)
          obtain ⟨more, hmore, hruns⟩ := exists_run_of_waiting
            (hid.trans_le (nextId_le_step registered s (.record e 0))) hrow' hretried.registered hretried.alive rfl
          exact ⟨.record e 0 :: more, ⟨trivial, hmore⟩, _, by rw [run_cons, hruns, hruns', hrs]⟩
  | ended => exact (hleft rfl).elim

theorem exists_all_runs (k : ℕ) {s : State A} (h : Tracked s) (hid : id < s.nextId)
    (hp : InPhase registered n id s) (hk : (allRuns n).length ≤ (s.runsOf id).length + k) :
    ∃ more, Guarded (step registered) (Steady id) s more ∧
      (run (step registered) s more).runsOf id = allRuns n := by
  induction k generalizing s with
  | zero => exact ⟨[], trivial, hp.runs_prefix.eq_of_length_le hk⟩
  | succ k ih =>
      by_cases hdone : s.runsOf id = allRuns n
      · exact ⟨[], trivial, hdone⟩
      · obtain ⟨more, hmore, jobRun, hruns⟩ := exists_more_runs h hid hp hdone
        obtain ⟨h', hid', hp'⟩ := run_guarded
          (P := fun s => Tracked s ∧ id < s.nextId ∧ InPhase registered n id s)
          (fun s op hs hop => ⟨hs.1.step op, hs.2.1.trans_le (nextId_le_step registered s op),
            hs.2.2.step hs.1 hs.2.1 op hop⟩) s more ⟨h, hid, hp⟩ hmore
        obtain ⟨rest, hrest, hall⟩ := ih h' hid' hp' (by rw [hruns]; simp; omega)
        exact ⟨more ++ rest, (guarded_append s more rest).mpr ⟨hmore, hrest⟩, by
          rw [run_append, hall]⟩

theorem inPhase_after (ops : List (Op A)) (hg : Guarded (step registered) (Steady id) .empty ops)
    {kind : String} {args : A} {options : Options} {due : ℕ}
    (hmem : .accepted id kind args options due ∈ (after registered ops).history)
    (hkind : registered kind = true) (hn : (retryColumns options).1 = n) :
    InPhase registered n id (after registered ops) := by
  refine (run_guarded (P := fun s => Tracked s ∧
    (.accepted id kind args options due ∈ s.history → InPhase registered n id s))
    ?_ .empty ops ⟨tracked_after registered [], ?_⟩ hg).2 hmem
  · rintro s op ⟨h, hp⟩ hsteady
    refine ⟨h.step op, fun hmem => ?_⟩
    obtain ⟨new, hhistory, hnew⟩ := history_step registered h.fresh op
    rw [hhistory, List.mem_append] at hmem
    rcases hmem with hmem | hmem
    · exact (hp hmem).step h (h.past _ hmem) op hsteady
    · exact inPhase_of_accepted h hkind hn (hnew _ hmem)
  · intro hmem
    cases hmem

end

variable (registered) in
/-- In every run, an accepted job leaves the table only once it came out well, was
discarded or failed for good, or as one of the dead; one that always fails and whose
lease is kept makes its runs in order, all of them by the time it is dead or gone, and
can always be carried on to the last; and no two jobs not dead hold the same lock
until executed. -/
theorem queue_keeps_jobs (ops : List (Op A)) :
    (∀ id kind args options due,
      .accepted id kind args options due ∈ (after registered ops).history →
      (after registered ops).jobs id = none →
      ∃ pre op post row, ops = pre ++ op :: post ∧ (after registered pre).jobs id = some row ∧
        Leaves (after registered pre) id row op) ∧
    (∀ id kind args options due (n : ℕ),
      .accepted id kind args options due ∈ (after registered ops).history →
      registered kind = true → (retryColumns options).1 = n →
      Guarded (step registered) (Steady id) .empty ops →
      (after registered ops).runsOf id <+: allRuns n ∧
      ((∀ row, (after registered ops).jobs id = some row → row.deadAt.isSome) →
        (after registered ops).runsOf id = allRuns n) ∧
      ∃ more, Guarded (step registered) (Steady id) .empty (ops ++ more) ∧
        (after registered (ops ++ more)).runsOf id = allRuns n) ∧
    (∀ i j kind args options options' due due' ttl ttl' rowi rowj,
      .accepted i kind args options due ∈ (after registered ops).history →
      .accepted j kind args options' due' ∈ (after registered ops).history →
      options'.queue = options.queue →
      options.lock = .untilExecuted ttl → options'.lock = .untilExecuted ttl' →
      (after registered ops).now < due + ttl → (after registered ops).now < due' + ttl' →
      (after registered ops).jobs i = some rowi → (after registered ops).jobs j = some rowj →
      rowi.deadAt = none → rowj.deadAt = none → i = j) := by
  have h := tracked_after registered ops
  refine ⟨fun id kind args options due hmem hgone => left_of_accepted ops hmem hgone, ?_, ?_⟩
  · intro id kind args options due n hmem hkind hn hg
    have hp := inPhase_after ops hg hmem hkind hn
    refine ⟨hp.runs_prefix, hp.runs_of_ended, ?_⟩
    obtain ⟨more, hmore, hall⟩ := exists_all_runs _ h (h.past _ hmem) hp (Nat.le_add_left _ _)
    refine ⟨more, (guarded_append _ ops more).mpr ⟨hg, hmore⟩, ?_⟩
    rw [after, run_append]
    exact hall
  · intro i j kind args options options' due due' ttl ttl' rowi rowj hi hj hqueue hlocki hlockj
      hti htj hrowi hrowj hdeadi hdeadj
    exact (locks_after ops).exclusive hi hj hqueue hlocki hlockj hti htj hrowi hrowj hdeadi hdeadj

end

/-- A job run once, and forgotten when it fails: it leaves the table, and has made its
two runs. Before, it holds its lock. -/
theorem queue_keeps_jobs_single :
    let registered := fun _ : String => true
    let options : Options := ⟨.default, .count 0, false, .untilExecuted second⟩
    let e : Execution String := ⟨"a", ⟨0, "Worker", "[1]", 0, 0, false⟩, none, false⟩
    let failed := { e with returned := some (.error "timed out") }
    let ops := [.insert "Worker" options "[1]" 0, .claim [.default] 1 "a" none,
      .returns e (.error "timed out"), .exhaust failed, .record { failed with exhausted := true } 0]
    (∃ pre op post row, ops = pre ++ op :: post ∧ (after registered pre).jobs 0 = some row ∧
      Leaves (after registered pre) 0 row op) ∧
    (after registered ops).runsOf 0 = [.performed, .exhausted] ∧
    (0 : ℕ) = 0 := by
  intro registered options e failed ops
  have hmem : Event.accepted 0 "Worker" "[1]" options 0 ∈ (after registered ops).history := by
    decide +kernel
  have hgone : (after registered ops).jobs 0 = none :=
    Option.isNone_iff_eq_none.mp (by decide +kernel)
  have hsteady : Guarded (step registered) (Steady 0) .empty ops := by
    refine ⟨trivial, fun row hrow hlocked => ?_, fun _ => ⟨_, rfl⟩, trivial, trivial, trivial⟩
    have hfree : ((after registered (ops.take 1)).jobs 0).all (·.lockedAt.isNone) = true := by
      decide +kernel
    have hfree := (Option.all_eq_true _ _).mp hfree row hrow
    simp [Option.isNone_iff_eq_none.mp hfree] at hlocked
  have hjob : ∃ row, (after registered (ops.take 1)).jobs 0 = some row ∧ row.deadAt = none := by
    have hqueued : ((after registered (ops.take 1)).jobs 0).map Row.deadAt = some none := by
      decide +kernel
    exact Option.map_eq_some_iff.mp hqueued
  obtain ⟨row, hrow, hdead⟩ := hjob
  refine ⟨(queue_keeps_jobs registered ops).1 0 _ _ _ _ hmem hgone, ?_, ?_⟩
  · refine ((queue_keeps_jobs registered ops).2.1 0 _ _ _ _ 0 hmem rfl rfl hsteady).2.1 fun row hrow => ?_
    cases hgone.symm.trans hrow
  · exact (queue_keeps_jobs registered (ops.take 1)).2.2 0 0 "Worker" "[1]" options
      options 0 0 second second row row (by decide +kernel) (by decide +kernel) rfl rfl rfl
      (by decide +kernel) (by decide +kernel) hrow hrow hdead hdead

end Eunha.JobQueue
