import Eunha.Runs
import Mathlib.Data.List.Sort
import Mathlib.Logic.Function.Basic

/-!
# The job queue

The table of queued jobs, the executions its workers have in flight, and the
statements that join them. Each statement is one atomic step; time passes in
steps of its own, and a worker that stops renewing a lease is one that takes no
step for that long. Times and durations are whole microseconds.

What `perform` returns and what `retry_delay` draws are part of the step that
uses them. The history is no column of the table: it records what the claims
about whole runs speak of.
-/
namespace Eunha.JobQueue
open Runs

/-! ### Options -/

inductive Queue where
  | default
  | push
  | ingress
  | mailers
  | pull
  | scheduler
  | fasp
  deriving DecidableEq, Repr

def Queue.name : Queue → String
  | .default => "default"
  | .push => "push"
  | .ingress => "ingress"
  | .mailers => "mailers"
  | .pull => "pull"
  | .scheduler => "scheduler"
  | .fasp => "fasp"

inductive Retry where
  | count (n : ℕ)
  | never
  deriving DecidableEq, Repr

inductive Lock where
  | none
  | untilExecuted (ttl : ℕ)
  | untilExecuting (ttl : ℕ)
  deriving DecidableEq, Repr

structure Options where
  queue : Queue
  retry : Retry
  dead : Bool
  lock : Lock
  deriving DecidableEq, Repr

/-- `i32::MAX`, the most an `INTEGER` holds. -/
def i32Max : ℤ := 2147483647

/-- The stored `max_retries` and `keep_dead`. -/
def retryColumns (options : Options) : ℤ × Bool :=
  match options.retry with
  | .count n => (if (n : ℤ) ≤ i32Max then n else i32Max, options.dead)
  | .never => (-1, false)

def uniqueKey {A : Type*} [ToString A] (kind : String) (queue : Queue) (args : A) : String :=
  s!"{queue.name}:{kind}:{args}"

def second : ℕ := 1000000

def lease : ℕ := 300 * second

def deadTimeout : ℕ := 180 * 24 * 3600 * second

def deadMaxJobs : ℕ := 10000

/-! ### The table, and what is in flight -/

/-- A row of the table, under its id. -/
structure Row (A : Type*) where
  queue : Queue
  kind : String
  args : A
  runAt : ℕ
  attempts : ℤ := 0
  maxRetries : ℤ
  keepDead : Bool
  uniqueKey : Option String := none
  uniqueUntil : Option ℕ := none
  unlockOnClaim : Bool := false
  lockedAt : Option ℕ := none
  lockedBy : Option String := none
  lastError : Option String := none
  failedAt : Option ℕ := none
  deadAt : Option ℕ := none

structure Claimed (A : Type*) where
  id : ℕ
  kind : String
  args : A
  attempts : ℤ
  maxRetries : ℤ
  keepDead : Bool
  deriving DecidableEq

/-- How `perform` came out. The error is its sanitized text. -/
inductive Result where
  | ok
  | discard
  | error (message : String)
  deriving DecidableEq

/-- A claimed job a worker is executing: what its `perform` has returned, if it
has, and whether the worker's `retries_exhausted` has run. -/
structure Execution (A : Type*) where
  worker : String
  job : Claimed A
  returned : Option Result := none
  exhausted : Bool := false
  deriving DecidableEq

inductive Event (A : Type*) where
  | accepted (id : ℕ) (kind : String) (args : A) (options : Options) (due : ℕ)
  | performed (job : Claimed A) (result : Result)
  | exhausted (id : ℕ)
  | pruned (id : ℕ)
  deriving DecidableEq

def Event.id {A : Type*} : Event A → ℕ
  | .accepted id _ _ _ _ => id
  | .performed job _ => job.id
  | .exhausted id => id
  | .pruned id => id

/-- The clock, the table, the executions in flight and the history, oldest event
first. Ids from `nextId` on are unused. -/
structure State (A : Type*) where
  now : ℕ
  nextId : ℕ
  jobs : ℕ → Option (Row A)
  executions : List (Execution A)
  history : List (Event A)

variable {A : Type*}

def State.empty : State A := ⟨0, 0, fun _ => none, [], []⟩

def State.rows (s : State A) : List (ℕ × Row A) :=
  (List.range s.nextId).filterMap fun id => (s.jobs id).map fun row => (id, row)

def State.update (s : State A) (id : ℕ) (f : Row A → Option (Row A)) : State A :=
  { s with jobs := Function.update s.jobs id ((s.jobs id).bind f) }

def State.add (s : State A) (row : Row A) (options : Options) : State A :=
  { s with
    nextId := s.nextId + 1
    jobs := Function.update s.jobs s.nextId (some row)
    history := s.history ++ [.accepted s.nextId row.kind row.args options row.runAt] }

/-! ### Queueing -/

/-- The first statement of `insert`, for a job with a lock. -/
def State.expire (s : State A) (key : String) : State A :=
  { s with
    jobs := fun id => (s.jobs id).map fun row =>
      if row.uniqueKey = some key ∧ row.uniqueUntil.any (· ≤ s.now) then
        { row with uniqueKey := none }
      else row }

/-- The `unique_key` a job's lock takes, its TTL, and whether a claim gives it up. -/
def lockColumns [ToString A] (kind : String) (options : Options) (args : A) :
    Option String × ℕ × Bool :=
  match options.lock with
  | .none => (none, 0, false)
  | .untilExecuted ttl => (some (uniqueKey kind options.queue args), ttl, false)
  | .untilExecuting ttl => (some (uniqueKey kind options.queue args), ttl, true)

/-- The row `insert` adds. -/
def queuedRow [ToString A] (now : ℕ) (kind : String) (options : Options) (args : A)
    (delay : ℕ) : Row A :=
  let lock := lockColumns kind options args
  { queue := options.queue
    kind
    args
    runAt := now + delay
    maxRetries := (retryColumns options).1
    keepDead := (retryColumns options).2
    uniqueKey := lock.1
    uniqueUntil := some (now + delay + lock.2.1)
    unlockOnClaim := lock.2.2 }

/-- The second statement of `insert`: nothing is inserted on a conflict of keys. -/
def State.insert [ToString A] (s : State A) (kind : String) (options : Options) (args : A)
    (delay : ℕ) : State A :=
  let row := queuedRow s.now kind options args delay
  let conflict := s.rows.any fun r => r.2.uniqueKey.isSome && r.2.uniqueKey = row.uniqueKey
  if conflict then s else s.add row options

/-- The row `perform_bulk` adds for each job. -/
def bulkRow (now : ℕ) (kind : String) (options : Options) (args : A) : Row A :=
  { queue := options.queue
    kind
    args
    runAt := now
    maxRetries := (retryColumns options).1
    keepDead := (retryColumns options).2 }

/-- The statement of `perform_bulk`, for jobs without a lock; jobs with one are
inserted one by one. -/
def State.performBulk (s : State A) (kind : String) (options : Options) (argss : List A) :
    State A :=
  if options.lock ≠ .none then s
  else argss.foldl (fun u args => u.add (bulkRow s.now kind options args) options) s

/-! ### Running -/

/-- `claim`'s `WHERE`. -/
def claimable (now : ℕ) (only : Option ℕ) (id : ℕ) (row : Row A) : Bool :=
  row.deadAt.isNone && only.all (id = ·) && (only.isSome || row.runAt ≤ now) &&
    row.lockedAt.all (· + lease < now)

/-- `claim`'s `ORDER BY`. -/
def claimedBefore (order : List Queue) (a b : ℕ × Row A) : Prop :=
  order.idxOf a.2.queue < order.idxOf b.2.queue ∨
    order.idxOf a.2.queue = order.idxOf b.2.queue ∧
      (a.2.runAt < b.2.runAt ∨ a.2.runAt = b.2.runAt ∧ a.1 ≤ b.1)

instance (order : List Queue) : DecidableRel (claimedBefore (A := A) order) :=
  fun _ _ => inferInstanceAs (Decidable (_ ∨ _))

def State.picked (s : State A) (order : List Queue) (limit : ℕ) (only : Option ℕ) :
    List (ℕ × Row A) :=
  ((s.rows.filter fun r => claimable s.now only r.1 r.2).insertionSort
    (claimedBefore order)).take limit

def Row.claim (row : Row A) (now : ℕ) (worker : String) : Row A :=
  { row with
    lockedAt := some now
    lockedBy := some worker
    uniqueKey := if row.unlockOnClaim then none else row.uniqueKey }

def Row.claimed (row : Row A) (id : ℕ) : Claimed A :=
  { id
    kind := row.kind
    args := row.args
    attempts := row.attempts
    maxRetries := row.maxRetries
    keepDead := row.keepDead }

def State.claim (s : State A) (order : List Queue) (limit : ℕ) (worker : String)
    (only : Option ℕ) : State A :=
  let picked := s.picked order limit only
  { s with
    jobs := fun id =>
      if id ∈ picked.map Prod.fst then (s.jobs id).map fun row => row.claim s.now worker
      else s.jobs id
    executions := s.executions ++ picked.map fun r => { worker, job := r.2.claimed r.1 } }

/-- What an execution writes when it ends. -/
inductive Statement where
  | delete
  | reschedule (delay : ℕ) (message : String)
  | bury (message : String)

/-- The statement on a row, `none` when it deletes it. One that takes `attempts`
out of range fails. -/
def Statement.run (now : ℕ) (row : Row A) : Statement → Option (Row A)
  | .delete => none
  | .reschedule delay message =>
      if row.attempts + 1 ≤ i32Max then
        some { row with
          attempts := row.attempts + 1
          runAt := now + delay
          lockedAt := none
          lockedBy := none
          lastError := some message
          failedAt := some now }
      else some row
  | .bury message =>
      if row.attempts + 1 ≤ i32Max then
        some { row with
          attempts := row.attempts + 1
          deadAt := some now
          failedAt := some now
          lastError := some message
          uniqueKey := none
          lockedAt := none
          lockedBy := none }
      else some row

/-- `fail`'s test for the last attempt, of a job that is retried. -/
def Claimed.outOfRetries (job : Claimed A) : Bool :=
  0 ≤ job.maxRetries ∧ job.maxRetries.toNat ≤ job.attempts.toNat

/-- The statement `execute` ends with, once it is there: a kind without a worker
is buried, and a job out of retries waits for its `retries_exhausted`. -/
def Execution.statement (registered : String → Bool) (e : Execution A) (delay : ℕ) :
    Option Statement :=
  if ¬registered e.job.kind then some (.bury "no such worker")
  else
    match e.returned with
    | none => none
    | some .ok => some .delete
    | some .discard => some .delete
    | some (.error message) =>
        if e.job.maxRetries < 0 then some .delete
        else if e.job.outOfRetries then
          if ¬e.exhausted then none
          else if e.job.keepDead then some (.bury message)
          else some .delete
        else some (.reschedule delay message)

variable [DecidableEq A]

/-- The lease of a job is renewed while its `perform` runs. -/
def State.heartbeat (s : State A) (e : Execution A) : State A :=
  if e ∈ s.executions ∧ e.returned.isNone then
    s.update e.job.id fun row =>
      some (if row.lockedBy = some e.worker then { row with lockedAt := some s.now } else row)
  else s

/-- `perform` returns. -/
def State.returns (registered : String → Bool) (s : State A) (e : Execution A)
    (result : Result) : State A :=
  if e ∈ s.executions ∧ registered e.job.kind ∧ e.returned.isNone then
    { s with
      executions := { e with returned := some result } :: s.executions.erase e
      history := s.history ++ [.performed e.job result] }
  else s

def Execution.failed (e : Execution A) : Bool :=
  match e.returned with
  | some (.error _) => true
  | _ => false

/-- `retries_exhausted` runs. -/
def State.exhaust (s : State A) (e : Execution A) : State A :=
  if e ∈ s.executions ∧ e.failed ∧ e.job.outOfRetries ∧ ¬e.exhausted then
    { s with
      executions := { e with exhausted := true } :: s.executions.erase e
      history := s.history ++ [.exhausted e.job.id] }
  else s

def State.record (registered : String → Bool) (s : State A) (e : Execution A) (delay : ℕ) :
    State A :=
  match e.statement registered delay with
  | some statement =>
      if e ∈ s.executions then
        { s.update e.job.id (statement.run s.now) with executions := s.executions.erase e }
      else s
  | none => s

def State.dies (s : State A) (e : Execution A) : State A :=
  { s with executions := s.executions.erase e }

omit [DecidableEq A] in
def State.handBack (s : State A) (worker : String) : State A :=
  { s with
    jobs := fun id => (s.jobs id).map fun row =>
      if row.lockedBy = some worker then { row with lockedAt := none, lockedBy := none } else row
    executions := s.executions.filter (·.worker ≠ worker) }

/-! ### The dead set -/

def State.prune (s : State A) (ids : List ℕ) : State A :=
  { s with
    jobs := fun id => if id ∈ ids then none else s.jobs id
    history := s.history ++ ids.map .pruned }

/-- The first statement of `prune_dead` deletes what died six months ago. -/
def State.deadTooLong (s : State A) : List ℕ :=
  (s.rows.filter fun r => r.2.deadAt.any (· + deadTimeout < s.now)).map Prod.fst

/-- The second deletes all but the newest. -/
def State.deadTooMany (s : State A) : List ℕ :=
  (((s.rows.filterMap fun r => r.2.deadAt.map fun at' => (at', r.1)).insertionSort
    fun a b => b.1 < a.1 ∨ b.1 = a.1 ∧ b.2 ≤ a.2).drop deadMaxJobs).map Prod.snd

/-! ### Steps -/

inductive Op (A : Type*) where
  | expire (key : String)
  | insert (kind : String) (options : Options) (args : A) (delay : ℕ)
  | performBulk (kind : String) (options : Options) (argss : List A)
  | claim (order : List Queue) (limit : ℕ) (worker : String) (only : Option ℕ)
  | heartbeat (e : Execution A)
  | returns (e : Execution A) (result : Result)
  | exhaust (e : Execution A)
  | record (e : Execution A) (delay : ℕ)
  | dies (e : Execution A)
  | handBack (worker : String)
  | pruneOld
  | pruneExcess
  | tick (elapsed : ℕ)

variable [ToString A]

def step (registered : String → Bool) (s : State A) : Op A → State A
  | .expire key => s.expire key
  | .insert kind options args delay => s.insert kind options args delay
  | .performBulk kind options argss => s.performBulk kind options argss
  | .claim order limit worker only => s.claim order limit worker only
  | .heartbeat e => s.heartbeat e
  | .returns e result => s.returns registered e result
  | .exhaust e => s.exhaust e
  | .record e delay => s.record registered e delay
  | .dies e => s.dies e
  | .handBack worker => s.handBack worker
  | .pruneOld => s.prune s.deadTooLong
  | .pruneExcess => s.prune s.deadTooMany
  | .tick elapsed => { s with now := s.now + elapsed }

/-- The state a run of the operations from the empty queue leaves. -/
def after (registered : String → Bool) (ops : List (Op A)) : State A :=
  run (step registered) .empty ops

end Eunha.JobQueue
