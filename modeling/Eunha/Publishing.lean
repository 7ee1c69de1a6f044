import Eunha.Interleaving
import Eunha.Scheduling
import Mathlib.Algebra.Order.Ring.Int

/-!
# The passes that publish what is due

`publish_due_statuses` reads the schedules that are due and takes them up one after another.
Each is published, and then forgotten or put off in statements of its own. Several processes
make passes at a time, a process may stop before any of its statements, and the owners of
schedules cancel and move them meanwhile.
-/
namespace Eunha.Publishing
open Tables Database Posting Scheduling Interleaving Programs Program

/-- A row of `eunha.scheduled_status_attempts`. -/
structure Attempts where
  attempts : ℕ
  runAt : ℤ
  /-- `failed_at` is set: the schedule is parked. -/
  failed : Bool
  deriving DecidableEq

/-- The database, and what was published so far: of a schedule, the status it gave. -/
structure Store where
  world : World
  attempts : ℕ → Option Attempts
  published : List (ℕ × Status)

def Store.setAttempts (s : Store) (scheduledId : ℕ) (attempts : Option Attempts) : Store :=
  { s with attempts := Function.update s.attempts scheduledId attempts }

def Store.deleteScheduled (s : Store) (p : Scheduled → Bool) : Store :=
  { s with world := { s.world with scheduled := s.world.scheduled.deleteWhere p } }

/-- A schedule is retried no sooner than its last failure says, and not once it is parked. -/
def retryable (attempts : Option Attempts) (now : ℤ) : Bool :=
  attempts.all fun a => !a.failed && decide (a.runAt ≤ now)

def due (s : Store) (now : ℤ) : List Scheduled :=
  ((s.world.scheduled.rows.filter fun row =>
    row.scheduledAt.any (· ≤ now) && retryable (s.attempts row.id) now).mergeSort
      fun a b => a.scheduledAt.getD 0 ≤ b.scheduledAt.getD 0).take 50

def scheduledStatusMaxAttempts : ℕ := 8
def hour : ℤ := 60 * minute

def countAttempt (attempts : Option Attempts) (now : ℤ) : Attempts :=
  match attempts with
  | none => { attempts := 1, runAt := now + minute, failed := false }
  | some a =>
      { a with attempts := a.attempts + 1, runAt := now + min hour (minute * 2 ^ a.attempts) }

/-! ### A pass -/

/-- Where a pass is: the statement it runs next, for the schedule it is at, and the schedules
it takes up after that. -/
inductive Phase where
  | select
  | load (row : Scheduled) (left : Publish (Params × Draft)) (rest : List Scheduled)
  | insert (row : Scheduled) (p : Params) (d : Draft) (rest : List Scheduled)
  | follow (row : Scheduled) (left : Publish Unit) (rest : List Scheduled)
  | forgetAttempts (row : Scheduled) (rest : List Scheduled)
  | forgetSchedule (row : Scheduled) (rest : List Scheduled)
  | recordFailure (row : Scheduled) (rest : List Scheduled)
  | park (row : Scheduled) (rest : List Scheduled)

/-- How a statement fares: the process stops before it, it fails, or it is carried out at
this time. A schedule taken up then gets this id for its status. -/
structure Outcome where
  crashed : Bool
  fails : Bool
  now : ℤ
  statusId : ℕ
  deriving DecidableEq

def failed (row : Scheduled) (rest : List Scheduled) : PublishError → Phase
  | .permanent => .forgetAttempts row rest
  | .transient => .recordFailure row rest

def loading (row : Scheduled) (rest : List Scheduled) : Publish (Params × Draft) → Phase
  | .done (p, d) => .insert row p d rest
  | .fail error => failed row rest error
  | left => .load row left rest

def following (row : Scheduled) (rest : List Scheduled) : Publish Unit → Phase
  | .done () => .forgetAttempts row rest
  | .fail error => failed row rest error
  | left => .follow row left rest

section
variable (e : Env)

def takeUp (statusId : ℕ) : List Scheduled → Option Phase
  | [] => none
  | row :: rest => some (loading row rest (load e row statusId))

def insertion (s : Store) (row : Scheduled) (p : Params) (d : Draft) (rest : List Scheduled)
    (w : Outcome) : Store × Phase :=
  match (insertPublished d).next w.fails s.world with
  | (world, .done ()) =>
      ({ s with world := world, published := s.published ++ [(row.id, d.row)] },
        following row rest (followUp e p d w.now))
  | (world, _) => ({ s with world := world }, .recordFailure row rest)

/-- `record_publish_failure`: the upsert, and whether the attempts have run out. -/
def recordPublishFailure (s : Store) (row : Scheduled) (rest : List Scheduled) (w : Outcome) :
    Store × Option Phase :=
  let counted := countAttempt (s.attempts row.id) w.now
  (s.setAttempts row.id (some counted),
    if scheduledStatusMaxAttempts ≤ counted.attempts then some (.park row rest)
    else takeUp e w.statusId rest)

/-- The next statement of a pass. A statement of the pass itself that fails ends it. -/
def exec (s : Store) (phase : Phase) (w : Outcome) : Store × Option Phase :=
  if w.crashed then (s, none)
  else
    match phase with
    | .select => if w.fails then (s, none) else (s, takeUp e w.statusId (due s w.now))
    | .load row left rest =>
        let (world, left) := left.next w.fails s.world
        ({ s with world := world }, some (loading row rest left))
    | .insert row p d rest =>
        let (s, phase) := insertion e s row p d rest w
        (s, some phase)
    | .follow row left rest =>
        let (world, left) := left.next w.fails s.world
        ({ s with world := world }, some (following row rest left))
    | .forgetAttempts row rest =>
        if w.fails then (s, none)
        else (s.setAttempts row.id none, some (.forgetSchedule row rest))
    | .forgetSchedule row rest =>
        if w.fails then (s, none)
        else (s.deleteScheduled (·.id = row.id), takeUp e w.statusId rest)
    | .recordFailure row rest =>
        if w.fails then (s, none) else recordPublishFailure e s row rest w
    | .park row rest =>
        if w.fails then (s, none)
        else
          (s.setAttempts row.id ((s.attempts row.id).map fun a => { a with failed := true }),
            takeUp e w.statusId rest)

end

/-! ### The owners -/

inductive Request where
  | publishDueStatuses
  /-- The insertion at the end of `post_status`, of a post that is to be scheduled. -/
  | schedule (r : Posting.Request) (time : ℤ)
  | updateScheduledStatus (id accountId : ℕ) (scheduledAt : Option ℤ) (now : ℤ)
  | deleteScheduledStatus (id accountId : ℕ)

/-- `update_scheduled_status`, of a time that is far enough ahead or none at all. -/
def updateScheduledStatus (s : Store) (id accountId : ℕ) (scheduledAt : Option ℤ) (now : ℤ) :
    Store :=
  if scheduledAt.any (· ≤ now + 5 * minute) then s
  else
    { s with
      world := { s.world with
        scheduled := s.world.scheduled.update
          (fun row =>
            if row.id = id ∧ row.accountId = accountId then
              { row with scheduledAt := scheduledAt }
            else row) fun row => by split <;> rfl } }

def enter (s : Store) : Request → Store × Option Phase
  | .publishDueStatuses => (s, some .select)
  | .schedule r time =>
      ({ s with world := ((insertScheduled r time).next false s.world).1 }, none)
  | .updateScheduledStatus id accountId scheduledAt now =>
      (updateScheduledStatus s id accountId scheduledAt now, none)
  | .deleteScheduledStatus id accountId =>
      (s.deleteScheduled fun row => row.id = id ∧ row.accountId = accountId, none)

def machine (e : Env) : Machine Store Phase Request Outcome := ⟨enter, exec e⟩

end Eunha.Publishing
