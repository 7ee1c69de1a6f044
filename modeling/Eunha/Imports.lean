import Eunha.Interleaving
import Eunha.Sanitizer

/-!
# Imports

A confirmed import is worked on by a first pass, which in overwrite mode settles the rows of
what the account already has, and queues a job for each row left. A job carries its row out,
deletes it if that imported, and counts it; the import is finished with the row that makes the
count complete. Jobs go statement by statement beside one another. A statement may fail, a
worker may die, and a job may be claimed again while it is in the table, as it may be once its
lease has lapsed.
-/
namespace Eunha.Imports
open Interleaving
open Sanitizer (isWhitespace)

/-! ### An import -/

inductive ImportType where
  | following
  | blocking
  | muting
  | domainBlocking
  | bookmarks
  | lists
  | customFilters
  deriving DecidableEq

inductive ImportState where
  | scheduled
  | inProgress
  | finished
  deriving DecidableEq

/-- A row, and what the first pass reads of it: its handle, its domain, its post or its list. -/
structure Row where
  id : ℕ
  data : Option String
  deriving DecidableEq

/-- A job of the import: its first pass, or the worker of a row. -/
structure Job where
  id : ℕ
  row : Option ℕ
  attempts : ℕ
  deriving DecidableEq

structure Import where
  domain : String
  type : ImportType
  overwrite : Bool
  state : ImportState
  totalItems : ℕ
  processedItems : ℕ
  importedItems : ℕ
  rows : List Row
  jobs : List Job
  nextJob : ℕ
  /-- The rows whose effect happened. -/
  effects : List ℕ
  /-- The rows counted, as often as they were. -/
  counted : List ℕ

def confirmed (domain : String) (type : ImportType) (overwrite : Bool)
    (data : List (Option String)) : Import where
  domain := domain
  type := type
  overwrite := overwrite
  state := .scheduled
  totalItems := data.length
  processedItems := 0
  importedItems := 0
  rows := data.zipIdx.map fun (d, i) => ⟨i, d⟩
  jobs := [⟨0, none, 0⟩]
  nextJob := 1
  effects := []
  counted := []

/-! ### The index of the rows -/

abbrev Index := List (Option String × Row)

/-- `IndexMap::insert`: a repeated key keeps its place, and the last row. -/
def insertRow (map : Index) (key : Option String) (row : Row) : Index :=
  if map.any (·.1 = key) then map.map fun entry => if entry.1 = key then (key, row) else entry
  else map ++ [(key, row)]

def indexBy (key : Row → Option (Option String)) (rows : List Row) : Option Index :=
  rows.foldlM (fun map row => (key row).map fun k => insertRow map k row) []

/-- `acct.strip_suffix("@domain")` -/
def stripDomain (domain acct : String) : String :=
  let suffix := '@' :: domain.toList
  if suffix.isSuffixOf acct.toList then
    String.ofList (acct.toList.take (acct.toList.length - suffix.length))
  else acct

/-- The rows as the first pass compares them with what there is. It raises for a row without
what it compares. -/
def indexed (s : Import) : Option Index :=
  match s.type with
  | .bookmarks => indexBy (fun row => some row.data) s.rows
  | .lists =>
      if s.rows.all (·.data.isSome) then some (s.rows.map fun row => (row.data, row)) else none
  | .customFilters => some (s.rows.map fun row => (row.data, row))
  | _ => indexBy (fun row => row.data.map fun acct => some (stripDomain s.domain acct)) s.rows

def compared (s : Import) (existing : List (Option String)) : List (Option String) :=
  if s.overwrite && s.type ≠ .lists && s.type ≠ .customFilters then existing else []

/-- `rows.shift_remove`, for a post or a handle there is. -/
def lookup (left : Index) (key : Option String) : Option (Option String × Row) :=
  if key.isSome then left.find? (·.1 = key) else none

/-! ### What statements write -/

def Import.finish (s : Import) : Import := { s with state := .finished }

def Import.carryOut (s : Import) (row : ℕ) : Import := { s with effects := s.effects ++ [row] }

def Import.deleteRow (s : Import) (row : ℕ) : Import :=
  { s with rows := s.rows.filter (·.id ≠ row) }

/-- `progress`, but for finishing. -/
def Import.progress (s : Import) (row : ℕ) (imported : Bool) : Import :=
  { s with
    processedItems := s.processedItems + 1
    importedItems := s.importedItems + if imported then 1 else 0
    counted := s.counted ++ [row] }

def Import.settleRow (s : Import) (row : ℕ) : Import := (s.deleteRow row).progress row true

def Import.addJob (s : Import) (row : ℕ) : Import :=
  { s with jobs := s.jobs ++ [⟨s.nextJob, some row, 0⟩], nextJob := s.nextJob + 1 }

/-- `perform_bulk` -/
def Import.queue (s : Import) (rows : List ℕ) : Import :=
  rows.foldl (fun s row => s.addJob row) s

def Import.deleteJob (s : Import) (job : ℕ) : Import :=
  { s with jobs := s.jobs.filter (·.id ≠ job) }

def Import.reschedule (s : Import) (job : ℕ) : Import :=
  { s with
    jobs := s.jobs.map fun j =>
      if j.id = job then { j with attempts := j.attempts + 1 } else j }

/-- The last statement of the domain blocks, all of whose rows it counts. -/
def Import.tally (s : Import) (rows : List ℕ) : Import :=
  { s with processedItems := s.totalItems, importedItems := s.totalItems, counted := rows }

/-! ### The jobs -/

inductive FirstStage where
  | begin
  | start (processed : ℕ)
  | load (processed : ℕ)
  /-- To compare what is left of the rows with what there is, then queue it. -/
  | settle (left : Index) (existing : List (Option String)) (processed : ℕ)
  /-- The row is settled, and its effect is to happen. -/
  | carry (row : ℕ) (left : Index) (existing : List (Option String)) (processed : ℕ)
  | clear (rows : List Row)
  | block (rows left : List Row)
  | finish
  | done
  deriving DecidableEq

inductive RowStage where
  | read
  | perform
  | delete
  | count (imported exhausted : Bool)
  | finish (imported exhausted : Bool)
  | failed
  | exhausted
  /-- The job is to be deleted, its row counted and left if it was given up. -/
  | done (gaveUp : Bool)
  deriving DecidableEq

/-- A claimed job, at its next statement. -/
inductive Call where
  | first (job : ℕ) (stage : FirstStage)
  | row (job attempts row : ℕ) (stage : RowStage)
  deriving DecidableEq

/-- How a statement comes out, and what the first pass finds there is. A row is refused, or
its effect may have happened when it fails. -/
inductive Answer where
  | ok
  | finds (existing : List (Option String))
  | refuses
  | fails
  | failsAfter
  | crashes
  deriving DecidableEq

def Answer.failed : Answer → Bool
  | .fails => true
  | .failsAfter => true
  | _ => false

def Answer.found : Answer → List (Option String)
  | .finds existing => existing
  | _ => []

/-- `AccountDomainBlock` validates the domain's presence. -/
def Row.hasDomain (row : Row) : Bool := row.data.any fun d => !(d.toList.all isWhitespace)

/-- `bulk_import_worker` and `bulk_import_service`. An error in the service finishes the import
as it stands. -/
def firstPass (s : Import) (job : ℕ) (stage : FirstStage) (w : Answer) :
    Import × Option FirstStage :=
  match stage with
  | .begin => (s, if w.failed then some .done else some (.start s.processedItems))
  | .start processed =>
      if w.failed then (s, some .done)
      else ({ s with state := .inProgress }, some (.load processed))
  | .load processed =>
      if w.failed then (s, some .finish)
      else if s.type = .domainBlocking then (s, some (.clear s.rows))
      else
        match indexed s with
        | none => (s, some .finish)
        | some left => (s, some (.settle left (compared s w.found) processed))
  | .settle left [] processed =>
      if w.failed then (s, some .finish)
      else
        (s.queue (left.map (·.2.id)), some (if processed = s.totalItems then .finish else .done))
  | .settle left (key :: existing) processed =>
      if w.failed then (s, some .finish)
      else
        match lookup left key with
        | none => (s, some (.settle left existing processed))
        | some (_, row) =>
            let rest := left.eraseP (·.1 = key)
            if s.type = .bookmarks then
              ((s.settleRow row.id).carryOut row.id, some (.settle rest existing (processed + 1)))
            else (s.settleRow row.id, some (.carry row.id rest existing (processed + 1)))
  | .carry row left existing processed =>
      match w with
      | .fails => (s, some .finish)
      | .failsAfter => (s.carryOut row, some .finish)
      | _ => (s.carryOut row, some (.settle left existing processed))
  | .clear rows =>
      if w.failed then (s, some .finish) else ({ s with rows := [] }, some (.block rows rows))
  | .block rows [] =>
      if w.failed then (s, some .finish) else (s.tally (rows.map (·.id)), some .finish)
  | .block rows (row :: left) =>
      if row.hasDomain && !w.failed then (s.carryOut row.id, some (.block rows left))
      else (s, some .finish)
  | .finish => (if w.failed then s else s.finish, some .done)
  | .done => (if w.failed then s else s.deleteJob job, none)

/-- `sidekiq_options retry: 6` -/
def maxRetries : ℕ := 6

/-- `row_worker`, and `retries_exhausted` once it has failed for the last time. -/
def rowWorker (s : Import) (job attempts row : ℕ) (stage : RowStage) (w : Answer) :
    Import × Option RowStage :=
  match stage with
  | .read =>
      (s, if w.failed then some .failed
        else if s.rows.any (·.id = row) then some .perform else some (.done false))
  | .perform =>
      match w with
      | .fails => (s, some .failed)
      | .failsAfter => (s.carryOut row, some .failed)
      | .refuses => (s, some (.count false false))
      | _ => (s.carryOut row, some .delete)
  | .delete =>
      if w.failed then (s, some .failed) else (s.deleteRow row, some (.count true false))
  | .count imported exhausted =>
      if w.failed then (s, some (if exhausted then .done false else .failed))
      else
        (s.progress row imported,
          some (if s.processedItems + 1 = s.totalItems then .finish imported exhausted
            else .done !imported))
  | .finish imported exhausted =>
      if w.failed then (s, some (if exhausted then .done !imported else .failed))
      else (s.finish, some (.done !imported))
  | .failed =>
      if attempts < maxRetries then (if w.failed then s else s.reschedule job, none)
      else (s, some .exhausted)
  | .exhausted =>
      (s, if w.failed then some (.done false)
        else if s.rows.any (·.id = row) then some (.count false true) else some (.done false))
  | .done _ => (if w.failed then s else s.deleteJob job, none)

def exec (s : Import) (c : Call) (w : Answer) : Import × Option Call :=
  if w = .crashes then (s, none)
  else
    match c with
    | .first job stage =>
        let r := firstPass s job stage w
        (r.1, r.2.map (.first job))
    | .row job attempts row stage =>
        let r := rowWorker s job attempts row stage w
        (r.1, r.2.map (.row job attempts row))

def enter (s : Import) (job : ℕ) : Import × Option Call :=
  match s.jobs.find? (·.id = job) with
  | none => (s, none)
  | some j =>
      (s, some (match j.row with
        | none => .first j.id .begin
        | some row => .row j.id j.attempts row .read))

def importer : Machine Import Call ℕ Answer where
  enter := enter
  exec := exec

end Eunha.Imports
