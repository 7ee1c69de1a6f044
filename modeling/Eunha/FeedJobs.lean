import Eunha.Feed
import Eunha.Interleaving

/-!
# The jobs that merge into a feed and unmerge from it

A follow queues a job that merges the followed account's posts into the home feed, and an
unfollow one that takes them out again; a list has the like for its members. The jobs wait
in a queue, run a command at a time on the feed's keys, with other jobs between their
commands, and are queued again when they stop halfway. What fails in them is logged only.

The feed is of one owner, a home feed or a list, and posts neither come nor go.
-/
namespace Eunha.FeedJobs
open Binary64 ScoredSets Feed Interleaving

/-- The feed's owner, and who wrote the statuses and which status each boosts. -/
structure World where
  owner : ℕ
  author : ℕ → ℕ
  reblogOf : ℕ → Option ℕ

inductive Job where
  /-- `MergeWorker` -/
  | merge (accountId : ℕ)
  /-- `UnmergeWorker` -/
  | unmerge (accountId : ℕ)
  deriving DecidableEq

structure Store where
  timeline : Timeline
  /-- Whom the owner follows, or whom the list holds. -/
  members : ℕ → Bool
  queue : List Job

inductive Request where
  /-- A follow, or an addition to the list. -/
  | join (accountId : ℕ)
  /-- An unfollow, with which the list's membership goes. -/
  | leave (accountId : ℕ)
  /-- `remove_list_accounts` -/
  | takeOff (accountId : ℕ)
  /-- A job is taken from the queue. -/
  | work (job : Job)

/-! ### Where a call stands -/

/-- The commands of `add_to_feed`. -/
inductive AddStage where
  | rank (reblogOfId : ℕ)
  | track (reblogOfId : ℕ)
  | hold (reblogOfId : ℕ)
  | boosted
  | key

/-- The commands of `remove_from_feed`. -/
inductive RemoveStage where
  | rank (reblogOfId : ℕ)
  | srem (reblogOfId : ℕ)
  | untrack (reblogOfId : ℕ)
  | smembers (reblogOfId : ℕ)
  | promote (reblogOfId other : ℕ)
  | retrack (reblogOfId other : ℕ)
  | delSet
  | untrackSelf
  | key

/-- The commands of `trim`. -/
inductive TrimStage where
  | cut
  | falloff
  | stale (score : ℕ)
  | untrack (reblogOfId : ℕ) (rest : List ℕ)
  | delSet (reblogOfId : ℕ) (rest : List ℕ)

inductive Phase where
  | insert (accountId : ℕ)
  | pushMerge (accountId : ℕ)
  | delete (accountId : ℕ)
  | pushUnmerge (accountId : ℕ)
  /-- Of `remove_list_accounts`, which queues before it deletes. -/
  | pushFirst (accountId : ℕ)
  | deleteAfter (accountId : ℕ)
  | mergeStart (accountId : ℕ)
  | mergeSize (accountId : ℕ) (aggregate : Bool)
  | mergeOldest (accountId : ℕ) (aggregate : Bool)
  | mergeRead (accountId : ℕ) (aggregate : Bool) (after : Option ℕ)
  | add (accountId : ℕ) (aggregate : Bool) (statusId : ℕ) (rest : List ℕ) (stage : AddStage)
  | trim (accountId : ℕ) (stage : TrimStage)
  | unmergeStart (accountId : ℕ)
  | unmergeRead (accountId : ℕ)
  | unmergeFilter (accountId : ℕ) (members : List ℕ)
  | unmergeSettings (accountId : ℕ) (ids : List ℕ)
  | remove (accountId : ℕ) (known aggregate : Bool) (statusId : ℕ) (rest : List ℕ)
      (stage : RemoveStage)

/-- The job a call runs, which is queued again when the call stops. -/
def Phase.job : Phase → Option Job
  | .mergeStart a | .mergeSize a _ | .mergeOldest a _ | .mergeRead a _ _ | .add a _ _ _ _
  | .trim a _ => some (.merge a)
  | .unmergeStart a | .unmergeRead a | .unmergeFilter a _ | .unmergeSettings a _
  | .remove a _ _ _ _ _ => some (.unmerge a)
  | _ => none

structure Answer where
  crashed : Bool
  fails : Bool
  /-- `account_exists`, and for a list that it is there. -/
  present : Bool
  /-- `is_signed_in_recently` -/
  recently : Bool
  /-- `aggregates` -/
  aggregate : Bool
  /-- Whether the membership hangs on a follow. -/
  followed : Bool
  /-- The statuses the database gives, in the order it gives them. -/
  statuses : List ℕ

/-! ### Merging -/

/-- `FEED_MAX_ITEMS / 4` -/
def mergeLimit : ℕ := feedMaxItems / 4

section
variable (world : World)

def addStage (aggregate : Bool) (statusId : ℕ) : AddStage :=
  match (world.reblogOf statusId).filter fun _ => aggregate with
  | some reblogOfId => .rank reblogOfId
  | none => .boosted

def nextAdd (accountId : ℕ) (aggregate : Bool) : List ℕ → Phase
  | [] => .trim accountId .cut
  | s :: rest => .add accountId aggregate s rest (addStage world aggregate s)

/-- A command of `add_to_feed`, and its next one if there is one. -/
def execAdd (t : Timeline) (statusId : ℕ) : AddStage → Timeline × Option AddStage
  | .rank r => (t, if (t.key.zrevrank r).any (· < reblogFalloff) then none else some (.track r))
  | .track r =>
      let tracked := t.reblogs.zaddNX r (asF64 statusId)
      ({ t with reblogs := tracked.2 }, some (if tracked.1 = 1 then .key else .hold r))
  | .hold r =>
      ({ t with reblogSet := Function.update t.reblogSet r (insert statusId (t.reblogSet r)) }, none)
  | .boosted => (t, if (t.reblogs.zscore statusId).isSome then none else some .key)
  | .key => (t.zaddSelf statusId, none)

def nextUntrack : List ℕ → Option TrimStage
  | [] => none
  | r :: rest => some (.untrack r rest)

/-- A command of `trim`, and its next one if there is one. -/
def execTrim (t : Timeline) : TrimStage → Timeline × Option TrimStage
  | .cut => ({ t with key := t.key.zremrangebyrank feedMaxItems }, some .falloff)
  | .falloff => (t, (t.key.zrevrangebyscore reblogFalloff).map fun e => .stale e.score)
  | .stale score => (t, nextUntrack (t.reblogs.zrangebyscore 0 score))
  | .untrack r rest => ({ t with reblogs := t.reblogs.zrem r }, some (.delSet r rest))
  | .delSet r rest =>
      ({ t with reblogSet := Function.update t.reblogSet r ∅ }, nextUntrack rest)

/-- `eligible_statuses`, those that the filter lets in. -/
def eligibleStatuses (statuses : List ℕ) (accountId : ℕ) (after : Option ℕ) : List ℕ :=
  (statuses.filter fun s => world.author s = accountId && after.all (· < s)).take mergeLimit

/-! ### Unmerging -/

/-- The status a status boosts, as `reblogs_of` found it. -/
def boostOf (known : Bool) (statusId : ℕ) : Option ℕ :=
  if known then world.reblogOf statusId else none

def removeStage (known aggregate : Bool) (statusId : ℕ) : RemoveStage :=
  match (boostOf world known statusId).filter fun _ => aggregate with
  | some reblogOfId => .rank reblogOfId
  | none => .delSet

def nextRemove (accountId : ℕ) (known aggregate : Bool) : List ℕ → Option Phase
  | [] => none
  | s :: rest =>
      some (.remove accountId known aggregate s rest (removeStage world known aggregate s))

/-- A command of `remove_from_feed`, and its next one if there is one. -/
def execRemove (t : Timeline) (statusId : ℕ) : RemoveStage → Timeline × Option RemoveStage
  | .rank r => (t, if (t.key.zrevrank statusId).isNone then none else some (.srem r))
  | .srem r =>
      ({ t with reblogSet := Function.update t.reblogSet r ((t.reblogSet r).erase statusId) },
        some (.untrack r))
  | .untrack r => ({ t with reblogs := t.reblogs.zrem r }, some (.smembers r))
  | .smembers r =>
      (t, some (match oldest (t.reblogSet r) with
        | some other => .promote r other
        | none => .key))
  | .promote r other => ({ t with key := t.key.zadd other (asF64 other) }, some (.retrack r other))
  | .retrack r other => ({ t with reblogs := t.reblogs.zadd r (asF64 other) }, some .key)
  | .delSet => ({ t with reblogSet := Function.update t.reblogSet statusId ∅ }, some .untrackSelf)
  | .untrackSelf => ({ t with reblogs := t.reblogs.zrem statusId }, some .key)
  | .key => ({ t with key := t.key.zrem statusId }, none)

def inOrder (given rows : List ℕ) : List ℕ := if given.Perm rows then given else rows

/-! ### Calls -/

def setMember (s : Store) (accountId : ℕ) (member : Bool) : Store :=
  { s with members := Function.update s.members accountId member }

def enqueue (s : Store) (job : Job) : Store := { s with queue := s.queue ++ [job] }

def setTimeline (s : Store) (t : Timeline) : Store := { s with timeline := t }

def enter (s : Store) : Request → Store × Option Phase
  | .join a => (s, some (.insert a))
  | .leave a => (s, some (.delete a))
  | .takeOff a => (s, some (.pushFirst a))
  | .work job =>
      if job ∈ s.queue then
        ({ s with queue := s.queue.erase job },
          some (match job with
            | .merge a => .mergeStart a
            | .unmerge a => .unmergeStart a))
      else (s, none)

def proceed (s : Store) (w : Answer) : Phase → Store × Option Phase
  | .insert a =>
      if w.fails then (s, none)
      else (setMember s a true, if w.followed then some (.pushMerge a) else none)
  | .pushMerge a => (if w.fails then s else enqueue s (.merge a), none)
  | .delete a =>
      if w.fails then (s, none)
      else if s.members a then (setMember s a false, some (.pushUnmerge a)) else (s, none)
  | .pushUnmerge a => (if w.fails then s else enqueue s (.unmerge a), none)
  | .pushFirst a =>
      (if s.members a && w.followed && !w.fails then enqueue s (.unmerge a) else s,
        some (.deleteAfter a))
  | .deleteAfter a => (if w.fails then s else setMember s a false, none)
  | .mergeStart a => (s, if w.present && w.recently then some (.mergeSize a w.aggregate) else none)
  | .mergeSize a aggregate =>
      (s, some (if !w.fails && mergeLimit ≤ s.timeline.key.zcard then .mergeOldest a aggregate
        else .mergeRead a aggregate none))
  | .mergeOldest a aggregate =>
      (s, some (.mergeRead a aggregate
        (if w.fails then none else s.timeline.key.entries.getLast?.map Entry.score)))
  | .mergeRead a aggregate after =>
      (s, some (nextAdd world a aggregate
        (if w.fails then [] else eligibleStatuses world w.statuses a after)))
  | .add a aggregate statusId rest stage =>
      if w.fails then (s, none)
      else
        let (t, next) := execAdd s.timeline statusId stage
        (setTimeline s t, some (match next with
          | some stage => .add a aggregate statusId rest stage
          | none => nextAdd world a aggregate rest))
  | .trim a stage =>
      if w.fails then (s, none)
      else (setTimeline s (execTrim s.timeline stage).1, (execTrim s.timeline stage).2.map (.trim a))
  | .unmergeStart a => (s, if w.present then some (.unmergeRead a) else none)
  | .unmergeRead a =>
      let members := if w.fails then [] else s.timeline.key.members.reverse
      (s, if members.isEmpty then none else some (.unmergeFilter a members))
  | .unmergeFilter a members =>
      let ids := if w.fails then []
        else inOrder w.statuses (members.filter fun s => world.author s = a)
      (s, if ids.isEmpty then none else some (.unmergeSettings a ids))
  | .unmergeSettings a ids => (s, nextRemove world a (!w.fails) w.aggregate ids)
  | .remove a known aggregate statusId rest stage =>
      if w.fails then (s, none)
      else
        let (t, next) := execRemove s.timeline statusId stage
        (setTimeline s t, match next with
          | some stage => some (.remove a known aggregate statusId rest stage)
          | none => nextRemove world a known aggregate rest)

/-- The next command of a call. A job that stops is queued again. -/
def exec (s : Store) (call : Phase) (w : Answer) : Store × Option Phase :=
  if w.crashed then
    (match call.job with
      | some job => enqueue s job
      | none => s, none)
  else proceed world s w call

def machine : Machine Store Phase Request Answer := ⟨enter, exec world⟩

end
end Eunha.FeedJobs
