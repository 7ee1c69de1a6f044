import Eunha.Binary64
import Eunha.Runs
import Eunha.ScoredSets
import Mathlib.Data.Finset.Max
import Mathlib.Data.String.Basic
import Mathlib.Logic.Function.Basic

/-!
# A home or list feed and the boosts it tracks

One feed is three keys: the sorted set of status ids scored by the id, the
sorted set `reblogs` of boosted posts scored by the boost that is in the feed,
and for each boosted post the set of its other boosts, held back. Scores are
binary64, so ids further apart than the format resolves share one; ids are the
natural numbers `snowflake::next_id` makes of milliseconds since the epoch. Redis
breaks ties between equal scores by the member's decimal text.

Each function is one call as its caller sees it, run without another command
in between. A command that fails stops the source's function with an error;
here every command succeeds.
-/
namespace Eunha.Feed
open Binary64 Runs ScoredSets ScoredSet

/-- `FeedManager::MAX_ITEMS`. -/
def feedMaxItems : ℕ := 800

/-- `FeedManager::REBLOG_FALLOFF`. -/
def reblogFalloff : ℕ := 80

/-- A feed and the keys its boosts are tracked under. A set without elements is
a key that does not exist. -/
structure Timeline where
  key : ScoredSet Nat.repr
  reblogs : ScoredSet Nat.repr
  reblogSet : ℕ → Finset ℕ

@[ext] theorem Timeline.ext {t u : Timeline} (hk : t.key = u.key) (hr : t.reblogs = u.reblogs)
    (hs : t.reblogSet = u.reblogSet) : t = u := by
  cases t
  cases u
  simp_all

def Timeline.empty : Timeline := ⟨.empty, .empty, fun _ => ∅⟩

def Timeline.zaddSelf (t : Timeline) (statusId : ℕ) : Timeline :=
  { t with key := t.key.zadd statusId (asF64 statusId) }

def addToFeed (t : Timeline) (statusId : ℕ) (reblogOfId : Option ℕ) (aggregate : Bool) :
    Bool × Timeline :=
  match reblogOfId.filter fun _ => aggregate with
  | some reblogOfId =>
      if (t.key.zrevrank reblogOfId).any (· < reblogFalloff) then (false, t)
      else
        let tracked := t.reblogs.zaddNX reblogOfId (asF64 statusId)
        let t := { t with reblogs := tracked.2 }
        if tracked.1 = 1 then (true, t.zaddSelf statusId)
        else
          let set := insert statusId (t.reblogSet reblogOfId)
          (false, { t with reblogSet := Function.update t.reblogSet reblogOfId set })
  | none =>
      -- A boost may arrive before the post it boosts; then the post stays out.
      if (t.reblogs.zscore statusId).isSome then (false, t) else (true, t.zaddSelf statusId)

/-- `others.into_iter().min()`. -/
def oldest (others : Finset ℕ) : Option ℕ :=
  if h : others.Nonempty then some (others.min' h) else none

def removeFromFeed (t : Timeline) (statusId : ℕ) (reblogOfId : Option ℕ) (aggregate : Bool) :
    Bool × Timeline :=
  match reblogOfId.filter fun _ => aggregate with
  | some reblogOfId =>
      if (t.key.zrevrank statusId).isNone then (false, t)
      else
        let others := (t.reblogSet reblogOfId).erase statusId
        let t : Timeline :=
          { t with
            reblogSet := Function.update t.reblogSet reblogOfId others
            reblogs := t.reblogs.zrem reblogOfId }
        let t : Timeline :=
          match oldest others with
          | some other =>
              { t with
                key := t.key.zadd other (asF64 other)
                reblogs := t.reblogs.zadd reblogOfId (asF64 other) }
          | none => t
        (decide (statusId ∈ t.key.members), { t with key := t.key.zrem statusId })
  | none =>
      (decide (statusId ∈ t.key.members),
        { key := t.key.zrem statusId
          reblogs := t.reblogs.zrem statusId
          reblogSet := Function.update t.reblogSet statusId ∅ })

/-- Stop tracking one boosted post, dropping the boosts held back for it. -/
def Timeline.untrack (t : Timeline) (reblogOfId : ℕ) : Timeline :=
  { t with
    reblogs := t.reblogs.zrem reblogOfId
    reblogSet := Function.update t.reblogSet reblogOfId ∅ }

/-- Keep the newest, and stop tracking boosts no newer than the entry just past
the falloff. -/
def trim (t : Timeline) : Timeline :=
  let t := { t with key := t.key.zremrangebyrank feedMaxItems }
  match t.key.zrevrangebyscore reblogFalloff with
  | none => t
  | some falloff =>
      let stale := t.reblogs.zrangebyscore 0 falloff.score
      stale.foldl Timeline.untrack t

def push (t : Timeline) (statusId : ℕ) (reblogOfId : Option ℕ) (aggregate : Bool) :
    Bool × Timeline :=
  let added := addToFeed t statusId reblogOfId aggregate
  if added.1 then (true, trim added.2) else added

def addEach (t : Timeline) (statuses : List (ℕ × Option ℕ)) (aggregate : Bool) : Timeline :=
  statuses.foldl (fun t status => (addToFeed t status.1 status.2 aggregate).2) t

def addAll (t : Timeline) (statuses : List (ℕ × Option ℕ)) (aggregate : Bool) : Timeline :=
  trim (addEach t statuses aggregate)

/-- The feed, its tracked boosts, and every set of boosts held back for a post
that is tracked. -/
def cleanFeed (t : Timeline) : Timeline :=
  t.reblogs.members.foldl
    (fun t boosted => { t with reblogSet := Function.update t.reblogSet boosted ∅ })
    { t with key := .empty, reblogs := .empty }

/-! ### Runs -/

/-- What the fan-out, the merges and the removals ask of a feed. -/
inductive Op where
  | push (statusId : ℕ)
  | addAll (statusIds : List ℕ)
  | trim
  | remove (statusId : ℕ)
  deriving DecidableEq, Repr

/-- The statuses an operation may put in the feed for the first time. -/
def Op.pushed : Op → List ℕ
  | .push s => [s]
  | .addAll ss => ss
  | .trim => []
  | .remove _ => []

/-- One operation for a user who aggregates boosts, where a status boosts
`reblogOf` of it whenever it is pushed or removed. -/
def step (reblogOf : ℕ → Option ℕ) (t : Timeline) : Op → Timeline
  | .push s => (Feed.push t s (reblogOf s) true).2
  | .addAll ss => Feed.addAll t (ss.map fun s => (s, reblogOf s)) true
  | .trim => Feed.trim t
  | .remove s => (removeFromFeed t s (reblogOf s) true).2

def after (reblogOf : ℕ → Option ℕ) (ops : List Op) : Timeline :=
  run (step reblogOf) .empty ops

end Eunha.Feed
