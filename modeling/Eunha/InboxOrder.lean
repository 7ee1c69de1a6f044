import Eunha.FollowTable
import Eunha.Undoing

/-!
# Create and Delete, Announce, Follow, Like and Block and their Undo, in any order

Each pair of handlers of the inbox, as the statements of it that decide whether the object
is there: the locks, the marker, the tombstone, the lookups, the insertion and the
deletions. What a handler reads before it makes up its mind may be anything, so the
decision is free; counters, deliveries, notifications and indexes are left out.
-/
namespace Eunha.InboxOrder
open Runs Tables Database Statuses InboxRelationships FollowTable Undoing

structure Store where
  db : Db
  tombstones : List String

structure StoredActor where
  accounts : Table Account.keys
  accountStats : Stats AccountStat

def storeActor (f : StoredActor) (s : Store) : Store :=
  { s with db := { s.db with accounts := f.accounts, accountStats := f.accountStats } }

/-- A status of its own, as `create` inserts it. -/
structure Note where
  id : ℕ
  accountId : ℕ
  visibility : Visibility
  inReplyToId : Option ℕ
  deriving DecidableEq

def Note.row (n : Note) (uri : String) : Status where
  id := n.id
  accountId := n.accountId
  uri := some uri
  visibility := n.visibility
  inReplyToId := n.inReplyToId
  reblogOfId := none
  deleted := false

/-- `INSERT INTO statuses … ON CONFLICT (uri) DO NOTHING` -/
def insertStatus (row : Status) (s : Store) : Store :=
  { s with db := { s.db with statuses := s.db.statuses.insert row } }

/-- `acquire_create_lock` tries for two seconds. -/
def createLockTries : ℕ := 40

/-- `delete_later` needs an actor and a URI. -/
def canRemember (actor uri : String) : Bool := actor ≠ "" ∧ uri ≠ ""

/-! ### Create and Delete -/

def keptAt (uri : String) (s : Store) : Prop :=
  ∃ row ∈ s.db.statuses.rows, row.uri = some uri ∧ row.deleted = false

/-- `create` of a note stored as `author`'s, and the sender's `Delete` of it. -/
def createDelete (actor author uri : String) : Pair Store where
  Part := Unit
  Insert := Note
  Delete := Unit
  Found := Unit
  Other := StoredActor
  has _ := keptAt uri
  isSealed s := s.tombstones.contains uri
  insert n := insertStatus (n.row uri)
  part _ := ()
  blocked n s := s.db.statuses.Taken (n.row uri)
  nothing := ()
  lookups := []
  deletes _ := [()]
  delete _ s :=
    ({ s with db := discardStatuses s.db (fun row => row.uri = some uri) },
      (s.db.statusByUri uri).isSome)
  covers _ _ := True
  canSeal s := (s.db.accountByUri actor).isSome
  putSeal s := { s with tombstones := uri :: s.tombstones }
  other := storeActor
  tries := createLockTries
  heeds := author = actor
  remembers := canRemember actor uri

theorem createDelete_lawful (actor author uri : String) :
    (createDelete actor author uri).Lawful where
  insert n s q := by
    simp only [createDelete, keptAt, insertStatus, Table.mem_insert]
    constructor
    · rintro ⟨row, hrow | ⟨hfree, rfl⟩, hkept⟩
      · exact .inl ⟨row, hrow, hkept⟩
      · exact .inr ⟨rfl, hfree⟩
    · rintro (⟨row, hrow, hkept⟩ | ⟨_, hfree⟩)
      · exact ⟨row, .inl hrow, hkept⟩
      · exact ⟨n.row uri, .inr ⟨hfree, rfl⟩, rfl, rfl⟩
  delete d s q := by
    simp only [createDelete, keptAt, discardStatuses, Table.mem_update, not_true_eq_false, and_false,
      iff_false, not_exists, not_and]
    rintro row ⟨old, _, rfl⟩
    split <;> simp_all
  putSeal s q := Iff.rfl
  other o s q := Iff.rfl

/-! ### Announce -/

structure Boost where
  id : ℕ
  accountId : ℕ
  visibility : Visibility
  originalId : ℕ
  deriving DecidableEq

def Boost.row (b : Boost) (uri : String) : Status where
  id := b.id
  accountId := b.accountId
  uri := some uri
  visibility := b.visibility
  inReplyToId := none
  reblogOfId := some b.originalId
  deleted := false

def boostAt (uri : String) (s : Store) : Prop :=
  ∃ row ∈ s.db.statuses.rows, row.uri = some uri ∧ row.reblogOfId.isSome ∧ row.deleted = false

/-- What an `Announce` stores on the way: the actor, and the post it fetches. -/
inductive FetchedOnTheWay where
  | actor (a : StoredActor)
  | note (n : Note) (uri : String)

def storeFetched : FetchedOnTheWay → Store → Store
  | .actor a => storeActor a
  | .note n uri => insertStatus (n.row uri)

def announceUndo (actor uri : String) : Pair Store where
  Part := Unit
  Insert := Boost
  Delete := Unit
  Found := Unit
  Other := FetchedOnTheWay
  has _ := boostAt uri
  isSealed _ := false
  insert b := insertStatus (b.row uri)
  part _ := ()
  blocked b s := s.db.statuses.Taken (b.row uri)
  nothing := ()
  lookups := []
  deletes _ := if uri = "" then [] else [()]
  delete _ s :=
    ({ s with db := deleteStatuses s.db (fun row => row.uri = some uri) },
      (s.db.statusByUri uri).isSome)
  covers _ _ := True
  canSeal _ := false
  putSeal := id
  other := storeFetched
  tries := 0
  heeds := true
  remembers := canRemember actor uri

theorem boostAt_insertStatus {uri : String} {row : Status} {s : Store} :
    boostAt uri (insertStatus row s) ↔ boostAt uri s ∨
      (row.uri = some uri ∧ row.reblogOfId.isSome ∧ row.deleted = false) ∧
        ¬ s.db.statuses.Taken row := by
  simp only [boostAt, insertStatus, Table.mem_insert]
  constructor
  · rintro ⟨r, hr | ⟨hfree, rfl⟩, hboost⟩
    · exact .inl ⟨r, hr, hboost⟩
    · exact .inr ⟨hboost, hfree⟩
  · rintro (⟨r, hr, hboost⟩ | ⟨hboost, hfree⟩)
    · exact ⟨r, .inl hr, hboost⟩
    · exact ⟨row, .inr ⟨hfree, rfl⟩, hboost⟩

theorem announceUndo_lawful (actor uri : String) : (announceUndo actor uri).Lawful where
  insert b s q := by
    cases q
    simp only [announceUndo, boostAt_insertStatus]
    simp [Boost.row]
  delete d s q := by
    simp only [announceUndo, boostAt, mem_deleteStatuses, not_true_eq_false, and_false,
      iff_false, not_exists, not_and]
    rintro row ⟨old, hold, hkept, rfl⟩ huri
    refine absurd (mem_removedIds hold ?_) hkept
    have hsame : (detach (removedIds s.db fun row => row.uri = some uri) old).uri = old.uri := by
      rw [detach]
      split <;> rfl
    simpa [hsame] using huri
  putSeal s q := Iff.rfl
  other o s q := by
    cases o with
    | actor a => exact Iff.rfl
    | note n u =>
        simp only [announceUndo, storeFetched, boostAt_insertStatus]
        simp [Note.row]

/-! ### Follow -/

/-- The statement `handle_follow` comes to. -/
inductive FollowInsert where
  | refresh (accountId targetAccountId : ℕ)
  | request (accountId targetAccountId : ℕ)
  | follow (accountId targetAccountId : ℕ)

inductive FollowPart where
  | follows
  | followRequests
  deriving DecidableEq

def FollowInsert.part : FollowInsert → FollowPart
  | .refresh _ _ | .follow _ _ => .follows
  | .request _ _ => .followRequests

def insertFollow (uri : String) : FollowInsert → Store → Store
  | .refresh x y, s => { s with db := { s.db with follows := setUri s.db.follows x y (some uri) } }
  | .request x y, s => { s with db := recordFollowRequest s.db ⟨x, y, some uri⟩ }
  | .follow x y, s =>
      { s with db := { s.db with follows := upsertUri s.db.follows ⟨x, y, some uri⟩ } }

def HasUri (uri : String) (t : Table Follow.keys) : Prop := ∃ f ∈ t.rows, hasUri uri f = true

def followAt (uri : String) : FollowPart → Store → Prop
  | .follows, s => HasUri uri s.db.follows
  | .followRequests, s => HasUri uri s.db.followRequests

def deleteFollow (uri : String) : FollowPart → Store → Store × Bool
  | .follows, s =>
      ({ s with db := { s.db with follows := s.db.follows.deleteWhere (hasUri uri) } },
        s.db.follows.rows.any (hasUri uri))
  | .followRequests, s =>
      ({ s with db := { s.db with followRequests := s.db.followRequests.deleteWhere (hasUri uri) } },
        s.db.followRequests.rows.any (hasUri uri))

def followUndo (actor uri : String) : Pair Store where
  Part := FollowPart
  Insert := FollowInsert
  Delete := FollowPart
  Found := Unit
  Other := StoredActor
  has := followAt uri
  isSealed _ := false
  insert := insertFollow uri
  part := FollowInsert.part
  blocked i s :=
    match i with
    | .refresh x y => ¬ Pairs s.db.follows x y
    | _ => False
  nothing := ()
  lookups := []
  deletes _ := [.follows, .followRequests]
  delete := deleteFollow uri
  covers d q := d = q
  canSeal _ := false
  putSeal := id
  other := storeActor
  tries := 0
  heeds := true
  remembers := canRemember actor uri

theorem hasUri_setUri {t : Table Follow.keys} {x y : ℕ} {uri : String} :
    HasUri uri (setUri t x y (some uri)) ↔ HasUri uri t ∨ Pairs t x y := by
  simp only [HasUri, hasUri, setUri, Table.mem_update, Pairs, decide_eq_true_eq]
  constructor
  · rintro ⟨f, ⟨g, hg, rfl⟩, huri⟩
    split at huri
    · exact .inr ⟨g, hg, ‹_›⟩
    · exact .inl ⟨g, hg, huri⟩
  · rintro (⟨g, hg, huri⟩ | ⟨g, hg, hpair⟩)
    · refine ⟨_, ⟨g, hg, rfl⟩, ?_⟩
      split
      · rfl
      · exact huri
    · exact ⟨_, ⟨g, hg, rfl⟩, by rw [if_pos hpair]⟩

theorem hasUri_upsertUri {t : Table Follow.keys} {x y : ℕ} {uri : String} :
    HasUri uri (upsertUri t ⟨x, y, some uri⟩) := by
  rw [upsertUri]
  split
  next htaken => exact hasUri_setUri.mpr (.inr (taken_iff.mp htaken))
  next hfree => exact ⟨_, Table.mem_insert.mpr (.inr ⟨hfree, rfl⟩), by simp [hasUri]⟩

theorem not_hasUri_deleteWhere {t : Table Follow.keys} {uri : String} :
    ¬ HasUri uri (t.deleteWhere (hasUri uri)) := by
  rintro ⟨f, hf, huri⟩
  rw [(Table.mem_deleteWhere.mp hf).2] at huri
  cases huri

theorem followUndo_lawful (actor uri : String) : (followUndo actor uri).Lawful where
  insert i s q := by
    cases i with
    | refresh x y =>
        cases q <;> simp [followUndo, insertFollow, followAt, FollowInsert.part, hasUri_setUri]
    | request x y =>
        cases q <;> simp [followUndo, insertFollow, followAt, FollowInsert.part,
          recordFollowRequest, hasUri_upsertUri]
    | follow x y =>
        cases q <;> simp [followUndo, insertFollow, followAt, FollowInsert.part, hasUri_upsertUri]
  delete d s q := by
    cases d <;> cases q <;>
      simp [followUndo, deleteFollow, followAt, not_hasUri_deleteWhere]
  putSeal s q := Iff.rfl
  other o s q := by cases q <;> exact Iff.rfl

/-! ### Like and Block -/

/-- A favourite of the status `statusId`, which the `Like` names by any URL of it, and the
`Undo` of it, which looks the status up by the URI `statusUri` stored for it. -/
def likeUndo (actor uri statusUri : String) (accountId statusId : ℕ) : Pair Store where
  Part := Unit
  Insert := Unit
  Delete := Favourite
  Found := Option ℕ × Option ℕ
  Other := StoredActor
  has _ s := (⟨accountId, statusId⟩ : Favourite) ∈ s.db.favourites.rows
  isSealed _ := false
  insert _ s :=
    let favourites := s.db.favourites.insert ⟨accountId, statusId⟩
    { s with db := { s.db with favourites := favourites } }
  part _ := ()
  blocked _ _ := False
  nothing := (none, none)
  lookups :=
    [fun s found => ((s.db.statusByUri statusUri).map (·.id), found.2),
      fun s found => (found.1, (s.db.accountByUri actor).map (·.id))]
  deletes
    | (some foundStatus, some foundAccount) => [⟨foundAccount, foundStatus⟩]
    | _ => []
  delete f s :=
    ({ s with db := { s.db with favourites := s.db.favourites.deleteWhere (· = f) } },
      s.db.favourites.rows.any (· = f))
  covers f _ := (⟨accountId, statusId⟩ : Favourite) = f
  canSeal _ := false
  putSeal := id
  other := storeActor
  tries := 0
  heeds := true
  remembers := canRemember actor uri

theorem likeUndo_lawful (actor uri statusUri : String) (accountId statusId : ℕ) :
    (likeUndo actor uri statusUri accountId statusId).Lawful where
  insert i s q := by
    have hkeys : ∀ f g : Favourite, Clash Favourite.keys f g → f = g := by
      rintro ⟨a, b⟩ ⟨c, d⟩ ⟨k, hf, hg⟩
      simp_all [Favourite.keys]
    exact iff_of_true (Table.mem_insert_self hkeys) (.inr ⟨rfl, id⟩)
  delete d s q := by
    simp [likeUndo]
  putSeal s q := Iff.rfl
  other o s q := Iff.rfl

/-- A block of the local account `targetId`, and the `Undo` of it. -/
def blockUndo (actor uri objectUri : String) (blockerId targetId : ℕ) : Pair Store where
  Part := Unit
  Insert := Unit
  Delete := Block
  Found := Option ℕ × Option ℕ
  Other := StoredActor
  has _ s := (⟨blockerId, targetId⟩ : Block) ∈ s.db.blocks.rows
  isSealed _ := false
  insert _ s := { s with db := { s.db with blocks := s.db.blocks.insert ⟨blockerId, targetId⟩ } }
  part _ := ()
  blocked _ _ := False
  nothing := (none, none)
  lookups :=
    [fun s found => ((s.db.accountByUri actor).map (·.id), found.2),
      fun s found => (found.1, (localByUri s.db objectUri).map (·.id))]
  deletes
    | (some foundBlocker, some foundTarget) => [⟨foundBlocker, foundTarget⟩]
    | _ => []
  delete b s :=
    ({ s with db := { s.db with blocks := s.db.blocks.deleteWhere (· = b) } },
      s.db.blocks.rows.any (· = b))
  covers b _ := (⟨blockerId, targetId⟩ : Block) = b
  canSeal _ := false
  putSeal := id
  other := storeActor
  tries := 0
  heeds := true
  remembers := canRemember actor uri

theorem blockUndo_lawful (actor uri objectUri : String) (blockerId targetId : ℕ) :
    (blockUndo actor uri objectUri blockerId targetId).Lawful where
  insert i s q := by
    have hkeys : ∀ b c : Block, Clash Block.keys b c → b = c := by
      rintro ⟨a, b⟩ ⟨c, d⟩ ⟨k, hf, hg⟩
      simp_all [Block.keys]
    exact iff_of_true (Table.mem_insert_self hkeys) (.inr ⟨rfl, id⟩)
  delete d s q := by
    simp [blockUndo]
  putSeal s q := Iff.rfl
  other o s q := Iff.rfl

/-! ### The five pairs -/

inductive Activities where
  | create (actor author uri : String)
  | announce (actor uri : String)
  | follow (actor uri : String)
  | like (actor uri statusUri : String) (accountId statusId : ℕ)
  | block (actor uri objectUri : String) (blockerId targetId : ℕ)

def Activities.pair : Activities → Pair Store
  | .create actor author uri => createDelete actor author uri
  | .announce actor uri => announceUndo actor uri
  | .follow actor uri => followUndo actor uri
  | .like actor uri statusUri accountId statusId =>
      likeUndo actor uri statusUri accountId statusId
  | .block actor uri objectUri blockerId targetId =>
      blockUndo actor uri objectUri blockerId targetId

theorem Activities.pair_lawful (a : Activities) : a.pair.Lawful := by
  cases a with
  | create actor author uri => exact createDelete_lawful actor author uri
  | announce actor uri => exact announceUndo_lawful actor uri
  | follow actor uri => exact followUndo_lawful actor uri
  | like actor uri statusUri accountId statusId =>
      exact likeUndo_lawful actor uri statusUri accountId statusId
  | block actor uri objectUri blockerId targetId =>
      exact blockUndo_lawful actor uri objectUri blockerId targetId

/-- Of a pair handled in any order, the object is absent in the end exactly when no
insertion came behind the deletion it needed, and the deletions were of what was there. -/
theorem undone_stays_undone (a : Activities) (s : Store) (moves : List (Move a.pair))
    (hreturned : (run step (World.start a.pair s) moves).bothReturned) :
    ¬ a.pair.present (run step (World.start a.pair s) moves).store ↔
      Guarded step guard (World.start a.pair s) moves :=
  absent_iff_guarded a.pair_lawful s moves hreturned

/-- A `Follow` and its `Undo`, one after the other. -/
def followUri : String := "https://remote.example/follows/1"

def follower : String := "https://remote.example/users/bob"

def following : Activities := .follow follower followUri

def twoAccounts : Store where
  db :=
    { Db.empty with
      accounts :=
        { rows :=
            [⟨1, "alice", none, none, false, false, false, none⟩,
              ⟨2, "bob", some "remote.example", some follower, false, false, false, none⟩]
          distinct := by decide } }
  tombstones := []

/-- The `Follow` is handled, then its `Undo`. -/
def inOrder : List (Move following.pair) :=
  let follow : Move following.pair := .doer (some (.follow 2 1))
  List.replicate 6 follow ++ List.replicate 7 .undoer

theorem undone_stays_undone_inOrder :
    (run step (World.start following.pair twoAccounts) inOrder).bothReturned ∧
      ¬ following.pair.present (run step (World.start following.pair twoAccounts) inOrder).store := by
  have hreturned : (run step (World.start following.pair twoAccounts) inOrder).bothReturned :=
    ⟨rfl, rfl⟩
  refine ⟨hreturned, (undone_stays_undone following twoAccounts inOrder hreturned).mpr ?_⟩
  have hdoer (w : World following.pair) (i : Option FollowInsert)
      (hwaiting : w.undoer.remaining = none) : guard w (.doer i) := by
    intro i _ ds hds
    rw [hwaiting] at hds
    cases hds
  have hundoer (w : World following.pair) : guard w .undoer := by
    intro found _ q _
    refine ⟨q, ?_, rfl⟩
    cases q with
    | follows => exact List.mem_cons_self
    | followRequests => exact List.mem_cons_of_mem _ List.mem_cons_self
  exact ⟨hdoer _ _ rfl, hdoer _ _ rfl, hdoer _ _ rfl, hdoer _ _ rfl, hdoer _ _ rfl,
    hdoer _ _ rfl, hundoer _, hundoer _, hundoer _, hundoer _, hundoer _, hundoer _, hundoer _,
    trivial⟩

/-- The `Follow` asks for the marker, its `Undo` is handled, and the `Follow` goes on. -/
def overtaken : List (Move following.pair) :=
  let follow : Move following.pair := .doer (some (.follow 2 1))
  List.replicate 2 follow ++ List.replicate 7 .undoer ++ List.replicate 4 follow

theorem overtaken_follow_stands :
    ¬ ∀ (a : Activities) (s : Store) (moves : List (Move a.pair)),
      (run step (World.start a.pair s) moves).bothReturned →
        ¬ a.pair.present (run step (World.start a.pair s) moves).store := by
  intro h
  refine h following twoAccounts overtaken ⟨rfl, rfl⟩ ⟨.follows, ?_⟩
  exact hasUri_upsertUri

end Eunha.InboxOrder
