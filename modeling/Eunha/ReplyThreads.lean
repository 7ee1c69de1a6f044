import Eunha.Forests
import Eunha.StatusCounters

/-!
# Reply threads

A reply refers to its parent by `in_reply_to_id`, and the ancestors of a status are found
by a recursive query that goes up from it and has no guard against a cycle. A status is
inserted under a parent that is there already; the worker that resolves a thread gives a
parent to a status that may have replies by then.
-/
namespace Eunha.ReplyThreads
open Tables Database Statuses InboxRelationships StatusLifecycle StatusCounts StatusCounters
open Forests Runs

/-! ### The ancestors of a status -/

/-- `SELECT s.* FROM statuses s JOIN ancestor_chain a ON s.id = a.in_reply_to_id` of the kept. -/
def joinParents (rows working : List Status) : List Status :=
  working.flatMap fun a => rows.filter fun s => a.inReplyToId = some s.id ∧ s.deleted = false

def ancestorChain (db : Db) (id fuel : ℕ) : Option (List Status) :=
  unionAll (joinParents db.statuses.rows) fuel
    (db.statuses.rows.filter fun s => s.id = id ∧ s.deleted = false)

/-- The ancestors `get_status_context` reads. -/
def ancestors (db : Db) (id limit fuel : ℕ) : Option (List Status) :=
  (ancestorChain db id fuel).map fun chain =>
    ((chain.filter (·.id ≠ id)).mergeSort (·.id ≤ ·.id)).take limit

def parentOf (t : Table Status.keys) (id : ℕ) : Option ℕ :=
  (t.rows.find? (·.id = id)).bind (·.inReplyToId)

def keptParent (db : Db) (s : Status) : Option Status := s.inReplyToId.bind db.keptStatus

def Ancestor (db : Db) (id : ℕ) (s : Status) : Prop :=
  s.id ≠ id ∧ ∃ root ∈ db.keptStatus id, Reaches (keptParent db) root s

/-- Replies end at a status without a parent, and the query lists each ancestor once. -/
structure ThreadsEnd (db : Db) : Prop where
  ends : ∀ id, Rooted (parentOf db.statuses) id
  listed : ∀ id limit, ∃ fuel rows, ancestors db id limit fuel = some rows ∧
    (rows.map (·.id)).Nodup ∧ (∀ s ∈ rows, Ancestor db id s) ∧
      (rows.length < limit → ∀ s, Ancestor db id s → s ∈ rows)

theorem parentOf_eq_some {t : Table Status.keys} {id p : ℕ} :
    parentOf t id = some p ↔ ∃ s ∈ t.rows, s.id = id ∧ s.inReplyToId = some p := by
  rw [parentOf, Option.bind_eq_some_iff]
  constructor
  · rintro ⟨s, hfind, hp⟩
    exact ⟨s, List.mem_of_find?_eq_some hfind, by simpa using List.find?_some hfind, hp⟩
  · rintro ⟨s, hs, hid, hp⟩
    cases hfind : t.rows.find? (·.id = id) with
    | none =>
        have hnone := List.find?_eq_none.mp hfind s hs
        simp [hid] at hnone
    | some r =>
        have hr : r.id = id := by simpa using List.find?_some hfind
        have hsame : r = s := t.eq_of_key (List.mem_of_find?_eq_some hfind) hs
          (k := .id id) (by simp [Status.keys, hr]) (by simp [Status.keys, hid])
        exact ⟨s, by rw [hsame], hp⟩

theorem filter_kept (db : Db) (id : ℕ) :
    (db.statuses.rows.filter fun s => s.id = id ∧ s.deleted = false) =
      (db.keptStatus id).toList := by
  cases hfind : db.keptStatus id with
  | none =>
      rw [Option.toList_none, List.filter_eq_nil_iff]
      exact List.find?_eq_none.mp hfind
  | some s =>
      obtain ⟨hs, hid, hkept⟩ := Db.keptStatus_mem hfind
      refine Table.filter_eq_singleton _ (fun r => by simp [Status.keys]) hs ?_ ?_
      · simp [hid, hkept]
      · intro r hr hp
        have hrid : r.id = id := by simpa using (of_decide_eq_true hp).1
        exact eq_of_id hr hs (hrid.trans hid.symm)

theorem joinParents_singleton (db : Db) (s : Status) :
    joinParents db.statuses.rows [s] = (keptParent db s).toList := by
  rw [joinParents, List.flatMap_cons, List.flatMap_nil, List.append_nil, keptParent]
  cases s.inReplyToId with
  | none =>
      rw [Option.bind_none, Option.toList_none, List.filter_eq_nil_iff]
      simp
  | some p =>
      rw [Option.bind_some, ← filter_kept]
      refine List.filter_congr fun r _ => ?_
      simp only [Option.some.injEq, eq_comm (a := p)]

theorem climb_keptParent {db : Db} {n : ℕ} {s r : Status} (hs : s ∈ db.statuses.rows)
    (h : climb (keptParent db) n s = some r) :
    climb (parentOf db.statuses) n s.id = some r.id ∧ r ∈ db.statuses.rows := by
  induction n generalizing s with
  | zero =>
      obtain rfl : s = r := Option.some.inj h
      exact ⟨rfl, hs⟩
  | succ n ih =>
      obtain ⟨t, ht, hclimb⟩ := Option.bind_eq_some_iff.mp h
      obtain ⟨p, hp, hkept⟩ := Option.bind_eq_some_iff.mp ht
      obtain ⟨htmem, htid, _⟩ := Db.keptStatus_mem hkept
      have hparent : parentOf db.statuses s.id = some t.id :=
        parentOf_eq_some.mpr ⟨s, hs, rfl, by rw [hp, htid]⟩
      obtain ⟨hup, hr⟩ := ih htmem hclimb
      refine ⟨?_, hr⟩
      rw [climb_succ, hparent]
      exact hup

theorem rooted_keptParent {db : Db} {s : Status} (hs : s ∈ db.statuses.rows)
    (h : Rooted (parentOf db.statuses) s.id) : Rooted (keptParent db) s := by
  obtain ⟨n, hn⟩ := h
  refine ⟨n, ?_⟩
  cases hr : climb (keptParent db) n s with
  | none => rfl
  | some r =>
      rw [(climb_keptParent hs hr).1] at hn
      cases hn

theorem ancestorChain_eq {db : Db} {id : ℕ} {root : Status} (hroot : db.keptStatus id = some root)
    (h : Rooted (keptParent db) root) :
    ∃ fuel n, ancestorChain db id fuel = some (path (keptParent db) n root) ∧
      climb (keptParent db) n root = none := by
  obtain ⟨n, hn⟩ := h
  obtain ⟨fuel, hfuel⟩ :=
    unionAll_eq_path (fun b _ => joinParents_singleton db b) hn
  refine ⟨fuel, n, ?_, hn⟩
  rw [ancestorChain, filter_kept, hroot]
  exact hfuel

theorem ancestors_of_not_rooted {db : Db} {id : ℕ} {root : Status}
    (hroot : db.keptStatus id = some root) (h : ¬ Rooted (keptParent db) root)
    (limit fuel : ℕ) : ancestors db id limit fuel = none := by
  have hchain : ancestorChain db id fuel = none := by
    rw [ancestorChain, filter_kept, hroot]
    exact unionAll_of_not_rooted (fun b _ => joinParents_singleton db b) h fuel
  rw [ancestors, hchain]
  rfl

theorem listed_of_rooted {db : Db} (h : ∀ id, Rooted (parentOf db.statuses) id) (id limit : ℕ) :
    ∃ fuel rows, ancestors db id limit fuel = some rows ∧ (rows.map (·.id)).Nodup ∧
      (∀ s ∈ rows, Ancestor db id s) ∧
        (rows.length < limit → ∀ s, Ancestor db id s → s ∈ rows) := by
  cases hroot : db.keptStatus id with
  | none =>
      refine ⟨1, [], ?_, List.nodup_nil, nofun, ?_⟩
      · rw [ancestors, ancestorChain, filter_kept, hroot]
        simp [unionAll]
      · rintro _ s ⟨_, root, hr, _⟩
        rw [hroot] at hr
        cases hr
  | some root =>
      obtain ⟨hmem, hid, _⟩ := Db.keptStatus_mem hroot
      obtain ⟨fuel, n, hchain, hn⟩ := ancestorChain_eq hroot (rooted_keptParent hmem (h root.id))
      let chain := path (keptParent db) n root
      let sorted := (chain.filter (·.id ≠ id)).mergeSort (·.id ≤ ·.id)
      have hperm : sorted.Perm (chain.filter (·.id ≠ id)) := List.mergeSort_perm _ _
      have hrows : ∀ s ∈ chain, s ∈ db.statuses.rows := by
        intro s hs
        obtain ⟨k, hk⟩ := (mem_path hn).mp hs
        exact (climb_keptParent hmem hk).2
      have hnodup : (chain.map (·.id)).Nodup := by
        refine (nodup_path hn).map_on fun s hs t ht he => ?_
        exact eq_of_id (hrows s hs) (hrows t ht) he
      have hsorted : ∀ s, s ∈ sorted ↔ Ancestor db id s := by
        intro s
        rw [hperm.mem_iff, List.mem_filter, mem_path hn, Ancestor, hroot]
        simp [and_comm]
      refine ⟨fuel, sorted.take limit, ?_, ?_, ?_, ?_⟩
      · rw [ancestors, hchain]
        rfl
      · have hsub : ((sorted.take limit).map (·.id)).Sublist (sorted.map (·.id)) :=
          (List.take_sublist _ _).map _
        refine hsub.nodup ((hperm.map _).nodup_iff.mpr ?_)
        exact (List.filter_sublist.map _).nodup hnodup
      · intro s hs
        exact (hsorted s).mp (List.mem_of_mem_take hs)
      · intro hlength s hs
        have hall : sorted.take limit = sorted := by
          rw [List.length_take] at hlength
          exact List.take_of_length_le (by omega)
        rw [hall]
        exact (hsorted s).mpr hs

theorem threadsEnd_iff {db : Db} : ThreadsEnd db ↔ ∀ id, Rooted (parentOf db.statuses) id :=
  ⟨fun h => h.ends, fun h => ⟨h, listed_of_rooted h⟩⟩

/-! ### What a step does to the parents -/

/-- The foreign key of `in_reply_to_id`. -/
def ParentsKnown (t : Table Status.keys) : Prop :=
  ∀ s ∈ t.rows, ∀ p ∈ s.inReplyToId, ∃ r ∈ t.rows, r.id = p

/-- Rows go, or lose their parent. -/
structure Trims (t t' : Table Status.keys) : Prop where
  row : ∀ s ∈ t'.rows, ∃ r ∈ t.rows,
    r.id = s.id ∧ (s.inReplyToId = r.inReplyToId ∨ s.inReplyToId = none)
  known : ParentsKnown t → ParentsKnown t'

theorem Trims.refl (t : Table Status.keys) : Trims t t where
  row s hs := ⟨s, hs, rfl, .inl rfl⟩
  known h := h

theorem Trims.trans {t u v : Table Status.keys} (h : Trims t u) (h' : Trims u v) :
    Trims t v where
  row s hs := by
    obtain ⟨r, hr, hid, hkeep⟩ := h'.row s hs
    obtain ⟨q, hq, hqid, hqkeep⟩ := h.row r hr
    refine ⟨q, hq, hqid.trans hid, ?_⟩
    rcases hkeep with hkeep | hkeep
    · rw [hkeep]
      exact hqkeep
    · exact .inr hkeep
  known hk := h'.known (h.known hk)

inductive Moves (t t' : Table Status.keys) : Prop where
  | trims (h : Trims t t')
  | grows (row : Status) (free : ¬ t.Taken row)
      (parent : ∀ p ∈ row.inReplyToId, ∃ r ∈ t.rows, r.id = p) (eq : t' = t.insert row)

theorem Moves.refl (t : Table Status.keys) : Moves t t := .trims (.refl t)

theorem Moves.known {t t' : Table Status.keys} (h : Moves t t') (hknown : ParentsKnown t) :
    ParentsKnown t' := by
  cases h with
  | trims h => exact h.known hknown
  | grows row free parent eq =>
      subst eq
      intro s hs p hp
      rcases Table.mem_insert.mp hs with hs | ⟨_, rfl⟩
      · obtain ⟨r, hr, hid⟩ := hknown s hs p hp
        exact ⟨r, Table.mem_insert_of_mem hr, hid⟩
      · obtain ⟨r, hr, hid⟩ := parent p hp
        exact ⟨r, Table.mem_insert_of_mem hr, hid⟩

theorem id_ne_of_free {t : Table Status.keys} {row : Status} (hfree : ¬ t.Taken row) {s : Status}
    (hs : s ∈ t.rows) : s.id ≠ row.id :=
  fun he => hfree ⟨s, hs, .id s.id, by simp [Status.keys], by simp [Status.keys, he]⟩

theorem Moves.rooted {t t' : Table Status.keys} (h : Moves t t') (hknown : ParentsKnown t)
    (hroot : ∀ id, Rooted (parentOf t) id) (id : ℕ) : Rooted (parentOf t') id := by
  cases h with
  | trims h =>
      refine (hroot id).sub fun a b hab => ?_
      obtain ⟨s, hs, hid, hb⟩ := parentOf_eq_some.mp hab
      obtain ⟨r, hr, hrid, hsame | hnone⟩ := h.row s hs
      · exact parentOf_eq_some.mpr ⟨r, hr, hrid.trans hid, hsame ▸ hb⟩
      · rw [hnone] at hb
        cases hb
  | grows row free parent eq =>
      subst eq
      refine rooted_leaf hroot row.id (fun a hleaf => ?_) (fun a ha => ?_)
        (fun hself => ?_) id
      · -- no row replies to one that is not there
        obtain ⟨s, hs, _, hp⟩ := parentOf_eq_some.mp hleaf
        obtain ⟨r, hr, hid⟩ := hknown s hs _ hp
        exact id_ne_of_free free hr hid
      · refine Option.ext fun b => ?_
        rw [parentOf_eq_some, parentOf_eq_some]
        constructor
        · rintro ⟨s, hs, hid, hp⟩
          rcases Table.mem_insert.mp hs with hs | ⟨_, rfl⟩
          · exact ⟨s, hs, hid, hp⟩
          · exact absurd hid.symm ha
        · rintro ⟨s, hs, hid, hp⟩
          exact ⟨s, Table.mem_insert_of_mem hs, hid, hp⟩
      · obtain ⟨s, hs, hid, hp⟩ := parentOf_eq_some.mp hself
        rcases Table.mem_insert.mp hs with hs | ⟨_, rfl⟩
        · exact id_ne_of_free free hs hid
        · obtain ⟨r, hr, hrid⟩ := parent _ hp
          exact id_ne_of_free free hr hrid

theorem trims_discardStatuses (db : Db) (p : Status → Bool) :
    Trims db.statuses (discardStatuses db p).statuses := by
  refine ⟨fun s hs => ?_, fun hknown s hs q hq => ?_⟩
  · obtain ⟨r, hr, rfl⟩ := mem_discardStatuses.mp hs
    refine ⟨r, hr, ?_⟩
    split <;> exact ⟨rfl, .inl rfl⟩
  · obtain ⟨r, hr, rfl⟩ := mem_discardStatuses.mp hs
    have hparent : q ∈ r.inReplyToId := by
      split at hq <;> exact hq
    obtain ⟨t, ht, hid⟩ := hknown r hr q hparent
    refine ⟨_, mem_discardStatuses.mpr ⟨t, ht, rfl⟩, ?_⟩
    split <;> exact hid

theorem trims_deleteStatuses (db : Db) (p : Status → Bool) :
    Trims db.statuses (deleteStatuses db p).statuses := by
  refine ⟨fun s hs => ?_, fun hknown s hs q hq => ?_⟩
  · obtain ⟨r, hr, _, rfl⟩ := mem_deleteStatuses.mp hs
    refine ⟨r, hr, (id_detach _ r).symm, ?_⟩
    rw [detach]
    split
    · exact .inr rfl
    · exact .inl rfl
  · obtain ⟨r, hr, _, rfl⟩ := mem_deleteStatuses.mp hs
    rw [detach] at hq
    split at hq
    · cases hq
    next hleft =>
      obtain ⟨t, ht, hid⟩ := hknown r hr q hq
      refine ⟨_, mem_deleteStatuses.mpr ⟨t, ht, fun hgone => hleft ?_, rfl⟩, ?_⟩
      · rw [Option.mem_def.mp hq]
        simpa [hid] using hgone
      · rw [id_detach]
        exact hid

theorem moves_insert {t : Table Status.keys} {row : Status}
    (hparent : ∀ p ∈ row.inReplyToId, ∃ r ∈ t.rows, r.id = p) : Moves t (t.insert row) := by
  by_cases hfree : t.Taken row
  · rw [Table.insert_of_taken hfree]
    exact .refl t
  · exact .grows row hfree hparent rfl

theorem moves_boostRow (t : Table Status.keys) (id accountId : ℕ) (uri : Option String)
    (v : Visibility) (originalId : ℕ) :
    Moves t (t.insert (boostRow id accountId uri v originalId)) :=
  moves_insert nofun

theorem moves_postStatus (db : Db) (account : Account) (p : Post) :
    Moves db.statuses (postStatus db account p).statuses := by
  rw [postStatus]
  split_ifs with hparent htaken
  · exact .refl _
  · exact .refl _
  · rw [statuses_insertCounted]
    refine moves_insert fun q hq => ?_
    obtain ⟨r, hr⟩ : ∃ r, db.keptStatus q = some r := by
      have hsome : p.inReplyToId = some q := hq
      rw [hsome] at hparent
      simpa [Option.ne_none_iff_exists'] using hparent
    obtain ⟨hmem, hid, _⟩ := Db.keptStatus_mem hr
    exact ⟨r, hmem, hid⟩

theorem moves_reblogStatus (p : Policy) (db : Db) (accountId statusId boostId : ℕ)
    (requested : Visibility) :
    Moves db.statuses (reblogStatus p db accountId statusId boostId requested).statuses := by
  rw [reblogStatus]
  cases fetchStatus db statusId with
  | none => exact .refl _
  | some fetched =>
      dsimp only
      cases fetchStatus db (fetched.reblogOfId.getD statusId) with
      | none => exact .refl _
      | some original =>
          dsimp only
          split_ifs
          · exact .refl _
          · exact .refl _
          · exact .refl _
          · exact .refl _
          · rw [statuses_onStatusCreated]
            exact moves_boostRow ..

theorem moves_unreblogStatus (p : Policy) (db : Db) (accountId statusId : ℕ) :
    Moves db.statuses (unreblogStatus p db accountId statusId).statuses := by
  rw [unreblogStatus]
  cases fetchStatus db statusId with
  | none => exact .refl _
  | some status =>
      dsimp only
      split
      · exact .refl _
      · cases db.statuses.rows.find? _ with
        | none => exact .refl _
        | some _ => exact .trims (trims_deleteStatuses db _)

theorem moves_deleteStatus (db : Db) (accountId statusId : ℕ) :
    Moves db.statuses (deleteStatus db accountId statusId).statuses := by
  rw [deleteStatus]
  cases fetchStatus db statusId with
  | none => exact .refl _
  | some status =>
      dsimp only
      split
      · exact .refl _
      · rw [removeStatus_eq, statuses_elim_dropReblogs, statuses_onStatusDeleted]
        refine .trims (.trans ?_ (trims_discardStatuses _ _))
        rw [discardBoosts, statuses_uncountBoosts]
        exact trims_discardStatuses db _

theorem statuses_resolved {i : Instance} {db : Db} {uri : String} {r : Db × ℕ}
    (h : resolveOrFetch i db uri = some r) : r.1.statuses = db.statuses := by
  have h' : resolveOrFetch i db uri = some (r.1, r.2) := h
  rw [resolveOrFetch_eq h']

theorem moves_create (i : Instance) (s : Server) (c : Create) :
    Moves s.db.statuses (create i s c).db.statuses := by
  rw [create]
  split
  · exact .refl _
  · split
    · exact .refl _
    · cases hr : resolveOrFetch i s.db c.actor with
      | none => exact .refl _
      | some r =>
          have hsame := statuses_resolved hr
          have hparent : ∀ q ∈ (c.inReplyTo.bind r.1.statusByUri).map (·.id),
              ∃ t ∈ r.1.statuses.rows, t.id = q := by
            intro q hq
            obtain ⟨t, ht, rfl⟩ := Option.map_eq_some_iff.mp hq
            obtain ⟨uri, _, hfind⟩ := Option.bind_eq_some_iff.mp ht
            exact ⟨t, (Db.statusByUri_mem hfind).1, rfl⟩
          rw [← hsame]
          dsimp only [Server.withDb]
          split_ifs
          · exact .refl _
          · exact .refl _
          · rw [statuses_insertCounted]
            exact moves_insert hparent
          · rw [statuses_insertCounted]
            exact moves_insert hparent

theorem statuses_upsertReblogs (db : Db) (originalId : ℕ) :
    (upsertReblogs db originalId).statuses = db.statuses := rfl

theorem moves_announce (i : Instance) (s : Server) (a : Announce) :
    Moves s.db.statuses (announce i s a).db.statuses := by
  rw [announce]
  split
  · exact .refl _
  · split
    · exact .refl _
    · cases hr : resolveOrFetch i s.db a.actor with
      | none => exact .refl _
      | some r =>
          rw [← statuses_resolved hr]
          dsimp only
          split
          · exact .refl _
          · cases boostedStatus r.1 a with
            | none => exact .refl _
            | some found =>
                dsimp only [Server.withDb]
                rw [announceOf, recordBoost]
                split_ifs
                · exact .refl _
                · exact .refl _
                · exact .refl _
                · exact .refl _
                · exact .refl _
                · rw [statuses_upsertReblogs, statuses_insertCounted]
                  exact moves_boostRow ..

theorem moves_handleDelete (s : Server) (actor uri : String) :
    Moves s.db.statuses (handleDelete s actor uri).db.statuses := by
  rw [db_handleDelete, discardByUri]
  cases keptByUri s.db uri with
  | none => exact .trims (trims_discardStatuses s.db _)
  | some row =>
      dsimp only
      rw [statuses_onStatusDeleted]
      exact .trims (trims_discardStatuses s.db _)

theorem moves_undoAnnounce (s : State) (actor uri : String) :
    Moves s.db.statuses (undoAnnounce s actor uri).db.statuses := by
  by_cases hne : uri = ""
  · rw [undoAnnounce, if_pos hne]
    exact .refl _
  · cases hfind : s.db.statusByUri uri with
    | none =>
        rw [undoAnnounce, if_neg hne, hfind, db_deleteLater]
        exact .refl _
    | some row =>
        rw [db_undoAnnounce hne hfind, statuses_onStatusDeleted, statuses_recounted]
        exact .trims (trims_deleteStatuses s.db _)

/-! ### A parent linked late -/

def Linked (db : Db) (childId : ℕ) (parentUrl : String) (parent : Status) : Prop :=
  db.statusByUri parentUrl = some parent ∧
    ∃ child ∈ db.statuses.rows, child.id = childId ∧ child.inReplyToId = none

theorem parentOf_threadResolve {db : Db} {childId : ℕ} {parentUrl : String} {parent : Status}
    (h : Linked db childId parentUrl parent) :
    parentOf (threadResolve db childId parentUrl).statuses =
      Function.update (parentOf db.statuses) childId (some parent.id) := by
  obtain ⟨hfind, child, hchild, hid, hnone⟩ := h
  have honly : ∀ s ∈ db.statuses.rows, s.id = childId → s.inReplyToId = none := by
    intro s hs hsid
    rw [eq_of_id hs hchild (hsid.trans hid.symm)]
    exact hnone
  funext id
  refine Option.ext fun p => ?_
  rw [threadResolve, hfind, parentOf_eq_some]
  dsimp only
  by_cases he : id = childId
  · subst he
    rw [Function.update_self, Option.some.injEq]
    constructor
    · rintro ⟨s, hs, hsid, hp⟩
      obtain ⟨r, hr, rfl⟩ := Table.mem_update.mp hs
      have hrid : r.id = id := by
        rw [link] at hsid
        split at hsid <;> exact hsid
      rw [link, if_pos ⟨hrid, honly r hr hrid⟩] at hp
      exact Option.some.inj hp
    · rintro rfl
      refine ⟨_, Table.mem_update.mpr ⟨child, hchild, rfl⟩, ?_⟩
      rw [link, if_pos ⟨hid, hnone⟩]
      exact ⟨hid, rfl⟩
  · rw [Function.update_of_ne he, parentOf_eq_some]
    constructor
    · rintro ⟨s, hs, hsid, hp⟩
      obtain ⟨r, hr, rfl⟩ := Table.mem_update.mp hs
      rw [link] at hsid hp
      split at hsid
      next hlink => exact absurd (hsid.symm.trans hlink.1) he
      next hlink =>
        rw [if_neg hlink] at hp
        exact ⟨r, hr, hsid, hp⟩
    · rintro ⟨s, hs, hsid, hp⟩
      refine ⟨s, Table.mem_update.mpr ⟨s, hs, ?_⟩, hsid, hp⟩
      rw [link, if_neg fun hlink => he (hsid.symm.trans hlink.1)]

theorem threadResolve_of_not_linked {db : Db} {childId : ℕ} {parentUrl : String}
    (h : ∀ parent, ¬ Linked db childId parentUrl parent) :
    (threadResolve db childId parentUrl).statuses = db.statuses := by
  rw [threadResolve]
  cases hfind : db.statusByUri parentUrl with
  | none => rfl
  | some parent =>
      change db.statuses.update (link childId parent.id) (keys_link childId parent.id) = _
      refine Table.update_eq_self fun s hs => ?_
      rw [link, if_neg fun hlink => h parent ⟨hfind, s, hs, hlink⟩]

theorem known_threadResolve {db : Db} {childId : ℕ} {parentUrl : String}
    (h : ParentsKnown db.statuses) :
    ParentsKnown (threadResolve db childId parentUrl).statuses := by
  rw [threadResolve]
  cases hfind : db.statusByUri parentUrl with
  | none => exact h
  | some parent =>
      intro s hs p hp
      obtain ⟨r, hr, rfl⟩ := List.mem_map.mp hs
      obtain ⟨t, ht, hid⟩ : ∃ t ∈ db.statuses.rows, t.id = p := by
        rw [link] at hp
        split at hp
        · exact ⟨parent, (Db.statusByUri_mem hfind).1, Option.some.inj hp⟩
        · exact h r hr p hp
      refine ⟨link childId parent.id t, List.mem_map_of_mem ht, ?_⟩
      rw [link]
      split <;> exact hid

/-! ### Runs -/

/-- The worker links no reply to itself or to one of its own descendants. -/
def LinksUp (s : Server) : Op → Prop
  | .threadResolve childId parentUrl =>
      ∀ parent, Linked s.db childId parentUrl parent →
        ¬ Reaches (parentOf s.db.statuses) parent.id childId
  | _ => True

section
variable (i : Instance) (p : Policy)

theorem known_step (s : Server) (op : Op) (h : ParentsKnown s.db.statuses) :
    ParentsKnown (step i p s op).db.statuses := by
  cases op with
  | post accountId post =>
      rw [step]
      cases s.db.account accountId with
      | none => exact h
      | some account => exact (moves_postStatus s.db account post).known h
  | reblog => exact (moves_reblogStatus p s.db _ _ _ _).known h
  | unreblog => exact (moves_unreblogStatus p s.db _ _).known h
  | delete => exact (moves_deleteStatus s.db _ _).known h
  | create c => exact (moves_create i s c).known h
  | threadResolve => exact known_threadResolve h
  | announce a => exact (moves_announce i s a).known h
  | inboundDelete actor uri => exact (moves_handleDelete s actor uri).known h
  | undoAnnounce actor uri => exact (moves_undoAnnounce s.toState actor uri).known h

theorem rooted_step_iff (s : Server) (op : Op) (hknown : ParentsKnown s.db.statuses)
    (hroot : ∀ id, Rooted (parentOf s.db.statuses) id) :
    (∀ id, Rooted (parentOf (step i p s op).db.statuses) id) ↔ LinksUp s op := by
  cases op with
  | threadResolve childId parentUrl =>
      change (∀ id, Rooted (parentOf (threadResolve s.db childId parentUrl).statuses) id) ↔ _
      by_cases hlinked : ∃ parent, Linked s.db childId parentUrl parent
      · obtain ⟨parent, hparent⟩ := hlinked
        have hchild : parentOf s.db.statuses childId = none := by
          obtain ⟨_, child, hmem, hid, hnone⟩ := hparent
          refine Option.eq_none_iff_forall_ne_some.mpr fun q hq => ?_
          obtain ⟨r, hr, hrid, hp⟩ := parentOf_eq_some.mp hq
          rw [eq_of_id hr hmem (hrid.trans hid.symm), hnone] at hp
          cases hp
        rw [parentOf_threadResolve hparent, rooted_link_iff hroot hchild]
        constructor
        · intro h other hother
          obtain rfl : parent = other := Option.some.inj (hparent.1.symm.trans hother.1)
          exact h
        · intro h
          exact h parent hparent
      · rw [threadResolve_of_not_linked fun parent hparent => hlinked ⟨parent, hparent⟩]
        exact iff_of_true hroot fun parent hparent => absurd ⟨parent, hparent⟩ hlinked
  | post accountId post =>
      refine iff_of_true ?_ trivial
      rw [step]
      cases s.db.account accountId with
      | none => exact hroot
      | some account => exact (moves_postStatus s.db account post).rooted hknown hroot
  | reblog => exact iff_of_true ((moves_reblogStatus p s.db _ _ _ _).rooted hknown hroot) trivial
  | unreblog => exact iff_of_true ((moves_unreblogStatus p s.db _ _).rooted hknown hroot) trivial
  | delete => exact iff_of_true ((moves_deleteStatus s.db _ _).rooted hknown hroot) trivial
  | create c => exact iff_of_true ((moves_create i s c).rooted hknown hroot) trivial
  | announce a => exact iff_of_true ((moves_announce i s a).rooted hknown hroot) trivial
  | inboundDelete actor uri =>
      exact iff_of_true ((moves_handleDelete s actor uri).rooted hknown hroot) trivial
  | undoAnnounce actor uri =>
      exact iff_of_true ((moves_undoAnnounce s.toState actor uri).rooted hknown hroot) trivial

/-- Threads end all through a run just when no reply is linked under itself. -/
theorem threads_end_iff (s : Server) (ops : List Op) (hknown : ParentsKnown s.db.statuses)
    (hs : ThreadsEnd s.db) :
    (∀ before, before <+: ops → ThreadsEnd (run (step i p) s before).db) ↔
      Guarded (step i p) LinksUp s ops := by
  refine throughout_iff_guarded (J := fun s => ParentsKnown s.db.statuses)
    (P := fun s => ThreadsEnd s.db) (known_step i p) (fun s op hknown hs => ?_) s ops hknown hs
  rw [threadsEnd_iff]
  exact rooted_step_iff i p s op hknown hs.ends

end

/-! ### A note that replies to itself -/

def remoteAccount (id : ℕ) (username domain uri : String) : Account where
  id := id
  username := username
  domain := some domain
  uri := some uri
  locked := false
  silenced := false
  unavailable := false
  movedToAccountId := none

def authorUri : String := "https://b.example/users/bob"

def knowsAuthor : Server where
  db :=
    { Db.empty with
      accounts := { rows := [remoteAccount 1 "bob" "b.example" authorUri], distinct := by decide } }
  undone := []
  tombstones := []

theorem threadsEnd_knowsAuthor : ThreadsEnd knowsAuthor.db :=
  threadsEnd_iff.mpr fun _ => ⟨1, rfl⟩

def noteUri : String := "https://b.example/notes/1"

/-- A note delivered with this `inReplyTo`. -/
def note (id : ℕ) (uri : String) (inReplyTo : Option String) : Create where
  actor := authorUri
  uri := uri
  id := id
  visibility := .pub
  inReplyTo := inReplyTo
  accepted := true
  reportsCounts := false

/-- The note names itself as its parent, which is not known when it is created, and is
when the worker looks. -/
def repliesToItself : List Op :=
  [.create (note 7 noteUri (some noteUri)), .threadResolve 7 noteUri]

theorem reply_to_itself_never_ends :
    ThreadsEnd knowsAuthor.db ∧
      ¬ ThreadsEnd (run (step offlineInstance everyoneSees) knowsAuthor repliesToItself).db ∧
        ∀ limit fuel, ancestors
          (run (step offlineInstance everyoneSees) knowsAuthor repliesToItself).db 7 limit fuel =
            none := by
  let db := (run (step offlineInstance everyoneSees) knowsAuthor repliesToItself).db
  obtain ⟨root, hroot⟩ : ∃ root, db.keptStatus 7 = some root :=
    Option.isSome_iff_exists.mp (by decide +kernel)
  have hself : ∀ root ∈ db.keptStatus 7, keptParent db root = some root := by decide +kernel
  have hchain : ¬ Rooted (keptParent db) root :=
    not_rooted_of_returns (n := 0) (by rw [climb_succ, hself root hroot]; rfl)
  refine ⟨threadsEnd_knowsAuthor, fun h => ?_, ancestors_of_not_rooted hroot hchain⟩
  exact hchain (rooted_keptParent (Db.keptStatus_mem hroot).1 (h.ends root.id))

def replyFirst : List Op :=
  [.create (note 7 "https://b.example/notes/2" (some noteUri)),
    .create (note 8 noteUri none), .threadResolve 7 noteUri]

theorem threads_end_replyFirst :
    ThreadsEnd (run (step offlineInstance everyoneSees) knowsAuthor replyFirst).db := by
  refine (threads_end_iff offlineInstance everyoneSees knowsAuthor replyFirst nofun
    threadsEnd_knowsAuthor).mpr ⟨trivial, trivial, ?_, trivial⟩ replyFirst (List.prefix_refl _)
  rintro parent ⟨hfind, _⟩ ⟨n, hn⟩
  have hparent : ∀ parent ∈ (run (step offlineInstance everyoneSees) knowsAuthor
      (replyFirst.take 2)).db.statusByUri noteUri, parent.id = 8 := by decide +kernel
  rw [hparent parent hfind] at hn
  have hroot : parentOf (run (step offlineInstance everyoneSees) knowsAuthor
      (replyFirst.take 2)).db.statuses 8 = none := by decide +kernel
  cases n with
  | zero => cases hn
  | succ n =>
      obtain ⟨q, hq, _⟩ := Option.bind_eq_some_iff.mp hn
      exact absurd (hroot.symm.trans hq) nofun

end Eunha.ReplyThreads
