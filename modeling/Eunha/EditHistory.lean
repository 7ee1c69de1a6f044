import Eunha.Runs
import Eunha.StatusEdits

/-!
# The edit history, over every sequence of edits

A run keeps beside the store what the status showed, each time that changed. The history is
faithful where `status_edits` gives these versions. A snapshot renders what the history gave as
the current version, so the history stays faithful exactly as long as the current version and
the status show the same media and the same poll. No edit writes the order that the current
version takes its media from.
-/
namespace Eunha.EditHistory
open Tables Runs StatusEdits
open Posting (Env Error PollForm)

variable {media media' : Table Media.keys} {s s' : Store} {r : Request}

/-! ### The order that a version names -/

def named (media : Table Media.keys) (ids : Option (List ℤ)) : List ℤ :=
  (ids.getD []).filter fun id => (mediaOf media id).any (·.hasUrl)

theorem id_of_mediaOf {id : ℤ} {m : Media} (h : mediaOf media id = some m) : m.id = id := by
  have hfound := List.find?_some h
  exact of_decide_eq_true hfound

theorem mediaOf_of_mem {m : Media} (h : m ∈ media.rows) : mediaOf media m.id = some m := by
  refine (Table.find?_eq_some_iff fun a ha b hb hida hidb => ?_).mpr ⟨h, decide_eq_true rfl⟩
  have hid : a.id = b.id := (of_decide_eq_true hida).trans (of_decide_eq_true hidb).symm
  exact media.eq_of_key (k := a.id) ha hb (by simp [Media.keys]) (by simp [Media.keys, hid])

def shownNow (media : Table Media.keys) (id : ℤ) : Option Attachment :=
  ((mediaOf media id).filter (·.hasUrl)).map (·.shown)

theorem preserved_none (id : ℤ) (position : ℕ) :
    preserved media none id position = shownNow media id := by
  unfold preserved shownNow
  cases (mediaOf media id).filter (·.hasUrl) <;> rfl

theorem filterMap_zipIdx (ids : List ℤ) (f : ℤ → Option Attachment) :
    ids.zipIdx.filterMap (fun p => f p.1) = ids.filterMap f := by
  conv_rhs => rw [← List.zipIdx_map_fst 0 ids, List.filterMap_map]
  rfl

theorem orderedMedia_none (ids : Option (List ℤ)) :
    orderedMedia media ids none = (ids.getD []).filterMap (shownNow media) := by
  simp only [orderedMedia, preserved_none]
  exact filterMap_zipIdx _ _

theorem map_id_filterMap_shownNow (ids : List ℤ) :
    (ids.filterMap (shownNow media)).map (·.id) =
      ids.filter fun id => (mediaOf media id).any (·.hasUrl) := by
  induction ids with
  | nil => rfl
  | cons id ids ih =>
      cases hm : mediaOf media id with
      | none => simpa [shownNow, hm] using ih
      | some m =>
          cases hurl : m.hasUrl with
          | false => simpa [shownNow, hm, hurl] using ih
          | true =>
              simpa [shownNow, hm, hurl, Media.shown, id_of_mediaOf hm] using ih

theorem map_shown_eq_filterMap (rows : List Media) (hrows : ∀ m ∈ rows, m ∈ media.rows)
    (hurl : ∀ m ∈ rows, m.hasUrl = true) :
    rows.map (·.shown) = (rows.map (·.id)).filterMap (shownNow media) := by
  rw [List.filterMap_map, ← List.filterMap_eq_map]
  refine List.filterMap_congr fun m hm => ?_
  simp [shownNow, mediaOf_of_mem (hrows m hm), hurl m hm]

theorem filterMap_filter_named (ids : List ℤ) :
    (ids.filter fun id => (mediaOf media id).any (·.hasUrl)).filterMap (shownNow media) =
      ids.filterMap (shownNow media) := by
  rw [List.filterMap_filter]
  refine List.filterMap_congr fun id _ => ?_
  cases hm : mediaOf media id with
  | none => simp [shownNow, hm]
  | some m => cases hurl : m.hasUrl <;> simp [shownNow, hm, hurl]

theorem mem_attached {m : Media} (h : m ∈ s.attached) : m ∈ s.media.rows ∧ m.hasUrl = true := by
  rw [Store.attached, List.mem_mergeSort, List.mem_filter, Bool.and_eq_true] at h
  exact ⟨h.1, h.2.2⟩

theorem orderedMedia_eq_attached_iff :
    orderedMedia s.media s.status.orderedMediaAttachmentIds none = s.attached.map (·.shown) ↔
      named s.media s.status.orderedMediaAttachmentIds = s.attached.map (·.id) := by
  have hshown := map_shown_eq_filterMap s.attached (fun m hm => (mem_attached hm).1)
    (fun m hm => (mem_attached hm).2)
  rw [orderedMedia_none]
  constructor
  · intro h
    have hids := congrArg (List.map (·.id)) h
    rw [map_id_filterMap_shownNow, List.map_map] at hids
    exact hids
  · intro h
    rw [hshown, ← h]
    exact (filterMap_filter_named _).symm

/-! ### Snapshots -/

theorem orderedMedia_snapshot :
    orderedMedia s.media s.snapshot.orderedMediaAttachmentIds s.snapshot.mediaDescriptions =
      orderedMedia s.media s.status.orderedMediaAttachmentIds none := by
  unfold Store.snapshot Store.hasOrderedMedia
  cases hids : s.status.orderedMediaAttachmentIds with
  | none => rfl
  | some ids =>
      cases ids with
      | nil => rfl
      | cons first rest =>
          simp only [Option.getD_some, List.isEmpty_cons, Bool.not_false, if_true, Option.map_some,
            orderedMedia]
          generalize first :: rest = ids
          refine List.filterMap_congr fun p hp => ?_
          rw [preserved_none]
          have hget := List.mem_zipIdx_iff_getElem?.mp hp
          cases hm : mediaOf s.media p.1 with
          | none => simp [preserved, shownNow, hm]
          | some m =>
              cases hurl : m.hasUrl <;>
                simp [preserved, shownNow, hm, Option.filter_some, hurl, hget, Media.shown]

def Described (edit : StatusEdit) : Prop :=
  edit.mediaDescriptions = none → edit.orderedMediaAttachmentIds.getD [] = []

theorem described_snapshot (s : Store) : Described s.snapshot := by
  intro h
  unfold Store.snapshot Store.hasOrderedMedia at *
  cases hids : s.status.orderedMediaAttachmentIds with
  | none => rfl
  | some ids =>
      cases ids with
      | nil => rfl
      | cons first rest => simp [hids] at h

/-- A change of the media that neither adds nor removes any. -/
structure SameMedia (media media' : Table Media.keys) (f : Media → Media) : Prop where
  rows : media'.rows = media.rows.map f
  id : ∀ m, (f m).id = m.id
  hasUrl : ∀ m, (f m).hasUrl = m.hasUrl

theorem SameMedia.mediaOf {f : Media → Media} (h : SameMedia media media' f) (id : ℤ) :
    mediaOf media' id = (mediaOf media id).map f := by
  unfold StatusEdits.mediaOf
  rw [h.rows, List.find?_map]
  congr 1
  exact congrArg (fun p => List.find? p media.rows) (funext fun m => by simp [h.id])

theorem SameMedia.version {f : Media → Media} (h : SameMedia media media' f) {edit : StatusEdit}
    (hedit : Described edit) : edit.version media' = edit.version media := by
  unfold StatusEdit.version
  congr 1
  cases hdescriptions : edit.mediaDescriptions with
  | none => simp [orderedMedia, hedit hdescriptions]
  | some descriptions =>
      refine List.filterMap_congr fun ⟨id, position⟩ _ => ?_
      simp only [preserved]
      rw [h.mediaOf]
      cases hm : StatusEdits.mediaOf media id with
      | none => rfl
      | some m => cases hurl : m.hasUrl <;> simp [Option.filter_some, h.hasUrl, h.id, hurl]

theorem SameMedia.named {f : Media → Media} (h : SameMedia media media' f)
    (ids : Option (List ℤ)) : named media' ids = named media ids := by
  refine List.filter_congr fun id _ => ?_
  rw [h.mediaOf]
  cases StatusEdits.mediaOf media id with
  | none => rfl
  | some m => exact h.hasUrl m

/-! ### The media after an edit -/

def described (r : Request) (m : Media) : Media :=
  ((r.form.mediaAttributes.getD []).zipIdx).foldl (fun m attr => describe r attr m) m

def reattached (statusId : ℕ) (r : Request) (m : Media) : Media :=
  match r.form.mediaIds with
  | none => m
  | some ids =>
      (parsedIds ids).zipIdx.foldl (fun m id => attach statusId r id m)
        (detach statusId r (parsedIds ids) m)

theorem rows_editMedia (statusId : ℕ) (r : Request) (media : Table Media.keys) :
    (editAttachments statusId r (editDescriptions r media)).rows =
      media.rows.map fun m => reattached statusId r (described r m) := by
  have hdescribed : (editDescriptions r media).rows = media.rows.map (described r) :=
    Table.rows_foldl_update (describe r) (keys_describe r) _ media
  unfold editAttachments reattached
  cases r.form.mediaIds with
  | none => exact hdescribed
  | some ids =>
      have hdetached : ∀ t : Table Media.keys, (t.update (detach statusId r (parsedIds ids))
          (keys_detach statusId r (parsedIds ids))).rows =
            t.rows.map (detach statusId r (parsedIds ids)) := fun _ => rfl
      rw [Table.rows_foldl_update (attach statusId r) (keys_attach statusId r), hdetached,
        hdescribed, List.map_map, List.map_map]
      rfl

/-- What a statement about the media leaves alone. -/
structure Frame (m m' : Media) : Prop where
  id : m'.id = m.id
  accountId : m'.accountId = m.accountId
  hasUrl : m'.hasUrl = m.hasUrl

theorem Frame.refl (m : Media) : Frame m m := ⟨rfl, rfl, rfl⟩

theorem Frame.trans {m m' m'' : Media} (h : Frame m m') (h' : Frame m' m'') : Frame m m'' :=
  ⟨h'.id.trans h.id, h'.accountId.trans h.accountId, h'.hasUrl.trans h.hasUrl⟩

theorem frame_foldl {β : Type*} {f : Media → β → Media} (hf : ∀ m b, Frame m (f m b))
    (bs : List β) (m : Media) : Frame m (bs.foldl f m) := by
  induction bs generalizing m with
  | nil => exact .refl m
  | cons b bs ih => exact (hf m b).trans (ih (f m b))

theorem frame_describe (r : Request) (attr : EditMediaAttribute × ℕ) (m : Media) :
    Frame m (describe r attr m) := by
  unfold describe
  split
  · split <;> exact ⟨rfl, rfl, rfl⟩
  · exact .refl m

theorem statusId_describe (r : Request) (attr : EditMediaAttribute × ℕ) (m : Media) :
    (describe r attr m).statusId = m.statusId := by
  unfold describe
  split
  · split <;> rfl
  · rfl

theorem statusId_described (r : Request) (m : Media) : (described r m).statusId = m.statusId := by
  unfold described
  generalize (r.form.mediaAttributes.getD []).zipIdx = attrs
  induction attrs generalizing m with
  | nil => rfl
  | cons attr attrs ih => exact (ih _).trans (statusId_describe r attr m)

theorem frame_detach (statusId : ℕ) (r : Request) (ids : List ℤ) (m : Media) :
    Frame m (detach statusId r ids m) := by
  unfold detach
  split <;> exact ⟨rfl, rfl, rfl⟩

theorem frame_attach (statusId : ℕ) (r : Request) (id : ℤ × ℕ) (m : Media) :
    Frame m (attach statusId r id m) := by
  unfold attach
  split <;> exact ⟨rfl, rfl, rfl⟩

theorem frame_described (r : Request) (m : Media) : Frame m (described r m) :=
  frame_foldl (fun m attr => frame_describe r attr m) _ m

theorem frame_edited (statusId : ℕ) (r : Request) (m : Media) :
    Frame m (reattached statusId r (described r m)) := by
  refine (frame_described r m).trans ?_
  unfold reattached
  cases r.form.mediaIds with
  | none => exact .refl _
  | some ids =>
      exact (frame_detach statusId r _ _).trans
        (frame_foldl (fun m id => frame_attach statusId r id m) _ _)

theorem sameMedia_edited (statusId : ℕ) (r : Request) (media : Table Media.keys) :
    SameMedia media (editAttachments statusId r (editDescriptions r media))
      fun m => reattached statusId r (described r m) where
  rows := rows_editMedia statusId r media
  id m := (frame_edited statusId r m).id
  hasUrl m := (frame_edited statusId r m).hasUrl

def attaches (r : Request) (ids : List (ℤ × ℕ)) (m : Media) : Bool :=
  m.statusId.isNone && decide (m.accountId = r.accountId) &&
    ids.any fun id => decide (m.id = id.1) && !r.fails (.attach id.2)

def endsAttached (statusId : ℕ) (r : Request) (m : Media) : Bool :=
  match r.form.mediaIds with
  | none => decide (m.statusId = some statusId)
  | some ids =>
      (decide (m.statusId = some statusId) &&
        (r.fails .detach || decide (m.id ∈ parsedIds ids))) ||
      attaches r (parsedIds ids).zipIdx m

theorem statusId_foldl_attach (statusId : ℕ) (r : Request) (ids : List (ℤ × ℕ)) (m : Media) :
    (ids.foldl (fun m id => attach statusId r id m) m).statusId = some statusId ↔
      m.statusId = some statusId ∨ attaches r ids m = true := by
  induction ids generalizing m with
  | nil => simp [attaches]
  | cons id ids ih =>
      rw [List.foldl_cons, ih]
      unfold attach
      split
      next hattach =>
        simp only [Bool.and_eq_true, Bool.or_eq_true, decide_eq_true_eq] at hattach
        obtain ⟨⟨⟨hok, hid⟩, haccount⟩, hfree | hown⟩ := hattach
        · simp [attaches, hok, hid, haccount, hfree]
        · simp [hown]
      next hattach =>
        simp only [Bool.and_eq_true, Bool.or_eq_true, decide_eq_true_eq, not_and, not_or] at hattach
        refine or_congr_right ?_
        simp only [attaches, List.any_cons, Bool.and_eq_true, Bool.or_eq_true, decide_eq_true_eq]
        refine and_congr_right fun hfree => (or_iff_right fun hid => ?_).symm
        exact (hattach ⟨⟨hid.2, hid.1⟩, hfree.2⟩).1 hfree.1

theorem endsAttached_congr {statusId : ℕ} {r : Request} {m m' : Media} (h : Frame m m')
    (hstatus : m'.statusId = m.statusId) :
    endsAttached statusId r m' = endsAttached statusId r m := by
  simp only [endsAttached, attaches, h.id, h.accountId, hstatus]

theorem statusId_reattached_iff (statusId : ℕ) (r : Request) (m : Media) :
    (reattached statusId r m).statusId = some statusId ↔ endsAttached statusId r m = true := by
  unfold reattached endsAttached
  cases r.form.mediaIds with
  | none => simp
  | some ids =>
      dsimp only
      rw [statusId_foldl_attach]
      unfold detach
      split
      next hdetach =>
        simp only [Bool.and_eq_true, Bool.not_eq_true', decide_eq_true_eq] at hdetach
        obtain ⟨⟨hok, hown⟩, hother⟩ := hdetach
        have hnone : ((parsedIds ids).zipIdx.any fun id =>
            decide (m.id = id.1) && !r.fails (.attach id.2)) = false := by
          refine List.any_eq_false.mpr fun id hid => ?_
          have hne : m.id ≠ id.1 := fun heq => hother (heq ▸ List.fst_mem_of_mem_zipIdx hid)
          simp [hne]
        simp only [attaches, hnone, hok, hown, hother]
        simp
      next hdetach =>
        simp only [Bool.and_eq_true, Bool.not_eq_true', decide_eq_true_eq, not_and,
          Decidable.not_not] at hdetach
        simp only [Bool.or_eq_true, Bool.and_eq_true, decide_eq_true_eq]
        refine or_congr_left ⟨fun hown => ⟨hown, ?_⟩, fun h => h.1⟩
        cases hok : r.fails .detach with
        | true => exact .inl rfl
        | false => exact .inr (hdetach ⟨hok, hown⟩)

theorem statusId_edited_iff (statusId : ℕ) (r : Request) (m : Media) :
    (reattached statusId r (described r m)).statusId = some statusId ↔
      endsAttached statusId r m = true := by
  rw [statusId_reattached_iff,
    endsAttached_congr (frame_described r m) (statusId_described r m)]

def idsAfter (s : Store) (r : Request) : List ℤ :=
  ((s.media.rows.filter fun m => endsAttached s.status.id r m && m.hasUrl).map (·.id)).mergeSort
    fun a b => decide (a ≤ b)

theorem attached_ids (s : Store) : s.attached.map (·.id) =
    ((s.media.rows.filter fun m => decide (m.statusId = some s.status.id) && m.hasUrl).map
      (·.id)).mergeSort fun a b => decide (a ≤ b) :=
  List.map_mergeSort fun _ _ _ _ => rfl

theorem attached_ids_edited (hid : s'.status.id = s.status.id)
    (hmedia : s'.media = editAttachments s.status.id r (editDescriptions r s.media)) :
    s'.attached.map (·.id) = idsAfter s r := by
  rw [attached_ids, idsAfter, hmedia, rows_editMedia, List.filter_map, List.map_map, hid]
  congr 1
  have hids : ((fun m : Media => m.id) ∘ fun m => reattached s.status.id r (described r m)) =
      fun m => m.id := funext fun m => (frame_edited s.status.id r m).id
  rw [hids]
  congr 1
  refine List.filter_congr fun m _ => ?_
  have hiff := statusId_edited_iff s.status.id r m
  simp only [Function.comp_apply, (frame_edited s.status.id r m).hasUrl]
  congr 1
  exact Bool.eq_iff_iff.mpr (by rw [decide_eq_true_eq]; exact hiff)

/-! ### The poll -/

/-- The current version shows the poll of the status. -/
def linked (s : Store) : Bool := s.poll.isNone || s.status.pollId.isSome

theorem current_poll_iff : s.current.poll = s.shown.poll ↔ linked s = true := by
  unfold Store.current Store.shown linked
  cases s.poll <;> cases s.status.pollId <;> simp

/-- An edit leaves the poll one that the current version shows. -/
def endsLinked (s : Store) (r : Request) : Bool :=
  match r.form.poll, s.poll with
  | some (some _), none =>
      r.fails .insertPoll || !r.fails .linkPoll || s.status.pollId.isSome
  | some none, some _ => r.fails .unlinkPoll || !r.fails .deletePoll
  | _, _ => true

theorem linked_editPoll (h : linked s = true) (r : Request) :
    linked (s.editPoll r) = endsLinked s r := by
  unfold Store.editPoll endsLinked
  cases hform : r.form.poll with
  | none => exact h
  | some form =>
      cases form with
      | none =>
          cases hpoll : s.poll with
          | none => exact h
          | some ep =>
              have hid : s.status.pollId.isSome = true := by simpa [linked, hpoll] using h
              cases r.fails .unlinkPoll <;> cases r.fails .deletePoll <;> simp [linked, hid]
      | some pf =>
          cases hpoll : s.poll with
          | none =>
              cases r.fails .insertPoll <;> cases r.fails .linkPoll <;> simp [linked, hpoll]
          | some ep =>
              have hid : s.status.pollId.isSome = true := by simpa [linked, hpoll] using h
              cases r.fails .updatePoll <;> simp [linked, hid]

theorem current_eq_shown_iff : s.current = s.shown ↔
    named s.media s.status.orderedMediaAttachmentIds = s.attached.map (·.id) ∧
      linked s = true := by
  rw [← orderedMedia_eq_attached_iff, ← current_poll_iff]
  constructor
  · intro h
    exact ⟨congrArg Version.media h, congrArg Version.poll h⟩
  · rintro ⟨hmedia, hpoll⟩
    exact Version.ext rfl rfl rfl rfl hmedia hpoll

/-! ### What an edit does to the store -/

/-- What follows the `UPDATE` leaves alone all but the media and the poll. -/
structure Followed (s s' : Store) : Prop where
  edits : s'.edits = s.edits
  now : s'.now = s.now
  status : ∃ pollId, s'.status = { s.status with pollId := pollId }

theorem followed_editPoll (s : Store) (r : Request) : Followed s (s.editPoll r) := by
  unfold Store.editPoll
  split
  · split <;> exact ⟨rfl, rfl, _, rfl⟩
  · split
    · exact ⟨rfl, rfl, _, rfl⟩
    · split <;> exact ⟨rfl, rfl, _, rfl⟩
  · split <;> exact ⟨rfl, rfl, _, rfl⟩
  · exact ⟨rfl, rfl, _, rfl⟩

theorem media_editPoll (s : Store) (r : Request) : (s.editPoll r).media = s.media := by
  unfold Store.editPoll
  split
  · split <;> rfl
  · split <;> rfl
  · rfl
  · rfl

theorem followed_follow (s : Store) (r : Request) : Followed s (s.follow r).1 := by
  unfold Store.follow
  split
  · exact ⟨rfl, rfl, _, rfl⟩
  · have hpoll := followed_editPoll
      { s with media := editAttachments s.status.id r (editDescriptions r s.media) } r
    exact ⟨hpoll.edits, hpoll.now, hpoll.status⟩

theorem sameMedia_follow (s : Store) (r : Request) :
    ∃ f, SameMedia s.media (s.follow r).1.media f := by
  unfold Store.follow
  split
  · exact ⟨id, (List.map_id _).symm, fun _ => rfl, fun _ => rfl⟩
  · have hmedia := sameMedia_edited s.status.id r s.media
    dsimp only
    rw [media_editPoll]
    exact ⟨_, hmedia⟩

def saves (e : Env) (s : Store) (r : Request) : Bool :=
  (match check e s r with
    | .ok (some _) => true
    | _ => false) &&
  !(s.hasOrderedMedia && r.fails .descriptions) && !r.fails .snapshot

/-- What becomes of the store: a request waits and is refused or changes nothing, or takes a
snapshot, after which the `UPDATE` may fail. -/
theorem editStatus_cases (e : Env) (s : Store) (r : Request) :
    saves e s r = false ∧ (editStatus e s r).1 = s.wait r.elapsed ∨
    saves e s r = true ∧ r.fails .update = true ∧
      (editStatus e s r).1 = (s.wait r.elapsed).saveSnapshot ∨
    ∃ p, saves e s r = true ∧ r.fails .update = false ∧
      (editStatus e s r).1 = (((s.wait r.elapsed).saveSnapshot.save p).follow r).1 := by
  have hcheck : check e (s.wait r.elapsed) r = check e s r := rfl
  unfold editStatus saves
  dsimp only
  rw [hcheck]
  cases hresult : check e s r with
  | error error => exact .inl ⟨rfl, rfl⟩
  | ok proposal =>
      cases proposal with
      | none => exact .inl ⟨rfl, rfl⟩
      | some p =>
          have hordered : (s.wait r.elapsed).hasOrderedMedia = s.hasOrderedMedia := rfl
          simp only [Store.edit, hordered]
          cases hread : s.hasOrderedMedia && r.fails .descriptions <;>
            cases hsnapshot : r.fails .snapshot <;> cases hupdate : r.fails .update <;> simp
          exact ⟨p, rfl⟩

/-! ### Runs -/

/-- The store, and what the status showed, each time that changed. -/
structure History where
  store : Store
  versions : List Version

def start (s : Store) : History := ⟨s, [s.shown]⟩

def step (e : Env) (x : History) (r : Request) : History :=
  let s' := (editStatus e x.store r).1
  ⟨s', if s'.shown = x.store.shown then x.versions else x.versions ++ [s'.shown]⟩

/-- `status_edits` gives every version there was, in chronological order, the last being what
the status shows. -/
structure Faithful (x : History) : Prop where
  versions : statusEdits x.store = x.versions
  chronological : (statusEdits x.store).Pairwise fun a b => a.createdAt < b.createdAt
  last : (statusEdits x.store).getLast? = some x.store.shown

/-- The snapshots are in the order of their versions, all of them before the current one. -/
structure Kept (s : Store) : Prop where
  sorted : s.edits.Pairwise fun a b => a.createdAt ≤ b.createdAt
  before : ∀ edit ∈ s.edits, edit.createdAt ≤ s.status.versionTime
  clock : s.status.versionTime ≤ s.now
  described : ∀ edit ∈ s.edits, Described edit

theorem Kept.statusEdits (h : Kept s) :
    statusEdits s = s.edits.map (·.version s.media) ++ [s.current] := by
  unfold StatusEdits.statusEdits
  rw [List.mergeSort_of_pairwise (h.sorted.imp fun hle => decide_eq_true hle)]

theorem Kept.wait (h : Kept s) (elapsed : ℕ) : Kept (s.wait elapsed) where
  sorted := h.sorted
  before := h.before
  clock := by
    change s.status.versionTime ≤ s.now + elapsed + 1
    have hclock := h.clock
    omega
  described := h.described

theorem Kept.saveSnapshot (h : Kept s) : Kept s.saveSnapshot where
  sorted := by
    refine List.pairwise_append.mpr ⟨h.sorted, List.pairwise_singleton _ _, ?_⟩
    intro a ha b hb
    rw [List.mem_singleton.mp hb]
    exact h.before a ha
  before := by
    intro edit hedit
    rcases List.mem_append.mp hedit with hedit | hedit
    · exact h.before edit hedit
    · rw [List.mem_singleton.mp hedit]
      exact le_rfl
  clock := h.clock
  described := by
    intro edit hedit
    rcases List.mem_append.mp hedit with hedit | hedit
    · exact h.described edit hedit
    · rw [List.mem_singleton.mp hedit]
      exact described_snapshot s

theorem Kept.save (h : Kept s) (p : Proposal) : Kept (s.save p) where
  sorted := h.sorted
  before edit hedit := (h.before edit hedit).trans h.clock
  clock := le_rfl
  described := h.described

theorem Kept.follow (h : Kept s) (r : Request) : Kept (s.follow r).1 := by
  obtain ⟨hedits, hnow, pollId, hstatus⟩ := followed_follow s r
  have htime : (s.follow r).1.status.versionTime = s.status.versionTime := by rw [hstatus]; rfl
  constructor
  · rw [hedits]
    exact h.sorted
  · rw [hedits, htime]
    exact h.before
  · rw [hnow, htime]
    exact h.clock
  · rw [hedits]
    exact h.described

theorem kept_step (e : Env) (x : History) (r : Request) (h : Kept x.store) :
    Kept (step e x r).store := by
  change Kept (editStatus e x.store r).1
  rcases editStatus_cases e x.store r with ⟨-, hs⟩ | ⟨-, -, hs⟩ | ⟨p, -, -, hs⟩ <;> rw [hs]
  · exact h.wait r.elapsed
  · exact (h.wait r.elapsed).saveSnapshot
  · exact ((h.wait r.elapsed).saveSnapshot.save p).follow r

/-! ### What keeps the history faithful -/

/-- The `UPDATE` of an edit that supersedes a version goes through. That version's poll, if it
has one, has options. Where the edit goes on to the media and the poll, it leaves attached just
the media that the status's order names, in the order of their ids, and a poll that `poll_id`
tells of. -/
def Careful (e : Env) (s : Store) (r : Request) : Prop :=
  saves e s r = true → r.fails .update = false ∧ (∀ ep ∈ s.poll, ep.options ≠ []) ∧
    (r.fails .tags = false → r.fails .mentions = false →
      named s.media s.status.orderedMediaAttachmentIds = idsAfter s r ∧ endsLinked s r = true)

theorem snapshot_version_iff (hcurrent : s.current = s.shown) :
    s.snapshot.version s.media = s.current ↔ ∀ ep ∈ s.poll, ep.options ≠ [] := by
  have hpoll : (s.snapshot.version s.media).poll = s.current.poll ↔
      ∀ ep ∈ s.poll, ep.options ≠ [] := by
    rw [hcurrent]
    change ((s.poll.map (·.options)).filter (!·.isEmpty)) = s.poll.map (·.options) ↔ _
    cases s.poll with
    | none => simp
    | some ep => cases hoptions : ep.options <;> simp [Option.filter_some, hoptions]
  rw [← hpoll]
  constructor
  · exact congrArg Version.poll
  · intro h
    exact Version.ext rfl rfl rfl rfl orderedMedia_snapshot h

theorem faithful_superseded_iff {x : History} {f : Media → Media} (hkept : Kept x.store)
    (hx : Faithful x) (hkept' : Kept s') (hmedia : SameMedia x.store.media s'.media f)
    (hedits : s'.edits = x.store.edits ++ [x.store.snapshot])
    (htime : x.store.status.versionTime < s'.status.versionTime) :
    Faithful ⟨s', x.versions ++ [s'.shown]⟩ ↔
      (∀ ep ∈ x.store.poll, ep.options ≠ []) ∧ s'.current = s'.shown := by
  obtain ⟨hversions, hchronological, hlast⟩ := hx
  rw [hkept.statusEdits] at hversions hchronological hlast
  have hcurrent : x.store.current = x.store.shown := by
    rw [List.getLast?_concat] at hlast
    exact Option.some.inj hlast
  have hpast : s'.edits.map (·.version s'.media) =
      x.store.edits.map (·.version x.store.media) ++
        [x.store.snapshot.version x.store.media] := by
    rw [hedits, List.map_append]
    congr 1
    · exact List.map_congr_left fun edit hedit => hmedia.version (hkept.described edit hedit)
    · exact congrArg (fun v => [v]) (hmedia.version (described_snapshot x.store))
  rw [← snapshot_version_iff hcurrent]
  constructor
  · intro h
    have hall := h.versions
    rw [hkept'.statusEdits, hpast, ← hversions] at hall
    obtain ⟨hsnapshot, hshown⟩ := List.append_inj hall (by simp)
    exact ⟨List.singleton_inj.mp (List.append_cancel_left hsnapshot),
      List.singleton_inj.mp hshown⟩
  · rintro ⟨hsnapshot, hshown⟩
    have hlist : statusEdits s' = x.versions ++ [s'.shown] := by
      rw [hkept'.statusEdits, hpast, hsnapshot, hversions, hshown]
    refine ⟨hlist, ?_, ?_⟩
    · rw [hlist, ← hversions]
      refine List.pairwise_append.mpr ⟨hchronological, List.pairwise_singleton _ _, ?_⟩
      intro a ha b hb
      rw [List.mem_singleton.mp hb]
      change a.createdAt < s'.status.versionTime
      rcases List.mem_append.mp ha with ha | ha
      · obtain ⟨edit, hedit, rfl⟩ := List.mem_map.mp ha
        exact (hkept.before edit hedit).trans_lt htime
      · rw [List.mem_singleton.mp ha]
        exact htime
    · rw [hlist, List.getLast?_concat]

theorem current_eq_shown_follow (hcurrent : s.current = s.shown) (p : Proposal) (r : Request) :
    ((s.saveSnapshot.save p).follow r).1.current = ((s.saveSnapshot.save p).follow r).1.shown ↔
      (r.fails .tags = false → r.fails .mentions = false →
        named s.media s.status.orderedMediaAttachmentIds = idsAfter s r ∧
          endsLinked s r = true) := by
  obtain ⟨horder, hlinked⟩ := current_eq_shown_iff.mp hcurrent
  rw [current_eq_shown_iff]
  unfold Store.follow
  split
  next hfails =>
    refine iff_of_true ⟨horder, hlinked⟩ fun htags hmentions => ?_
    rw [htags, hmentions] at hfails
    cases hfails
  next hfails =>
    simp only [Bool.or_eq_true, not_or, Bool.not_eq_true] at hfails
    simp only [hfails.1, hfails.2, true_imp_iff]
    let edited : Store :=
      { s.saveSnapshot.save p with
        media := editAttachments s.status.id r (editDescriptions r s.media) }
    change named (edited.editPoll r).media (edited.editPoll r).status.orderedMediaAttachmentIds =
      (edited.editPoll r).attached.map (·.id) ∧ linked (edited.editPoll r) = true ↔ _
    obtain ⟨pollId, hstatus⟩ := (followed_editPoll edited r).status
    have hmedia := media_editPoll edited r
    rw [attached_ids_edited (s := s) (by rw [hstatus]; rfl) hmedia, hmedia,
      (sameMedia_edited s.status.id r s.media).named, hstatus,
      linked_editPoll (s := edited) hlinked r]
    exact Iff.rfl

theorem faithful_step_iff (e : Env) (x : History) (r : Request) (hkept : Kept x.store)
    (hx : Faithful x) : Faithful (step e x r) ↔ Careful e x.store r := by
  have hkept' := kept_step e x r hkept
  have hcurrent : x.store.current = x.store.shown := by
    have hlast := hx.last
    rw [hkept.statusEdits, List.getLast?_concat] at hlast
    exact Option.some.inj hlast
  unfold Careful
  unfold step at hkept' ⊢
  dsimp only at hkept' ⊢
  rcases editStatus_cases e x.store r with ⟨hsaves, hs⟩ | ⟨hsaves, hupdate, hs⟩ |
    ⟨p, hsaves, hupdate, hs⟩ <;> rw [hs] at hkept' ⊢ <;> simp only [hsaves]
  · have hshown : (x.store.wait r.elapsed).shown = x.store.shown := rfl
    rw [if_pos hshown]
    refine iff_of_true ⟨hx.versions, hx.chronological, hx.last⟩ fun h => nomatch h
  · have hshown : (x.store.wait r.elapsed).saveSnapshot.shown = x.store.shown := rfl
    rw [if_pos hshown]
    refine iff_of_false (fun h => ?_) fun h => ?_
    · have hlength := congrArg List.length (h.versions.trans hx.versions.symm)
      rw [hkept'.statusEdits, hkept.statusEdits] at hlength
      simp [Store.saveSnapshot, Store.wait] at hlength
    · rw [hupdate] at h
      exact absurd (h trivial).1 (by simp)
  · obtain ⟨f, hmedia⟩ := sameMedia_follow ((x.store.wait r.elapsed).saveSnapshot.save p) r
    obtain ⟨hedits, -, pollId, hstatus⟩ :=
      followed_follow ((x.store.wait r.elapsed).saveSnapshot.save p) r
    have htime : x.store.status.versionTime <
        (((x.store.wait r.elapsed).saveSnapshot.save p).follow r).1.status.versionTime := by
      rw [hstatus]
      change x.store.status.versionTime < x.store.now + r.elapsed + 1
      have hclock := hkept.clock
      omega
    rw [if_neg fun h => htime.ne' (congrArg Version.createdAt h),
      faithful_superseded_iff hkept hx hkept' hmedia hedits htime,
      current_eq_shown_follow (s := x.store.wait r.elapsed) hcurrent p r]
    simp only [hupdate, true_imp_iff, true_and]
    exact Iff.rfl

/-- A status that has not been edited. -/
structure Posted (s : Store) : Prop where
  edits : s.edits = []
  editedAt : s.status.editedAt = none
  clock : s.status.createdAt ≤ s.now

theorem Posted.kept (h : Posted s) : Kept s := by
  refine ⟨?_, ?_, ?_, ?_⟩
  · rw [h.edits]
    exact List.Pairwise.nil
  · simp [h.edits]
  · rw [Status.versionTime, h.editedAt]
    exact h.clock
  · simp [h.edits]

/-- What the status names as its media and its poll is what it shows. -/
def Aligned (s : Store) : Prop :=
  named s.media s.status.orderedMediaAttachmentIds = s.attached.map (·.id) ∧ linked s = true

theorem faithful_start_iff (h : Posted s) : Faithful (start s) ↔ Aligned s := by
  have hlist : statusEdits s = [s.current] := by rw [h.kept.statusEdits, h.edits]; rfl
  rw [Aligned, ← current_eq_shown_iff]
  constructor
  · intro hfaithful
    have hversions := hfaithful.versions
    change statusEdits s = [s.shown] at hversions
    rw [hlist] at hversions
    exact List.singleton_inj.mp hversions
  · intro hcurrent
    refine ⟨?_, ?_, ?_⟩ <;> simp [start, hlist, hcurrent]

/-- The history of a status is faithful throughout a sequence of edits exactly if the status
starts out aligned and every edit is careful. -/
theorem faithful_throughout_iff (e : Env) (s : Store) (rs : List Request) (hposted : Posted s) :
    (∀ before, before <+: rs → Faithful (run (step e) (start s) before)) ↔
      Aligned s ∧ Guarded (step e) (fun x r => Careful e x.store r) (start s) rs := by
  have hthroughout (haligned : Aligned s) :=
    throughout_iff_guarded (J := fun x => Kept x.store) (P := Faithful) (kept_step e)
      (faithful_step_iff e) (start s) rs hposted.kept ((faithful_start_iff hposted).mpr haligned)
  constructor
  · intro h
    have haligned : Aligned s := (faithful_start_iff hposted).mp (h [] List.nil_prefix)
    exact ⟨haligned, (hthroughout haligned).mp h⟩
  · rintro ⟨haligned, hguarded⟩
    exact (hthroughout haligned).mpr hguarded

/-! ### An edited post with an attachment -/

instance (e : Env) (s : Store) (r : Request) : Decidable (Careful e s r) :=
  inferInstanceAs (Decidable (saves e s r = true → r.fails .update = false ∧
    (∀ ep ∈ s.poll, ep.options ≠ []) ∧
    (r.fails .tags = false → r.fails .mentions = false →
      named s.media s.status.orderedMediaAttachmentIds = idsAfter s r ∧ endsLinked s r = true)))

instance (s : Store) : Decidable (Aligned s) :=
  inferInstanceAs (Decidable
    (named s.media s.status.orderedMediaAttachmentIds = s.attached.map (·.id) ∧
      linked s = true))

/-- Texts count by their length, and nothing is found in them. -/
def plainEnv : Env where
  domain := "s.example"
  countableLength := fun text spoiler => text.length + spoiler.length
  graphemes := String.length
  extractHashtags := fun _ => []
  extractMentionHandles := fun _ => []
  tagName := id
  lower := id
  resolveActor := fun _ _ => none
  supportedLocale := fun locale => locale = "en"
  parseRfc3339 := fun _ => none
  hasSigningKey := fun _ => false
  reach := fun _ _ _ => []

def posted (ordered : Option (List ℤ)) : Store where
  status :=
    { id := 1
      accountId := 7
      isReblog := false
      text := "First"
      spoilerText := ""
      sensitive := false
      language := some "en"
      quoteApprovalPolicy := 0
      visibility := .pub
      orderedMediaAttachmentIds := ordered
      pollId := none
      createdAt := 100
      editedAt := none }
  media := Table.empty.insert ⟨5, 7, some 1, some "A cat", true⟩
  poll := none
  nextPollId := 1
  edits := []
  preferredLanguage := none
  now := 200

def noChange : EditStatusForm := ⟨none, none, none, none, none, none, none, none⟩

def editOf (form : EditStatusForm) : Request := ⟨7, form, 0, fun _ => false⟩

/-- The text is changed, then the attachment's description, then a poll is added. -/
def threeEdits : List Request :=
  [editOf { noChange with status := some "Second" },
    editOf { noChange with mediaAttributes := some [⟨"5", some "A dog"⟩] },
    editOf { noChange with poll := some (some ⟨["yes", "no"], some 300, none, none⟩) }]

example : (run (step plainEnv) (start (posted none)) []).versions.length = 1 := by decide +kernel

theorem faithful_throughout_iff_ordered :
    (∀ before, before <+: threeEdits →
      Faithful (run (step plainEnv) (start (posted (some [5]))) before)) ∧
    (run (step plainEnv) (start (posted (some [5]))) threeEdits).versions.length = 4 :=
  ⟨(faithful_throughout_iff plainEnv (posted (some [5])) threeEdits
    ⟨rfl, rfl, by decide⟩).mpr ⟨by decide +kernel, by decide +kernel⟩, by decide +kernel⟩

/-- The order of a post is not written when it is posted: after a change of its text neither
version in its history has the attachment that the post shows. -/
theorem attachment_left_out : ¬ ∀ (e : Env) (s : Store) (rs : List Request), Posted s →
    Faithful (run (step e) (start s) rs) := by
  intro h
  have hfaithful := h plainEnv (posted none) [editOf { noChange with status := some "Second" }]
    ⟨rfl, rfl, by decide⟩
  have hhistory : (statusEdits (run (step plainEnv) (start (posted none))
      [editOf { noChange with status := some "Second" }]).store).map (·.media) = [[], []] := by
    decide +kernel
  have hshown : (run (step plainEnv) (start (posted none))
      [editOf { noChange with status := some "Second" }]).versions.map (·.media) =
        [[⟨5, some "A cat"⟩], [⟨5, some "A cat"⟩]] := by
    decide +kernel
  rw [hfaithful.versions, hshown] at hhistory
  cases hhistory

end Eunha.EditHistory
