import Eunha.Posting

/-!
# Editing a status and its history

`edit_status` statement by statement, and `status_edits`, which renders every version of the
status from the snapshots that were taken of it. A request whose statement fails leaves what the
statements before it wrote. Times are in microseconds.
-/
namespace Eunha.StatusEdits
open Tables
open Database (Visibility)
open Posting (Env Error PollForm parseId validatePollForm validLocaleCascade defaultLocale fromApi
  downgradeQuotePolicy unprocessable)

/-! ### The database -/

structure Status where
  id : ℕ
  accountId : ℕ
  isReblog : Bool
  text : String
  spoilerText : String
  sensitive : Bool
  language : Option String
  quoteApprovalPolicy : BitVec 32
  visibility : Visibility
  orderedMediaAttachmentIds : Option (List ℤ)
  pollId : Option ℕ
  createdAt : ℕ
  editedAt : Option ℕ
  deriving DecidableEq

/-- `edited_at.unwrap_or(created_at)` -/
def Status.versionTime (s : Status) : ℕ := s.editedAt.getD s.createdAt

/-- A row of `media_attachments`. -/
structure Media where
  id : ℤ
  accountId : ℕ
  statusId : Option ℕ
  description : Option String
  /-- It has a URL of its own or a remote one, without which it is not shown. -/
  hasUrl : Bool
  deriving DecidableEq

def Media.keys (m : Media) : List ℤ := [m.id]

structure Poll where
  id : ℕ
  options : List String
  multiple : Bool
  hideTotals : Bool
  deriving DecidableEq

/-- A row of `status_edits`. -/
structure StatusEdit where
  text : String
  spoilerText : String
  sensitive : Bool
  orderedMediaAttachmentIds : Option (List ℤ)
  mediaDescriptions : Option (List (Option String))
  pollOptions : Option (List String)
  createdAt : ℕ
  deriving DecidableEq

/-- A status with what the database has about it, and the clock. -/
structure Store where
  status : Status
  media : Table Media.keys
  /-- The poll whose `status_id` is the status's. -/
  poll : Option Poll
  nextPollId : ℕ
  edits : List StatusEdit
  /-- The author's posting language. -/
  preferredLanguage : Option String
  now : ℕ

/-- The statements of an edit that the rest of it depends on. -/
inductive Statement where
  | status
  | settings
  | currentMedia
  | existingPoll
  | descriptions
  | snapshot
  | update
  | tags
  | mentions
  | describe (position : ℕ)
  | detach
  | attach (position : ℕ)
  | updatePoll
  | insertPoll
  | linkPoll
  | unlinkPoll
  | deletePoll
  | reload
  deriving DecidableEq

/-! ### The request -/

structure EditMediaAttribute where
  id : String
  description : Option String
  deriving DecidableEq

structure EditStatusForm where
  status : Option String
  spoilerText : Option String
  sensitive : Option Bool
  language : Option String
  mediaIds : Option (List String)
  mediaAttributes : Option (List EditMediaAttribute)
  /-- A poll that is absent is left as it is, one that is null is removed. -/
  poll : Option (Option PollForm)
  quoteApprovalPolicy : Option String
  deriving DecidableEq

/-- A request, the time that passes before it beside the clock's least step, and the statements
that fail. -/
structure Request where
  accountId : ℕ
  form : EditStatusForm
  elapsed : ℕ
  fails : Statement → Bool

/-- `ids.iter().filter_map(|s| s.parse::<i64>().ok())` -/
def parsedIds (ids : List String) : List ℤ := ids.filterMap parseId

/-! ### What is shown -/

structure Attachment where
  id : ℤ
  description : Option String
  deriving DecidableEq

/-- A version of a status: what it shows, or what its history shows of it. -/
@[ext] structure Version where
  text : String
  spoilerText : String
  sensitive : Bool
  createdAt : ℕ
  media : List Attachment
  poll : Option (List String)
  deriving DecidableEq

/-- `media_from_db` -/
def Media.shown (m : Media) : Attachment := ⟨m.id, m.description⟩

/-- `SELECT * FROM media_attachments WHERE id = …` -/
def mediaOf (media : Table Media.keys) (id : ℤ) : Option Media :=
  media.rows.find? fun m => decide (m.id = id)

/-- The attachments of the status that are shown: `fetch_status_media`, in the order of their
ids. -/
def Store.attached (s : Store) : List Media :=
  (s.media.rows.filter fun m => decide (m.statusId = some s.status.id) && m.hasUrl).mergeSort
    fun m n => decide (m.id ≤ n.id)

def Store.shown (s : Store) : Version where
  text := s.status.text
  spoilerText := s.status.spoilerText
  sensitive := s.status.sensitive
  createdAt := s.status.versionTime
  media := s.attached.map (·.shown)
  poll := s.poll.map (·.options)

def preserved (media : Table Media.keys) (descriptions : Option (List (Option String)))
    (id : ℤ) (position : ℕ) : Option Attachment := do
  let m ← (mediaOf media id).filter (·.hasUrl)
  match descriptions with
  | none => some m.shown
  | some descriptions => some ⟨m.id, (descriptions[position]?).join⟩

def orderedMedia (media : Table Media.keys) (ids : Option (List ℤ))
    (descriptions : Option (List (Option String))) : List Attachment :=
  (ids.getD []).zipIdx.filterMap fun (id, position) => preserved media descriptions id position

def StatusEdit.version (media : Table Media.keys) (edit : StatusEdit) : Version where
  text := edit.text
  spoilerText := edit.spoilerText
  sensitive := edit.sensitive
  createdAt := edit.createdAt
  media := orderedMedia media edit.orderedMediaAttachmentIds edit.mediaDescriptions
  poll := edit.pollOptions.filter (!·.isEmpty)

def Store.current (s : Store) : Version where
  text := s.status.text
  spoilerText := s.status.spoilerText
  sensitive := s.status.sensitive
  createdAt := s.status.versionTime
  media := orderedMedia s.media s.status.orderedMediaAttachmentIds none
  poll := if s.status.pollId.isSome then s.poll.map (·.options) else none

/-- `status_edits`: every version, oldest first and the current one last. -/
def statusEdits (s : Store) : List Version :=
  (s.edits.mergeSort fun a b => decide (a.createdAt ≤ b.createdAt)).map
    (·.version s.media) ++ [s.current]

/-! ### What an edit proposes -/

/-- The values of an edit that is significant. -/
structure Proposal where
  text : String
  spoilerText : String
  sensitive : Bool
  language : Option String
  quoteApprovalPolicy : BitVec 32
  deriving DecidableEq

def mediaChanged (s : Store) (r : Request) : Bool :=
  r.form.mediaAttributes.isSome ||
    match r.form.mediaIds with
    | none => false
    | some ids =>
        let current :=
          if r.fails .currentMedia then []
          else (s.media.rows.filter fun m => decide (m.statusId = some s.status.id)).map (·.id)
        decide ((parsedIds ids).mergeSort (· ≤ ·) ≠ current.mergeSort (· ≤ ·))

def pollChanged (s : Store) (form : EditStatusForm) : Bool :=
  match form.poll, s.poll with
  | some (some pf), some ep =>
      decide (pf.options ≠ ep.options) || decide (pf.multiple.getD false ≠ ep.multiple) ||
        decide (pf.hideTotals.getD false ≠ ep.hideTotals)
  | some (some _), none => true
  | some none, some _ => true
  | some none, none => false
  | none, _ => false

def significant (s : Store) (r : Request) (p : Proposal) : Bool :=
  decide (p.text ≠ s.status.text) || decide (p.spoilerText ≠ s.status.spoilerText) ||
    decide (p.sensitive ≠ s.status.sensitive) || decide (p.language ≠ s.status.language) ||
    decide (p.quoteApprovalPolicy ≠ s.status.quoteApprovalPolicy) ||
    mediaChanged s r || pollChanged s r.form

def must (r : Request) (l : Statement) : Except Error Unit :=
  if r.fails l then .error .database else .ok ()

section
variable (e : Env)

def propose (s : Store) (r : Request) : Except Error Proposal := do
  let text := r.form.status.getD s.status.text
  let spoiler := r.form.spoilerText.getD s.status.spoilerText
  if 500 < e.countableLength text spoiler then
    .error (unprocessable "Validation failed: Text character limit of 500 exceeded")
  let sensitive := r.form.sensitive.getD s.status.sensitive || !spoiler.isEmpty
  let preferred := if r.fails .settings then none else s.preferredLanguage
  let language := validLocaleCascade e
    [r.form.language, s.status.language, preferred, some defaultLocale]
  match r.form.poll with
  | some (some pf) => validatePollForm e pf
  | _ => .ok ()
  must r .existingPoll
  let policy ←
    match r.form.quoteApprovalPolicy.filter (!·.isEmpty) with
    | some requested =>
        match fromApi requested with
        | some policy => .ok policy
        | none => .error (unprocessable "Record invalid")
    | none => .ok s.status.quoteApprovalPolicy
  .ok ⟨text, spoiler, sensitive, language, downgradeQuotePolicy s.status.visibility policy⟩

/-- `edit_status`, up to what it writes first: what is to be saved, if the request changes the
status. -/
def check (s : Store) (r : Request) : Except Error (Option Proposal) := do
  must r .status
  if s.status.accountId ≠ r.accountId then .error (.app .notFound)
  if s.status.isReblog then .error (unprocessable "Reblogs cannot be edited")
  let p ← propose e s r
  .ok (if significant s r p then some p else none)

/-! ### What an edit writes -/

/-- Whether the attachments have their descriptions read for the snapshot. -/
def Store.hasOrderedMedia (s : Store) : Bool :=
  !(s.status.orderedMediaAttachmentIds.getD []).isEmpty

/-- The version that is superseded. -/
def Store.snapshot (s : Store) : StatusEdit where
  text := s.status.text
  spoilerText := s.status.spoilerText
  sensitive := s.status.sensitive
  orderedMediaAttachmentIds := s.status.orderedMediaAttachmentIds
  mediaDescriptions :=
    if s.hasOrderedMedia then
      s.status.orderedMediaAttachmentIds.map fun ids =>
        ids.map fun id => (mediaOf s.media id).bind (·.description)
    else none
  pollOptions := s.poll.map (·.options)
  createdAt := s.status.versionTime

/-- `INSERT INTO status_edits` -/
def Store.saveSnapshot (s : Store) : Store := { s with edits := s.edits ++ [s.snapshot] }

/-- `UPDATE statuses SET text = …, edited_at = now() WHERE id = …` -/
def Store.save (s : Store) (p : Proposal) : Store :=
  { s with
    status :=
      { s.status with
        text := p.text
        spoilerText := p.spoilerText
        sensitive := p.sensitive
        language := p.language
        quoteApprovalPolicy := p.quoteApprovalPolicy
        editedAt := some s.now } }

/-- `UPDATE media_attachments SET description = … WHERE id = … AND account_id = …`, for the
attribute at a position. -/
def describe (r : Request) (attr : EditMediaAttribute × ℕ) (m : Media) : Media :=
  match parseId attr.1.id, attr.1.description with
  | some id, some description =>
      if !r.fails (.describe attr.2) && decide (m.id = id) && decide (m.accountId = r.accountId)
      then { m with description := some description }
      else m
  | _, _ => m

/-- `UPDATE media_attachments SET status_id = NULL WHERE status_id = … AND id != ALL(…)` -/
def detach (statusId : ℕ) (r : Request) (ids : List ℤ) (m : Media) : Media :=
  if !r.fails .detach && decide (m.statusId = some statusId) && decide (m.id ∉ ids)
  then { m with statusId := none }
  else m

/-- `UPDATE media_attachments SET status_id = … WHERE id = … AND account_id = … AND (status_id
IS NULL OR status_id = …)`, for the id at a position. -/
def attach (statusId : ℕ) (r : Request) (id : ℤ × ℕ) (m : Media) : Media :=
  if !r.fails (.attach id.2) && decide (m.id = id.1) && decide (m.accountId = r.accountId) &&
    (m.statusId.isNone || decide (m.statusId = some statusId))
  then { m with statusId := some statusId }
  else m

theorem keys_describe (r : Request) (attr : EditMediaAttribute × ℕ) (m : Media) :
    (describe r attr m).keys = m.keys := by
  unfold describe
  split
  · split <;> rfl
  · rfl

theorem keys_detach (statusId : ℕ) (r : Request) (ids : List ℤ) (m : Media) :
    (detach statusId r ids m).keys = m.keys := by
  unfold detach
  split <;> rfl

theorem keys_attach (statusId : ℕ) (r : Request) (id : ℤ × ℕ) (m : Media) :
    (attach statusId r id m).keys = m.keys := by
  unfold attach
  split <;> rfl

def editDescriptions (r : Request) (media : Table Media.keys) : Table Media.keys :=
  ((r.form.mediaAttributes.getD []).zipIdx).foldl
    (fun media attr => media.update (describe r attr) (keys_describe r attr)) media

def editAttachments (statusId : ℕ) (r : Request) (media : Table Media.keys) : Table Media.keys :=
  match r.form.mediaIds with
  | none => media
  | some ids =>
      (parsedIds ids).zipIdx.foldl
        (fun media id => media.update (attach statusId r id) (keys_attach statusId r id))
        (media.update (detach statusId r (parsedIds ids)) (keys_detach statusId r (parsedIds ids)))

/-- The poll inserted, updated or deleted, after the votes it had. -/
def Store.editPoll (s : Store) (r : Request) : Store :=
  match r.form.poll, s.poll with
  | some (some pf), some ep =>
      if r.fails .updatePoll then s
      else
        { s with
          poll := some
            { ep with
              options := pf.options
              multiple := pf.multiple.getD false
              hideTotals := pf.hideTotals.getD false } }
  | some (some pf), none =>
      if r.fails .insertPoll then s
      else
        { s with
          poll := some ⟨s.nextPollId, pf.options, pf.multiple.getD false, pf.hideTotals.getD false⟩
          nextPollId := s.nextPollId + 1
          status :=
            if r.fails .linkPoll then s.status else { s.status with pollId := some s.nextPollId } }
  | some none, some _ =>
      { s with
        status := if r.fails .unlinkPoll then s.status else { s.status with pollId := none }
        poll := if r.fails .deletePoll then s.poll else none }
  | _, _ => s

/-- What follows the `UPDATE` of the status: the media and the poll, if the tags and the mentions
were stored. -/
def Store.follow (s : Store) (r : Request) : Store × Except Error Version :=
  if r.fails .tags || r.fails .mentions then (s, .error .database)
  else
    let s := { s with
      media := editAttachments s.status.id r (editDescriptions r s.media) }
    let s := s.editPoll r
    (s, if r.fails .reload then .error .database else .ok s.shown)

def Store.edit (s : Store) (r : Request) (p : Proposal) : Store × Except Error Version :=
  if (s.hasOrderedMedia && r.fails .descriptions) || r.fails .snapshot then (s, .error .database)
  else if r.fails .update then (s.saveSnapshot, .error .database)
  else (s.saveSnapshot.save p).follow r

/-- The time that passes before a request. -/
def Store.wait (s : Store) (elapsed : ℕ) : Store := { s with now := s.now + elapsed + 1 }

def editStatus (s : Store) (r : Request) : Store × Except Error Version :=
  let s := s.wait r.elapsed
  match check e s r with
  | .error error => (s, .error error)
  | .ok none => (s, if r.fails .reload then .error .database else .ok s.shown)
  | .ok (some p) => s.edit r p

end

end Eunha.StatusEdits
