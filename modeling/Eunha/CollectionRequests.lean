import Eunha.Collections
import Eunha.Interleaving
import Eunha.Sanitizer
import Eunha.SignedIds

/-!
# Requests about collections

A local account creates a collection, adds accounts to it, removes an item or revokes one.
Each request runs statement by statement beside the others, and any statement may fail. The
limits are checked by a read before the insertion, and the items are counted by a statement
after the change. The positions stay distinct and a refusal stands; the limits and the count
hold where no insertion finds its limit reached since its check and no count is left out.
-/
namespace Eunha.CollectionRequests
open Html (Text)
open Collections Interleaving Runs Tables Database

def maxItems : ℕ := 25

def nameMax : ℕ := 40

def descriptionMax : ℕ := 100

def defaultCollectionLimit : ℕ := 10

/-! ### The store -/

/-- The tables, and which account has refused to be in which collection, and has not agreed
to since. -/
structure Store where
  world : World
  withdrawn : List (ℕ × ℕ)

/-- `SELECT COUNT(*) FROM collection_items WHERE collection_id = … AND state IN (0, 1)` -/
def current (w : World) (collectionId : ℕ) : ℕ :=
  w.items.count fun it =>
    it.collectionId = collectionId ∧ (it.state = .pending ∨ it.state = .accepted)

/-- `SELECT COUNT(*) FROM collections WHERE account_id = …` -/
def owned (w : World) (accountId : ℕ) : ℕ := w.collections.count (·.accountId = accountId)

def isRemote (w : World) (accountId : ℕ) : Bool :=
  (w.db.account accountId).any (·.domain.isSome)

/-- The row `ON CONFLICT (account_id, collection_id)` finds. -/
def isFeatured (w : World) (accountId collectionId : ℕ) : Bool :=
  w.items.rows.any fun it => it.accountId = some accountId ∧ it.collectionId = collectionId

/-! ### The forms -/

structure Form where
  name : Option Text
  description : Option Text
  sensitive : Option Bool
  discoverable : Option Bool
  tagName : Option Text
  accountIds : List Text
  deriving DecidableEq

def checkForm (form : Form) : Except String Text :=
  let name := Sanitizer.trim (form.name.getD [])
  if name = [] then .error "name can't be blank"
  else if nameMax < name.length then
    .error s!"name is too long (maximum is {nameMax} characters)"
  else if form.description.any (descriptionMax < ·.length) then
    .error s!"description is too long (maximum is {descriptionMax} characters)"
  else .ok name

/-- `parse::<i64>`. No account has a negative id. -/
def accountIdOf (text : Text) : Option ℕ := (SignedIds.parseI64 text).bind (·.toInt.toNat?)

inductive Action where
  | add (accountId : Option Text)
  | delete (itemId : ℕ)
  | revoke (itemId : ℕ)
  deriving DecidableEq

/-! ### A request, statement by statement -/

structure Adding where
  collectionId : ℕ
  accountId : ℕ
  rest : List ℕ
  deriving DecidableEq

inductive Stage where
  | countCollections (form : Form) (name : Text)
  | resolveTag (form : Form) (name : Text)
  | insertCollection (form : Form) (name : Text)
  | load (collectionId : ℕ) (act : Action)
  | target (add : Adding)
  | countItems (add : Adding) (remote : Bool)
  | owner (add : Adding) (remote : Bool)
  | insertItem (add : Adding) (remote : Bool) (activityUri : Option String)
  | delete (collectionId itemId : ℕ)
  | revoke (collectionId itemId : ℕ)
  | refresh (collectionId : ℕ) (rest : List ℕ)
  deriving DecidableEq

structure Call where
  caller : ℕ
  stage : Stage
  deriving DecidableEq

def Call.go (c : Call) (stage : Stage) : Option Call := some { c with stage := stage }

/-- What a statement is answered from elsewhere: that it fails, whether the tag is found or
made, and the next id. -/
structure Answer where
  fails : Bool
  tagged : Bool
  nextId : ℕ
  deriving DecidableEq

def Call.addNext (c : Call) (collectionId : ℕ) : List ℕ → Option Call
  | [] => none
  | accountId :: rest => c.go (.target ⟨collectionId, accountId, rest⟩)

/-- A tag is looked for if one is given. -/
def afterLimit (form : Form) (name : Text) : Stage :=
  if form.tagName.any fun tag => Sanitizer.trim tag ≠ [] then .resolveTag form name
  else .insertCollection form name

def newCollection (w : World) (accountId : ℕ) (form : Form) (name : Text) : Collection where
  id := w.clock
  accountId := accountId
  name := String.ofList name
  discoverable := form.discoverable.getD false
  isLocal := true
  sensitive := form.sensitive.getD false
  itemCount := 0
  uri := none
  updatedAt := w.clock

def insertCollection (w : World) (accountId : ℕ) (form : Form) (name : Text) : World :=
  { w with
    collections := w.collections.insert (newCollection w accountId form name)
    clock := w.clock + 1 }

def Call.begin (c : Call) (collectionId : ℕ) : Action → Option Call
  | .add accountId => c.addNext collectionId (accountId.bind accountIdOf).toList
  | .delete itemId => c.go (.delete collectionId itemId)
  | .revoke itemId => c.go (.revoke collectionId itemId)

def ownerOf (w : World) (collectionId : ℕ) : Option Account :=
  ((w.collections.rows.find? (·.id = collectionId)).bind (w.db.account ·.accountId)).filter
    (·.domain.isNone)

def requestUri (domain : String) (w : World) (collectionId nextId : ℕ) : Option String :=
  (ownerOf w collectionId).map fun o =>
    s!"https://{domain}/users/{o.username}/feature_requests/{nextId}"

def newItem (w : World) (add : Adding) (remote : Bool) (activityUri : Option String) :
    CollectionItem where
  id := w.clock
  collectionId := add.collectionId
  accountId := some add.accountId
  position := nextPosition w add.collectionId
  state := if remote then .pending else .accepted
  uri := none
  approvalUri := none
  activityUri := activityUri
  updatedAt := w.clock

def insertItem (w : World) (add : Adding) (remote : Bool) (activityUri : Option String) : World :=
  { w with
    items := w.items.insert (newItem w add remote activityUri)
    clock := w.clock + 1 }

def isItem (collectionId itemId : ℕ) (it : CollectionItem) : Bool :=
  it.id = itemId ∧ it.collectionId = collectionId

def deleteItem (w : World) (collectionId itemId : ℕ) : World :=
  { w with items := w.items.deleteWhere (isItem collectionId itemId), clock := w.clock + 1 }

def revoked (now collectionId itemId : ℕ) (it : CollectionItem) : CollectionItem :=
  if isItem collectionId itemId it then { it with state := .revoked, updatedAt := now } else it

theorem keys_revoked (now collectionId itemId : ℕ) (it : CollectionItem) :
    (revoked now collectionId itemId it).keys = it.keys := by
  rw [revoked]
  split <;> rfl

def revokeItem (w : World) (collectionId itemId : ℕ) : World :=
  { w with
    items := w.items.update (revoked w.clock collectionId itemId)
      (keys_revoked w.clock collectionId itemId)
    clock := w.clock + 1 }

def refuse (s : Store) (caller collectionId itemId : ℕ) : List (ℕ × ℕ) :=
  if s.world.items.rows.any fun it =>
      isItem collectionId itemId it ∧ it.accountId = some caller then
    (caller, collectionId) :: s.withdrawn
  else s.withdrawn

def agree (s : Store) (caller : ℕ) (add : Adding) : List (ℕ × ℕ) :=
  if add.accountId = caller then s.withdrawn.filter (· ≠ (caller, add.collectionId))
  else s.withdrawn

/-- The next statement of a request that is not failing. -/
def proceed (domain : String) (s : Store) (c : Call) (w : Answer) : Store × Option Call :=
  match c.stage with
  | .countCollections form name =>
      (s, if defaultCollectionLimit ≤ owned s.world c.caller then none
        else c.go (afterLimit form name))
  | .resolveTag form name => (s, if w.tagged then c.go (.insertCollection form name) else none)
  | .insertCollection form name =>
      ({ s with world := insertCollection s.world c.caller form name },
        c.addNext s.world.clock (form.accountIds.filterMap accountIdOf))
  | .load id act =>
      match s.world.collections.rows.find? (·.id = id) with
      | none => (s, none)
      | some col => (s, if col.accountId = c.caller then c.begin id act else none)
  | .target add =>
      match s.world.db.account add.accountId with
      | none => (s, c.addNext add.collectionId add.rest)
      | some target =>
          (s, if target.unavailable then c.addNext add.collectionId add.rest
            else c.go (.countItems add target.domain.isSome))
  | .countItems add remote =>
      (s, if maxItems ≤ current s.world add.collectionId then c.addNext add.collectionId add.rest
        else c.go (.owner add remote))
  | .owner add remote =>
      (s, c.go (.insertItem add remote
        (if remote then requestUri domain s.world add.collectionId w.nextId else none)))
  | .insertItem add remote activityUri =>
      if isFeatured s.world add.accountId add.collectionId then
        (s, c.addNext add.collectionId add.rest)
      else
        (⟨insertItem s.world add remote activityUri, agree s c.caller add⟩,
          c.go (.refresh add.collectionId add.rest))
  | .delete id itemId =>
      if s.world.items.rows.any (isItem id itemId) then
        ({ s with world := deleteItem s.world id itemId }, c.go (.refresh id []))
      else (s, none)
  | .revoke id itemId =>
      if s.world.items.rows.any (isItem id itemId) then
        (⟨revokeItem s.world id itemId, refuse s c.caller id itemId⟩, c.go (.refresh id []))
      else (s, none)
  | .refresh id rest => ({ s with world := refreshItemCount s.world id }, c.addNext id rest)

/-- What follows a statement that fails: where an account is being added to a collection
just created, the next one. -/
def giveUp (c : Call) : Option Call :=
  match c.stage with
  | .target add => c.addNext add.collectionId add.rest
  | .countItems add _ => c.addNext add.collectionId add.rest
  | .owner add _ => c.addNext add.collectionId add.rest
  | .insertItem add _ _ => c.addNext add.collectionId add.rest
  | .refresh id rest => c.addNext id rest
  | _ => none

def exec (domain : String) (s : Store) (c : Call) (w : Answer) : Store × Option Call :=
  if w.fails then (s, giveUp c) else proceed domain s c w

/-! ### What else happens -/

def madeUnavailable (id : ℕ) (unavailable : Bool) (a : Account) : Account :=
  if a.id = id then { a with unavailable := unavailable } else a

theorem keys_madeUnavailable (id : ℕ) (unavailable : Bool) (a : Account) :
    (madeUnavailable id unavailable a).keys = a.keys := by
  rw [madeUnavailable]
  split <;> rfl

def setUnavailable (w : World) (id : ℕ) (unavailable : Bool) : World :=
  { w with
    db := { w.db with
      accounts := w.db.accounts.update (madeUnavailable id unavailable)
        (keys_madeUnavailable id unavailable) } }

def ItemState.answered (agrees : Bool) : ItemState → ItemState
  | .pending => if agrees then .accepted else .rejected
  | .accepted => if agrees then .accepted else .revoked
  | .rejected => .rejected
  | .revoked => .revoked

def answeredBy (accountId collectionId : ℕ) (agrees : Bool) (it : CollectionItem) :
    CollectionItem :=
  if it.accountId = some accountId ∧ it.collectionId = collectionId then
    { it with state := ItemState.answered agrees it.state }
  else it

theorem keys_answeredBy (accountId collectionId : ℕ) (agrees : Bool) (it : CollectionItem) :
    (answeredBy accountId collectionId agrees it).keys = it.keys := by
  rw [answeredBy]
  split <;> rfl

def answer (s : Store) (accountId collectionId : ℕ) (agrees : Bool) : Store where
  world :=
    refreshItemCount
      { s.world with
        items := s.world.items.update (answeredBy accountId collectionId agrees)
          (keys_answeredBy accountId collectionId agrees) }
      collectionId
  withdrawn :=
    if agrees then s.withdrawn.filter (· ≠ (accountId, collectionId))
    else (accountId, collectionId) :: s.withdrawn

inductive Request where
  | create (caller : ℕ) (form : Form)
  | about (caller collectionId : ℕ) (act : Action)
  /-- An account is suspended, or no longer is. -/
  | account (id : ℕ) (unavailable : Bool)
  | answer (accountId collectionId : ℕ) (agrees : Bool)

def enter (s : Store) : Request → Store × Option Call
  | .create caller form =>
      (s, match checkForm form with
        | .error _ => none
        | .ok name => some ⟨caller, .countCollections form name⟩)
  | .about caller id act => (s, some ⟨caller, .load id act⟩)
  | .account id unavailable => ({ s with world := setUnavailable s.world id unavailable }, none)
  | .answer accountId id agrees =>
      (if isRemote s.world accountId then answer s accountId id agrees else s, none)

def requests (domain : String) : Machine Store Call Request Answer where
  enter := enter
  exec := exec domain

/-! ### What is asked of the collections -/

structure Kept (s : Store) : Prop where
  counted : ∀ c ∈ s.world.collections.rows, c.itemCount = current s.world c.id
  limited : ∀ c ∈ s.world.collections.rows, c.itemCount ≤ maxItems
  owned : ∀ accountId, owned s.world accountId ≤ defaultCollectionLimit
  positions : ∀ collectionId,
    ((s.world.items.rows.filter (·.collectionId = collectionId)).map (·.position)).Nodup
  consented : ∀ it ∈ s.world.items.rows, it.state = .accepted →
    ∀ accountId, it.accountId = some accountId → (accountId, it.collectionId) ∉ s.withdrawn

def Owns (w : World) (accountId collectionId : ℕ) : Prop :=
  ∃ c ∈ w.collections.rows, c.id = collectionId ∧ c.accountId = accountId

/-- Rows are of times past, and who has refused is who could: an account of another server,
or the owner of the collection. -/
structure Coherent (s : Store) : Prop where
  collections : ∀ c ∈ s.world.collections.rows, c.id < s.world.clock
  items : ∀ it ∈ s.world.items.rows, it.id < s.world.clock ∧ it.collectionId < s.world.clock
  withdrawn : ∀ p ∈ s.withdrawn, isRemote s.world p.1 = true ∨ Owns s.world p.1 p.2

def Stage.refreshes : Stage → ℕ → Prop
  | .refresh id _, collectionId => id = collectionId
  | _, _ => False

def Counted (w : World) (calls : List Call) (c : Collection) : Prop :=
  c.itemCount = current w c.id ∨ ∃ d ∈ calls, d.stage.refreshes c.id

/-- What is asked of a statement, beside the other requests in progress. -/
def Sound (s : Store) (c : Call) (calls : List Call) (w : Answer) : Prop :=
  match c.stage with
  | .insertCollection _ _ => w.fails = false → owned s.world c.caller < defaultCollectionLimit
  | .insertItem add _ _ =>
      w.fails = false → isFeatured s.world add.accountId add.collectionId = false →
        current s.world add.collectionId < maxItems
  | .refresh id _ =>
      w.fails = true → ∀ col ∈ s.world.collections.rows, col.id = id →
        Counted s.world calls col
  | _ => True

def guards : Guards Store Call Request Answer where
  request _ _ _ := True
  statement := Sound

/-! ### What a change leaves as it was -/

variable {domain : String} {s : Store} {w w' : World} {c : Call} {calls : List Call}

/-- No collection is taken away or given to another account, and no account moves. -/
structure Keeps (w w' : World) : Prop where
  collections : ∀ c ∈ w.collections.rows,
    ∃ c' ∈ w'.collections.rows, c'.id = c.id ∧ c'.accountId = c.accountId
  remote : ∀ accountId, isRemote w' accountId = isRemote w accountId

theorem Keeps.refl (w : World) : Keeps w w :=
  ⟨fun c hc => ⟨c, hc, rfl, rfl⟩, fun _ => rfl⟩

theorem Keeps.trans {w'' : World} (h : Keeps w w') (h' : Keeps w' w'') : Keeps w w'' := by
  constructor
  · intro c hc
    obtain ⟨c', hc', hid, howner⟩ := h.collections c hc
    obtain ⟨c'', hc'', hid', howner'⟩ := h'.collections c' hc'
    exact ⟨c'', hc'', hid'.trans hid, howner'.trans howner⟩
  · intro accountId
    exact (h'.remote accountId).trans (h.remote accountId)

theorem Owns.keep {accountId id : ℕ} (h : Owns w accountId id) (hkeeps : Keeps w w') :
    Owns w' accountId id := by
  obtain ⟨c, hc, hid, howner⟩ := h
  obtain ⟨c', hc', hid', howner'⟩ := hkeeps.collections c hc
  exact ⟨c', hc', hid'.trans hid, howner'.trans howner⟩

theorem rows_refresh (w : World) (id : ℕ) :
    (refreshItemCount w id).collections.rows = w.collections.rows.map (recount w id) := rfl

theorem id_recount (w : World) (id : ℕ) (c : Collection) : (recount w id c).id = c.id := by
  unfold recount
  split <;> rfl

theorem accountId_recount (w : World) (id : ℕ) (c : Collection) :
    (recount w id c).accountId = c.accountId := by
  unfold recount
  split <;> rfl

theorem keeps_refresh (w : World) (id : ℕ) : Keeps w (refreshItemCount w id) := by
  refine ⟨fun c hc => ?_, fun _ => rfl⟩
  refine ⟨recount w id c, ?_, id_recount w id c, accountId_recount w id c⟩
  rw [rows_refresh]
  exact List.mem_map_of_mem hc

theorem keeps_insertCollection (w : World) (accountId : ℕ) (form : Form) (name : Text) :
    Keeps w (insertCollection w accountId form name) :=
  ⟨fun c hc => ⟨c, Table.mem_insert_of_mem hc, rfl, rfl⟩, fun _ => rfl⟩

theorem keeps_items (w : World) (items : Table CollectionItem.keys) (clock : ℕ) :
    Keeps w { w with items := items, clock := clock } :=
  ⟨fun c hc => ⟨c, hc, rfl, rfl⟩, fun _ => rfl⟩

theorem id_madeUnavailable (id : ℕ) (unavailable : Bool) (a : Account) :
    (madeUnavailable id unavailable a).id = a.id := by
  unfold madeUnavailable
  split <;> rfl

theorem domain_madeUnavailable (id : ℕ) (unavailable : Bool) (a : Account) :
    (madeUnavailable id unavailable a).domain = a.domain := by
  unfold madeUnavailable
  split <;> rfl

theorem isRemote_setUnavailable (w : World) (id : ℕ) (unavailable : Bool) (accountId : ℕ) :
    isRemote (setUnavailable w id unavailable) accountId = isRemote w accountId := by
  unfold isRemote Db.account setUnavailable Table.update
  dsimp only
  rw [List.find?_map, Option.any_map]
  have hsame : ((fun a : Account => decide (a.id = accountId)) ∘ madeUnavailable id unavailable) =
      fun a => decide (a.id = accountId) := by
    funext a
    rw [Function.comp_apply, id_madeUnavailable]
  rw [hsame]
  congr 1
  funext a
  exact congrArg Option.isSome (domain_madeUnavailable id unavailable a)

theorem keeps_setUnavailable (w : World) (id : ℕ) (unavailable : Bool) :
    Keeps w (setUnavailable w id unavailable) :=
  ⟨fun c hc => ⟨c, hc, rfl, rfl⟩, isRemote_setUnavailable w id unavailable⟩

/-! ### Items that change their state -/

/-- Neither an item's place nor whom it features changes. -/
structure InPlace (f : CollectionItem → CollectionItem) : Prop where
  keys : ∀ it, (f it).keys = it.keys
  id : ∀ it, (f it).id = it.id
  collectionId : ∀ it, (f it).collectionId = it.collectionId
  accountId : ∀ it, (f it).accountId = it.accountId
  position : ∀ it, (f it).position = it.position
  /-- None comes to be counted. -/
  counted : ∀ it, (f it).state = .pending ∨ (f it).state = .accepted →
    it.state = .pending ∨ it.state = .accepted

theorem inPlace_revoked (now id itemId : ℕ) : InPlace (revoked now id itemId) where
  keys := keys_revoked now id itemId
  id := by intro it; unfold revoked; split <;> rfl
  collectionId := by intro it; unfold revoked; split <;> rfl
  accountId := by intro it; unfold revoked; split <;> rfl
  position := by intro it; unfold revoked; split <;> rfl
  counted := by
    intro it h
    unfold revoked at h
    split at h
    · simp at h
    · exact h

theorem inPlace_answeredBy (accountId id : ℕ) (agrees : Bool) :
    InPlace (answeredBy accountId id agrees) where
  keys := keys_answeredBy accountId id agrees
  id := by intro it; unfold answeredBy; split <;> rfl
  collectionId := by intro it; unfold answeredBy; split <;> rfl
  accountId := by intro it; unfold answeredBy; split <;> rfl
  position := by intro it; unfold answeredBy; split <;> rfl
  counted := by
    intro it h
    unfold answeredBy at h
    split at h
    · cases hstate : it.state with
      | pending => exact .inl rfl
      | accepted => exact .inr rfl
      | rejected => rw [hstate] at h; simp [ItemState.answered] at h
      | revoked => rw [hstate] at h; simp [ItemState.answered] at h
    · exact h

theorem current_le_of_inPlace {f : CollectionItem → CollectionItem} (h : InPlace f)
    (items : Table CollectionItem.keys) (w : World) (clock id : ℕ) :
    current { w with items := items.update f h.keys, clock := clock } id ≤
      current { w with items := items } id := by
  unfold current Table.count Table.update
  dsimp only
  rw [List.countP_map]
  apply List.countP_mono_left
  intro it _ hit
  rw [Function.comp_apply, decide_eq_true_eq, h.collectionId] at hit
  rw [decide_eq_true_eq]
  exact ⟨hit.1, h.counted it hit.2⟩

theorem current_update {f : CollectionItem → CollectionItem}
    {hkeys : ∀ it, (f it).keys = it.keys} {id other : ℕ}
    (hothers : ∀ it, it.collectionId ≠ id → f it = it)
    (hsame : ∀ it, (f it).collectionId = it.collectionId) (hother : other ≠ id) (clock : ℕ) :
    current { w with items := w.items.update f hkeys, clock := clock } other = current w other := by
  apply w.items.count_update f hkeys
  intro it _
  by_cases hit : it.collectionId = id
  · have hne : it.collectionId ≠ other := fun h => hother (h.symm.trans hit)
    simp [hsame, hne]
  · rw [hothers it hit]

theorem revoked_other {now id itemId : ℕ} {it : CollectionItem} (h : it.collectionId ≠ id) :
    revoked now id itemId it = it := by
  rw [revoked, if_neg]
  rw [isItem, decide_eq_true_eq]
  exact fun hit => h hit.2

theorem answeredBy_other {accountId id : ℕ} {agrees : Bool} {it : CollectionItem}
    (h : it.collectionId ≠ id) : answeredBy accountId id agrees it = it := by
  rw [answeredBy, if_neg]
  exact fun hit => h hit.2

theorem current_deleteItem_le (w : World) (id itemId other : ℕ) :
    current (deleteItem w id itemId) other ≤ current w other := by
  have hsplit := w.items.count_deleteWhere
    (fun it => it.collectionId = other ∧ (it.state = .pending ∨ it.state = .accepted))
    (isItem id itemId)
  unfold current deleteItem
  dsimp only
  omega

theorem current_deleteItem_other {id itemId other : ℕ} (h : other ≠ id) :
    current (deleteItem w id itemId) other = current w other := by
  have hsplit := w.items.count_deleteWhere
    (fun it => it.collectionId = other ∧ (it.state = .pending ∨ it.state = .accepted))
    (isItem id itemId)
  have hnone : w.items.rows.countP (fun it => (decide (it.collectionId = other ∧
      (it.state = .pending ∨ it.state = .accepted))) && isItem id itemId it) = 0 := by
    rw [List.countP_eq_zero]
    intro it _ hit
    rw [Bool.and_eq_true, decide_eq_true_eq, isItem, decide_eq_true_eq] at hit
    exact h (hit.1.1.symm.trans hit.2.2)
  unfold current deleteItem
  dsimp only
  omega

/-! ### Insertions -/

theorem current_insertItem_le (w : World) (add : Adding) (remote : Bool) (uri : Option String)
    (other : ℕ) :
    current (insertItem w add remote uri) other ≤
      current w other + if other = add.collectionId then 1 else 0 := by
  unfold current insertItem
  dsimp only
  rw [Table.count_insert]
  by_cases h : other = add.collectionId
  · rw [if_pos h]
    split <;> omega
  · rw [if_neg h, if_neg]
    rintro ⟨-, hit⟩
    rw [decide_eq_true_eq] at hit
    exact h hit.1.symm

theorem current_insertItem_other {add : Adding} {remote : Bool} {uri : Option String} {other : ℕ}
    (h : other ≠ add.collectionId) :
    current (insertItem w add remote uri) other = current w other := by
  unfold current insertItem
  dsimp only
  rw [Table.count_insert, if_neg, Nat.add_zero]
  rintro ⟨-, hit⟩
  rw [decide_eq_true_eq] at hit
  exact h hit.1.symm

theorem le_foldr_max {x : ℕ} {l : List ℕ} (h : x ∈ l) : x ≤ l.foldr max 0 := by
  induction l with
  | nil => exact nomatch h
  | cons y l ih =>
      rw [List.foldr_cons]
      rcases List.mem_cons.1 h with rfl | h
      · exact Nat.le_max_left _ _
      · exact (ih h).trans (Nat.le_max_right _ _)

theorem position_lt_nextPosition {id : ℕ} {it : CollectionItem} (hit : it ∈ w.items.rows)
    (hid : it.collectionId = id) : it.position < nextPosition w id := by
  apply Nat.lt_succ_of_le
  apply le_foldr_max
  apply List.mem_map_of_mem
  rw [List.mem_filter, decide_eq_true_eq]
  exact ⟨hit, hid⟩

def Placed (items : List CollectionItem) : Prop :=
  items.Pairwise fun x y => x.collectionId = y.collectionId → x.position ≠ y.position

theorem nodup_of_placed {items : List CollectionItem} (h : Placed items) (id : ℕ) :
    ((items.filter (·.collectionId = id)).map (·.position)).Nodup := by
  rw [List.Nodup, List.pairwise_map, List.pairwise_filter]
  apply h.imp
  intro x y hne hx hy
  rw [decide_eq_true_eq] at hx hy
  exact hne (hx.trans hy.symm)

theorem placed_of_nodup {items : List CollectionItem}
    (h : ∀ id, ((items.filter (·.collectionId = id)).map (·.position)).Nodup) : Placed items := by
  induction items with
  | nil => exact List.Pairwise.nil
  | cons x items ih =>
      apply List.Pairwise.cons
      · intro y hy hsame hposition
        have hx := h x.collectionId
        rw [List.filter_cons_of_pos (by simp), List.map_cons, List.nodup_cons] at hx
        apply hx.1
        rw [hposition]
        apply List.mem_map_of_mem
        rw [List.mem_filter, decide_eq_true_eq]
        exact ⟨hy, hsame.symm⟩
      · apply ih
        intro id
        exact List.Nodup.sublist (((List.sublist_cons_self x items).filter _).map _) (h id)

theorem placed_insertItem (h : Placed w.items.rows) (add : Adding) (remote : Bool)
    (uri : Option String) : Placed (insertItem w add remote uri).items.rows := by
  unfold insertItem
  dsimp only
  by_cases htaken : w.items.Taken (newItem w add remote uri)
  · rw [Table.insert_of_taken htaken]
    exact h
  · rw [Table.rows_insert htaken, Placed, List.pairwise_append]
    refine ⟨h, List.pairwise_singleton _ _, ?_⟩
    intro x hx y hy hsame
    rw [List.mem_singleton] at hy
    subst hy
    exact Nat.ne_of_lt (position_lt_nextPosition hx hsame)

theorem placed_update {f : CollectionItem → CollectionItem} (hf : InPlace f)
    {items : Table CollectionItem.keys} (h : Placed items.rows) :
    Placed (items.update f hf.keys).rows := by
  unfold Placed Table.update
  rw [List.pairwise_map]
  apply h.imp
  intro x y hne hsame
  rw [hf.position, hf.position]
  rw [hf.collectionId, hf.collectionId] at hsame
  exact hne hsame

/-! ### The invariant -/

/-- What a request has made sure of by its next statement. -/
def Grounded (w : World) (d : Call) : Prop :=
  match d.stage with
  | .target add => Owns w d.caller add.collectionId
  | .countItems add remote | .owner add remote | .insertItem add remote _ =>
      Owns w d.caller add.collectionId ∧ remote = isRemote w add.accountId
  | .delete id _ | .revoke id _ | .refresh id _ => Owns w d.caller id
  | _ => True

structure Inv (s : Store) (calls : List Call) : Prop where
  coherent : Coherent s
  counted : ∀ col ∈ s.world.collections.rows, Counted s.world calls col
  limited : ∀ col ∈ s.world.collections.rows, current s.world col.id ≤ maxItems
  owned : ∀ accountId, owned s.world accountId ≤ defaultCollectionLimit
  placed : Placed s.world.items.rows
  consented : ∀ it ∈ s.world.items.rows, it.state = .accepted →
    ∀ accountId, it.accountId = some accountId → (accountId, it.collectionId) ∉ s.withdrawn
  grounded : ∀ d ∈ calls, Grounded s.world d

theorem Grounded.keep {d : Call} (h : Grounded w d) (hkeeps : Keeps w w') : Grounded w' d := by
  obtain ⟨caller, stage⟩ := d
  cases stage with
  | countCollections form name => trivial
  | resolveTag form name => trivial
  | insertCollection form name => trivial
  | load id act => trivial
  | target add => exact Owns.keep h hkeeps
  | countItems add remote => exact ⟨h.1.keep hkeeps, h.2.trans (hkeeps.remote _).symm⟩
  | owner add remote => exact ⟨h.1.keep hkeeps, h.2.trans (hkeeps.remote _).symm⟩
  | insertItem add remote uri => exact ⟨h.1.keep hkeeps, h.2.trans (hkeeps.remote _).symm⟩
  | delete id itemId => exact Owns.keep h hkeeps
  | revoke id itemId => exact Owns.keep h hkeeps
  | refresh id rest => exact Owns.keep h hkeeps

theorem grounded_addNext {id : ℕ} {rest : List ℕ} (h : Owns w c.caller id) :
    ∀ d ∈ c.addNext id rest, Grounded w d := by
  intro d hd
  cases rest with
  | nil => exact nomatch hd
  | cons accountId rest =>
      cases hd
      exact h

theorem grounded_begin {id : ℕ} {act : Action} (h : Owns w c.caller id) :
    ∀ d ∈ c.begin id act, Grounded w d := by
  intro d hd
  cases act with
  | add accountId => exact grounded_addNext h d hd
  | delete itemId =>
      cases hd
      exact h
  | revoke itemId =>
      cases hd
      exact h

theorem grounded_giveUp (h : Grounded w c) : ∀ d ∈ giveUp c, Grounded w d := by
  obtain ⟨caller, stage⟩ := c
  cases stage with
  | target add => exact grounded_addNext h
  | countItems add remote => exact grounded_addNext h.1
  | owner add remote => exact grounded_addNext h.1
  | insertItem add remote uri => exact grounded_addNext h.1
  | refresh id rest => exact grounded_addNext h
  | _ => exact fun d hd => nomatch hd

theorem Inv.perm {calls' : List Call} (hperm : calls.Perm calls') (h : Inv s calls) :
    Inv s calls' where
  coherent := h.coherent
  counted := by
    intro col hcol
    rcases h.counted col hcol with hright | ⟨d, hd, hrefreshes⟩
    · exact .inl hright
    · exact .inr ⟨d, hperm.mem_iff.1 hd, hrefreshes⟩
  limited := h.limited
  owned := h.owned
  placed := h.placed
  consented := h.consented
  grounded := fun d hd => h.grounded d (hperm.mem_iff.2 hd)

theorem Inv.next (h : Inv s (c :: calls)) (hkeeps : Keeps s.world w') {next : Option Call}
    (hnext : ∀ d ∈ next, Grounded w' d) : ∀ d ∈ next.toList ++ calls, Grounded w' d := by
  intro d hd
  rcases List.mem_append.1 hd with hd | hd
  · exact hnext d (Option.mem_toList.1 hd)
  · exact (h.grounded d (List.mem_cons_of_mem _ hd)).keep hkeeps

theorem Counted.tail {col : Collection} (h : Counted w (c :: calls) col)
    (hc : ¬ c.stage.refreshes col.id) (next : Option Call) :
    Counted w (next.toList ++ calls) col := by
  rcases h with hright | ⟨d, hd, hrefreshes⟩
  · exact .inl hright
  · rcases List.mem_cons.1 hd with rfl | hd
    · exact absurd hrefreshes hc
    · exact .inr ⟨d, List.mem_append_right _ hd, hrefreshes⟩

theorem Counted.more {col : Collection} (h : Counted w calls col) (next : Option Call) :
    Counted w (next.toList ++ calls) col := by
  rcases h with hright | ⟨d, hd, hrefreshes⟩
  · exact .inl hright
  · exact .inr ⟨d, List.mem_append_right _ hd, hrefreshes⟩

theorem Counted.of_current {col : Collection} (h : Counted w calls col)
    (hsame : current w' col.id = current w col.id) : Counted w' calls col := by
  rcases h with hright | hlater
  · exact .inl (hright.trans hsame.symm)
  · exact .inr hlater

theorem Inv.goOn (h : Inv s (c :: calls)) {next : Option Call}
    (hc : ∀ id, ¬ c.stage.refreshes id) (hnext : ∀ d ∈ next, Grounded s.world d) :
    Inv s (next.toList ++ calls) where
  coherent := h.coherent
  counted := fun col hcol => (h.counted col hcol).tail (hc col.id) next
  limited := h.limited
  owned := h.owned
  placed := h.placed
  consented := h.consented
  grounded := h.next (Keeps.refl s.world) hnext

/-! ### Collections created -/

theorem current_eq_zero (h : Coherent s) : current s.world s.world.clock = 0 := by
  rw [current, Table.count_eq_zero]
  intro it hit
  rw [decide_eq_false_iff_not]
  intro hcounted
  have hlt := (h.items it hit).2
  omega

theorem not_taken_newCollection (h : Coherent s) (form : Form) (name : Text) :
    ¬ s.world.collections.Taken (newCollection s.world c.caller form name) := by
  rintro ⟨col, hcol, k, hk, hnew⟩
  rw [Collection.keys, List.mem_cons] at hnew
  rcases hnew with rfl | hnew
  · rcases List.mem_cons.1 hk with hid | huri
    · have hlt := h.collections col hcol
      have heq : s.world.clock = col.id := by
        simpa [newCollection] using hid
      omega
    · simp at huri
  · simp [newCollection] at hnew

theorem inv_insertCollection {form : Form} {name : Text} (h : Inv s (c :: calls))
    (hc : ∀ id, ¬ c.stage.refreshes id)
    (hlimit : owned s.world c.caller < defaultCollectionLimit) :
    Inv { s with world := insertCollection s.world c.caller form name }
      ((c.addNext s.world.clock (form.accountIds.filterMap accountIdOf)).toList ++ calls) := by
  have hkeeps := keeps_insertCollection s.world c.caller form name
  have hfree := not_taken_newCollection (c := c) h.coherent form name
  have hmem : ∀ col ∈ (insertCollection s.world c.caller form name).collections.rows,
      col ∈ s.world.collections.rows ∨ col = newCollection s.world c.caller form name := by
    intro col hcol
    rcases Table.mem_insert.1 hcol with hcol | ⟨-, hcol⟩
    · exact .inl hcol
    · exact .inr hcol
  constructor
  · constructor
    · intro col hcol
      rcases hmem col hcol with hcol | rfl
      · exact (h.coherent.collections col hcol).trans (Nat.lt_succ_self _)
      · exact Nat.lt_succ_self _
    · intro it hit
      have hlt := h.coherent.items it hit
      exact ⟨hlt.1.trans (Nat.lt_succ_self _), hlt.2.trans (Nat.lt_succ_self _)⟩
    · intro p hp
      exact (h.coherent.withdrawn p hp).imp (fun hremote => hremote)
        (fun howns => howns.keep hkeeps)
  · intro col hcol
    rcases hmem col hcol with hcol | rfl
    · exact (h.counted col hcol).tail (hc col.id) _
    · exact .inl (current_eq_zero h.coherent).symm
  · intro col hcol
    rcases hmem col hcol with hcol | rfl
    · exact h.limited col hcol
    · exact (current_eq_zero h.coherent).trans_le (Nat.zero_le _)
  · intro accountId
    have hold := h.owned accountId
    have hcount : owned (insertCollection s.world c.caller form name) accountId =
        owned s.world accountId + _ := Table.count_insert s.world.collections _ _
    rw [hcount]
    split
    · rename_i hnew
      have hcaller : c.caller = accountId := of_decide_eq_true hnew.2
      rw [← hcaller]
      omega
    · omega
  · exact h.placed
  · exact h.consented
  · apply h.next hkeeps
    apply grounded_addNext
    exact ⟨newCollection s.world c.caller form name, Table.mem_insert.2 (.inr ⟨hfree, rfl⟩), rfl,
      rfl⟩

/-! ### Items that come and go -/

theorem eq_of_id {col col' : Collection} (hcol : col ∈ w.collections.rows)
    (hcol' : col' ∈ w.collections.rows) (h : col.id = col'.id) : col = col' := by
  apply w.collections.eq_of_key hcol hcol' (k := .id col.id) List.mem_cons_self
  rw [h]
  exact List.mem_cons_self

theorem Owns.unique {a b id : ℕ} (ha : Owns w a id) (hb : Owns w b id) : a = b := by
  obtain ⟨col, hcol, hid, rfl⟩ := ha
  obtain ⟨col', hcol', hid', rfl⟩ := hb
  rw [eq_of_id hcol hcol' (hid.trans hid'.symm)]

theorem Owns.lt {a id : ℕ} (h : Owns s.world a id) (hs : Coherent s) : id < s.world.clock := by
  obtain ⟨col, hcol, rfl, -⟩ := h
  exact hs.collections col hcol

theorem counted_of_others {id : ℕ} {rest : List ℕ}
    (h : ∀ col ∈ w.collections.rows, Counted w (c :: calls) col)
    (hc : ∀ id, ¬ c.stage.refreshes id)
    (hothers : ∀ other ≠ id, current w' other = current w other) :
    ∀ col ∈ w.collections.rows,
      Counted w' ((c.go (.refresh id rest)).toList ++ calls) col := by
  intro col hcol
  by_cases hid : id = col.id
  · exact .inr ⟨{ c with stage := .refresh id rest }, List.mem_cons_self, hid⟩
  · exact ((h col hcol).tail (hc col.id) _).of_current (hothers col.id (Ne.symm hid))

theorem mem_agree {add : Adding} {p : ℕ × ℕ} (h : p ∈ agree s c.caller add) :
    p ∈ s.withdrawn ∧ (add.accountId = c.caller → p ≠ (c.caller, add.collectionId)) := by
  unfold agree at h
  split at h
  · rw [List.mem_filter] at h
    exact ⟨h.1, fun _ => of_decide_eq_true h.2⟩
  · rename_i hne
    exact ⟨h, fun heq => absurd heq hne⟩

theorem inv_insertItem {add : Adding} {remote : Bool} {uri : Option String}
    (h : Inv s (c :: calls)) (hstage : c.stage = .insertItem add remote uri)
    (hlimit : current s.world add.collectionId < maxItems) :
    Inv ⟨insertItem s.world add remote uri, agree s c.caller add⟩
      ((c.go (.refresh add.collectionId add.rest)).toList ++ calls) := by
  have hkeeps : Keeps s.world (insertItem s.world add remote uri) := keeps_items _ _ _
  have hgrounded := h.grounded c List.mem_cons_self
  rw [Grounded, hstage] at hgrounded
  obtain ⟨howns, hremote⟩ := hgrounded
  have hc : ∀ id, ¬ c.stage.refreshes id := by
    intro id
    rw [hstage]
    exact fun h => h
  constructor
  · constructor
    · intro col hcol
      exact (h.coherent.collections col hcol).trans (Nat.lt_succ_self _)
    · intro it hit
      rcases Table.mem_insert.1 hit with hit | ⟨-, rfl⟩
      · have hlt := h.coherent.items it hit
        exact ⟨hlt.1.trans (Nat.lt_succ_self _), hlt.2.trans (Nat.lt_succ_self _)⟩
      · exact ⟨Nat.lt_succ_self _, (howns.lt h.coherent).trans (Nat.lt_succ_self _)⟩
    · intro p hp
      exact (h.coherent.withdrawn p (mem_agree hp).1).imp (fun hremote => hremote)
        (fun howns => howns.keep hkeeps)
  · apply counted_of_others (w := s.world) h.counted hc
    exact fun other hother => current_insertItem_other hother
  · intro col hcol
    have hold := h.limited col hcol
    have hnew := current_insertItem_le s.world add remote uri col.id
    by_cases hid : col.id = add.collectionId
    · rw [if_pos hid, hid] at hnew
      rw [hid]
      dsimp only
      omega
    · rw [if_neg hid] at hnew
      dsimp only
      omega
  · exact h.owned
  · exact placed_insertItem h.placed add remote uri
  · intro it hit haccepted accountId haccount hmem
    obtain ⟨hmem, hagreed⟩ := mem_agree hmem
    rcases Table.mem_insert.1 hit with hit | ⟨-, rfl⟩
    · exact h.consented it hit haccepted accountId haccount hmem
    · obtain rfl : add.accountId = accountId := Option.some.inj haccount
      -- It is accepted at once, so the account is a local one, and refused as the owner.
      have hlocal : isRemote s.world add.accountId = false := by
        cases hr : remote with
        | false => exact hremote.symm.trans hr
        | true =>
            rw [newItem, hr] at haccepted
            exact nomatch haccepted
      rcases h.coherent.withdrawn _ hmem with hisRemote | hself
      · rw [hlocal] at hisRemote
        exact Bool.false_ne_true hisRemote
      · have heq : add.accountId = c.caller := hself.unique howns
        apply hagreed heq
        rw [← heq]
        rfl
  · apply h.next hkeeps
    intro d hd
    cases hd
    exact howns.keep hkeeps

theorem inv_deleteItem {id itemId : ℕ} (h : Inv s (c :: calls))
    (hstage : c.stage = .delete id itemId) :
    Inv { s with world := deleteItem s.world id itemId }
      ((c.go (.refresh id [])).toList ++ calls) := by
  have hkeeps : Keeps s.world (deleteItem s.world id itemId) := keeps_items _ _ _
  have howns := h.grounded c List.mem_cons_self
  rw [Grounded, hstage] at howns
  have hc : ∀ id, ¬ c.stage.refreshes id := by
    intro id
    rw [hstage]
    exact fun h => h
  constructor
  · constructor
    · intro col hcol
      exact (h.coherent.collections col hcol).trans (Nat.lt_succ_self _)
    · intro it hit
      have hlt := h.coherent.items it (Table.mem_deleteWhere.1 hit).1
      exact ⟨hlt.1.trans (Nat.lt_succ_self _), hlt.2.trans (Nat.lt_succ_self _)⟩
    · intro p hp
      exact (h.coherent.withdrawn p hp).imp (fun hremote => hremote)
        (fun howns => howns.keep hkeeps)
  · apply counted_of_others (w := s.world) h.counted hc
    exact fun other hother => current_deleteItem_other hother
  · intro col hcol
    exact (current_deleteItem_le s.world id itemId col.id).trans (h.limited col hcol)
  · exact h.owned
  · exact h.placed.filter _
  · intro it hit
    exact h.consented it (Table.mem_deleteWhere.1 hit).1
  · apply h.next hkeeps
    intro d hd
    cases hd
    exact howns.keep hkeeps

theorem eq_of_featured {it it' : CollectionItem} {accountId : ℕ} (hit : it ∈ w.items.rows)
    (hit' : it' ∈ w.items.rows) (ha : it.accountId = some accountId)
    (ha' : it'.accountId = some accountId) (h : it.collectionId = it'.collectionId) : it = it' := by
  apply w.items.eq_of_key hit hit' (k := .featured accountId it.collectionId)
  · simp [CollectionItem.keys, ha]
  · simp [CollectionItem.keys, ha', h]

theorem accepted_of_revoked {now id itemId : ℕ} {it : CollectionItem}
    (h : (revoked now id itemId it).state = .accepted) :
    it.state = .accepted ∧ isItem id itemId it = false := by
  unfold revoked at h
  split at h
  · exact nomatch h
  · rename_i hne
    exact ⟨h, Bool.not_eq_true _ ▸ hne⟩

theorem mem_refuse {id itemId : ℕ} {p : ℕ × ℕ} (h : p ∈ refuse s c.caller id itemId) :
    p ∈ s.withdrawn ∨ p = (c.caller, id) ∧
      ∃ it ∈ s.world.items.rows, isItem id itemId it = true ∧ it.accountId = some c.caller := by
  unfold refuse at h
  split at h
  · rename_i hany
    obtain ⟨it, hit, hself⟩ := List.any_eq_true.1 hany
    rw [decide_eq_true_eq] at hself
    rcases List.mem_cons.1 h with rfl | h
    · exact .inr ⟨rfl, it, hit, hself⟩
    · exact .inl h
  · exact .inl h

theorem inv_revokeItem {id itemId : ℕ} (h : Inv s (c :: calls))
    (hstage : c.stage = .revoke id itemId) :
    Inv ⟨revokeItem s.world id itemId, refuse s c.caller id itemId⟩
      ((c.go (.refresh id [])).toList ++ calls) := by
  have hkeeps : Keeps s.world (revokeItem s.world id itemId) := keeps_items _ _ _
  have hinPlace := inPlace_revoked s.world.clock id itemId
  have howns := h.grounded c List.mem_cons_self
  rw [Grounded, hstage] at howns
  have hc : ∀ id, ¬ c.stage.refreshes id := by
    intro id
    rw [hstage]
    exact fun h => h
  have hrows : (revokeItem s.world id itemId).items.rows =
      s.world.items.rows.map (revoked s.world.clock id itemId) := rfl
  constructor
  · constructor
    · intro col hcol
      exact (h.coherent.collections col hcol).trans (Nat.lt_succ_self _)
    · intro it hit
      obtain ⟨old, hold, rfl⟩ := List.mem_map.1 (hrows ▸ hit)
      have hlt := h.coherent.items old hold
      rw [hinPlace.id, hinPlace.collectionId]
      exact ⟨hlt.1.trans (Nat.lt_succ_self _), hlt.2.trans (Nat.lt_succ_self _)⟩
    · intro p hp
      rcases mem_refuse hp with hp | ⟨rfl, -⟩
      · exact (h.coherent.withdrawn p hp).imp (fun hremote => hremote)
          (fun howns => howns.keep hkeeps)
      · exact .inr (howns.keep hkeeps)
  · apply counted_of_others (w := s.world) h.counted hc
    intro other hother
    exact current_update (fun it hit => revoked_other hit) hinPlace.collectionId hother _
  · intro col hcol
    exact (current_le_of_inPlace hinPlace s.world.items s.world _ col.id).trans
      (h.limited col hcol)
  · exact h.owned
  · exact placed_update hinPlace h.placed
  · intro it hit haccepted accountId haccount hmem
    obtain ⟨old, hold, rfl⟩ := List.mem_map.1 (hrows ▸ hit)
    obtain ⟨haccepted, hother⟩ := accepted_of_revoked haccepted
    rw [hinPlace.accountId] at haccount
    rw [hinPlace.collectionId] at hmem
    rcases mem_refuse hmem with hmem | ⟨hpair, it', hit', hitem, haccount'⟩
    · exact h.consented old hold haccepted accountId haccount hmem
    · -- An account has one item in a collection, and this one is revoked.
      rw [Prod.mk.injEq] at hpair
      rw [hpair.1] at haccount
      have hsame : it'.collectionId = id := by
        rw [isItem, decide_eq_true_eq] at hitem
        exact hitem.2
      have heq := eq_of_featured hold hit' haccount haccount' (hpair.2.trans hsame.symm)
      rw [heq, hitem] at hother
      exact nomatch hother
  · apply h.next hkeeps
    intro d hd
    cases hd
    exact howns.keep hkeeps

/-! ### Items counted -/

theorem itemCount_recount {id : ℕ} {col : Collection} (h : col.id = id) :
    (recount w id col).itemCount = current w id := by
  rw [recount, if_pos h]
  rfl

theorem recount_other {id : ℕ} {col : Collection} (h : col.id ≠ id) : recount w id col = col :=
  if_neg h

theorem coherent_refresh (h : Coherent s) (id : ℕ) :
    Coherent { s with world := refreshItemCount s.world id } := by
  constructor
  · intro col hcol
    obtain ⟨old, hold, rfl⟩ := List.mem_map.1 (rows_refresh s.world id ▸ hcol)
    rw [id_recount]
    exact (h.collections old hold).trans (Nat.lt_succ_self _)
  · intro it hit
    have hlt := h.items it hit
    exact ⟨hlt.1.trans (Nat.lt_succ_self _), hlt.2.trans (Nat.lt_succ_self _)⟩
  · intro p hp
    exact (h.withdrawn p hp).imp (fun hremote => hremote)
      (fun howns => howns.keep (keeps_refresh s.world id))

theorem owned_refresh (w : World) (id accountId : ℕ) :
    owned (refreshItemCount w id) accountId = owned w accountId := by
  apply w.collections.count_update (recount w id) (keys_recount w id)
  intro col _
  rw [accountId_recount]

theorem counted_refresh {id : ℕ}
    (h : ∀ col ∈ w.collections.rows, col.id ≠ id → Counted w calls col) :
    ∀ col ∈ (refreshItemCount w id).collections.rows,
      Counted (refreshItemCount w id) calls col := by
  intro col hcol
  obtain ⟨old, hold, rfl⟩ := List.mem_map.1 (rows_refresh w id ▸ hcol)
  by_cases hid : old.id = id
  · apply Or.inl
    rw [itemCount_recount hid, id_recount, hid]
    rfl
  · rw [recount_other hid]
    exact (h old hold hid).of_current rfl

theorem limited_refresh {id : ℕ}
    (h : ∀ col ∈ w.collections.rows, current w col.id ≤ maxItems) :
    ∀ col ∈ (refreshItemCount w id).collections.rows,
      current (refreshItemCount w id) col.id ≤ maxItems := by
  intro col hcol
  obtain ⟨old, hold, rfl⟩ := List.mem_map.1 (rows_refresh w id ▸ hcol)
  rw [id_recount]
  exact h old hold

theorem inv_refresh {id : ℕ} {rest : List ℕ} (h : Inv s (c :: calls))
    (hstage : c.stage = .refresh id rest) :
    Inv { s with world := refreshItemCount s.world id }
      ((c.addNext id rest).toList ++ calls) := by
  have hkeeps := keeps_refresh s.world id
  have howns := h.grounded c List.mem_cons_self
  rw [Grounded, hstage] at howns
  constructor
  · exact coherent_refresh h.coherent id
  · apply counted_refresh
    intro col hcol hid
    apply (h.counted col hcol).tail
    rw [hstage]
    exact fun heq => hid heq.symm
  · exact limited_refresh h.limited
  · intro accountId
    rw [owned_refresh]
    exact h.owned accountId
  · exact h.placed
  · exact h.consented
  · exact h.next hkeeps (grounded_addNext (howns.keep hkeeps))

/-! ### Steps -/

theorem inv_giveUp (h : Inv s (c :: calls)) {w : Answer} (hfails : w.fails = true)
    (hsound : Sound s c calls w) : Inv s ((giveUp c).toList ++ calls) := by
  have hnext := grounded_giveUp (h.grounded c List.mem_cons_self)
  by_cases hrefresh : ∃ id rest, c.stage = .refresh id rest
  · obtain ⟨id, rest, hstage⟩ := hrefresh
    rw [Sound, hstage] at hsound
    refine ⟨h.coherent, ?_, h.limited, h.owned, h.placed, h.consented,
      h.next (Keeps.refl s.world) hnext⟩
    intro col hcol
    by_cases hid : col.id = id
    · exact (hsound hfails col hcol hid).more _
    · apply (h.counted col hcol).tail
      rw [hstage]
      exact fun heq => hid heq.symm
  · apply h.goOn _ hnext
    intro id hrefreshes
    cases hstage : c.stage with
    | refresh id rest => exact hrefresh ⟨id, rest, hstage⟩
    | _ =>
        rw [hstage] at hrefreshes
        exact hrefreshes

theorem mem_go {stage : Stage} {d : Call} (h : d ∈ c.go stage) : d = { c with stage := stage } :=
  (Option.mem_some_iff.1 h).symm

theorem grounded_none : ∀ d ∈ (none : Option Call), Grounded w d := fun _ h => nomatch h

theorem isRemote_eq {accountId : ℕ} {target : Account} (h : w.db.account accountId = some target) :
    isRemote w accountId = target.domain.isSome := by
  rw [isRemote, h]
  rfl

theorem inv_proceed (h : Inv s (c :: calls)) {w : Answer} (hfails : w.fails = false)
    (hsound : Sound s c calls w) :
    Inv (proceed domain s c w).1 ((proceed domain s c w).2.toList ++ calls) := by
  have hgrounded := h.grounded c List.mem_cons_self
  obtain ⟨caller, stage⟩ := c
  cases stage with
  | countCollections form name =>
      unfold proceed
      dsimp only
      split
      · exact h.goOn (fun _ hr => hr) grounded_none
      · apply h.goOn (fun _ hr => hr)
        intro d hd
        rw [mem_go hd]
        unfold afterLimit
        split <;> trivial
  | resolveTag form name =>
      unfold proceed
      dsimp only
      split
      · apply h.goOn (fun _ hr => hr)
        intro d hd
        rw [mem_go hd]
        trivial
      · exact h.goOn (fun _ hr => hr) grounded_none
  | insertCollection form name => exact inv_insertCollection h (fun _ hr => hr) (hsound hfails)
  | load id act =>
      unfold proceed
      dsimp only
      cases hfind : s.world.collections.rows.find? fun col => decide (col.id = id) with
      | none => exact h.goOn (fun _ hr => hr) grounded_none
      | some col =>
          dsimp only
          split
          · rename_i howner
            have hid := List.find?_some hfind
            rw [decide_eq_true_eq] at hid
            apply h.goOn (fun _ hr => hr)
            exact grounded_begin ⟨col, List.mem_of_find?_eq_some hfind, hid, howner⟩
          · exact h.goOn (fun _ hr => hr) grounded_none
  | target add =>
      unfold proceed
      dsimp only
      cases hfind : s.world.db.account add.accountId with
      | none => exact h.goOn (fun _ hr => hr) (grounded_addNext hgrounded)
      | some target =>
          dsimp only
          split
          · exact h.goOn (fun _ hr => hr) (grounded_addNext hgrounded)
          · apply h.goOn (fun _ hr => hr)
            intro d hd
            rw [mem_go hd]
            exact ⟨hgrounded, (isRemote_eq hfind).symm⟩
  | countItems add remote =>
      unfold proceed
      dsimp only
      split
      · exact h.goOn (fun _ hr => hr) (grounded_addNext hgrounded.1)
      · apply h.goOn (fun _ hr => hr)
        intro d hd
        rw [mem_go hd]
        exact hgrounded
  | owner add remote =>
      apply h.goOn (fun _ hr => hr)
      intro d hd
      rw [mem_go hd]
      exact hgrounded
  | insertItem add remote uri =>
      unfold proceed
      dsimp only
      split
      · exact h.goOn (fun _ hr => hr) (grounded_addNext hgrounded.1)
      · rename_i hfree
        exact inv_insertItem h rfl (hsound hfails (Bool.not_eq_true _ ▸ hfree))
  | delete id itemId =>
      unfold proceed
      dsimp only
      split
      · exact inv_deleteItem h rfl
      · exact h.goOn (fun _ hr => hr) grounded_none
  | revoke id itemId =>
      unfold proceed
      dsimp only
      split
      · exact inv_revokeItem h rfl
      · exact h.goOn (fun _ hr => hr) grounded_none
  | refresh id rest => exact inv_refresh h rfl

theorem inv_exec (w : Answer) (h : Inv s (c :: calls)) (hsound : Sound s c calls w) :
    Inv (exec domain s c w).1 ((exec domain s c w).2.toList ++ calls) := by
  unfold exec
  cases hfails : w.fails with
  | true => exact inv_giveUp h hfails hsound
  | false => exact inv_proceed h hfails hsound

/-! ### Requests that enter, and what else happens -/

theorem inv_setUnavailable (h : Inv s calls) (id : ℕ) (unavailable : Bool) :
    Inv { s with world := setUnavailable s.world id unavailable } calls := by
  have hkeeps := keeps_setUnavailable s.world id unavailable
  refine ⟨⟨h.coherent.collections, h.coherent.items, ?_⟩, h.counted, h.limited, h.owned, h.placed,
    h.consented, fun d hd => (h.grounded d hd).keep hkeeps⟩
  intro p hp
  rcases h.coherent.withdrawn p hp with hremote | howns
  · exact .inl ((hkeeps.remote p.1).trans hremote)
  · exact .inr (howns.keep hkeeps)

theorem accepted_of_answeredBy {accountId id : ℕ} {agrees : Bool} {it : CollectionItem}
    (h : (answeredBy accountId id agrees it).state = .accepted) :
    it.state = .accepted ∧ ¬(it.accountId = some accountId ∧ it.collectionId = id) ∨
      it.accountId = some accountId ∧ it.collectionId = id ∧ agrees = true := by
  unfold answeredBy at h
  split at h
  · rename_i hit
    refine .inr ⟨hit.1, hit.2, ?_⟩
    cases hagrees : agrees with
    | true => rfl
    | false =>
        rw [hagrees] at h
        cases hstate : it.state <;> rw [hstate] at h <;> exact nomatch h
  · rename_i hit
    exact .inl ⟨h, hit⟩

theorem mem_withdrawn_answer {accountId id : ℕ} {agrees : Bool} {p : ℕ × ℕ}
    (h : p ∈ (answer s accountId id agrees).withdrawn) :
    p ∈ s.withdrawn ∧ (agrees = true → p ≠ (accountId, id)) ∨
      p = (accountId, id) ∧ agrees = false := by
  cases agrees with
  | true =>
      have hp := List.mem_filter.1 h
      exact .inl ⟨hp.1, fun _ => of_decide_eq_true hp.2⟩
  | false =>
      rcases List.mem_cons.1 h with rfl | hp
      · exact .inr ⟨rfl, rfl⟩
      · exact .inl ⟨hp, fun hf => nomatch hf⟩

theorem inv_answer {accountId id : ℕ} {agrees : Bool} (h : Inv s calls)
    (hremote : isRemote s.world accountId = true) :
    Inv (answer s accountId id agrees) calls := by
  have hinPlace := inPlace_answeredBy accountId id agrees
  have hitems : ∀ it ∈ (answer s accountId id agrees).world.items.rows,
      ∃ old ∈ s.world.items.rows, answeredBy accountId id agrees old = it :=
    fun it hit => List.mem_map.1 hit
  have hkeeps : Keeps s.world (answer s accountId id agrees).world :=
    (keeps_items s.world _ s.world.clock).trans (keeps_refresh _ id)
  constructor
  · constructor
    · intro col hcol
      obtain ⟨old, hold, rfl⟩ := List.mem_map.1 hcol
      rw [id_recount]
      exact (h.coherent.collections old hold).trans (Nat.lt_succ_self _)
    · intro it hit
      obtain ⟨old, hold, rfl⟩ := hitems it hit
      have hlt := h.coherent.items old hold
      rw [hinPlace.id, hinPlace.collectionId]
      exact ⟨hlt.1.trans (Nat.lt_succ_self _), hlt.2.trans (Nat.lt_succ_self _)⟩
    · intro p hp
      rcases mem_withdrawn_answer hp with ⟨hp, -⟩ | ⟨rfl, -⟩
      · rcases h.coherent.withdrawn p hp with hr | howns
        · exact .inl ((hkeeps.remote p.1).trans hr)
        · exact .inr (howns.keep hkeeps)
      · exact .inl ((hkeeps.remote accountId).trans hremote)
  · apply counted_refresh
    intro col hcol hid
    apply (h.counted col hcol).of_current
    exact current_update (fun it hit => answeredBy_other hit) hinPlace.collectionId hid _
  · apply limited_refresh
    intro col hcol
    exact (current_le_of_inPlace hinPlace s.world.items s.world _ col.id).trans
      (h.limited col hcol)
  · intro a
    exact (owned_refresh _ id a).trans_le (h.owned a)
  · exact placed_update hinPlace h.placed
  · intro it hit haccepted a ha hmem
    obtain ⟨old, hold, rfl⟩ := hitems it hit
    rw [hinPlace.accountId] at ha
    rw [hinPlace.collectionId] at hmem
    rcases accepted_of_answeredBy haccepted with ⟨hbefore, hother⟩ | ⟨hself, hid, hagrees⟩
    · rcases mem_withdrawn_answer hmem with ⟨hmem, -⟩ | ⟨hpair, -⟩
      · exact h.consented old hold hbefore a ha hmem
      · rw [Prod.mk.injEq] at hpair
        exact hother ⟨hpair.1 ▸ ha, hpair.2⟩
    · rcases mem_withdrawn_answer hmem with ⟨-, hne⟩ | ⟨-, hrefuses⟩
      · apply hne hagrees
        rw [Option.some.inj (ha.symm.trans hself), hid]
      · rw [hagrees] at hrefuses
        exact nomatch hrefuses
  · intro d hd
    exact (h.grounded d hd).keep hkeeps

theorem Inv.more (h : Inv s calls) {next : Option Call} (hnext : ∀ d ∈ next, Grounded s.world d) :
    Inv s (next.toList ++ calls) where
  coherent := h.coherent
  counted := fun col hcol => (h.counted col hcol).more next
  limited := h.limited
  owned := h.owned
  placed := h.placed
  consented := h.consented
  grounded := by
    intro d hd
    rcases List.mem_append.1 hd with hd | hd
    · exact hnext d (Option.mem_toList.1 hd)
    · exact h.grounded d hd

theorem inv_enter (r : Request) (h : Inv s calls) :
    Inv (enter s r).1 ((enter s r).2.toList ++ calls) := by
  cases r with
  | create caller form =>
      apply h.more
      dsimp only [enter]
      cases checkForm form with
      | error e => exact grounded_none
      | ok name =>
          intro d hd
          cases hd
          trivial
  | about caller id act =>
      apply h.more
      intro d hd
      cases hd
      trivial
  | account id unavailable => exact inv_setUnavailable h id unavailable
  | answer accountId id agrees =>
      unfold enter
      dsimp only
      split
      · rename_i hremote
        exact inv_answer h hremote
      · exact h

theorem inv_requests (domain : String) : GuardedInvariant (requests domain) Inv guards where
  perm := Inv.perm
  enter := fun r h _ => inv_enter r h
  exec := inv_exec

theorem inv_of_kept (hcoherent : Coherent s) (hkept : Kept s) : Inv s [] where
  coherent := hcoherent
  counted := fun col hcol => .inl (hkept.counted col hcol)
  limited := fun col hcol => (hkept.counted col hcol).symm.trans_le (hkept.limited col hcol)
  owned := hkept.owned
  placed := placed_of_nodup hkept.positions
  consented := hkept.consented
  grounded := fun _ h => nomatch h

theorem Inv.kept (h : Inv s []) : Kept s := by
  have hcounted : ∀ col ∈ s.world.collections.rows, col.itemCount = current s.world col.id := by
    intro col hcol
    rcases h.counted col hcol with hright | ⟨d, hd, -⟩
    · exact hright
    · exact nomatch hd
  constructor
  · exact hcounted
  · exact fun col hcol => (hcounted col hcol).trans_le (h.limited col hcol)
  · exact h.owned
  · exact nodup_of_placed h.placed
  · exact h.consented

/-- Whenever no request is in progress the collections are as they should be, if no insertion
finds its limit reached since its check and no count that fails leaves a wrong one behind. -/
theorem kept_when_quiescent (domain : String) (s : Store) (events : List (Event Request Answer))
    (hcoherent : Coherent s) (hkept : Kept s)
    (hsound : Guarded (requests domain).step guards.meets ⟨s, []⟩ events) :
    ∀ before, before <+: events → (run (requests domain).step ⟨s, []⟩ before).Quiescent →
      Kept (run (requests domain).step ⟨s, []⟩ before).store := by
  rintro before ⟨after, rfl⟩ hquiescent
  have hinv := (inv_requests domain).run ⟨s, []⟩ before (inv_of_kept hcoherent hkept)
    ((guarded_append _ _ _).1 hsound).1
  rw [hquiescent] at hinv
  exact hinv.kept

/-! ### Two requests for the last collection -/

def nothing : Store := ⟨⟨Db.empty, .empty, .empty, 0⟩, []⟩

theorem coherent_nothing : Coherent nothing :=
  ⟨(fun _ h => nomatch h), (fun _ h => nomatch h), (fun _ h => nomatch h)⟩

theorem kept_nothing : Kept nothing where
  counted := fun _ h => nomatch h
  limited := fun _ h => nomatch h
  owned := fun _ => Nat.zero_le _
  positions := fun _ => List.nodup_nil
  consented := fun _ h => nomatch h

def named : Form := ⟨some ['m', 'e'], none, none, none, none, []⟩

def goesWell : Answer := ⟨false, false, 0⟩

/-- A collection is asked for, its owner's counted, and it is inserted. -/
def creation : List (Event Request Answer) :=
  [.request (.create 1 named), .advance 0 goesWell, .advance 0 goesWell]

theorem kept_creation :
    Kept (run (requests "eunha.example").step ⟨nothing, []⟩ creation).store := by
  apply kept_when_quiescent "eunha.example" nothing creation coherent_nothing kept_nothing _
    creation (List.prefix_refl _) rfl
  exact ⟨trivial, trivial, fun _ => by decide +kernel, trivial⟩

/-- After nine, two that are both counted before either is inserted. -/
def elevenCreations : List (Event Request Answer) :=
  (List.replicate 9 creation).flatten ++
    [.request (.create 1 named), .request (.create 1 named), .advance 0 goesWell,
      .advance 1 goesWell, .advance 0 goesWell, .advance 0 goesWell]

/-- An account comes to own eleven collections, where ten is the limit. -/
theorem owns_eleven :
    ¬ (∀ before, before <+: elevenCreations →
        (run (requests "eunha.example").step ⟨nothing, []⟩ before).Quiescent →
          Kept (run (requests "eunha.example").step ⟨nothing, []⟩ before).store) ∧
      owned (run (requests "eunha.example").step ⟨nothing, []⟩ elevenCreations).store.world 1 =
        11 := by
  have heleven : owned (run (requests "eunha.example").step ⟨nothing, []⟩
      elevenCreations).store.world 1 = 11 := by decide +kernel
  have hquiescent : (run (requests "eunha.example").step ⟨nothing, []⟩
      elevenCreations).calls = [] := by decide +kernel
  refine ⟨?_, heleven⟩
  intro h
  have hlimit := (h elevenCreations (List.prefix_refl _) hquiescent).owned 1
  rw [heleven] at hlimit
  exact absurd hlimit (by decide)

end Eunha.CollectionRequests
