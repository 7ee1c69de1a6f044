import Eunha.Collections

/-!
# Whose collections an activity changes

A row is its collection's owner's. A remote owner's may change through the owner, or by
what the owner's host served; a local owner's through the answer of whom it features. An
upsert keyed by a URI, an item added by the collection's URI and a consent taken back by
its URI look at none of that: each step keeps to it exactly when the row it finds does.
-/
namespace Eunha.CollectionOwnership
open Tables Database Collections

/-! ### What may change -/

/-- The account under the actor's URI, or the one it is resolved to. -/
def IsActor (n : Network) (db : Db) (actor : String) (id : ℕ) : Prop :=
  (∃ o ∈ db.accounts.rows, o.id = id ∧ o.uri = some actor) ∨
    ∃ db', resolve n db actor = some (db', id)

/-- The account may have its collections changed by the actor, or by what the host of the
`source` served, or, when it is local, by a consent. -/
def MayChange (n : Network) (w : World) (actor source : String) (consent : Prop) (db : Db)
    (ownerId : ℕ) : Prop :=
  ∀ o ∈ db.accounts.rows, o.id = ownerId →
    (o.domain = none ∧ consent) ∨
      (o.domain ≠ none ∧
        (IsActor n w.db actor ownerId ∨ ∃ uri ∈ o.uri, n.sameHost source uri = true))

def OwnerAllows (n : Network) (w w' : World) (actor source : String) (consent : Prop)
    (collectionId : ℕ) : Prop :=
  (∀ c ∈ w.collections.rows, c.id = collectionId →
    MayChange n w actor source consent w.db c.accountId) ∧
  ((∀ c ∈ w.collections.rows, c.id ≠ collectionId) → ∀ c ∈ w'.collections.rows,
    c.id = collectionId → MayChange n w actor source consent w'.db c.accountId)

def source (n : Network) (actor : String) : Inbound → String
  | .updateLink uri => (n.document uri).elim actor fun doc => doc.id.getD ""
  | .featureRequest _ _ collection => (n.document collection).elim actor fun doc => doc.id.getD ""
  | _ => actor

def itemSource (n : Network) (actor : String) : Inbound → String
  | .updateLink uri => (n.document uri).elim actor fun doc => doc.id.getD ""
  | _ => actor

def Consents (w : World) (actor : String) (a : Inbound) (featured : Option ℕ) : Prop :=
  match a with
  | .consent _ _ _ | .delete _ =>
      ∃ f ∈ w.db.accounts.rows, featured = some f.id ∧ f.uri = some actor
  | _ => False

/-- The rows that came or went are of owners that allow it. -/
structure Belongs (n : Network) (w w' : World) (actor : String) (a : Inbound) : Prop where
  owners : ∀ c ∈ w.collections.rows, ∀ c' ∈ w'.collections.rows,
    c'.id = c.id → c'.accountId = c.accountId
  collections : ∀ c, ¬ (c ∈ w'.collections.rows ↔ c ∈ w.collections.rows) →
    OwnerAllows n w w' actor (source n actor a)
      (∃ it ∈ w.items.rows, it.collectionId = c.id ∧ Consents w actor a it.accountId) c.id
  items : ∀ it, ¬ (it ∈ w'.items.rows ↔ it ∈ w.items.rows) →
    OwnerAllows n w w' actor (itemSource n actor a) (Consents w actor a it.accountId)
      it.collectionId

/-- Every row is of an earlier time than the clock's. -/
structure Past (w : World) : Prop where
  collections : ∀ c ∈ w.collections.rows, c.id < w.clock ∧ c.updatedAt < w.clock
  items : ∀ it ∈ w.items.rows, it.id < w.clock ∧ it.updatedAt < w.clock

/-! ### When they do -/

def Lands (n : Network) (w : World) (actor source uri : String) (db : Db) (ownerId : ℕ) : Prop :=
  (∀ c ∈ w.collections.rows, c.uri = some uri →
    MayChange n w actor source False w.db c.accountId) ∧
  ((∀ c ∈ w.collections.rows, c.uri ≠ some uri) →
    MayChange n w actor source False db ownerId)

def MirrorLands (n : Network) (w : World) (actor source : String) (doc : FeaturedCollection) :
    Prop :=
  doc.id.getD "" ≠ "" → ∀ db ownerId, resolve n w.db actor = some (db, ownerId) →
    Lands n w actor source (doc.id.getD "") db ownerId

def UriFree (w : World) (uri : Option String) (collectionId accountId : ℕ) : Prop :=
  ∀ it ∈ w.items.rows, it.uri.isSome = true → it.uri = uri →
    it.accountId = some accountId ∧ it.collectionId = collectionId

def ApprovalFree (w : World) (approvalUri : Option String) (id : ℕ) : Prop :=
  ∀ it ∈ w.items.rows, it.approvalUri.isSome = true → it.approvalUri = approvalUri → it.id = id

def Ready (n : Network) (w : World) (actor : String) : Inbound → Prop
  | .addCollection doc => actor ≠ "" → MirrorLands n w actor actor doc
  | .addItem item target =>
      actor ≠ "" → item.id.getD "" ≠ "" →
        ∀ c ∈ w.collections.rows, c.uri = some target → c.isLocal = false →
          item.featuredObject.uriOrId.getD "" ≠ "" →
            ∀ db accountId,
              resolve n w.db (item.featuredObject.uriOrId.getD "") = some (db, accountId) →
              UriFree w item.id c.id accountId → MayChange n w actor actor False w.db c.accountId
  | .updateEmbedded doc =>
      doc.type = some "FeaturedCollection" → actor ≠ "" → MirrorLands n w actor actor doc
  | .updateLink uri =>
      ∀ doc ∈ n.document uri, doc.type = some "FeaturedCollection" → actor ≠ "" →
        MirrorLands n w actor (doc.id.getD "") doc
  | .featureRequest id account collection =>
      id ≠ "" → account ≠ "" → collection ≠ "" →
        ∀ featured ∈ InboxRelationships.localByUri w.db account, featured.unavailable = false →
          ∀ doc ∈ n.document collection, doc.attributedTo.uriOrId.getD "" ≠ "" →
            ∀ db ownerId, resolve n w.db (doc.attributedTo.uriOrId.getD "") = some (db, ownerId) →
              Lands n w actor (doc.id.getD "") collection db ownerId ∧
                Lands n w actor actor collection db ownerId
  | .remove object =>
      ∀ o ∈ w.db.accountByUri actor, o.domain = none →
        ∀ c ∈ w.collections.rows, c.accountId = o.id →
          ¬ (c.uri = some object ∧ c.isLocal = false) ∧
            ∀ it ∈ w.items.rows, it.collectionId = c.id → it.uri ≠ some object
  | .delete object =>
      object ≠ actor → ∀ it ∈ w.items.rows, it.approvalUri = some object → it.state = .accepted →
        ∀ c ∈ w.collections.rows, c.id = it.collectionId →
          MayChange n w actor actor (Consents w actor (.delete object) it.accountId) w.db
            c.accountId
  | .consent accepted object result =>
      InboxRelationships.isRelayFollow w.db object = false →
        ∀ it ∈ requestedItem w object, (featuredAccount w it).bind (·.uri) = some actor →
          (accepted = true → ApprovalFree w (result.filter (· ≠ "")) it.id) →
            ∀ c ∈ w.collections.rows, c.id = it.collectionId →
              MayChange n w actor actor True w.db c.accountId
  | .refresh entry =>
      ∀ account ∈ w.db.accounts.rows.find? fun a =>
          a.uri = some actor ∧ a.domain ≠ none ∧ a.unavailable = false,
        ∀ doc ∈ entry.document n w account.id, n.sameHost actor (doc.id.getD "") = true →
          doc.attributedTo = .uri actor → doc.id.getD "" ≠ "" →
            ∀ c ∈ w.collections.rows, c.uri = some (doc.id.getD "") →
              MayChange n w actor actor False w.db c.accountId

/-! ### What a statement leaves alone -/

/-- Only such rows come or go. -/
structure Only (P : Collection → Prop) (Q : CollectionItem → Prop) (w w' : World) : Prop where
  collections : ∀ c, ¬ P c → (c ∈ w'.collections.rows ↔ c ∈ w.collections.rows)
  items : ∀ it, ¬ Q it → (it ∈ w'.items.rows ↔ it ∈ w.items.rows)

variable {P : Collection → Prop} {Q : CollectionItem → Prop} {w w' w'' : World}

theorem Only.refl : Only P Q w w := ⟨fun _ _ => Iff.rfl, fun _ _ => Iff.rfl⟩

theorem Only.trans (h : Only P Q w w') (h' : Only P Q w' w'') : Only P Q w w'' where
  collections c hc := (h'.collections c hc).trans (h.collections c hc)
  items it hit := (h'.items it hit).trans (h.items it hit)

/-- Only the collection and its items. -/
abbrev Inside (id : ℕ) (w w' : World) : Prop := Only (·.id = id) (·.collectionId = id) w w'

theorem eq_of_id {c d : Collection} (hc : c ∈ w.collections.rows) (hd : d ∈ w.collections.rows)
    (h : c.id = d.id) : c = d :=
  w.collections.eq_of_key (k := .id d.id) hc hd (by simp [Collection.keys, h])
    (by simp [Collection.keys])

theorem eq_of_uri {c d : Collection} {uri : String} (hc : c ∈ w.collections.rows)
    (hd : d ∈ w.collections.rows) (hcu : c.uri = some uri) (hdu : d.uri = some uri) : c = d :=
  w.collections.eq_of_key (k := .uri uri) hc hd (by simp [Collection.keys, hcu])
    (by simp [Collection.keys, hdu])

theorem item_eq_of_id {it other : CollectionItem} (hit : it ∈ w.items.rows)
    (hother : other ∈ w.items.rows) (h : it.id = other.id) : it = other :=
  w.items.eq_of_key (k := .id other.id) hit hother (by simp [CollectionItem.keys, h])
    (by simp [CollectionItem.keys])

theorem only_upsert (w : World) (uri : String) (ownerId : ℕ) (doc : FeaturedCollection)
    (settings : Bool) :
    Inside (upsertCollection w uri ownerId doc settings).2 w
      (upsertCollection w uri ownerId doc settings).1 := by
  rw [upsertCollection]
  cases hfind : w.collections.rows.find? (·.uri = some uri) with
  | some c =>
      have hc := List.mem_of_find?_eq_some hfind
      have hcu : c.uri = some uri := by simpa using List.find?_some hfind
      refine ⟨fun d hd => ?_, fun _ _ => Iff.rfl⟩
      refine Table.mem_update_of_fixed (keys_overwrite uri doc settings w.clock)
        (q := fun d => d.id ≠ c.id) (fun d => ?_) ?_ hd
      · rw [overwrite]
        split <;> rfl
      · intro d hdm hne
        rw [overwrite, if_neg]
        intro hdu
        exact hne (congrArg Collection.id (eq_of_uri hdm hc hdu hcu))
  | none =>
      refine ⟨fun d hd => ?_, fun _ _ => Iff.rfl⟩
      rw [Table.mem_insert]
      constructor
      · rintro (hdm | ⟨_, rfl⟩)
        · exact hdm
        · exact absurd rfl hd
      · exact .inl

theorem saveItem_eq_some {it : CollectionItem} (h : saveItem w it = some w') :
    ¬ (w.items.deleteWhere (·.id = it.id)).Taken it ∧
      w' = { w with
        items := (w.items.deleteWhere (·.id = it.id)).insert it
        clock := w.clock + 1 } := by
  simp only [saveItem] at h
  split at h
  next => cases h
  next hfree => exact ⟨hfree, (Option.some.inj h).symm⟩

theorem mem_saveItem {it x : CollectionItem} (h : saveItem w it = some w') :
    x ∈ w'.items.rows ↔ (x ∈ w.items.rows ∧ x.id ≠ it.id) ∨ x = it := by
  obtain ⟨hfree, rfl⟩ := saveItem_eq_some h
  simp [hfree]

theorem only_saveItem {it : CollectionItem} (h : saveItem w it = some w') (hit : Q it)
    (hold : ∀ x ∈ w.items.rows, x.id = it.id → Q x) : Only P Q w w' := by
  constructor
  · intro c _
    rw [(saveItem_eq_some h).2]
  · intro x hx
    rw [mem_saveItem h]
    constructor
    · rintro (⟨hxm, _⟩ | rfl)
      · exact hxm
      · exact absurd hit hx
    · intro hxm
      exact .inl ⟨hxm, fun hid => hx (hold x hxm hid)⟩

theorem only_refresh (w : World) (id : ℕ) : Only (·.id = id) Q w (refreshItemCount w id) := by
  refine ⟨fun d hd => ?_, fun _ _ => Iff.rfl⟩
  refine Table.mem_update_of_fixed (keys_recount w id) (q := fun d => d.id ≠ id)
    (fun d => ?_) ?_ hd
  · rw [recount]
    split <;> rfl
  · intro d _ hne
    rw [recount, if_neg hne]

theorem only_saveCounted {it : CollectionItem} (hit : Q it)
    (hold : ∀ x ∈ w.items.rows, x.id = it.id → Q x) :
    Only (·.id = it.collectionId) Q w (saveCounted w it) := by
  rw [saveCounted]
  cases hsave : saveItem w it with
  | none => exact .refl
  | some w₁ => exact (only_saveItem hsave hit hold).trans (only_refresh w₁ it.collectionId)

/-! ### Time -/

theorem past_tick {collections : Table Collection.keys} {items : Table CollectionItem.keys}
    (hc : ∀ c ∈ collections.rows, c.id ≤ w.clock ∧ c.updatedAt ≤ w.clock)
    (hi : ∀ it ∈ items.rows, it.id ≤ w.clock ∧ it.updatedAt ≤ w.clock) :
    Past { w with collections := collections, items := items, clock := w.clock + 1 } where
  collections c hm := ⟨Nat.lt_succ_of_le (hc c hm).1, Nat.lt_succ_of_le (hc c hm).2⟩
  items it hm := ⟨Nat.lt_succ_of_le (hi it hm).1, Nat.lt_succ_of_le (hi it hm).2⟩

theorem Past.collection_le (h : Past w) {c : Collection} (hc : c ∈ w.collections.rows) :
    c.id ≤ w.clock ∧ c.updatedAt ≤ w.clock :=
  ⟨Nat.le_of_lt (h.collections c hc).1, Nat.le_of_lt (h.collections c hc).2⟩

theorem Past.item_le (h : Past w) {it : CollectionItem} (hit : it ∈ w.items.rows) :
    it.id ≤ w.clock ∧ it.updatedAt ≤ w.clock :=
  ⟨Nat.le_of_lt (h.items it hit).1, Nat.le_of_lt (h.items it hit).2⟩

theorem past_upsert (h : Past w) (uri : String) (ownerId : ℕ) (doc : FeaturedCollection)
    (settings : Bool) : Past (upsertCollection w uri ownerId doc settings).1 := by
  rw [upsertCollection]
  cases w.collections.rows.find? (·.uri = some uri) with
  | some c =>
      refine past_tick (fun d hd => ?_) fun it hit => h.item_le hit
      obtain ⟨e, he, rfl⟩ := Table.mem_update.mp hd
      rw [overwrite]
      split
      · exact ⟨(h.collection_le he).1, Nat.le_refl _⟩
      · exact h.collection_le he
  | none =>
      refine past_tick (fun d hd => ?_) fun it hit => h.item_le hit
      rcases Table.mem_insert.mp hd with hd | ⟨_, rfl⟩
      · exact h.collection_le hd
      · exact ⟨Nat.le_refl _, Nat.le_refl _⟩

theorem past_saveItem {it : CollectionItem} (h : Past w) (hid : it.id ≤ w.clock)
    (hat : it.updatedAt ≤ w.clock) (hsave : saveItem w it = some w') : Past w' := by
  rw [(saveItem_eq_some hsave).2]
  refine past_tick (fun c hc => h.collection_le hc) fun x hx => ?_
  rw [Table.mem_insert, Table.mem_deleteWhere] at hx
  rcases hx with ⟨hx, _⟩ | ⟨_, rfl⟩
  · exact h.item_le hx
  · exact ⟨hid, hat⟩

theorem past_refresh (h : Past w) (id : ℕ) : Past (refreshItemCount w id) := by
  refine past_tick (fun d hd => ?_) fun it hit => h.item_le hit
  obtain ⟨e, he, rfl⟩ := Table.mem_update.mp hd
  have hle := h.collection_le he
  rw [recount]
  split <;> exact hle

/-! ### Accounts stored on the way -/

/-- The accounts there stay, local or remote as they were. -/
def Stored (db db' : Db) : Prop :=
  ∀ a ∈ db.accounts.rows, ∃ b ∈ db'.accounts.rows, b.id = a.id ∧ (b.domain = none ↔ a.domain = none)

theorem Stored.refl (db : Db) : Stored db db := fun a ha => ⟨a, ha, rfl, Iff.rfl⟩

theorem Stored.trans {db db' db'' : Db} (h : Stored db db') (h' : Stored db' db'') :
    Stored db db'' := by
  intro a ha
  obtain ⟨b, hb, hid, hdomain⟩ := h a ha
  obtain ⟨c, hc, hid', hdomain'⟩ := h' b hb
  exact ⟨c, hc, hid'.trans hid, hdomain'.trans hdomain⟩

theorem account_eq_of_id {db : Db} {a b : Account} (ha : a ∈ db.accounts.rows)
    (hb : b ∈ db.accounts.rows) (h : a.id = b.id) : a = b :=
  db.accounts.eq_of_key (k := .id b.id) ha hb (by simp [Account.keys, h]) (by simp [Account.keys])

theorem stored_resolve {n : Network} {db db' : Db} {uri : String} {id : ℕ}
    (h : resolve n db uri = some (db', id)) : Stored db db' := by
  rw [resolve, InboxRelationships.resolveOrFetch] at h
  split at h
  next =>
    obtain ⟨a, _, he⟩ := Option.map_eq_some_iff.mp h
    rw [← (Prod.mk.inj he).1]
    exact .refl db
  next =>
    split at h
    next =>
      rw [← (Prod.mk.inj (Option.some.inj h)).1]
      exact .refl db
    next =>
      obtain ⟨f, hf, he⟩ := Option.map_eq_some_iff.mp h
      rw [← (Prod.mk.inj he).1]
      exact n.fetchAccount_keeps db uri f hf

theorem mem_localByPath {i : InboxRelationships.Instance} {db : Db} {path : List String}
    {a : Account} (h : InboxRelationships.localByPath i db path = some a) :
    a ∈ db.accounts.rows := by
  unfold InboxRelationships.localByPath at h
  split at h
  · exact List.mem_of_find?_eq_some h
  · obtain ⟨_, _, hfind⟩ := Option.bind_eq_some_iff.mp h
    exact List.mem_of_find?_eq_some hfind
  · cases h

theorem exists_of_resolve {n : Network} {db db' : Db} {uri : String} {id : ℕ}
    (h : resolve n db uri = some (db', id)) : ∃ a ∈ db'.accounts.rows, a.id = id := by
  rw [resolve, InboxRelationships.resolveOrFetch] at h
  split at h
  next =>
    obtain ⟨a, ha, he⟩ := Option.map_eq_some_iff.mp h
    obtain ⟨rfl, rfl⟩ := Prod.mk.inj he
    exact ⟨a, mem_localByPath ha, rfl⟩
  next =>
    split at h
    next a ha =>
      obtain ⟨rfl, rfl⟩ := Prod.mk.inj (Option.some.inj h)
      exact ⟨a, (Db.accountByUri_mem ha).1, rfl⟩
    next =>
      obtain ⟨f, hf, he⟩ := Option.map_eq_some_iff.mp h
      obtain ⟨rfl, rfl⟩ := Prod.mk.inj he
      obtain ⟨a, ha, hid, _⟩ := n.fetchAccount_uri db uri f hf
      exact ⟨a, ha, hid⟩

/-! ### An item mirrored -/

theorem itemOf_spec (w : World) (collectionId accountId : ℕ) :
    (itemOf w collectionId accountId ∈ w.items.rows ∨
      (itemOf w collectionId accountId).id = w.clock) ∧
    (itemOf w collectionId accountId).collectionId = collectionId ∧
    (itemOf w collectionId accountId).accountId = some accountId := by
  rw [itemOf]
  cases hfind : w.items.rows.find? fun it =>
      it.accountId = some accountId ∧ it.collectionId = collectionId with
  | none => exact ⟨.inr rfl, rfl, rfl⟩
  | some it =>
      have hit : it.accountId = some accountId ∧ it.collectionId = collectionId := by
        simpa using List.find?_some hfind
      exact ⟨.inl (List.mem_of_find?_eq_some hfind), hit.2, hit.1⟩

theorem Past.itemOf_id_le (h : Past w) (collectionId accountId : ℕ) :
    (itemOf w collectionId accountId).id ≤ w.clock := by
  rcases (itemOf_spec w collectionId accountId).1 with hm | hid
  · exact (h.item_le hm).1
  · exact Nat.le_of_eq hid

theorem Past.pair_itemOf (h : Past w) (collectionId accountId : ℕ) :
    ∀ x ∈ w.items.rows, x.id = (itemOf w collectionId accountId).id →
      x.collectionId = collectionId ∧ x.accountId = some accountId := by
  intro x hx hid
  obtain ⟨hm | hclock, hcollection, haccount⟩ := itemOf_spec w collectionId accountId
  · rw [item_eq_of_id hx hm hid]
    exact ⟨hcollection, haccount⟩
  · have hlt := (h.items x hx).1
    omega

/-- What the activity has done so far to a collection, which had one owner all along. -/
structure Wrote (w w' : World) (id owner : ℕ) : Prop where
  past : Past w'
  only : Inside id w w'
  stored : Stored w.db w'.db
  exists_row : ∃ c ∈ w'.collections.rows, c.id = id
  row : ∀ c ∈ w'.collections.rows, c.id = id → c.accountId = owner ∧ w.clock ≤ c.updatedAt

theorem Wrote.items {id owner : ℕ} (h : Wrote w w' id owner) (hpast : Past w'')
    (honly : Inside id w' w'') (hstored : Stored w'.db w''.db)
    (hcollections : w''.collections = w'.collections) : Wrote w w'' id owner where
  past := hpast
  only := h.only.trans honly
  stored := h.stored.trans hstored
  exists_row := hcollections ▸ h.exists_row
  row := hcollections ▸ h.row

theorem Wrote.refresh {id owner : ℕ} (h : Wrote w w' id owner) :
    Wrote w (refreshItemCount w' id) id owner where
  past := past_refresh h.past id
  only := h.only.trans (only_refresh w' id)
  stored := h.stored
  exists_row := by
    obtain ⟨c, hc, hid⟩ := h.exists_row
    refine ⟨recount w' id c, List.mem_map_of_mem hc, ?_⟩
    rw [recount, if_pos hid]
    exact hid
  row := by
    intro c hc hid
    obtain ⟨b, hb, rfl⟩ := List.mem_map.mp hc
    rw [recount] at hid ⊢
    split at hid
    next hbid =>
      rw [if_pos hbid]
      exact h.row b hb hbid
    next hne => exact absurd hid hne

theorem wrote_saveItem {id owner : ℕ} {it : CollectionItem} (h : Wrote w w' id owner)
    (hsave : saveItem w' it = some w'') (hit : it.collectionId = id)
    (hold : ∀ x ∈ w'.items.rows, x.id = it.id → x.collectionId = id) (hid : it.id ≤ w'.clock)
    (hat : it.updatedAt ≤ w'.clock) : Wrote w w'' id owner := by
  refine h.items (past_saveItem h.past hid hat hsave) (only_saveItem hsave hit hold) ?_ ?_
  · rw [(saveItem_eq_some hsave).2]
    exact .refl _
  · rw [(saveItem_eq_some hsave).2]

theorem wrote_mirrorItemInto {n : Network} {id owner : ℕ} (h : Wrote w w' id owner)
    (item : FeaturedItem) : Wrote w (mirrorItemInto n w' id item) id owner := by
  rw [mirrorItemInto]
  dsimp only
  split
  next => exact h
  next =>
    split
    next => exact h
    next db accountId hresolve =>
      have hstored : Wrote w { w' with db := db } id owner :=
        h.items ⟨h.past.collections, h.past.items⟩ ⟨fun _ _ => Iff.rfl, fun _ _ => Iff.rfl⟩
          (stored_resolve hresolve) rfl
      have hcollection := (itemOf_spec { w' with db := db } id accountId).2.1
      rw [saveCounted]
      split
      next => exact hstored
      next w₁ hsave =>
        dsimp only
        rw [hcollection]
        refine (wrote_saveItem hstored hsave hcollection ?_ ?_ (Nat.le_refl _)).refresh
        · exact fun x hx hid => (hstored.past.pair_itemOf id accountId x hx hid).1
        · exact hstored.past.itemOf_id_le id accountId

theorem wrote_mirrorItems {n : Network} {id owner : ℕ} (h : Wrote w w' id owner)
    (items : List FeaturedItem) :
    Wrote w (items.foldl (fun w item => mirrorItemInto n w id item) w') id owner := by
  induction items generalizing w' with
  | nil => exact h
  | cons item items ih => exact ih (wrote_mirrorItemInto h item)

/-- The collection an upsert writes: the one under the URI, or a new one. -/
def Target (w : World) (uri : String) (ownerId id owner : ℕ) : Prop :=
  (∃ c ∈ w.collections.rows, c.uri = some uri ∧ c.id = id ∧ c.accountId = owner) ∨
    ((∀ c ∈ w.collections.rows, c.uri ≠ some uri ∧ c.id ≠ id) ∧ owner = ownerId)

theorem wrote_upsert (h : Past w) (uri : String) (ownerId : ℕ) (doc : FeaturedCollection)
    (settings : Bool) :
    ∃ owner, Target w uri ownerId (upsertCollection w uri ownerId doc settings).2 owner ∧
      Wrote w (upsertCollection w uri ownerId doc settings).1
        (upsertCollection w uri ownerId doc settings).2 owner := by
  have hpast := past_upsert h uri ownerId doc settings
  have honly := only_upsert w uri ownerId doc settings
  revert hpast honly
  rw [upsertCollection]
  cases hfind : w.collections.rows.find? (·.uri = some uri) with
  | some c =>
      intro hpast honly
      have hc := List.mem_of_find?_eq_some hfind
      have huri : c.uri = some uri := by simpa using List.find?_some hfind
      refine ⟨c.accountId, .inl ⟨c, hc, huri, rfl, rfl⟩, hpast, honly, .refl _, ?_, ?_⟩
      · refine ⟨overwrite uri doc settings w.clock c, List.mem_map_of_mem hc, ?_⟩
        rw [overwrite, if_pos huri]
      · intro d hd hid
        obtain ⟨b, hb, rfl⟩ := List.mem_map.mp hd
        rw [overwrite] at hid ⊢
        split at hid
        next hbu =>
          rw [if_pos hbu, eq_of_uri hb hc hbu huri]
          exact ⟨rfl, Nat.le_refl _⟩
        next hne =>
          rw [eq_of_id hb hc hid] at hne
          exact absurd huri hne
  | none =>
      intro hpast honly
      have hnone : ∀ c ∈ w.collections.rows, c.uri ≠ some uri := by
        intro c hc
        simpa using List.find?_eq_none.mp hfind c hc
      have hfresh : ∀ c ∈ w.collections.rows, c.id ≠ w.clock := fun c hc =>
        Nat.ne_of_lt (h.collections c hc).1
      refine ⟨ownerId, .inr ⟨fun c hc => ⟨hnone c hc, hfresh c hc⟩, rfl⟩, hpast, honly, .refl _,
        ?_, ?_⟩
      · refine ⟨_, Table.mem_insert.mpr (.inr ⟨?_, rfl⟩), rfl⟩
        rintro ⟨c, hc, k, hk, hk'⟩
        have hkey : k = .id w.clock ∨ k = .uri uri := by simpa [Collection.keys] using hk'
        rcases hkey with rfl | rfl
        · exact hfresh c hc (by simpa [Collection.keys, eq_comm] using hk)
        · exact hnone c hc (by simpa [Collection.keys] using hk)
      · intro d hd hid
        rcases Table.mem_insert.mp hd with hd | ⟨_, rfl⟩
        · exact absurd hid (hfresh d hd)
        · exact ⟨rfl, Nat.le_refl _⟩

/-! ### What a collection written means -/

variable {n : Network} {actor source' : String}

theorem MayChange.mono {p q : Prop} {db : Db} {ownerId : ℕ} (hpq : p → q)
    (h : MayChange n w actor source' p db ownerId) : MayChange n w actor source' q db ownerId := by
  intro o ho hid
  rcases h o ho hid with ⟨hlocal, hp⟩ | hremote
  · exact .inl ⟨hlocal, hpq hp⟩
  · exact .inr hremote

theorem OwnerAllows.mono {p q : Prop} {id : ℕ} (hpq : p → q)
    (h : OwnerAllows n w w' actor source' p id) : OwnerAllows n w w' actor source' q id where
  left c hc hid := (h.1 c hc hid).mono hpq
  right hnone c hc hid := (h.2 hnone c hc hid).mono hpq

theorem belongs_of_same {a : Inbound} (hcollections : w'.collections = w.collections)
    (hitems : w'.items = w.items) : Belongs n w w' actor a where
  owners c hc c' hc' hid := by
    rw [hcollections] at hc'
    rw [eq_of_id hc' hc hid]
  collections c hc := absurd (by rw [hcollections]) hc
  items it hit := absurd (by rw [hitems]) hit

theorem belongs_of_only {a : Inbound} (id : ℕ) (honly : Only (·.id = id) Q w w')
    (howner : ∀ c ∈ w.collections.rows, ∀ c' ∈ w'.collections.rows, c.id = id → c'.id = id →
      c'.accountId = c.accountId)
    (hcollection : OwnerAllows n w w' actor (source n actor a)
      (∃ it ∈ w.items.rows, it.collectionId = id ∧ Consents w actor a it.accountId) id)
    (hitems : ∀ it, Q it → OwnerAllows n w w' actor (itemSource n actor a)
      (Consents w actor a it.accountId) it.collectionId) :
    Belongs n w w' actor a where
  owners c hc c' hc' hid := by
    by_cases hcid : c.id = id
    · exact howner c hc c' hc' hcid (hid.trans hcid)
    · have hc'' := (honly.collections c' (hid ▸ hcid)).mp hc'
      rw [eq_of_id hc'' hc hid]
  collections c hc := by
    have hcid : c.id = id := by
      by_contra hne
      exact hc (honly.collections c hne)
    rw [hcid]
    exact hcollection
  items it hit := by
    by_contra hnot
    exact hit (honly.items it fun hq => hnot (hitems it hq))

theorem belongs_of_wrote {a : Inbound} {id owner : ℕ} (hwrote : Wrote w w' id owner)
    (howner : ∀ c ∈ w.collections.rows, c.id = id → c.accountId = owner)
    (hcollection : OwnerAllows n w w' actor (source n actor a) False id)
    (hitems : OwnerAllows n w w' actor (itemSource n actor a) False id) :
    Belongs n w w' actor a := by
  refine belongs_of_only id hwrote.only ?_ (hcollection.mono False.elim) ?_
  · intro c hc c' hc' hid hid'
    rw [howner c hc hid, (hwrote.row c' hc' hid').1]
  · rintro it rfl
    exact hitems.mono False.elim

theorem Wrote.changed {id owner : ℕ} (hwrote : Wrote w w' id owner) (h : Past w) :
    ∃ c : Collection, c.id = id ∧ ¬ (c ∈ w'.collections.rows ↔ c ∈ w.collections.rows) := by
  obtain ⟨c, hc, hid⟩ := hwrote.exists_row
  refine ⟨c, hid, fun hsame => ?_⟩
  have hlate := (hwrote.row c hc hid).2
  have hearly := (h.collections c (hsame.mp hc)).2
  omega

theorem Target.owner_eq {uri : String} {ownerId id owner : ℕ} (h : Target w uri ownerId id owner) :
    ∀ c ∈ w.collections.rows, c.id = id → c.accountId = owner := by
  intro c hc hid
  rcases h with ⟨d, hd, _, hdid, hdowner⟩ | ⟨hnone, _⟩
  · rw [eq_of_id hc hd (hid.trans hdid.symm), hdowner]
  · exact absurd hid (hnone c hc).2

theorem ownerAllows_iff (n : Network) (actor source' : String) (db : Db) {uri : String}
    {ownerId id owner : ℕ}
    (htarget : Target w uri ownerId id owner) (hwrote : Wrote w w' id owner)
    (hnew : MayChange n w actor source' False w'.db ownerId ↔
      MayChange n w actor source' False db ownerId) :
    OwnerAllows n w w' actor source' False id ↔ Lands n w actor source' uri db ownerId := by
  rcases htarget with ⟨c, hc, huri, hid, howner⟩ | ⟨hnone, rfl⟩
  · constructor
    · intro h
      refine ⟨fun d hd hdu => h.1 d hd ?_, fun hno => absurd huri (hno c hc)⟩
      rw [eq_of_uri hd hc hdu huri, hid]
    · intro h
      refine ⟨fun d hd hdid => h.1 d hd ?_, fun hno => absurd hid (hno c hc)⟩
      rw [eq_of_id hd hc (hdid.trans hid.symm), huri]
  · constructor
    · intro h
      refine ⟨fun d hd hdu => absurd hdu (hnone d hd).1, fun _ => hnew.mp ?_⟩
      obtain ⟨c, hc, hid⟩ := hwrote.exists_row
      have hallows := h.2 (fun d hd => (hnone d hd).2) c hc hid
      rwa [(hwrote.row c hc hid).1] at hallows
    · intro h
      refine ⟨fun d hd hdid => absurd hdid (hnone d hd).2, fun _ c hc hid => ?_⟩
      rw [(hwrote.row c hc hid).1]
      exact hnew.mpr (h.2 fun d hd => (hnone d hd).1)

theorem mayChange_actor_iff {db : Db} {id : ℕ} (hactor : IsActor n w.db actor id) :
    MayChange n w actor source' False db id ↔
      ∀ o ∈ db.accounts.rows, o.id = id → o.domain ≠ none := by
  constructor
  · intro h o ho hid
    rcases h o ho hid with ⟨_, hfalse⟩ | ⟨hremote, _⟩
    · exact hfalse.elim
    · exact hremote
  · intro h o ho hid
    exact .inr ⟨h o ho hid, .inl hactor⟩

theorem remote_stored_iff {db db' : Db} {id : ℕ} (h : Stored db db')
    (hthere : ∃ a ∈ db.accounts.rows, a.id = id) :
    (∀ o ∈ db'.accounts.rows, o.id = id → o.domain ≠ none) ↔
      ∀ o ∈ db.accounts.rows, o.id = id → o.domain ≠ none := by
  constructor
  · intro hremote o ho hid hlocal
    obtain ⟨b, hb, hbid, hdomain⟩ := h o ho
    exact hremote b hb (hbid.trans hid) (hdomain.mpr hlocal)
  · intro hremote o ho hid hlocal
    obtain ⟨a, ha, haid⟩ := hthere
    obtain ⟨b, hb, hbid, hdomain⟩ := h a ha
    rw [account_eq_of_id ho hb (by rw [hid, hbid, haid])] at hlocal
    exact hremote a ha haid (hdomain.mp hlocal)

theorem Wrote.of_db {db : Db} {id owner : ℕ} (h : Wrote { w with db := db } w' id owner)
    (hstored : Stored w.db db) : Wrote w w' id owner where
  past := h.past
  only := ⟨h.only.collections, h.only.items⟩
  stored := hstored.trans h.stored
  exists_row := h.exists_row
  row := h.row

theorem wrote_mirrorRemoteCollection (n : Network) (h : Past w) {doc : FeaturedCollection}
    (ownerId : ℕ) (hid : doc.id.getD "" ≠ "") :
    ∃ id owner, Target w (doc.id.getD "") ownerId id owner ∧
      Wrote w (mirrorRemoteCollection n w ownerId doc) id owner := by
  obtain ⟨owner, htarget, hwrote⟩ := wrote_upsert h (doc.id.getD "") ownerId doc true
  refine ⟨_, owner, htarget, ?_⟩
  rw [mirrorRemoteCollection, upsertRemoteCollection, if_neg hid]
  exact wrote_mirrorItems hwrote doc.orderedItems

theorem mirrorRemoteCollection_of_empty {doc : FeaturedCollection} {ownerId : ℕ}
    (hid : doc.id.getD "" = "") : mirrorRemoteCollection n w ownerId doc = w := by
  rw [mirrorRemoteCollection, upsertRemoteCollection, if_pos hid]

def NoConsent (w : World) (actor : String) (a : Inbound) : Prop :=
  ∀ featured, ¬ Consents w actor a featured

theorem Belongs.owner_allows {a : Inbound} {id owner : ℕ} (h : Belongs n w w' actor a)
    (hpast : Past w) (hwrote : Wrote w w' id owner) (hno : NoConsent w actor a) :
    OwnerAllows n w w' actor (source n actor a) False id := by
  obtain ⟨c, hid, hchanged⟩ := hwrote.changed hpast
  rw [← hid]
  refine (h.collections c hchanged).mono ?_
  rintro ⟨it, _, _, hconsent⟩
  exact hno _ hconsent

theorem belongs_mirrorOf_iff {a : Inbound} {doc : FeaturedCollection} (h : Past w)
    (hitem : itemSource n actor a = source n actor a) (hno : NoConsent w actor a) :
    Belongs n w (mirrorOf n w actor doc) actor a ↔
      MirrorLands n w actor (source n actor a) doc := by
  rw [mirrorOf, MirrorLands]
  cases hresolve : resolve n w.db actor with
  | none =>
      refine ⟨?_, fun _ => belongs_of_same rfl rfl⟩
      intro _ _ _ _ hsome
      cases hsome
  | some found =>
      obtain ⟨db, ownerId⟩ := found
      by_cases hid : doc.id.getD "" = ""
      · dsimp only
        rw [mirrorRemoteCollection_of_empty hid]
        exact ⟨fun _ hne => absurd hid hne, fun _ => belongs_of_same rfl rfl⟩
      · have hpast : Past { w with db := db } := ⟨h.collections, h.items⟩
        obtain ⟨id, owner, htarget, hwrote₀⟩ :=
          wrote_mirrorRemoteCollection n hpast ownerId hid
        have hwrote := hwrote₀.of_db (stored_resolve hresolve)
        have hactor : IsActor n w.db actor ownerId := .inr ⟨db, hresolve⟩
        have hnew (s : String) :
            MayChange n w actor s False
              (mirrorRemoteCollection n { w with db := db } ownerId doc).db ownerId ↔
              MayChange n w actor s False db ownerId := by
          rw [mayChange_actor_iff hactor, mayChange_actor_iff hactor]
          exact remote_stored_iff hwrote₀.stored (exists_of_resolve hresolve)
        have htarget' : Target w (doc.id.getD "") ownerId id owner := htarget
        have hiff (s : String) := ownerAllows_iff n actor s db htarget' hwrote (hnew s)
        constructor
        · rintro hbelongs _ _ _ ⟨⟩
          exact (hiff _).mp (hbelongs.owner_allows h hwrote hno)
        · intro hlands
          have hallows := (hiff _).mpr (hlands hid db ownerId rfl)
          exact belongs_of_wrote hwrote htarget'.owner_eq hallows (hitem ▸ hallows)

/-! ### Mirrored collections -/

theorem belongs_addCollection_iff (h : Past w) (doc : FeaturedCollection) :
    Belongs n w (addCollection n w actor doc) actor (.addCollection doc) ↔
      Ready n w actor (.addCollection doc) := by
  rw [addCollection, Ready]
  split
  next hempty =>
    refine ⟨fun _ hactor hid => ?_, fun _ => belongs_of_same rfl rfl⟩
    exact absurd (hempty.resolve_left hactor) hid
  next hfull =>
    rw [belongs_mirrorOf_iff (a := .addCollection doc) h rfl fun _ hc => hc]
    exact ⟨fun hlands _ => hlands, fun hready => hready fun he => hfull (.inl he)⟩

theorem belongs_updateCollection_iff {a : Inbound} (h : Past w) (doc : FeaturedCollection)
    (hitem : itemSource n actor a = source n actor a) (hno : NoConsent w actor a) :
    Belongs n w (updateCollection n w actor doc) actor a ↔
      (doc.type = some "FeaturedCollection" → actor ≠ "" →
        MirrorLands n w actor (source n actor a) doc) := by
  rw [updateCollection]
  split
  next hother =>
    refine ⟨fun _ htype hactor => ?_, fun _ => belongs_of_same rfl rfl⟩
    rcases hother with hne | he
    · exact absurd htype hne
    · exact absurd he hactor
  next hfull =>
    rw [belongs_mirrorOf_iff h hitem hno]
    refine ⟨fun hlands _ _ => hlands, fun hready => hready ?_ fun he => hfull (.inr he)⟩
    by_contra hne
    exact hfull (.inl hne)

theorem belongs_updateLink_iff (h : Past w) (uri : String) :
    Belongs n w (step n w actor (.updateLink uri)) actor (.updateLink uri) ↔
      Ready n w actor (.updateLink uri) := by
  simp only [step, Ready]
  cases hdoc : n.document uri with
  | none => exact ⟨by rintro _ _ ⟨⟩, fun _ => belongs_of_same rfl rfl⟩
  | some doc =>
      have hsource : source n actor (.updateLink uri) = doc.id.getD "" := by
        simp [source, hdoc]
      dsimp only
      rw [belongs_updateCollection_iff (a := .updateLink uri) h doc rfl fun _ hc => hc, hsource]
      constructor
      · rintro hready _ ⟨⟩
        exact hready
      · exact fun hready => hready doc rfl

theorem belongs_mirrorOwn_iff (h : Past w) (entry : Listed) {account : Account}
    (haccount : account ∈ w.db.accounts.rows) (huri : account.uri = some actor)
    (hremote : account.domain ≠ none) (doc : FeaturedCollection) :
    Belongs n w (mirrorRemoteCollection n w account.id doc) actor (.refresh entry) ↔
      (doc.id.getD "" ≠ "" → ∀ c ∈ w.collections.rows, c.uri = some (doc.id.getD "") →
        MayChange n w actor actor False w.db c.accountId) := by
  by_cases hid : doc.id.getD "" = ""
  · rw [mirrorRemoteCollection_of_empty hid]
    exact ⟨fun _ hne => absurd hid hne, fun _ => belongs_of_same rfl rfl⟩
  · obtain ⟨id, owner, htarget, hwrote⟩ :=
      wrote_mirrorRemoteCollection n h account.id hid
    have hactor : IsActor n w.db actor account.id := .inl ⟨account, haccount, rfl, huri⟩
    have hremotes : ∀ o ∈ w.db.accounts.rows, o.id = account.id → o.domain ≠ none := by
      intro o ho hoid
      rwa [account_eq_of_id ho haccount hoid]
    have hnew : MayChange n w actor actor False w.db account.id :=
      (mayChange_actor_iff hactor).mpr hremotes
    have hnew' : MayChange n w actor actor False
        (mirrorRemoteCollection n w account.id doc).db account.id := by
      rw [mayChange_actor_iff hactor]
      exact (remote_stored_iff hwrote.stored ⟨account, haccount, rfl⟩).mpr hremotes
    have hiff := ownerAllows_iff n actor actor w.db htarget hwrote (iff_of_true hnew' hnew)
    constructor
    · intro hbelongs _
      exact (hiff.mp (hbelongs.owner_allows h hwrote fun _ hc => hc)).1
    · intro hready
      have hallows := hiff.mpr ⟨hready hid, fun _ => hnew⟩
      exact belongs_of_wrote hwrote htarget.owner_eq hallows hallows

theorem belongs_fetchFeatured_iff (h : Past w) (entry : Listed) :
    Belongs n w (fetchFeatured n w actor entry) actor (.refresh entry) ↔
      Ready n w actor (.refresh entry) := by
  rw [fetchFeatured, Ready]
  cases hfind : w.db.accounts.rows.find? fun a =>
      a.uri = some actor ∧ a.domain ≠ none ∧ a.unavailable = false with
  | none =>
      refine ⟨?_, fun _ => belongs_of_same rfl rfl⟩
      intro _ _ hsome
      cases hsome
  | some account =>
      obtain ⟨huri, hremote, _⟩ : account.uri = some actor ∧ account.domain ≠ none ∧
          account.unavailable = false := by simpa using List.find?_some hfind
      have hiff := belongs_mirrorOwn_iff (n := n) h entry
        (List.mem_of_find?_eq_some hfind) huri hremote
      dsimp only
      cases hdoc : entry.document n w account.id with
      | none =>
          refine ⟨?_, fun _ => belongs_of_same rfl rfl⟩
          rintro _ _ ⟨⟩ doc hdoc'
          rw [hdoc] at hdoc'
          cases hdoc'
      | some doc =>
          dsimp only
          split
          next hrefused =>
            refine ⟨?_, fun _ => belongs_of_same rfl rfl⟩
            rintro _ _ ⟨⟩ doc' hdoc' hhost hof
            obtain rfl := Option.some.inj (hdoc.symm.trans hdoc')
            rcases hrefused with hother | hother
            · rw [hother] at hhost
              cases hhost
            · exact absurd hof hother
          next hown =>
            rw [hiff doc]
            constructor
            · rintro hready _ ⟨⟩ doc' hdoc' _ _
              obtain rfl := Option.some.inj (hdoc.symm.trans hdoc')
              exact hready
            · intro hready
              refine hready account rfl doc hdoc ?_ ?_
              · by_contra hother
                exact hown (.inl (Bool.eq_false_iff.mpr hother))
              · by_contra hother
                exact hown (.inr hother)

/-! ### Items in each other's way -/

theorem clash_items_iff {x y : CollectionItem} :
    Clash CollectionItem.keys x y ↔
      x.id = y.id ∨ (∃ a, x.accountId = some a ∧ y.accountId = some a ∧
        x.collectionId = y.collectionId) ∨
      (∃ u, x.uri = some u ∧ y.uri = some u) ∨
      ∃ u, x.approvalUri = some u ∧ y.approvalUri = some u := by
  constructor
  · rintro ⟨k, hx, hy⟩
    simp only [CollectionItem.keys, List.mem_cons, List.mem_append, Option.mem_toList,
      Option.map_eq_some_iff] at hx hy
    grind
  · rintro (h | ⟨a, hx, hy, h⟩ | ⟨u, hx, hy⟩ | ⟨u, hx, hy⟩)
    · exact ⟨.id y.id, by simp [CollectionItem.keys, h], by simp [CollectionItem.keys]⟩
    · exact ⟨.featured a y.collectionId, by simp [CollectionItem.keys, hx, h],
        by simp [CollectionItem.keys, hy]⟩
    · exact ⟨.uri u, by simp [CollectionItem.keys, hx], by simp [CollectionItem.keys, hy]⟩
    · exact ⟨.approvalUri u, by simp [CollectionItem.keys, hx], by simp [CollectionItem.keys, hy]⟩

def Clear (w : World) (it : CollectionItem) : Prop :=
  ∀ x ∈ w.items.rows, x.id ≠ it.id → ¬ Clash CollectionItem.keys x it

theorem clear_of_mem {it : CollectionItem} (hit : it ∈ w.items.rows) : Clear w it := by
  intro x hx hne hclash
  exact hne (congrArg CollectionItem.id (w.items.eq_of_clash hx hit hclash))

theorem clear_itemOf (w : World) (collectionId accountId : ℕ) :
    Clear w (itemOf w collectionId accountId) := by
  rw [itemOf]
  cases hfind : w.items.rows.find? fun it =>
      it.accountId = some accountId ∧ it.collectionId = collectionId with
  | some it => exact clear_of_mem (List.mem_of_find?_eq_some hfind)
  | none =>
      intro x hx hne
      have hnot := List.find?_eq_none.mp hfind x hx
      simp only [decide_eq_true_eq, not_and] at hnot
      rw [clash_items_iff]
      rintro (hid | ⟨a, hxa, ha, hcollection⟩ | ⟨u, _, hu⟩ | ⟨u, _, hu⟩)
      · exact hne hid
      · exact hnot (hxa.trans ha.symm) hcollection
      · cases hu
      · cases hu

theorem saveItem_of_keys {it : CollectionItem} (it' : CollectionItem) (hclear : Clear w it) (hid : it'.id = it.id)
    (hkeys : it'.keys = it.keys) : ∃ w', saveItem w it' = some w' := by
  simp only [saveItem]
  rw [if_neg]
  · exact ⟨_, rfl⟩
  · rintro ⟨x, hx, hclash⟩
    rw [Table.mem_deleteWhere, decide_eq_false_iff_not, hid] at hx
    rw [Clash, hkeys] at hclash
    exact hclear x hx.1 hx.2 hclash

theorem saveItem_isSome_iff {it : CollectionItem} :
    (saveItem w it).isSome = true ↔
      ∀ x ∈ w.items.rows, x.id ≠ it.id → ¬ Clash CollectionItem.keys x it := by
  have htaken : (w.items.deleteWhere (·.id = it.id)).Taken it ↔
      ∃ x ∈ w.items.rows, x.id ≠ it.id ∧ Clash CollectionItem.keys x it := by
    simp [Table.Taken, and_assoc]
  simp only [saveItem]
  split
  next h =>
    obtain ⟨x, hx, hne, hclash⟩ := htaken.mp h
    refine ⟨nofun, fun hfree => absurd hclash (hfree x hx hne)⟩
  next h =>
    refine ⟨fun _ x hx hne hclash => h (htaken.mpr ⟨x, hx, hne, hclash⟩), fun _ => rfl⟩

theorem saveItem_mirrored_iff (h : Past w) {collectionId accountId : ℕ} {uri : Option String} :
    (saveItem w
        { itemOf w collectionId accountId with
          state := .accepted
          uri := uri
          updatedAt := w.clock }).isSome = true ↔ UriFree w uri collectionId accountId := by
  rw [saveItem_isSome_iff]
  have hclear := clear_itemOf w collectionId accountId
  obtain ⟨_, hcollection, haccount⟩ := itemOf_spec w collectionId accountId
  constructor
  · intro hfree x hx hsome huri
    obtain ⟨u, hu⟩ := Option.isSome_iff_exists.mp hsome
    have hid : x.id = (itemOf w collectionId accountId).id := by
      by_contra hne
      exact hfree x hx hne (clash_items_iff.mpr (.inr (.inr (.inl ⟨u, hu, huri ▸ hu⟩))))
    exact (h.pair_itemOf collectionId accountId x hx hid).symm
  · intro hfree x hx hne hclash
    have hnot := hclear x hx hne
    rw [clash_items_iff] at hnot hclash
    rcases hclash with hid | hpair | ⟨u, hxu, huri⟩ | happroval
    · exact hne hid
    · exact hnot (.inr (.inl hpair))
    · obtain ⟨hxa, hxc⟩ := hfree x hx (by rw [hxu]; rfl) (hxu.trans huri.symm)
      exact hnot (.inr (.inl ⟨accountId, hxa, haccount, hxc.trans hcollection.symm⟩))
    · exact hnot (.inr (.inr (.inr happroval)))

/-! ### Items written -/

theorem ownerAllows_of_kept {p : Prop} {id : ℕ}
    (hkept : ∀ c' ∈ w'.collections.rows, ∃ c ∈ w.collections.rows, c.id = c'.id) :
    OwnerAllows n w w' actor source' p id ↔
      ∀ c ∈ w.collections.rows, c.id = id → MayChange n w actor source' p w.db c.accountId := by
  refine ⟨fun h => h.1, fun h => ⟨h, fun hnone c' hc' hid => ?_⟩⟩
  obtain ⟨c, hc, hcid⟩ := hkept c' hc'
  exact absurd (hcid.trans hid) (hnone c hc)

theorem kept_refresh (id : ℕ) {c' : Collection}
    (hc' : c' ∈ (refreshItemCount w id).collections.rows) :
    ∃ c ∈ w.collections.rows, c.id = c'.id ∧ c.accountId = c'.accountId := by
  obtain ⟨c, hc, rfl⟩ := List.mem_map.mp hc'
  refine ⟨c, hc, ?_⟩
  rw [recount]
  split <;> exact ⟨rfl, rfl⟩

theorem kept_saveCounted {it : CollectionItem} {c' : Collection}
    (hc' : c' ∈ (saveCounted w it).collections.rows) :
    ∃ c ∈ w.collections.rows, c.id = c'.id ∧ c.accountId = c'.accountId := by
  rw [saveCounted] at hc'
  cases hsave : saveItem w it with
  | none =>
      rw [hsave] at hc'
      exact ⟨c', hc', rfl, rfl⟩
  | some w₁ =>
      rw [hsave] at hc'
      obtain ⟨c, hc, hid⟩ := kept_refresh (w := w₁) it.collectionId hc'
      rw [(saveItem_eq_some hsave).2] at hc
      exact ⟨c, hc, hid⟩

theorem mem_items_saveCounted {it : CollectionItem} (h : (saveItem w it).isSome = true) :
    it ∈ (saveCounted w it).items.rows := by
  obtain ⟨w₁, hsave⟩ := Option.isSome_iff_exists.mp h
  rw [saveCounted, hsave]
  exact (mem_saveItem hsave).mpr (.inr rfl)

theorem not_mem_of_now (h : Past w) {it : CollectionItem} (hnow : w.clock ≤ it.updatedAt) :
    it ∉ w.items.rows := by
  intro hit
  have hlt := (h.items it hit).2
  omega

theorem belongs_saveCounted_iff {a : Inbound} (h : Past w) (db : Db) (it : CollectionItem)
    (hnow : it.updatedAt = w.clock)
    (hold : ∀ x ∈ w.items.rows, x.id = it.id →
      x.collectionId = it.collectionId ∧ x.accountId = it.accountId)
    (hsource : source n actor a = itemSource n actor a)
    (hthere : NoConsent w actor a ∨ ∃ x ∈ w.items.rows, x.id = it.id) :
    Belongs n w (saveCounted { w with db := db } it) actor a ↔
      ((saveItem { w with db := db } it).isSome = true →
        ∀ c ∈ w.collections.rows, c.id = it.collectionId →
          MayChange n w actor (itemSource n actor a) (Consents w actor a it.accountId) w.db
            c.accountId) := by
  have hkept : ∀ c' ∈ (saveCounted { w with db := db } it).collections.rows,
      ∃ c ∈ w.collections.rows, c.id = c'.id := by
    intro c' hc'
    obtain ⟨c, hc, hid, _⟩ := kept_saveCounted hc'
    exact ⟨c, hc, hid⟩
  constructor
  · intro hbelongs hsave
    refine (ownerAllows_of_kept hkept).mp (hbelongs.items it ?_)
    intro hsame
    exact not_mem_of_now h (Nat.le_of_eq hnow.symm) (hsame.mp (mem_items_saveCounted hsave))
  · intro hready
    by_cases hsave : (saveItem { w with db := db } it).isSome = true
    · have hallows : OwnerAllows n w (saveCounted { w with db := db } it) actor
          (itemSource n actor a) (Consents w actor a it.accountId) it.collectionId :=
        (ownerAllows_of_kept hkept).mpr (hready hsave)
      have honly := only_saveCounted (w := { w with db := db })
        (Q := fun x => x.collectionId = it.collectionId ∧ x.accountId = it.accountId)
        ⟨rfl, rfl⟩ hold
      refine belongs_of_only it.collectionId ⟨honly.collections, honly.items⟩ ?_ ?_ ?_
      · intro c hc c' hc' hid hid'
        obtain ⟨d, hd, hdid, hdowner⟩ := kept_saveCounted hc'
        rw [← hdowner, eq_of_id hc hd (by rw [hid, hdid, hid'])]
      · rw [hsource]
        refine hallows.mono fun hconsent => ?_
        rcases hthere with hno | ⟨x, hx, hxid⟩
        · exact absurd hconsent (hno _)
        · obtain ⟨hxc, hxa⟩ := hold x hx hxid
          exact ⟨x, hx, hxc, hxa ▸ hconsent⟩
      · rintro x ⟨hxc, hxa⟩
        rw [hxc, hxa]
        exact hallows
    · have hnone : saveItem { w with db := db } it = none := Option.not_isSome_iff_eq_none.mp hsave
      rw [saveCounted, hnone]
      exact belongs_of_same rfl rfl

theorem belongs_mirrorItemInto_iff {a : Inbound} (h : Past w) {collectionId : ℕ}
    {item : FeaturedItem} (hsource : source n actor a = itemSource n actor a)
    (hno : NoConsent w actor a) :
    Belongs n w (mirrorItemInto n w collectionId item) actor a ↔
      (item.featuredObject.uriOrId.getD "" ≠ "" →
        ∀ db accountId,
          resolve n w.db (item.featuredObject.uriOrId.getD "") = some (db, accountId) →
          UriFree w item.id collectionId accountId →
            ∀ c ∈ w.collections.rows, c.id = collectionId →
              MayChange n w actor (itemSource n actor a) False w.db c.accountId) := by
  rw [mirrorItemInto]
  dsimp only
  split
  next hempty => exact ⟨fun _ hne => absurd hempty hne, fun _ => belongs_of_same rfl rfl⟩
  next hne =>
    cases hresolve : resolve n w.db (item.featuredObject.uriOrId.getD "") with
    | none =>
        refine ⟨?_, fun _ => belongs_of_same rfl rfl⟩
        intro _ _ _ _ hsome
        cases hsome
    | some found =>
        obtain ⟨db, accountId⟩ := found
        have hpast : Past { w with db := db } := ⟨h.collections, h.items⟩
        obtain ⟨_, hcollection, haccount⟩ := itemOf_spec { w with db := db } collectionId accountId
        dsimp only
        refine (belongs_saveCounted_iff h db _ rfl ?_ hsource (.inl hno)).trans ?_
        · intro x hx hid
          rw [hcollection, haccount]
          exact hpast.pair_itemOf collectionId accountId x hx hid
        · rw [saveItem_mirrored_iff hpast]
          dsimp only
          rw [hcollection]
          have hconsent : Consents w actor a
              (itemOf { w with db := db } collectionId accountId).accountId ↔ False := iff_false_intro (hno _)
          simp only [hconsent]
          constructor
          · rintro hready _ _ _ ⟨⟩ hfree
            exact hready hfree
          · exact fun hready hfree => hready hne db accountId rfl hfree

theorem belongs_addItem_iff (h : Past w) (item : FeaturedItem) (target : String) :
    Belongs n w (addItem n w actor item target) actor (.addItem item target) ↔
      Ready n w actor (.addItem item target) := by
  rw [addItem, Ready]
  split
  next hempty =>
    refine ⟨fun _ hactor hid => ?_, fun _ => belongs_of_same rfl rfl⟩
    exact absurd (hempty.resolve_left hactor) hid
  next hfull =>
    have hactor : actor ≠ "" := fun he => hfull (.inl he)
    have hid : item.id.getD "" ≠ "" := fun he => hfull (.inr he)
    cases hfind : w.collections.rows.find? fun c => c.uri = some target ∧ c.isLocal = false with
    | none =>
        refine ⟨fun _ _ _ c hc huri hlocal => ?_, fun _ => belongs_of_same rfl rfl⟩
        have hnot := List.find?_eq_none.mp hfind c hc
        simp [huri, hlocal] at hnot
    | some c =>
        have hc := List.mem_of_find?_eq_some hfind
        obtain ⟨huri, hlocal⟩ : c.uri = some target ∧ c.isLocal = false := by
          simpa using List.find?_some hfind
        dsimp only
        rw [belongs_mirrorItemInto_iff (a := .addItem item target) h rfl fun _ hconsent => hconsent]
        constructor
        · intro hready _ _ d hd hdu _ hobject db accountId hresolve hfree
          rw [eq_of_uri hd hc hdu huri] at hfree ⊢
          exact hready hobject db accountId hresolve hfree c hc rfl
        · intro hready hobject db accountId hresolve hfree d hd hdid
          rw [eq_of_id hd hc hdid]
          exact hready hactor hid c hc huri hlocal hobject db accountId hresolve hfree

/-! ### Consent -/

theorem pair_of_mem {it : CollectionItem} (hit : it ∈ w.items.rows) :
    ∀ x ∈ w.items.rows, x.id = it.id →
      x.collectionId = it.collectionId ∧ x.accountId = it.accountId := by
  intro x hx hid
  rw [item_eq_of_id hx hit hid]
  exact ⟨rfl, rfl⟩

theorem belongs_handleDelete_iff (h : Past w) (object : String) :
    Belongs n w (Collections.handleDelete w actor object) actor (.delete object) ↔
      Ready n w actor (.delete object) := by
  rw [Collections.handleDelete, Ready]
  split
  next heq => exact ⟨fun _ hne => absurd heq hne, fun _ => belongs_of_same rfl rfl⟩
  next hne =>
    cases hfind : w.items.rows.find? fun it =>
        it.approvalUri = some object ∧ it.state = .accepted with
    | none =>
        refine ⟨fun _ _ it hit happroval hstate => ?_, fun _ => belongs_of_same rfl rfl⟩
        have hnot := List.find?_eq_none.mp hfind it hit
        simp [happroval, hstate] at hnot
    | some it =>
        have hit := List.mem_of_find?_eq_some hfind
        obtain ⟨happroval, hstate⟩ : it.approvalUri = some object ∧ it.state = .accepted := by
          simpa using List.find?_some hfind
        obtain ⟨w₁, hsave⟩ := saveItem_of_keys
          { it with state := .revoked, updatedAt := w.clock } (clear_of_mem hit) rfl rfl
        have hold := pair_of_mem hit
        refine (belongs_saveCounted_iff (a := .delete object) h w.db
          { it with state := .revoked, updatedAt := w.clock } rfl hold rfl
          (.inr ⟨it, hit, rfl⟩)).trans ?_
        constructor
        · intro hready _ x hx hxa _
          have hxit : x = it := w.items.eq_of_key (k := .approvalUri object) hx hit
            (by simp [CollectionItem.keys, hxa]) (by simp [CollectionItem.keys, happroval])
          rw [hxit]
          exact hready (by rw [hsave]; rfl)
        · exact fun hready _ => hready hne it hit happroval hstate

theorem featuredAccount_mem {it : CollectionItem} {f : Account}
    (h : featuredAccount w it = some f) : f ∈ w.db.accounts.rows ∧ it.accountId = some f.id := by
  obtain ⟨id, hid, hf⟩ := Option.bind_eq_some_iff.mp h
  obtain ⟨hm, rfl⟩ := Db.account_mem hf
  exact ⟨hm, hid⟩

theorem answered_eq (it : CollectionItem) (accepted : Bool) (result : Option String) (now : ℕ) :
    (answered it accepted result now).id = it.id ∧
      (answered it accepted result now).collectionId = it.collectionId ∧
      (answered it accepted result now).accountId = it.accountId ∧
      (answered it accepted result now).updatedAt = now := by
  rw [answered]
  split <;> exact ⟨rfl, rfl, rfl, rfl⟩

theorem saveItem_answered_iff {it : CollectionItem} (hit : it ∈ w.items.rows) (accepted : Bool)
    (result : Option String) (now : ℕ) :
    (saveItem w (answered it accepted result now)).isSome = true ↔
      (accepted = true → ApprovalFree w (result.filter (· ≠ "")) it.id) := by
  have hclear := clear_of_mem hit
  cases accepted with
  | false =>
      obtain ⟨w₁, hsave⟩ := saveItem_of_keys (answered it false result now) hclear rfl rfl
      simp [hsave]
  | true =>
      rw [saveItem_isSome_iff]
      constructor
      · intro hfree _ x hx hsome happroval
        obtain ⟨u, hu⟩ := Option.isSome_iff_exists.mp hsome
        have hu' : (answered it true result now).approvalUri = some u := happroval.symm.trans hu
        by_contra hne
        exact hfree x hx hne (clash_items_iff.mpr (.inr (.inr (.inr ⟨u, hu, hu'⟩))))
      · intro hfree x hx hne hclash
        have hnot := hclear x hx hne
        rw [clash_items_iff] at hnot hclash
        rcases hclash with hid | hpair | huri | ⟨u, hxu, hu⟩
        · exact hne hid
        · exact hnot (.inr (.inl hpair))
        · exact hnot (.inr (.inr (.inl huri)))
        · exact hne (hfree rfl x hx (by rw [hxu]; rfl) (hxu.trans hu.symm))

theorem belongs_handleConsent_iff (h : Past w) (accepted : Bool) (object : String)
    (result : Option String) :
    Belongs n w (handleConsent w actor accepted object result) actor
        (.consent accepted object result) ↔
      Ready n w actor (.consent accepted object result) := by
  rw [handleConsent, Ready]
  split
  next hrelay =>
    refine ⟨fun _ hnot => ?_, fun _ => belongs_of_same rfl rfl⟩
    rw [hrelay] at hnot
    cases hnot
  next hrelay =>
    cases hfind : requestedItem w object with
    | none =>
        refine ⟨?_, fun _ => belongs_of_same rfl rfl⟩
        intro _ _ _ hsome
        cases hsome
    | some it =>
        dsimp only
        split
        next hother =>
          refine ⟨?_, fun _ => belongs_of_same rfl rfl⟩
          rintro _ _ _ ⟨⟩ hown
          exact absurd hown hother
        next hown =>
          have hit := List.mem_of_find?_eq_some hfind
          have howner : (featuredAccount w it).bind (·.uri) = some actor := by
            by_contra hother
            exact hown hother
          obtain ⟨f, hf, hfuri⟩ := Option.bind_eq_some_iff.mp howner
          obtain ⟨hfm, hfid⟩ := featuredAccount_mem hf
          have hconsent : Consents w actor (.consent accepted object result) it.accountId ↔ True :=
            iff_true_intro ⟨f, hfm, hfid, hfuri⟩
          obtain ⟨hid, hcollection, haccount, hnow⟩ := answered_eq it accepted result w.clock
          refine (belongs_saveCounted_iff (a := .consent accepted object result) h w.db
            (answered it accepted result w.clock) hnow ?_ rfl (.inr ⟨it, hit, hid.symm⟩)).trans ?_
          · rw [hid, hcollection, haccount]
            exact pair_of_mem hit
          · rw [saveItem_answered_iff hit, hcollection, haccount]
            simp only [hconsent]
            constructor
            · rintro hready _ _ ⟨⟩ _ hfree
              exact hready hfree
            · exact fun hready hfree => hready (Bool.eq_false_iff.mpr hrelay) it rfl howner hfree

/-! ### What its owner removes -/

theorem ownedBy_iff {c : Collection} :
    ownedBy w actor c = true ↔ ∃ o, w.db.accountByUri actor = some o ∧ o.id = c.accountId := by
  rw [ownedBy]
  cases w.db.accountByUri actor <;> simp

theorem mayChange_owner_iff {p : Prop} {o : Account} {ownerId : ℕ}
    (ho : w.db.accountByUri actor = some o) (hid : o.id = ownerId) :
    MayChange n w actor source' p w.db ownerId ↔ (o.domain = none → p) := by
  obtain ⟨hm, huri⟩ := Db.accountByUri_mem ho
  constructor
  · intro h hlocal
    rcases h o hm hid with ⟨_, hp⟩ | ⟨hremote, _⟩
    · exact hp
    · exact absurd hlocal hremote
  · intro h o' ho' hid'
    rw [account_eq_of_id ho' hm (hid'.trans hid.symm)]
    by_cases hlocal : o.domain = none
    · exact .inl ⟨hlocal, h hlocal⟩
    · exact .inr ⟨hlocal, .inl (.inl ⟨o, hm, hid, huri⟩)⟩

theorem belongs_removeCollection_iff {object : String} {c : Collection} {o : Account}
    (hc : c ∈ w.collections.rows) (ho : w.db.accountByUri actor = some o)
    (hid : o.id = c.accountId) :
    Belongs n w
        { w with
          collections := w.collections.deleteWhere (·.id = c.id)
          items := w.items.deleteWhere (·.collectionId = c.id)
          clock := w.clock + 1 } actor (.remove object) ↔ o.domain ≠ none := by
  have hkept : ∀ c' ∈ (w.collections.deleteWhere (·.id = c.id)).rows,
      ∃ d ∈ w.collections.rows, d.id = c'.id := fun c' hc' =>
    ⟨c', (Table.mem_deleteWhere.mp hc').1, rfl⟩
  constructor
  · intro hbelongs
    have hallows := hbelongs.collections c (by simp [hc])
    have hmay := (ownerAllows_of_kept hkept).mp hallows c hc rfl
    rw [mayChange_owner_iff ho hid] at hmay
    intro hlocal
    obtain ⟨_, _, _, hconsent⟩ := hmay hlocal
    exact hconsent
  · intro hremote
    have hallows (p : Prop) : OwnerAllows n w
        { w with
          collections := w.collections.deleteWhere (·.id = c.id)
          items := w.items.deleteWhere (·.collectionId = c.id)
          clock := w.clock + 1 } actor actor p c.id := by
      rw [ownerAllows_of_kept hkept]
      intro d hd hdid
      rw [eq_of_id hd hc hdid, mayChange_owner_iff ho hid]
      exact fun hlocal => absurd hlocal hremote
    refine belongs_of_only (Q := fun it => it.collectionId = c.id) c.id ⟨?_, ?_⟩ ?_
      (hallows _) ?_
    · intro d hd
      simp [hd]
    · intro it hit
      simp [hit]
    · intro d _ d' hd' _ hdid
      simp [hdid] at hd'
    · intro it hit
      rw [hit]
      exact hallows _

theorem belongs_removeItem_iff {object : String} {it : CollectionItem} {c : Collection}
    {o : Account} (hit : it ∈ w.items.rows) (hc : c ∈ w.collections.rows) (hcit : c.id = it.collectionId)
    (ho : w.db.accountByUri actor = some o) (hid : o.id = c.accountId) :
    Belongs n w
        (refreshItemCount
          { w with items := w.items.deleteWhere (·.id = it.id), clock := w.clock + 1 }
          it.collectionId) actor (.remove object) ↔ o.domain ≠ none := by
  have hkept : ∀ c' ∈ (refreshItemCount
        { w with items := w.items.deleteWhere (·.id = it.id), clock := w.clock + 1 }
        it.collectionId).collections.rows, ∃ d ∈ w.collections.rows, d.id = c'.id := by
    intro c' hc'
    obtain ⟨d, hd, hdid, _⟩ := kept_refresh _ hc'
    exact ⟨d, hd, hdid⟩
  constructor
  · intro hbelongs
    have hallows := hbelongs.items it (by simp [refreshItemCount, hit])
    have hmay := (ownerAllows_of_kept hkept).mp hallows c hc hcit
    rw [mayChange_owner_iff ho hid] at hmay
    exact hmay
  · intro hremote
    have hallows (p : Prop) : OwnerAllows n w (refreshItemCount
        { w with items := w.items.deleteWhere (·.id = it.id), clock := w.clock + 1 }
        it.collectionId) actor actor p it.collectionId := by
      rw [ownerAllows_of_kept hkept]
      intro d hd hdid
      rw [eq_of_id hd hc (hdid.trans hcit.symm), mayChange_owner_iff ho hid]
      exact fun hlocal => absurd hlocal hremote
    have honly := only_refresh (Q := fun x => x.collectionId = it.collectionId)
      { w with items := w.items.deleteWhere (·.id = it.id), clock := w.clock + 1 } it.collectionId
    refine belongs_of_only (Q := fun x => x.collectionId = it.collectionId) it.collectionId
      ⟨honly.collections, ?_⟩ ?_ (hallows _) ?_
    · intro x hx
      have hne (hxm : x ∈ w.items.rows) : x.id ≠ it.id := fun hxid =>
        hx (congrArg CollectionItem.collectionId (item_eq_of_id hxm hit hxid))
      simpa [refreshItemCount] using hne
    · intro d hd d' hd' hdid hdid'
      obtain ⟨e, he, heid, heowner⟩ := kept_refresh _ hd'
      rw [← heowner, eq_of_id hd he (by rw [hdid, heid, hdid'])]
    · intro x hx
      rw [hx]
      exact hallows _

theorem belongs_handleRemove_iff (n : Network) (w : World) (actor object : String) :
    Belongs n w (handleRemove w actor object) actor (.remove object) ↔
      Ready n w actor (.remove object) := by
  rw [handleRemove, Ready]
  cases hfind : w.collections.rows.find? fun c =>
      c.uri = some object ∧ c.isLocal = false ∧ ownedBy w actor c with
  | some c =>
      have hc := List.mem_of_find?_eq_some hfind
      obtain ⟨huri, hlocal, howned⟩ : c.uri = some object ∧ c.isLocal = false ∧
          ownedBy w actor c = true := by simpa using List.find?_some hfind
      obtain ⟨o, ho, hid⟩ := ownedBy_iff.mp howned
      dsimp only
      rw [belongs_removeCollection_iff hc ho hid]
      constructor
      · intro hremote o' ho' hlocal'
        obtain rfl := Option.some.inj (ho.symm.trans ho')
        exact absurd hlocal' hremote
      · intro hready hdomain
        exact (hready o ho hdomain c hc hid.symm).1 ⟨huri, hlocal⟩
  | none =>
      have hnone : ∀ c ∈ w.collections.rows, ownedBy w actor c = true →
          ¬ (c.uri = some object ∧ c.isLocal = false) := by
        rintro c hc howned ⟨huri, hlocal⟩
        have hnot := List.find?_eq_none.mp hfind c hc
        simp [huri, hlocal, howned] at hnot
      dsimp only
      cases hfindItem : w.items.rows.find? fun it =>
          it.uri = some object ∧
            w.collections.rows.any fun c => c.id = it.collectionId ∧ ownedBy w actor c with
      | some it =>
          have hit := List.mem_of_find?_eq_some hfindItem
          obtain ⟨huri, c, hc, hcit, howned⟩ : it.uri = some object ∧ ∃ c ∈ w.collections.rows,
              c.id = it.collectionId ∧ ownedBy w actor c = true := by
            simpa using List.find?_some hfindItem
          obtain ⟨o, ho, hid⟩ := ownedBy_iff.mp howned
          dsimp only
          rw [belongs_removeItem_iff hit hc hcit ho hid]
          constructor
          · intro hremote o' ho' hlocal
            obtain rfl := Option.some.inj (ho.symm.trans ho')
            exact absurd hlocal hremote
          · intro hready hdomain
            exact (hready o ho hdomain c hc hid.symm).2 it hit hcit.symm huri
      | none =>
          refine ⟨fun _ o ho _ c hc hid => ⟨hnone c hc ?_, fun it hit hcit huri => ?_⟩,
            fun _ => belongs_of_same rfl rfl⟩
          · exact ownedBy_iff.mpr ⟨o, ho, hid.symm⟩
          · have hnot := List.find?_eq_none.mp hfindItem it hit
            have howned := ownedBy_iff.mpr ⟨o, ho, hid.symm⟩
            simp only [huri, decide_eq_true_eq, true_and, List.any_eq_true] at hnot
            exact hnot ⟨c, hc, by simp [hcit, howned]⟩

/-! ### Requests to feature an account -/

theorem wrote_recordFeatured {id owner : ℕ} (h : Wrote w w' id owner) (n : Network)
    (account : Account) (reqId : String) :
    Wrote w (recordFeatured n w' id account reqId) id owner ∧
      (recordFeatured n w' id account reqId).db = w'.db ∧
      ∃ x ∈ (recordFeatured n w' id account reqId).items.rows,
        x.collectionId = id ∧ w'.clock ≤ x.updatedAt := by
  have hcollection : (requestItem w' id account.id reqId).collectionId = id :=
    (itemOf_spec w' id account.id).2.1
  have hid : (requestItem w' id account.id reqId).id ≤ w'.clock :=
    h.past.itemOf_id_le id account.id
  obtain ⟨w₁, hsave⟩ := saveItem_of_keys (requestItem w' id account.id reqId)
    (clear_itemOf w' id account.id) rfl rfl
  have hwrote : Wrote w w₁ id owner := wrote_saveItem h hsave hcollection
    (fun x hx hxid => (h.past.pair_itemOf id account.id x hx hxid).1) hid (Nat.le_refl _)
  have hdb : w₁.db = w'.db := by rw [(saveItem_eq_some hsave).2]
  have hclock : w₁.clock = w'.clock + 1 := by rw [(saveItem_eq_some hsave).2]
  have hthere : requestItem w' id account.id reqId ∈ w₁.items.rows :=
    (mem_saveItem hsave).mpr (.inr rfl)
  simp only [recordFeatured, hsave]
  cases happroved : saveItem w₁ { requestItem w' id account.id reqId with
      approvalUri := some (authorizationUri n account (requestItem w' id account.id reqId)) } with
  | none => exact ⟨hwrote, hdb, _, hthere, hcollection, Nat.le_refl _⟩
  | some w₂ =>
      refine ⟨wrote_saveItem hwrote happroved hcollection ?_ ?_ ?_, ?_, _,
        (mem_saveItem happroved).mpr (.inr rfl), hcollection, Nat.le_refl _⟩
      · intro x hx hxid
        rw [item_eq_of_id hx hthere hxid, hcollection]
      · rw [hclock]
        exact Nat.le_succ_of_le hid
      · rw [hclock]
        exact Nat.le_succ _
      · change w₂.db = w'.db
        rw [(saveItem_eq_some happroved).2, hdb]

theorem db_upsert (w : World) (uri : String) (ownerId : ℕ) (doc : FeaturedCollection)
    (settings : Bool) : (upsertCollection w uri ownerId doc settings).1.db = w.db := by
  rw [upsertCollection]
  split <;> rfl

theorem clock_upsert (w : World) (uri : String) (ownerId : ℕ) (doc : FeaturedCollection)
    (settings : Bool) :
    (upsertCollection w uri ownerId doc settings).1.clock = w.clock + 1 := by
  rw [upsertCollection]
  split <;> rfl

theorem belongs_requested_iff (h : Past w) {db : Db} {ownerId : ℕ} {featured : Account}
    {reqId account collection : String} {doc : FeaturedCollection}
    (hdoc : n.document collection = some doc) (hstored : Stored w.db db) :
    Belongs n w
        (recordFeatured n (upsertCollection { w with db := db } collection ownerId doc false).1
          (upsertCollection { w with db := db } collection ownerId doc false).2 featured reqId)
        actor (.featureRequest reqId account collection) ↔
      Lands n w actor (doc.id.getD "") collection db ownerId ∧
        Lands n w actor actor collection db ownerId := by
  have hpast : Past { w with db := db } := ⟨h.collections, h.items⟩
  obtain ⟨owner, htarget, hupsert⟩ := wrote_upsert hpast collection ownerId doc false
  have hdb := db_upsert { w with db := db } collection ownerId doc false
  have hclock := clock_upsert { w with db := db } collection ownerId doc false
  revert htarget hupsert hdb hclock
  generalize upsertCollection { w with db := db } collection ownerId doc false = upserted
  obtain ⟨w₁, id⟩ := upserted
  intro htarget hupsert hdb hclock
  obtain ⟨hwrote, hdb', it, hit, hitid, hlate⟩ :=
    wrote_recordFeatured (hupsert.of_db hstored) n featured reqId
  have htarget' : Target w collection ownerId id owner := htarget
  have hiff (s : String) := ownerAllows_iff n actor s db htarget' hwrote (by rw [hdb', hdb])
  have hsource : source n actor (.featureRequest reqId account collection) = doc.id.getD "" := by
    simp [source, hdoc]
  constructor
  · intro hbelongs
    have hallows := hbelongs.owner_allows h hwrote fun _ hconsent => hconsent
    rw [hsource] at hallows
    have hchanged : ¬ (it ∈ (recordFeatured n w₁ id featured reqId).items.rows ↔
        it ∈ w.items.rows) := by
      intro hsame
      refine not_mem_of_now h ?_ (hsame.mp hit)
      rw [hclock] at hlate
      exact Nat.le_of_succ_le hlate
    have hallowsItem := hbelongs.items it hchanged
    rw [hitid] at hallowsItem
    exact ⟨(hiff _).mp hallows, (hiff _).mp (hallowsItem.mono fun hconsent => hconsent)⟩
  · rintro ⟨hdocument, hrequest⟩
    refine belongs_of_wrote hwrote htarget'.owner_eq ?_ ((hiff _).mpr hrequest)
    rw [hsource]
    exact (hiff _).mpr hdocument

theorem belongs_handleFeatureRequest_iff (h : Past w) (reqId account collection : String) :
    Belongs n w (handleFeatureRequest n w reqId account collection) actor
        (.featureRequest reqId account collection) ↔
      Ready n w actor (.featureRequest reqId account collection) := by
  rw [handleFeatureRequest, Ready]
  split
  next hempty =>
    refine ⟨fun _ hreq haccount hcollection => ?_, fun _ => belongs_of_same rfl rfl⟩
    simp [hreq, haccount, hcollection] at hempty
  next hfull =>
    simp only [not_or] at hfull
    obtain ⟨hreq, haccount, hcollection⟩ := hfull
    cases hfeatured :
      (InboxRelationships.localByUri w.db account).filter fun a => !a.unavailable with
    | none =>
        refine ⟨fun _ _ _ _ featured hfound havailable => ?_, fun _ => belongs_of_same rfl rfl⟩
        rw [Option.filter_eq_none_iff] at hfeatured
        have hnot := hfeatured featured hfound
        simp [havailable] at hnot
    | some featured =>
        obtain ⟨hfound, havailable⟩ := Option.filter_eq_some_iff.mp hfeatured
        rw [Bool.not_eq_true'] at havailable
        cases hdoc : n.document collection with
        | none =>
            refine ⟨?_, fun _ => belongs_of_same rfl rfl⟩
            intro _ _ _ _ _ _ _ doc hsome
            cases hsome
        | some doc =>
            dsimp only
            split
            next hempty =>
              refine ⟨?_, fun _ => belongs_of_same rfl rfl⟩
              rintro _ _ _ _ _ _ _ _ ⟨⟩ hne
              exact absurd hempty hne
            next hne =>
              cases hresolve : resolve n w.db (doc.attributedTo.uriOrId.getD "") with
              | none =>
                  refine ⟨?_, fun _ => belongs_of_same rfl rfl⟩
                  rintro _ _ _ _ _ _ _ _ ⟨⟩ _ db ownerId hresolve'
                  rw [hresolve] at hresolve'
                  cases hresolve'
              | some found =>
                  obtain ⟨db, ownerId⟩ := found
                  dsimp only
                  rw [belongs_requested_iff h hdoc (stored_resolve hresolve)]
                  constructor
                  · rintro hlands _ _ _ featured' hfound' havailable' _ ⟨⟩ _ db' ownerId' hresolve'
                    obtain ⟨rfl, rfl⟩ :=
                      Prod.mk.inj (Option.some.inj (hresolve.symm.trans hresolve'))
                    exact hlands
                  · intro hready
                    exact hready hreq haccount hcollection featured hfound havailable doc rfl hne db
                      ownerId hresolve

/-! ### Every activity -/

/-- Collections belong to their owners through an activity exactly when what it finds is
its actor's, or is vouched for by the owner's host, or waits for its actor's consent. -/
theorem collections_belong_iff (n : Network) (w : World) (h : Past w) (actor : String)
    (a : Inbound) : Belongs n w (step n w actor a) actor a ↔ Ready n w actor a := by
  cases a with
  | addCollection doc => exact belongs_addCollection_iff h doc
  | addItem item target => exact belongs_addItem_iff h item target
  | updateEmbedded doc =>
      exact belongs_updateCollection_iff (a := .updateEmbedded doc) h doc rfl fun _ hc => hc
  | updateLink uri => exact belongs_updateLink_iff h uri
  | featureRequest id account collection =>
      exact belongs_handleFeatureRequest_iff h id account collection
  | remove object => exact belongs_handleRemove_iff n w actor object
  | delete object => exact belongs_handleDelete_iff h object
  | consent accepted object result => exact belongs_handleConsent_iff h accepted object result
  | refresh entry => exact belongs_fetchFeatured_iff h entry

/-! ### A collection of another server -/

def hostOf (uri : String) : Option (List Char) := (uri.toList.splitOn '/')[2]?

/-- Ours, with no other server answering. -/
def offline : Network where
  actorUrl := "https://eunha.example/actor"
  path uri := if hostOf uri = some "eunha.example".toList then some ["users"] else none
  lower := id
  isIri _ := true
  fetchAccount _ _ := none
  fetchAccount_uri _ _ _ := nofun
  domain := "eunha.example"
  sameHost a b := hostOf a = hostOf b
  document _ := none
  fetchAccount_keeps _ _ _ := nofun

def remoteAccount (id : ℕ) (username domain uri : String) : Account where
  id := id
  username := username
  domain := some domain
  uri := some uri
  locked := false
  silenced := false
  unavailable := false
  movedToAccountId := none

def bobsCollection : Collection where
  id := 10
  accountId := 2
  name := "Friends"
  discoverable := true
  isLocal := false
  sensitive := false
  itemCount := 0
  uri := some "https://b.example/collections/1"
  updatedAt := 10

/-- Mallory and Bob are on two other servers, and Bob's collection is mirrored. -/
def mirrored : World where
  db :=
    { Db.empty with
      accounts :=
        { rows :=
            [remoteAccount 1 "mallory" "m.example" "https://m.example/mallory",
              remoteAccount 2 "bob" "b.example" "https://b.example/bob"]
          distinct := by decide } }
  collections := { rows := [bobsCollection], distinct := by decide }
  items := .empty
  clock := 20

theorem past_mirrored : Past mirrored := by
  constructor <;> decide

def malloryItem : FeaturedItem where
  id := some "https://m.example/items/1"
  featuredObject := .uri "https://m.example/mallory"

theorem bob_features_mallory :
    Belongs offline mirrored
      (step offline mirrored "https://b.example/bob"
        (.addItem malloryItem "https://b.example/collections/1"))
      "https://b.example/bob" (.addItem malloryItem "https://b.example/collections/1") := by
  refine (collections_belong_iff offline mirrored past_mirrored "https://b.example/bob"
    (.addItem malloryItem "https://b.example/collections/1")).mpr ?_
  intro _ _ c hc _ _ _ db accountId _ _ o ho hid
  obtain rfl : c = bobsCollection := by simpa [mirrored] using hc
  have hbob : o = remoteAccount 2 "bob" "b.example" "https://b.example/bob" :=
    account_eq_of_id ho (by decide) hid
  subst hbob
  exact .inr ⟨by rintro ⟨⟩, .inl (.inl ⟨_, ho, rfl, rfl⟩)⟩

example : (resolve offline mirrored.db "https://m.example/mallory").map (·.2) = some 1 := by
  decide +kernel

/-- Mallory adds herself, in an `Add` of her own with Bob's collection as its target. -/
theorem mallory_joins_bobs_collection :
    ¬ Belongs offline mirrored
      (step offline mirrored "https://m.example/mallory"
        (.addItem malloryItem "https://b.example/collections/1"))
      "https://m.example/mallory" (.addItem malloryItem "https://b.example/collections/1") := by
  intro h
  let item : CollectionItem :=
    { id := 20
      collectionId := 10
      accountId := some 1
      position := 1
      state := .accepted
      uri := some "https://m.example/items/1"
      approvalUri := none
      activityUri := none
      updatedAt := 20 }
  have hadded : item ∈ (step offline mirrored "https://m.example/mallory"
      (.addItem malloryItem "https://b.example/collections/1")).items.rows := by decide +kernel
  have hallows := h.items item fun hsame => absurd (hsame.mp hadded) (by decide)
  rcases hallows.1 bobsCollection (by decide) rfl
    (remoteAccount 2 "bob" "b.example" "https://b.example/bob") (by decide) rfl with
    ⟨hlocal, _⟩ | ⟨_, (⟨o, ho, hid, huri⟩ | ⟨db, hresolve⟩) | ⟨uri, huri, hhost⟩⟩
  · cases hlocal
  · revert o
    decide
  · have hfound : (resolve offline mirrored.db "https://m.example/mallory").map (·.2) = some 1 := by
      decide +kernel
    rw [hresolve] at hfound
    cases hfound
  · obtain rfl := Option.some.inj huri
    revert hhost
    decide +kernel

end Eunha.CollectionOwnership
