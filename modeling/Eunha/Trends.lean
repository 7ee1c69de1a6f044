import Mathlib

/-!
# Refreshing what trends

A refresh looks at what trended before and what was used today, batch by batch: what scores
enough gets a row or has it updated, and what does not loses it. Then the rows are ranked by
their scores in each language. The statuses, tags and links go through the same steps.

The scores are given, and so are which languages are known and whether a link may trend. A
refresh that ends well is one of which no statement fails, so failures are left out, and so are
the peaks that are written back to tags and links. What was used today is a list of ids.
-/
namespace Eunha.Trends

/-! ### The tables -/

/-- A row of `status_trends`, `tag_trends` or `preview_card_trends`. -/
structure Row where
  id : ℕ
  subject : ℤ
  accountId : Option ℤ := none
  score : ℚ
  language : Option String
  allowed : Bool
  rank : ℕ := 0
  deriving DecidableEq

/-- What a refresh makes of a subject it reads. -/
structure Item where
  subject : ℤ
  accountId : Option ℤ := none
  score : ℚ
  language : Option String
  allowed : Bool
  deriving DecidableEq

structure TrendTable where
  rows : List Row
  nextId : ℕ
  ids_nodup : (rows.map Row.id).Nodup
  ids_lt : ∀ r ∈ rows, r.id < nextId

def Row.set (r : Row) (item : Item) : Row :=
  { r with
    accountId := item.accountId, score := item.score, language := item.language
    allowed := item.allowed }

/-- Rows that are changed but for their ids and subjects. -/
def TrendTable.map (t : TrendTable) (f : Row → Row) (hid : ∀ r, (f r).id = r.id) : TrendTable where
  rows := t.rows.map f
  nextId := t.nextId
  ids_nodup := by
    rw [List.map_map, show Row.id ∘ f = Row.id from funext hid]
    exact t.ids_nodup
  ids_lt := by
    intro r hr
    obtain ⟨r', hr', rfl⟩ := List.mem_map.mp hr
    rw [hid]
    exact t.ids_lt r' hr'

def TrendTable.append (t : TrendTable) (item : Item) : TrendTable where
  rows := t.rows ++
    [⟨t.nextId, item.subject, item.accountId, item.score, item.language, item.allowed, 0⟩]
  nextId := t.nextId + 1
  ids_nodup := by
    rw [List.map_append, List.map_singleton, List.nodup_append]
    refine ⟨t.ids_nodup, List.nodup_singleton _, ?_⟩
    intro a ha b hb hab
    obtain ⟨r, hr, rfl⟩ := List.mem_map.mp ha
    rw [List.mem_singleton] at hb
    have hlt : r.id < t.nextId := t.ids_lt r hr
    have heq : r.id = t.nextId := hab.trans hb
    omega
  ids_lt := by
    intro r hr
    rcases List.mem_append.mp hr with h | h
    · exact Nat.lt_succ_of_lt (t.ids_lt r h)
    · rw [List.mem_singleton.mp h]
      exact Nat.lt_succ_self _

/-- `INSERT … ON CONFLICT (key) DO UPDATE` -/
def TrendTable.upsert (sameKey : Row → Item → Bool) (t : TrendTable) (item : Item) : TrendTable :=
  if t.rows.any fun r => sameKey r item then
    t.map (fun r => if sameKey r item then r.set item else r) fun r => by
      by_cases h : sameKey r item = true
      · rw [if_pos h]
        rfl
      · rw [if_neg h]
  else t.append item

/-- `DELETE … WHERE subject = ANY(ids)` -/
def TrendTable.delete (t : TrendTable) (ids : List ℤ) : TrendTable where
  rows := t.rows.filter fun r => r.subject ∉ ids
  nextId := t.nextId
  ids_nodup := t.ids_nodup.sublist (List.filter_sublist.map _)
  ids_lt := fun r hr => t.ids_lt r (List.mem_of_mem_filter hr)

/-! ### Ranks -/

def window (rows : List Row) (language : Option String) : List Row :=
  (rows.filter fun r => r.language = language).insertionSort fun a b => b.score ≤ a.score

/-- `row_number() OVER (PARTITION BY language ORDER BY score DESC)` -/
def rowNumber (rows : List Row) (r : Row) : ℕ := (window rows r.language).idxOf r + 1

def TrendTable.recalculateOrderedRank (t : TrendTable) : TrendTable :=
  t.map (fun r => { r with rank := rowNumber t.rows r }) fun _ => rfl

/-! ### A refresh of one table -/

/-- Batches of `n`, with as many rounds as there can be. -/
def chunksFuel (n : ℕ) : ℕ → List ℤ → List (List ℤ)
  | 0, _ => []
  | _ + 1, [] => []
  | rounds + 1, id :: ids => (id :: ids).take n :: chunksFuel n rounds ((id :: ids).drop n)

def chunks (n : ℕ) (ids : List ℤ) : List (List ℤ) := chunksFuel n ids.length ids

def candidates (trending recentlyUsed : List ℤ) : List ℤ :=
  (trending ++ recentlyUsed).dedup.insertionSort (· ≤ ·)

/-- What the three refreshes differ in: what is read of an id, the threshold and the key. -/
structure Kind where
  find : ℤ → Option Item
  threshold : ℚ
  sameKey : Row → Item → Bool

def refreshBatch (k : Kind) (t : TrendTable) (batch : List ℤ) : TrendTable :=
  let items := batch.filterMap k.find
  let insert := items.filter fun item => k.threshold ≤ item.score
  let delete := (items.filter fun item => ¬ k.threshold ≤ item.score).map Item.subject
  (insert.foldl (TrendTable.upsert k.sameKey) t).delete delete

def refreshTable (k : Kind) (t : TrendTable) (recentlyUsed : List ℤ) : TrendTable :=
  ((chunks 100 (candidates (t.rows.map Row.subject) recentlyUsed)).foldl
    (refreshBatch k) t).recalculateOrderedRank

/-! ### Statuses, tags and links -/

structure Account where
  discoverable : Option Bool := some true
  silenced : Bool := false
  sensitized : Bool := false
  trendable : Option Bool := none

structure Status where
  accountId : ℤ
  createdAt : ℤ
  language : Option String
  deleted : Bool := false
  visibility : ℤ := 0
  spoilerText : String := ""
  sensitive : Bool := false
  inReplyToId : Option ℤ := none
  reply : Option Bool := some false
  trendable : Option Bool := none

structure Quote where
  statusId : ℤ
  quotedStatusId : Option ℤ
  state : ℤ
  legacy : Bool

structure Tag where
  trendable : Option Bool

structure Card where
  language : Option String
  trendable : Bool

/-- Rows of trends go with their subjects, and statuses with their authors. -/
structure Db where
  statuses : ℤ → Option Status
  accounts : ℤ → Option Account
  quotes : List Quote
  tags : ℤ → Option Tag
  cards : ℤ → Option Card
  trendableByDefault : Bool
  statusTrends : TrendTable
  tagTrends : TrendTable
  previewCardTrends : TrendTable
  status_fk : ∀ r ∈ statusTrends.rows, (statuses r.subject).isSome = true
  account_fk : ∀ id s, statuses id = some s → (accounts s.accountId).isSome = true
  tag_fk : ∀ r ∈ tagTrends.rows, (tags r.subject).isSome = true
  card_fk : ∀ r ∈ previewCardTrends.rows, (cards r.subject).isSome = true

structure RecentlyUsed where
  statuses : List ℤ
  tags : List ℤ
  links : List ℤ

/-- What is not read here: the scores at this time, and the known languages. -/
structure World where
  now : ℤ
  statusScore : ℤ → Status → ℚ
  tagScore : ℤ → Tag → ℚ
  linkScore : ℤ → Card → ℚ
  validLocale : Option String → Bool

def statusesDecayThreshold : ℚ := 3 / 10
def tagsDecayThreshold : ℚ := 1
def linksDecayThreshold : ℚ := 1

/-- A post and its author, as both a trend and what it quotes have to be. -/
def acceptable (s : Status) (a : Account) : Bool :=
  s.visibility = 0 && a.discoverable = some true && !a.silenced && !a.sensitized &&
    s.spoilerText = "" && !s.sensitive

def acceptableQuote (db : Db) (q : Quote) : Bool :=
  (q.state = 1 || !q.legacy) &&
    match (q.quotedStatusId.bind db.statuses).filter fun qs => !qs.deleted with
    | none => false
    | some qs =>
        match db.accounts qs.accountId with
        | none => false
        | some qa => acceptable qs qa

/-- `eligible_statuses`, of one status that is kept. -/
def eligible (w : World) (db : Db) (id : ℤ) (s : Status) (a : Account) : Bool :=
  s.createdAt ≤ w.now && acceptable s a && s.inReplyToId = none && !s.reply.getD false &&
    (match db.quotes.filter fun q => q.statusId = id with
      | [] => true
      | quotes => quotes.any (acceptableQuote db)) &&
    w.validLocale s.language

/-- What `refresh_statuses` makes of an id. -/
def statusItem (w : World) (db : Db) (id : ℤ) : Option Item :=
  match (db.statuses id).filter fun s => !s.deleted with
  | none => none
  | some s =>
      match db.accounts s.accountId with
      | none => none
      | some a =>
          some
            { subject := id
              accountId := some s.accountId
              score := if eligible w db id s a then w.statusScore id s else 0
              language := s.language
              allowed := ((s.trendable.or a.trendable).getD db.trendableByDefault) }

def statusKind (w : World) (db : Db) : Kind where
  find := statusItem w db
  threshold := statusesDecayThreshold
  sameKey := fun r item => r.subject = item.subject

/-- `refresh_tags`: every row it writes is of no language. -/
def tagKind (w : World) (db : Db) : Kind where
  find := fun id => (db.tags id).map fun tag =>
    { subject := id
      score := w.tagScore id tag
      language := some ""
      allowed := tag.trendable.getD db.trendableByDefault }
  threshold := tagsDecayThreshold
  sameKey := fun r item => r.subject = item.subject && r.language = item.language

/-- `refresh_links`: a link in no known language never trends. -/
def linkKind (w : World) (db : Db) : Kind where
  find := fun id => (db.cards id).map fun card =>
    { subject := id
      score := if w.validLocale card.language then w.linkScore id card else 0
      language := card.language
      allowed := card.trendable }
  threshold := linksDecayThreshold
  sameKey := fun r item => r.subject = item.subject

/-- The three tables after a refresh. -/
structure Refreshed where
  statusTrends : TrendTable
  tagTrends : TrendTable
  previewCardTrends : TrendTable

def refresh (w : World) (db : Db) (used : RecentlyUsed) : Refreshed where
  previewCardTrends := refreshTable (linkKind w db) db.previewCardTrends used.links
  tagTrends := refreshTable (tagKind w db) db.tagTrends used.tags
  statusTrends := refreshTable (statusKind w db) db.statusTrends used.statuses

/-! ### Which subjects have rows -/

/-- The subject has a row. -/
def TrendTable.Holds (t : TrendTable) (id : ℤ) : Prop := ∃ r ∈ t.rows, r.subject = id

theorem holds_map {t : TrendTable} {f : Row → Row} {hid : ∀ r, (f r).id = r.id}
    (hsubject : ∀ r, (f r).subject = r.subject) (id : ℤ) : (t.map f hid).Holds id ↔ t.Holds id := by
  constructor
  · rintro ⟨r, hr, hsub⟩
    obtain ⟨r', hr', rfl⟩ := List.mem_map.mp hr
    exact ⟨r', hr', (hsubject r').symm.trans hsub⟩
  · rintro ⟨r, hr, hsub⟩
    exact ⟨f r, List.mem_map_of_mem hr, (hsubject r).trans hsub⟩

theorem holds_append (t : TrendTable) (item : Item) (id : ℤ) :
    (t.append item).Holds id ↔ t.Holds id ∨ item.subject = id := by
  constructor
  · rintro ⟨r, hr, hsub⟩
    rcases List.mem_append.mp hr with h | h
    · exact .inl ⟨r, h, hsub⟩
    · rw [List.mem_singleton.mp h] at hsub
      exact .inr hsub
  · rintro (⟨r, hr, hsub⟩ | hsub)
    · exact ⟨r, List.mem_append_left _ hr, hsub⟩
    · exact ⟨_, List.mem_append_right _ List.mem_cons_self, hsub⟩

variable {k : Kind}

theorem holds_upsert (hkey : ∀ r item, k.sameKey r item = true → r.subject = item.subject)
    (t : TrendTable) (item : Item) (id : ℤ) :
    (t.upsert k.sameKey item).Holds id ↔ t.Holds id ∨ item.subject = id := by
  unfold TrendTable.upsert
  by_cases hany : (t.rows.any fun r => k.sameKey r item) = true
  · rw [if_pos hany, holds_map]
    · obtain ⟨r, hr, hsame⟩ := List.any_eq_true.mp hany
      exact (or_iff_left_of_imp fun hsub => ⟨r, hr, (hkey r item hsame).trans hsub⟩).symm
    · intro r
      by_cases h : k.sameKey r item = true
      · rw [if_pos h]
        rfl
      · rw [if_neg h]
  · rw [if_neg hany]
    exact holds_append t item id

theorem holds_inserted (hkey : ∀ r item, k.sameKey r item = true → r.subject = item.subject)
    (items : List Item) (t : TrendTable) (id : ℤ) :
    (items.foldl (TrendTable.upsert k.sameKey) t).Holds id ↔
      t.Holds id ∨ ∃ item ∈ items, item.subject = id := by
  induction items generalizing t with
  | nil => simp
  | cons item items ih =>
      rw [List.foldl_cons, ih, holds_upsert hkey, or_assoc]
      simp only [List.mem_cons, exists_eq_or_imp]

theorem holds_delete (t : TrendTable) (ids : List ℤ) (id : ℤ) :
    (t.delete ids).Holds id ↔ t.Holds id ∧ id ∉ ids := by
  constructor
  · rintro ⟨r, hr, rfl⟩
    obtain ⟨hmem, hnot⟩ := List.mem_filter.mp hr
    exact ⟨⟨r, hmem, rfl⟩, of_decide_eq_true hnot⟩
  · rintro ⟨⟨r, hr, rfl⟩, hnot⟩
    exact ⟨r, List.mem_filter.mpr ⟨hr, decide_eq_true hnot⟩, rfl⟩

def Kind.Trending (k : Kind) (id : ℤ) : Prop :=
  ∃ item, k.find id = some item ∧ k.threshold ≤ item.score

/-- The key and the subjects are of the ids that are read. -/
structure Kind.Sound (k : Kind) : Prop where
  key : ∀ r item, k.sameKey r item = true → r.subject = item.subject
  find : ∀ id item, k.find id = some item → item.subject = id

theorem mem_found (hk : k.Sound) {batch : List ℤ} {p : Item → Bool} {id : ℤ} :
    (∃ item ∈ (batch.filterMap k.find).filter p, item.subject = id) ↔
      id ∈ batch ∧ ∃ item, k.find id = some item ∧ p item = true := by
  constructor
  · rintro ⟨item, hitem, rfl⟩
    obtain ⟨hmem, hp⟩ := List.mem_filter.mp hitem
    obtain ⟨id, hid, hfind⟩ := List.mem_filterMap.mp hmem
    obtain rfl := hk.find id item hfind
    exact ⟨hid, item, hfind, hp⟩
  · rintro ⟨hid, item, hfind, hp⟩
    exact ⟨item, List.mem_filter.mpr ⟨List.mem_filterMap.mpr ⟨id, hid, hfind⟩, hp⟩,
      hk.find id item hfind⟩

theorem holds_refreshBatch (hk : k.Sound) (t : TrendTable) (batch : List ℤ) (id : ℤ) :
    (refreshBatch k t batch).Holds id ↔
      (id ∈ batch ∧ k.Trending id) ∨ (t.Holds id ∧ (id ∈ batch → k.find id = none)) := by
  rw [refreshBatch, holds_delete, holds_inserted hk.key, mem_found hk, List.mem_map, mem_found hk]
  cases hfind : k.find id with
  | none => simp [Kind.Trending, hfind]
  | some item =>
      by_cases hscore : k.threshold ≤ item.score
      · by_cases hid : id ∈ batch
        · simp [Kind.Trending, hfind, hscore, hid]
        · simp [hid]
      · by_cases hid : id ∈ batch
        · simp [Kind.Trending, hfind, hscore, hid]
        · simp [hid]

theorem holds_batches (hk : k.Sound) (batches : List (List ℤ)) (t : TrendTable) (id : ℤ) :
    (batches.foldl (refreshBatch k) t).Holds id ↔
      (id ∈ batches.flatten ∧ k.Trending id) ∨
        (t.Holds id ∧ (id ∈ batches.flatten → k.find id = none)) := by
  induction batches generalizing t with
  | nil => simp
  | cons batch batches ih =>
      rw [List.foldl_cons, ih, holds_refreshBatch hk, List.flatten_cons, List.mem_append]
      cases hfind : k.find id with
      | none => simp [Kind.Trending, hfind]
      | some item =>
          by_cases hbatch : id ∈ batch
          · by_cases hrest : id ∈ batches.flatten
            · simp [hbatch, hrest]
            · simp [hbatch, hrest]
          · simp [hbatch]

theorem flatten_chunksFuel {n : ℕ} (hn : 0 < n) (rounds : ℕ) (ids : List ℤ)
    (h : ids.length ≤ rounds) : (chunksFuel n rounds ids).flatten = ids := by
  induction rounds generalizing ids with
  | zero =>
      rw [List.length_eq_zero_iff.mp (Nat.le_zero.mp h)]
      rfl
  | succ rounds ih =>
      cases ids with
      | nil => rfl
      | cons id ids =>
          rw [chunksFuel, List.flatten_cons, ih, List.take_append_drop]
          rw [List.length_drop, List.length_cons]
          rw [List.length_cons] at h
          omega

theorem mem_candidates {trending recentlyUsed : List ℤ} {id : ℤ} :
    id ∈ candidates trending recentlyUsed ↔ id ∈ trending ∨ id ∈ recentlyUsed := by
  rw [candidates, List.mem_insertionSort, List.mem_dedup, List.mem_append]

theorem holds_recalculate (t : TrendTable) (id : ℤ) :
    t.recalculateOrderedRank.Holds id ↔ t.Holds id :=
  holds_map (f := fun r => { r with rank := rowNumber t.rows r }) (fun _ => rfl) id

theorem holds_refreshTable (hk : k.Sound) (t : TrendTable) (used : List ℤ) (id : ℤ) :
    (refreshTable k t used).Holds id ↔
      ((t.Holds id ∨ id ∈ used) ∧ k.Trending id) ∨ (t.Holds id ∧ k.find id = none) := by
  have hheld : id ∈ t.rows.map Row.subject ↔ t.Holds id := List.mem_map
  rw [refreshTable, holds_recalculate, holds_batches hk, chunks, flatten_chunksFuel (by omega) _ _ le_rfl, mem_candidates, hheld]
  refine or_congr Iff.rfl (and_congr_right fun h => ?_)
  exact ⟨fun hnone => hnone (.inl h), fun hnone _ => hnone⟩

/-! ### Ranks from one on -/

/-- In each language the ranks are 1 to `n`, and a better rank is no worse a score. -/
structure Ranked (rows : List Row) : Prop where
  ranks : ∀ language, ((rows.filter fun r => r.language = language).map Row.rank).Perm
    (List.range' 1 (rows.filter fun r => r.language = language).length)
  descending : ∀ r ∈ rows, ∀ r' ∈ rows, r.language = r'.language → r.rank < r'.rank →
    r'.score ≤ r.score

theorem map_idxOf (l : List Row) (h : l.Nodup) :
    (l.map fun r => l.idxOf r + 1) = List.range' 1 l.length := by
  refine List.ext_getElem (by simp) fun i hi hi' => ?_
  rw [List.getElem_map, h.idxOf_getElem, List.getElem_range']
  omega

theorem window_perm (rows : List Row) (language : Option String) :
    (window rows language).Perm (rows.filter fun r => r.language = language) :=
  List.perm_insertionSort _ _

theorem window_sorted (rows : List Row) (language : Option String) :
    (window rows language).Pairwise fun a b => b.score ≤ a.score := by
  have : Std.Total fun a b : Row => b.score ≤ a.score := ⟨fun a b => le_total b.score a.score⟩
  have : IsTrans Row fun a b => b.score ≤ a.score := ⟨fun _ _ _ hab hbc => hbc.trans hab⟩
  exact List.pairwise_insertionSort _ _

theorem nodup_rows (t : TrendTable) : t.rows.Nodup := t.ids_nodup.of_map

theorem ranked_recalculate (t : TrendTable) : Ranked t.recalculateOrderedRank.rows where
  ranks := by
    intro language
    have hfilter : (t.recalculateOrderedRank.rows.filter fun r => r.language = language) =
        (t.rows.filter fun r => r.language = language).map
          fun r => { r with rank := rowNumber t.rows r } := List.filter_map
    have hnumber : ∀ r ∈ t.rows.filter fun r => r.language = language,
        rowNumber t.rows r = (window t.rows language).idxOf r + 1 := by
      intro r hr
      rw [rowNumber, of_decide_eq_true (List.mem_filter.mp hr).2]
    rw [hfilter, List.map_map, List.length_map]
    change ((t.rows.filter fun r => r.language = language).map (rowNumber t.rows)).Perm _
    rw [List.map_congr_left hnumber, ← (window_perm t.rows language).length_eq,
      ← map_idxOf _ ((window_perm t.rows language).nodup_iff.mpr ((nodup_rows t).filter _))]
    exact ((window_perm t.rows language).map _).symm
  descending := by
    intro r hr r' hr' hlanguage hrank
    obtain ⟨q, hq, rfl⟩ := List.mem_map.mp hr
    obtain ⟨q', hq', rfl⟩ := List.mem_map.mp hr'
    change q.language = q'.language at hlanguage
    change rowNumber t.rows q < rowNumber t.rows q' at hrank
    change q'.score ≤ q.score
    rw [rowNumber, rowNumber, hlanguage, Nat.add_lt_add_iff_right] at hrank
    have hmem : ∀ p ∈ t.rows, p.language = q'.language → p ∈ window t.rows q'.language :=
      fun p hp hl => (window_perm _ _).mem_iff.mpr (List.mem_filter.mpr ⟨hp, decide_eq_true hl⟩)
    have hlt := List.idxOf_lt_length_of_mem (hmem q hq hlanguage)
    have hlt' := List.idxOf_lt_length_of_mem (hmem q' hq' rfl)
    have hsorted := List.pairwise_iff_getElem.mp (window_sorted t.rows q'.language) _ _ hlt hlt'
      hrank
    rwa [List.getElem_idxOf, List.getElem_idxOf] at hsorted

/-! ### Only what trends -/

/-- The status is kept, eligible, and its score reaches the threshold. -/
def StatusTrends (w : World) (db : Db) (id : ℤ) : Prop :=
  ∃ s a, db.statuses id = some s ∧ s.deleted = false ∧ db.accounts s.accountId = some a ∧
    eligible w db id s a = true ∧ statusesDecayThreshold ≤ w.statusScore id s

def TagTrends (w : World) (db : Db) (id : ℤ) : Prop :=
  ∃ tag, db.tags id = some tag ∧ tagsDecayThreshold ≤ w.tagScore id tag

def LinkTrends (w : World) (db : Db) (id : ℤ) : Prop :=
  ∃ card, db.cards id = some card ∧ w.validLocale card.language = true ∧
    linksDecayThreshold ≤ w.linkScore id card

structure OnlyTrends (before after : TrendTable) (used : List ℤ) (trends : ℤ → Prop) : Prop where
  holds : ∀ id, after.Holds id ↔ (before.Holds id ∨ id ∈ used) ∧ trends id
  ranked : Ranked after.rows

structure RefreshedWell (w : World) (db : Db) (used : RecentlyUsed) (after : Refreshed) : Prop where
  statuses : OnlyTrends db.statusTrends after.statusTrends used.statuses (StatusTrends w db)
  tags : OnlyTrends db.tagTrends after.tagTrends used.tags (TagTrends w db)
  links : OnlyTrends db.previewCardTrends after.previewCardTrends used.links (LinkTrends w db)

variable {w : World} {db : Db}

theorem sound_statusKind : (statusKind w db).Sound where
  key := fun _ _ h => of_decide_eq_true h
  find := by
    intro id item h
    change statusItem w db id = some item at h
    unfold statusItem at h
    cases hs : (db.statuses id).filter fun s => !s.deleted with
    | none =>
        rw [hs] at h
        cases h
    | some s =>
        rw [hs] at h
        cases ha : db.accounts s.accountId with
        | none =>
            simp only [ha] at h
            cases h
        | some a =>
            simp only [ha, Option.some.injEq] at h
            rw [← h]

theorem sound_tagKind : (tagKind w db).Sound where
  key := fun _ _ h => of_decide_eq_true (Bool.and_eq_true _ _ ▸ h).1
  find := by
    intro id item h
    obtain ⟨tag, -, rfl⟩ := Option.map_eq_some_iff.mp h
    rfl

theorem sound_linkKind : (linkKind w db).Sound where
  key := fun _ _ h => of_decide_eq_true h
  find := by
    intro id item h
    obtain ⟨card, -, rfl⟩ := Option.map_eq_some_iff.mp h
    rfl

theorem statusItem_deleted {id : ℤ} {s : Status} (hs : db.statuses id = some s)
    (hdeleted : s.deleted = true) : statusItem w db id = none := by
  simp [statusItem, hs, Option.filter_some, hdeleted]

theorem statusItem_kept {id : ℤ} {s : Status} {a : Account} (hs : db.statuses id = some s)
    (hdeleted : s.deleted = false) (ha : db.accounts s.accountId = some a) :
    statusItem w db id = some
      { subject := id
        accountId := some s.accountId
        score := if eligible w db id s a then w.statusScore id s else 0
        language := s.language
        allowed := ((s.trendable.or a.trendable).getD db.trendableByDefault) } := by
  simp [statusItem, hs, Option.filter_some, hdeleted, ha]

theorem trending_status (id : ℤ) : (statusKind w db).Trending id ↔ StatusTrends w db id := by
  change (∃ item, statusItem w db id = some item ∧ statusesDecayThreshold ≤ item.score) ↔ _
  unfold StatusTrends
  cases hs : db.statuses id with
  | none => simp [statusItem, hs]
  | some s =>
      cases hdeleted : s.deleted with
      | true => simp [statusItem_deleted hs hdeleted, hdeleted]
      | false =>
          obtain ⟨a, ha⟩ := Option.isSome_iff_exists.mp (db.account_fk id s hs)
          cases heligible : eligible w db id s a with
          | true => simp [statusItem_kept hs hdeleted ha, hdeleted, ha, heligible]
          | false =>
              simp [statusItem_kept hs hdeleted ha, hdeleted, ha, heligible,
                statusesDecayThreshold]

theorem trending_tag (id : ℤ) : (tagKind w db).Trending id ↔ TagTrends w db id := by
  simp [Kind.Trending, tagKind, TagTrends]

theorem trending_link (id : ℤ) : (linkKind w db).Trending id ↔ LinkTrends w db id := by
  unfold Kind.Trending linkKind LinkTrends
  cases hcard : db.cards id with
  | none => simp [hcard]
  | some card =>
      cases hlocale : w.validLocale card.language with
      | true => simp [hcard, hlocale]
      | false => simp [hcard, hlocale, linksDecayThreshold]

theorem onlyTrends_iff {k : Kind} (hk : k.Sound) {trends : ℤ → Prop}
    (htrends : ∀ id, k.Trending id ↔ trends id) (t : TrendTable) (used : List ℤ) :
    OnlyTrends t (refreshTable k t used) used trends ↔ ∀ r ∈ t.rows, k.find r.subject ≠ none := by
  constructor
  · intro h r hr hnone
    have hheld : (refreshTable k t used).Holds r.subject :=
      (holds_refreshTable hk t used r.subject).mpr (.inr ⟨⟨r, hr, rfl⟩, hnone⟩)
    obtain ⟨item, hfind, -⟩ := (htrends _).mpr ((h.holds r.subject).mp hheld).2
    rw [hnone] at hfind
    cases hfind
  · intro h
    refine ⟨fun id => ?_, ranked_recalculate _⟩
    rw [holds_refreshTable hk, htrends]
    refine or_iff_left ?_
    rintro ⟨⟨r, hr, rfl⟩, hnone⟩
    exact h r hr hnone

theorem find_status_ne_none {r : Row} (hr : r ∈ db.statusTrends.rows) :
    (statusKind w db).find r.subject ≠ none ↔
      ∀ s, db.statuses r.subject = some s → s.deleted = false := by
  obtain ⟨s, hs⟩ := Option.isSome_iff_exists.mp (db.status_fk r hr)
  obtain ⟨a, ha⟩ := Option.isSome_iff_exists.mp (db.account_fk r.subject s hs)
  change statusItem w db r.subject ≠ none ↔ _
  cases hdeleted : s.deleted with
  | true => simp [statusItem_deleted hs hdeleted, hs, hdeleted]
  | false => simp [statusItem_kept hs hdeleted ha, hs, hdeleted]

/-- A refresh leaves what trends alone exactly when no post that trended has been discarded. -/
theorem refreshedWell_iff (w : World) (db : Db) (used : RecentlyUsed) :
    RefreshedWell w db used (refresh w db used) ↔
      ∀ r ∈ db.statusTrends.rows, ∀ s, db.statuses r.subject = some s → s.deleted = false := by
  have hstatuses := onlyTrends_iff (sound_statusKind : (statusKind w db).Sound) trending_status
    db.statusTrends used.statuses
  constructor
  · intro h r hr
    exact (find_status_ne_none hr).mp (hstatuses.mp h.statuses r hr)
  · intro h
    refine ⟨hstatuses.mpr fun r hr => (find_status_ne_none hr).mpr (h r hr),
      (onlyTrends_iff sound_tagKind trending_tag db.tagTrends used.tags).mpr fun r hr => ?_,
      (onlyTrends_iff sound_linkKind trending_link db.previewCardTrends used.links).mpr
        fun r hr => ?_⟩
    · obtain ⟨tag, htag⟩ := Option.isSome_iff_exists.mp (db.tag_fk r hr)
      simp [tagKind, htag]
    · obtain ⟨card, hcard⟩ := Option.isSome_iff_exists.mp (db.card_fk r hr)
      simp [linkKind, hcard]

/-! ### A post that is discarded -/

def noTrends : TrendTable where
  rows := []
  nextId := 1
  ids_nodup := List.nodup_nil
  ids_lt := fun r hr => by cases hr

def firstTrend : TrendTable := noTrends.append ⟨7, some 1, 9, some "en", true⟩

def onePost (deleted : Bool) : Db where
  statuses := fun _ =>
    some { accountId := 1, createdAt := 0, language := some "en", deleted := deleted }
  accounts := fun _ => some {}
  quotes := []
  tags := fun _ => none
  cards := fun _ => none
  trendableByDefault := true
  statusTrends := firstTrend
  tagTrends := noTrends
  previewCardTrends := noTrends
  status_fk := fun _ _ => rfl
  account_fk := fun _ _ _ => rfl
  tag_fk := fun r hr => by cases hr
  card_fk := fun r hr => by cases hr

def quietWorld : World where
  now := 3600
  statusScore := fun _ _ => 4
  tagScore := fun _ _ => 0
  linkScore := fun _ _ => 0
  validLocale := fun language => language = some "en"

def nothingUsed : RecentlyUsed := ⟨[], [], []⟩

example : rowNumber firstTrend.rows ⟨1, 7, some 1, 9, some "en", true, 0⟩ = 1 := by decide +kernel

theorem discarded_post_trends :
    ¬ RefreshedWell quietWorld (onePost true) nothingUsed
      (refresh quietWorld (onePost true) nothingUsed) := by
  intro h
  have hheld : (refresh quietWorld (onePost true) nothingUsed).statusTrends.Holds 7 :=
    (holds_refreshTable sound_statusKind firstTrend [] 7).mpr
      (.inr ⟨⟨_, List.mem_cons_self, rfl⟩, rfl⟩)
  obtain ⟨s, a, hs, hdeleted, -⟩ := ((h.statuses.holds 7).mp hheld).2
  rw [← Option.some.inj hs] at hdeleted
  cases hdeleted

end Eunha.Trends
