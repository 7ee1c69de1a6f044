import Eunha.Cursors
import Eunha.Hashtags
import Mathlib

/-!
# Hashtag timelines

The posts with a hashtag, with one of `any`, with each of `all` and with none of `none`, are
read page by page from either end. That a post has each of `all` is told by counting, and no
post has as many as a list that repeats one.
-/
namespace Eunha.HashtagTimelines
open Hashtags (Text Unicode)

structure Account where
  id : ℕ
  domain : Option String
  suspended : Bool
  requestedDeletion : Bool
  silenced : Bool

structure Status where
  id : ℤ
  accountId : ℕ
  visibility : ℕ
  deleted : Bool
  hasMedia : Bool
  tags : List Text
  deriving DecidableEq

structure Mute where
  accountId : ℕ
  targetAccountId : ℕ
  expiresAt : Option ℕ

/-- The rows, posts by their ids, newest first. -/
structure Store where
  accounts : List Account
  statuses : List Status
  accountDomainBlocks : List (ℕ × String)
  blocks : List (ℕ × ℕ)
  mutes : List Mute
  sorted : statuses.Pairwise fun s t => t.id < s.id

/-- `FeedReach` -/
structure FeedReach where
  nothing : Bool
  localOnly : Bool
  remoteOnly : Bool

/-- What is asked, but for where the page is. -/
structure Asked where
  hashtag : Text
  query : List (String × Text)
  onlyMedia : Bool
  limit : Option ℤ
  viewer : Option ℕ
  reach : FeedReach

structure Bounds where
  maxId : Option ℤ
  sinceId : Option ℤ
  minId : Option ℤ

variable (u : Unicode) (db : Store) (now : ℕ) (q : Asked)

/-! ### The query -/

/-- `collect_tag_filter` -/
def collectTagFilter (plain bracket : String) : Option (List Text) :=
  let v := (q.query.filter fun kv => kv.1 = plain || kv.1 = bracket).map fun kv =>
    u.toLowercase kv.2
  if v.isEmpty then none else some v

def anyTags : Option (List Text) := collectTagFilter u q "any" "any[]"

def allTags : Option (List Text) := collectTagFilter u q "all" "all[]"

def noneTags : Option (List Text) := collectTagFilter u q "none" "none[]"

def names (s : Status) : List Text := s.tags.map u.lower

/-- The author may be shown to whoever asks. -/
def visible (a : Account) : Bool :=
  !a.suspended && !a.requestedDeletion && !a.silenced
    && (!q.reach.localOnly || a.domain.isNone) && (!q.reach.remoteOnly || a.domain.isSome)
    && q.viewer.all fun v =>
      a.domain.all (fun d => !db.accountDomainBlocks.contains (v, d))
        && !db.blocks.contains (v, a.id) && !db.blocks.contains (a.id, v)
        && !db.mutes.any fun m =>
          m.accountId = v && m.targetAccountId = a.id && m.expiresAt.all (now < ·)

def baseConditions (s : Status) : Bool :=
  (names u s).contains (u.toLowercase q.hashtag) && s.visibility = 0 && !s.deleted
    && db.accounts.any (fun a => a.id = s.accountId && visible db now q a)
    && (!q.onlyMedia || s.hasMedia)
    && (anyTags u q).all (fun any => (names u s).any any.contains)
    && (allTags u q).all (fun all =>
      ((names u s).filter all.contains).dedup.length = all.length)
    && (noneTags u q).all fun none => !(names u s).any none.contains

/-- `limit_clamped(20, 40)` -/
def limitClamped : ℕ := (max (min (q.limit.getD 20) 40) 1).toNat

/-- `tag_timeline` -/
def tagTimeline (b : Bounds) : List Status :=
  if q.reach.nothing then []
  else
    let ordered := if b.minId.isSome then db.statuses.reverse else db.statuses
    let page := (ordered.filter fun s => baseConditions u db now q s
      && b.maxId.all (s.id < ·) && b.sinceId.all (· < s.id) && b.minId.all (· < s.id)).take
        (limitClamped q)
    if b.minId.isSome then page.reverse else page

/-! ### What it lists -/

/-- The pages read, each bounded by the last id of the one before, until one is empty. -/
def follow (page : Option ℤ → List Status) : ℕ → Option ℤ → List Status
  | 0, _ => []
  | fuel + 1, bound =>
      match (page bound).getLast? with
      | none => []
      | some last => page bound ++ follow page fuel (some last.id)

/-- From the newest, each page after the `max_id` of the one before. -/
def fromNewest (fuel : ℕ) : List Status :=
  follow (fun bound => tagTimeline u db now q ⟨bound, none, none⟩) fuel none

/-- From the oldest, where nothing is as old as `start`, each page turned to be read upwards. -/
def fromOldest (fuel : ℕ) (start : ℤ) : List Status :=
  follow (fun bound => (tagTimeline u db now q ⟨none, none, some (bound.getD start)⟩).reverse)
    fuel none

/-- What the timeline is of, but for `all`. -/
structure Described (s : Status) : Prop where
  reach : q.reach.nothing = false
  carries : u.toLowercase q.hashtag ∈ names u s
  isPublic : s.visibility = 0
  undeleted : s.deleted = false
  author : ∃ a ∈ db.accounts, a.id = s.accountId ∧ visible db now q a = true
  media : q.onlyMedia = true → s.hasMedia = true
  any : ∀ any ∈ anyTags u q, ∃ n ∈ any, n ∈ names u s
  all : ∀ all ∈ allTags u q, ∀ n ∈ all, n ∈ names u s
  none : ∀ none ∈ noneTags u q, ∀ n ∈ none, n ∉ names u s

/-- Each post of the timeline is listed once, in order. -/
def Lists (l : List Status) : Prop :=
  (l.Pairwise fun s t => t.id < s.id) ∧
    ∀ s, s ∈ l ↔ s ∈ db.statuses ∧ Described u db now q s

variable {u db now q}

/-! ### Counting -/

/-- As many are counted as the list has just if it repeats none and has them all. -/
theorem length_counted {names all : List Text} :
    (names.filter all.contains).dedup.length = all.length ↔ all.Nodup ∧ all ⊆ names := by
  have hsub : (names.filter all.contains).dedup ⊆ all := fun n hn => by
    simpa using (List.mem_filter.mp (List.mem_dedup.mp hn)).2
  constructor
  · intro hlength
    have hperm := (List.nodup_dedup _).subperm hsub |>.perm_of_length_le hlength.ge
    refine ⟨hperm.nodup_iff.mp (List.nodup_dedup _), fun n hn => ?_⟩
    exact List.mem_of_mem_filter (List.mem_dedup.mp (hperm.mem_iff.mpr hn))
  · rintro ⟨hnodup, hall⟩
    apply List.Perm.length_eq
    rw [List.perm_ext_iff_of_nodup (List.nodup_dedup _) hnodup]
    exact fun n => ⟨fun hn => hsub hn, fun hn => by simp [hn, hall hn]⟩

theorem mem_described {s : Status} (hreach : q.reach.nothing = false) :
    baseConditions u db now q s = true ↔
      Described u db now q s ∧ ∀ all ∈ allTags u q, all.Nodup := by
  have hcount : ∀ all : List Text, decide (((names u s).filter all.contains).dedup.length =
      all.length) = true ↔ all.Nodup ∧ ∀ n ∈ all, n ∈ names u s :=
    fun all => decide_eq_true_iff.trans length_counted
  simp only [baseConditions, Bool.and_eq_true, Option.all_eq_true, List.any_eq_true,
    List.contains_iff_mem, decide_eq_true_eq, Bool.not_eq_true', Bool.or_eq_true, hcount,
    List.any_eq_false]
  constructor
  · rintro ⟨⟨⟨⟨⟨⟨⟨hcarries, hpublic⟩, hdeleted⟩, hauthor⟩, hmedia⟩, hany⟩, hall⟩, hnone⟩
    refine ⟨⟨hreach, hcarries, hpublic, hdeleted, hauthor, fun h => ?_, fun any h => ?_,
      fun all h => (hall all h).2, fun none h n hn hmem => hnone none h n hmem hn⟩,
      fun all h => (hall all h).1⟩
    · exact hmedia.resolve_left (by simp [h])
    · obtain ⟨n, hn, hmem⟩ := hany any h
      exact ⟨n, hmem, hn⟩
  · rintro ⟨h, hnodup⟩
    refine ⟨⟨⟨⟨⟨⟨⟨h.carries, h.isPublic⟩, h.undeleted⟩, h.author⟩, ?_⟩, fun any hany => ?_⟩,
      fun all hall => ⟨hnodup all hall, h.all all hall⟩⟩,
      fun none hnone n hn hmem => h.none none hnone n hmem hn⟩
    · cases hmedia : q.onlyMedia with
      | false => exact .inl rfl
      | true => exact .inr (h.media hmedia)
    · obtain ⟨n, hn, hmem⟩ := h.any any hany
      exact ⟨n, hmem, hn⟩

/-! ### Following -/

variable (u db now q) in
/-- The rows of the timeline, newest first. -/
def rows : List Status :=
  if q.reach.nothing then [] else db.statuses.filter (baseConditions u db now q)

theorem limitClamped_pos : 0 < limitClamped q := by
  unfold limitClamped
  omega

theorem follow_eq_walk {β : Type} [LinearOrder β] {page : Option ℤ → List Status} {key : ℤ → β}
    {limit : ℕ} {l : List Status}
    (hpage : ∀ bound, page bound = Cursors.page (fun s => key s.id) limit (bound.map key) l)
    (fuel : ℕ) (bound : Option ℤ) :
    follow page fuel bound = Cursors.walk (fun s => key s.id) limit fuel (bound.map key) l := by
  induction fuel generalizing bound with
  | zero => rfl
  | succ fuel ih =>
      rw [follow, Cursors.walk, hpage]
      cases (Cursors.page (fun s => key s.id) limit (bound.map key) l).getLast? with
      | none => rfl
      | some last => exact congrArg _ (ih (some last.id))

theorem walk_all {β : Type} [LinearOrder β] {key : Status → β} {limit fuel : ℕ} {l : List Status}
    (hsorted : l.Pairwise fun s t => key t < key s) (hlimit : 0 < limit) (hfuel : l.length < fuel) :
    Cursors.walk key limit fuel none l = l := by
  refine (Cursors.walk_eq_iff (hsorted.imp le_of_lt) hlimit hfuel).mpr fun i a b hi ha hb => ?_
  obtain ⟨hfirst, rfl⟩ := List.getElem?_eq_some_iff.mp ha
  obtain ⟨hnext, rfl⟩ := List.getElem?_eq_some_iff.mp hb
  have hpos := Nat.mul_pos hi hlimit
  exact (List.pairwise_iff_getElem.mp hsorted _ _ hfirst hnext (by omega)).ne'

theorem rows_sublist : (rows u db now q).Sublist db.statuses := by
  unfold rows
  split
  · exact List.nil_sublist _
  · exact List.filter_sublist

theorem fromNewest_eq {fuel : ℕ} (hfuel : db.statuses.length < fuel) :
    fromNewest u db now q fuel = rows u db now q := by
  have hpage : ∀ bound, tagTimeline u db now q ⟨bound, none, none⟩ =
      Cursors.page (fun s => id s.id) (limitClamped q) (bound.map id) (rows u db now q) := by
    intro bound
    unfold tagTimeline rows Cursors.page Cursors.below
    split
    · simp
    · simp [List.filter_filter, Bool.and_comm]
  rw [fromNewest, follow_eq_walk hpage]
  exact walk_all (db.sorted.sublist rows_sublist) limitClamped_pos (rows_sublist.length_le.trans_lt hfuel)

theorem fromOldest_eq {fuel : ℕ} {start : ℤ} (hstart : ∀ s ∈ db.statuses, start < s.id)
    (hfuel : db.statuses.length < fuel) :
    fromOldest u db now q fuel start = (rows u db now q).reverse := by
  have hpage : ∀ bound : Option ℤ,
      (tagTimeline u db now q ⟨none, none, some (bound.getD start)⟩).reverse =
        Cursors.page (fun s => OrderDual.toDual s.id) (limitClamped q)
          (bound.map OrderDual.toDual) (rows u db now q).reverse := by
    intro bound
    have hbelow : Cursors.below (fun s => OrderDual.toDual s.id) (bound.map OrderDual.toDual)
        (rows u db now q).reverse =
          (rows u db now q).reverse.filter fun s => bound.getD start < s.id := by
      apply List.filter_congr
      intro s hs
      cases bound with
      | none =>
          have hid := hstart s (rows_sublist.subset (List.mem_reverse.mp hs))
          simpa using hid
      | some b => rfl
    rw [Cursors.page, hbelow, rows, tagTimeline]
    split
    · simp
    · simp [List.filter_reverse, List.filter_filter, Bool.and_comm]
  rw [fromOldest, follow_eq_walk hpage]
  refine walk_all (List.pairwise_reverse.mpr (db.sorted.sublist rows_sublist)) limitClamped_pos ?_
  rw [List.length_reverse]
  exact rows_sublist.length_le.trans_lt hfuel

/-! ### The timeline -/

/-- The pages list the timeline, from either end, just where no hashtag is twice in `all`, or no
post would be in the timeline at all. -/
theorem lists_iff (u : Unicode) (db : Store) (now : ℕ) (q : Asked) {start : ℤ}
    (hstart : ∀ s ∈ db.statuses, start < s.id) {fuel : ℕ} (hfuel : db.statuses.length < fuel) :
    (Lists u db now q (fromNewest u db now q fuel) ∧
      Lists u db now q (fromOldest u db now q fuel start).reverse) ↔
      (∀ all ∈ allTags u q, all.Nodup) ∨ ∀ s ∈ db.statuses, ¬ Described u db now q s := by
  rw [fromNewest_eq hfuel, fromOldest_eq hstart hfuel, List.reverse_reverse, and_self]
  have hmem : ∀ s, s ∈ rows u db now q ↔
      s ∈ db.statuses ∧ Described u db now q s ∧ ∀ all ∈ allTags u q, all.Nodup := by
    intro s
    unfold rows
    cases hreach : q.reach.nothing with
    | true =>
        simp only [if_true, List.not_mem_nil, false_iff]
        exact fun h => nomatch hreach.symm.trans h.2.1.reach
    | false => rw [if_neg (by simp), List.mem_filter, mem_described hreach]
  constructor
  · rintro ⟨-, h⟩
    by_contra! hnot
    obtain ⟨⟨all, hall, hdup⟩, s, hs, hdescribed⟩ := hnot
    exact hdup (((hmem s).mp ((h s).mpr ⟨hs, hdescribed⟩)).2.2 all hall)
  · intro h
    refine ⟨db.sorted.sublist rows_sublist, fun s => ?_⟩
    rw [hmem]
    rcases h with hnodup | hnone
    · exact ⟨fun h => ⟨h.1, h.2.1⟩, fun h => ⟨h.1, h.2, hnodup⟩⟩
    · exact ⟨fun h => ⟨h.1, h.2.1⟩, fun h => absurd h.2 (hnone s h.1)⟩

/-! ### A hashtag twice -/

/-- Letters are lower-cased as in ASCII. -/
def plain : Unicode where
  nfkc := id
  toLowercase := List.map Char.toLower
  nfd := fun c => [c]
  isAlphanumeric := Char.isAlphanum
  isCombiningMark := fun _ => false
  isWhitespace := Char.isWhitespace
  lower := List.map Char.toLower

def post : Status := ⟨5, 1, 0, false, false, [['a'], ['b']]⟩

def onePost : Store where
  accounts := [⟨1, none, false, false, false⟩]
  statuses := [post]
  accountDomainBlocks := []
  blocks := []
  mutes := []
  sorted := List.pairwise_singleton _ _

/-- The hashtag `a`, with all of these. -/
def asking (all : List Text) : Asked :=
  ⟨['a'], all.map fun n => ("all[]", n), false, none, none, ⟨false, false, false⟩⟩

theorem onePost_listed : Lists plain onePost 0 (asking [['b']])
    (fromNewest plain onePost 0 (asking [['b']]) 2) :=
  ((lists_iff plain onePost 0 (asking [['b']]) (by decide) (by decide)).mpr
    (.inl (by decide)) : _ ∧ Lists _ _ _ _ (fromOldest _ _ _ _ _ 0).reverse).1

/-- Asked for twice, in both cases, `b` keeps out the post that has it. -/
theorem repeated_keeps_out : Described plain onePost 0 (asking [['b'], ['B']]) post ∧
    ¬ Lists plain onePost 0 (asking [['b'], ['B']])
      (fromNewest plain onePost 0 (asking [['b'], ['B']]) 2) := by
  have hdescribed : Described plain onePost 0 (asking [['b'], ['B']]) post :=
    ⟨rfl, by decide, rfl, rfl, ⟨_, List.mem_singleton_self _, rfl, rfl⟩, nofun, nofun,
      by decide, nofun⟩
  have hempty : fromNewest plain onePost 0 (asking [['b'], ['B']]) 2 = [] := by decide
  refine ⟨hdescribed, fun h => ?_⟩
  have hmem := (h.2 post).mpr ⟨List.mem_singleton_self _, hdescribed⟩
  rw [hempty] at hmem
  cases hmem

end Eunha.HashtagTimelines
