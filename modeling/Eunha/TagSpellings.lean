import Eunha.Hashtags

/-!
# The spellings of a hashtag, as each request reads them

To follow a hashtag is to find or create the tag of its normal form. To show, to unfollow and
to read it, its spelling is only lower-cased, and the streaming server has a normal form of its
own. All of them reach the tag that was followed just where the spelling lower-cased is its
name.
-/
namespace Eunha.TagSpellings
open Hashtags

structure TagFollow where
  accountId : ℕ
  tagId : ℕ
  deriving DecidableEq

structure Store where
  tags : List Tag
  nextId : ℕ
  tagFollows : List TagFollow
  deriving DecidableEq

variable (u : Unicode)

/-- `follow_tag`, where a name of which nothing is left is not found. -/
def followTag (s : Store) (accountId : ℕ) (name : Text) : Option (Store × ℕ) :=
  match findOrCreate u s.tags s.nextId name with
  | (_, none) => none
  | (tags, some tagId) =>
      let follow := ⟨accountId, tagId⟩
      some
        ({ tags := tags
           nextId := s.nextId + 1
           tagFollows :=
            if follow ∈ s.tagFollows then s.tagFollows else follow :: s.tagFollows }, tagId)

/-- `SELECT id FROM tags WHERE name = …` -/
def getTag (s : Store) (name : Text) : Option Tag :=
  s.tags.find? fun t => t.name = u.toLowercase name

def unfollowTag (s : Store) (accountId : ℕ) (name : Text) : Store :=
  match getTag u s name with
  | none => s
  | some t =>
      { s with tagFollows := s.tagFollows.filter fun f => f ≠ ⟨accountId, t.id⟩ }

def inTagTimeline (t : Tag) (name : Text) : Bool := u.lower t.name = u.toLowercase name

/-- The letters the streaming server folds, one for one. -/
structure Streaming where
  fold : Char → Char
  /-- `\p{L}\p{N}` -/
  isLetterOrNumber : Char → Bool

variable (st : Streaming)

/-- `normalize_hashtag` of the streaming server. -/
def normalizeHashtag (tag : Text) : Text :=
  ((u.toLowercase (u.nfkc tag)).map st.fold).filter fun c =>
    st.isLetterOrNumber c || ['_', '\u00B7', '\u200C'].contains c

/-- The channel of a spelling is the one a post with the tag is published to. -/
def onStream (t : Tag) (name : Text) : Bool := normalizeHashtag u st name = u.toLowercase t.name

/-! ### Reaching the tag that was followed -/

structure Reached (s : Store) (accountId : ℕ) (name : Text) (t : Tag) : Prop where
  get : getTag u s name = some t
  unfollow : ⟨accountId, t.id⟩ ∉ (unfollowTag u s accountId name).tagFollows
  timeline : inTagTimeline u t name = true
  stream : onStream u st t name = true

variable {u st} {s s' : Store} {accountId tagId : ℕ} {name : Text}

theorem mem_of_followTag (h : followTag u s accountId name = some (s', tagId)) :
    ∃ t ∈ s'.tags, t.id = tagId := by
  unfold followTag findOrCreate at h
  simp only at h
  split_ifs at h with hempty
  cases hnamed : named u s.tags (normalize u (strip u name)) with
  | some t =>
      rw [hnamed] at h
      cases h
      exact ⟨t, List.mem_of_find?_eq_some hnamed, rfl⟩
  | none =>
      rw [hnamed] at h
      cases h
      exact ⟨_, List.mem_cons_self, rfl⟩

theorem followTag_unique (hs : Unique u s.tags)
    (h : followTag u s accountId name = some (s', tagId)) : Unique u s'.tags := by
  unfold followTag findOrCreate at h
  simp only at h
  split_ifs at h with hempty
  cases hnamed : named u s.tags (normalize u (strip u name)) with
  | some t =>
      rw [hnamed] at h
      cases h
      exact hs
  | none =>
      rw [hnamed] at h
      cases h
      refine List.nodup_cons.mpr ⟨fun hmem => ?_, hs⟩
      obtain ⟨t, ht, hlower⟩ := List.mem_map.mp hmem
      exact List.find?_eq_none.mp hnamed t ht (decide_eq_true hlower)

theorem getTag_iff (hs : Unique u s.tags) {t : Tag} (ht : t ∈ s.tags) :
    getTag u s name = some t ↔ t.name = u.toLowercase name := by
  constructor
  · intro h
    unfold getTag at h
    have hname := List.find?_some h
    exact of_decide_eq_true hname
  · intro hname
    unfold getTag
    cases hfind : s.tags.find? fun t => t.name = u.toLowercase name with
    | none => exact absurd (decide_eq_true hname) (List.find?_eq_none.mp hfind t ht)
    | some other =>
        have hother := List.find?_some hfind
        have hsame : u.lower other.name = u.lower t.name := by
          rw [hname, of_decide_eq_true hother]
        rw [List.inj_on_of_nodup_map hs (List.mem_of_find?_eq_some hfind) ht hsame]

/-- Every request reaches the tag that was followed just where its name is the spelling
lower-cased, the database lower-cases it so, and the streaming server normalises the spelling so. -/
theorem reached_iff (u : Unicode) (st : Streaming) (s s' : Store) (accountId tagId : ℕ)
    (name : Text) (hs : Unique u s.tags)
    (h : followTag u s accountId name = some (s', tagId)) :
    ∃ t ∈ s'.tags, t.id = tagId ∧
      (Reached u st s' accountId name t ↔
        t.name = u.toLowercase name ∧ u.lower t.name = t.name ∧
          normalizeHashtag u st name = u.toLowercase t.name) := by
  obtain ⟨t, ht, hid⟩ := mem_of_followTag h
  have hs' := followTag_unique hs h
  refine ⟨t, ht, hid, ?_, ?_⟩
  · intro hreached
    have hname := (getTag_iff hs' ht).mp hreached.get
    have htimeline := of_decide_eq_true hreached.timeline
    exact ⟨hname, htimeline.trans hname.symm, of_decide_eq_true hreached.stream⟩
  · rintro ⟨hname, hlower, hstream⟩
    have hget := (getTag_iff hs' ht).mpr hname
    refine ⟨hget, ?_, decide_eq_true (hlower.trans hname), decide_eq_true hstream⟩
    unfold unfollowTag
    rw [hget]
    intro hmem
    exact of_decide_eq_true (List.mem_filter.mp hmem).2 rfl

/-! ### Letters with accents -/

def latin : Unicode where
  nfkc := id
  toLowercase text := text.map Char.toLower
  nfd c := if c = 'é' then ['e', '\u0301'] else [c]
  isAlphanumeric c := c.isAlphanum || c = 'é'
  isCombiningMark c := c = '\u0301'
  isWhitespace c := c.isWhitespace
  lower text := text.map Char.toLower

def streaming : Streaming where
  fold c := if c = 'é' then 'e' else c
  isLetterOrNumber c := c.isAlphanum || c = 'é'

def noTags : Store := ⟨[], 1, []⟩

/-- `Café` is followed as `cafe`, and not unfollowed as `café`. -/
theorem accent_not_reached :
    ∃ s', followTag latin noTags 7 ['C', 'a', 'f', 'é'] = some (s', 1) ∧
      getTag latin s' ['C', 'a', 'f', 'é'] = none ∧
      ⟨7, 1⟩ ∈ (unfollowTag latin s' 7 ['C', 'a', 'f', 'é']).tagFollows ∧
      inTagTimeline latin ⟨1, ['c', 'a', 'f', 'e']⟩ ['C', 'a', 'f', 'é'] = false :=
  ⟨⟨[⟨1, ['c', 'a', 'f', 'e']⟩], 2, [⟨7, 1⟩]⟩, by decide +kernel, by decide +kernel,
    by decide +kernel, by decide +kernel⟩

theorem reached_rust :
    ∃ t ∈ [(⟨1, ['r', 'u', 's', 't']⟩ : Tag)], t.id = 1 ∧
      (Reached latin streaming ⟨[⟨1, ['r', 'u', 's', 't']⟩], 2, [⟨7, 1⟩]⟩ 7 ['R', 'u', 's', 't'] t ↔
        t.name = latin.toLowercase ['R', 'u', 's', 't'] ∧ latin.lower t.name = t.name ∧
          normalizeHashtag latin streaming ['R', 'u', 's', 't'] = latin.toLowercase t.name) :=
  reached_iff latin streaming noTags ⟨[⟨1, ['r', 'u', 's', 't']⟩], 2, [⟨7, 1⟩]⟩ 7 1
    ['R', 'u', 's', 't'] List.nodup_nil
    (by decide +kernel)

end Eunha.TagSpellings
