import Eunha.Formatting

/-!
# Nothing lost, nothing injected

A formatted text read back: its tags taken out and its escapes undone give the text again,
but for the hash a hashtag is written with and the handle a mention is shown by. The text is
cut into the pieces between entities and the entities themselves, and each piece is written
as fixed markup and escaped text in turn.
-/
namespace Eunha.Formatting
open TextSlices

/-! ### Reading a formatted text -/

def stripTags : Bool → Text → Text
  | _, [] => []
  | true, c :: html => stripTags (c != '>') html
  | false, c :: html => if c = '<' then stripTags true html else c :: stripTags false html

def inTag : Bool → Text → Bool
  | b, [] => b
  | true, c :: html => inTag (c != '>') html
  | false, c :: html => inTag (c = '<') html

/-- `html_escape` undone. -/
def unescape : Text → Text
  | [] => []
  | c :: rest =>
      if c = '&' then
        match rest with
        | 'a' :: 'm' :: 'p' :: ';' :: rest => '&' :: unescape rest
        | 'l' :: 't' :: ';' :: rest => '<' :: unescape rest
        | 'g' :: 't' :: ';' :: rest => '>' :: unescape rest
        | 'q' :: 'u' :: 'o' :: 't' :: ';' :: rest => '"' :: unescape rest
        | '#' :: '3' :: '9' :: ';' :: rest => '\'' :: unescape rest
        | rest => c :: unescape rest
      else c :: unescape rest

theorem stripTags_append (b : Bool) (html more : Text) :
    stripTags b (html ++ more) = stripTags b html ++ stripTags (inTag b html) more := by
  induction html generalizing b with
  | nil => rw [List.nil_append, stripTags, inTag, List.nil_append]
  | cons c html ih =>
      cases b with
      | true => rw [List.cons_append, stripTags, stripTags, inTag, ih]
      | false =>
          by_cases hc : c = '<'
          · simp [stripTags, inTag, hc, ih]
          · simp [stripTags, inTag, hc, ih]

theorem inTag_append (b : Bool) (html more : Text) :
    inTag b (html ++ more) = inTag (inTag b html) more := by
  induction html generalizing b with
  | nil => rw [List.nil_append, inTag]
  | cons c html ih =>
      cases b with
      | true => rw [List.cons_append, inTag, inTag, ih]
      | false => rw [List.cons_append, inTag, inTag, ih]

theorem unescape_escapeChar (c : Char) (text : Text) :
    unescape (escapeChar c ++ text) = c :: unescape text := by
  unfold escapeChar
  split
  next h => rw [h, String.toList_ofList]; rfl
  next hamp =>
    split
    next h => rw [h, String.toList_ofList]; rfl
    next =>
      split
      next h => rw [h, String.toList_ofList]; rfl
      next =>
        split
        next h => rw [h, String.toList_ofList]; rfl
        next =>
          split
          next h => rw [h, String.toList_ofList]; rfl
          next =>
            rw [List.singleton_append, unescape.eq_def]
            exact if_neg hamp

theorem unescape_htmlEscape (text : Text) : unescape (htmlEscape text) = text := by
  induction text with
  | nil => rfl
  | cons c text ih =>
      have hcons : htmlEscape (c :: text) = escapeChar c ++ htmlEscape text := rfl
      rw [hcons, unescape_escapeChar, ih]

example : unescape (htmlEscape ['<', 'a']) = ['<', 'a'] := by decide +kernel

theorem escapeChar_safe (c d : Char) (hd : d ∈ escapeChar c) :
    d ≠ '<' ∧ d ≠ '>' ∧ d ≠ '"' ∧ d ≠ '\'' := by
  unfold escapeChar at hd
  split at hd
  next => revert d; decide
  next =>
    split at hd
    next => revert d; decide
    next hlt =>
      split at hd
      next => revert d; decide
      next hgt =>
        split at hd
        next => revert d; decide
        next hquot =>
          split at hd
          next => revert d; decide
          next hapos =>
            rw [List.mem_singleton] at hd
            subst hd
            exact ⟨hlt, hgt, hquot, hapos⟩

theorem htmlEscape_safe (text : Text) (d : Char) (hd : d ∈ htmlEscape text) :
    d ≠ '<' ∧ d ≠ '>' ∧ d ≠ '"' ∧ d ≠ '\'' := by
  cases List.mem_flatMap.mp hd with
  | intro c hc => exact escapeChar_safe c d hc.2

theorem htmlEscape_append (text more : Text) :
    htmlEscape (text ++ more) = htmlEscape text ++ htmlEscape more :=
  List.flatMap_append

theorem outside_of_safe {html : Text} (h : ∀ d ∈ html, d ≠ '<') :
    stripTags false html = html ∧ inTag false html = false := by
  induction html with
  | nil => exact ⟨rfl, rfl⟩
  | cons c html ih =>
      have hc : c ≠ '<' := h c List.mem_cons_self
      have hrest := ih fun d hd => h d (List.mem_cons_of_mem c hd)
      simp [stripTags, inTag, hc, hrest]

theorem inside_of_safe {html : Text} (h : ∀ d ∈ html, d ≠ '>') :
    stripTags true html = [] ∧ inTag true html = true := by
  induction html with
  | nil => exact ⟨rfl, rfl⟩
  | cons c html ih =>
      have hc : (c != '>') = true := by simpa using h c List.mem_cons_self
      have hrest := ih fun d hd => h d (List.mem_cons_of_mem c hd)
      simp [stripTags, inTag, hc, hrest]

@[simp] theorem stripTags_htmlEscape (text : Text) :
    stripTags false (htmlEscape text) = htmlEscape text :=
  (outside_of_safe fun d hd => (htmlEscape_safe text d hd).1).1

@[simp] theorem inTag_htmlEscape (b : Bool) (text : Text) : inTag b (htmlEscape text) = b := by
  cases b with
  | true => exact (inside_of_safe fun d hd => (htmlEscape_safe text d hd).2.1).2
  | false => exact (outside_of_safe fun d hd => (htmlEscape_safe text d hd).1).2

@[simp] theorem stripTags_true_htmlEscape (text : Text) :
    stripTags true (htmlEscape text) = [] :=
  (inside_of_safe fun d hd => (htmlEscape_safe text d hd).2.1).1

/-! ### Pieces -/

inductive Segment where
  | markup (fixed : String)
  | escaped (text : Text)

def Segment.html : Segment → Text
  | .markup fixed => lit fixed
  | .escaped text => htmlEscape text

def markups : List String :=
  ["<a href=\"", "\" target=\"_blank\" rel=\"", "nofollow noopener me", "nofollow noopener",
    "\" translate=\"no\"><span class=\"invisible\">", "</span><span class=\"", "ellipsis", "",
    "\">", "</span><span class=\"invisible\">", "</span></a>",
    "\" class=\"mention hashtag\" rel=\"tag\">#<span>", "@",
    "<span class=\"h-card\" translate=\"no\"><a href=\"", "\" class=\"u-url mention\">@<span>",
    "</span></a></span>"]

def Segment.isFixed : Segment → Bool
  | .markup fixed => markups.contains fixed
  | .escaped _ => true

inductive Piece where
  | plain (text : Text)
  | url (address : Text)
  | hashtag (fullWidth : Bool) (name : Text)
  | mention (screenName : Text)

def Piece.text : Piece → Text
  | .plain text => text
  | .url address => address
  | .hashtag fullWidth name => (if fullWidth then '＃' else '#') :: name
  | .mention screenName => '@' :: screenName

def Piece.kind : Piece → Option Kind
  | .plain _ => none
  | .url address => some (.url address)
  | .hashtag _ name => some (.hashtag name)
  | .mention screenName => some (.mention screenName)

/-- What is left of a piece to be read: any hash as `#`, and a mention that resolves as its
account's handle. -/
def Piece.shown (o : Options) : Piece → Text
  | .hashtag _ name => '#' :: name
  | .mention screenName =>
      match resolveMention o screenName with
      | none => '@' :: screenName
      | some (account, withDomain) => '@' :: handle o account withDomain
  | piece => piece.text

def Piece.segments (o : Options) : Piece → List Segment
  | .plain text => [.escaped text]
  | .url address =>
      [.markup "<a href=\"", .escaped address, .markup "\" target=\"_blank\" rel=\"",
        .markup (if o.withRelMe then "nofollow noopener me" else "nofollow noopener"),
        .markup "\" translate=\"no\"><span class=\"invisible\">",
        .escaped (shorten address).start, .markup "</span><span class=\"",
        .markup (if (shorten address).cutoff then "ellipsis" else ""), .markup "\">",
        .escaped (shorten address).display, .markup "</span><span class=\"invisible\">",
        .escaped (shorten address).suffix, .markup "</span></a>"]
  | .hashtag _ name =>
      [.markup "<a href=\"", .escaped (tagUrl o.localDomain name),
        .markup "\" class=\"mention hashtag\" rel=\"tag\">#<span>", .escaped name,
        .markup "</span></a>"]
  | .mention screenName =>
      match resolveMention o screenName with
      | none => [.markup "@", .escaped screenName]
      | some (account, withDomain) =>
          [.markup "<span class=\"h-card\" translate=\"no\"><a href=\"",
            .escaped account.url, .markup "\" class=\"u-url mention\">@<span>",
            .escaped (handle o account withDomain), .markup "</span></a></span>"]

def entitiesFrom : ℕ → List Piece → List Entity
  | _, [] => []
  | start, piece :: pieces =>
      (piece.kind.map fun kind => Entity.mk start (start + size piece.text) kind).toList ++
        entitiesFrom (start + size piece.text) pieces

theorem entitiesFrom_plain (start : ℕ) (text : Text) (pieces : List Piece) :
    entitiesFrom start (.plain text :: pieces) = entitiesFrom (start + size text) pieces := rfl

theorem entitiesFrom_entity {piece : Piece} {kind : Kind} (h : piece.kind = some kind)
    (start : ℕ) (pieces : List Piece) :
    entitiesFrom start (piece :: pieces) =
      ⟨start, start + size piece.text, kind⟩ :: entitiesFrom (start + size piece.text) pieces := by
  rw [entitiesFrom, h]
  rfl

def Piece.html (o : Options) (piece : Piece) : Text :=
  (piece.segments o).flatMap Segment.html

/-! ### A piece read back -/

theorem urlPrefix_isPrefix (url : Text) : urlPrefix url <+: url := by
  dsimp only [urlPrefix]
  split
  next hs =>
    split
    next hw => exact List.isPrefixOf_iff_prefix.mp hw
    next => exact List.isPrefixOf_iff_prefix.mp hs
  next =>
    split
    next hs =>
      split
      next hw => exact List.isPrefixOf_iff_prefix.mp hw
      next => exact List.isPrefixOf_iff_prefix.mp hs
    next =>
      split
      next hx => exact List.isPrefixOf_iff_prefix.mp hx
      next => exact List.nil_prefix

theorem shorten_text (url : Text) :
    (shorten url).start ++ ((shorten url).display ++ (shorten url).suffix) = url := by
  have hurl := List.prefix_iff_eq_append.mp (urlPrefix_isPrefix url)
  dsimp only [shorten]
  split
  next => rw [List.append_nil, List.take_append_drop, hurl]
  next => rw [List.take_append_drop, hurl]

theorem strip_rel (b : Bool) :
    stripTags true (if b then "nofollow noopener me" else "nofollow noopener").toList = [] ∧
      inTag true (if b then "nofollow noopener me" else "nofollow noopener").toList = true := by
  cases b with
  | true =>
      rw [if_pos rfl, String.toList_ofList]
      exact ⟨rfl, rfl⟩
  | false =>
      rw [if_neg Bool.false_ne_true, String.toList_ofList]
      exact ⟨rfl, rfl⟩

theorem strip_ellipsis (b : Bool) :
    stripTags true (if b then "ellipsis" else "").toList = [] ∧
      inTag true (if b then "ellipsis" else "").toList = true := by
  cases b with
  | true => exact ⟨rfl, rfl⟩
  | false => exact ⟨rfl, rfl⟩

theorem Piece.strip (o : Options) (piece : Piece) :
    stripTags false (piece.html o) = htmlEscape (piece.shown o) ∧
      inTag false (piece.html o) = false := by
  cases piece with
  | plain text => simp [Piece.html, Piece.segments, Segment.html, Piece.shown, Piece.text]
  | url address =>
      have hshown : htmlEscape (Piece.shown o (.url address)) =
          htmlEscape (shorten address).start ++
            (htmlEscape (shorten address).display ++ htmlEscape (shorten address).suffix) := by
        rw [← htmlEscape_append, ← htmlEscape_append, shorten_text]
        rfl
      have hrel := strip_rel o.withRelMe
      have hellipsis := strip_ellipsis (shorten address).cutoff
      simp only [Piece.html, Piece.segments, List.flatMap_cons, Segment.html, List.flatMap_nil,
        stripTags_append, inTag_append, hshown]
      simp only [lit]
      repeat rw [String.toList_ofList]
      simp [stripTags, inTag, hrel, hellipsis]
  | hashtag fullWidth name =>
      have hshown : htmlEscape (Piece.shown o (.hashtag fullWidth name)) =
          '#' :: htmlEscape name := rfl
      simp only [Piece.html, Piece.segments, List.flatMap_cons, Segment.html, List.flatMap_nil,
        stripTags_append, inTag_append, hshown]
      simp only [lit]
      repeat rw [String.toList_ofList]
      simp [stripTags, inTag]
  | mention screenName =>
      have hat (name : Text) : htmlEscape ('@' :: name) = '@' :: htmlEscape name := rfl
      simp only [Piece.html, Piece.segments, Piece.shown]
      split
      next hresolve =>
        simp only [List.flatMap_cons, Segment.html, List.flatMap_nil, stripTags_append,
          inTag_append, hat]
        simp only [lit]
        repeat rw [String.toList_ofList]
        simp [stripTags, inTag]
      next account withDomain hresolve =>
        simp only [List.flatMap_cons, Segment.html, List.flatMap_nil, stripTags_append,
          inTag_append, hat]
        simp only [lit]
        repeat rw [String.toList_ofList]
        simp [stripTags, inTag]

theorem strip_pieces (o : Options) (pieces : List Piece) :
    stripTags false (pieces.flatMap (Piece.html o)) =
      htmlEscape (pieces.flatMap (Piece.shown o)) := by
  induction pieces with
  | nil => rfl
  | cons piece pieces ih =>
      have hpiece := piece.strip o
      rw [List.flatMap_cons, List.flatMap_cons, stripTags_append, hpiece.1, hpiece.2, ih,
        htmlEscape_append]

theorem Piece.fixed_segments (o : Options) (piece : Piece) :
    (piece.segments o).all Segment.isFixed = true := by
  cases piece with
  | plain text => rfl
  | url address =>
      simp only [Piece.segments]
      cases o.withRelMe with
      | true =>
          cases (shorten address).cutoff with
          | true => rfl
          | false => rfl
      | false =>
          cases (shorten address).cutoff with
          | true => rfl
          | false => rfl
  | hashtag fullWidth name => rfl
  | mention screenName =>
      simp only [Piece.segments]
      split
      next => rfl
      next => rfl

theorem Piece.html_plain (o : Options) (text : Text) :
    (Piece.plain text).html o = htmlEscape text :=
  List.append_nil _

theorem Piece.html_link (o : Options) (piece : Piece) (kind : Kind)
    (h : piece.kind = some kind) : piece.html o = link o kind := by
  cases piece with
  | plain text => cases h
  | url address =>
      cases h
      simp only [Piece.html, Piece.segments, link, shortenedLink, List.flatMap_cons,
        List.flatMap_nil, Segment.html, apply_ite lit, List.append_assoc, List.append_nil]
  | hashtag fullWidth name =>
      cases h
      simp only [Piece.html, Piece.segments, link, linkToHashtag, List.flatMap_cons,
        List.flatMap_nil, Segment.html, List.append_assoc, List.append_nil]
  | mention screenName =>
      cases h
      simp only [Piece.html, Piece.segments, link, linkToEntity]
      cases resolveMention o screenName with
      | none => simp [Segment.html, lit]
      | some target =>
          simp only [linkToMention, List.flatMap_cons, List.flatMap_nil, Segment.html,
            List.append_assoc, List.append_nil]

/-! ### Where entities stand -/

def Stands (text : Text) (entity : Entity) : Prop :=
  ∃ before piece after, text = before ++ Piece.text piece ++ after ∧
    entity.start = size before ∧ entity.stop = size before + size piece.text ∧
    piece.kind = some entity.kind

theorem Stands.le {text : Text} {entity : Entity} (h : Stands text entity) :
    entity.start ≤ entity.stop := by
  obtain ⟨before, piece, after, _, hstart, hstop, _⟩ := h
  omega

theorem urlEntity_stands (x : Expressions) {text : Text} (m : UrlMatch text) (entity : Entity)
    (h : urlEntity x m = some entity) : Stands text entity := by
  unfold urlEntity at h
  split at h
  next => cases h
  next =>
    split at h
    next tco _ =>
      split at h
      next => cases h
      next =>
        split at h
        next =>
          cases h
          apply Exists.intro m.before
          apply Exists.intro (Piece.url tco.whole)
          apply Exists.intro (tco.after ++ m.after)
          have htext : text = m.before ++ tco.whole ++ (tco.after ++ m.after) := by
            conv_lhs => rw [m.text_eq, tco.url_eq]
            simp only [List.append_assoc]
          exact ⟨htext, rfl, rfl, rfl⟩
        next => cases h
    next =>
      split at h
      next =>
        cases h
        exact ⟨m.before, .url m.url, m.after, m.text_eq, rfl, rfl, rfl⟩
      next => cases h

theorem protocolSuffix_append {hashtag name suffix : Text}
    (h : protocolSuffix hashtag = some (name, suffix)) : hashtag = name ++ suffix := by
  unfold protocolSuffix at h
  obtain ⟨candidate, _, hfound⟩ := List.exists_of_findSome?_eq_some h
  dsimp only at hfound
  split at hfound
  next hsuffix =>
    cases hfound
    exact (List.suffix_iff_eq_append.mp (List.isSuffixOf_iff_suffix.mp hsuffix.1)).symm
  next => cases hfound

theorem hashtagEntity_stands {text : Text} (m : HashtagMatch text) :
    Stands text (hashtagEntity m) := by
  have hwhole : Stands text ⟨size m.before,
      size (m.before ++ (if m.fullWidth then '＃' else '#') :: m.name), .hashtag m.name⟩ :=
    ⟨m.before, .hashtag m.fullWidth m.name, m.after, by rw [Piece.text]; exact m.text_eq,
      rfl, size_append _ _, rfl⟩
  unfold hashtagEntity
  dsimp only
  split
  next name suffix hsuffix =>
    split at hsuffix
    next =>
      have hname := protocolSuffix_append hsuffix
      apply Exists.intro m.before
      apply Exists.intro (Piece.hashtag m.fullWidth name)
      apply Exists.intro (suffix ++ m.after)
      have htext : text = m.before ++ (Piece.hashtag m.fullWidth name).text ++
          (suffix ++ m.after) := by
        conv_lhs => rw [m.text_eq, hname]
        simp [Piece.text]
      have hstop : size (m.before ++ (if m.fullWidth then '＃' else '#') :: m.name) -
          size suffix = size m.before + size (Piece.hashtag m.fullWidth name).text := by
        rw [hname, Piece.text]
        simp only [size_append, size_cons]
        omega
      exact ⟨htext, rfl, hstop, rfl⟩
    next => cases hsuffix
  next => exact hwhole

theorem mentionEntity_stands (x : Expressions) {text : Text} (m : MentionMatch text)
    (entity : Entity) (h : mentionEntity x m = some entity) : Stands text entity := by
  unfold mentionEntity at h
  split at h
  next => cases h
  next =>
    split at h
    next => cases h
    next =>
      cases h
      have hat : ('@' : Char).utf8Size = 1 := by decide
      apply Exists.intro m.before
      apply Exists.intro (Piece.mention m.screenName)
      apply Exists.intro m.after
      have hstart : size (m.before ++ ['@']) - 1 = size m.before := by
        simp [hat]
      have hstop : size (m.before ++ ['@']) + size m.screenName =
          size m.before + size (Piece.mention m.screenName).text := by
        simp only [Piece.text, size_append, size_cons, size_nil]
        omega
      exact ⟨m.text_eq, hstart, hstop, rfl⟩

theorem extracted_stands (x : Expressions) (text : Text) (entity : Entity)
    (h : entity ∈ extractUrls x text ++ extractHashtags x text ++ extractMentions x text ++
      extractExtraUris x text) : Stands text entity := by
  simp only [List.mem_append] at h
  cases h with
  | inr h =>
      unfold extractExtraUris at h
      split at h
      next =>
        obtain ⟨m, _, rfl⟩ := List.mem_map.mp h
        exact ⟨m.before, .url m.uri, m.after, m.text_eq, rfl, rfl, rfl⟩
      next => cases h
  | inl h =>
      cases h with
      | inr h =>
          unfold extractMentions at h
          split at h
          next =>
            obtain ⟨m, _, hm⟩ := List.mem_filterMap.mp h
            exact mentionEntity_stands x m entity hm
          next => cases h
      | inl h =>
          cases h with
          | inr h =>
              unfold extractHashtags at h
              split at h
              next =>
                obtain ⟨m, _, rfl⟩ := List.mem_map.mp h
                exact hashtagEntity_stands m
              next => cases h
          | inl h =>
              unfold extractUrls at h
              split at h
              next =>
                obtain ⟨m, _, hm⟩ := List.mem_filterMap.mp h
                exact urlEntity_stands x m entity hm
              next => cases h

/-! ### Entities that do not overlap -/

def Ordered (entities : List Entity) : Prop :=
  entities.Pairwise fun a b => a.start ≤ b.start ∧ a.stop ≤ b.start

theorem keepEntity_ordered {kept : List Entity} {entity : Entity} (hkept : Ordered kept)
    (hle : ∀ a ∈ kept, a.start ≤ a.stop) (hnext : ∀ a ∈ kept, a.start ≤ entity.start) :
    Ordered (keepEntity kept entity) := by
  unfold keepEntity
  split
  next => exact hkept
  next hclear =>
    apply List.pairwise_append.mpr
    refine ⟨hkept, List.pairwise_singleton _ _, ?_⟩
    intro a ha b hb
    rw [List.mem_singleton] at hb
    subst hb
    have hlast : ∀ prev ∈ kept.getLast?, prev.stop ≤ b.start := by
      intro prev hprev
      rw [Option.mem_def.mp hprev, Option.any_some, decide_eq_true_eq, Nat.not_lt] at hclear
      exact hclear
    obtain ⟨front, prev, rfl⟩ : ∃ front prev, kept = front ++ [prev] := by
      cases List.eq_nil_or_concat' kept with
      | inl hnil => rw [hnil] at ha; cases ha
      | inr h => exact h
    have hprev := hlast prev (by rw [List.getLast?_concat]; exact Option.mem_some_self _)
    cases List.mem_append.mp ha with
    | inl hfront =>
        have hpair := (List.pairwise_append.mp hkept).2.2 a hfront prev List.mem_cons_self
        have hstart := hnext a ha
        have hself := hle prev (List.mem_append_right _ List.mem_cons_self)
        omega
    | inr hself =>
        rw [List.mem_singleton] at hself
        subst hself
        exact ⟨hnext a ha, hprev⟩

theorem mem_keepEntity {kept : List Entity} {entity a : Entity}
    (h : a ∈ keepEntity kept entity) : a ∈ kept ∨ a = entity := by
  unfold keepEntity at h
  split at h
  next => exact .inl h
  next => simpa using h

theorem foldl_keepEntity (entities kept : List Entity) (hkept : Ordered kept)
    (hle : ∀ a ∈ kept ++ entities, a.start ≤ a.stop)
    (hsorted : entities.Pairwise fun a b => a.start ≤ b.start)
    (hnext : ∀ a ∈ kept, ∀ b ∈ entities, a.start ≤ b.start) :
    Ordered (entities.foldl keepEntity kept) ∧
      ∀ a ∈ entities.foldl keepEntity kept, a ∈ kept ++ entities := by
  induction entities generalizing kept with
  | nil => exact ⟨hkept, fun a ha => List.mem_append_left _ ha⟩
  | cons entity entities ih =>
      rw [List.pairwise_cons] at hsorted
      have hmem : ∀ a ∈ keepEntity kept entity ++ entities, a ∈ kept ++ entity :: entities := by
        intro a ha
        cases List.mem_append.mp ha with
        | inl h =>
            cases mem_keepEntity h with
            | inl h => exact List.mem_append_left _ h
            | inr h => exact List.mem_append_right _ (h ▸ List.mem_cons_self)
        | inr h => exact List.mem_append_right _ (List.mem_cons_of_mem _ h)
      have hordered := keepEntity_ordered hkept
        (fun a ha => hle a (List.mem_append_left _ ha))
        (fun a ha => hnext a ha entity List.mem_cons_self)
      have hstarts : ∀ a ∈ keepEntity kept entity, ∀ b ∈ entities, a.start ≤ b.start := by
        intro a ha b hb
        cases mem_keepEntity ha with
        | inl h => exact hnext a h b (List.mem_cons_of_mem _ hb)
        | inr h => exact h ▸ hsorted.1 b hb
      have hrest := ih (keepEntity kept entity) hordered (fun a ha => hle a (hmem a ha))
        hsorted.2 hstarts
      exact ⟨hrest.1, fun a ha => hmem a (hrest.2 a ha)⟩

theorem extractEntities_ordered (x : Expressions) (text : Text) :
    Ordered (extractEntities x text) ∧ ∀ e ∈ extractEntities x text, Stands text e := by
  unfold extractEntities removeOverlappingEntities
  generalize hall : extractUrls x text ++ extractHashtags x text ++ extractMentions x text ++
    extractExtraUris x text = entities
  have hstands : ∀ e ∈ entities, Stands text e := by
    intro e he
    exact extracted_stands x text e (hall ▸ he)
  let le (a b : Entity) : Bool := decide (a.start ≤ b.start)
  have htrans : ∀ a b c, le a b = true → le b c = true → le a c = true := by
    intro a b c
    simp only [le, decide_eq_true_eq]
    omega
  have htotal : ∀ a b, (le a b || le b a) = true := by
    intro a b
    simp only [le, Bool.or_eq_true, decide_eq_true_eq]
    omega
  have hsorted := List.pairwise_mergeSort htrans htotal entities
  have hmem : ∀ e ∈ entities.mergeSort fun a b => decide (a.start ≤ b.start),
      Stands text e := by
    intro e he
    exact hstands e (List.mem_mergeSort.mp he)
  have hfold := foldl_keepEntity _ [] List.Pairwise.nil (fun a ha => (hmem a ha).le)
    (hsorted.imp fun h => of_decide_eq_true h) (by intro a ha; cases ha)
  exact ⟨hfold.1, fun e he => hmem e (hfold.2 e he)⟩

/-! ### The text rewritten -/

theorem rewriteFrom_pieces (o : Options) {text : Text} (entities : List Entity)
    (before rest : Text) (htext : text = before ++ rest)
    (hstands : ∀ e ∈ entities, Stands text e) (hordered : Ordered entities)
    (hstart : ∀ e ∈ entities, size before ≤ e.start) :
    ∃ pieces, pieces.flatMap Piece.text = rest ∧
      entitiesFrom (size before) pieces = entities ∧
      rewriteFrom o text (size before) entities = some (pieces.flatMap (Piece.html o)) := by
  induction entities generalizing before rest with
  | nil =>
      apply Exists.intro [Piece.plain rest]
      have hslice := slice_append before rest []
      rw [List.append_nil, ← size_append, ← htext] at hslice
      refine ⟨by simp [Piece.text], rfl, ?_⟩
      rw [rewriteFrom, hslice]
      simp [Piece.html_plain]
  | cons entity entities ih =>
      obtain ⟨front, piece, after, hcut, hfrom, hto, hkind⟩ := hstands entity List.mem_cons_self
      have hle := hstart entity List.mem_cons_self
      rw [hfrom] at hle
      -- What is between the last entity and this one.
      have hgap := exists_append_of_size
        (show before ++ rest = front ++ (piece.text ++ after) by
          rw [← htext, hcut, List.append_assoc]) hle
      obtain ⟨gap, hfront, hrest⟩ := hgap
      have hnext : ∀ e ∈ entities, size (front ++ piece.text) ≤ e.start := by
        intro e he
        have hpair := (List.pairwise_cons.mp hordered).1 e he
        rw [size_append]
        omega
      obtain ⟨pieces, htexts, hentities, hhtml⟩ := ih (front ++ piece.text) after hcut
        (fun e he => hstands e (List.mem_cons_of_mem _ he)) (List.pairwise_cons.mp hordered).2
        hnext
      apply Exists.intro (Piece.plain gap :: piece :: pieces)
      have hsize : size before + size gap = size front := by rw [hfront, size_append]
      have hslice : slice text (size before) entity.start = some gap := by
        have h := slice_append before gap (piece.text ++ after)
        rw [← hfront, ← List.append_assoc, ← hcut, hsize, ← hfrom] at h
        exact h
      have hstop : entity.stop = size (front ++ piece.text) := by rw [hto, size_append]
      have hentity : Entity.mk (size front) (size front + size piece.text) entity.kind =
          entity := by
        rw [← hfrom, hfrom, ← hto, ← hfrom]
      refine ⟨?_, ?_, ?_⟩
      · simp only [List.flatMap_cons, htexts, Piece.text, hrest]
      · rw [entitiesFrom_plain, hsize, entitiesFrom_entity hkind, hentity, ← size_append,
          hentities]
      · rw [rewriteFrom, hslice, hstop, hhtml]
        simp [Piece.html_link o piece entity.kind hkind, Piece.html_plain]

/-- Where what is shown of a piece is not its text: any hash as `#`, and a mention that
resolves. -/
theorem Piece.shown_cases (o : Options) (piece : Piece) :
    piece.shown o = piece.text ∨
      (∃ name, piece = .hashtag true name ∧ piece.shown o = '#' :: name) ∨
      ∃ screenName account withDomain, piece = .mention screenName ∧
        resolveMention o screenName = some (account, withDomain) ∧
        piece.shown o = '@' :: handle o account withDomain := by
  cases piece with
  | plain text => exact .inl rfl
  | url address => exact .inl rfl
  | hashtag fullWidth name =>
      cases fullWidth with
      | false => exact .inl rfl
      | true => exact .inr (.inl ⟨name, rfl, rfl⟩)
  | mention screenName =>
      cases hresolve : resolveMention o screenName with
      | none =>
          apply Or.inl
          simp only [Piece.shown, Piece.text, hresolve]
      | some target =>
          apply Or.inr
          apply Or.inr
          refine ⟨screenName, target.1, target.2, rfl, hresolve, ?_⟩
          simp only [Piece.shown, hresolve]

/-- A text is formatted, whatever the expressions match: its entities are in order and do not
overlap, every slice is in range, all that is written besides markup is escaped, and with its
tags stripped and its escapes undone the text is there piece by piece. -/
theorem rewrite_lossless (x : Expressions) (o : Options) (text : Text) :
    Ordered (extractEntities x text) ∧
      ∃ pieces html, rewrite x o text = some html ∧
        pieces.flatMap Piece.text = text ∧ entitiesFrom 0 pieces = extractEntities x text ∧
        html = (pieces.flatMap (Piece.segments o)).flatMap Segment.html ∧
        (∀ piece ∈ pieces, (piece.segments o).all Segment.isFixed = true) ∧
        (∀ c ∈ stripTags false html, c ≠ '<' ∧ c ≠ '>' ∧ c ≠ '"' ∧ c ≠ '\'') ∧
        stripTags false html = htmlEscape (pieces.flatMap (Piece.shown o)) ∧
        unescape (stripTags false html) = pieces.flatMap (Piece.shown o) ∧
        ∀ piece ∈ pieces, piece.shown o = piece.text ∨
          (∃ name, piece = .hashtag true name ∧ piece.shown o = '#' :: name) ∨
          ∃ screenName account withDomain, piece = .mention screenName ∧
            resolveMention o screenName = some (account, withDomain) ∧
            piece.shown o = '@' :: handle o account withDomain := by
  have hentities := extractEntities_ordered x text
  apply And.intro hentities.1
  obtain ⟨pieces, htexts, hfrom, hhtml⟩ := rewriteFrom_pieces o (extractEntities x text) [] text
    rfl hentities.2 hentities.1 fun e _ => Nat.zero_le _
  have hstrip := strip_pieces o pieces
  refine ⟨pieces, pieces.flatMap (Piece.html o), hhtml, htexts, hfrom, ?_, ?_, ?_, hstrip, ?_, ?_⟩
  · rw [List.flatMap_assoc]
    rfl
  · intro piece _
    exact piece.fixed_segments o
  · intro c hc
    rw [hstrip] at hc
    exact htmlEscape_safe _ c hc
  · rw [hstrip, unescape_htmlEscape]
  · intro piece _
    exact piece.shown_cases o

end Eunha.Formatting
