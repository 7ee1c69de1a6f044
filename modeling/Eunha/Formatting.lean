import Eunha.Encodings
import Eunha.Sanitizer
import Eunha.TextSlices

/-!
# Formatting local text

What `TextFormatter` makes of a local text: the entities that four expressions find in it,
those that overlap an earlier one left out, and the text rewritten with a link for each. What
the expressions match is given; a match knows where in the text it stands.
-/
namespace Eunha.Formatting
open TextSlices Encodings
open Sanitizer (trim)

abbrev Text := List Char

/-! ### The expressions -/

structure UrlMatch (text : Text) where
  before : Text
  url : Text
  after : Text
  protocol : Bool
  domain : Text
  text_eq : text = before ++ url ++ after

/-- A match of `MENTION_RE`: an `@` and the name of its group. -/
structure MentionMatch (text : Text) where
  before : Text
  screenName : Text
  after : Text
  text_eq : text = before ++ '@' :: screenName ++ after

/-- A match of `HASHTAG_RE`: a hash of either width and the name of its group. -/
structure HashtagMatch (text : Text) where
  before : Text
  fullWidth : Bool
  name : Text
  after : Text
  text_eq : text = before ++ (if fullWidth then '＃' else '#') :: name ++ after

structure UriMatch (text : Text) where
  before : Text
  uri : Text
  after : Text
  text_eq : text = before ++ uri ++ after

/-- A match of `VALID_TCO_URL`, which starts where the text does. -/
structure TcoMatch (url : Text) where
  whole : Text
  slug : Text
  after : Text
  url_eq : url = whole ++ after

/-- What the expressions match, in a text, and what the library for domains answers. -/
structure Expressions where
  validUrl : (text : Text) → List (UrlMatch text)
  validTcoUrl : (url : Text) → Option (TcoMatch url)
  hashtag : (text : Text) → List (HashtagMatch text)
  mention : (text : Text) → List (MentionMatch text)
  endMentionMatch : Text → Bool
  validExtendedUri : (text : Text) → List (UriMatch text)
  domainToAscii : Text → Option Text

/-! ### Entities -/

inductive Kind where
  | url (url : Text)
  | hashtag (hashtag : Text)
  /-- `user` or `user@domain`, as written. -/
  | mention (screenName : Text)
  deriving DecidableEq

structure Entity where
  start : ℕ
  stop : ℕ
  kind : Kind
  deriving DecidableEq

def isValidDomain (x : Expressions) (urlLength : ℕ) (domain : Text) : Bool :=
  match x.domainToAscii domain with
  | none => false
  | some encoded =>
      if (encoded.splitOn '.').any fun label => 63 < size label then false
      else urlLength + (encoded.length - domain.length) ≤ 4096

def urlEntity (x : Expressions) {text : Text} (m : UrlMatch text) : Option Entity :=
  -- Without a protocol, nothing is extracted, but the match is still consumed.
  if !m.protocol then none
  else
    match x.validTcoUrl m.url with
    | some tco =>
        if 40 < size tco.slug then none
        else if isValidDomain x tco.whole.length m.domain then
          some ⟨size m.before, size m.before + size tco.whole, .url tco.whole⟩
        else none
    | none =>
        if isValidDomain x m.url.length m.domain then
          some ⟨size m.before, size m.before + size m.url, .url m.url⟩
        else none

def extractUrls (x : Expressions) (text : Text) : List Entity :=
  if ':' ∈ text then (x.validUrl text).filterMap (urlEntity x) else []

/-- `PROTOCOL_SUFFIX`: what is before `http` or `https` at the end of a line. -/
def protocolSuffix (hashtag : Text) : Option (Text × Text) :=
  ["https".toList, "http".toList].findSome? fun suffix =>
    let name := hashtag.take (hashtag.length - suffix.length)
    if suffix.isSuffixOf hashtag ∧ name ≠ [] ∧ '\n' ∉ name then some (name, suffix) else none

def hashtagEntity {text : Text} (m : HashtagMatch text) : Entity :=
  let start := size m.before
  let stop := size (m.before ++ (if m.fullWidth then '＃' else '#') :: m.name)
  let suffix := if "://".toList.isPrefixOf m.after then protocolSuffix m.name else none
  match suffix with
  | some (name, suffix) => ⟨start, stop - size suffix, .hashtag name⟩
  | none => ⟨start, stop, .hashtag m.name⟩

def extractHashtags (x : Expressions) (text : Text) : List Entity :=
  if '#' ∈ text ∨ '＃' ∈ text then (x.hashtag text).map hashtagEntity else []

/-- `split_once('@')` -/
def splitOnce (screenName : Text) : Option (Text × Text) :=
  if '@' ∈ screenName then
    some (screenName.takeWhile (· ≠ '@'), (screenName.dropWhile (· ≠ '@')).tail)
  else none

def mentionEntity (x : Expressions) {text : Text} (m : MentionMatch text) : Option Entity :=
  if x.endMentionMatch m.after then none
  else if (splitOnce m.screenName).any fun name => 253 < name.2.length then none
  else
    let start := size (m.before ++ ['@'])
    some ⟨start - 1, start + size m.screenName, .mention m.screenName⟩

def extractMentions (x : Expressions) (text : Text) : List Entity :=
  if '@' ∈ text ∨ '＠' ∈ text then (x.mention text).filterMap (mentionEntity x) else []

def extractExtraUris (x : Expressions) (text : Text) : List Entity :=
  if ':' ∈ text then
    (x.validExtendedUri text).map fun m =>
      ⟨size m.before, size m.before + size m.uri, .url m.uri⟩
  else []

def keepEntity (kept : List Entity) (entity : Entity) : List Entity :=
  if kept.getLast?.any fun prev => entity.start < prev.stop then kept else kept ++ [entity]

def removeOverlappingEntities (entities : List Entity) : List Entity :=
  (entities.mergeSort fun a b => decide (a.start ≤ b.start)).foldl keepEntity []

def extractEntities (x : Expressions) (text : Text) : List Entity :=
  removeOverlappingEntities
    (extractUrls x text ++ extractHashtags x text ++ extractMentions x text ++
      extractExtraUris x text)

/-! ### Links -/

def escapeChar (c : Char) : Text :=
  if c = '&' then "&amp;".toList
  else if c = '<' then "&lt;".toList
  else if c = '>' then "&gt;".toList
  else if c = '"' then "&quot;".toList
  else if c = '\'' then "&#39;".toList
  else [c]

def htmlEscape (text : Text) : Text := text.flatMap escapeChar

structure MentionTarget where
  username : Text
  domain : Option Text
  url : Text
  deriving DecidableEq

structure Options where
  localDomain : Text
  withDomains : Bool
  withRelMe : Bool
  preloadedAccounts : List MentionTarget
  lookup : List MentionTarget
  /-- `str::to_lowercase` -/
  lowercase : Text → Text
  domainToUnicode : Text → Text

def eqIgnoreAsciiCase (a b : Text) : Bool := a.map Char.toLower = b.map Char.toLower

/-- `URL_PREFIX_REGEX` -/
def urlPrefix (url : Text) : Text :=
  let web (scheme : Text) :=
    if (scheme ++ "www.".toList).isPrefixOf url then scheme ++ "www.".toList else scheme
  if "https://".toList.isPrefixOf url then web "https://".toList
  else if "http://".toList.isPrefixOf url then web "http://".toList
  else if "xmpp:".toList.isPrefixOf url then "xmpp:".toList
  else []

/-- A URL's parts: its prefix, what is shown of the rest, what is not, and whether it was
cut off. -/
structure Shortened where
  start : Text
  display : Text
  suffix : Text
  cutoff : Bool

def shorten (url : Text) : Shortened :=
  let start := urlPrefix url
  let rest := url.drop start.length
  let suffix := rest.drop 30
  if suffix.length = 1 then ⟨start, rest.take 30 ++ suffix, [], false⟩
  else ⟨start, rest.take 30, suffix, 30 < rest.length⟩

def lit (fixed : String) : Text := fixed.toList

def shortenedLink (url : Text) (relMe : Bool) : Text :=
  let s := shorten url
  let rel := if relMe then lit "nofollow noopener me" else lit "nofollow noopener"
  let ellipsis := if s.cutoff then lit "ellipsis" else lit ""
  lit "<a href=\"" ++ htmlEscape url ++ lit "\" target=\"_blank\" rel=\"" ++ rel ++
    lit "\" translate=\"no\"><span class=\"invisible\">" ++ htmlEscape s.start ++
    lit "</span><span class=\"" ++ ellipsis ++ lit "\">" ++ htmlEscape s.display ++
    lit "</span><span class=\"invisible\">" ++ htmlEscape s.suffix ++ lit "</span></a>"

def isSegmentChar (c : Char) : Bool := c.isAlphanum || "-._~!$&'()*+,;=:@".toList.contains c

def upperHex (n : ℕ) : Char := (Nat.digitChar n).toUpper

def escapeSegment (segment : Text) : Text :=
  (utf8 segment).flatMap fun byte =>
    let c := Char.ofNat byte.toNat
    if byte.toNat < 128 ∧ isSegmentChar c = true then [c]
    else ['%', upperHex (byte.toNat / 16), upperHex (byte.toNat % 16)]

def tagUrl (localDomain hashtag : Text) : Text :=
  "https://".toList ++ localDomain ++ "/tags/".toList ++ escapeSegment hashtag

def linkToHashtag (o : Options) (hashtag : Text) : Text :=
  lit "<a href=\"" ++ htmlEscape (tagUrl o.localDomain hashtag) ++
    lit "\" class=\"mention hashtag\" rel=\"tag\">#<span>" ++ htmlEscape hashtag ++
    lit "</span></a>"

/-- `TagManager#local_domain?` -/
def isLocalDomain (o : Options) (domain : Text) : Bool :=
  let domain := trim domain
  let domain := if domain.getLast? = some '/' then domain.dropLast else domain
  eqIgnoreAsciiCase domain o.localDomain

def splitScreenName (o : Options) (screenName : Text) : Text × Option Text :=
  match splitOnce screenName with
  | some (username, domain) =>
      (username, if isLocalDomain o domain then none else some domain)
  | none => (screenName, none)

def sameDomain (eq : Text → Text → Bool) : Option Text → Option Text → Bool
  | none, none => true
  | some a, some b => eq a b
  | _, _ => false

def resolveMention (o : Options) (screenName : Text) : Option (MentionTarget × Bool) :=
  let (username, domain) := splitScreenName o screenName
  let sameUsername (other : MentionTarget) := eqIgnoreAsciiCase other.username username
  let there (other : MentionTarget) := sameDomain eqIgnoreAsciiCase other.domain domain
  if o.preloadedAccounts ≠ [] then
    let hits := o.preloadedAccounts.countP fun other => sameUsername other && !there other
    -- The last one of that name and domain.
    (o.preloadedAccounts.reverse.find? fun other => sameUsername other && there other).map
      fun account => (account, 0 < hits || o.withDomains)
  else
    let same (a b : Text) : Bool := o.lowercase a = o.lowercase b
    (o.lookup.find? fun other =>
      same other.username username && sameDomain same other.domain domain).map
      fun account => (account, o.withDomains)

/-- `Account#pretty_acct` -/
def prettyAcct (o : Options) (account : MentionTarget) : Text :=
  match account.domain with
  | none => account.username
  | some domain => account.username ++ '@' :: o.domainToUnicode domain

def handle (o : Options) (account : MentionTarget) (withDomain : Bool) : Text :=
  if withDomain then prettyAcct o account else account.username

def linkToMention (o : Options) (account : MentionTarget) (withDomain : Bool) : Text :=
  lit "<span class=\"h-card\" translate=\"no\"><a href=\"" ++ htmlEscape account.url ++
    lit "\" class=\"u-url mention\">@<span>" ++ htmlEscape (handle o account withDomain) ++
    lit "</span></a></span>"

def linkToEntity (o : Options) (screenName : Text) : Text :=
  match resolveMention o screenName with
  | none => '@' :: htmlEscape screenName
  | some (account, withDomain) => linkToMention o account withDomain

/-! ### The text rewritten -/

def link (o : Options) : Kind → Text
  | .url url => shortenedLink url o.withRelMe
  | .hashtag hashtag => linkToHashtag o hashtag
  | .mention screenName => linkToEntity o screenName

def rewriteFrom (o : Options) (text : Text) : ℕ → List Entity → Option Text
  | last, [] => (slice text last (size text)).map htmlEscape
  | last, entity :: entities => do
      let between ← slice text last entity.start
      let rest ← rewriteFrom o text entity.stop entities
      pure (htmlEscape between ++ link o entity.kind ++ rest)

def rewrite (x : Expressions) (o : Options) (text : Text) : Option Text :=
  rewriteFrom o text 0 (extractEntities x text)

end Eunha.Formatting
