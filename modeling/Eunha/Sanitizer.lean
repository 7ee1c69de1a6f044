import Eunha.Html

/-!
# The sanitizer

A tree is walked as the configuration says: the transformers keep or replace an
element, and one that is not allowed is dropped, with its contents or in favour of
them. Names are compared lowercased. Lowercasing is given beyond ASCII, where all
that matters is that a character does not become a text of ASCII ones, the Kelvin
sign apart.
-/
namespace Eunha.Sanitizer

open Html

/-! ### Lowercasing -/

/-- What the characters beyond ASCII become, between the texts before and after them. -/
structure Lowercase where
  map : (before : Text) → (c : Char) → (after : Text) → Text
  beyond : ∀ before c after, 128 ≤ c.toNat →
    (∃ d ∈ map before c after, 128 ≤ d.toNat) ∨ c = '\u212a' ∧ map before c after = ['k']

def Lowercase.lowerChar (l : Lowercase) (before : Text) (c : Char) (after : Text) : Text :=
  if c.toNat < 128 then [c.toLower] else l.map before c after

def Lowercase.lowerFrom (l : Lowercase) (before : Text) : Text → Text
  | [] => []
  | c :: after => l.lowerChar before c after ++ l.lowerFrom (before ++ [c]) after

/-- `text.to_lowercase()` -/
def Lowercase.lower (l : Lowercase) (text : Text) : Text := l.lowerFrom [] text

/-! ### Configurations -/

def linkProtocols : List Text :=
  ["http", "https", "dat", "dweb", "ipfs", "ipns", "ssb", "gopher", "xmpp", "magnet",
    "gemini"].map String.toList

def httpProtocols : List Text := ["http", "https"].map String.toList

def removeContents : List Text :=
  ["iframe", "math", "noembed", "noframes", "noscript", "plaintext", "script", "style", "svg",
    "xmp"].map String.toList

def whitespaceElements : List Text :=
  ["address", "article", "aside", "blockquote", "br", "dd", "div", "dl", "dt", "footer", "h1",
    "h2", "h3", "h4", "h5", "h6", "header", "hgroup", "hr", "li", "nav", "ol", "p", "pre",
    "section", "ul"].map String.toList

inductive Transformer where
  | allowedClass
  | translate
  | math
  | unsupportedElements
  | unsupportedHref

structure Config where
  elements : List Text
  /-- For an element, or for all with `*`. -/
  attributes : List (Text × List Text)
  addAttributes : List (Text × Attrs)
  /-- Element, attribute and the schemes allowed. -/
  protocols : List (Text × Text × List Text)
  transformers : List Transformer

def Config.allowsAttribute (config : Config) (element key : Text) : Bool :=
  config.attributes.any fun (e, attrs) => (e = element || e = ['*']) && attrs.contains key

def mastodonStrict : Config where
  elements := ["p", "br", "span", "a", "del", "s", "pre", "blockquote", "code", "b", "strong", "u",
    "i", "em", "ul", "ol", "li", "ruby", "rt", "rp"].map String.toList
  attributes := [
    ("*".toList, ["lang"].map String.toList),
    ("a".toList, ["href", "rel", "class", "translate"].map String.toList),
    ("span".toList, ["class", "translate"].map String.toList),
    ("ol".toList, ["start", "reversed"].map String.toList),
    ("li".toList, ["value"].map String.toList),
    ("p".toList, ["class"].map String.toList)]
  addAttributes := [("a".toList, [("rel".toList, "nofollow noopener".toList),
    ("target".toList, "_blank".toList)])]
  protocols := []
  transformers := [.allowedClass, .translate, .math, .unsupportedElements, .unsupportedHref]

def mastodonOembed : Config where
  elements := ["audio", "iframe", "source", "video"].map String.toList
  attributes := [
    ("audio".toList, ["controls"].map String.toList),
    ("iframe".toList, ["allowfullscreen", "frameborder", "height", "scrolling", "src",
      "width"].map String.toList),
    ("source".toList, ["src", "type"].map String.toList),
    ("video".toList, ["controls", "height", "loop", "width"].map String.toList)]
  addAttributes := [("iframe".toList, [("sandbox".toList,
    ("allow-scripts allow-same-origin allow-popups allow-popups-to-escape-sandbox " ++
      "allow-forms").toList)])]
  protocols := [("iframe".toList, "src".toList, httpProtocols),
    ("source".toList, "src".toList, httpProtocols)]
  transformers := []

/-! ### Protocols -/

/-- `:`, `&#0*58` or `&#x0*3a`, of either case. -/
def startsColon (text : Text) : Bool :=
  match text with
  | ':' :: _ => true
  | '&' :: '#' :: 'x' :: rest => hex rest
  | '&' :: '#' :: 'X' :: rest => hex rest
  | '&' :: '#' :: rest => "58".toList.isPrefixOf (rest.dropWhile (· = '0'))
  | _ => false
where
  hex (rest : Text) : Bool :=
    let rest := rest.dropWhile (· = '0')
    "3a".toList.isPrefixOf rest || "3A".toList.isPrefixOf rest

def scheme : Text → Option Text
  | [] => none
  | c :: rest =>
      if startsColon (c :: rest) then some []
      else if c = '/' || c = '#' then none
      else (scheme rest).map fun before => c :: before

def protocolOf (l : Lowercase) (value : Text) : Option Text := (scheme value).map l.lower

def isWhitespace (c : Char) : Bool :=
  ('\t' ≤ c && c ≤ '\r') || c = ' ' || c = '\u0085' || c = '\u00a0' || c = '\u1680' ||
    ('\u2000' ≤ c && c ≤ '\u200a') || c = '\u2028' || c = '\u2029' || c = '\u202f' ||
    c = '\u205f' || c = '\u3000'

def trim (value : Text) : Text :=
  ((value.dropWhile isWhitespace).reverse.dropWhile isWhitespace).reverse

/-! ### Transformers -/

inductive Outcome where
  | keep (e : Element)
  | replace (nodes : List Node)

def isSpace (c : Char) : Bool := c = '\t' || c = '\n' || c = '\x0c' || c = '\r' || c = ' '

def allowedClass (token : Text) : Bool :=
  (["h-", "p-", "u-", "dt-", "e-"].map String.toList).any (fun start => start.isPrefixOf token) ||
    (["mention", "hashtag", "ellipsis", "invisible", "quote-inline"].map String.toList).contains token

def keptClasses (classes : Text) : Text :=
  [' '].intercalate ((classes.splitOnP isSpace).filter allowedClass)

def allowedClassTransformer (e : Element) : Element :=
  match attr e.attrs "class".toList with
  | some classes => { e with attrs := setAttr "class".toList (keptClasses classes) e.attrs }
  | none => e

def translateTransformer (e : Element) : Element :=
  match attr e.attrs "translate".toList with
  | some value =>
      if value ≠ "no".toList then { e with attrs := removeAttr "translate".toList e.attrs } else e
  | none => e

def annotation (semantics : Element) (encoding : Text) : Option Element :=
  semantics.elementChildren.find? fun c =>
    c.name = "annotation".toList && attr c.attrs "encoding".toList = some encoding

/-- The TeX annotation in dollar signs, or else the plain-text one. -/
def mathText (e : Element) : Option Text :=
  match e.elementChildren.head? with
  | none => none
  | some semantics =>
      if semantics.name ≠ "semantics".toList then none
      else
        match annotation semantics "application/x-tex".toList with
        | some tex =>
            if attr e.attrs "display".toList = some "block".toList then
              some ("$$".toList ++ tex.text ++ "$$".toList)
            else some ('$' :: (tex.text ++ ['$']))
        | none => annotation semantics "text/plain".toList |>.map Element.text

def headings : List Text := ["h1", "h2", "h3", "h4", "h5", "h6"].map String.toList

def boldParagraph (e : Element) : Node :=
  .element "p".toList [] [.element "strong".toList e.attrs e.children]

def mathTransformer (l : Lowercase) (e : Element) : Outcome :=
  if l.lower e.name ≠ "math".toList then .keep e
  else
    match mathText e with
    | some text => .replace [.text text]
    | none => .keep e

def unsupportedElementsTransformer (l : Lowercase) (e : Element) : Outcome :=
  if l.lower e.name ∈ headings then .replace [boldParagraph e] else .keep e

/-- A link to one of the protocols. -/
def supportedHref (l : Lowercase) (attrs : Attrs) : Bool :=
  ((attr attrs "href".toList).bind (protocolOf l)).any (linkProtocols.contains ·)

def unsupportedHrefTransformer (l : Lowercase) (e : Element) : Outcome :=
  if l.lower e.name ≠ "a".toList then .keep e
  else if supportedHref l e.attrs then .keep e
  else .replace [.text e.text]

def Transformer.apply (l : Lowercase) : Transformer → Element → Outcome
  | .allowedClass, e => .keep (allowedClassTransformer e)
  | .translate, e => .keep (translateTransformer e)
  | .math, e => mathTransformer l e
  | .unsupportedElements, e => unsupportedElementsTransformer l e
  | .unsupportedHref, e => unsupportedHrefTransformer l e

def transform (l : Lowercase) : List Transformer → Element → Outcome
  | [], e => .keep e
  | t :: transformers, e =>
      match t.apply l e with
      | .keep e => transform l transformers e
      | .replace nodes => .replace nodes

/-! ### Cleaning -/

def retainAttr (l : Lowercase) (config : Config) (name : Text) (a : Text × Text) :
    Option (Text × Text) :=
  let key := l.lower a.1
  if !config.allowsAttribute name key then none
  else
    match config.protocols.find? fun (e, k, _) => e = name && k = key with
    | none => some a
    | some (_, _, allowed) =>
        if (protocolOf l a.2).any (allowed.contains ·) then some (a.1, trim a.2) else none

def addedAttrs (config : Config) (name : Text) : Attrs := (config.addAttributes.lookup name).getD []

def cleanAttrs (l : Lowercase) (config : Config) (name : Text) (attrs : Attrs) : Attrs :=
  (addedAttrs config name).foldl (fun attrs (key, value) => setAttr key value attrs)
    (attrs.filterMap (retainAttr l config name))

def weight (l : Lowercase) : List Node → ℕ
  | [] => 0
  | .text _ :: nodes => 1 + weight l nodes
  | .element name _ children :: nodes =>
      2 + (if l.lower name ∈ headings then 3 else 0) + weight l children + weight l nodes

section
variable {l : Lowercase}

theorem lower_of_ascii {text : Text} (h : ∀ c ∈ text, c.toNat < 128) :
    l.lower text = text.map Char.toLower := by
  have hfrom : ∀ before, l.lowerFrom before text = text.map Char.toLower := by
    induction text with
    | nil => exact fun _ => rfl
    | cons c text ih =>
        intro before
        rw [Lowercase.lowerFrom, ih fun d hd => h d (List.mem_cons_of_mem _ hd),
          Lowercase.lowerChar, if_pos (h c (by simp))]
        rfl
  exact hfrom []

theorem allowedClassTransformer_eq (e : Element) :
    (allowedClassTransformer e).name = e.name ∧ (allowedClassTransformer e).children = e.children := by
  unfold allowedClassTransformer
  split <;> exact ⟨rfl, rfl⟩

theorem translateTransformer_eq (e : Element) :
    (translateTransformer e).name = e.name ∧ (translateTransformer e).children = e.children := by
  unfold translateTransformer
  split
  · split_ifs <;> exact ⟨rfl, rfl⟩
  · exact ⟨rfl, rfl⟩

theorem mathTransformer_cases (l : Lowercase) (e : Element) :
    mathTransformer l e = .keep e ∨
      l.lower e.name = "math".toList ∧ ∃ text, mathTransformer l e = .replace [.text text] := by
  unfold mathTransformer
  split_ifs with hname
  · exact .inl rfl
  · split
    · exact .inr ⟨not_not.mp hname, _, rfl⟩
    · exact .inl rfl

theorem unsupportedElementsTransformer_cases (l : Lowercase) (e : Element) :
    unsupportedElementsTransformer l e = .keep e ∨
      l.lower e.name ∈ headings ∧
        unsupportedElementsTransformer l e = .replace [boldParagraph e] := by
  unfold unsupportedElementsTransformer
  split_ifs with hheading
  · exact .inr ⟨hheading, rfl⟩
  · exact .inl rfl

theorem unsupportedHrefTransformer_cases (l : Lowercase) (e : Element) :
    unsupportedHrefTransformer l e = .keep e ∧
        (l.lower e.name = "a".toList → supportedHref l e.attrs = true) ∨
      ∃ text, unsupportedHrefTransformer l e = .replace [.text text] := by
  unfold unsupportedHrefTransformer
  split_ifs with hname hhref
  · exact .inl ⟨rfl, fun h => (hname h).elim⟩
  · exact .inl ⟨rfl, fun _ => hhref⟩
  · exact .inr ⟨_, rfl⟩

theorem apply_cases (t : Transformer) (e : Element) :
    (∃ attrs, t.apply l e = .keep { e with attrs }) ∨ (∃ text, t.apply l e = .replace [.text text]) ∨
      l.lower e.name ∈ headings ∧ t.apply l e = .replace [boldParagraph e] := by
  cases t with
  | allowedClass =>
      obtain ⟨hname, hchildren⟩ := allowedClassTransformer_eq e
      refine .inl ⟨(allowedClassTransformer e).attrs, ?_⟩
      simp only [Transformer.apply, ← hname, ← hchildren]
  | translate =>
      obtain ⟨hname, hchildren⟩ := translateTransformer_eq e
      refine .inl ⟨(translateTransformer e).attrs, ?_⟩
      simp only [Transformer.apply, ← hname, ← hchildren]
  | math =>
      rcases mathTransformer_cases l e with h | ⟨-, text, h⟩
      · exact .inl ⟨e.attrs, h⟩
      · exact .inr (.inl ⟨text, h⟩)
  | unsupportedElements =>
      rcases unsupportedElementsTransformer_cases l e with h | h
      · exact .inl ⟨e.attrs, h⟩
      · exact .inr (.inr h)
  | unsupportedHref =>
      rcases unsupportedHrefTransformer_cases l e with ⟨h, -⟩ | h
      · exact .inl ⟨e.attrs, h⟩
      · exact .inr (.inl h)

theorem transform_cases (transformers : List Transformer) (e : Element) :
    (∃ attrs, transform l transformers e = .keep { e with attrs }) ∨
      (∃ text, transform l transformers e = .replace [.text text]) ∨
      l.lower e.name ∈ headings ∧
        ∃ attrs, transform l transformers e = .replace [boldParagraph { e with attrs }] := by
  induction transformers generalizing e with
  | nil => exact .inl ⟨e.attrs, rfl⟩
  | cons t transformers ih =>
      unfold transform
      rcases apply_cases t e with ⟨attrs, h⟩ | ⟨text, h⟩ | ⟨hheading, h⟩
      · rw [h]
        exact ih { e with attrs }
      · rw [h]
        exact .inr (.inl ⟨text, rfl⟩)
      · rw [h]
        exact .inr (.inr ⟨hheading, e.attrs, rfl⟩)

theorem weight_replace {transformers : List Transformer} {e : Element} {nodes : List Node}
    (h : transform l transformers e = .replace nodes) : weight l nodes < weight l [e.node] := by
  have hnode : weight l [e.node] =
      2 + (if l.lower e.name ∈ headings then 3 else 0) + weight l e.children := by
    simp [Element.node, weight]
  rcases transform_cases transformers e with ⟨attrs, h'⟩ | ⟨text, h'⟩ | ⟨hheading, attrs, h'⟩
  · cases h.symm.trans h'
  · cases h.symm.trans h'
    rw [hnode]
    simp only [weight]
    omega
  · cases h.symm.trans h'
    have hp : l.lower "p".toList ∉ headings := by rw [lower_of_ascii (by decide)]; decide
    have hstrong : l.lower "strong".toList ∉ headings := by rw [lower_of_ascii (by decide)]; decide
    rw [hnode, if_pos hheading]
    simp only [boldParagraph, weight, if_neg hp, if_neg hstrong]
    omega

end

def cleanElement (l : Lowercase) (config : Config) (e : Element) (cleaned : List Node) :
    List Node :=
  let name := l.lower e.name
  if name ∈ config.elements then
    [.element e.name (cleanAttrs l config name e.attrs) cleaned]
  else
    let space := if name ∈ whitespaceElements then [Node.text [' ']] else []
    space ++
      if e.children.isEmpty then []
      else (if name ∈ removeContents then [] else cleaned) ++ space

def cleanNodes (l : Lowercase) (config : Config) : List Node → List Node
  | [] => []
  | .text t :: nodes => .text t :: cleanNodes l config nodes
  | .element name attrs children :: nodes =>
      (match _h : transform l config.transformers ⟨name, attrs, children⟩ with
      | .replace replacement => cleanNodes l config replacement
      | .keep e => cleanElement l config e (cleanNodes l config e.children)) ++
      cleanNodes l config nodes
termination_by nodes => weight l nodes
decreasing_by
  · simp only [weight]
    omega
  · have := weight_replace _h
    simp only [Element.node, weight] at this ⊢
    omega
  · have hchildren : e.children = children := by
      rcases transform_cases config.transformers ⟨name, attrs, children⟩ with
        ⟨attrs', h'⟩ | ⟨text, h'⟩ | ⟨-, attrs', h'⟩
      · cases _h.symm.trans h'
        rfl
      · cases _h.symm.trans h'
      · cases _h.symm.trans h'
    rw [hchildren]
    simp only [weight]
    omega
  · simp only [weight]
    omega

section
variable {l : Lowercase} {config : Config} {name : Text} {attrs : Attrs} {children : List Node}

theorem cleanNodes_replace {replacement : List Node}
    (h : transform l config.transformers ⟨name, attrs, children⟩ = .replace replacement)
    (nodes : List Node) :
    cleanNodes l config (.element name attrs children :: nodes) =
      cleanNodes l config replacement ++ cleanNodes l config nodes := by
  rw [cleanNodes]
  split
  · next h' => rw [h] at h'; cases h'; rfl
  · next h' => rw [h] at h'; cases h'

theorem cleanNodes_keep {e : Element}
    (h : transform l config.transformers ⟨name, attrs, children⟩ = .keep e) (nodes : List Node) :
    cleanNodes l config (.element name attrs children :: nodes) =
      cleanElement l config e (cleanNodes l config e.children) ++ cleanNodes l config nodes := by
  rw [cleanNodes]
  split
  · next h' => rw [h] at h'; cases h'
  · next h' => rw [h] at h'; cases h'; rfl

end

end Eunha.Sanitizer
