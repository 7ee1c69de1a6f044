import Eunha.Sanitizer
import Eunha.HtmlReadBack

/-!
# What the strict configuration lets through
-/
namespace Eunha.Sanitizer

open Html

variable {l : Lowercase}

/-! ### The transformers -/

/-- The element with its classes and its `translate` checked. -/
def checked (e : Element) : Element := translateTransformer (allowedClassTransformer e)

theorem checked_name (e : Element) : (checked e).name = e.name :=
  (translateTransformer_eq _).1.trans (allowedClassTransformer_eq e).1

theorem checked_children (e : Element) : (checked e).children = e.children :=
  (translateTransformer_eq _).2.trans (allowedClassTransformer_eq e).2

theorem transform_cons (t : Transformer) (transformers : List Transformer) (e : Element) :
    transform l (t :: transformers) e =
      match t.apply l e with
      | .keep e => transform l transformers e
      | .replace nodes => .replace nodes := rfl

theorem transform_strict (e : Element) :
    (transform l mastodonStrict.transformers e = .keep (checked e) ∧
      (l.lower e.name = "a".toList → supportedHref l (checked e).attrs = true)) ∨
    (∃ text, transform l mastodonStrict.transformers e = .replace [.text text]) ∨
    l.lower e.name ∈ headings ∧
      transform l mastodonStrict.transformers e = .replace [boldParagraph (checked e)] := by
  have hchecked : transform l mastodonStrict.transformers e =
      transform l [.math, .unsupportedElements, .unsupportedHref] (checked e) := rfl
  rw [hchecked, transform_cons, Transformer.apply]
  rcases mathTransformer_cases l (checked e) with h | ⟨-, text, h⟩
  · rw [h]
    simp only
    rw [transform_cons, Transformer.apply]
    rcases unsupportedElementsTransformer_cases l (checked e) with h | ⟨hheading, h⟩
    · rw [h]
      simp only
      rw [transform_cons, Transformer.apply]
      rcases unsupportedHrefTransformer_cases l (checked e) with ⟨h', hhref⟩ | ⟨text, h'⟩
      · rw [h']
        exact .inl ⟨rfl, by rwa [checked_name] at hhref⟩
      · rw [h']
        exact .inr (.inl ⟨text, rfl⟩)
    · rw [h]
      exact .inr (.inr ⟨by rwa [checked_name] at hheading, rfl⟩)
  · rw [h]
    exact .inr (.inl ⟨text, rfl⟩)

/-! ### The walk -/

/-- Every element not in an `svg` or a `math` is so. Inside of these names and
attributes need not be as the parser makes those of HTML. -/
def Outside (l : Lowercase) (P : Element → Prop) : List Node → Prop
  | [] => True
  | .text _ :: nodes => Outside l P nodes
  | .element name attrs children :: nodes =>
      (l.lower name ≠ "svg".toList ∧ l.lower name ≠ "math".toList →
        P ⟨name, attrs, children⟩ ∧ Outside l P children) ∧ Outside l P nodes

theorem Outside.and {P Q : Element → Prop} {nodes : List Node} (hP : Outside l P nodes)
    (hQ : Outside l Q nodes) : Outside l (fun e => P e ∧ Q e) nodes := by
  induction nodes using elements.induct with
  | case1 =>
      rw [Outside]
      trivial
  | case2 t nodes ih =>
      rw [Outside] at hP hQ ⊢
      exact ih hP hQ
  | case3 name attrs children nodes ihchildren ih =>
      rw [Outside] at hP hQ ⊢
      refine ⟨fun hname => ?_, ih hP.2 hQ.2⟩
      obtain ⟨hPhere, hPchildren⟩ := hP.1 hname
      obtain ⟨hQhere, hQchildren⟩ := hQ.1 hname
      exact ⟨⟨hPhere, hQhere⟩, ihchildren hPchildren hQchildren⟩

theorem elements_append (nodes more : List Node) :
    elements (nodes ++ more) = elements nodes ++ elements more := by
  induction nodes with
  | nil => simp [elements]
  | cons node nodes ih => cases node <;> simp [elements, ih]

theorem mem_elements_cleanElement {config : Config} {e e' : Element} {cleaned : List Node}
    (h : e' ∈ elements (cleanElement l config e cleaned)) :
    (l.lower e.name ∈ config.elements ∧
        (e' = ⟨e.name, cleanAttrs l config (l.lower e.name) e.attrs, cleaned⟩ ∨
          e' ∈ elements cleaned)) ∨
      l.lower e.name ∉ config.elements ∧ l.lower e.name ∉ removeContents ∧
        e' ∈ elements cleaned := by
  unfold cleanElement at h
  by_cases hallowed : l.lower e.name ∈ config.elements
  · simp only [if_pos hallowed, elements, List.append_nil, List.mem_cons] at h
    exact .inl ⟨hallowed, h⟩
  · have hspace : elements (if l.lower e.name ∈ whitespaceElements then [Node.text [' ']] else []) =
        [] := by split_ifs <;> simp [elements]
    simp only [if_neg hallowed] at h
    generalize (if l.lower e.name ∈ whitespaceElements then [Node.text [' ']] else []) = space
      at hspace h
    by_cases hempty : e.children.isEmpty = true
    · simp [hempty, hspace] at h
    · by_cases hremove : l.lower e.name ∈ removeContents
      · simp [hempty, hremove, elements_append, hspace] at h
      · rw [if_neg hempty, if_neg hremove, elements_append, elements_append, hspace,
          List.nil_append, List.append_nil] at h
        exact .inr ⟨hallowed, hremove, h⟩

theorem not_foreign_of_allowed {name : Text} (h : name ∈ mastodonStrict.elements) :
    name ≠ "svg".toList ∧ name ≠ "math".toList := by
  constructor <;> (rintro rfl; revert h; decide)

theorem not_foreign_of_heading {name : Text} (h : name ∈ headings) :
    name ≠ "svg".toList ∧ name ≠ "math".toList := by
  constructor <;> (rintro rfl; revert h; decide)

theorem not_foreign_of_kept {name : Text} (h : name ∉ removeContents) :
    name ≠ "svg".toList ∧ name ≠ "math".toList := by
  constructor <;> (rintro rfl; revert h; decide)

/-- What is let through of elements outside of `svg` and `math`, when a paragraph in place
of a heading is as they are. -/
theorem elements_cleanNodes {P Q : Element → Prop}
    (hbold : ∀ e, P e → P ⟨"strong".toList, (checked e).attrs, e.children⟩ ∧
      ∀ strong, P ⟨"p".toList, [], [strong]⟩)
    (hkept : ∀ e cleaned, P e → l.lower e.name ∈ mastodonStrict.elements →
      (l.lower e.name = "a".toList → supportedHref l (checked e).attrs = true) →
      (e.children = [] → cleaned = []) →
      Q ⟨e.name, cleanAttrs l mastodonStrict (l.lower e.name) (checked e).attrs, cleaned⟩)
    {nodes : List Node} (h : Outside l P nodes) :
    ∀ e ∈ elements (cleanNodes l mastodonStrict nodes), Q e := by
  induction nodes using cleanNodes.induct l mastodonStrict with
  | case1 => simp [cleanNodes, elements]
  | case2 t nodes ih =>
      rw [Outside] at h
      rw [cleanNodes, elements]
      exact ih h
  | case3 name attrs children nodes ihreplace ihkeep ih =>
      rw [Outside] at h
      obtain ⟨hhere, hrest⟩ := h
      intro e he
      rcases transform_strict (l := l) ⟨name, attrs, children⟩ with
        ⟨hkeep, hhref⟩ | ⟨text, hreplace⟩ | ⟨hheading, hreplace⟩
      · rw [cleanNodes_keep hkeep, elements_append, List.mem_append, checked_children] at he
        have ihkeep := ihkeep _ hkeep
        rw [checked_children] at ihkeep
        rcases he with he | he
        · rcases mem_elements_cleanElement he with ⟨hallowed, he⟩ | ⟨-, hremove, he⟩
          · rw [checked_name] at hallowed
            obtain ⟨hP, hchildren⟩ := hhere (not_foreign_of_allowed hallowed)
            rcases he with rfl | he
            · rw [checked_name]
              refine hkept _ _ hP hallowed hhref fun hnil => ?_
              rw [show children = [] from hnil, cleanNodes]
            · exact ihkeep hchildren e he
          · rw [checked_name] at hremove
            exact ihkeep (hhere (not_foreign_of_kept hremove)).2 e he
        · exact ih hrest e he
      · rw [cleanNodes_replace hreplace, elements_append, List.mem_append] at he
        rcases he with he | he
        · simp [cleanNodes, elements] at he
        · exact ih hrest e he
      · rw [cleanNodes_replace hreplace, elements_append, List.mem_append] at he
        rcases he with he | he
        · obtain ⟨hP, hchildren⟩ := hhere (not_foreign_of_heading hheading)
          obtain ⟨hstrong, hp⟩ := hbold _ hP
          refine ihreplace _ hreplace ?_ e he
          simp only [boldParagraph, Outside, checked_children, and_true]
          exact fun _ => ⟨hp _, fun _ => ⟨hstrong, hchildren⟩⟩
        · exact ih hrest e he

/-! ### Attributes -/

def ParsedAttrs (l : Lowercase) (attrs : Attrs) : Prop :=
  (attrs.map Prod.fst).Nodup ∧ ∀ a ∈ attrs, l.lower a.1 = a.1

theorem setAttr_keys (name value : Text) (attrs : Attrs) :
    (setAttr name value attrs).map Prod.fst =
      if name ∈ attrs.map Prod.fst then attrs.map Prod.fst else attrs.map Prod.fst ++ [name] := by
  induction attrs with
  | nil => rfl
  | cons a attrs ih =>
      by_cases ha : a.1 = name
      · simp [setAttr, ha]
      · simp only [setAttr, if_neg ha, List.map_cons, ih, List.mem_cons, Ne.symm ha, false_or]
        split_ifs <;> rfl

theorem nodup_setAttr (name value : Text) {attrs : Attrs} (h : (attrs.map Prod.fst).Nodup) :
    ((setAttr name value attrs).map Prod.fst).Nodup := by
  rw [setAttr_keys]
  split_ifs with hmem
  · exact h
  · refine List.nodup_append.mpr ⟨h, List.nodup_singleton _, ?_⟩
    rintro key hkey _ hname rfl
    exact hmem (List.mem_singleton.mp hname ▸ hkey)

theorem mem_setAttr {name value : Text} {attrs : Attrs} {a : Text × Text}
    (ha : a ∈ setAttr name value attrs) : a = (name, value) ∨ a ∈ attrs := by
  induction attrs with
  | nil => exact .inl (List.mem_singleton.mp ha)
  | cons b attrs ih =>
      unfold setAttr at ha
      split_ifs at ha with hb
      · rcases List.mem_cons.mp ha with rfl | ha
        · exact .inl (Prod.ext hb rfl)
        · exact .inr (List.mem_cons_of_mem _ ha)
      · rcases List.mem_cons.mp ha with rfl | ha
        · exact .inr (by simp)
        · exact (ih ha).imp_right (List.mem_cons_of_mem _)

theorem mem_setAttr_self (name value : Text) (attrs : Attrs) :
    (name, value) ∈ setAttr name value attrs := by
  induction attrs with
  | nil => simp [setAttr]
  | cons b attrs ih =>
      unfold setAttr
      split_ifs with hb
      · exact List.mem_cons.mpr (.inl (Prod.ext hb.symm rfl))
      · exact List.mem_cons_of_mem _ ih

theorem mem_setAttr_of_ne {name key other : Text} (value : Text) {attrs : Attrs}
    (ha : (key, other) ∈ attrs) (hname : key ≠ name) :
    (key, other) ∈ setAttr name value attrs := by
  induction attrs with
  | nil => cases ha
  | cons b attrs ih =>
      unfold setAttr
      rcases List.mem_cons.mp ha with rfl | ha
      · simp [hname]
      · split_ifs
        · exact List.mem_cons_of_mem _ ha
        · exact List.mem_cons_of_mem _ (ih ha)

theorem mem_of_attr {attrs : Attrs} {name value : Text} (h : attr attrs name = some value) :
    (name, value) ∈ attrs := by
  obtain ⟨⟨key, v⟩, hfind, rfl⟩ := Option.map_eq_some_iff.mp h
  have hkey := List.find?_some hfind
  rw [← of_decide_eq_true hkey]
  exact List.mem_of_find?_eq_some hfind

theorem eq_of_mem_nodup {attrs : Attrs} (h : (attrs.map Prod.fst).Nodup) {a b : Text × Text}
    (ha : a ∈ attrs) (hb : b ∈ attrs) (hname : a.1 = b.1) : a = b :=
  List.inj_on_of_nodup_map h ha hb hname

theorem allowedClassTransformer_attrs {e : Element} (h : (e.attrs.map Prod.fst).Nodup) :
    (allowedClassTransformer e).attrs.map Prod.fst = e.attrs.map Prod.fst ∧
      ∀ a ∈ (allowedClassTransformer e).attrs, (a ∈ e.attrs ∧ a.1 ≠ "class".toList) ∨
        ∃ classes, ("class".toList, classes) ∈ e.attrs ∧
          a = ("class".toList, keptClasses classes) := by
  unfold allowedClassTransformer
  split
  · next classes hclasses =>
      have hmem := mem_of_attr hclasses
      refine ⟨?_, fun a ha => ?_⟩
      · rw [setAttr_keys, if_pos (List.mem_map_of_mem hmem)]
      · by_cases hname : a.1 = "class".toList
        · exact .inr ⟨classes, hmem,
            eq_of_mem_nodup (nodup_setAttr _ _ h) ha (mem_setAttr_self _ _ _) hname⟩
        · rcases mem_setAttr ha with rfl | ha
          · exact (hname rfl).elim
          · exact .inl ⟨ha, hname⟩
  · next hnone =>
      refine ⟨rfl, fun a ha => .inl ⟨ha, fun hname => ?_⟩⟩
      have := List.find?_eq_none.mp (Option.map_eq_none_iff.mp hnone) a ha
      exact this (decide_eq_true hname)

theorem translateTransformer_attrs {e : Element} (h : (e.attrs.map Prod.fst).Nodup) :
    (translateTransformer e).attrs.Sublist e.attrs ∧
      ∀ a ∈ (translateTransformer e).attrs, a.1 = "translate".toList → a.2 = "no".toList := by
  unfold translateTransformer
  split
  · next value hvalue =>
      split_ifs with hno
      · refine ⟨List.filter_sublist, fun a ha hname => ?_⟩
        exact absurd hname (of_decide_eq_true (List.mem_filter.mp ha).2)
      · refine ⟨List.Sublist.refl _, fun a ha hname => ?_⟩
        rw [eq_of_mem_nodup h ha (mem_of_attr hvalue) hname]
        exact not_not.mp hno
  · next hnone =>
      refine ⟨List.Sublist.refl _, fun a ha hname => ?_⟩
      have := List.find?_eq_none.mp (Option.map_eq_none_iff.mp hnone) a ha
      exact absurd (decide_eq_true hname) this

/-- Checking keeps no other names, and the values but for those of `class`, of which it
keeps the allowed tokens; of `translate` it leaves a `no`. -/
theorem checked_attrs {e : Element} (h : (e.attrs.map Prod.fst).Nodup) :
    ((checked e).attrs.map Prod.fst).Sublist (e.attrs.map Prod.fst) ∧
      ∀ a ∈ (checked e).attrs, (a.1 = "translate".toList → a.2 = "no".toList) ∧
        ((a ∈ e.attrs ∧ a.1 ≠ "class".toList) ∨
          ∃ classes, ("class".toList, classes) ∈ e.attrs ∧
            a = ("class".toList, keptClasses classes)) := by
  obtain ⟨hkeys, hclass⟩ := allowedClassTransformer_attrs h
  obtain ⟨hsub, htranslate⟩ := translateTransformer_attrs (e := allowedClassTransformer e) (hkeys ▸ h)
  refine ⟨hkeys ▸ hsub.map Prod.fst, fun a ha => ⟨htranslate a ha, hclass a (hsub.subset ha)⟩⟩

theorem parsedAttrs_checked {e : Element} (h : ParsedAttrs l e.attrs) :
    ParsedAttrs l (checked e).attrs := by
  have hkeys := (checked_attrs h.1).1
  refine ⟨h.1.sublist hkeys, fun a ha => ?_⟩
  obtain ⟨b, hb, hname⟩ := List.mem_map.mp (hkeys.subset (List.mem_map_of_mem ha))
  rw [← hname, h.2 b hb]

/-! ### Classes -/

theorem mem_of_mem_splitOnP {p : Char → Bool} {text piece : Text} (h : piece ∈ text.splitOnP p)
    {c : Char} (hc : c ∈ piece) : c ∈ text ∧ p c = false := by
  induction text generalizing piece with
  | nil =>
      rw [List.splitOnP_nil, List.mem_singleton] at h
      rw [h] at hc
      cases hc
  | cons d text ih =>
      rw [List.splitOnP_cons_eq_if_modifyHead] at h
      split_ifs at h with hd
      · rcases List.mem_cons.mp h with rfl | h
        · cases hc
        · exact ⟨List.mem_cons_of_mem _ (ih h hc).1, (ih h hc).2⟩
      · cases hpieces : text.splitOnP p with
        | nil => exact absurd hpieces (List.splitOnP_ne_nil p text)
        | cons first pieces =>
            rw [hpieces, List.modifyHead_cons] at h
            rw [hpieces] at ih
            rcases List.mem_cons.mp h with rfl | h
            · rcases List.mem_cons.mp hc with rfl | hc
              · exact ⟨by simp, by simpa using hd⟩
              · have := ih (by simp) hc
                exact ⟨List.mem_cons_of_mem _ this.1, this.2⟩
            · have := ih (List.mem_cons_of_mem _ h) hc
              exact ⟨List.mem_cons_of_mem _ this.1, this.2⟩

theorem splitOnP_intercalate {p : Char → Bool} {sep : Char} (hsep : p sep = true)
    {tokens : List Text} (hne : tokens ≠ []) (h : ∀ token ∈ tokens, ∀ c ∈ token, p c = false) :
    ([sep].intercalate tokens).splitOnP p = tokens := by
  induction tokens with
  | nil => exact (hne rfl).elim
  | cons token tokens ih =>
      cases tokens with
      | nil =>
          rw [List.intercalate_singleton]
          exact List.splitOnP_eq_singleton (h token (by simp))
      | cons other tokens =>
          rw [List.intercalate_cons_cons, List.append_assoc, List.singleton_append,
            List.splitOnP_append_cons_of_forall_mem (h token (by simp)) sep hsep,
            ih (List.cons_ne_nil _ _) fun token ht => h token (List.mem_cons_of_mem _ ht)]

theorem allowed_of_mem_keptClasses {classes token : Text}
    (h : token ∈ (keptClasses classes).splitOnP isSpace) (hne : token ≠ []) :
    allowedClass token = true := by
  unfold keptClasses at h
  by_cases hnil : (classes.splitOnP isSpace).filter allowedClass = []
  · rw [hnil, List.intercalate_nil, List.splitOnP_nil, List.mem_singleton] at h
    exact (hne h).elim
  · rw [splitOnP_intercalate (by decide) hnil] at h
    · exact (List.mem_filter.mp h).2
    · exact fun token ht c hc => (mem_of_mem_splitOnP (List.mem_filter.mp ht).1 hc).2

theorem mem_of_mem_keptClasses {classes : Text} {c : Char} (h : c ∈ keptClasses classes) :
    c ∈ classes ∨ c = ' ' := by
  have hjoin : ∀ {tokens : List Text}, c ∈ [' '].intercalate tokens →
      (∃ token ∈ tokens, c ∈ token) ∨ c = ' ' := by
    intro tokens hc
    induction tokens with
    | nil => simp at hc
    | cons token tokens ih =>
        cases tokens with
        | nil => exact .inl ⟨token, by simp, by simpa using hc⟩
        | cons other tokens =>
            rw [List.intercalate_cons_cons, List.mem_append, List.mem_append,
              List.mem_singleton] at hc
            rcases hc with (hc | hc) | hc
            · exact .inl ⟨token, by simp, hc⟩
            · exact .inr hc
            · rcases ih hc with ⟨t, ht, hc⟩ | hc
              · exact .inl ⟨t, List.mem_cons_of_mem _ ht, hc⟩
              · exact .inr hc
  rcases hjoin h with ⟨token, ht, hc⟩ | hc
  · exact .inl (mem_of_mem_splitOnP (List.mem_filter.mp ht).1 hc).1
  · exact .inr hc

/-! ### What is let through -/

theorem filterMap_retainAttr (name : Text) (attrs : Attrs) :
    attrs.filterMap (retainAttr l mastodonStrict name) =
      attrs.filter fun a => mastodonStrict.allowsAttribute name (l.lower a.1) := by
  rw [← List.filterMap_eq_filter]
  refine List.filterMap_congr fun a _ => ?_
  have hprotocols : mastodonStrict.protocols = [] := rfl
  by_cases hallows : mastodonStrict.allowsAttribute name (l.lower a.1) = true <;>
    simp [retainAttr, Option.guard, hallows, hprotocols]

theorem mem_setAll {added kept : Attrs} {a : Text × Text}
    (h : a ∈ added.foldl (fun attrs (key, value) => setAttr key value attrs) kept) :
    a ∈ added ∨ a ∈ kept := by
  induction added generalizing kept with
  | nil => exact .inr h
  | cons b added ih =>
      rcases ih h with ha | ha
      · exact .inl (List.mem_cons_of_mem _ ha)
      · rcases mem_setAttr ha with rfl | ha
        · exact .inl (by simp)
        · exact .inr ha

theorem nodup_setAll {added kept : Attrs} (h : (kept.map Prod.fst).Nodup) :
    ((added.foldl (fun attrs (key, value) => setAttr key value attrs) kept).map Prod.fst).Nodup := by
  induction added generalizing kept with
  | nil => exact h
  | cons b added ih => exact ih (nodup_setAttr _ _ h)

theorem mem_cleanAttrs {name : Text} {attrs : Attrs} {a : Text × Text}
    (h : a ∈ cleanAttrs l mastodonStrict name attrs) :
    a ∈ addedAttrs mastodonStrict name ∨
      a ∈ attrs ∧ mastodonStrict.allowsAttribute name (l.lower a.1) = true := by
  rcases mem_setAll h with h | h
  · exact .inl h
  · rw [filterMap_retainAttr] at h
    exact .inr (List.mem_filter.mp h)

theorem nodup_cleanAttrs {name : Text} {attrs : Attrs} (h : (attrs.map Prod.fst).Nodup) :
    ((cleanAttrs l mastodonStrict name attrs).map Prod.fst).Nodup := by
  refine nodup_setAll ?_
  rw [filterMap_retainAttr]
  exact h.sublist (List.filter_sublist.map Prod.fst)

/-- An element as the strict configuration lets it through. -/
structure Safe (l : Lowercase) (e : Element) : Prop where
  name : l.lower e.name ∈ mastodonStrict.elements
  attrs : ∀ a ∈ e.attrs, mastodonStrict.allowsAttribute (l.lower e.name) a.1 = true ∨
    a ∈ addedAttrs mastodonStrict (l.lower e.name)
  keys : (e.attrs.map Prod.fst).Nodup
  link : l.lower e.name = "a".toList →
    (∃ href, ("href".toList, href) ∈ e.attrs ∧
      ∃ protocol ∈ linkProtocols, protocolOf l href = some protocol) ∧
    ("rel".toList, "nofollow noopener".toList) ∈ e.attrs ∧
    ("target".toList, "_blank".toList) ∈ e.attrs
  classes : ∀ classes, ("class".toList, classes) ∈ e.attrs →
    ∀ token ∈ classes.splitOnP isSpace, token ≠ [] → allowedClass token = true
  translate : ∀ value, ("translate".toList, value) ∈ e.attrs → value = "no".toList

theorem added_cases {name : Text} {a : Text × Text} (h : a ∈ addedAttrs mastodonStrict name) :
    name = "a".toList ∧ (a = ("rel".toList, "nofollow noopener".toList) ∨
      a = ("target".toList, "_blank".toList)) := by
  unfold addedAttrs mastodonStrict at h
  simp only [List.lookup_cons, List.lookup_nil] at h
  split at h
  · next heq => exact ⟨by simpa using heq, by simpa using h⟩
  · cases h

theorem cleanAttrs_link (attrs : Attrs) :
    cleanAttrs l mastodonStrict "a".toList attrs =
      setAttr "target".toList "_blank".toList (setAttr "rel".toList "nofollow noopener".toList
        (attrs.filterMap (retainAttr l mastodonStrict "a".toList))) :=
  rfl

theorem safe_cleaned {e : Element} (hattrs : ParsedAttrs l e.attrs)
    (hallowed : l.lower e.name ∈ mastodonStrict.elements)
    (hhref : l.lower e.name = "a".toList → supportedHref l (checked e).attrs = true)
    (cleaned : List Node) :
    Safe l ⟨e.name, cleanAttrs l mastodonStrict (l.lower e.name) (checked e).attrs, cleaned⟩ := by
  obtain ⟨hnodup, hlower⟩ := parsedAttrs_checked hattrs
  have hvalues := (checked_attrs hattrs.1).2
  refine ⟨hallowed, ?_, nodup_cleanAttrs hnodup, ?_, ?_, ?_⟩
  · intro a ha
    rcases mem_cleanAttrs ha with ha | ⟨ha, hallows⟩
    · exact .inr ha
    · exact .inl (hlower a ha ▸ hallows)
  · intro hlink
    obtain ⟨protocol, hprotocol, hlisted⟩ := (Option.any_eq_true _ _).mp (hhref hlink)
    obtain ⟨href, hattr, hprotocol⟩ := Option.bind_eq_some_iff.mp hprotocol
    have hmem := mem_of_attr hattr
    have hkept : ("href".toList, href) ∈
        (checked e).attrs.filterMap (retainAttr l mastodonStrict "a".toList) := by
      rw [filterMap_retainAttr]
      exact List.mem_filter.mpr ⟨hmem, by rw [hlower _ hmem]; rfl⟩
    rw [show l.lower e.name = "a".toList from hlink, cleanAttrs_link]
    refine ⟨⟨href, ?_, protocol, by simpa using hlisted, hprotocol⟩, ?_, mem_setAttr_self _ _ _⟩
    · exact mem_setAttr_of_ne _ (mem_setAttr_of_ne _ hkept (by decide)) (by decide)
    · exact mem_setAttr_of_ne _ (mem_setAttr_self _ _ _) (by decide)
  · intro classes hclasses
    rcases mem_cleanAttrs hclasses with ha | ⟨ha, -⟩
    · rcases (added_cases ha).2 with h | h <;> cases h
    · rcases (hvalues _ ha).2 with ⟨-, hname⟩ | ⟨raw, -, heq⟩
      · exact (hname rfl).elim
      · rw [(Prod.mk.inj heq).2]
        exact fun token ht hne => allowed_of_mem_keptClasses ht hne
  · intro value hvalue
    rcases mem_cleanAttrs hvalue with ha | ⟨ha, -⟩
    · rcases (added_cases ha).2 with h | h <;> cases h
    · exact (hvalues _ ha).1 rfl

theorem safe_of_mem_cleanNodes {nodes : List Node}
    (h : Outside l (fun e => ParsedAttrs l e.attrs) nodes) :
    ∀ e ∈ elements (cleanNodes l mastodonStrict nodes), Safe l e := by
  refine elements_cleanNodes ?_ ?_ h
  · exact fun e he => ⟨parsedAttrs_checked he, fun _ => ⟨List.nodup_nil, by simp⟩⟩
  · exact fun e cleaned he hallowed hhref _ => safe_cleaned he hallowed hhref cleaned

/-! ### What is written -/

/-- As the parser makes an element of HTML: no capitals in its name, nothing in it if it
is void, and no nulls. -/
structure Parsed (e : Element) : Prop where
  name : ∀ c ∈ e.name, c.isUpper = false
  void : e.name ∈ voidElements → e.children = []
  values : ∀ a ∈ e.attrs, '\x00' ∉ a.2

theorem toLower_of_not_upper {c : Char} (h : c.isUpper = false) : c.toLower = c :=
  dif_neg (of_decide_eq_false h)

theorem nameChar_of_letter {c : Char} (hupper : c.isUpper = false)
    (h : ('a' ≤ c ∧ c ≤ 'z') ∨ 128 ≤ c.toNat) :
    HtmlTokens.isSpace c = false ∧ c ≠ '/' ∧ c ≠ '>' ∧ HtmlTokens.nameChar c = c := by
  have hne : ∀ d, ¬(('a' ≤ d ∧ d ≤ 'z') ∨ 128 ≤ d.toNat) → c ≠ d := by
    rintro d hd rfl
    exact hd h
  refine ⟨?_, hne '/' (by decide), hne '>' (by decide), ?_⟩
  · simp [HtmlTokens.isSpace, hne '\t' (by decide), hne '\n' (by decide), hne '\x0c' (by decide),
      hne ' ' (by decide)]
  · rw [HtmlTokens.nameChar, if_neg (hne '\x00' (by decide)), toLower_of_not_upper hupper]

theorem mem_lower {text : Text} {c : Char} (hc : c ∈ text) (hascii : c.toNat < 128) :
    c.toLower ∈ l.lower text := by
  have hfrom : ∀ before, c.toLower ∈ l.lowerFrom before text := by
    induction text with
    | nil => cases hc
    | cons d text ih =>
        intro before
        rw [Lowercase.lowerFrom, List.mem_append]
        rcases List.mem_cons.mp hc with rfl | hc
        · rw [Lowercase.lowerChar, if_pos hascii]
          exact .inl (List.mem_singleton_self _)
        · exact .inr (ih hc _)
  exact hfrom []

theorem allowed_letters : ∀ name ∈ mastodonStrict.elements,
    (∀ c ∈ name, 'a' ≤ c ∧ c ≤ 'z') ∧ name ≠ [] ∧ name.head? ≠ some 'k' := by
  decide

theorem tagName_of_allowed {name : Text} (hname : ∀ c ∈ name, c.isUpper = false)
    (hallowed : l.lower name ∈ mastodonStrict.elements) : HtmlTokens.TagName name := by
  obtain ⟨hletters, hne, hfirst⟩ := allowed_letters _ hallowed
  have hchars : ∀ c ∈ name, ('a' ≤ c ∧ c ≤ 'z') ∨ 128 ≤ c.toNat := by
    intro c hc
    by_cases hascii : c.toNat < 128
    · have hmem := mem_lower (l := l) hc hascii
      rw [toLower_of_not_upper (hname c hc)] at hmem
      exact .inl (hletters c hmem)
    · exact .inr (Nat.not_lt.mp hascii)
  refine ⟨fun c hc => nameChar_of_letter (hname c hc) (hchars c hc), ?_⟩
  cases name with
  | nil => exact (hne rfl).elim
  | cons c rest =>
      refine ⟨c, rest, rfl, ?_⟩
      rcases hchars c (by simp) with ⟨hlow, hhigh⟩ | hbeyond
      · have hlower : c.isLower = true := by
          show (c.val ≥ 'a'.val && c.val ≤ 'z'.val) = true
          rw [Bool.and_eq_true, decide_eq_true_eq, decide_eq_true_eq]
          exact ⟨hlow, hhigh⟩
        show (c.isUpper || c.isLower) = true
        rw [hlower, Bool.or_true]
      · -- Beyond ASCII it would be the Kelvin sign, and no allowed name starts with `k`.
        have hlower : l.lower (c :: rest) = l.map [] c rest ++ l.lowerFrom [c] rest := by
          rw [Lowercase.lower, Lowercase.lowerFrom, Lowercase.lowerChar,
            if_neg (Nat.not_lt.mpr hbeyond)]
          rfl
        rw [hlower] at hletters hfirst
        rcases l.beyond [] c rest hbeyond with ⟨d, hd, hbeyond⟩ | ⟨-, hk⟩
        · have hz : d ≤ 'z' := (hletters d (List.mem_append_left _ hd)).2
          have : d.toNat ≤ 'z'.toNat := hz
          exact absurd (Nat.le_trans hbeyond this) (by decide)
        · rw [hk] at hfirst
          exact (hfirst rfl).elim

theorem not_raw_of_allowed {name : Text} (hallowed : l.lower name ∈ mastodonStrict.elements) :
    name ∉ rawTextElements := by
  have hraw : ∀ name ∈ rawTextElements, (∀ c ∈ name, c.toNat < 128) ∧
      name.map Char.toLower ∉ mastodonStrict.elements := by decide
  intro hmem
  obtain ⟨hascii, hlower⟩ := hraw name hmem
  rw [lower_of_ascii hascii] at hallowed
  exact hlower hallowed

theorem attributeKey_of_allowed {name key : Text}
    (h : mastodonStrict.allowsAttribute name key = true) : HtmlTokens.AttributeKey key := by
  have hkeys : ∀ entry ∈ mastodonStrict.attributes, ∀ key ∈ entry.2,
      HtmlTokens.AttributeKey key := by
    unfold HtmlTokens.AttributeKey HtmlTokens.NameText
    decide
  obtain ⟨entry, hentry, hkey⟩ := List.any_eq_true.mp h
  simp only [Bool.and_eq_true, List.contains_iff_mem] at hkey
  exact hkeys entry hentry key hkey.2

theorem not_null_of_checked {e : Element} (hattrs : ParsedAttrs l e.attrs) (hparsed : Parsed e) :
    ∀ a ∈ (checked e).attrs, '\x00' ∉ a.2 := by
  intro a ha hnull
  rcases ((checked_attrs hattrs.1).2 a ha).2 with ⟨ha, -⟩ | ⟨classes, hclasses, rfl⟩
  · exact hparsed.values a ha hnull
  · rcases mem_of_mem_keptClasses hnull with hnull | hspace
    · exact hparsed.values _ hclasses hnull
    · cases hspace

theorem parsed_bold {name : Text} (hname : name = "strong".toList ∨ name = "p".toList)
    {attrs : Attrs} (hvalues : ∀ a ∈ attrs, '\x00' ∉ a.2) (children : List Node) :
    Parsed ⟨name, attrs, children⟩ := by
  have hchars : (∀ c ∈ name, c.isUpper = false) ∧ name ∉ voidElements := by
    rcases hname with rfl | rfl <;> decide
  exact ⟨hchars.1, fun h => (hchars.2 h).elim, hvalues⟩

theorem writable_cleaned {e : Element} (hattrs : ParsedAttrs l e.attrs) (hparsed : Parsed e)
    (hallowed : l.lower e.name ∈ mastodonStrict.elements)
    (hhref : l.lower e.name = "a".toList → supportedHref l (checked e).attrs = true)
    {cleaned : List Node} (hcleaned : e.children = [] → cleaned = []) :
    Writable ⟨e.name, cleanAttrs l mastodonStrict (l.lower e.name) (checked e).attrs, cleaned⟩ := by
  have hsafe := safe_cleaned hattrs hallowed hhref cleaned
  refine ⟨tagName_of_allowed hparsed.name hallowed, ?_, hsafe.keys, ?_, not_raw_of_allowed hallowed,
    fun hvoid => hcleaned (hparsed.void hvoid)⟩
  · intro a ha
    rcases hsafe.attrs a ha with hallows | hadded
    · exact attributeKey_of_allowed hallows
    · unfold HtmlTokens.AttributeKey HtmlTokens.NameText
      rcases (added_cases hadded).2 with rfl | rfl <;> decide
  · intro a ha hnull
    rcases mem_cleanAttrs ha with hadded | ⟨ha, -⟩
    · rcases (added_cases hadded).2 with rfl | rfl <;> exact absurd hnull (by decide)
    · exact not_null_of_checked hattrs hparsed a ha hnull

/-- The strict configuration lets only safe elements through, and of a tree as the parser
makes it what is serialized is read back as it is. -/
theorem strict_is_safe (l : Lowercase) (nodes : List Node)
    (hattrs : Outside l (fun e => ParsedAttrs l e.attrs) nodes) :
    (∀ e ∈ elements (cleanNodes l mastodonStrict nodes), Safe l e) ∧
    (Outside l Parsed nodes →
      read (serialize (cleanNodes l mastodonStrict nodes)) =
        some (merge (cleanNodes l mastodonStrict nodes))) := by
  refine ⟨safe_of_mem_cleanNodes hattrs, fun hparsed => read_serialize ?_⟩
  refine elements_cleanNodes (fun e he => ?_) ?_ (hattrs.and hparsed)
  · obtain ⟨hattrs, hparsed⟩ := he
    exact ⟨⟨parsedAttrs_checked hattrs, parsed_bold (.inl rfl) (not_null_of_checked hattrs hparsed) _⟩,
      fun strong => ⟨⟨List.nodup_nil, by simp⟩, parsed_bold (.inr rfl) (by simp) _⟩⟩
  · exact fun e cleaned he hallowed hhref hcleaned =>
      writable_cleaned he.1 he.2 hallowed hhref hcleaned

def kelvinLower : Lowercase where
  map := fun _ c _ => if c = '\u212a' then ['k'] else [c]
  beyond := by
    intro before c after hc
    by_cases hkelvin : c = '\u212a'
    · exact .inr ⟨hkelvin, if_pos hkelvin⟩
    · exact .inl ⟨c, by simp [hkelvin], hc⟩

def headingTree : List Node :=
  [.element "h2".toList [] [.element "a".toList [("href".toList, "https://a.example/?b&c".toList),
    ("class".toList, "mention evil".toList)] [.text "<b>".toList]],
  .element "svg".toList [("viewBox".toList, "0 0 1 1".toList)] []]

theorem strict_is_safe_heading :
    (∀ e ∈ elements (cleanNodes kelvinLower mastodonStrict headingTree), Safe kelvinLower e) ∧
    read (serialize (cleanNodes kelvinLower mastodonStrict headingTree)) =
      some (merge (cleanNodes kelvinLower mastodonStrict headingTree)) := by
  have hsvg : kelvinLower.lower "svg".toList = "svg".toList := by decide
  have hattrs : Outside kelvinLower (fun e => ParsedAttrs kelvinLower e.attrs) headingTree := by
    simp only [headingTree, Outside, and_true]
    refine ⟨fun _ => ⟨?_, fun _ => ?_⟩, fun hname => (hname.1 hsvg).elim⟩
    · unfold ParsedAttrs
      decide
    · unfold ParsedAttrs
      decide
  have hparsed : Outside kelvinLower Parsed headingTree := by
    simp only [headingTree, Outside, and_true]
    refine ⟨fun _ => ⟨⟨by decide, fun h => absurd h (by decide), by decide⟩, fun _ =>
      ⟨by decide, fun h => absurd h (by decide), by decide⟩⟩, fun hname => (hname.1 hsvg).elim⟩
  obtain ⟨hsafe, hread⟩ := strict_is_safe kelvinLower headingTree hattrs
  exact ⟨hsafe, hread hparsed⟩

/-! ### Trees the parser does not make -/

def lone (name : Text) (attrs : Attrs) (t : Text) : List Node := [.element name attrs [.text t]]

theorem cleanNodes_lone {name : Text} {attrs : Attrs} {t : Text}
    (hkeep : transform l mastodonStrict.transformers ⟨name, attrs, [.text t]⟩ =
      .keep ⟨name, attrs, [.text t]⟩)
    (hclean : cleanElement l mastodonStrict ⟨name, attrs, [.text t]⟩ [.text t] = lone name attrs t) :
    cleanNodes l mastodonStrict (lone name attrs t) = lone name attrs t := by
  have htext : cleanNodes l mastodonStrict [.text t] = [.text t] := by rw [cleanNodes, cleanNodes]
  rw [lone, cleanNodes_keep hkeep, htext, hclean, cleanNodes]
  rfl

theorem serialize_lone {name : Text} (attrs : Attrs) (t : Text) (h : name ∉ rawTextElements) :
    serialize (lone name attrs t) =
      '<' :: (name ++ (writeAttrs attrs ++ ['>'])) ++
        (if name ∈ voidElements then []
        else (if addsNewline name [.text t] then ['\n'] else []) ++
          (escapeText t ++ '<' :: '/' :: (name ++ ['>']))) := by
  simp [lone, serialize, serializeInto, h]

theorem outside_lone {name : Text} {attrs : Attrs} (h : ParsedAttrs l attrs) (t : Text) :
    Outside l (fun e => ParsedAttrs l e.attrs) (lone name attrs t) := by
  simp only [lone, Outside, and_true]
  exact fun _ => h

/-- A text in a line break, a capital, a null and a line feed first in a preformatted text
are not read as they are, and a Kelvin sign is let through for the letter. -/
theorem strict_alters_trees :
    let clean := cleanNodes kelvinLower mastodonStrict
    let misread := [("br".toList, [], ['x']), ("B".toList, [], ['x']),
      ("span".toList, [("lang".toList, ['\x00'])], ['x']), ("pre".toList, [], ['\n', 'x'])]
    (∀ e ∈ misread,
      Outside kelvinLower (fun e => ParsedAttrs kelvinLower e.attrs) (lone e.1 e.2.1 e.2.2) ∧
      read (serialize (clean (lone e.1 e.2.1 e.2.2))) ≠ some (clean (lone e.1 e.2.1 e.2.2))) ∧
    Outside kelvinLower (fun e => ParsedAttrs kelvinLower e.attrs)
      (lone "bloc\u212aquote".toList [] ['x']) ∧
    ∃ e ∈ elements (clean (lone "bloc\u212aquote".toList [] ['x'])),
      e.name ∉ mastodonStrict.elements := by
  intro clean misread
  have hattrs : ParsedAttrs kelvinLower [] := ⟨List.nodup_nil, by simp⟩
  refine ⟨?_, outside_lone hattrs _, ?_⟩
  · simp only [misread, List.forall_mem_cons, List.not_mem_nil, false_imp_iff, implies_true,
      and_true]
    refine ⟨⟨outside_lone hattrs _, ?_⟩, ⟨outside_lone hattrs _, ?_⟩,
      ⟨outside_lone ⟨by decide, by decide⟩ _, ?_⟩, outside_lone hattrs _, ?_⟩
    · rw [show clean _ = _ from cleanNodes_lone rfl rfl, serialize_lone _ _ (by decide)]
      intro h
      cases h
    · rw [show clean _ = _ from cleanNodes_lone rfl rfl, serialize_lone _ _ (by decide)]
      intro h
      cases h
    · rw [show clean _ = _ from cleanNodes_lone rfl rfl, serialize_lone _ _ (by decide)]
      intro h
      cases h
    · rw [show clean _ = _ from cleanNodes_lone rfl rfl, serialize_lone _ _ (by decide)]
      intro h
      cases h
  · rw [show clean _ = _ from cleanNodes_lone rfl rfl]
    refine ⟨⟨"bloc\u212aquote".toList, [], [.text ['x']]⟩, ?_, by decide⟩
    simp [lone, elements]

end Eunha.Sanitizer
