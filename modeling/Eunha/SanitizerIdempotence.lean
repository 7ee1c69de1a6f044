import Eunha.SanitizerSafety
import Mathlib.Data.List.DropRight

/-!
# Cleaning what is clean

What a configuration lets through comes out of another cleaning as it is: no transformer
changes it, and of its attributes each is retained and those that are added are there. Those
added come last, where they are not attributes that are retained, so that the order is kept.
-/
namespace Eunha.Sanitizer

open Html

variable {l : Lowercase} {config : Config}

/-! ### Attributes set again -/

theorem setAttr_of_mem {name value : Text} {attrs : Attrs} (hkeys : (attrs.map Prod.fst).Nodup)
    (h : (name, value) ∈ attrs) : setAttr name value attrs = attrs := by
  induction attrs with
  | nil => cases h
  | cons b attrs ih =>
      rw [List.map_cons, List.nodup_cons] at hkeys
      cases List.mem_cons.mp h with
      | inl hb =>
          rw [← hb, setAttr, if_pos rfl]
      | inr hrest =>
          have hne : b.1 ≠ name := fun heq =>
            hkeys.1 (heq ▸ List.mem_map_of_mem (f := Prod.fst) hrest)
          rw [setAttr, if_neg hne, ih hkeys.2 hrest]

theorem setAttr_of_not_mem {name : Text} (value : Text) {attrs : Attrs}
    (h : name ∉ attrs.map Prod.fst) : setAttr name value attrs = attrs ++ [(name, value)] := by
  induction attrs with
  | nil => rfl
  | cons b attrs ih =>
      rw [List.map_cons, List.mem_cons, not_or] at h
      rw [setAttr, if_neg (Ne.symm h.1), ih h.2, List.cons_append]

theorem attr_of_mem {name value : Text} {attrs : Attrs} (hkeys : (attrs.map Prod.fst).Nodup)
    (h : (name, value) ∈ attrs) : attr attrs name = some value := by
  induction attrs with
  | nil => cases h
  | cons b attrs ih =>
      rw [List.map_cons, List.nodup_cons] at hkeys
      cases List.mem_cons.mp h with
      | inl hb => simp [attr, ← hb]
      | inr hrest =>
          have hne : b.1 ≠ name := fun heq =>
            hkeys.1 (heq ▸ List.mem_map_of_mem (f := Prod.fst) hrest)
          have hattr : attr (b :: attrs) name = attr attrs name := by simp [attr, hne]
          rw [hattr, ih hkeys.2 hrest]

theorem filterMap_retainAttr_self {name : Text} {attrs : Attrs}
    (h : ∀ a ∈ attrs, retainAttr l config name a = some a) :
    attrs.filterMap (retainAttr l config name) = attrs := by
  rw [List.filterMap_congr h, List.filterMap_some]

/-! ### What comes out as it went in -/

/-- An element the transformers and the cleaning of its attributes leave as it is. -/
structure Settled (l : Lowercase) (config : Config) (e : Element) : Prop where
  kept : transform l config.transformers e = .keep e
  allowed : l.lower e.name ∈ config.elements
  attrs : cleanAttrs l config (l.lower e.name) e.attrs = e.attrs

theorem cleanNodes_of_settled {nodes : List Node} (h : ∀ e ∈ elements nodes, Settled l config e) :
    cleanNodes l config nodes = nodes := by
  induction nodes using elements.induct with
  | case1 => rw [cleanNodes]
  | case2 t nodes ih =>
      rw [elements] at h
      rw [cleanNodes, ih h]
  | case3 name attrs children nodes ihchildren ih =>
      simp only [elements, List.mem_cons, List.mem_append] at h
      have hhere := h ⟨name, attrs, children⟩ (.inl rfl)
      have hchildren := ihchildren fun e he => h e (.inr (.inl he))
      have hnodes := ih fun e he => h e (.inr (.inr he))
      rw [cleanNodes_keep hhere.kept, hnodes, cleanElement, if_pos hhere.allowed, hhere.attrs]
      simp only [hchildren, List.singleton_append]

/-! ### The strict configuration -/

theorem keptClasses_keptClasses (classes : Text) :
    keptClasses (keptClasses classes) = keptClasses classes := by
  have hsplit : ((keptClasses classes).splitOnP isSpace).filter allowedClass =
      (classes.splitOnP isSpace).filter allowedClass := by
    by_cases hnil : (classes.splitOnP isSpace).filter allowedClass = []
    · rw [keptClasses, hnil]
      decide
    · rw [keptClasses, splitOnP_intercalate (by decide) hnil, List.filter_filter]
      · simp only [Bool.and_self]
      · exact fun token ht c hc => (mem_of_mem_splitOnP (List.mem_filter.mp ht).1 hc).2
  rw [keptClasses, hsplit, keptClasses]

/-- With its classes kept already and no `translate` but `no`, an element is left as it is. -/
theorem checked_eq_self {e : Element} (hkeys : (e.attrs.map Prod.fst).Nodup)
    (hclasses : ∀ classes, ("class".toList, classes) ∈ e.attrs → keptClasses classes = classes)
    (htranslate : ∀ value, ("translate".toList, value) ∈ e.attrs → value = "no".toList) :
    checked e = e := by
  have hclass : allowedClassTransformer e = e := by
    unfold allowedClassTransformer
    split
    · rename_i classes hattr
      have hmem := mem_of_attr hattr
      rw [hclasses classes hmem, setAttr_of_mem hkeys hmem]
    · rfl
  rw [checked, hclass, translateTransformer]
  split
  · rename_i value hattr
    rw [if_neg (not_not.mpr (htranslate value (mem_of_attr hattr)))]
  · rfl

theorem transform_of_safe {e : Element} (h : Safe l e)
    (hclasses : ∀ classes, ("class".toList, classes) ∈ e.attrs → keptClasses classes = classes) :
    transform l mastodonStrict.transformers e = .keep e := by
  have hchecked := checked_eq_self h.keys hclasses h.translate
  have hmath : l.lower e.name ≠ "math".toList := (not_foreign_of_allowed h.name).2
  have hheading : l.lower e.name ∉ headings := by
    have hnone : ∀ name ∈ mastodonStrict.elements, name ∉ headings := by decide
    exact hnone _ h.name
  have hhref : unsupportedHrefTransformer l e = .keep e := by
    rw [unsupportedHrefTransformer]
    by_cases hname : l.lower e.name = "a".toList
    · obtain ⟨⟨href, hmem, protocol, hlisted, hprotocol⟩, _⟩ := h.link hname
      have hsupported : supportedHref l e.attrs = true := by
        rw [supportedHref, attr_of_mem h.keys hmem, Option.bind_some, hprotocol]
        simpa using hlisted
      rw [if_neg (not_not.mpr hname), if_pos hsupported]
    · rw [if_pos hname]
  have hstart : transform l mastodonStrict.transformers e =
      transform l [.math, .unsupportedElements, .unsupportedHref] (checked e) := rfl
  rw [hstart, hchecked]
  simp only [transform, Transformer.apply, mathTransformer, if_pos hmath,
    unsupportedElementsTransformer, if_neg hheading, hhref]

theorem retainAttr_strict {name : Text} {a : Text × Text}
    (h : mastodonStrict.allowsAttribute name (l.lower a.1) = true) :
    retainAttr l mastodonStrict name a = some a := by
  have hprotocols : mastodonStrict.protocols = [] := rfl
  simp [retainAttr, h, hprotocols]

theorem lower_rel : l.lower "rel".toList = "rel".toList := by
  rw [lower_of_ascii (by decide)]
  decide

theorem lower_target : l.lower "target".toList = "target".toList := by
  rw [lower_of_ascii (by decide)]
  decide

/-- The attributes of a link: what is retained, with `rel` set in its place or after them,
and `target` last. -/
theorem cleanAttrs_link_twice {attrs : Attrs} (h : ParsedAttrs l attrs) :
    cleanAttrs l mastodonStrict "a".toList (cleanAttrs l mastodonStrict "a".toList attrs) =
      cleanAttrs l mastodonStrict "a".toList attrs := by
  have hkept : ∀ a ∈ attrs.filterMap (retainAttr l mastodonStrict "a".toList),
      mastodonStrict.allowsAttribute "a".toList (l.lower a.1) = true ∧ l.lower a.1 = a.1 := by
    intro a ha
    rw [filterMap_retainAttr] at ha
    exact ⟨(List.mem_filter.mp ha).2, h.2 a (List.mem_filter.mp ha).1⟩
  have hnodup : ((attrs.filterMap (retainAttr l mastodonStrict "a".toList)).map
      Prod.fst).Nodup := by
    rw [filterMap_retainAttr]
    exact h.1.sublist (List.filter_sublist.map Prod.fst)
  generalize hrel : setAttr "rel".toList "nofollow noopener".toList
    (attrs.filterMap (retainAttr l mastodonStrict "a".toList)) = withRel
  have hrelNodup : (withRel.map Prod.fst).Nodup := hrel ▸ nodup_setAttr _ _ hnodup
  have hrelMem : ("rel".toList, "nofollow noopener".toList) ∈ withRel :=
    hrel ▸ mem_setAttr_self _ _ _
  have hrelAllowed : ∀ a ∈ withRel,
      mastodonStrict.allowsAttribute "a".toList (l.lower a.1) = true ∧ l.lower a.1 = a.1 := by
    intro a ha
    rw [← hrel] at ha
    cases mem_setAttr ha with
    | inl heq =>
        subst heq
        rw [lower_rel]
        exact ⟨rfl, rfl⟩
    | inr hmem => exact hkept a hmem
  have htarget : "target".toList ∉ withRel.map Prod.fst := by
    intro hmem
    obtain ⟨a, ha, hname⟩ := List.mem_map.mp hmem
    have hallowed := hrelAllowed a ha
    rw [hallowed.2, hname] at hallowed
    exact absurd hallowed.1 (by decide)
  have hclean : cleanAttrs l mastodonStrict "a".toList attrs =
      withRel ++ [("target".toList, "_blank".toList)] := by
    rw [cleanAttrs_link, hrel, setAttr_of_not_mem _ htarget]
  have hdropped : retainAttr l mastodonStrict "a".toList ("target".toList, "_blank".toList) =
      none := by
    simp only [retainAttr, lower_target]
    rfl
  have hretained : (withRel ++ [("target".toList, "_blank".toList)]).filterMap
      (retainAttr l mastodonStrict "a".toList) = withRel := by
    rw [List.filterMap_append, filterMap_retainAttr_self, List.filterMap_cons_none hdropped,
      List.filterMap_nil, List.append_nil]
    exact fun a ha => retainAttr_strict (hrelAllowed a ha).1
  rw [hclean, cleanAttrs_link, hretained, setAttr_of_mem hrelNodup hrelMem,
    setAttr_of_not_mem _ htarget]

theorem cleanAttrs_strict_twice {name : Text} {attrs : Attrs} (h : ParsedAttrs l attrs) :
    cleanAttrs l mastodonStrict name (cleanAttrs l mastodonStrict name attrs) =
      cleanAttrs l mastodonStrict name attrs := by
  by_cases hlink : name = "a".toList
  · rw [hlink]
    exact cleanAttrs_link_twice h
  · have hadded : addedAttrs mastodonStrict name = [] := by
      rw [List.eq_nil_iff_forall_not_mem]
      exact fun a ha => hlink (added_cases ha).1
    simp only [cleanAttrs, hadded, List.foldl_nil]
    apply filterMap_retainAttr_self
    intro a ha
    rw [filterMap_retainAttr] at ha
    exact retainAttr_strict (List.mem_filter.mp ha).2

theorem settled_strict {e : Element} (hattrs : ParsedAttrs l e.attrs)
    (hallowed : l.lower e.name ∈ mastodonStrict.elements)
    (hhref : l.lower e.name = "a".toList → supportedHref l (checked e).attrs = true)
    (cleaned : List Node) :
    Settled l mastodonStrict
      ⟨e.name, cleanAttrs l mastodonStrict (l.lower e.name) (checked e).attrs, cleaned⟩ where
  kept := by
    apply transform_of_safe (safe_cleaned hattrs hallowed hhref cleaned)
    intro classes hclasses
    cases mem_cleanAttrs hclasses with
    | inl hadded => cases (added_cases hadded).2 with
      | inl h => cases h
      | inr h => cases h
    | inr hmem =>
        cases ((checked_attrs hattrs.1).2 _ hmem.1).2 with
        | inl hother => exact absurd rfl hother.2
        | inr hkept =>
            obtain ⟨raw, _, heq⟩ := hkept
            rw [(Prod.mk.inj heq).2, keptClasses_keptClasses]
  allowed := hallowed
  attrs := cleanAttrs_strict_twice (parsedAttrs_checked hattrs)

theorem outside_of_forall {P : Element → Prop} {nodes : List Node}
    (h : ∀ e ∈ elements nodes, P e) : Outside l P nodes := by
  induction nodes using elements.induct with
  | case1 =>
      rw [Outside]
      trivial
  | case2 t nodes ih =>
      rw [elements] at h
      rw [Outside]
      exact ih h
  | case3 name attrs children nodes ihchildren ih =>
      simp only [elements, List.mem_cons, List.mem_append] at h
      rw [Outside]
      exact ⟨fun _ => ⟨h _ (.inl rfl), ihchildren fun e he => h e (.inr (.inl he))⟩,
        ih fun e he => h e (.inr (.inr he))⟩

/-! ### Protocols of what is trimmed -/

theorem trim_eq (value : Text) :
    trim value = (value.dropWhile isWhitespace).rdropWhile isWhitespace := rfl

theorem trim_of_head {c : Char} {rest : Text} (h : isWhitespace c = false) :
    trim (c :: rest) = (c :: rest).rdropWhile isWhitespace := by
  rw [trim_eq, List.dropWhile_cons_of_neg (by simp [h])]

theorem trim_head {c : Char} {rest : Text} (h : isWhitespace c = false) :
    ∃ rest', trim (c :: rest) = c :: rest' := by
  rw [trim_of_head h]
  cases htrim : (c :: rest).rdropWhile isWhitespace with
  | nil =>
      have hall := List.rdropWhile_eq_nil_iff.mp htrim c (List.mem_cons_self ..)
      rw [h] at hall
      cases hall
  | cons d rest' =>
      obtain ⟨more, hmore⟩ := List.rdropWhile_prefix isWhitespace (c :: rest)
      rw [htrim, List.cons_append, List.cons.injEq] at hmore
      exact ⟨rest', by rw [hmore.1]⟩

theorem trim_trim {c : Char} {rest : Text} (h : isWhitespace c = false) :
    trim (trim (c :: rest)) = trim (c :: rest) := by
  obtain ⟨rest', htrim⟩ : ∃ rest', trim (c :: rest) = c :: rest' := trim_head h
  rw [htrim, trim_of_head h, ← htrim, trim_of_head h, List.rdropWhile_idempotent]

theorem isPrefixOf_append_of_disjoint {start text more : Text} (h : ∀ c ∈ start, c ∉ more) :
    start.isPrefixOf (text ++ more) = start.isPrefixOf text := by
  induction start generalizing text with
  | nil => simp
  | cons c start ih =>
      cases text with
      | nil =>
          cases more with
          | nil => rfl
          | cons d more =>
              have hne : c ≠ d := fun heq => h c (by simp) (by simp [heq])
              simp [List.isPrefixOf, hne]
      | cons d text =>
          simp only [List.cons_append, List.isPrefixOf,
            @ih text fun c hc => h c (List.mem_cons_of_mem _ hc)]

theorem startsColon_other {c : Char} {text : Text} (hcolon : c ≠ ':') (hamp : c ≠ '&') :
    startsColon (c :: text) = false := by
  unfold startsColon
  split <;> simp_all

theorem startsColon_amp {c : Char} {text : Text} (h : c ≠ '#') :
    startsColon ('&' :: c :: text) = false := by
  unfold startsColon
  split <;> simp_all

theorem startsColon_decimal {text : Text} (h : ∀ c ∈ text.head?, c ≠ 'x' ∧ c ≠ 'X') :
    startsColon ('&' :: '#' :: text) = "58".toList.isPrefixOf (text.dropWhile (· = '0')) := by
  unfold startsColon
  split <;> simp_all

section
variable {more : Text} (hmore : ∀ c ∈ more, isWhitespace c = true)
include hmore

theorem not_mem_of_blank {c : Char} (hc : isWhitespace c = false) : c ∉ more := by
  intro hmem
  rw [hmore c hmem] at hc
  cases hc

theorem dropZeros_append (text : Text) :
    (text ++ more).dropWhile (· = '0') = text.dropWhile (· = '0') ++ more := by
  induction text with
  | nil =>
      cases more with
      | nil => rfl
      | cons c more =>
          have hne : c ≠ '0' := fun heq =>
            not_mem_of_blank hmore (c := '0') (by decide) (by simp [heq])
          simp [hne]
  | cons c text ih =>
      by_cases hc : c = '0'
      · simpa [hc] using ih
      · simp [hc]

theorem hex_append (text : Text) : startsColon.hex (text ++ more) = startsColon.hex text := by
  have hdisjoint : ∀ start ∈ ["3a".toList, "3A".toList], ∀ c ∈ start, c ∉ more := by
    intro start hstart c hc
    have hblank : ∀ start ∈ ["3a".toList, "3A".toList], ∀ c ∈ start,
        isWhitespace c = false := by decide
    exact not_mem_of_blank hmore (hblank start hstart c hc)
  simp only [startsColon.hex, dropZeros_append hmore,
    isPrefixOf_append_of_disjoint (hdisjoint "3a".toList (by simp)),
    isPrefixOf_append_of_disjoint (hdisjoint "3A".toList (by simp))]

theorem decimal_append (text : Text) :
    "58".toList.isPrefixOf ((text ++ more).dropWhile (· = '0')) =
      "58".toList.isPrefixOf (text.dropWhile (· = '0')) := by
  rw [dropZeros_append hmore]
  apply isPrefixOf_append_of_disjoint
  intro c hc
  have hblank : ∀ c ∈ "58".toList, isWhitespace c = false := by decide
  exact not_mem_of_blank hmore (hblank c hc)

theorem startsColon_append (text : Text) : startsColon (text ++ more) = startsColon text := by
  have hne : ∀ c d : Char, isWhitespace d = false → more.head? = some c → c ≠ d := by
    intro c d hd hhead heq
    exact not_mem_of_blank hmore hd (heq ▸ List.mem_of_mem_head? hhead)
  cases text with
  | nil =>
      cases more with
      | nil => rfl
      | cons c more =>
          exact startsColon_other (hne c ':' (by decide) rfl) (hne c '&' (by decide) rfl)
  | cons c text =>
      by_cases hcolon : c = ':'
      · subst hcolon
        rfl
      · by_cases hamp : c = '&'
        · subst hamp
          cases text with
          | nil =>
              cases more with
              | nil => rfl
              | cons d more => exact startsColon_amp (hne d '#' (by decide) rfl)
          | cons d text =>
              by_cases hhash : d = '#'
              · subst hhash
                by_cases hx : text.head? = some 'x'
                · obtain ⟨rest, rfl⟩ := List.head?_eq_some_iff.mp hx
                  exact hex_append hmore rest
                · by_cases hX : text.head? = some 'X'
                  · obtain ⟨rest, rfl⟩ := List.head?_eq_some_iff.mp hX
                    exact hex_append hmore rest
                  · rw [List.cons_append, List.cons_append, startsColon_decimal,
                      startsColon_decimal, decimal_append hmore]
                    · intro e he
                      constructor
                      · exact fun heq => hx (heq ▸ he)
                      · exact fun heq => hX (heq ▸ he)
                    · intro e he
                      cases text with
                      | nil => exact ⟨hne e 'x' (by decide) he, hne e 'X' (by decide) he⟩
                      | cons f text =>
                          constructor
                          · exact fun heq => hx (heq ▸ he)
                          · exact fun heq => hX (heq ▸ he)
              · rw [List.cons_append, List.cons_append, startsColon_amp hhash,
                  startsColon_amp hhash]
        · rw [List.cons_append, startsColon_other hcolon hamp, startsColon_other hcolon hamp]

theorem scheme_blank : scheme more = none := by
  induction more with
  | nil => rfl
  | cons c more ih =>
      have hstart : startsColon (c :: more) = false :=
        startsColon_append hmore []
      rw [scheme, hstart, ih fun d hd => hmore d (List.mem_cons_of_mem _ hd)]
      simp

theorem scheme_append (text : Text) : scheme (text ++ more) = scheme text := by
  induction text with
  | nil => exact scheme_blank hmore
  | cons c text ih =>
      have hstart := startsColon_append hmore (c :: text)
      rw [List.cons_append] at hstart ⊢
      rw [scheme, scheme, hstart, ih]

end

/-- The names of schemes, of ASCII characters but whitespace. -/
def PlainScheme (name : Text) : Prop := ∀ c ∈ name, c.toNat < 128 ∧ isWhitespace c = false

theorem toLower_of_blank {c : Char} (h : isWhitespace c = true) (hascii : c.toNat < 128) :
    c.toLower = c := by
  have hall : ∀ n < 128, isWhitespace (Char.ofNat n) = true →
      (Char.ofNat n).toLower = Char.ofNat n := by decide
  have hc := hall c.toNat hascii
  rw [Char.ofNat_toNat] at hc
  exact hc h

theorem head_of_protocol {value name : Text} (hprotocol : protocolOf l value = some name)
    (hplain : PlainScheme name) (hname : name ≠ []) :
    ∃ c rest, value = c :: rest ∧ isWhitespace c = false := by
  obtain ⟨before, hscheme, rfl⟩ := Option.map_eq_some_iff.mp hprotocol
  cases value with
  | nil => simp [scheme] at hscheme
  | cons c rest =>
      refine ⟨c, rest, rfl, ?_⟩
      rw [scheme] at hscheme
      split_ifs at hscheme
      · rw [← Option.some.inj hscheme] at hname
        exact absurd rfl hname
      · obtain ⟨before', _, rfl⟩ := Option.map_eq_some_iff.mp hscheme
        by_contra hblank
        rw [Bool.not_eq_false] at hblank
        by_cases hascii : c.toNat < 128
        · have hc := (hplain _ (mem_lower (l := l) (List.mem_cons_self ..) hascii)).2
          rw [toLower_of_blank hblank hascii, hblank] at hc
          cases hc
        · have hlower : l.lower (c :: before') = l.map [] c before' ++ l.lowerFrom [c] before' := by
            rw [Lowercase.lower, Lowercase.lowerFrom, Lowercase.lowerChar, if_neg hascii]
            rfl
          cases l.beyond [] c before' (Nat.not_lt.mp hascii) with
          | inl hbeyond =>
              obtain ⟨d, hd, hlarge⟩ := hbeyond
              have hsmall := (hplain d (hlower ▸ List.mem_append_left _ hd)).1
              omega
          | inr hkelvin =>
              rw [hkelvin.1] at hblank
              exact absurd hblank (by decide)

theorem protocolOf_trim {value name : Text} (hprotocol : protocolOf l value = some name)
    (hplain : PlainScheme name) (hname : name ≠ []) :
    protocolOf l (trim value) = some name ∧ trim (trim value) = trim value := by
  obtain ⟨c, rest, rfl, hc⟩ := head_of_protocol hprotocol hplain hname
  refine ⟨?_, trim_trim hc⟩
  rw [← hprotocol, protocolOf, protocolOf]
  conv_rhs => rw [← List.rdropWhile_append_rtakeWhile (p := isWhitespace) (l := c :: rest)]
  rw [scheme_append fun d hd => List.mem_rtakeWhile_imp hd, trim_of_head hc]

/-! ### The configuration for embeds -/

theorem plain_of_http {name : Text} (h : name ∈ httpProtocols) : PlainScheme name ∧ name ≠ [] := by
  have hall : ∀ name ∈ httpProtocols,
      (∀ c ∈ name, c.toNat < 128 ∧ isWhitespace c = false) ∧ name ≠ [] := by decide
  exact hall name h

theorem retainAttr_retained {name : Text} {a b : Text × Text}
    (h : retainAttr l mastodonOembed name a = some b) :
    retainAttr l mastodonOembed name b = some b := by
  rw [retainAttr] at h
  split_ifs at h with hallowed
  split at h
  · rename_i hnone
    cases h
    simp [retainAttr, hallowed, hnone]
  · rename_i e k allowed hfind
    split_ifs at h with hprotocol
    cases h
    have hallowedEq : allowed = httpProtocols := by
      have hall : ∀ p ∈ mastodonOembed.protocols, p.2.2 = httpProtocols := by decide
      exact hall _ (List.mem_of_find?_eq_some hfind)
    subst hallowedEq
    obtain ⟨scheme, hscheme, hlisted⟩ := (Option.any_eq_true _ _).mp hprotocol
    have hplain := plain_of_http (List.contains_iff_mem.mp hlisted)
    obtain ⟨hagain, htrim⟩ := protocolOf_trim hscheme hplain.1 hplain.2
    simp [retainAttr, hallowed, hfind, hagain, htrim, List.contains_iff_mem.mp hlisted]

theorem lower_sandbox : l.lower "sandbox".toList = "sandbox".toList := by
  rw [lower_of_ascii (by decide)]
  decide

theorem retainAttr_name {name : Text} {a b : Text × Text}
    (h : retainAttr l config name a = some b) :
    b.1 = a.1 ∧ config.allowsAttribute name (l.lower a.1) = true := by
  rw [retainAttr] at h
  split_ifs at h with hallowed
  rw [Bool.not_eq_true, Bool.not_eq_false'] at hallowed
  split at h
  · cases h
    exact ⟨rfl, hallowed⟩
  · split_ifs at h
    cases h
    exact ⟨rfl, hallowed⟩

theorem added_oembed {name : Text} (h : name ≠ "iframe".toList) :
    addedAttrs mastodonOembed name = [] := by
  unfold addedAttrs mastodonOembed
  rw [List.lookup_cons, beq_false_of_ne h, List.lookup_nil]
  rfl

theorem added_iframe : ∃ value,
    addedAttrs mastodonOembed "iframe".toList = [("sandbox".toList, value)] := ⟨_, rfl⟩

theorem cleanAttrs_oembed_twice {name : Text} {attrs : Attrs} (h : ParsedAttrs l attrs) :
    cleanAttrs l mastodonOembed name (cleanAttrs l mastodonOembed name attrs) =
      cleanAttrs l mastodonOembed name attrs := by
  generalize hkept : attrs.filterMap (retainAttr l mastodonOembed name) = kept
  have hself : kept.filterMap (retainAttr l mastodonOembed name) = kept := by
    apply filterMap_retainAttr_self
    intro b hb
    rw [← hkept] at hb
    obtain ⟨a, _, ha⟩ := List.mem_filterMap.mp hb
    exact retainAttr_retained ha
  by_cases hname : name = "iframe".toList
  · subst hname
    obtain ⟨value, hadded⟩ := added_iframe
    have hsandbox : "sandbox".toList ∉ kept.map Prod.fst := by
      intro hmem
      obtain ⟨b, hb, hkey⟩ := List.mem_map.mp hmem
      rw [← hkept] at hb
      obtain ⟨a, ha, hretained⟩ := List.mem_filterMap.mp hb
      have hallowed := retainAttr_name hretained
      rw [h.2 a ha, ← hallowed.1, hkey] at hallowed
      exact absurd hallowed.2 (by decide)
    have hdropped : retainAttr l mastodonOembed "iframe".toList ("sandbox".toList, value) =
        none := by
      simp only [retainAttr, lower_sandbox]
      rfl
    have hclean : cleanAttrs l mastodonOembed "iframe".toList attrs =
        kept ++ [("sandbox".toList, value)] := by
      simp only [cleanAttrs, hadded, hkept, List.foldl_cons, List.foldl_nil,
        setAttr_of_not_mem value hsandbox]
    rw [hclean]
    simp only [cleanAttrs, hadded, List.filterMap_append, hself,
      List.filterMap_cons_none hdropped, List.filterMap_nil, List.append_nil, List.foldl_cons,
      List.foldl_nil, setAttr_of_not_mem value hsandbox]
  · simp only [cleanAttrs, added_oembed hname, List.foldl_nil, hkept, hself]

theorem settled_of_mem_oembed {nodes : List Node}
    (h : ∀ e ∈ elements nodes, ParsedAttrs l e.attrs) :
    ∀ e ∈ elements (cleanNodes l mastodonOembed nodes), Settled l mastodonOembed e := by
  induction nodes using elements.induct with
  | case1 => simp [cleanNodes, elements]
  | case2 t nodes ih =>
      rw [elements] at h
      rw [cleanNodes, elements]
      exact ih h
  | case3 name attrs children nodes ihchildren ih =>
      simp only [elements, List.mem_cons, List.mem_append] at h
      have hkeep : transform l mastodonOembed.transformers ⟨name, attrs, children⟩ =
          .keep ⟨name, attrs, children⟩ := rfl
      intro e he
      rw [cleanNodes_keep hkeep, elements_append, List.mem_append] at he
      have hcleaned := ihchildren fun e he => h e (.inr (.inl he))
      cases he with
      | inr hrest => exact ih (fun e he => h e (.inr (.inr he))) e hrest
      | inl hhere =>
          cases mem_elements_cleanElement hhere with
          | inr hdropped => exact hcleaned e hdropped.2.2
          | inl hallowed =>
              cases hallowed.2 with
              | inr hchild => exact hcleaned e hchild
              | inl heq =>
                  rw [heq]
                  exact ⟨rfl, hallowed.1, cleanAttrs_oembed_twice (h _ (.inl rfl))⟩

/-! ### Cleaning twice -/

/-- With unique lowercase attribute names on every element, cleaning what was cleaned
changes nothing, under either configuration. -/
theorem cleaning_idempotent (l : Lowercase) (nodes : List Node)
    (h : ∀ e ∈ elements nodes, ParsedAttrs l e.attrs) :
    cleanNodes l mastodonStrict (cleanNodes l mastodonStrict nodes) =
        cleanNodes l mastodonStrict nodes ∧
      cleanNodes l mastodonOembed (cleanNodes l mastodonOembed nodes) =
        cleanNodes l mastodonOembed nodes := by
  constructor
  · apply cleanNodes_of_settled
    refine elements_cleanNodes ?_ ?_ (outside_of_forall h)
    · exact fun e he => ⟨parsedAttrs_checked he, fun _ => ⟨List.nodup_nil, by simp⟩⟩
    · exact fun e cleaned he hallowed hhref _ => settled_strict he hallowed hhref cleaned
  · exact cleanNodes_of_settled (settled_of_mem_oembed h)

/-- A heading with a link that has a `target` of its own and no `rel`, and a frame. -/
def linkAndFrame : List Node :=
  [.element "h2".toList [("lang".toList, "ko".toList)]
    [.element "a".toList [("target".toList, "x".toList),
      ("href".toList, "https://a.example".toList),
      ("class".toList, " mention\tevil hashtag".toList)] [.text "a".toList]],
  .element "iframe".toList [("sandbox".toList, []),
    ("src".toList, "HTTP://a.example \n".toList)] []]

theorem cleaning_idempotent_linkAndFrame :
    cleanNodes kelvinLower mastodonStrict (cleanNodes kelvinLower mastodonStrict linkAndFrame) =
        cleanNodes kelvinLower mastodonStrict linkAndFrame ∧
      cleanNodes kelvinLower mastodonOembed (cleanNodes kelvinLower mastodonOembed linkAndFrame) =
        cleanNodes kelvinLower mastodonOembed linkAndFrame := by
  apply cleaning_idempotent
  simp only [linkAndFrame, elements, List.append_nil, List.nil_append, List.cons_append,
    List.forall_mem_cons, List.not_mem_nil, false_imp_iff, implies_true, and_true]
  unfold ParsedAttrs
  decide

end Eunha.Sanitizer
