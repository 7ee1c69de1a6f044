import Eunha.Chars
import Mathlib.Data.List.Basic
import Mathlib.Data.Option.Basic
import Mathlib.Data.String.Basic

/-!
# A tokenizer for HTML

The states of the HTML tokenizer that plain markup goes through: text, start and
end tags, attributes in double quotes, and the character references for markup's
own characters. Where the text leaves these there is no result. A state machine
reads the text character by character, so what it does on a text put together from
pieces is put together from what it does on the pieces.
-/
namespace Eunha.HtmlTokens

inductive Token where
  | char (c : Char)
  | startTag (name : List Char) (attrs : List (List Char × List Char))
  | endTag (name : List Char)
  deriving DecidableEq

structure Tag where
  closing : Bool
  name : List Char
  attrs : List (List Char × List Char)

def Tag.token (tag : Tag) : Token :=
  if tag.closing then .endTag tag.name else .startTag tag.name tag.attrs

def Tag.add (tag : Tag) (key value : List Char) : Tag :=
  if key ∈ tag.attrs.map Prod.fst then tag
  else { tag with attrs := tag.attrs ++ [(key, value)] }

inductive State where
  | data
  | dataReference (name : List Char)
  | tagOpen
  | endTagOpen
  | tagName (tag : Tag)
  | beforeAttributeName (tag : Tag)
  | attributeName (tag : Tag) (key : List Char)
  | beforeAttributeValue (tag : Tag) (key : List Char)
  | attributeValue (tag : Tag) (key value : List Char)
  | valueReference (tag : Tag) (key value name : List Char)
  | afterAttributeValue (tag : Tag)

def isSpace (c : Char) : Bool := c = '\t' || c = '\n' || c = '\x0c' || c = ' '

def nameChar (c : Char) : Char := if c = '\x00' then '\ufffd' else c.toLower

def references : List (List Char × Char) :=
  [("amp".toList, '&'), ("lt".toList, '<'), ("gt".toList, '>'), ("quot".toList, '"'),
    ("nbsp".toList, '\u00a0')]

def step : State → Char → Option (State × List Token)
  | .data, c =>
      if c = '&' then some (.dataReference [], [])
      else if c = '<' then some (.tagOpen, [])
      else some (.data, [.char c])
  | .dataReference name, c =>
      if c = ';' then (references.lookup name).map fun c => (.data, [.char c])
      else if c.isAlphanum then some (.dataReference (name ++ [c]), [])
      else none
  | .tagOpen, c =>
      if c = '/' then some (.endTagOpen, [])
      else if c.isAlpha then some (.tagName ⟨false, [nameChar c], []⟩, [])
      else none
  | .endTagOpen, c =>
      if c.isAlpha then some (.tagName ⟨true, [nameChar c], []⟩, []) else none
  | .tagName tag, c =>
      if isSpace c then some (.beforeAttributeName tag, [])
      else if c = '/' then none
      else if c = '>' then some (.data, [tag.token])
      else some (.tagName { tag with name := tag.name ++ [nameChar c] }, [])
  | .beforeAttributeName tag, c =>
      if isSpace c then some (.beforeAttributeName tag, [])
      else if c = '/' || c = '=' then none
      else if c = '>' then some (.data, [tag.token])
      else some (.attributeName tag [nameChar c], [])
  | .attributeName tag key, c =>
      if isSpace c || c = '/' || c = '>' then none
      else if c = '=' then some (.beforeAttributeValue tag key, [])
      else some (.attributeName tag (key ++ [nameChar c]), [])
  | .beforeAttributeValue tag key, c =>
      if isSpace c then some (.beforeAttributeValue tag key, [])
      else if c = '"' then some (.attributeValue tag key [], [])
      else none
  | .attributeValue tag key value, c =>
      if c = '"' then some (.afterAttributeValue (tag.add key value), [])
      else if c = '&' then some (.valueReference tag key value [], [])
      else some (.attributeValue tag key
        (value ++ [if c = '\x00' then '\ufffd' else c]), [])
  | .valueReference tag key value name, c =>
      if c = ';' then
        (references.lookup name).map fun c => (.attributeValue tag key (value ++ [c]), [])
      else if c.isAlphanum then some (.valueReference tag key value (name ++ [c]), [])
      else none
  | .afterAttributeValue tag, c =>
      if isSpace c then some (.beforeAttributeName tag, [])
      else if c = '>' then some (.data, [tag.token])
      else none

def run : State → List Char → Option (State × List Token)
  | state, [] => some (state, [])
  | state, c :: text =>
      (step state c).bind fun (state, tokens) =>
        (run state text).map fun (state, more) => (state, tokens ++ more)

def tokenize (text : List Char) : Option (List Token) :=
  match run .data text with
  | some (.data, tokens) => some tokens
  | _ => none

/-! ### Runs -/

theorem run_cons {state after : State} {c : Char} {tokens : List Token}
    (h : step state c = some (after, tokens)) (text : List Char) :
    run state (c :: text) = (run after text).map fun (state, more) => (state, tokens ++ more) := by
  rw [run, h, Option.bind_some]

theorem run_append {state after : State} {text : List Char} {tokens : List Token}
    (h : run state text = some (after, tokens)) (more : List Char) :
    run state (text ++ more) =
      (run after more).map fun (state, later) => (state, tokens ++ later) := by
  induction text generalizing state tokens with
  | nil =>
      cases h
      simp
  | cons c text ih =>
      rw [run] at h
      obtain ⟨⟨state', first⟩, hstep, hrest⟩ := Option.bind_eq_some_iff.mp h
      obtain ⟨⟨state'', rest⟩, hrun, heq⟩ := Option.map_eq_some_iff.mp hrest
      cases heq
      rw [List.cons_append, run_cons hstep, ih hrun, Option.map_map]
      simp [Function.comp_def]

theorem run_trans {state between after : State} {text more : List Char} {tokens later : List Token}
    (h : run state text = some (between, tokens)) (h' : run between more = some (after, later)) :
    run state (text ++ more) = some (after, tokens ++ later) := by
  rw [run_append h, h', Option.map_some]

theorem run_step {state between after : State} {c : Char} {text : List Char}
    {tokens later : List Token} (h : step state c = some (between, tokens))
    (h' : run between text = some (after, later)) :
    run state (c :: text) = some (after, tokens ++ later) := by
  rw [run_cons h, h', Option.map_some]

/-! ### Text -/

theorem run_data_char {c : Char} (hamp : c ≠ '&') (hlt : c ≠ '<') :
    run .data [c] = some (.data, [.char c]) := by
  simp [run, step, hamp, hlt]

theorem run_data_text {write : Char → List Char}
    (h : ∀ c, run .data (write c) = some (.data, [.char c])) (text : List Char) :
    run .data (text.flatMap write) = some (.data, text.map .char) := by
  induction text with
  | nil => rfl
  | cons c text ih => exact run_trans (h c) ih

section
variable {tag : Tag}

theorem run_value_char {key value : List Char} {c : Char} (hquote : c ≠ '"') (hamp : c ≠ '&')
    (hnull : c ≠ '\x00') :
    run (.attributeValue tag key value) [c] = some (.attributeValue tag key (value ++ [c]), []) := by
  simp [run, step, hquote, hamp, hnull]

theorem run_value_text {key : List Char} {write : Char → List Char} {text : List Char}
    (h : ∀ c ∈ text, ∀ value, run (.attributeValue tag key value) (write c) =
      some (.attributeValue tag key (value ++ [c]), [])) (value : List Char) :
    run (.attributeValue tag key value) (text.flatMap write) =
      some (.attributeValue tag key (value ++ text), []) := by
  induction text generalizing value with
  | nil => simp [run]
  | cons c text ih =>
      have hrest := ih (fun d hd => h d (List.mem_cons_of_mem _ hd)) (value ++ [c])
      rw [List.append_assoc, List.singleton_append] at hrest
      exact run_trans (h c (by simp) value) hrest

/-! ### Tags -/

def NameText (text : List Char) : Prop :=
  ∀ c ∈ text, isSpace c = false ∧ c ≠ '/' ∧ c ≠ '>' ∧ nameChar c = c

def TagName (name : List Char) : Prop :=
  NameText name ∧ ∃ c rest, name = c :: rest ∧ c.isAlpha = true

def AttributeKey (key : List Char) : Prop := NameText key ∧ key ≠ [] ∧ '=' ∉ key

theorem run_tagName (tag : Tag) {text : List Char} (h : NameText text) :
    run (.tagName tag) text = some (.tagName { tag with name := tag.name ++ text }, []) := by
  induction text generalizing tag with
  | nil => simp [run]
  | cons c text ih =>
      obtain ⟨hspace, hslash, hclose, hname⟩ := h c (by simp)
      have hstep : step (.tagName tag) c = some (.tagName { tag with name := tag.name ++ [c] }, []) := by
        simp [step, hspace, hslash, hclose, hname]
      have hrest := ih { tag with name := tag.name ++ [c] }
        fun d hd => h d (List.mem_cons_of_mem _ hd)
      simp only [List.append_assoc, List.singleton_append] at hrest
      exact run_step hstep hrest

theorem run_attributeName (tag : Tag) (key : List Char) {text : List Char} (h : NameText text)
    (hequals : '=' ∉ text) :
    run (.attributeName tag key) text = some (.attributeName tag (key ++ text), []) := by
  induction text generalizing key with
  | nil => simp [run]
  | cons c text ih =>
      obtain ⟨hspace, hslash, hclose, hname⟩ := h c (by simp)
      rw [List.mem_cons, not_or] at hequals
      have hstep : step (.attributeName tag key) c = some (.attributeName tag (key ++ [c]), []) := by
        simp [step, hspace, hslash, hclose, hname, Ne.symm hequals.1]
      have hrest := ih (key ++ [c]) (fun d hd => h d (List.mem_cons_of_mem _ hd)) hequals.2
      rw [List.append_assoc, List.singleton_append] at hrest
      exact run_step hstep hrest

theorem run_open {name : List Char} (h : TagName name) :
    run .data ('<' :: name) = some (.tagName ⟨false, name, []⟩, []) := by
  obtain ⟨hname, c, rest, rfl, hletter⟩ := h
  obtain ⟨-, hslash, -, hchar⟩ := hname c (by simp)
  have hopen : step .data '<' = some (.tagOpen, []) := rfl
  have hfirst : step .tagOpen c = some (.tagName ⟨false, [c], []⟩, []) := by
    simp [step, hslash, hletter, hchar]
  have hrest := run_tagName ⟨false, [c], []⟩ fun d hd => hname d (List.mem_cons_of_mem _ hd)
  exact run_step hopen (run_step hfirst hrest)

theorem run_endTag {name : List Char} (h : TagName name) :
    run .data ('<' :: '/' :: (name ++ ['>'])) = some (.data, [.endTag name]) := by
  obtain ⟨hname, c, rest, rfl, hletter⟩ := h
  obtain ⟨-, -, -, hchar⟩ := hname c (by simp)
  have hopen : step .data '<' = some (.tagOpen, []) := rfl
  have hslash : step .tagOpen '/' = some (.endTagOpen, []) := rfl
  have hfirst : step .endTagOpen c = some (.tagName ⟨true, [c], []⟩, []) := by
    simp [step, hletter, hchar]
  have hrest := run_tagName ⟨true, [c], []⟩ fun d hd => hname d (List.mem_cons_of_mem _ hd)
  have hclose : run (.tagName ⟨true, c :: rest, []⟩) ['>'] = some (.data, [.endTag (c :: rest)]) :=
    rfl
  exact run_step hopen (run_step hslash (run_step hfirst (run_trans hrest hclose)))

def AfterItem (tag : Tag) (state : State) : Prop :=
  state = .tagName tag ∨ state = .afterAttributeValue tag

theorem run_attribute {state : State} (hstate : AfterItem tag state) {key value written : List Char}
    (hkey : AttributeKey key)
    (hvalue : run (.attributeValue tag key []) written = some (.attributeValue tag key value, [])) :
    run state (' ' :: (key ++ '=' :: '"' :: (written ++ ['"']))) =
      some (.afterAttributeValue (tag.add key value), []) := by
  obtain ⟨hname, hne, hequals⟩ := hkey
  have hspace : step state ' ' = some (.beforeAttributeName tag, []) := by
    rcases hstate with rfl | rfl <;> rfl
  have hquote : run (.attributeValue tag key value) ['"'] =
      some (.afterAttributeValue (tag.add key value), []) := rfl
  have hopen : step (.attributeName tag key) '=' = some (.beforeAttributeValue tag key, []) := rfl
  have hbefore : step (.beforeAttributeValue tag key) '"' = some (.attributeValue tag key [], []) :=
    rfl
  have hrest := run_step hopen (run_step hbefore (run_trans hvalue hquote))
  cases key with
  | nil => exact (hne rfl).elim
  | cons c key =>
      obtain ⟨hc, hslash, hclose, hchar⟩ := hname c (by simp)
      rw [List.mem_cons, not_or] at hequals
      have hfirst : step (.beforeAttributeName tag) c = some (.attributeName tag [c], []) := by
        simp [step, hc, hslash, hclose, hchar, Ne.symm hequals.1]
      have hkey := run_attributeName tag [c]
        (fun d hd => hname d (List.mem_cons_of_mem _ hd)) hequals.2
      exact run_step hspace (run_step hfirst (run_trans hkey hrest))

theorem run_close {state : State} (hstate : AfterItem tag state) :
    run state ['>'] = some (.data, [tag.token]) := by
  rcases hstate with rfl | rfl <;> rfl

def writeAttributes (write : List Char → List Char) (attrs : List (List Char × List Char)) :
    List Char :=
  attrs.flatMap fun (key, value) => ' ' :: (key ++ '=' :: '"' :: (write value ++ ['"']))

theorem run_attributes {state : State} (hstate : AfterItem tag state)
    {write : List Char → List Char} {attrs : List (List Char × List Char)}
    (hkeys : ∀ a ∈ attrs, AttributeKey a.1)
    (hnodup : ((tag.attrs ++ attrs).map Prod.fst).Nodup)
    (hwrite : ∀ a ∈ attrs, ∀ tag, run (.attributeValue tag a.1 []) (write a.2) =
      some (.attributeValue tag a.1 a.2, [])) :
    ∃ after, AfterItem { tag with attrs := tag.attrs ++ attrs } after ∧
      run state (writeAttributes write attrs) = some (after, []) := by
  induction attrs generalizing tag state with
  | nil => exact ⟨state, by simpa using hstate, rfl⟩
  | cons a attrs ih =>
      obtain ⟨key, value⟩ := a
      have hadd : tag.add key value = { tag with attrs := tag.attrs ++ [(key, value)] } := by
        rw [Tag.add, if_neg]
        intro hmem
        rw [List.map_append, List.map_cons, List.nodup_append] at hnodup
        exact hnodup.2.2 key hmem key (by simp) rfl
      have hfirst := run_attribute hstate (hkeys (key, value) (by simp))
        (hwrite (key, value) (by simp) tag)
      rw [hadd] at hfirst
      have hstate : AfterItem { tag with attrs := tag.attrs ++ [(key, value)] }
          (.afterAttributeValue { tag with attrs := tag.attrs ++ [(key, value)] }) := .inr rfl
      obtain ⟨after, hafter, hrest⟩ := ih hstate (fun a ha => hkeys a (List.mem_cons_of_mem _ ha))
        (by simpa using hnodup) (fun a ha => hwrite a (List.mem_cons_of_mem _ ha))
      refine ⟨after, by simpa using hafter, ?_⟩
      exact run_trans hfirst hrest

theorem run_startTag {name : List Char} (hname : TagName name) {write : List Char → List Char}
    {attrs : List (List Char × List Char)} (hkeys : ∀ a ∈ attrs, AttributeKey a.1)
    (hnodup : (attrs.map Prod.fst).Nodup)
    (hwrite : ∀ a ∈ attrs, ∀ tag, run (.attributeValue tag a.1 []) (write a.2) =
      some (.attributeValue tag a.1 a.2, [])) :
    run .data ('<' :: (name ++ (writeAttributes write attrs ++ ['>']))) =
      some (.data, [.startTag name attrs]) := by
  have hstate : AfterItem ⟨false, name, []⟩ (.tagName ⟨false, name, []⟩) := .inl rfl
  obtain ⟨after, hafter, hattrs⟩ := run_attributes hstate hkeys hnodup hwrite
  exact run_trans (run_open hname) (run_trans hattrs (run_close hafter))

end

end Eunha.HtmlTokens
