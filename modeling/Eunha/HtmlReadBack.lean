import Eunha.Html
import Eunha.HtmlTokens

/-!
# Reading serialized fragments back

The tokens of a serialized tree are its characters and tags, so nesting the tags again
gives the tree with adjacent texts merged. What an element needs for that is a name
and attributes a tag can hold.
-/
namespace Eunha.Html

open HtmlTokens

/-! ### Trees from tokens -/

def addText (nodes : List Node) (t : Text) : List Node :=
  if t = [] then nodes
  else
    match nodes.getLast? with
    | some (.text before) => nodes.dropLast ++ [.text (before ++ t)]
    | _ => nodes ++ [.text t]

/-- An element with no end tag yet, and the nodes before it. -/
structure OpenElement where
  name : Text
  attrs : Attrs
  before : List Node

def build : List Token → List OpenElement → List Node → Option (List Node)
  | [], [], nodes => some nodes
  | [], _ :: _, _ => none
  | .char c :: tokens, stack, nodes => build tokens stack (addText nodes [c])
  | .startTag name attrs :: tokens, stack, nodes =>
      if name ∈ voidElements then build tokens stack (nodes ++ [.element name attrs []])
      else build tokens (⟨name, attrs, nodes⟩ :: stack) []
  | .endTag _ :: _, [], _ => none
  | .endTag name :: tokens, e :: stack, nodes =>
      if name = e.name then build tokens stack (e.before ++ [.element e.name e.attrs nodes])
      else none

def read (text : Text) : Option (List Node) :=
  (tokenize text).bind fun tokens => build tokens [] []

/-! ### What is written and what is read -/

def mergeAfter (before : List Node) : List Node → List Node
  | [] => before
  | .text t :: nodes => mergeAfter (addText before t) nodes
  | .element name attrs children :: nodes =>
      let added := if addsNewline name children then [Node.text ['\n']] else []
      mergeAfter (before ++ [.element name attrs (mergeAfter added children)]) nodes

def merge (nodes : List Node) : List Node := mergeAfter [] nodes

def tokensOf : List Node → List Token
  | [] => []
  | .text t :: nodes => t.map .char ++ tokensOf nodes
  | .element name attrs children :: nodes =>
      .startTag name attrs ::
        ((if name ∈ voidElements then []
        else
          (if addsNewline name children then [.char '\n'] else []) ++
            (tokensOf children ++ [.endTag name])) ++
        tokensOf nodes)

structure Writable (e : Element) : Prop where
  name : TagName e.name
  keys : ∀ a ∈ e.attrs, AttributeKey a.1
  nodup : (e.attrs.map Prod.fst).Nodup
  values : ∀ a ∈ e.attrs, '\x00' ∉ a.2
  notRaw : e.name ∉ rawTextElements
  void : e.name ∈ voidElements → e.children = []

theorem run_escapeTextChar (c : Char) :
    run .data (escapeTextChar c) = some (.data, [.char c]) := by
  unfold escapeTextChar
  split_ifs with hamp hlt hgt hnbsp
  · exact hamp ▸ rfl
  · exact hlt ▸ rfl
  · exact hgt ▸ rfl
  · exact hnbsp ▸ rfl
  · exact run_data_char hamp hlt

theorem run_escapeAttributeChar {c : Char} (hnull : c ≠ '\x00') (tag : Tag) (key value : Text) :
    run (.attributeValue tag key value) (escapeAttributeChar c) =
      some (.attributeValue tag key (value ++ [c]), []) := by
  unfold escapeAttributeChar
  split_ifs with hamp hquote hnbsp
  · exact hamp ▸ rfl
  · exact hquote ▸ rfl
  · exact hnbsp ▸ rfl
  · exact run_value_char hquote hamp hnull

theorem run_escapeAttribute {value : Text} (hnull : '\x00' ∉ value) (tag : Tag) (key : Text) :
    run (.attributeValue tag key []) (escapeAttribute value) =
      some (.attributeValue tag key value, []) :=
  run_value_text (fun _ hc value => run_escapeAttributeChar (fun h => hnull (h ▸ hc)) tag key value) []

theorem run_serialize {nodes : List Node} (h : ∀ e ∈ elements nodes, Writable e) :
    run .data (serialize nodes) = some (.data, tokensOf nodes) := by
  unfold serialize
  induction nodes using elements.induct with
  | case1 =>
      rw [serializeInto, tokensOf]
      rfl
  | case2 t nodes ih =>
      rw [elements] at h
      rw [serializeInto, tokensOf]
      exact run_trans (run_data_text run_escapeTextChar t) (ih h)
  | case3 name attrs children nodes ihchildren ih =>
      rw [elements] at h
      have hwritable : Writable ⟨name, attrs, children⟩ := h _ (by simp)
      have hstart : run .data ('<' :: (name ++ (writeAttrs attrs ++ ['>']))) =
          some (.data, [.startTag name attrs]) :=
        run_startTag hwritable.name hwritable.keys hwritable.nodup
          fun a ha tag => run_escapeAttribute (hwritable.values a ha) tag a.1
      have hchildren := ihchildren fun e he => h e (by simp [he])
      have hrest := ih fun e he => h e (by simp [he])
      have hraw : (name ∈ rawTextElements) = False := eq_false hwritable.notRaw
      rw [serializeInto, tokensOf]
      by_cases hvoid : name ∈ voidElements
      · simp only [hvoid, if_true, List.append_nil]
        exact run_trans hstart hrest
      · have hadded : run .data (if addsNewline name children then ['\n'] else []) =
            some (.data, if addsNewline name children then [.char '\n'] else []) := by
          split_ifs <;> rfl
        have hcontents := run_trans hadded (run_trans hchildren (run_endTag hwritable.name))
        simp only [hvoid, if_false, hraw, decide_false]
        rw [List.append_assoc]
        exact run_trans hstart (run_trans hcontents hrest)

theorem addText_append (nodes : List Node) (t u : Text) :
    addText (addText nodes t) u = addText nodes (t ++ u) := by
  by_cases ht : t = []
  · simp [addText, ht]
  by_cases hu : u = []
  · simp [addText, hu]
  have htu : t ++ u ≠ [] := by simp [ht]
  simp only [addText, if_neg ht, if_neg hu, if_neg htu]
  cases hlast : nodes.getLast? with
  | none => simp
  | some node =>
      cases node with
      | text before => simp
      | element name attrs children => simp

theorem build_text (t : Text) (tokens : List Token) (stack : List OpenElement) (nodes : List Node) :
    build (t.map .char ++ tokens) stack nodes = build tokens stack (addText nodes t) := by
  induction t generalizing nodes with
  | nil => rfl
  | cons c t ih =>
      rw [List.map_cons, List.cons_append, build, ih, addText_append]
      rfl

theorem build_tokensOf {nodes : List Node} (h : ∀ e ∈ elements nodes, Writable e)
    (tokens : List Token) (stack : List OpenElement) (before : List Node) :
    build (tokensOf nodes ++ tokens) stack before = build tokens stack (mergeAfter before nodes) := by
  induction nodes using elements.induct generalizing tokens stack before with
  | case1 =>
      rw [tokensOf, mergeAfter]
      rfl
  | case2 t nodes ih =>
      rw [elements] at h
      rw [tokensOf, mergeAfter, List.append_assoc, build_text, ih h]
  | case3 name attrs children nodes ihchildren ih =>
      rw [elements] at h
      have hwritable : Writable ⟨name, attrs, children⟩ := h _ (by simp)
      have hchildren := ihchildren fun e he => h e (by simp [he])
      have hrest := ih fun e he => h e (by simp [he])
      rw [tokensOf, mergeAfter]
      by_cases hvoid : name ∈ voidElements
      · rw [if_pos hvoid, List.nil_append, List.cons_append, build, if_pos hvoid, hrest]
        rw [show children = [] from hwritable.void hvoid]
        simp [addsNewline, mergeAfter]
      · have hadded : ∀ tokens stack, build
            ((if addsNewline name children then [.char '\n'] else []) ++ tokens) stack [] =
              build tokens stack (if addsNewline name children then [Node.text ['\n']] else []) := by
          intro tokens stack
          split_ifs <;> rfl
        rw [if_neg hvoid]
        simp only [List.cons_append, List.append_assoc, List.nil_append]
        rw [build, if_neg hvoid, hadded, hchildren, build, if_pos rfl, hrest]

theorem read_serialize {nodes : List Node} (h : ∀ e ∈ elements nodes, Writable e) :
    read (serialize nodes) = some (merge nodes) := by
  have hbuild := build_tokensOf h [] [] []
  rw [List.append_nil] at hbuild
  rw [read, tokenize, run_serialize h]
  exact hbuild

end Eunha.Html
