import Eunha.Chars
import Mathlib.Data.List.Basic
import Mathlib.Data.List.Nodup
import Mathlib.Data.String.Basic

/-!
# HTML fragments as trees

A parsed fragment as the sanitizer rewrites it, and its serialization: text and
attribute values are escaped, void elements have no end tag, and a preformatted
text that starts with a line feed gets another one before it.
-/
namespace Eunha.Html

abbrev Text := List Char

abbrev Attrs := List (Text × Text)

inductive Node where
  | text (t : Text)
  | element (name : Text) (attrs : Attrs) (children : List Node)

structure Element where
  name : Text
  attrs : Attrs
  children : List Node

def Element.node (e : Element) : Node := .element e.name e.attrs e.children

/-! ### Attributes -/

def attr (attrs : Attrs) (name : Text) : Option Text :=
  (attrs.find? fun a => a.1 = name).map Prod.snd

/-- Replaced where it is, or appended. -/
def setAttr (name value : Text) : Attrs → Attrs
  | [] => [(name, value)]
  | a :: attrs => if a.1 = name then (a.1, value) :: attrs else a :: setAttr name value attrs

def removeAttr (name : Text) (attrs : Attrs) : Attrs := attrs.filter fun a => a.1 ≠ name

/-! ### Contents -/

def textInto : List Node → Text
  | [] => []
  | .text t :: nodes => t ++ textInto nodes
  | .element _ _ children :: nodes => textInto children ++ textInto nodes

def Element.text (e : Element) : Text := textInto e.children

def Element.elementChildren (e : Element) : List Element :=
  e.children.filterMap fun
    | .element name attrs children => some ⟨name, attrs, children⟩
    | .text _ => none

def elements : List Node → List Element
  | [] => []
  | .text _ :: nodes => elements nodes
  | .element name attrs children :: nodes =>
      ⟨name, attrs, children⟩ :: (elements children ++ elements nodes)

/-! ### Serialization -/

def voidElements : List Text :=
  ["area", "base", "basefont", "bgsound", "br", "col", "embed", "frame", "hr", "img", "input",
    "keygen", "link", "meta", "param", "source", "track", "wbr"].map String.toList

def rawTextElements : List Text :=
  ["style", "script", "xmp", "iframe", "noembed", "noframes", "plaintext", "noscript"].map
    String.toList

def newlineElements : List Text := ["pre", "textarea", "listing"].map String.toList

def escapeTextChar (c : Char) : Text :=
  if c = '&' then "&amp;".toList
  else if c = '<' then "&lt;".toList
  else if c = '>' then "&gt;".toList
  else if c = '\u00a0' then "&nbsp;".toList
  else [c]

def escapeAttributeChar (c : Char) : Text :=
  if c = '&' then "&amp;".toList
  else if c = '"' then "&quot;".toList
  else if c = '\u00a0' then "&nbsp;".toList
  else [c]

def escapeText (text : Text) : Text := text.flatMap escapeTextChar

def escapeAttribute (value : Text) : Text := value.flatMap escapeAttributeChar

/-- A line feed first in these elements would not be read as text. -/
def addsNewline (name : Text) (children : List Node) : Bool :=
  name ∈ newlineElements &&
    match children with
    | .text t :: _ => t.head? = some '\n'
    | _ => false

def writeAttrs (attrs : Attrs) : Text :=
  attrs.flatMap fun (key, value) => ' ' :: (key ++ '=' :: '"' :: (escapeAttribute value ++ ['"']))

def serializeInto (raw : Bool) : List Node → Text
  | [] => []
  | .text t :: nodes => (if raw then t else escapeText t) ++ serializeInto raw nodes
  | .element name attrs children :: nodes =>
      '<' :: (name ++ (writeAttrs attrs ++ ['>'])) ++
        (if name ∈ voidElements then []
        else
          (if addsNewline name children then ['\n'] else []) ++
            (serializeInto (name ∈ rawTextElements) children ++ '<' :: '/' :: (name ++ ['>']))) ++
        serializeInto raw nodes

def serialize (nodes : List Node) : Text := serializeInto false nodes

end Eunha.Html
