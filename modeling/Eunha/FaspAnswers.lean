import Mathlib.Data.Int.Notation
import Mathlib.Data.List.DropRight
import Eunha.Encodings

/-!
# The answers of a service provider

A provider's answer is accepted on the digest of its body and on a signature over
whatever its own `Signature-Input` says is covered. The parser of structured fields, the
digest and the check of a signature are parameters.
-/
namespace Eunha.FaspAnswers
open Eunha.Encodings

abbrev Text := List Char
abbrev Bytes := List UInt8

/-! ### Structured fields -/

inductive BareItem where
  | integer (value : ℤ)
  | decimal (thousandths : ℤ)
  | string (value : Text)
  | token (value : Text)
  | byteSequence (value : Bytes)
  | boolean (value : Bool)
  | date (value : ℤ)
  | displayString (value : Text)
deriving DecidableEq

abbrev Parameters := List (Text × BareItem)

structure Item where
  bareItem : BareItem
  params : Parameters
deriving DecidableEq

structure InnerList where
  items : List Item
  params : Parameters
deriving DecidableEq

inductive ListEntry where
  | item (item : Item)
  | innerList (list : InnerList)
deriving DecidableEq

abbrev Dictionary := List (Text × ListEntry)

/-- The parts of the check that live outside: parsing and writing structured fields, the
hash, the keys and the signatures made with them. -/
structure Outside (K : Type) where
  parseDictionary : Text → Except Text Dictionary
  keyFromStr : Text → Except Text Text
  serialize : ListEntry → Option Text
  sha256 : Bytes → Bytes
  verifyEd25519 : K → Bytes → Bytes → Except Text Unit
  parseJson : Bytes → Except Text Text

/-! ### Headers -/

/-- Header names in lower case, with their values, in order. -/
abbrev HeaderMap := List (Text × Bytes)

def getAll (headers : HeaderMap) (name : Text) : List Bytes :=
  (headers.filter fun entry => entry.1 = name.map Char.toLower).map Prod.snd

def isVisibleAscii (byte : UInt8) : Bool :=
  (32 ≤ byte.toNat && byte.toNat < 127) || byte.toNat = 9

def toStr (value : Bytes) : Option Text :=
  if value.all isVisibleAscii then some (value.map fun byte => Char.ofNat byte.toNat) else none

def isBlank (c : Char) : Bool := c = ' ' ∨ c = '\t'

def trim (text : Text) : Text := (text.dropWhile isBlank).rdropWhile isBlank

def joined (values : List Text) : Text := [',', ' '].intercalate values

/-- `header`: every value of a name that is text, joined. -/
def header (headers : HeaderMap) (name : Text) : Option Text :=
  let values := (getAll headers name).filterMap toStr
  if values.isEmpty then none else some (joined values)

def contentDigestName : Text := "content-digest".toList
def signatureInputName : Text := "signature-input".toList
def signatureName : Text := "signature".toList
def statusName : Text := "@status".toList

/-! ### What a signature covers -/

/-- The first signature of a `Signature-Input`. -/
structure Input where
  label : Text
  covered : List Text
  params : Text
  parameters : Parameters

def quoted (name : Text) : Text := '"' :: name ++ ['"']

/-- `{name:?}`. -/
def debug (name : Text) : Text :=
  quoted (name.flatMap fun c => if c = '"' ∨ c = '\\' then ['\\', c] else [c])

def malformedInput (why : Text) : Text := "Signature-Input: ".toList ++ why
def malformedSignature (why : Text) : Text := "Signature: ".toList ++ why

def componentName (item : Item) : Except Text Text :=
  match item.bareItem with
  | .string name =>
      if item.params.isEmpty then .ok name
      else .error ("cannot verify the component ".toList ++ debug name ++
        " with parameters".toList)
  | _ => .error (malformedInput "a covered component is not a string".toList)

def coverNext (covered : List Text) (item : Item) : Except Text (List Text) := do
  let name ← componentName item
  if name ∈ covered then .error (malformedInput (debug name ++ " is covered twice".toList))
  else .ok (covered ++ [name])

section
variable {K : Type} (outside : Outside K)

def Input.parse (text : Text) : Except Text Input := do
  let dictionary ← (outside.parseDictionary text).mapError malformedInput
  match dictionary with
  | [] => .error (malformedInput "no signature".toList)
  | (label, entry) :: _ =>
      match entry with
      | .item _ => .error (malformedInput "not a component list".toList)
      | .innerList list => do
          let covered ← list.items.foldlM coverNext []
          match outside.serialize entry with
          | none => .error (malformedInput "no signature".toList)
          | some params =>
              .ok { label := label, covered := covered, params := params
                    parameters := list.params }

def Input.integer (input : Input) (name : Text) : Option ℤ :=
  match outside.keyFromStr name with
  | .error _ => none
  | .ok key =>
      match input.parameters.lookup key with
      | some (.integer value) => some value
      | _ => none

def signatureBytes (text label : Text) : Except Text Bytes := do
  let dictionary ← (outside.parseDictionary text).mapError malformedSignature
  let key ← (outside.keyFromStr label).mapError malformedSignature
  match dictionary.lookup key with
  | some (.item item) =>
      match item.bareItem with
      | .byteSequence bytes => .ok bytes
      | _ => .error (malformedSignature "not a byte sequence".toList)
  | some (.innerList _) => .error (malformedSignature "not a byte sequence".toList)
  | none => .error (malformedSignature ("no signature labelled ".toList ++ debug label))

/-! ### The base of a signature -/

def componentValue (status : ℕ) (headers : HeaderMap) (name : Text) : Except Text Text :=
  if name = statusName then .ok (Nat.toDigits 10 status)
  else if name.head? = some '@' then
    .error ("cannot verify the component ".toList ++ debug name)
  else
    let values := ((getAll headers name).filterMap toStr).map trim
    if values.isEmpty then .error ("Missing component in message: ".toList ++ debug name)
    else .ok (joined values)

def line (name value : Text) : Text := quoted name ++ [':', ' '] ++ value ++ ['\n']

def components (status : ℕ) (headers : HeaderMap) : List Text → Except Text Text
  | [] => .ok []
  | name :: names => do
      let value ← componentValue status headers name
      let more ← components status headers names
      .ok (line name value ++ more)

def signatureParams (input : Input) : Text := "\"@signature-params\": ".toList ++ input.params

def signatureBase (status : ℕ) (headers : HeaderMap) (input : Input) : Except Text Text := do
  let lines ← components status headers input.covered
  .ok (lines ++ signatureParams input)

def isExpired (input : Input) (now : ℤ) : Bool :=
  match input.integer outside "expires".toList with
  | some expires => expires < now
  | none => false

/-- `some` of a header that has to be there. -/
def required (found : Option Text) (missing : String) : Except Text Text :=
  match found with
  | some text => .ok text
  | none => .error missing.toList

def refuseIf (condition : Bool) (why : String) : Except Text Unit :=
  if condition then .error why.toList else .ok ()

def verifyResponse (status : ℕ) (headers : HeaderMap) (key : K) (now : ℤ) : Except Text Unit := do
  let signatureInput ← required (header headers signatureInputName) "signature-input is missing"
  let signature ← required (header headers signatureName) "signature is missing"
  let input ← Input.parse outside signatureInput
  refuseIf (isExpired outside input now) "Signature has expired or is invalid"
  let base ← signatureBase status headers input
  let raw ← signatureBytes outside signature input.label
  outside.verifyEd25519 key (utf8 base) raw

/-! ### An answer -/

inductive Error where
  | connection (why : Text)
  | unexpectedResponse (status : ℕ)
  | signature (why : Text)
  | other (why : Text)

structure Response where
  status : ℕ
  headers : HeaderMap
  body : Bytes

def digestPrefix : Text := ['s', 'h', 'a', '-', '2', '5', '6', '=', ':']

/-- `sha-256=:<base64>:`. -/
def contentDigest (body : Bytes) : Text :=
  digestPrefix ++ base64Encode (outside.sha256 body) ++ [':']

def presentHeader (headers : HeaderMap) (name : Text) : Option Text :=
  ((getAll headers name).head?.bind toStr).filter fun text => !(trim text).isEmpty

def checkDigest (response : Response) : Except Error Unit :=
  match presentHeader response.headers contentDigestName with
  | none => .error (.signature "content-digest missing".toList)
  | some digest =>
      if digest ≠ contentDigest outside response.body then
        .error (.signature "content-digest does not match".toList)
      else .ok ()

def checkSignatureInput (response : Response) : Except Error Unit :=
  match presentHeader response.headers signatureInputName with
  | none => .error (.signature "signature-input is missing".toList)
  | some _ => .ok ()

def validate (providerKey : Except Text K) (now : ℤ) (response : Response) : Except Error Unit := do
  if 400 ≤ response.status then .error (.unexpectedResponse response.status)
  checkDigest outside response
  checkSignatureInput response
  let key ← providerKey.mapError Error.other
  (verifyResponse outside response.status response.headers key now).mapError Error.signature

def isAsciiWhitespace (byte : UInt8) : Bool :=
  byte.toNat = 32 ∨ byte.toNat = 9 ∨ byte.toNat = 10 ∨ byte.toNat = 12 ∨ byte.toNat = 13

def readBody (body : Bytes) : Except Error (Option Text) :=
  if body.all isAsciiWhitespace then .ok none
  else ((outside.parseJson body).map some).mapError fun why =>
    .other ("the provider's answer is not JSON: ".toList ++ why)

/-- What `perform` makes of what came back for its request. -/
def perform (providerKey : Except Text K) (now : ℤ) (sent : Except Text Response) :
    Except Error (Option Text) := do
  let response ← sent.mapError Error.connection
  validate outside providerKey now response
  readBody outside response.body

/-! ### What an answer is credited on -/

/-- The signature an answer describes itself as carrying. -/
def inputOf (response : Response) : Except Text Input := do
  let signatureInput ← required (header response.headers signatureInputName)
    "signature-input is missing"
  Input.parse outside signatureInput

def baseOf (response : Response) : Except Text Text := do
  let input ← inputOf outside response
  signatureBase response.status response.headers input

def Accepted (providerKey : Except Text K) (response : Response) : Prop :=
  ∃ now body, perform outside providerKey now (.ok response) = .ok body

def SameInput (response other : Response) : Prop :=
  getAll other.headers signatureInputName = getAll response.headers signatureInputName

def SameSignature (response other : Response) : Prop :=
  SameInput response other ∧
    getAll other.headers signatureName = getAll response.headers signatureName

/-- Signatures as they ought to be: only its holder makes a key's, each on one message;
and a hash that tells every two bodies apart. -/
structure Ideal (made : K → Bytes → Bytes → Prop) : Prop where
  unforgeable : ∀ key message signature,
    outside.verifyEd25519 key message signature = .ok () → made key message signature
  binding : ∀ key message other signature,
    made key message signature → made key other signature → message = other
  injective : Function.Injective outside.sha256

structure Credited (made : K → Bytes → Bytes → Prop) (providerKey : Except Text K)
    (response : Response) : Prop where
  signed : ∃ key base signature, providerKey = .ok key ∧ baseOf outside response = .ok base ∧
    made key (utf8 base) signature
  determined : ∀ other, Accepted outside providerKey other → SameInput response other →
    baseOf outside other = baseOf outside response →
    other.status = response.status ∧
      contentDigest outside other.body = contentDigest outside response.body
  once : ∀ other, Accepted outside providerKey other → SameSignature response other →
    other.status = response.status ∧ other.body = response.body

def Covers (response : Response) : Prop :=
  ∃ input, inputOf outside response = .ok input ∧ statusName ∈ input.covered ∧
    ∃ name ∈ input.covered, name.map Char.toLower = contentDigestName

end

/-! ### Runs that end well -/

theorem bind_ok_iff {ε α β : Type} {x : Except ε α} {f : α → Except ε β} {b : β} :
    (x >>= f) = .ok b ↔ ∃ a, x = .ok a ∧ f a = .ok b := by
  cases x with
  | error why => exact ⟨(fun h => nomatch h), (fun ⟨_, h, _⟩ => nomatch h)⟩
  | ok a =>
      constructor
      · intro h
        exact ⟨a, rfl, h⟩
      · rintro ⟨_, h, hf⟩
        cases h
        exact hf

theorem mapError_ok_iff {ε ε' α : Type} {x : Except ε α} {f : ε → ε'} {a : α} :
    x.mapError f = .ok a ↔ x = .ok a := by
  cases x with
  | error why => exact ⟨(fun h => nomatch h), (fun h => nomatch h)⟩
  | ok a' => exact ⟨(fun h => congrArg _ (Except.ok.inj h)), (fun h => congrArg _ (Except.ok.inj h))⟩

theorem required_ok_iff {found : Option Text} {missing : String} {text : Text} :
    required found missing = .ok text ↔ found = some text := by
  cases found with
  | none => exact ⟨(fun h => nomatch h), (fun h => nomatch h)⟩
  | some found =>
      exact ⟨(fun h => congrArg some (Except.ok.inj h)), (fun h => congrArg _ (Option.some.inj h))⟩

theorem refuseIf_ok_iff {condition : Bool} {why : String} :
    refuseIf condition why = .ok () ↔ condition = false := by
  cases condition with
  | false => exact ⟨(fun _ => rfl), (fun _ => rfl)⟩
  | true => exact ⟨(fun h => nomatch h), (fun h => nomatch h)⟩

section
variable {K : Type} {outside : Outside K} {status : ℕ} {headers : HeaderMap} {key : K} {now : ℤ}
  {providerKey : Except Text K} {response other : Response}

theorem verifyResponse_ok_iff :
    verifyResponse outside status headers key now = .ok () ↔
      ∃ signatureInput signature input base raw,
        header headers signatureInputName = some signatureInput ∧
        header headers signatureName = some signature ∧
        Input.parse outside signatureInput = .ok input ∧ isExpired outside input now = false ∧
        signatureBase status headers input = .ok base ∧
        signatureBytes outside signature input.label = .ok raw ∧
        outside.verifyEd25519 key (utf8 base) raw = .ok () := by
  unfold verifyResponse
  simp only [bind_ok_iff, required_ok_iff]
  constructor
  · rintro ⟨signatureInput, hinput, signature, hsignature, input, hparse, ⟨⟩, hexpired, base,
      hbase, raw, hraw, hverify⟩
    exact ⟨signatureInput, signature, input, base, raw, hinput, hsignature, hparse,
      refuseIf_ok_iff.1 hexpired, hbase, hraw, hverify⟩
  · rintro ⟨signatureInput, signature, input, base, raw, hinput, hsignature, hparse, hexpired,
      hbase, hraw, hverify⟩
    exact ⟨signatureInput, hinput, signature, hsignature, input, hparse, (),
      refuseIf_ok_iff.2 hexpired, base, hbase, raw, hraw, hverify⟩

theorem checkDigest_ok_iff :
    checkDigest outside response = .ok () ↔
      presentHeader response.headers contentDigestName =
        some (contentDigest outside response.body) := by
  unfold checkDigest
  cases presentHeader response.headers contentDigestName with
  | none => exact ⟨(fun h => nomatch h), (fun h => nomatch h)⟩
  | some digest =>
      by_cases h : digest = contentDigest outside response.body
      · subst h
        exact ⟨(fun _ => rfl), (fun _ => if_neg fun h => h rfl)⟩
      · constructor
        · intro hok
          dsimp only at hok
          rw [if_pos h] at hok
          exact nomatch hok
        · intro heq
          exact absurd (Option.some.inj heq) h

theorem checkSignatureInput_ok_iff :
    checkSignatureInput response = .ok () ↔
      (presentHeader response.headers signatureInputName).isSome = true := by
  unfold checkSignatureInput
  cases presentHeader response.headers signatureInputName with
  | none => exact ⟨(fun h => nomatch h), (fun h => nomatch h)⟩
  | some text => exact ⟨(fun _ => rfl), (fun _ => rfl)⟩

structure Passed (outside : Outside K) (providerKey : Except Text K) (now : ℤ)
    (response : Response) : Prop where
  status : response.status < 400
  digest : presentHeader response.headers contentDigestName =
    some (contentDigest outside response.body)
  present : (presentHeader response.headers signatureInputName).isSome = true
  verified : ∃ key, providerKey = .ok key ∧
    verifyResponse outside response.status response.headers key now = .ok ()
  read : ∃ body, readBody outside response.body = .ok body

theorem validate_ok_iff :
    validate outside providerKey now response = .ok () ↔
      response.status < 400 ∧
        presentHeader response.headers contentDigestName =
          some (contentDigest outside response.body) ∧
        (presentHeader response.headers signatureInputName).isSome = true ∧
        ∃ key, providerKey = .ok key ∧
          verifyResponse outside response.status response.headers key now = .ok () := by
  unfold validate
  by_cases hstatus : 400 ≤ response.status
  · rw [if_pos hstatus]
    exact ⟨(fun h => nomatch h), (fun h => absurd h.1 (Nat.not_lt.2 hstatus))⟩
  · rw [if_neg hstatus]
    have hlt := Nat.lt_of_not_le hstatus
    simp only [bind_ok_iff, mapError_ok_iff, hlt, true_and]
    constructor
    · rintro ⟨⟨⟩, hdigest, ⟨⟩, hpresent, key, hkey, hverify⟩
      exact ⟨checkDigest_ok_iff.1 hdigest, checkSignatureInput_ok_iff.1 hpresent, key, hkey,
        hverify⟩
    · rintro ⟨hdigest, hpresent, key, hkey, hverify⟩
      exact ⟨(), checkDigest_ok_iff.2 hdigest, (), checkSignatureInput_ok_iff.2 hpresent, key,
        hkey, hverify⟩

theorem accepted_iff : Accepted outside providerKey response ↔
    ∃ now, Passed outside providerKey now response := by
  unfold Accepted perform
  constructor
  · rintro ⟨now, body, h⟩
    obtain ⟨sent, hsent, h⟩ := bind_ok_iff.1 h
    obtain rfl := Except.ok.inj hsent
    obtain ⟨_, hvalid, hbody⟩ := bind_ok_iff.1 h
    obtain ⟨hstatus, hdigest, hpresent, hverified⟩ := validate_ok_iff.1 hvalid
    exact ⟨now, hstatus, hdigest, hpresent, hverified, body, hbody⟩
  · rintro ⟨now, h⟩
    obtain ⟨body, hbody⟩ := h.read
    refine ⟨now, body, bind_ok_iff.2 ⟨response, rfl, bind_ok_iff.2 ⟨(), ?_, hbody⟩⟩⟩
    exact validate_ok_iff.2 ⟨h.status, h.digest, h.present, h.verified⟩

/-! ### The base determines what it covers -/

/-- Texts that end at the first of a character are told apart, whatever follows. -/
theorem append_cons_inj {α : Type} {a : α} {x x' y y' : List α} (hx : a ∉ x) (hx' : a ∉ x')
    (h : x ++ a :: y = x' ++ a :: y') : x = x' ∧ y = y' := by
  induction x generalizing x' with
  | nil =>
      cases x' with
      | nil => exact ⟨rfl, (List.cons.inj h).2⟩
      | cons b x' => exact absurd (List.cons.inj h).1 (List.ne_of_not_mem_cons hx')
  | cons c x ih =>
      cases x' with
      | nil => exact absurd (List.cons.inj h).1.symm (List.ne_of_not_mem_cons hx)
      | cons b x' =>
          obtain ⟨rfl, hrest⟩ := List.cons.inj h
          obtain ⟨rfl, rfl⟩ := ih (List.not_mem_of_not_mem_cons hx)
            (List.not_mem_of_not_mem_cons hx') hrest
          exact ⟨rfl, rfl⟩

theorem ne_newline_of_visible {byte : UInt8} (h : isVisibleAscii byte = true) :
    Char.ofNat byte.toNat ≠ '\n' := by
  revert h
  have hall : ∀ n < 256, (32 ≤ n ∧ n < 127 ∨ n = 9) → Char.ofNat n ≠ '\n' := by decide +kernel
  intro h
  apply hall _ byte.toNat_lt
  simpa [isVisibleAscii] using h

theorem toStr_no_newline {value : Bytes} {text : Text} (h : toStr value = some text) :
    '\n' ∉ text := by
  unfold toStr at h
  split at h
  · rename_i hvisible
    obtain rfl := Option.some.inj h
    intro hmem
    obtain ⟨byte, hbyte, heq⟩ := List.mem_map.1 hmem
    exact ne_newline_of_visible (List.all_eq_true.1 hvisible byte hbyte) heq
  · exact nomatch h

theorem mem_of_mem_trim {text : Text} {c : Char} (h : c ∈ trim text) : c ∈ text :=
  (List.dropWhile_suffix _).subset ((List.rdropWhile_prefix _ _).subset h)

theorem mem_joined {values : List Text} {c : Char} (h : c ∈ joined values) :
    (∃ value ∈ values, c ∈ value) ∨ c = ',' ∨ c = ' ' := by
  unfold joined at h
  induction values with
  | nil => exact nomatch h
  | cons value values ih =>
      cases values with
      | nil =>
          rw [List.intercalate_singleton] at h
          exact Or.inl ⟨value, List.mem_singleton_self _, h⟩
      | cons second values =>
          rw [List.intercalate_cons_cons, List.mem_append, List.mem_append] at h
          rcases h with (h | h) | h
          · exact Or.inl ⟨value, List.mem_cons_self, h⟩
          · exact Or.inr (List.mem_pair.1 h)
          · exact (ih h).imp_left fun ⟨v, hv, hc⟩ => ⟨v, List.mem_cons_of_mem _ hv, hc⟩

theorem componentValue_no_newline {name value : Text}
    (h : componentValue status headers name = .ok value) : '\n' ∉ value := by
  unfold componentValue at h
  split at h
  · obtain rfl := Except.ok.inj h
    intro hmem
    exact absurd (Nat.isDigit_of_mem_toDigits (by decide) (by decide) hmem) (by decide)
  · split at h
    · exact nomatch h
    · dsimp only at h
      split at h
      · exact nomatch h
      · obtain rfl := Except.ok.inj h
        intro hmem
        rcases mem_joined hmem with ⟨value, hvalue, hc⟩ | hc | hc
        · obtain ⟨text, htext, rfl⟩ := List.mem_map.1 hvalue
          obtain ⟨raw, -, hraw⟩ := List.mem_filterMap.1 htext
          exact toStr_no_newline hraw (mem_of_mem_trim hc)
        · exact absurd hc (by decide)
        · exact absurd hc (by decide)

theorem components_congr {names : List Text}
    (h : ∀ name ∈ names, componentValue other.status other.headers name =
      componentValue response.status response.headers name) :
    components other.status other.headers names =
      components response.status response.headers names := by
  induction names with
  | nil => rfl
  | cons name names ih =>
      rw [components, components, h name List.mem_cons_self,
        ih fun name hname => h name (List.mem_cons_of_mem _ hname)]

theorem componentValue_eq_of_components {names : List Text} {lines : Text}
    (h : components response.status response.headers names = .ok lines)
    (hother : components other.status other.headers names = .ok lines) :
    ∀ name ∈ names, ∃ value,
      componentValue response.status response.headers name = .ok value ∧
        componentValue other.status other.headers name = .ok value := by
  induction names generalizing lines with
  | nil => exact fun _ h => nomatch h
  | cons name names ih =>
      rw [components] at h hother
      obtain ⟨value, hvalue, h⟩ := bind_ok_iff.1 h
      obtain ⟨more, hmore, h⟩ := bind_ok_iff.1 h
      obtain ⟨value', hvalue', hother⟩ := bind_ok_iff.1 hother
      obtain ⟨more', hmore', hother⟩ := bind_ok_iff.1 hother
      have hlines : line name value ++ more = line name value' ++ more' :=
        (Except.ok.inj h).trans (Except.ok.inj hother).symm
      simp only [line, List.append_assoc, List.append_cancel_left_eq] at hlines
      obtain ⟨rfl, rfl⟩ := append_cons_inj (componentValue_no_newline hvalue)
        (componentValue_no_newline hvalue') hlines
      intro covered hcovered
      rcases List.mem_cons.1 hcovered with rfl | hcovered
      · exact ⟨value, hvalue, hvalue'⟩
      · exact ih hmore hmore' covered hcovered

theorem baseOf_ok_iff {base : Text} : baseOf outside response = .ok base ↔
    ∃ input lines, inputOf outside response = .ok input ∧
      components response.status response.headers input.covered = .ok lines ∧
        lines ++ signatureParams input = base := by
  unfold baseOf signatureBase
  simp only [bind_ok_iff, Except.ok.injEq]
  constructor
  · rintro ⟨input, hinput, lines, hlines, h⟩
    exact ⟨input, lines, hinput, hlines, h⟩
  · rintro ⟨input, lines, hinput, hlines, h⟩
    exact ⟨input, hinput, lines, hlines, h⟩

theorem header_congr {name : Text} (h : getAll other.headers name = getAll response.headers name) :
    header other.headers name = header response.headers name := by
  rw [header, header, h]

theorem inputOf_congr (h : SameInput response other) :
    inputOf outside other = inputOf outside response := by
  rw [inputOf, inputOf, header_congr h]

theorem status_eq {value : Text}
    (h : componentValue response.status response.headers statusName = .ok value)
    (hother : componentValue other.status other.headers statusName = .ok value) :
    other.status = response.status := by
  rw [componentValue, if_pos rfl] at h hother
  have hdigits := (Except.ok.inj hother).trans (Except.ok.inj h).symm
  rw [← Nat.ofDigitChars_toDigits (n := other.status) (by decide : 1 < 10) le_rfl, hdigits,
    Nat.ofDigitChars_toDigits (by decide) le_rfl]

/-! ### The line of the digest -/

theorem toStr_head {values : List Bytes} {text : Text} (h : values.head?.bind toStr = some text) :
    ∃ rest, values.filterMap toStr = text :: rest := by
  cases values with
  | nil => exact nomatch h
  | cons value values =>
      have hvalue : toStr value = some text := h
      exact ⟨values.filterMap toStr, List.filterMap_cons_some hvalue⟩

theorem trim_contentDigest (body : Bytes) :
    trim (contentDigest outside body) = contentDigest outside body := by
  have hfirst : (contentDigest outside body).dropWhile isBlank = contentDigest outside body := rfl
  rw [trim, hfirst, contentDigest, List.rdropWhile_concat_neg]
  decide

theorem joined_cons (value : Text) (values : List Text) : ∃ rest,
    joined (value :: values) = value ++ rest := by
  unfold joined
  cases values with
  | nil => exact ⟨[], by rw [List.intercalate_singleton, List.append_nil]⟩
  | cons second values =>
      exact ⟨_, by rw [List.intercalate_cons_cons, List.append_assoc]⟩

theorem contentDigest_component {name value : Text} (hname : name.map Char.toLower = contentDigestName)
    (hdigest : presentHeader response.headers contentDigestName =
      some (contentDigest outside response.body))
    (h : componentValue response.status response.headers name = .ok value) :
    ∃ rest, value = contentDigest outside response.body ++ rest := by
  have hall : getAll response.headers name = getAll response.headers contentDigestName := by
    unfold getAll
    rw [hname]
    rfl
  have hstatus : name ≠ statusName := by
    rintro rfl
    exact absurd hname (by decide)
  have hfirst : name.head? ≠ some '@' := by
    intro hfirst
    have := congrArg List.head? hname
    rw [List.head?_map, hfirst] at this
    exact absurd this (by decide)
  obtain ⟨hhead, -⟩ := Option.filter_eq_some_iff.1 hdigest
  obtain ⟨others, hothers⟩ := toStr_head hhead
  rw [componentValue, if_neg hstatus, if_neg hfirst, hall, hothers, List.map_cons,
    trim_contentDigest] at h
  obtain ⟨rest, hrest⟩ := joined_cons (contentDigest outside response.body) (others.map trim)
  exact ⟨rest, (Except.ok.inj h).symm.trans hrest⟩

theorem colon_notMem_base64Encode (data : Bytes) : ':' ∉ base64Encode data := by
  intro h
  rcases mem_base64Encode h with h | h
  · exact absurd h (by decide)
  · exact absurd h (by decide)

theorem contentDigest_of_append {body body' : Bytes} {rest rest' : Text}
    (h : contentDigest outside body ++ rest = contentDigest outside body' ++ rest') :
    contentDigest outside body = contentDigest outside body' := by
  simp only [contentDigest, List.append_assoc, List.append_cancel_left_eq] at h ⊢
  rw [(append_cons_inj (colon_notMem_base64Encode _) (colon_notMem_base64Encode _) h).1]

theorem contentDigest_injective (h : Function.Injective outside.sha256) {body body' : Bytes}
    (heq : contentDigest outside body = contentDigest outside body') : body = body' := by
  simp only [contentDigest, List.append_assoc, List.append_cancel_left_eq,
    List.append_cancel_right_eq] at heq
  have := congrArg base64Decode heq
  rw [base64Decode_base64Encode, base64Decode_base64Encode] at this
  exact h (Option.some.inj this)

/-! ### Answers whose signature covers both -/

theorem verified_of_accepted (h : Accepted outside providerKey response) :
    ∃ key signature input base raw, providerKey = .ok key ∧
      header response.headers signatureName = some signature ∧
      inputOf outside response = .ok input ∧ baseOf outside response = .ok base ∧
      signatureBytes outside signature input.label = .ok raw ∧
      outside.verifyEd25519 key (utf8 base) raw = .ok () := by
  obtain ⟨now, hpassed⟩ := accepted_iff.1 h
  obtain ⟨key, hkey, hverify⟩ := hpassed.verified
  obtain ⟨signatureInput, signature, input, base, raw, hheader, hsignature, hparse, -, hbase, hraw,
    hverify⟩ := verifyResponse_ok_iff.1 hverify
  have hinput : inputOf outside response = .ok input :=
    bind_ok_iff.2 ⟨signatureInput, required_ok_iff.2 hheader, hparse⟩
  exact ⟨key, signature, input, base, raw, hkey, hsignature, hinput,
    bind_ok_iff.2 ⟨input, hinput, hbase⟩, hraw, hverify⟩

theorem determined_of_covers (hcovers : Covers outside response)
    (h : Accepted outside providerKey response) (hother : Accepted outside providerKey other)
    (hsame : SameInput response other)
    (hbase : baseOf outside other = baseOf outside response) :
    other.status = response.status ∧
      contentDigest outside other.body = contentDigest outside response.body := by
  obtain ⟨input, hinput, hstatus, name, hname, hlower⟩ := hcovers
  obtain ⟨now, hpassed⟩ := accepted_iff.1 h
  obtain ⟨now', hpassed'⟩ := accepted_iff.1 hother
  obtain ⟨-, -, -, base, -, -, -, -, hresponse, -, -⟩ := verified_of_accepted h
  have hotherBase := hbase.trans hresponse
  obtain ⟨input', lines, hinput', hlines, heq⟩ := baseOf_ok_iff.1 hresponse
  obtain rfl := Except.ok.inj (hinput.symm.trans hinput')
  obtain ⟨input', lines', hinput', hlines', heq'⟩ := baseOf_ok_iff.1 hotherBase
  rw [inputOf_congr hsame] at hinput'
  obtain rfl := Except.ok.inj (hinput.symm.trans hinput')
  obtain rfl := List.append_cancel_right (heq.trans heq'.symm)
  have hvalues := componentValue_eq_of_components hlines hlines'
  constructor
  · obtain ⟨value, hvalue, hvalue'⟩ := hvalues statusName hstatus
    exact status_eq hvalue hvalue'
  · obtain ⟨value, hvalue, hvalue'⟩ := hvalues name hname
    obtain ⟨rest, hrest⟩ := contentDigest_component hlower hpassed.digest hvalue
    obtain ⟨rest', hrest'⟩ := contentDigest_component hlower hpassed'.digest hvalue'
    exact contentDigest_of_append (hrest'.symm.trans hrest)

theorem base_eq_of_sameSignature {made : K → Bytes → Bytes → Prop} (ideal : Ideal outside made)
    (h : Accepted outside providerKey response) (hother : Accepted outside providerKey other)
    (hsame : SameSignature response other) :
    baseOf outside other = baseOf outside response := by
  obtain ⟨key, signature, input, base, raw, hkey, hsignature, hinput, hbase, hraw, hverify⟩ :=
    verified_of_accepted h
  obtain ⟨key', signature', input', base', raw', hkey', hsignature', hinput', hbase', hraw',
    hverify'⟩ := verified_of_accepted hother
  obtain rfl := Except.ok.inj (hkey.symm.trans hkey')
  rw [inputOf_congr hsame.1] at hinput'
  obtain rfl := Except.ok.inj (hinput.symm.trans hinput')
  rw [header_congr hsame.2] at hsignature'
  obtain rfl := Option.some.inj (hsignature.symm.trans hsignature')
  obtain rfl := Except.ok.inj (hraw.symm.trans hraw')
  have hmessages := ideal.binding key _ _ raw (ideal.unforgeable _ _ _ hverify)
    (ideal.unforgeable _ _ _ hverify')
  rw [hbase, hbase', utf8_injective hmessages]

theorem credited_of_covers {made : K → Bytes → Bytes → Prop} (ideal : Ideal outside made)
    (h : Accepted outside providerKey response) (hcovers : Covers outside response) :
    Credited outside made providerKey response where
  signed := by
    obtain ⟨key, signature, input, base, raw, hkey, -, -, hbase, -, hverify⟩ :=
      verified_of_accepted h
    exact ⟨key, base, raw, hkey, hbase, ideal.unforgeable _ _ _ hverify⟩
  determined := fun other hother hsame hbase => determined_of_covers hcovers h hother hsame hbase
  once := by
    intro other hother hsame
    obtain ⟨hstatus, hdigest⟩ := determined_of_covers hcovers h hother hsame.1
      (base_eq_of_sameSignature ideal h hother hsame)
    exact ⟨hstatus, contentDigest_injective ideal.injective hdigest⟩

/-! ### Answers whose signature leaves something out -/

theorem accepted_of_same (h : Accepted outside providerKey response)
    (hstatus : other.status < 400)
    (hdigest : presentHeader other.headers contentDigestName =
      some (contentDigest outside other.body))
    (hsame : SameSignature response other)
    (hvalues : ∀ input, inputOf outside response = .ok input → ∀ name ∈ input.covered,
      componentValue other.status other.headers name =
        componentValue response.status response.headers name)
    (hread : ∃ body, readBody outside other.body = .ok body) :
    Accepted outside providerKey other := by
  obtain ⟨now, hpassed⟩ := accepted_iff.1 h
  refine accepted_iff.2 ⟨now, hstatus, hdigest, ?_, ?_, hread⟩
  · rw [presentHeader, hsame.1]
    exact hpassed.present
  · obtain ⟨key, hkey, hverify⟩ := hpassed.verified
    obtain ⟨signatureInput, signature, input, base, raw, hheader, hsignature, hparse, hexpired,
      hbase, hraw, hverify⟩ := verifyResponse_ok_iff.1 hverify
    have hinput : inputOf outside response = .ok input :=
      bind_ok_iff.2 ⟨signatureInput, required_ok_iff.2 hheader, hparse⟩
    refine ⟨key, hkey, verifyResponse_ok_iff.2 ⟨signatureInput, signature, input, base, raw, ?_,
      ?_, hparse, hexpired, ?_, hraw, hverify⟩⟩
    · rw [header_congr hsame.1, hheader]
    · rw [header_congr hsame.2, hsignature]
    · rw [signatureBase, components_congr (hvalues input hinput)]
      exact hbase

def withOtherStatus (response : Response) : Response :=
  { response with status := if response.status = 200 then 201 else 200 }

theorem withOtherStatus_status_ne : (withOtherStatus response).status ≠ response.status := by
  unfold withOtherStatus
  dsimp only
  split <;> omega

theorem accepted_withOtherStatus (h : Accepted outside providerKey response)
    (huncovered : ∀ input, inputOf outside response = .ok input → statusName ∉ input.covered) :
    Accepted outside providerKey (withOtherStatus response) := by
  obtain ⟨now, hpassed⟩ := accepted_iff.1 h
  apply accepted_of_same h
  · unfold withOtherStatus
    dsimp only
    split <;> omega
  · exact hpassed.digest
  · exact ⟨rfl, rfl⟩
  · intro input hinput name hname
    have hne : name ≠ statusName := by
      rintro rfl
      exact huncovered input hinput hname
    rw [componentValue, componentValue, if_neg hne, if_neg hne]
    rfl
  · exact hpassed.read

def ascii (text : Text) : Bytes := text.map fun c => UInt8.ofNat c.toNat

def withOtherBody (outside : Outside K) (response : Response) : Response :=
  let body := if response.body = [] then [32] else []
  { response with
    body := body
    headers := (contentDigestName, ascii (contentDigest outside body)) ::
      response.headers.filter fun entry => entry.1 ≠ contentDigestName }

theorem withOtherBody_body_ne : (withOtherBody outside response).body ≠ response.body := by
  unfold withOtherBody
  dsimp only
  split
  · rename_i h
    rw [h]
    exact List.cons_ne_nil _ _
  · rename_i h
    exact fun heq => h heq.symm

theorem toStr_ascii {text : Text} (h : ∀ c ∈ text, 32 ≤ c.toNat ∧ c.toNat < 127) :
    toStr (ascii text) = some text := by
  have hbyte : ∀ c ∈ text, (UInt8.ofNat c.toNat).toNat = c.toNat := by
    intro c hc
    have := h c hc
    rw [UInt8.toNat_ofNat']
    exact Nat.mod_eq_of_lt (by omega)
  have hvisible : (ascii text).all isVisibleAscii = true := by
    rw [List.all_eq_true]
    intro byte hmem
    obtain ⟨c, hc, rfl⟩ := List.mem_map.1 hmem
    have hbounds := h c hc
    rw [isVisibleAscii, hbyte c hc]
    simp [hbounds]
  rw [toStr, if_pos hvisible, ascii, List.map_map]
  apply congrArg some
  refine (List.map_congr_left ?_).trans (List.map_id text)
  intro c hc
  show Char.ofNat (UInt8.ofNat c.toNat).toNat = c
  rw [hbyte c hc, Char.ofNat_toNat]

theorem contentDigest_visible (body : Bytes) :
    ∀ c ∈ contentDigest outside body, 32 ≤ c.toNat ∧ c.toNat < 127 := by
  have hall : ∀ c ∈ digestPrefix ++ alphabet ++ ['=', ':'], 32 ≤ c.toNat ∧ c.toNat < 127 := by
    decide +kernel
  intro c hc
  apply hall
  simp only [contentDigest, List.mem_append, List.mem_cons, List.not_mem_nil, or_false] at hc ⊢
  rcases hc with (hc | hc) | hc
  · exact Or.inl (Or.inl hc)
  · exact (mem_base64Encode hc).imp Or.inr Or.inl
  · exact Or.inr (Or.inr hc)

theorem getAll_withOtherBody {name : Text} (h : name.map Char.toLower ≠ contentDigestName) :
    getAll (withOtherBody outside response).headers name = getAll response.headers name := by
  unfold withOtherBody getAll
  dsimp only
  rw [List.filter_cons_of_neg (by simpa using h.symm), List.filter_filter]
  apply congrArg (List.map Prod.snd)
  apply List.filter_congr
  intro entry _
  by_cases hentry : entry.1 = name.map Char.toLower
  · simp [hentry, h]
  · simp [hentry]

theorem getAll_withOtherBody_digest :
    getAll (withOtherBody outside response).headers contentDigestName =
      [ascii (contentDigest outside (withOtherBody outside response).body)] := by
  unfold withOtherBody getAll
  dsimp only
  have hlower : contentDigestName.map Char.toLower = contentDigestName := by decide
  rw [hlower, List.filter_cons_of_pos (by simp), List.filter_filter]
  have hnone : (response.headers.filter fun entry =>
      decide (entry.1 = contentDigestName) && decide (entry.1 ≠ contentDigestName)) = [] := by
    rw [List.filter_eq_nil_iff]
    intro entry _
    simp
  rw [hnone]
  rfl

theorem presentHeader_withOtherBody :
    presentHeader (withOtherBody outside response).headers contentDigestName =
      some (contentDigest outside (withOtherBody outside response).body) := by
  rw [presentHeader, getAll_withOtherBody_digest, List.head?_cons, Option.bind_some,
    toStr_ascii (contentDigest_visible _), Option.filter_some_pos]
  rw [trim_contentDigest]
  rfl

theorem accepted_withOtherBody (h : Accepted outside providerKey response)
    (huncovered : ∀ input, inputOf outside response = .ok input →
      ∀ name ∈ input.covered, name.map Char.toLower ≠ contentDigestName) :
    Accepted outside providerKey (withOtherBody outside response) ∧
      SameSignature response (withOtherBody outside response) := by
  have hsame : SameSignature response (withOtherBody outside response) :=
    ⟨getAll_withOtherBody (by decide), getAll_withOtherBody (by decide)⟩
  obtain ⟨now, hpassed⟩ := accepted_iff.1 h
  refine ⟨accepted_of_same h hpassed.status presentHeader_withOtherBody hsame ?_ ?_, hsame⟩
  · intro input hinput name hname
    unfold componentValue
    rw [getAll_withOtherBody (huncovered input hinput name hname)]
    rfl
  · refine ⟨none, if_pos ?_⟩
    unfold withOtherBody
    dsimp only
    split <;> decide

/-- An accepted answer is what the provider signed, and the only one its signature passes
for, exactly if the signature covers the status and the digest of the body. -/
theorem credited_iff_covers (outside : Outside K) (made : K → Bytes → Bytes → Prop)
    (ideal : Ideal outside made) (providerKey : Except Text K) (response : Response)
    (h : Accepted outside providerKey response) :
    Credited outside made providerKey response ↔ Covers outside response := by
  constructor
  · intro hcredited
    obtain ⟨-, -, input, -, -, -, -, hinput, -, -, -⟩ := verified_of_accepted h
    refine ⟨input, hinput, ?_, ?_⟩
    · by_contra hstatus
      have hother := accepted_withOtherStatus h fun input' hinput' => by
        obtain rfl := Except.ok.inj (hinput.symm.trans hinput')
        exact hstatus
      exact withOtherStatus_status_ne (hcredited.once _ hother ⟨rfl, rfl⟩).1
    · by_contra hdigest
      have hother := accepted_withOtherBody h fun input' hinput' name hname hlower => by
        obtain rfl := Except.ok.inj (hinput.symm.trans hinput')
        exact hdigest ⟨name, hname, hlower⟩
      exact withOtherBody_body_ne (hcredited.once _ hother.1 hother.2).2
  · exact credited_of_covers ideal h

end

/-! ### Two answers -/

def label : Text := ['s', 'i', 'g', '1']

def componentList (covered : List Text) : Text :=
  '(' :: [' '].intercalate (covered.map quoted) ++ [')']

def listEntry (covered : List Text) : ListEntry :=
  .innerList ⟨covered.map fun name => ⟨.string name, []⟩, []⟩

def emptyBase (covered : List Text) : Text :=
  (covered.flatMap fun name =>
    line name (if name = statusName then ['2', '0', '0'] else digestPrefix ++ [':'])) ++
      "\"@signature-params\": ".toList ++ componentList covered

def inputField (covered : List Text) : Text := label ++ '=' :: componentList covered

def signatureField (message : Bytes) : Text :=
  label ++ ['=', ':'] ++ base64Encode message ++ [':']

def plain (covered : List Text) : Outside Unit where
  parseDictionary text :=
    if text = inputField covered then .ok [(label, listEntry covered)]
    else if text = signatureField (utf8 (emptyBase covered)) then
      .ok [(label, .item ⟨.byteSequence (utf8 (emptyBase covered)), []⟩)]
    else .error []
  keyFromStr := .ok
  serialize _ := some (componentList covered)
  sha256 := id
  verifyEd25519 _ message signature := if signature = message then .ok () else .error []
  parseJson := fun _ => .error []

def sameMessage (_ : Unit) (message signature : Bytes) : Prop := signature = message

theorem plain_ideal (covered : List Text) : Ideal (plain covered) sameMessage where
  unforgeable := by
    intro key message signature h
    by_contra hne
    exact nomatch (if_neg hne).symm.trans h
  binding := by
    rintro _ _ _ signature rfl rfl
    rfl
  injective := Function.injective_id

def emptyAnswer (covered : List Text) : Response where
  status := 200
  headers := [(contentDigestName, ascii (digestPrefix ++ [':'])),
    (signatureInputName, ascii (inputField covered)),
    (signatureName, ascii (signatureField (utf8 (emptyBase covered))))]
  body := []

example :
    (perform (plain []) (.ok ()) 0 (.ok { emptyAnswer [] with headers := [] })).isOk = false := by
  decide +kernel

theorem emptyAnswer_accepted (covered : List Text)
    (h : (perform (plain covered) (.ok ()) 0 (.ok (emptyAnswer covered))).isOk = true) :
    Accepted (plain covered) (.ok ()) (emptyAnswer covered) := by
  cases hanswer : perform (plain covered) (.ok ()) 0 (.ok (emptyAnswer covered)) with
  | error why =>
      rw [hanswer] at h
      exact nomatch h
  | ok body => exact ⟨0, body, hanswer⟩

/-- The signature an answer of the provider carries covers both. -/
theorem credited_iff_covers_both :
    Ideal (plain [statusName, contentDigestName]) sameMessage ∧
      Accepted (plain [statusName, contentDigestName]) (.ok ())
        (emptyAnswer [statusName, contentDigestName]) ∧
      (Credited (plain [statusName, contentDigestName]) sameMessage (.ok ())
          (emptyAnswer [statusName, contentDigestName]) ↔
        Covers (plain [statusName, contentDigestName])
          (emptyAnswer [statusName, contentDigestName])) := by
  have haccepted := emptyAnswer_accepted [statusName, contentDigestName] (by decide +kernel)
  exact ⟨plain_ideal _, haccepted, credited_iff_covers _ _ (plain_ideal _) _ _ haccepted⟩

/-- A signature over the status alone: the same headers pass with another body. -/
theorem body_left_out :
    Accepted (plain [statusName]) (.ok ()) (emptyAnswer [statusName]) ∧
      Accepted (plain [statusName]) (.ok ())
        (withOtherBody (plain [statusName]) (emptyAnswer [statusName])) ∧
      SameSignature (emptyAnswer [statusName])
        (withOtherBody (plain [statusName]) (emptyAnswer [statusName])) ∧
      ¬ Credited (plain [statusName]) sameMessage (.ok ()) (emptyAnswer [statusName]) := by
  have haccepted := emptyAnswer_accepted [statusName] (by decide +kernel)
  have hcovered : ((inputOf (plain [statusName]) (emptyAnswer [statusName])).toOption.map
      Input.covered) = some [statusName] := by decide +kernel
  obtain ⟨hother, hsame⟩ := accepted_withOtherBody haccepted fun input h name hname => by
    rw [h] at hcovered
    obtain rfl := List.mem_singleton.1 (Option.some.inj hcovered ▸ hname)
    decide
  refine ⟨haccepted, hother, hsame, ?_⟩
  intro hcredited
  exact withOtherBody_body_ne (hcredited.once _ hother hsame).2

end Eunha.FaspAnswers
