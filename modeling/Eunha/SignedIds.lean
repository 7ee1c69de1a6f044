import Mathlib.Data.List.Basic
import Eunha.Encodings
import Eunha.JsonText

/-!
# Ids signed under the secret key base

Two verifiers with keys of one secret mint ids and read them back: async refresh
ids, which sign a bare string, and signed global ids, which sign an envelope with a
purpose and an expiry. The digests, encodings and dates come from crates, and what
is relied on of them is stated as such.
-/
namespace Eunha.SignedIds

open Encodings JsonText

abbrev Text := List Char

/-- What the crates compute, for their numbers and keys. A time is its nanoseconds
since the epoch. -/
structure Crates (N K : Type) where
  pbkdf2Hmac : (secret salt : Text) → K
  hmac : K → List UInt8 → List UInt8
  hexEncode : List UInt8 → Text
  hexDecode : Text → Option (List UInt8)
  standardEncode : List UInt8 → Text
  urlSafeEncode : List UInt8 → Text
  /-- Standard base64, padded or not. -/
  lenientDecode : Text → Option (List UInt8)
  fromSlice : List UInt8 → Option (Value N)
  toString : Value N → Text
  checkedAddMonth : ℤ → Option ℤ
  /-- `%Y-%m-%dT%H:%M:%S%.3fZ` -/
  format : ℤ → Text
  parseFromRfc3339 : Text → Option ℤ

def truncMillis (time : ℤ) : ℤ := time - time % 1000000

def FourDigitYear (time : ℤ) : Prop :=
  -62167219200 * 1000000000 ≤ time ∧ time < 253402300800 * 1000000000

instance (time : ℤ) : Decidable (FourDigitYear time) :=
  inferInstanceAs (Decidable (_ ∧ _))

def asyncRefreshesSalt : Text := "async_refreshes".toList

def signedGlobalIdsSalt : Text := "signed_global_ids".toList

def toUrlSafe (c : Char) : Char := if c = '+' then '-' else if c = '/' then '_' else c

def toStandard (c : Char) : Char := if c = '-' then '+' else if c = '_' then '/' else c

variable {N K : Type}

/-- What the code relies on. A message has different digests under the two keys; the
decoders undo the encoders; a JSON text is read as the value it denotes, and a time
that was written, to the millisecond. -/
structure Crates.Documented (crates : Crates N K) : Prop where
  hmac_length : ∀ key message, (crates.hmac key message).length = 20
  hmac_ideal : ∀ secret message,
    crates.hmac (crates.pbkdf2Hmac secret asyncRefreshesSalt) message ≠
      crates.hmac (crates.pbkdf2Hmac secret signedGlobalIdsSalt) message
  hexDecode_hexEncode : ∀ data, crates.hexDecode (crates.hexEncode data) = some data
  hexEncode_length : ∀ data, (crates.hexEncode data).length = 2 * data.length
  hexEncode_lower : ∀ data, ∀ c ∈ crates.hexEncode data, isLowerHex c = true
  lenientDecode_standardEncode :
    ∀ data, crates.lenientDecode (crates.standardEncode data) = some data
  standardEncode_nil : crates.standardEncode [] = []
  standardEncode_alphabet : ∀ data, ∀ c ∈ crates.standardEncode data, c ∈ alphabet ∨ c = '='
  urlSafeEncode_eq : ∀ data, crates.urlSafeEncode data = (crates.standardEncode data).map toUrlSafe
  fromSlice_denotes : ∀ depth ≤ 127, ∀ (text : Text) (value : Value N),
    Denotes depth text value → crates.fromSlice (utf8 text) = some value
  toString_string : ∀ s, Denotes 0 (crates.toString (.string s)) (Value.string s : Value N)
  parse_format : ∀ time, crates.parseFromRfc3339 (crates.format time) =
    if FourDigitYear time then some (truncMillis time) else none

/-! ### Texts -/

/-- `format!("u{:04x}", n)`, without the letter. -/
def hex4 (n : ℕ) : Text :=
  let digits := Nat.toDigits 16 n
  List.replicate (4 - digits.length) '0' ++ digits

def htmlEntity (c : Char) : Bool :=
  c = '<' || c = '>' || c = '&' || c = '\u2028' || c = '\u2029'

/-- `get(..at)` and `get(at..)`: none where a character is cut. -/
def splitAtByte : Text → ℕ → Option (Text × Text)
  | text, 0 => some ([], text)
  | [], _ + 1 => none
  | c :: text, at' + 1 =>
      if c.utf8Size ≤ at' + 1 then
        (splitAtByte text (at' + 1 - c.utf8Size)).map fun (before, after) => (c :: before, after)
      else none

def stripPrefix (start text : Text) : Option Text :=
  if start.isPrefixOf text then some (text.drop start.length) else none

def splitOnce (separator : Char) : Text → Option (Text × Text)
  | [] => none
  | c :: text =>
      if c = separator then some ([], text)
      else (splitOnce separator text).map fun (before, after) => (c :: before, after)

/-- `id.to_string()` -/
def showI64 (id : Int64) : Text :=
  if id.toInt < 0 then '-' :: Nat.toDigits 10 id.toInt.natAbs
  else Nat.toDigits 10 id.toInt.natAbs

def splitSign : Text → Bool × Text
  | '-' :: digits => (true, digits)
  | '+' :: digits => (false, digits)
  | digits => (false, digits)

/-- `text.parse()` -/
def parseI64 (text : Text) : Option Int64 :=
  let (negative, digits) := splitSign text
  let n : ℤ := Nat.ofDigitChars 10 digits 0
  let n := if negative then -n else n
  if !digits.isEmpty && digits.all Char.isDigit && decide (Int64.minValue.toInt ≤ n) &&
      decide (n ≤ Int64.maxValue.toInt) then
    some (Int64.ofInt n)
  else none

/-! ### Verifiers -/

inductive Encoding where
  | strict
  | urlSafe

structure Verifier (K : Type) where
  key : K
  encoding : Encoding

section
variable (crates : Crates N K)

def activeSupportJson (value : Value N) : Text :=
  (crates.toString value).flatMap fun c =>
    if htmlEntity c then '\\' :: 'u' :: hex4 c.toNat else [c]

def wrapInMetadataEnvelope (value : Value N) (purpose : Option Text) (expiresAt : Option ℤ) :
    Text :=
  let hash := "\x7b\"data\":".toList ++ activeSupportJson crates value
  let hash := match expiresAt with
    | some expiresAt =>
        hash ++ ",\"exp\":".toList ++ activeSupportJson crates (.string (crates.format expiresAt))
    | none => hash
  let hash := match purpose with
    | some purpose => hash ++ ",\"pur\":".toList ++ activeSupportJson crates (.string purpose)
    | none => hash
  "\x7b\"_rails\":".toList ++ hash ++ "\x7d\x7d".toList

def Verifier.encode (verifier : Verifier K) (serialized : Text) : Text :=
  match verifier.encoding with
  | .strict => crates.standardEncode (utf8 serialized)
  | .urlSafe => crates.urlSafeEncode (utf8 serialized)

def Verifier.sign (verifier : Verifier K) (serialized : Text) : Text :=
  let encoded := verifier.encode crates serialized
  encoded ++ "--".toList ++ crates.hexEncode (crates.hmac verifier.key (utf8 encoded))

def Verifier.generate (verifier : Verifier K) (value : Value N) (purpose : Option Text)
    (expiresAt : Option ℤ) : Text :=
  verifier.sign crates
    (if purpose.isNone && expiresAt.isNone then activeSupportJson crates value
    else wrapInMetadataEnvelope crates value purpose expiresAt)

def digestHexLen : ℕ := 40

/-- The digest is the last 40 characters, after `--`. -/
def extractEncoded (signed : Text) : Option (Text × Text) := do
  let length := (utf8 signed).length
  if length < digestHexLen + 2 then none else
  let (encoded, rest) ← splitAtByte signed (length - (digestHexLen + 2))
  let digest ← stripPrefix "--".toList rest
  if encoded.isEmpty || !digest.all isLowerHex then none else
  some (encoded, digest)

def decodeBase64 (encoded : Text) : Option (List UInt8) :=
  crates.lenientDecode (encoded.map toStandard)

/-- What older releases wrote, which is not read. -/
def outdated (serialized : List UInt8) : Bool :=
  [0x04, 0x08].isPrefixOf serialized ||
    (utf8 "\x7b\"_rails\":\x7b\"message\":".toList).isPrefixOf serialized

/-- An `exp`, when there is one, is a time to come. -/
def inTime (exp : Option (Value N)) (now : ℤ) : Bool :=
  match exp with
  | none | some .null => true
  | some exp =>
      match exp.asStr.bind crates.parseFromRfc3339 with
      | some exp => now < exp
      | none => false

def purposeText : Option (Value N) → Text
  | none | some .null => []
  | some (.string s) => s
  | some other => crates.toString other

def extractFromMetadataEnvelope (envelope : List (Text × Value N)) (purpose : Option Text)
    (now : ℤ) : Option (Value N) :=
  if inTime crates (envelope.lookup "exp".toList) now &&
      decide (purposeText crates (envelope.lookup "pur".toList) = purpose.getD []) then
    some ((envelope.lookup "data".toList).getD .null)
  else none

def unwrap (value : Value N) (purpose : Option Text) (now : ℤ) : Option (Value N) :=
  match value.get "_rails".toList with
  | some (.object envelope) => extractFromMetadataEnvelope crates envelope purpose now
  | _ => if purpose.isNone then some value else none

def Verifier.verify (verifier : Verifier K) (signed : Text) (purpose : Option Text) (now : ℤ) :
    Option (Value N) := do
  let (encoded, digest) ← extractEncoded signed
  let mac ← crates.hexDecode digest
  if crates.hmac verifier.key (utf8 encoded) ≠ mac then none else
  let serialized ← decodeBase64 crates encoded
  if outdated serialized then none else
  let value ← crates.fromSlice serialized
  unwrap crates value purpose now

/-! ### The ids -/

def asyncRefreshes (secret : Text) : Verifier K :=
  ⟨crates.pbkdf2Hmac secret asyncRefreshesSalt, .strict⟩

def signedGlobalIds (secret : Text) : Verifier K :=
  ⟨crates.pbkdf2Hmac secret signedGlobalIdsSalt, .urlSafe⟩

def asyncRefreshId (secret redisKey : Text) : Text :=
  (asyncRefreshes crates secret).generate crates (.string redisKey) none none

def verifyAsyncRefreshId (secret id : Text) (now : ℤ) : Option Text :=
  match (asyncRefreshes crates secret).verify crates id none now with
  | some (.string key) => some key
  | _ => none

/-- A month after it was made. -/
def expiresAt (now : ℤ) : ℤ := (crates.checkedAddMonth now).getD now

def globalIdApp : Text := "mastodon".toList

def globalId (model : Text) (id : Int64) : Text :=
  "gid://".toList ++ (globalIdApp ++ '/' :: (model ++ '/' :: showI64 id))

def signedGlobalId (secret model : Text) (id : Int64) (purpose : Text) (now : ℤ) : Text :=
  (signedGlobalIds crates secret).generate crates (.string (globalId model id)) (some purpose)
    (some (expiresAt crates now))

def legacyGlobalId (metadata : Value N) (purpose : Text) (now : ℤ) : Option Text :=
  let current := match (metadata.get "expires_at".toList).bind Value.asStr with
    | some expiresAt =>
        match crates.parseFromRfc3339 expiresAt with
        | some expiresAt => decide (now ≤ expiresAt)
        | none => false
    | none => true
  if !current then none
  else if (metadata.get "purpose".toList).bind Value.asStr ≠ some purpose then none
  else (metadata.get "gid".toList).bind Value.asStr

end

def parseGlobalId (gid : Text) : Option (Text × Int64) := do
  let rest ← stripPrefix "gid://".toList gid
  let (app, path) ← splitOnce '/' rest
  if app.isEmpty then none else
  let path := match splitOnce '?' path with
    | some (path, _) => path
    | none => path
  let (model, id) ← splitOnce '/' path
  if model.isEmpty then none else
  let id ← parseI64 id
  some (model, id)

def locateSigned (crates : Crates N K) (secret sgid purpose : Text) (now : ℤ) :
    Option (Text × Int64) :=
  let verifier := signedGlobalIds crates secret
  match verifier.verify crates sgid (some purpose) now with
  | some (.string gid) => parseGlobalId gid
  | some _ => none
  | none => do
      let metadata ← verifier.verify crates sgid none now
      let gid ← legacyGlobalId crates metadata purpose now
      parseGlobalId gid

end Eunha.SignedIds
