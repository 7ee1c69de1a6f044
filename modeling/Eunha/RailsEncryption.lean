import Eunha.Aborts
import Eunha.Encodings

/-!
# The format of Rails' encrypted columns

An envelope in JSON holds a payload, the IV it was sealed with and the tag that AES-GCM
leaves. A value of more than 140 bytes is deflated first, and flagged; which of the two
derived keys sealed it is not recorded.
-/
namespace Eunha.RailsEncryption
open Encodings Aborts

abbrev Text := List Char
abbrev Bytes := List UInt8
abbrev Key := Vector UInt8 32
abbrev Nonce := Vector UInt8 12

def compressionThreshold : ℕ := 140

structure Headers where
  iv : Option Text
  /-- `at` -/
  authTag : Option Text
  /-- Set when the payload was compressed before encryption. -/
  c : Option Bool
  deriving DecidableEq

structure Message where
  p : Text
  h : Headers
  deriving DecidableEq

/-- What the crates compute: PBKDF2 with either digest, AES-256-GCM without further data, zlib
and the envelope's JSON. -/
structure Crates where
  sha256Key : (primaryKey salt : Text) → Key
  sha1Key : (primaryKey salt : Text) → Key
  encrypt : Key → Nonce → Bytes → Option Bytes
  decrypt : Key → Nonce → Bytes → Option Bytes
  deflate : Bytes → Bytes
  inflate : Bytes → Option Bytes
  toJson : Message → Text
  fromJson : Text → Option Message

/-- An encryptor has its keys, newest scheme first. -/
structure Encryptor where
  keys : List Key

def Encryptor.new (x : Crates) (primaryKey salt : Text) : Encryptor :=
  ⟨[x.sha256Key primaryKey salt, x.sha1Key primaryKey salt]⟩

/-- Padding is required. -/
def decodeStandard (text : Text) : Option Bytes :=
  if text.length % 4 = 0 then base64Decode text else none

/-- `Nonce::from_slice`, which asserts the length. -/
def nonceOf (iv : Bytes) : Run Nonce :=
  if h : iv.length = 12 then pure ⟨iv.toArray, by simp [h]⟩ else abort

def compresses (plaintext : Text) : Bool := compressionThreshold < (utf8 plaintext).length

def payload (x : Crates) (plaintext : Text) : Bytes :=
  if compresses plaintext then x.deflate (utf8 plaintext) else utf8 plaintext

def envelope (iv ciphertext authTag : Bytes) (compressed : Bool) : Message where
  p := base64Encode ciphertext
  h := { iv := some (base64Encode iv)
         authTag := some (base64Encode authTag)
         c := if compressed then some true else none }

/-- With an IV, or none that could be generated. -/
def Encryptor.encrypt (e : Encryptor) (x : Crates) (random : Option Nonce) (plaintext : Text) :
    Run Text := do
  let iv ← expect random "could not generate an IV"
  let key ← expect e.keys.head? "no encryption key"
  let sealed ← expect (x.encrypt key iv (payload x plaintext)) "AES-GCM encryption failed"
  -- The tag is left at the end of what is sealed, and has a header of its own.
  if sealed.length < 16 then throw "ciphertext shorter than its auth tag"
  else
    let split := sealed.length - 16
    pure (x.toJson (envelope iv.toList (sealed.take split) (sealed.drop split)
      (compresses plaintext)))

def findPlaintext (x : Crates) (iv sealed : Bytes) : List Key → Run (Option Bytes)
  | [] => pure none
  | key :: keys => do
      let nonce ← nonceOf iv
      match x.decrypt key nonce sealed with
      | some plaintext => pure (some plaintext)
      | none => findPlaintext x iv sealed keys

def decodePlaintext (x : Crates) (compressed : Bool) (plaintext : Bytes) : Run Text := do
  let plaintext ←
    if compressed then expect (x.inflate plaintext) "decrypted payload is not zlib data"
    else pure plaintext
  expect (ofUtf8 plaintext) "decrypted payload is not UTF-8"

def Encryptor.decrypt (e : Encryptor) (x : Crates) (serialized : Text) : Run Text := do
  let message ← expect (x.fromJson serialized) "not a Rails encrypted message"
  let ciphertext ← expect (decodeStandard message.p) "payload is not base64"
  let iv ← expect message.h.iv "message has no IV"
  let iv ← expect (decodeStandard iv) "IV is not base64"
  let authTag ← expect message.h.authTag "message has no auth tag"
  let authTag ← expect (decodeStandard authTag) "auth tag is not base64"
  if authTag.length ≠ 16 then throw s!"auth tag is {authTag.length} bytes, expected 16"
  else
    let plaintext ← findPlaintext x iv (ciphertext ++ authTag) e.keys
    let plaintext ← expect plaintext "no configured key could decrypt the message"
    decodePlaintext x (message.h.c.getD false) plaintext

/-! ### A run of `decrypt` -/

theorem length_base64Encode (data : Bytes) : (base64Encode data).length % 4 = 0 := by
  rw [base64Encode, List.length_append, List.length_map, List.length_replicate]
  exact sextets_length data

@[simp] theorem decodeStandard_encode (data : Bytes) :
    decodeStandard (base64Encode data) = some data := by
  rw [decodeStandard, if_pos (length_base64Encode data), base64Decode_base64Encode]

theorem decodePlaintext_returns (x : Crates) (compressed : Bool) (plaintext : Bytes) :
    ∃ result, decodePlaintext x compressed plaintext = returns result := by
  unfold decodePlaintext
  cases compressed with
  | true =>
      cases x.inflate plaintext with
      | none => exact ⟨_, rfl⟩
      | some inflated =>
          cases h : ofUtf8 inflated with
          | none => exact ⟨.error "decrypted payload is not UTF-8", by simp [h]; rfl⟩
          | some text => exact ⟨.ok text, by simp [h]; rfl⟩
  | false =>
      cases h : ofUtf8 plaintext with
      | none => exact ⟨.error "decrypted payload is not UTF-8", by simp [h]; rfl⟩
      | some text => exact ⟨.ok text, by simp [h]; rfl⟩

theorem findPlaintext_returns (x : Crates) {iv : Bytes} (h : iv.length = 12) (sealed : Bytes)
    (keys : List Key) : ∃ found, findPlaintext x iv sealed keys = returns (.ok found) := by
  induction keys with
  | nil => exact ⟨none, rfl⟩
  | cons key keys ih =>
      rw [findPlaintext, nonceOf, dif_pos h, pure_bind]
      split
      next plaintext _ => exact ⟨some plaintext, rfl⟩
      next => exact ih

theorem findPlaintext_aborts (x : Crates) {iv : Bytes} (h : iv.length ≠ 12) (sealed : Bytes)
    (key : Key) (keys : List Key) : findPlaintext x iv sealed (key :: keys) = abort := by
  rw [findPlaintext, nonceOf, dif_neg h, abort_bind]

/-- An envelope that all can be read of, so that it comes to a key. -/
structure Comes (x : Crates) (serialized : Text) (message : Message)
    (ciphertext iv authTag : Bytes) : Prop where
  parsed : x.fromJson serialized = some message
  payload : decodeStandard message.p = some ciphertext
  vector : message.h.iv.bind decodeStandard = some iv
  tag : message.h.authTag.bind decodeStandard = some authTag
  tagLength : authTag.length = 16

theorem Comes.decrypt {x : Crates} {serialized : Text} {message : Message}
    {ciphertext iv authTag : Bytes} (h : Comes x serialized message ciphertext iv authTag)
    (e : Encryptor) :
    e.decrypt x serialized = findPlaintext x iv (ciphertext ++ authTag) e.keys >>= fun found =>
      expect found "no configured key could decrypt the message" >>=
        decodePlaintext x (message.h.c.getD false) := by
  obtain ⟨ivText, hiv, hivText⟩ := Option.bind_eq_some_iff.mp h.vector
  obtain ⟨tagText, htag, htagText⟩ := Option.bind_eq_some_iff.mp h.tag
  unfold Encryptor.decrypt
  simp only [h.parsed, h.payload, hiv, hivText, htag, htagText, h.tagLength, expect_some,
    pure_bind, ne_eq, not_true_eq_false, if_false]

theorem decrypt_fails {x : Crates} {serialized : Text} (e : Encryptor)
    (h : ∀ message ciphertext iv authTag, ¬ Comes x serialized message ciphertext iv authTag) :
    ∃ why, e.decrypt x serialized = throw why := by
  unfold Encryptor.decrypt
  cases hmessage : x.fromJson serialized with
  | none => exact ⟨_, rfl⟩
  | some message =>
      cases hciphertext : decodeStandard message.p with
      | none => exact ⟨"payload is not base64", by simp [hciphertext]⟩
      | some ciphertext =>
          cases hiv : message.h.iv with
          | none => exact ⟨"message has no IV", by simp [hciphertext, hiv]⟩
          | some ivText =>
              cases hivText : decodeStandard ivText with
              | none =>
                  exact ⟨"IV is not base64", by simp [hciphertext, hiv, hivText]⟩
              | some iv =>
                  cases htag : message.h.authTag with
                  | none =>
                      exact ⟨"message has no auth tag",
                        by simp [hciphertext, hiv, hivText, htag]⟩
                  | some tagText =>
                      cases htagText : decodeStandard tagText with
                      | none =>
                          exact ⟨"auth tag is not base64",
                            by simp [hciphertext, hiv, hivText, htag, htagText]⟩
                      | some authTag =>
                          by_cases hlength : authTag.length = 16
                          · apply absurd _ (h message ciphertext iv authTag)
                            exact ⟨hmessage, hciphertext, by rw [hiv]; exact hivText,
                              by rw [htag]; exact htagText, hlength⟩
                          · refine ⟨s!"auth tag is {authTag.length} bytes, expected 16", ?_⟩
                            simp [hciphertext, hiv, hivText, htag, htagText, hlength]

/-- An envelope that comes to a key has an IV that makes a nonce. -/
def NonceFits (x : Crates) (serialized : Text) : Prop :=
  ∀ message ciphertext iv authTag, Comes x serialized message ciphertext iv authTag →
    iv.length = 12

/-- Decrypting returns or fails on the envelopes whose IV makes a nonce, and aborts on the
others. -/
theorem decrypt_returns_iff (x : Crates) (primaryKey salt serialized : Text) :
    (∃ result, (Encryptor.new x primaryKey salt).decrypt x serialized = returns result) ↔
      NonceFits x serialized := by
  by_cases hcomes : ∃ message ciphertext iv authTag,
      Comes x serialized message ciphertext iv authTag
  · obtain ⟨message, ciphertext, iv, authTag, h⟩ := hcomes
    rw [h.decrypt]
    constructor
    · intro hreturns message' ciphertext' iv' authTag' h'
      by_contra hiv
      have hmessage : message = message' := by
        rw [← Option.some_inj, ← h.parsed, h'.parsed]
      subst hmessage
      have hsame : iv = iv' := by rw [← Option.some_inj, ← h.vector, h'.vector]
      subst hsame
      obtain ⟨result, hresult⟩ := hreturns
      rw [Encryptor.new, findPlaintext_aborts x hiv, abort_bind] at hresult
      exact abort_ne_returns result hresult
    · intro hfits
      obtain ⟨found, hfound⟩ := findPlaintext_returns x (hfits message ciphertext iv authTag h)
        (ciphertext ++ authTag) (Encryptor.new x primaryKey salt).keys
      rw [hfound, ← pure_eq_returns, pure_bind]
      cases found with
      | none => exact ⟨_, rfl⟩
      | some plaintext =>
          rw [expect_some, pure_bind]
          exact decodePlaintext_returns x _ plaintext
  · apply iff_of_true
    · have hnone : ∀ message ciphertext iv authTag,
          ¬ Comes x serialized message ciphertext iv authTag :=
        fun message ciphertext iv authTag h => hcomes ⟨message, ciphertext, iv, authTag, h⟩
      obtain ⟨why, hwhy⟩ := decrypt_fails (Encryptor.new x primaryKey salt) hnone
      exact ⟨.error why, hwhy⟩
    · intro message ciphertext iv authTag h
      exact absurd ⟨message, ciphertext, iv, authTag, h⟩ hcomes

/-! ### Crates for two runs -/

def writeJson (message : Message) : Text :=
  let flag :=
    if message.h.c = some true then [[','], ['c'], [':', 't', 'r', 'u', 'e', '}', '}']]
    else [['}', '}']]
  ['"'].intercalate ([['{'], ['p'], [':'], message.p, [','], ['h'], [':', '{'], ['i', 'v'],
    [':'], message.h.iv.getD [], [','], ['a', 't'], [':'], message.h.authTag.getD []] ++ flag)

def readJson (text : Text) : Option Message :=
  match text.splitOn '"' with
  | [_, _, _, p, _, _, _, _, _, iv, _, _, _, authTag, _] =>
      some ⟨p, ⟨some iv, some authTag, none⟩⟩
  | [_, _, _, p, _, _, _, _, _, iv, _, _, _, authTag, _, _, _] =>
      some ⟨p, ⟨some iv, some authTag, some true⟩⟩
  | _ => none

def plainCrates : Crates where
  sha256Key _ _ := Vector.replicate 32 0
  sha1Key _ _ := Vector.replicate 32 1
  encrypt key _ message := some (message ++ key.toList.take 16)
  decrypt key _ sealed :=
    if 16 ≤ sealed.length ∧ sealed.drop (sealed.length - 16) = key.toList.take 16 then
      some (sealed.take (sealed.length - 16))
    else none
  deflate data := data
  inflate data := some data
  toJson := writeJson
  fromJson := readJson

def emptyIv : Text :=
  "\x7b\"p\":\"\",\"h\":\x7b\"iv\":\"\",\"at\":\"AAAAAAAAAAAAAAAAAAAAAA==\"\x7d\x7d".toList

theorem decrypt_emptyIv_aborts : ¬ ∀ (x : Crates) (primaryKey salt serialized : Text),
    ∃ result, (Encryptor.new x primaryKey salt).decrypt x serialized = returns result := by
  intro h
  have hcomes : Comes plainCrates emptyIv
      ⟨[], ⟨some [], some "AAAAAAAAAAAAAAAAAAAAAA==".toList, none⟩⟩ [] []
      (List.replicate 16 0) := by
    refine ⟨?_, ?_, ?_, ?_, ?_⟩
    · decide +kernel
    · decide +kernel
    · decide +kernel
    · decide +kernel
    · decide +kernel
  obtain ⟨result, hresult⟩ := h plainCrates [] [] emptyIv
  rw [hcomes.decrypt, Encryptor.new, findPlaintext_aborts plainCrates (by decide), abort_bind]
    at hresult
  exact abort_ne_returns result hresult

/-! ### Round trips -/

/-- What the crates document: a key opens what it sealed, the newer key opens nothing that the
older one sealed, the tag takes 16 bytes, and inflating and reading undo deflating and
writing. -/
structure Lawful (x : Crates) (primaryKey salt : Text) : Prop where
  opens : ∀ key nonce message sealed, x.encrypt key nonce message = some sealed →
    x.decrypt key nonce sealed = some message
  refuses : x.sha256Key primaryKey salt ≠ x.sha1Key primaryKey salt →
    ∀ nonce message sealed,
      x.encrypt (x.sha1Key primaryKey salt) nonce message = some sealed →
        x.decrypt (x.sha256Key primaryKey salt) nonce sealed = none
  tagged : ∀ key nonce message sealed, x.encrypt key nonce message = some sealed →
    16 ≤ sealed.length
  inflates : ∀ data, x.inflate (x.deflate data) = some data
  reads : ∀ iv ciphertext authTag compressed,
    x.fromJson (x.toJson (envelope iv ciphertext authTag compressed)) =
      some (envelope iv ciphertext authTag compressed)

section Lawful

variable {x : Crates} {primaryKey salt : Text}

theorem findPlaintext_of_sealed (h : Lawful x primaryKey salt) (iv : Nonce) {key : Key}
    {message sealed : Bytes} (hkey : key ∈ (Encryptor.new x primaryKey salt).keys)
    (hsealed : x.encrypt key iv message = some sealed) :
    findPlaintext x iv.toList sealed (Encryptor.new x primaryKey salt).keys =
      pure (some message) := by
  have hnonce : nonceOf iv.toList = pure iv := by
    rw [nonceOf, dif_pos (by simp)]
    rfl
  have hopens := h.opens key iv message sealed hsealed
  rw [Encryptor.new, findPlaintext, hnonce, pure_bind]
  by_cases hfirst : key = x.sha256Key primaryKey salt
  · rw [← hfirst, hopens]
  · have hsecond : key = x.sha1Key primaryKey salt := by
      simpa [Encryptor.new, hfirst] using hkey
    have hrefuses := h.refuses (by rw [← hsecond]; exact Ne.symm hfirst) iv message sealed
      (hsecond ▸ hsealed)
    rw [hrefuses, findPlaintext, hnonce, pure_bind, ← hsecond, hopens]

theorem decrypt_envelope (h : Lawful x primaryKey salt) (iv : Nonce) {key : Key}
    {sealed : Bytes} (plaintext : Text) (compressed : Bool)
    (hkey : key ∈ (Encryptor.new x primaryKey salt).keys)
    (hsealed : x.encrypt key iv
      (if compressed then x.deflate (utf8 plaintext) else utf8 plaintext) = some sealed) :
    (Encryptor.new x primaryKey salt).decrypt x
      (x.toJson (envelope iv.toList (sealed.take (sealed.length - 16))
        (sealed.drop (sealed.length - 16)) compressed)) = returns (.ok plaintext) := by
  have hlength := h.tagged key iv _ sealed hsealed
  have hcomes : Comes x (x.toJson (envelope iv.toList (sealed.take (sealed.length - 16))
      (sealed.drop (sealed.length - 16)) compressed))
      (envelope iv.toList (sealed.take (sealed.length - 16))
        (sealed.drop (sealed.length - 16)) compressed)
      (sealed.take (sealed.length - 16)) iv.toList (sealed.drop (sealed.length - 16)) := by
    refine ⟨h.reads _ _ _ _, decodeStandard_encode _, decodeStandard_encode _,
      decodeStandard_encode _, ?_⟩
    rw [List.length_drop]
    omega
  rw [hcomes.decrypt, List.take_append_drop, findPlaintext_of_sealed h iv hkey hsealed,
    pure_bind, expect_some, pure_bind]
  cases compressed with
  | true =>
      show decodePlaintext x true (x.deflate (utf8 plaintext)) = _
      rw [decodePlaintext, if_pos rfl, h.inflates, expect_some, pure_bind]
      show expect (ofUtf8 (utf8 plaintext)) _ = _
      rw [ofUtf8_utf8]
      rfl
  | false =>
      show decodePlaintext x false (utf8 plaintext) = _
      rw [decodePlaintext, if_neg (by decide), pure_bind]
      show expect (ofUtf8 (utf8 plaintext)) _ = _
      rw [ofUtf8_utf8]
      rfl

theorem encrypt_eq (e : Encryptor) (iv : Nonce) {key : Key} (hkey : e.keys.head? = some key)
    {sealed : Bytes} (plaintext : Text) (hlength : 16 ≤ sealed.length)
    (hsealed : x.encrypt key iv (payload x plaintext) = some sealed) :
    e.encrypt x (some iv) plaintext =
      returns (.ok (x.toJson (envelope iv.toList (sealed.take (sealed.length - 16))
        (sealed.drop (sealed.length - 16)) (compresses plaintext)))) := by
  unfold Encryptor.encrypt
  rw [expect_some, pure_bind, hkey, expect_some, pure_bind, hsealed, expect_some, pure_bind,
    if_neg (by omega)]
  rfl

theorem decrypt_of_encrypt (h : Lawful x primaryKey salt) (iv : Nonce) {key : Key}
    (hkey : key ∈ (Encryptor.new x primaryKey salt).keys) {e : Encryptor}
    (hfirst : e.keys.head? = some key) (plaintext serialized : Text)
    (hencrypt : e.encrypt x (some iv) plaintext = returns (.ok serialized)) :
    (Encryptor.new x primaryKey salt).decrypt x serialized = returns (.ok plaintext) := by
  cases hsealed : x.encrypt key iv (payload x plaintext) with
  | none =>
      unfold Encryptor.encrypt at hencrypt
      rw [expect_some, pure_bind, hfirst, expect_some, pure_bind, hsealed] at hencrypt
      cases hencrypt
  | some sealed =>
      have hlength := h.tagged key iv _ sealed hsealed
      rw [encrypt_eq e iv hfirst plaintext hlength hsealed] at hencrypt
      cases hencrypt
      exact decrypt_envelope h iv plaintext (compresses plaintext) hkey hsealed

/-- Every plaintext, of any length, is decrypted from what it was encrypted to, with either of
the derived keys; and it is encrypted wherever the AEAD seals its payload. -/
theorem decrypt_encrypt (h : Lawful x primaryKey salt) (iv : Nonce) (plaintext : Text) :
    (∀ serialized,
      (Encryptor.new x primaryKey salt).encrypt x (some iv) plaintext =
        returns (.ok serialized) →
      (Encryptor.new x primaryKey salt).decrypt x serialized = returns (.ok plaintext)) ∧
    (∀ sealed, x.encrypt (x.sha256Key primaryKey salt) iv (payload x plaintext) = some sealed →
      ∃ serialized, (Encryptor.new x primaryKey salt).encrypt x (some iv) plaintext =
        returns (.ok serialized)) ∧
    (∀ serialized,
      (Encryptor.mk [x.sha1Key primaryKey salt]).encrypt x (some iv) plaintext =
        returns (.ok serialized) →
      (Encryptor.new x primaryKey salt).decrypt x serialized = returns (.ok plaintext)) ∧
    ∀ compressed sealed,
      x.encrypt (x.sha1Key primaryKey salt) iv
        (if compressed then x.deflate (utf8 plaintext) else utf8 plaintext) = some sealed →
      (Encryptor.new x primaryKey salt).decrypt x
        (x.toJson (envelope iv.toList (sealed.take (sealed.length - 16))
          (sealed.drop (sealed.length - 16)) compressed)) = returns (.ok plaintext) := by
  have hsha256 : x.sha256Key primaryKey salt ∈ (Encryptor.new x primaryKey salt).keys :=
    List.mem_cons_self
  have hsha1 : x.sha1Key primaryKey salt ∈ (Encryptor.new x primaryKey salt).keys :=
    List.mem_cons_of_mem _ List.mem_cons_self
  refine ⟨?_, ?_, ?_, ?_⟩
  · intro serialized hencrypt
    exact decrypt_of_encrypt h iv hsha256 rfl plaintext serialized hencrypt
  · intro sealed hsealed
    have hlength := h.tagged _ iv _ sealed hsealed
    exact ⟨_, encrypt_eq (Encryptor.new x primaryKey salt) iv rfl plaintext hlength hsealed⟩
  · intro serialized hencrypt
    exact decrypt_of_encrypt h iv hsha1 rfl plaintext serialized hencrypt
  · intro compressed sealed hsealed
    exact decrypt_envelope h iv plaintext compressed hsha1 hsealed

end Lawful

theorem quote_not_mem_base64Encode (data : Bytes) : '"' ∉ base64Encode data := by
  intro h
  cases mem_base64Encode h with
  | inl hmem => exact absurd hmem (by decide +kernel)
  | inr heq => exact absurd heq (by decide)

theorem readJson_writeJson (iv ciphertext authTag : Bytes) (compressed : Bool) :
    readJson (writeJson (envelope iv ciphertext authTag compressed)) =
      some (envelope iv ciphertext authTag compressed) := by
  have hiv := quote_not_mem_base64Encode iv
  have hp := quote_not_mem_base64Encode ciphertext
  have htag := quote_not_mem_base64Encode authTag
  unfold readJson writeJson
  cases compressed with
  | true =>
      rw [List.splitOn_intercalate _ (by simp [envelope, hiv, hp, htag]) (by simp)]
      simp [envelope]
  | false =>
      rw [List.splitOn_intercalate _ (by simp [envelope, hiv, hp, htag]) (by simp)]
      simp [envelope]

example : readJson (writeJson (envelope [1] [2] [3] true)) = some (envelope [1] [2] [3] true) := by
  decide +kernel

theorem plainCrates_lawful : Lawful plainCrates [] [] := by
  have hopens (key other : Key) (nonce : Nonce) (message : Bytes) :
      plainCrates.decrypt other nonce (message ++ key.toList.take 16) =
        if key.toList.take 16 = other.toList.take 16 then some message else none := by
    simp [plainCrates]
  refine ⟨?_, ?_, ?_, fun _ => rfl, readJson_writeJson⟩
  · intro key nonce message sealed hsealed
    cases hsealed
    rw [hopens, if_pos rfl]
  · intro _ nonce message sealed hsealed
    cases hsealed
    rw [hopens, if_neg (by decide)]
  · intro key nonce message sealed hsealed
    cases hsealed
    simp

/-- A short text under both keys. -/
theorem decrypt_encrypt_hello :
    (∃ serialized, (Encryptor.new plainCrates [] []).encrypt plainCrates
        (some (Vector.replicate 12 7)) "hello".toList = returns (.ok serialized) ∧
      (Encryptor.new plainCrates [] []).decrypt plainCrates serialized =
        returns (.ok "hello".toList)) := by
  have h := decrypt_encrypt plainCrates_lawful (Vector.replicate 12 7) "hello".toList
  obtain ⟨serialized, hencrypt⟩ := h.2.1 _ rfl
  exact ⟨serialized, hencrypt, h.1 serialized hencrypt⟩

end Eunha.RailsEncryption
