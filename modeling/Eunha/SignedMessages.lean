import Eunha.SignedIds

/-!
# Signed messages

A message is signed as the URL-safe base64 of it, two hyphens, and the hexadecimal digest of
that under a key for the purpose. The encoding may hold hyphens and end in them, and the digest
holds none, so the text is split at the last two. HMAC may be any function.
-/
namespace Eunha.SignedMessages
open Encodings SignedIds

/-! ### Base64 without padding -/

def urlDigit (n : ℕ) : Char := toUrlSafe (digit n)

def urlDigitValue (c : Char) : Option ℕ :=
  if c = '+' ∨ c = '/' then none else digitValue (toStandard c)

/-- `URL_SAFE_NO_PAD.encode` -/
def urlSafeEncode (data : List UInt8) : Text := (sextets data).map urlDigit

/-- `URL_SAFE_NO_PAD.decode` -/
def urlSafeDecode (text : Text) : Option (List UInt8) := (text.mapM urlDigitValue).bind octets

/-! ### Messages -/

variable (hmac : (key message : List UInt8) → List UInt8)

def messageSigner (secret : Text) (purpose data : List UInt8) : List UInt8 :=
  hmac (hmac (utf8 secret) purpose) data

def signMessage (secret : Text) (purpose : List UInt8) (message : Text) : Text :=
  let data := urlSafeEncode (utf8 message)
  data ++ '-' :: '-' :: hexEncode (messageSigner hmac secret purpose (utf8 data))

/-- `rsplit_once("--")` -/
def rsplitOnce : Text → Option (Text × Text)
  | [] => none
  | c :: text =>
      match rsplitOnce text with
      | some (before, after) => some (c :: before, after)
      | none => if c = '-' then (stripPrefix ['-'] text).map fun after => ([], after) else none

def verifyMessage (secret : Text) (purpose : List UInt8) (signed : Text) : Option Text := do
  let (data, digest) ← rsplitOnce signed
  let digest ← hexDecode digest
  if digest = messageSigner hmac secret purpose (utf8 data) then
    let message ← urlSafeDecode data
    ofUtf8 message
  else none

/-! ### What the decoders take -/

theorem urlDigitValue_urlDigit : ∀ n < 64, urlDigitValue (urlDigit n) = some n := by
  decide +kernel

theorem urlDigit_of_value {c : Char} {n : ℕ} (h : urlDigitValue c = some n) :
    urlDigit n = c ∧ n < 64 := by
  unfold urlDigitValue at h
  split_ifs at h with hstandard
  rw [not_or] at hstandard
  unfold digitValue at h
  split_ifs at h with hmem
  obtain rfl := Option.some.inj h
  have hlt := List.idxOf_lt_length_of_mem hmem
  refine ⟨?_, alphabet_length ▸ hlt⟩
  rw [urlDigit, digit_eq hlt, List.getElem_idxOf]
  unfold toStandard toUrlSafe
  by_cases hminus : c = '-'
  · simp [hminus]
  · by_cases hunder : c = '_'
    · simp [hunder]
    · simp [hminus, hunder, hstandard.1, hstandard.2]

theorem mapM_urlDigit {groups : List ℕ} (h : ∀ n ∈ groups, n < 64) :
    (groups.map urlDigit).mapM urlDigitValue = some groups := by
  induction groups with
  | nil => rfl
  | cons n groups ih =>
      rw [List.map_cons, List.mapM_cons, urlDigitValue_urlDigit n (h n List.mem_cons_self),
        ih fun m hm => h m (List.mem_cons_of_mem n hm)]
      rfl

theorem map_urlDigit {text : Text} {groups : List ℕ} (h : text.mapM urlDigitValue = some groups) :
    groups.map urlDigit = text ∧ ∀ n ∈ groups, n < 64 := by
  induction text generalizing groups with
  | nil =>
      cases h
      exact ⟨rfl, nofun⟩
  | cons c text ih =>
      rw [List.mapM_cons] at h
      obtain ⟨n, hn, h⟩ := Option.bind_eq_some_iff.mp h
      obtain ⟨rest, hrest, h⟩ := Option.bind_eq_some_iff.mp h
      cases h
      obtain ⟨hdigit, hlt⟩ := urlDigit_of_value hn
      obtain ⟨hmap, hall⟩ := ih hrest
      exact ⟨by rw [List.map_cons, hdigit, hmap], List.forall_mem_cons.mpr ⟨hlt, hall⟩⟩

theorem sextets_octets {groups : List ℕ} {data : List UInt8} (h : octets groups = some data)
    (hlt : ∀ n ∈ groups, n < 64) : sextets data = groups := by
  fun_induction octets groups generalizing data with
  | case1 =>
      cases h
      rfl
  | case2 => cases h
  | case3 w x hfilled =>
      cases h
      simp only [List.forall_mem_cons] at hlt
      simp only [sextets, UInt8.toNat_ofNat']
      simp only [List.cons.injEq, and_true]
      omega
  | case4 => cases h
  | case5 w x y hfilled =>
      cases h
      simp only [List.forall_mem_cons] at hlt
      simp only [sextets, UInt8.toNat_ofNat']
      simp only [List.cons.injEq, and_true]
      omega
  | case6 => cases h
  | case7 w x y z rest ih =>
      obtain ⟨more, hmore, rfl⟩ := Option.map_eq_some_iff.mp h
      simp only [List.forall_mem_cons] at hlt
      simp only [sextets, UInt8.toNat_ofNat', ih hmore hlt.2.2.2.2]
      simp only [List.cons.injEq, and_true]
      omega

theorem urlSafeDecode_urlSafeEncode (data : List UInt8) :
    urlSafeDecode (urlSafeEncode data) = some data := by
  rw [urlSafeDecode, urlSafeEncode, mapM_urlDigit (sextets_lt data), Option.bind_some,
    octets_sextets]

theorem urlSafeEncode_of_decode {text : Text} {data : List UInt8}
    (h : urlSafeDecode text = some data) : urlSafeEncode data = text := by
  obtain ⟨groups, hgroups, hdata⟩ := Option.bind_eq_some_iff.mp h
  obtain ⟨hmap, hlt⟩ := map_urlDigit hgroups
  rw [urlSafeEncode, sextets_octets hdata hlt, hmap]

theorem toLower_of_hexValue {c : Char} {n : ℕ} (h : hexValue c = some n) :
    n < 16 ∧ c.toLower = Nat.digitChar n := by
  have hascii : ∀ k < 128, ∀ n < 16, hexValue (Char.ofNat k) = some n →
      (Char.ofNat k).toLower = Nat.digitChar n := by decide +kernel
  have hrange : c.toNat < 128 ∧ n < 16 := by
    unfold hexValue at h
    simp only [Char.le_def, UInt32.le_iff_toNat_le] at h
    change (if '0'.toNat ≤ c.toNat ∧ c.toNat ≤ '9'.toNat then _ else
      if 'a'.toNat ≤ c.toNat ∧ c.toNat ≤ 'f'.toNat then _ else
        if 'A'.toNat ≤ c.toNat ∧ c.toNat ≤ 'F'.toNat then _ else none) = _ at h
    simp only [show '0'.toNat = 48 from rfl, show '9'.toNat = 57 from rfl,
      show 'a'.toNat = 97 from rfl, show 'f'.toNat = 102 from rfl, show 'A'.toNat = 65 from rfl,
      show 'F'.toNat = 70 from rfl] at h
    split_ifs at h <;> obtain rfl := Option.some.inj h <;> omega
  have hc := hascii c.toNat hrange.1 n hrange.2
  rw [Char.ofNat_toNat] at hc
  exact ⟨hrange.2, hc h⟩

theorem hexEncode_of_decode {text : Text} {data : List UInt8} (h : hexDecode text = some data) :
    text.map Char.toLower = hexEncode data := by
  fun_induction hexDecode text generalizing data with
  | case1 =>
      cases h
      rfl
  | case2 => cases h
  | case3 a b rest ih =>
      obtain ⟨high, hhigh, h⟩ := Option.bind_eq_some_iff.mp h
      obtain ⟨low, hlow, h⟩ := Option.bind_eq_some_iff.mp h
      obtain ⟨more, hmore, h⟩ := Option.bind_eq_some_iff.mp h
      cases h
      obtain ⟨hhigh16, ha⟩ := toLower_of_hexValue hhigh
      obtain ⟨hlow16, hb⟩ := toLower_of_hexValue hlow
      have hbyte : (UInt8.ofNat (16 * high + low)).toNat = 16 * high + low := by
        rw [UInt8.toNat_ofNat']
        omega
      have hsplit : (16 * high + low) / 16 = high ∧ (16 * high + low) % 16 = low := by omega
      rw [List.map_cons, List.map_cons, ih hmore, ha, hb]
      simp only [hexEncode, List.flatMap_cons, hexPair, hbyte, hsplit.1, hsplit.2]
      rfl

/-! ### The last two hyphens -/

theorem rsplitOnce_none {text : Text} (h : '-' ∉ text) : rsplitOnce text = none := by
  induction text with
  | nil => rfl
  | cons c text ih =>
      rw [List.mem_cons, not_or] at h
      rw [rsplitOnce, ih h.2]
      exact if_neg fun heq => h.1 heq.symm

theorem rsplitOnce_append {after : Text} (h : '-' ∉ after) (before : Text) :
    rsplitOnce (before ++ '-' :: '-' :: after) = some (before, after) := by
  induction before with
  | nil =>
      have hstrip : stripPrefix ['-'] after = none := by
        cases after with
        | nil => rfl
        | cons c after =>
            have hne : ('-' == c) = false := by
              rw [beq_eq_false_iff_ne]
              exact fun heq => h (heq ▸ List.mem_cons_self)
            simp [stripPrefix, List.isPrefixOf, hne]
      have hone : rsplitOnce ('-' :: after) = none := by
        rw [rsplitOnce, rsplitOnce_none h]
        simp only [if_true, hstrip, Option.map_none]
      rw [List.nil_append, rsplitOnce, hone]
      rfl
  | cons c before ih =>
      rw [List.cons_append, rsplitOnce, ih]

theorem append_of_rsplitOnce {text before after : Text}
    (h : rsplitOnce text = some (before, after)) : text = before ++ '-' :: '-' :: after := by
  induction text generalizing before after with
  | nil => cases h
  | cons c text ih =>
      rw [rsplitOnce] at h
      cases hrest : rsplitOnce text with
      | some split =>
          rw [hrest] at h
          cases h
          rw [ih hrest]
          rfl
      | none =>
          rw [hrest] at h
          simp only at h
          split_ifs at h with hc
          obtain ⟨rest, hstrip, heq⟩ := Option.map_eq_some_iff.mp h
          cases heq
          unfold stripPrefix at hstrip
          split_ifs at hstrip with hprefix
          obtain ⟨more, rfl⟩ := List.isPrefixOf_iff_prefix.mp hprefix
          cases hstrip
          rw [hc]
          rfl

/-! ### Verifying what was signed -/

theorem hyphen_not_mem_hexEncode (data : List UInt8) : '-' ∉ hexEncode data := by
  intro hmem
  exact absurd (isLowerHex_hexEncode data '-' hmem) (by decide)

theorem verifyMessage_signMessage (secret : Text) (purpose : List UInt8) (message : Text) :
    verifyMessage hmac secret purpose (signMessage hmac secret purpose message) = some message := by
  unfold verifyMessage signMessage
  simp only [rsplitOnce_append (hyphen_not_mem_hexEncode _), Option.bind_eq_bind,
    Option.bind_some, hexDecode_hexEncode, if_true, urlSafeDecode_urlSafeEncode, ofUtf8_utf8]

theorem ofUtf8_eq_some {data : List UInt8} {text : Text} (h : ofUtf8 data = some text) :
    utf8 text = data := by
  obtain ⟨s, hs, rfl⟩ := Option.map_eq_some_iff.mp h
  unfold String.fromUTF8? at hs
  split_ifs at hs with hvalid
  have hsame : (utf8 s.toList).toByteArray = data.toByteArray := by
    rw [← Option.some.inj hs]
    exact String.utf8Encode_toList
  have harray := congrArg ByteArray.data hsame
  rw [List.data_toByteArray, List.data_toByteArray] at harray
  exact Array.toList_inj.mpr harray

theorem signed_of_verify {secret : Text} {purpose : List UInt8} {signed message : Text}
    (h : verifyMessage hmac secret purpose signed = some message) :
    ∃ digest, signed = urlSafeEncode (utf8 message) ++ '-' :: '-' :: digest ∧
      digest.map Char.toLower =
        hexEncode (messageSigner hmac secret purpose (utf8 (urlSafeEncode (utf8 message)))) := by
  unfold verifyMessage at h
  obtain ⟨⟨data, digest⟩, hsplit, h⟩ := Option.bind_eq_some_iff.mp h
  obtain ⟨bytes, hbytes, h⟩ := Option.bind_eq_some_iff.mp h
  split_ifs at h with hdigest
  obtain ⟨decoded, hdecoded, h⟩ := Option.bind_eq_some_iff.mp h
  have hdata : urlSafeEncode (utf8 message) = data := by
    rw [ofUtf8_eq_some h]
    exact urlSafeEncode_of_decode hdecoded
  refine ⟨digest, ?_, ?_⟩
  · rw [hdata]
    exact append_of_rsplitOnce hsplit
  · rw [hdata, ← hdigest]
    exact hexEncode_of_decode hbytes

/-- What is signed verifies, what verifies was signed, whatever the case of its digest, and what
is signed for one purpose verifies for another only where the digests are the same. -/
theorem verifies_as_signed (secret : Text) (purpose : List UInt8) :
    (∀ message, verifyMessage hmac secret purpose (signMessage hmac secret purpose message) =
      some message) ∧
    (∀ signed message, verifyMessage hmac secret purpose signed = some message →
      ∃ digest, signed = urlSafeEncode (utf8 message) ++ '-' :: '-' :: digest ∧
        digest.map Char.toLower =
          hexEncode (messageSigner hmac secret purpose (utf8 (urlSafeEncode (utf8 message))))) ∧
    (∀ other message read,
      verifyMessage hmac secret other (signMessage hmac secret purpose message) = some read →
        messageSigner hmac secret other (utf8 (urlSafeEncode (utf8 message))) =
          messageSigner hmac secret purpose (utf8 (urlSafeEncode (utf8 message)))) := by
  refine ⟨verifyMessage_signMessage hmac secret purpose,
    fun signed message => signed_of_verify hmac, fun other message read h => ?_⟩
  unfold verifyMessage signMessage at h
  simp only [rsplitOnce_append (hyphen_not_mem_hexEncode _), Option.bind_eq_bind,
    Option.bind_some, hexDecode_hexEncode] at h
  split_ifs at h with hsame
  exact hsame.symm

example : rsplitOnce ['a', '-', '-', '-', 'f'] = some (['a', '-'], ['f']) := by decide

end Eunha.SignedMessages
