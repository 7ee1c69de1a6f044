import Eunha.SignedIds

/-!
# Reading signed ids back

An id is read back by the verifier that made it, for the purpose it was made for and
until it expires, and in no other way: the digests of the other verifier differ, the
envelope is read as the value, expiry and purpose put in it, and asking again without
a purpose gives a string, which is no metadata.
-/
namespace Eunha.SignedIds

open Encodings JsonText

variable {N K : Type}

/-! ### Texts read back -/

theorem utf8_cons_length (c : Char) (text : Text) :
    (utf8 (c :: text)).length = c.utf8Size + (utf8 text).length := by
  rw [utf8, List.flatMap_cons, List.length_append, String.length_utf8EncodeChar, utf8]

theorem splitAtByte_append (before after : Text) :
    splitAtByte (before ++ after) (utf8 before).length = some (before, after) := by
  induction before with
  | nil => cases after <;> rfl
  | cons c before ih =>
      obtain ⟨n, hn⟩ := Nat.exists_eq_add_of_lt (Char.utf8Size_pos c)
      rw [utf8_cons_length, List.cons_append, hn,
        show 0 + n + 1 + (utf8 before).length = n + (utf8 before).length + 1 by omega, splitAtByte,
        if_pos (by omega), show n + (utf8 before).length + 1 - c.utf8Size = (utf8 before).length by
          omega, ih]
      rfl

theorem stripPrefix_append (start text : Text) : stripPrefix start (start ++ text) = some text := by
  rw [stripPrefix, if_pos (List.isPrefixOf_iff_prefix.mpr (List.prefix_append start text)),
    List.drop_left]

theorem splitOnce_append {separator : Char} {before : Text} (h : separator ∉ before)
    (after : Text) : splitOnce separator (before ++ separator :: after) = some (before, after) := by
  induction before with
  | nil => simp [splitOnce]
  | cons c before ih =>
      have hc : c ≠ separator := fun h' => h (by simp [h'])
      simp [splitOnce, hc, ih fun hmem => h (List.mem_cons_of_mem _ hmem)]

theorem splitOnce_none {separator : Char} {text : Text} (h : separator ∉ text) :
    splitOnce separator text = none := by
  induction text with
  | nil => rfl
  | cons c text ih =>
      have hc : c ≠ separator := fun h' => h (by simp [h'])
      simp [splitOnce, hc, ih fun hmem => h (List.mem_cons_of_mem _ hmem)]

theorem isDigit_of_mem_toDigits {n : ℕ} {c : Char} (hc : c ∈ Nat.toDigits 10 n) :
    c.isDigit = true :=
  Nat.isDigit_of_mem_toDigits (by decide) (by decide) hc

theorem splitSign_toDigits (n : ℕ) :
    splitSign (Nat.toDigits 10 n) = (false, Nat.toDigits 10 n) := by
  unfold splitSign
  split
  · next digits heq =>
      have : '-'.isDigit = true := isDigit_of_mem_toDigits (n := n) (by simp [heq])
      cases this
  · next digits heq =>
      have : '+'.isDigit = true := isDigit_of_mem_toDigits (n := n) (by simp [heq])
      cases this
  · rfl

theorem parseI64_showI64 (id : Int64) : parseI64 (showI64 id) = some id := by
  have hlow : Int64.minValue.toInt ≤ id.toInt := id.minValue_le_toInt
  have hhigh : id.toInt ≤ Int64.maxValue.toInt := id.toInt_le
  have hdigits : (Nat.toDigits 10 id.toInt.natAbs).all Char.isDigit = true :=
    List.all_eq_true.mpr fun c hc => isDigit_of_mem_toDigits hc
  have hne : (Nat.toDigits 10 id.toInt.natAbs).isEmpty = false :=
    List.isEmpty_eq_false_iff.mpr Nat.toDigits_ne_nil
  have hread : ∀ negative, (if negative = true then -(id.toInt.natAbs : ℤ) else id.toInt.natAbs) =
      id.toInt → ∀ text, splitSign text = (negative, Nat.toDigits 10 id.toInt.natAbs) →
      parseI64 text = some id := by
    intro negative hsign text hsplit
    simp only [parseI64, hsplit, Nat.ofDigitChars_ten_toDigits, hsign]
    rw [if_pos (by simp only [hne, hdigits, hlow, hhigh]; decide), Int64.ofInt_toInt]
  unfold showI64
  split_ifs with hneg
  · exact hread true (by rw [if_pos rfl]; omega) _ rfl
  · exact hread false (by rw [if_neg Bool.false_ne_true]; omega) _ (splitSign_toDigits _)

theorem not_mem_showI64 {c : Char} (hminus : c ≠ '-') (hdigit : c.isDigit = false) (id : Int64) :
    c ∉ showI64 id := by
  have hdigits : c ∉ Nat.toDigits 10 id.toInt.natAbs := fun hc => by
    rw [isDigit_of_mem_toDigits hc] at hdigit
    cases hdigit
  unfold showI64
  split_ifs
  · simpa [hminus] using hdigits
  · exact hdigits

theorem parseGlobalId_globalId {model : Text} (hslash : '/' ∉ model) (hmark : '?' ∉ model)
    (id : Int64) :
    parseGlobalId (globalId model id) = if model = [] then none else some (model, id) := by
  have hstrip : stripPrefix "gid://".toList (globalId model id) =
      some (globalIdApp ++ '/' :: (model ++ '/' :: showI64 id)) :=
    stripPrefix_append _ _
  have happ : splitOnce '/' (globalIdApp ++ '/' :: (model ++ '/' :: showI64 id)) =
      some (globalIdApp, model ++ '/' :: showI64 id) :=
    splitOnce_append (by decide) _
  have hquery : splitOnce '?' (model ++ '/' :: showI64 id) = none :=
    splitOnce_none (by simp [hmark, not_mem_showI64])
  have hmodel := splitOnce_append hslash (showI64 id)
  have hnamed : globalIdApp.isEmpty = false := rfl
  simp only [parseGlobalId, hstrip, Option.bind_eq_bind, Option.bind_some, happ, hnamed, hquery,
    hmodel, parseI64_showI64]
  cases model <;> rfl

/-! ### Signing and verifying -/

theorem utf8_length_of_lowerHex {text : Text} (h : ∀ c ∈ text, isLowerHex c = true) :
    (utf8 text).length = text.length := by
  induction text with
  | nil => rfl
  | cons c text ih =>
      have hc := h c (by simp)
      have hsize : c.utf8Size = 1 := by
        have hle : c.val ≤ 'f'.val := by
          simp only [isLowerHex, Bool.decide_or, Bool.or_eq_true, decide_eq_true_eq] at hc
          rcases hc with ⟨-, hc⟩ | ⟨-, hc⟩
          · exact UInt32.le_trans hc (by decide)
          · exact hc
        exact Char.utf8Size_eq_one_iff.mpr (UInt32.le_trans hle (by decide))
      rw [utf8_cons_length, ih fun d hd => h d (List.mem_cons_of_mem _ hd), hsize,
        List.length_cons, Nat.add_comm]

theorem extractEncoded_append (encoded digest : Text) (hlength : digest.length = 40)
    (hlower : ∀ c ∈ digest, isLowerHex c = true) :
    extractEncoded (encoded ++ "--".toList ++ digest) =
      if encoded = [] then none else some (encoded, digest) := by
  have hbytes : (utf8 (encoded ++ "--".toList ++ digest)).length =
      (utf8 encoded).length + (digestHexLen + 2) := by
    rw [utf8_append, utf8_append, List.length_append, List.length_append,
      utf8_length_of_lowerHex hlower, hlength]
    rfl
  have hsplit : splitAtByte (encoded ++ "--".toList ++ digest)
      ((utf8 encoded).length + (digestHexLen + 2) - (digestHexLen + 2)) =
        some (encoded, "--".toList ++ digest) := by
    rw [Nat.add_sub_cancel, List.append_assoc]
    exact splitAtByte_append encoded _
  have hall : digest.all isLowerHex = true := List.all_eq_true.mpr hlower
  unfold extractEncoded
  simp only [hbytes]
  rw [if_neg (by omega), hsplit]
  simp only [Option.bind_eq_bind, Option.bind_some, stripPrefix_append, hall]
  cases encoded <;> rfl

def stringMember (crates : Crates N K) (key value : Text) : Member N :=
  ⟨key, key, activeSupportJson crates (.string value), .string value⟩

def envelopeMembers (crates : Crates N K) (value : Text) (expiry : ℤ) (purpose : Text) :
    List (Member N) :=
  [stringMember crates "data".toList value, stringMember crates "exp".toList (crates.format expiry),
    stringMember crates "pur".toList purpose]

theorem nested_text (crates : Crates N K) {rails data exp pur openRails openData openExp openPur
    close : Text} (s t u : Text) {v : Value N}
    (hrails : openRails = '{' :: '"' :: (rails ++ ['"', ':']))
    (hdata : openData = '{' :: '"' :: (data ++ ['"', ':']))
    (hexp : openExp = ',' :: '"' :: (exp ++ ['"', ':']))
    (hpur : openPur = ',' :: '"' :: (pur ++ ['"', ':'])) (hclose : close = ['}', '}']) :
    openRails ++ (openData ++ activeSupportJson crates (.string s) ++
        openExp ++ activeSupportJson crates (.string t) ++
        openPur ++ activeSupportJson crates (.string u)) ++ close =
      '{' :: membersText [⟨rails, rails, '{' :: membersText [stringMember crates data s,
        stringMember crates exp t, stringMember crates pur u], v⟩] := by
  subst hrails hdata hexp hpur hclose
  simp [membersText, Member.text, stringMember]

theorem outdated_append {first second : Text}
    (hstart : ∀ rest, outdated (utf8 first ++ (utf8 second ++ rest)) = false)
    (a b c d e close : Text) :
    outdated (utf8 (first ++ (second ++ a ++ b ++ c ++ d ++ e) ++ close)) = false := by
  simp only [utf8_append, List.append_assoc, hstart]

section
variable {crates : Crates N K} (h : crates.Documented)
include h

theorem encode_map_toStandard (verifier : Verifier K) (serialized : Text) :
    (verifier.encode crates serialized).map toStandard = crates.standardEncode (utf8 serialized) := by
  have hkept : ∀ c, c ∈ alphabet ∨ c = '=' → toStandard c = c ∧ toStandard (toUrlSafe c) = c := by
    have halphabet : ∀ c ∈ alphabet, toStandard c = c ∧ toStandard (toUrlSafe c) = c := by
      decide +kernel
    rintro c (hc | rfl)
    · exact halphabet c hc
    · decide
  have hmem := h.standardEncode_alphabet (utf8 serialized)
  unfold Verifier.encode
  cases verifier.encoding with
  | strict =>
      exact (List.map_congr_left fun c hc => (hkept c (hmem c hc)).1).trans (List.map_id' _)
  | urlSafe =>
      simp only [h.urlSafeEncode_eq, List.map_map]
      exact (List.map_congr_left fun c hc => (hkept c (hmem c hc)).2).trans (List.map_id' _)

theorem decodeBase64_encode (verifier : Verifier K) (serialized : Text) :
    decodeBase64 crates (verifier.encode crates serialized) = some (utf8 serialized) := by
  rw [decodeBase64, encode_map_toStandard h, h.lenientDecode_standardEncode]

theorem encode_ne_nil (verifier : Verifier K) {serialized : Text} (hne : serialized ≠ []) :
    verifier.encode crates serialized ≠ [] := by
  intro hnil
  have hread := decodeBase64_encode h verifier serialized
  have hempty := h.lenientDecode_standardEncode []
  rw [h.standardEncode_nil] at hempty
  rw [hnil, decodeBase64, List.map_nil, hempty, Option.some.injEq] at hread
  exact hne (utf8_injective (hread.symm.trans rfl))

theorem verify_sign (verifier : Verifier K) {serialized : Text} (hne : serialized ≠ [])
    (hcurrent : outdated (utf8 serialized) = false) (purpose : Option Text) (now : ℤ) :
    verifier.verify crates (verifier.sign crates serialized) purpose now =
      (crates.fromSlice (utf8 serialized)).bind fun value => unwrap crates value purpose now := by
  have hextract := extractEncoded_append (verifier.encode crates serialized)
    (crates.hexEncode (crates.hmac verifier.key (utf8 (verifier.encode crates serialized))))
    (by rw [h.hexEncode_length, h.hmac_length]) (h.hexEncode_lower _)
  rw [if_neg (encode_ne_nil h verifier hne)] at hextract
  simp only [Verifier.verify, Verifier.sign, hextract, Option.bind_eq_bind, Option.bind_some,
    h.hexDecode_hexEncode, decodeBase64_encode h, hcurrent]
  simp

theorem verify_sign_other {verifier other : Verifier K}
    (hkeys : ∀ message, crates.hmac verifier.key message ≠ crates.hmac other.key message)
    (serialized : Text) (purpose : Option Text) (now : ℤ) :
    verifier.verify crates (other.sign crates serialized) purpose now = none := by
  have hextract := extractEncoded_append (other.encode crates serialized)
    (crates.hexEncode (crates.hmac other.key (utf8 (other.encode crates serialized))))
    (by rw [h.hexEncode_length, h.hmac_length]) (h.hexEncode_lower _)
  simp only [Verifier.verify, Verifier.sign, hextract]
  split_ifs
  · rfl
  · simp [h.hexDecode_hexEncode, hkeys]

theorem denotes_activeSupportJson (s : Text) :
    Denotes 0 (activeSupportJson crates (.string s)) (Value.string s : Value N) := by
  have hentity : ∀ c, htmlEntity c = true → hexNumber (hex4 c.toNat) = some c.toNat ∧
      c ∉ shortEscapes.map Prod.fst ∧ c ≠ 'u' ∧ hexValue c = none := by
    intro c hc
    simp only [htmlEntity, Bool.or_eq_true, decide_eq_true_eq] at hc
    rcases hc with (((rfl | rfl) | rfl) | rfl) | rfl <;> decide +kernel
  have hquote : htmlEntity '"' = false := by decide
  have hstring := h.toString_string s
  unfold activeSupportJson
  generalize crates.toString (.string s) = text at hstring
  generalize hvalue : (Value.string s : Value N) = value at hstring
  cases hstring with
  | string _ hbody =>
      cases hvalue
      simpa [hquote] using Denotes.string 0 (hbody.escape hentity)

def enveloped (value expiry purpose : Text) : Value N :=
  .object [("_rails".toList, .object [("data".toList, .string value), ("exp".toList, .string expiry),
    ("pur".toList, .string purpose)])]

theorem denotes_wrapInMetadataEnvelope (value purpose : Text) (expiry : ℤ) :
    Denotes 2 (wrapInMetadataEnvelope crates (.string value) (some purpose) (some expiry))
      (enveloped value (crates.format expiry) purpose : Value N) := by
  have hkey : ∀ key : Text, key.all (fun c => 0x20 ≤ c.toNat && c ≠ '"' && c ≠ '\\') = true →
      Body key key := fun key hkey => body_plain fun c hc => by
    simpa [and_assoc] using List.all_eq_true.mp hkey c hc
  have hinner : Denotes 1 ('{' :: membersText (envelopeMembers crates value expiry purpose))
      (.object ((envelopeMembers crates value expiry purpose).map fun m => (m.key, m.value))) := by
    refine .object 0 _ (List.cons_ne_nil _ _) (by simp [envelopeMembers, stringMember]) ?_ ?_
    · simp only [envelopeMembers, List.forall_mem_cons]
      exact ⟨hkey "data".toList (by decide), hkey "exp".toList (by decide),
        hkey "pur".toList (by decide), by simp⟩
    · simp only [envelopeMembers, List.forall_mem_cons]
      exact ⟨denotes_activeSupportJson h _, denotes_activeSupportJson h _,
        denotes_activeSupportJson h _, by simp⟩
  have houter := Denotes.object 1 [⟨"_rails".toList, "_rails".toList, _, _⟩] (List.cons_ne_nil _ _)
    (by simp) (by simpa using hkey "_rails".toList (by decide)) (by simpa using hinner)
  have htext : wrapInMetadataEnvelope crates (.string value) (some purpose) (some expiry) =
      '{' :: membersText [⟨"_rails".toList, "_rails".toList,
        '{' :: membersText (envelopeMembers crates value expiry purpose),
        .object ((envelopeMembers crates value expiry purpose).map fun m => (m.key, m.value))⟩] := by
    exact nested_text crates _ _ _ (by decide +kernel) (by decide +kernel) (by decide +kernel)
      (by decide +kernel) (by decide +kernel)
  rw [htext]
  exact houter

omit h in
theorem unwrap_enveloped (value expiry purpose : Text) (wanted : Option Text) (now : ℤ) :
    unwrap crates (enveloped value expiry purpose) wanted now =
      if inTime crates (some (.string expiry)) now && decide (purpose = wanted.getD []) then
        some (.string value)
      else none :=
  rfl

theorem inTime_format (time now : ℤ) :
    inTime crates (some (.string (crates.format time))) now =
      decide (now < truncMillis time ∧ FourDigitYear time) := by
  simp only [inTime, Value.asStr, Option.bind_some, h.parse_format]
  split_ifs with hyear <;> simp [hyear]

omit h in
theorem legacyGlobalId_string (gid purpose : Text) (now : ℤ) :
    legacyGlobalId crates (.string gid) purpose now = none :=
  rfl

theorem verify_signedGlobalId (secret model : Text) (id : Int64) (purpose : Text) (made : ℤ)
    (wanted : Option Text) (now : ℤ) :
    (signedGlobalIds crates secret).verify crates (signedGlobalId crates secret model id purpose made)
        wanted now =
      if purpose = wanted.getD [] ∧ now < truncMillis (expiresAt crates made) ∧
          FourDigitYear (expiresAt crates made) then
        some (.string (globalId model id))
      else none := by
  have hdenotes := denotes_wrapInMetadataEnvelope h (globalId model id) purpose
    (expiresAt crates made)
  have hcurrent : outdated (utf8 (wrapInMetadataEnvelope crates (.string (globalId model id))
      (some purpose) (some (expiresAt crates made)))) = false := by
    exact outdated_append (fun _ => rfl) _ _ _ _ _ _
  have hread := verify_sign h (signedGlobalIds crates secret) (hdenotes.ne_nil) hcurrent wanted now
  rw [h.fromSlice_denotes 2 (by decide) _ _ hdenotes] at hread
  refine Eq.trans hread ?_
  rw [Option.bind_some, unwrap_enveloped, inTime_format h]
  by_cases hpurpose : purpose = wanted.getD [] <;> simp [hpurpose]

theorem verify_asyncRefreshId (secret redisKey : Text) (now : ℤ) :
    (asyncRefreshes crates secret).verify crates (asyncRefreshId crates secret redisKey) none now =
      some (.string redisKey) := by
  have hdenotes := denotes_activeSupportJson h redisKey
  have hcurrent : outdated (utf8 (activeSupportJson crates (.string redisKey))) = false := by
    generalize activeSupportJson crates (.string redisKey) = text at hdenotes
    generalize (Value.string redisKey : Value N) = value at hdenotes
    cases hdenotes with
    | string => simp [outdated, utf8, String.utf8EncodeChar, List.isPrefixOf]
  have hread := verify_sign h (asyncRefreshes crates secret) (hdenotes.ne_nil) hcurrent none now
  rw [h.fromSlice_denotes 0 (by decide) _ _ hdenotes] at hread
  exact hread

end

theorem locateSigned_signedGlobalId {crates : Crates N K} (h : crates.Documented)
    (secret : Text) {model : Text} (hslash : '/' ∉ model) (hmark : '?' ∉ model) (id : Int64)
    (p q : Text) (made now : ℤ) :
    locateSigned crates secret (signedGlobalId crates secret model id p made) q now =
      if q = p ∧ now < truncMillis (expiresAt crates made) ∧ model ≠ [] ∧
          FourDigitYear (expiresAt crates made) then some (model, id) else none := by
  have hasked := verify_signedGlobalId h secret model id p made (some q) now
  have hfallback := verify_signedGlobalId h secret model id p made none now
  rw [Option.getD_some] at hasked
  unfold locateSigned
  simp only [hasked, hfallback]
  by_cases hcurrent : now < truncMillis (expiresAt crates made) ∧
      FourDigitYear (expiresAt crates made)
  · by_cases hpurpose : p = q
    · simp only [hpurpose, hcurrent, and_self, if_true, true_and,
        parseGlobalId_globalId hslash hmark, and_true]
      by_cases hmodel : model = [] <;> simp [hmodel]
    · -- Without a purpose the value may be read, which is no metadata.
      simp only [hpurpose, Ne.symm hpurpose, false_and, if_false, Option.bind_eq_bind]
      split_ifs
      · rw [Option.bind_some, legacyGlobalId_string, Option.bind_none]
      · rfl
  · have hexpired : ¬(now < truncMillis (expiresAt crates made) ∧ model ≠ [] ∧
        FourDigitYear (expiresAt crates made)) := fun h => hcurrent ⟨h.1, h.2.2⟩
    simp [hcurrent, hexpired]

/-- Each verifier reads back the ids it made, a signed global id as far as it can be
located, and neither reads those of the other. -/
theorem ids_read_back (crates : Crates N K) (h : crates.Documented) (secret model : Text)
    (hslash : '/' ∉ model) (hmark : '?' ∉ model) (id : Int64) (p q redisKey : Text) (made now : ℤ) :
    locateSigned crates secret (signedGlobalId crates secret model id p made) q now =
      (if q = p ∧ now < truncMillis (expiresAt crates made) ∧ model ≠ [] ∧
          FourDigitYear (expiresAt crates made) then some (model, id) else none) ∧
    verifyAsyncRefreshId crates secret (asyncRefreshId crates secret redisKey) now =
      some redisKey ∧
    verifyAsyncRefreshId crates secret (signedGlobalId crates secret model id p made) now = none ∧
    locateSigned crates secret (asyncRefreshId crates secret redisKey) q now = none := by
  have hkeys : ∀ message, crates.hmac (asyncRefreshes crates secret).key message ≠
      crates.hmac (signedGlobalIds crates secret).key message := h.hmac_ideal secret
  refine ⟨locateSigned_signedGlobalId h secret hslash hmark id p q made now, ?_, ?_, ?_⟩
  · rw [verifyAsyncRefreshId, verify_asyncRefreshId h]
  · rw [verifyAsyncRefreshId, signedGlobalId, Verifier.generate, verify_sign_other h hkeys]
  · have hother := fun purpose => verify_sign_other h (fun message => (hkeys message).symm)
      (activeSupportJson crates (.string redisKey)) purpose now
    simp [locateSigned, asyncRefreshId, Verifier.generate, hother]

/-! ### An instance -/

def vectorSecret : Text := (List.replicate 8 "0123456789abcdef".toList).flatten

/-- A refresh id and a signed global id, without their digests. -/
def encodedRefresh : Text :=
  "ImFzeW5jX3JlZnJlc2hlczp2MTphY2NvdW50czoxMjM6cmVmcmVzaF9mb2xsb3dlcnMi".toList

def encodedUser : Text :=
  ("eyJfcmFpbHMiOnsiZGF0YSI6ImdpZDovL21hc3RvZG9uL1VzZXIvMSIsImV4cCI6IjIwMjYtMTEtMDJUMDc6MjU6" ++
    "MDEuMTIzWiIsInB1ciI6InVuc3Vic2NyaWJlIn19").toList

def vectorHmac (key : Text × Text) (message : List UInt8) : List UInt8 :=
  let digests :=
    if key.1 = vectorSecret ∧ message = utf8 encodedRefresh then
      ("509406b78242a360e365efdfc925d0e7c576618f", "365ad4bdb549ffaa19ffff0bd131393f7b6656ec")
    else if key.1 = vectorSecret ∧ message = utf8 encodedUser then
      ("e118a5fe07e63c59da4612588a989d822ce4640f", "daf96e133c227720ee735a3e422158b568435e39")
    else
      ("0000000000000000000000000000000000000000", "1111111111111111111111111111111111111111")
  ((hexDecode (if key.2 = asyncRefreshesSalt then digests.1 else digests.2).toList).getD [])

/-- The start of the year 0. -/
def firstTime : ℤ := -62167219200 * 1000000000

def vectorExpiry : ℤ := 1793604301123456000

def vectorStamp : Text := "2026-11-02T07:25:01.123Z".toList

def vectorFormat (time : ℤ) : Text :=
  if time = vectorExpiry then vectorStamp
  else if FourDigitYear time then Nat.toDigits 10 ((time - firstTime) / 1000000).toNat
  else "+10000-02-01T00:00:00.000Z".toList

def vectorParse (text : Text) : Option ℤ :=
  if text = vectorStamp then some (truncMillis vectorExpiry)
  else if text.all Char.isDigit then some (Nat.ofDigitChars 10 text 0 * 1000000 + firstTime)
  else none

theorem vectorParse_vectorFormat (time : ℤ) :
    vectorParse (vectorFormat time) =
      if FourDigitYear time then some (truncMillis time) else none := by
  unfold vectorFormat
  split_ifs with hexpiry hyear hyear
  · rw [vectorParse, if_pos rfl, hexpiry]
  · subst hexpiry
    exact absurd (by decide) hyear
  · have hdigits : (Nat.toDigits 10 ((time - firstTime) / 1000000).toNat).all Char.isDigit = true :=
      List.all_eq_true.mpr fun c hc => isDigit_of_mem_toDigits hc
    have hstamp : Nat.toDigits 10 ((time - firstTime) / 1000000).toNat ≠ vectorStamp := by
      intro heq
      rw [heq] at hdigits
      cases hdigits
    rw [vectorParse, if_neg hstamp, if_pos hdigits, Nat.ofDigitChars_ten_toDigits]
    have := hyear.1
    unfold truncMillis firstTime at *
    congr 1
    omega
  · decide

def vectorCrates : Crates Unit (Text × Text) where
  pbkdf2Hmac := Prod.mk
  hmac := vectorHmac
  hexEncode := hexEncode
  hexDecode := hexDecode
  standardEncode := base64Encode
  urlSafeEncode := fun data => (base64Encode data).map toUrlSafe
  lenientDecode := base64Decode
  fromSlice := fun data => (ofUtf8 data).bind (parse 127)
  toString := fun
    | .string s => writeString s
    | _ => "null".toList
  checkedAddMonth := fun time => some (time + 31 * 86400 * 1000000000)
  format := vectorFormat
  parseFromRfc3339 := vectorParse

theorem vectorCrates_documented : vectorCrates.Documented where
  hmac_length := by
    intro key message
    simp only [vectorCrates, vectorHmac]
    split_ifs <;> decide +kernel
  hmac_ideal := by
    intro secret message
    have hsalt : signedGlobalIdsSalt ≠ asyncRefreshesSalt := by decide
    simp only [vectorCrates, vectorHmac, hsalt, if_true, if_false]
    split_ifs <;> decide +kernel
  hexDecode_hexEncode := hexDecode_hexEncode
  hexEncode_length := hexEncode_length
  hexEncode_lower := isLowerHex_hexEncode
  lenientDecode_standardEncode := base64Decode_base64Encode
  standardEncode_nil := rfl
  standardEncode_alphabet := fun _ _ hc => mem_base64Encode hc
  urlSafeEncode_eq := fun _ => rfl
  fromSlice_denotes := by
    intro depth hdepth text value hdenotes
    simp only [vectorCrates, ofUtf8_utf8, Option.bind_some]
    exact parse_denotes (hdenotes.mono hdepth)
  toString_string := denotes_writeString 0
  parse_format := vectorParse_vectorFormat

example : vectorCrates.parseFromRfc3339 (vectorCrates.format 0) = some 0 := by decide +kernel

/-! The literals are replaced by their characters first, as `toList` is slow to evaluate. -/

/-- What is signed in an unsubscribe id. -/
def userEnvelope : Text :=
  ("\x7b\"_rails\":\x7b\"data\":\"gid://mastodon/User/1\"," ++
    "\"exp\":\"2026-11-02T07:25:01.123Z\",\"pur\":\"unsubscribe\"\x7d\x7d").toList

theorem wrap_userEnvelope {expiry : ℤ} (hexpiry : vectorCrates.format expiry = vectorStamp) :
    wrapInMetadataEnvelope vectorCrates (.string (globalId "User".toList 1))
      (some "unsubscribe".toList) (some expiry) = userEnvelope := by
  have hopen : "\x7b\"_rails\":".toList = _ := String.toList_ofList
  have hdata : "\x7b\"data\":".toList = _ := String.toList_ofList
  have hexp : ",\"exp\":".toList = _ := String.toList_ofList
  have hpur : ",\"pur\":".toList = _ := String.toList_ofList
  have hclose : "\x7d\x7d".toList = _ := String.toList_ofList
  have hgid : "gid://".toList = _ := String.toList_ofList
  have happ : "mastodon".toList = _ := String.toList_ofList
  have hmodel : "User".toList = _ := String.toList_ofList
  have hpurpose : "unsubscribe".toList = _ := String.toList_ofList
  have hstamp : vectorStamp = _ := String.toList_ofList
  have henvelope : userEnvelope = _ :=
    String.toList_append.trans (congrArg₂ (· ++ ·) String.toList_ofList String.toList_ofList)
  have hid : globalId "User".toList 1 = "gid://".toList ++
    ("mastodon".toList ++ '/' :: ("User".toList ++ '/' :: showI64 1)) := rfl
  have hwrap : wrapInMetadataEnvelope vectorCrates (.string (globalId "User".toList 1))
      (some "unsubscribe".toList) (some expiry) =
    "\x7b\"_rails\":".toList ++ ("\x7b\"data\":".toList ++
      activeSupportJson vectorCrates (.string (globalId "User".toList 1)) ++
      ",\"exp\":".toList ++ activeSupportJson vectorCrates (.string (vectorCrates.format expiry)) ++
      ",\"pur\":".toList ++ activeSupportJson vectorCrates (.string "unsubscribe".toList)) ++
      "\x7d\x7d".toList := rfl
  rw [hwrap, hid, hexpiry, henvelope, hopen, hdata, hexp, hpur, hclose, hgid, happ, hmodel,
    hpurpose, hstamp]
  rfl

theorem encode_userEnvelope : (base64Encode (utf8 userEnvelope)).map toUrlSafe = encodedUser := by
  have huser : encodedUser = _ :=
    String.toList_append.trans (congrArg₂ (· ++ ·) String.toList_ofList String.toList_ofList)
  have henvelope : userEnvelope = _ :=
    String.toList_append.trans (congrArg₂ (· ++ ·) String.toList_ofList String.toList_ofList)
  rw [henvelope, huser]
  decide +kernel

theorem digest_encodedUser :
    hexEncode (vectorHmac (vectorSecret, signedGlobalIdsSalt) (utf8 encodedUser)) =
      "daf96e133c227720ee735a3e422158b568435e39".toList := by
  have hdigest : "daf96e133c227720ee735a3e422158b568435e39".toList = _ := String.toList_ofList
  have hne : utf8 encodedUser ≠ utf8 encodedRefresh := by
    have huser : encodedUser = _ :=
      String.toList_append.trans (congrArg₂ (· ++ ·) String.toList_ofList String.toList_ofList)
    have hrefresh : encodedRefresh = _ := String.toList_ofList
    rw [huser, hrefresh]
    decide +kernel
  have hsalt : signedGlobalIdsSalt ≠ asyncRefreshesSalt := by decide
  simp only [-String.reduceToList, vectorHmac, hne, hsalt, and_false, and_self, if_true, if_false]
  rw [hdigest]
  decide +kernel

theorem signedGlobalId_user {made : ℤ}
    (hmade : vectorCrates.format (expiresAt vectorCrates made) = vectorStamp) :
    signedGlobalId vectorCrates vectorSecret "User".toList 1 "unsubscribe".toList made =
      encodedUser ++ "--daf96e133c227720ee735a3e422158b568435e39".toList := by
  have hmarked : "--daf96e133c227720ee735a3e422158b568435e39".toList =
      "--".toList ++ "daf96e133c227720ee735a3e422158b568435e39".toList := by
    have hboth : "--daf96e133c227720ee735a3e422158b568435e39".toList = _ := String.toList_ofList
    have hmark : "--".toList = _ := String.toList_ofList
    have hdigest : "daf96e133c227720ee735a3e422158b568435e39".toList = _ := String.toList_ofList
    rw [hboth, hmark, hdigest]
    rfl
  have hencode : Verifier.encode vectorCrates (signedGlobalIds vectorCrates vectorSecret)
      userEnvelope = encodedUser := encode_userEnvelope
  have hsign : signedGlobalId vectorCrates vectorSecret "User".toList 1 "unsubscribe".toList made =
    (signedGlobalIds vectorCrates vectorSecret).sign vectorCrates
      (wrapInMetadataEnvelope vectorCrates (.string (globalId "User".toList 1))
        (some "unsubscribe".toList) (some (expiresAt vectorCrates made))) := rfl
  have hparts (serialized : Text) :
      (signedGlobalIds vectorCrates vectorSecret).sign vectorCrates serialized =
        Verifier.encode vectorCrates (signedGlobalIds vectorCrates vectorSecret) serialized ++
          "--".toList ++ hexEncode (vectorHmac (vectorSecret, signedGlobalIdsSalt)
            (utf8 (Verifier.encode vectorCrates (signedGlobalIds vectorCrates vectorSecret)
              serialized))) := rfl
  rw [hsign, wrap_userEnvelope hmade, hparts, hencode, digest_encodedUser, hmarked,
    List.append_assoc]

/-- A user's unsubscribe id and a refresh id, asked for an hour after they were made. -/
theorem ids_read_back_unsubscribe :
    let model := "User".toList
    let purpose := "unsubscribe".toList
    let redisKey := "async_refreshes:v1:accounts:123:refresh_followers".toList
    let made := vectorExpiry - 31 * 86400 * 1000000000
    let now := made + 3600 * 1000000000
    let sgid := signedGlobalId vectorCrates vectorSecret model 1 purpose made
    let id := asyncRefreshId vectorCrates vectorSecret redisKey
    sgid = encodedUser ++ "--daf96e133c227720ee735a3e422158b568435e39".toList ∧
    locateSigned vectorCrates vectorSecret sgid purpose now = some (model, 1) ∧
    locateSigned vectorCrates vectorSecret sgid [] now = none ∧
    verifyAsyncRefreshId vectorCrates vectorSecret id now = some redisKey ∧
    verifyAsyncRefreshId vectorCrates vectorSecret sgid now = none ∧
    locateSigned vectorCrates vectorSecret id purpose now = none := by
  intro model purpose redisKey made now sgid id
  have h := ids_read_back vectorCrates vectorCrates_documented vectorSecret model (by decide)
    (by decide) 1 purpose purpose redisKey made now
  have hother := ids_read_back vectorCrates vectorCrates_documented vectorSecret model (by decide)
    (by decide) 1 purpose [] redisKey made now
  refine ⟨signedGlobalId_user (by decide +kernel), h.1.trans (if_pos (by decide +kernel)),
    hother.1.trans (if_neg (by decide +kernel)), h.2.1, h.2.2.1, h.2.2.2⟩

/-- Asked for the purpose they were made for before they expire, neither the id of a
model without a name nor one that expires in the year 10000 is located. -/
theorem unlocated_ids :
    let made := vectorExpiry - 31 * 86400 * 1000000000
    let late := 253402300800 * 1000000000
    (made < truncMillis (expiresAt vectorCrates made) ∧
      locateSigned vectorCrates vectorSecret
        (signedGlobalId vectorCrates vectorSecret [] 1 "p".toList made) "p".toList made = none) ∧
    late < truncMillis (expiresAt vectorCrates late) ∧
      locateSigned vectorCrates vectorSecret
        (signedGlobalId vectorCrates vectorSecret "User".toList 1 "p".toList late) "p".toList late =
          none := by
  refine ⟨⟨by decide, ?_⟩, by decide, ?_⟩
  · exact (locateSigned_signedGlobalId vectorCrates_documented _ (by decide) (by decide) 1 _ _ _
      _).trans (if_neg (by decide))
  · exact (locateSigned_signedGlobalId vectorCrates_documented _ (by decide) (by decide) 1 _ _ _
      _).trans (if_neg (by decide))

end Eunha.SignedIds
