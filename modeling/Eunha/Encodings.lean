import Eunha.Chars
import Mathlib.Data.List.Basic
import Mathlib.Data.Option.Basic

/-!
# UTF-8, hexadecimal and base64

Texts are lists of characters and data lists of bytes. Each encoder has a decoder
beside it, and the theorem that one undoes the other.
-/
namespace Eunha.Encodings

/-! ### UTF-8 -/

def utf8 (text : List Char) : List UInt8 := text.flatMap String.utf8EncodeChar

def ofUtf8 (data : List UInt8) : Option (List Char) :=
  (String.fromUTF8? data.toByteArray).map String.toList

theorem utf8_append (text more : List Char) : utf8 (text ++ more) = utf8 text ++ utf8 more :=
  List.flatMap_append

theorem ofUtf8_utf8 (text : List Char) : ofUtf8 (utf8 text) = some text := by
  have h : String.fromUTF8? (utf8 text).toByteArray = some (String.ofList text) :=
    dif_pos (String.ofList text).isValidUTF8
  rw [ofUtf8, h, Option.map_some, String.toList_ofList]

theorem utf8_injective {text other : List Char} (h : utf8 text = utf8 other) : text = other := by
  have := congrArg ofUtf8 h
  simpa [ofUtf8_utf8] using this

/-! ### Hexadecimal -/

def hexValue (c : Char) : Option ℕ :=
  if '0' ≤ c ∧ c ≤ '9' then some (c.toNat - '0'.toNat)
  else if 'a' ≤ c ∧ c ≤ 'f' then some (c.toNat - 'a'.toNat + 10)
  else if 'A' ≤ c ∧ c ≤ 'F' then some (c.toNat - 'A'.toNat + 10)
  else none

/-- The digits an octet is written as, the high half first. -/
def hexPair (byte : UInt8) : List Char :=
  [Nat.digitChar (byte.toNat / 16), Nat.digitChar (byte.toNat % 16)]

def hexEncode (data : List UInt8) : List Char := data.flatMap hexPair

def hexDecode : List Char → Option (List UInt8)
  | [] => some []
  | [_] => none
  | a :: b :: rest => do
      let a ← hexValue a
      let b ← hexValue b
      let rest ← hexDecode rest
      pure (UInt8.ofNat (16 * a + b) :: rest)

def isLowerHex (c : Char) : Bool := ('0' ≤ c ∧ c ≤ '9') ∨ ('a' ≤ c ∧ c ≤ 'f')

theorem digitChar_hex : ∀ n < 16,
    hexValue (Nat.digitChar n) = some n ∧ isLowerHex (Nat.digitChar n) = true := by
  decide

theorem hexDecode_hexEncode (data : List UInt8) : hexDecode (hexEncode data) = some data := by
  induction data with
  | nil => rfl
  | cons byte data ih =>
      have hbyte := byte.toNat_lt
      have hhigh := (digitChar_hex (byte.toNat / 16) (by omega)).1
      have hlow := (digitChar_hex (byte.toNat % 16) (by omega)).1
      have hsum : UInt8.ofNat (16 * (byte.toNat / 16) + byte.toNat % 16) = byte := by
        rw [show 16 * (byte.toNat / 16) + byte.toNat % 16 = byte.toNat by omega, UInt8.ofNat_toNat]
      show hexDecode (_ :: _ :: hexEncode data) = _
      simp only [hexDecode, hhigh, hlow, ih, Option.bind_eq_bind, Option.bind_some, hsum]
      rfl

theorem hexEncode_length (data : List UInt8) : (hexEncode data).length = 2 * data.length := by
  induction data with
  | nil => rfl
  | cons byte data ih =>
      simp only [hexEncode, List.flatMap_cons, List.length_append, List.length_cons] at ih ⊢
      rw [ih, hexPair, List.length_cons, List.length_cons, List.length_nil]
      omega

theorem isLowerHex_hexEncode (data : List UInt8) : ∀ c ∈ hexEncode data, isLowerHex c = true := by
  intro c hc
  obtain ⟨byte, -, hc⟩ := List.mem_flatMap.mp hc
  have hbyte := byte.toNat_lt
  rcases List.mem_pair.mp hc with rfl | rfl
  · exact (digitChar_hex _ (by omega)).2
  · exact (digitChar_hex _ (by omega)).2

/-! ### Base64 -/

/-- Capitals, small letters, digits, and two more. -/
def alphabet : List Char :=
  (List.range' 65 26 ++ List.range' 97 26 ++ List.range' 48 10).map Char.ofNat ++ ['+', '/']

def digit (n : ℕ) : Char := alphabet.getD n '='

def digitValue (c : Char) : Option ℕ :=
  if c ∈ alphabet then some (alphabet.idxOf c) else none

/-- Groups of six bits, the last one filled with zeros. -/
def sextets : List UInt8 → List ℕ
  | [] => []
  | [a] => [a.toNat / 4, a.toNat % 4 * 16]
  | [a, b] => [a.toNat / 4, a.toNat % 4 * 16 + b.toNat / 16, b.toNat % 16 * 4]
  | a :: b :: c :: rest =>
      (a.toNat / 4) :: (a.toNat % 4 * 16 + b.toNat / 16) :: (b.toNat % 16 * 4 + c.toNat / 64) ::
        (c.toNat % 64) :: sextets rest

def octets : List ℕ → Option (List UInt8)
  | [] => some []
  | [_] => none
  | [w, x] => if x % 16 = 0 then some [UInt8.ofNat (w * 4 + x / 16)] else none
  | [w, x, y] =>
      if y % 4 = 0 then some [UInt8.ofNat (w * 4 + x / 16), UInt8.ofNat (x % 16 * 16 + y / 4)]
      else none
  | w :: x :: y :: z :: rest =>
      (octets rest).map fun rest =>
        UInt8.ofNat (w * 4 + x / 16) :: UInt8.ofNat (x % 16 * 16 + y / 4) ::
          UInt8.ofNat (y % 4 * 64 + z) :: rest

def padding (data : List UInt8) : ℕ := (3 - data.length % 3) % 3

def base64Encode (data : List UInt8) : List Char :=
  (sextets data).map digit ++ List.replicate (padding data) '='

/-- The padding may be left out. -/
def base64Decode (text : List Char) : Option (List UInt8) :=
  let pad := text.dropWhile (· ≠ '=')
  if pad = [] ∨ pad.length ≤ 2 ∧ pad.all (· = '=') ∧ text.length % 4 = 0 then
    ((text.takeWhile (· ≠ '=')).mapM digitValue).bind octets
  else none

example : base64Encode [104, 105] = ['a', 'G', 'k', '='] := by decide +kernel

theorem alphabet_length : alphabet.length = 64 := by
  simp [alphabet]

theorem alphabet_nodup : alphabet.Nodup := by
  have hletters : (List.range' 65 26 ++ List.range' 97 26).Nodup := by
    refine List.nodup_append.mpr ⟨List.nodup_range', List.nodup_range', ?_⟩
    simp only [List.mem_range'_1]
    omega
  have hcodes : (List.range' 65 26 ++ List.range' 97 26 ++ List.range' 48 10).Nodup := by
    refine List.nodup_append.mpr ⟨hletters, List.nodup_range', ?_⟩
    simp only [List.mem_append, List.mem_range'_1]
    omega
  have hback : ∀ n ∈ List.range' 65 26 ++ List.range' 97 26 ++ List.range' 48 10,
      (Char.ofNat n).toNat = n := by
    intro n hn
    simp only [List.mem_append, List.mem_range'_1] at hn
    rw [Char.ofNat, dif_pos (.inl (by omega))]
    rfl
  have hchars : ((List.range' 65 26 ++ List.range' 97 26 ++ List.range' 48 10).map
      Char.ofNat).Nodup := by
    refine List.pairwise_map.mpr (hcodes.imp_of_mem fun hm hn hne heq => hne ?_)
    rw [← hback _ hm, heq, hback _ hn]
  refine List.nodup_append.mpr ⟨hchars, by decide, ?_⟩
  intro c hc d hd heq
  obtain ⟨n, hn, rfl⟩ := List.mem_map.mp hc
  have hcode := hback n hn
  rw [heq] at hcode
  simp only [List.mem_append, List.mem_range'_1] at hn
  rcases List.mem_pair.mp hd with rfl | rfl
  · have : n = 43 := hcode.symm
    omega
  · have : n = 47 := hcode.symm
    omega

theorem digit_eq {n : ℕ} (hn : n < alphabet.length) : digit n = alphabet[n] := by
  rw [digit, List.getD_eq_getElem?_getD, List.getElem?_eq_getElem hn, Option.getD_some]

theorem digit_mem (n : ℕ) (hn : n < 64) : digit n ∈ alphabet := by
  rw [← alphabet_length] at hn
  rw [digit_eq hn]
  exact List.getElem_mem hn

theorem digitValue_digit (n : ℕ) (hn : n < 64) : digitValue (digit n) = some n := by
  have hmem := digit_mem n hn
  rw [← alphabet_length] at hn
  rw [digitValue, if_pos hmem, digit_eq hn, alphabet_nodup.idxOf_getElem]

theorem digit_ne (n : ℕ) (hn : n < 64) : digit n ≠ '=' := by
  have hnot : '=' ∉ alphabet := by decide +kernel
  intro heq
  exact hnot (heq ▸ digit_mem n hn)

theorem sextets_lt (data : List UInt8) : ∀ n ∈ sextets data, n < 64 := by
  fun_induction sextets data with
  | case1 => simp
  | case2 a =>
      have := a.toNat_lt
      simp only [List.mem_cons, List.not_mem_nil, or_false, forall_eq_or_imp, forall_eq]
      omega
  | case3 a b =>
      have := a.toNat_lt
      have := b.toNat_lt
      simp only [List.mem_cons, List.not_mem_nil, or_false, forall_eq_or_imp, forall_eq]
      omega
  | case4 a b c rest ih =>
      have := a.toNat_lt
      have := b.toNat_lt
      have := c.toNat_lt
      simp only [List.mem_cons, forall_eq_or_imp]
      exact ⟨by omega, by omega, by omega, by omega, ih⟩

theorem octets_sextets (data : List UInt8) : octets (sextets data) = some data := by
  have hbyte : ∀ {n : ℕ} {a : UInt8}, n = a.toNat → UInt8.ofNat n = a := by
    rintro _ a rfl
    simp
  fun_induction sextets data with
  | case1 => rfl
  | case2 a =>
      have ha := a.toNat_lt
      rw [octets, if_pos (by omega), hbyte (a := a) (by omega)]
  | case3 a b =>
      have ha := a.toNat_lt
      have hb := b.toNat_lt
      rw [octets, if_pos (by omega), hbyte (a := a) (by omega), hbyte (a := b) (by omega)]
  | case4 a b c rest ih =>
      have ha := a.toNat_lt
      have hb := b.toNat_lt
      have hc := c.toNat_lt
      rw [octets, ih, Option.map_some, hbyte (a := a) (by omega), hbyte (a := b) (by omega),
        hbyte (a := c) (by omega)]

theorem sextets_length (data : List UInt8) :
    ((sextets data).length + padding data) % 4 = 0 := by
  unfold padding
  fun_induction sextets data with
  | case1 => rfl
  | case2 => simp
  | case3 => simp
  | case4 a b c rest ih =>
      simp only [List.length_cons] at ih ⊢
      omega

theorem mapM_digitValue {groups : List ℕ} (h : ∀ n ∈ groups, n < 64) :
    (groups.map digit).mapM digitValue = some groups := by
  induction groups with
  | nil => rfl
  | cons n groups ih =>
      rw [List.map_cons, List.mapM_cons, digitValue_digit n (h n (by simp)),
        ih fun n hn => h n (List.mem_cons_of_mem _ hn)]
      rfl

theorem base64Decode_base64Encode (data : List UInt8) :
    base64Decode (base64Encode data) = some data := by
  have hpad : padding data ≤ 2 := by
    unfold padding
    omega
  have hdigits : ∀ c ∈ (sextets data).map digit, decide (c ≠ '=') = true := by
    intro c hc
    obtain ⟨n, hn, rfl⟩ := List.mem_map.mp hc
    exact decide_eq_true (digit_ne n (sextets_lt data n hn))
  have htake : (base64Encode data).takeWhile (· ≠ '=') = (sextets data).map digit := by
    rw [base64Encode, List.takeWhile_append_of_pos hdigits]
    cases padding data <;> simp [List.replicate_succ]
  have hdrop : (base64Encode data).dropWhile (· ≠ '=') = List.replicate (padding data) '=' := by
    rw [base64Encode, List.dropWhile_append_of_pos hdigits]
    cases padding data <;> simp [List.replicate_succ]
  have hlength : (base64Encode data).length % 4 = 0 := by
    rw [base64Encode, List.length_append, List.length_map, List.length_replicate]
    exact sextets_length data
  unfold base64Decode
  rw [hdrop, htake, mapM_digitValue (sextets_lt data), if_pos]
  · exact octets_sextets data
  · exact .inr ⟨by simpa using hpad, by simp, hlength⟩

theorem mem_base64Encode {data : List UInt8} {c : Char} (hc : c ∈ base64Encode data) :
    c ∈ alphabet ∨ c = '=' := by
  rcases List.mem_append.mp hc with hc | hc
  · obtain ⟨n, hn, rfl⟩ := List.mem_map.mp hc
    exact .inl (digit_mem n (sextets_lt data n hn))
  · exact .inr (List.eq_of_mem_replicate hc)

end Eunha.Encodings
