import Mathlib
import Eunha.BitStrings
import Eunha.TwoFactor

/-!
# Secrets in base32

A secret is read five bits a character into a register of 32 bits, from which a byte
is taken whenever there are eight. Fewer than eight bits are held between characters,
so nothing is ever shifted out, and what the register holds with the bytes taken is
the string of bits read.

A character is looked up by the last byte of its code. So one past `U+00FF` whose last
byte is that of a letter or a digit of the alphabet is read as that letter or digit.
-/
namespace Eunha.Base32Secrets
open BitStrings Sanitizer TwoFactor

/-! ### The model -/

/-- The state of the loop; `buffer` and `bits` are `u32`. -/
structure Register where
  bytes : List UInt8
  buffer : UInt32
  bits : UInt32

def Register.start : Register := { bytes := [], buffer := 0, bits := 0 }

/-- One turn of the loop. -/
def Register.push (r : Register) (value : ℕ) : Register :=
  let buffer := r.buffer <<< 5 ||| UInt32.ofNat value
  let bits := r.bits + 5
  if 8 ≤ bits then
    let bits := bits - 8
    { bytes := r.bytes ++ [(buffer >>> bits).toUInt8]
      buffer := buffer &&& (1 <<< bits - 1)
      bits := bits }
  else { bytes := r.bytes, buffer := buffer, bits := bits }

/-- Where a character stands in the alphabet, by `c.to_ascii_uppercase() as u8`. -/
def position (c : Char) : Option ℕ := (alphabet.map Char.toNat).idxOf? (upperByte c)

/-- `!c.is_whitespace() && *c != '='` -/
def kept (c : Char) : Bool := ¬isWhitespace c ∧ c ≠ '='

def readChars (chars : List Char) : Option Register :=
  chars.foldlM (fun r c => (position c).map r.push) Register.start

def decodeSecret (secret : String) : Option (List UInt8) :=
  (readChars (secret.toList.filter kept)).map Register.bytes

/-! ### Base32 as RFC 4648 has it -/

/-- The bits in groups of five, zeros added to the last. -/
def groups : List Bool → List (List Bool)
  | a :: b :: c :: d :: e :: rest => [a, b, c, d, e] :: groups rest
  | [] => []
  | short => [short ++ List.replicate (5 - short.length) false]

def byteBits (b : UInt8) : List Bool := bitsOf 8 b.toNat

def character (value : ℕ) : Char := alphabet.getD value 'A'

/-- `BASE32_NOPAD.encode` -/
def encodeNopad (bytes : List UInt8) : List Char :=
  (groups (bytes.flatMap byteBits)).map fun group => character (ofBits group)

def encode (bytes : List UInt8) : List Char :=
  let chars := encodeNopad bytes
  chars ++ List.replicate ((8 - chars.length % 8) % 8) '='

def generateOtpSecret (bytes : List UInt8) : String := String.ofList (encodeNopad bytes)

/-- Letters written small, white space put in, `=` added or dropped. -/
inductive Respelt : List Char → List Char → Prop
  | nil : Respelt [] []
  | keep {s t} (c : Char) : Respelt s t → Respelt (c :: s) (c :: t)
  | lower {s t} (c : Char) : c ∈ alphabet → Respelt s t → Respelt (c :: s) (c.toLower :: t)
  | space {s t} (c : Char) : isWhitespace c → Respelt s t → Respelt s (c :: t)
  | add {s t} : Respelt s t → Respelt s ('=' :: t)
  | drop {s t} : Respelt s t → Respelt ('=' :: s) t

/-- Neither of the alphabet in either case nor passed over. -/
def Foreign (c : Char) : Prop := c.toUpper ∉ alphabet ∧ kept c

/-- Past `U+00FF`, with the last byte of a character of the alphabet. -/
def Disguised (c : Char) : Prop := 256 ≤ c.toNat ∧ c.toNat % 256 ∈ alphabet.map Char.toNat

def Register.HasRoom (r : Register) : Prop :=
  (r.buffer <<< 5).toNat = r.buffer.toNat * 32 ∧ (r.bits + 5).toNat = r.bits.toNat + 5 ∧
    r.bits.toNat + 5 < 32

structure Meets (secret : String) : Prop where
  decodes : ∀ bytes, Respelt (encode bytes) secret.toList → decodeSecret secret = some bytes
  refuses : (∃ c ∈ secret.toList, Foreign c) → decodeSecret secret = none
  room : ∀ taken rest, secret.toList.filter kept = taken ++ rest →
    ∀ r, readChars taken = some r → r.HasRoom

/-! ### The register -/

/-- The bytes taken and the bits held spell what was read. -/
def Register.Holds (r : Register) (seen : List Bool) : Prop :=
  ∃ rest, rest.length = r.bits.toNat ∧ rest.length < 8 ∧ ofBits rest = r.buffer.toNat ∧
    seen = r.bytes.flatMap byteBits ++ rest

theorem start_holds : Register.start.Holds [] := by
  exact ⟨[], rfl, by decide, rfl, rfl⟩

theorem Register.Holds.buffer_lt {r : Register} {seen : List Bool} (h : r.Holds seen) :
    r.bits.toNat < 8 ∧ r.buffer.toNat < 2 ^ r.bits.toNat ∧ r.buffer.toNat < 128 := by
  obtain ⟨rest, hlen, hlt, hbuffer, -⟩ := h
  have hsmall := ofBits_lt rest
  have hpow : 2 ^ rest.length ≤ 2 ^ 7 := Nat.pow_le_pow_right (by omega) (by omega)
  rw [hbuffer] at hsmall
  rw [← hlen]
  exact ⟨hlt, hsmall, by omega⟩

theorem Register.Holds.hasRoom {r : Register} {seen : List Bool} (h : r.Holds seen) :
    r.HasRoom := by
  have hr := h.buffer_lt
  refine ⟨?_, ?_, by omega⟩
  · rw [UInt32.toNat_shiftLeft, Nat.shiftLeft_eq]
    apply Nat.mod_eq_of_lt
    change r.buffer.toNat * 32 < 2 ^ 32
    omega
  · rw [UInt32.toNat_add]
    apply Nat.mod_eq_of_lt
    change r.bits.toNat + 5 < 2 ^ 32
    omega

theorem shifted_toNat {r : Register} {seen : List Bool} (h : r.Holds seen) {value : ℕ}
    (hv : value < 32) :
    (r.buffer <<< 5 ||| UInt32.ofNat value).toNat = r.buffer.toNat * 32 + value := by
  have hvalue : (UInt32.ofNat value).toNat = value := by
    apply Nat.mod_eq_of_lt
    omega
  have hor := Nat.shiftLeft_add_eq_or_of_lt (i := 5) hv r.buffer.toNat
  rw [Nat.shiftLeft_eq] at hor
  rw [UInt32.toNat_or, h.hasRoom.1, hvalue, ← hor]

theorem mask_toNat (buffer bits : UInt32) (h : bits.toNat < 8) :
    (buffer &&& (1 <<< bits - 1)).toNat = buffer.toNat % 2 ^ bits.toNat := by
  have hpow : 2 ^ bits.toNat ≤ 2 ^ 7 := Nat.pow_le_pow_right (by omega) (by omega)
  have hpos : 0 < 2 ^ bits.toNat := Nat.two_pow_pos _
  have hone : (1 <<< bits : UInt32).toNat = 2 ^ bits.toNat := by
    rw [UInt32.toNat_shiftLeft, Nat.mod_eq_of_lt (by omega : bits.toNat < 32), Nat.shiftLeft_eq]
    change 1 * 2 ^ bits.toNat % 2 ^ 32 = 2 ^ bits.toNat
    omega
  have hsub : (1 <<< bits - 1 : UInt32).toNat = 2 ^ bits.toNat - 1 := by
    rw [UInt32.toNat_sub_of_le _ _ (by rw [UInt32.le_iff_toNat_le, hone]; exact hpos), hone]
    rfl
  rw [UInt32.toNat_and, hsub, Nat.and_two_pow_sub_one_eq_mod]

theorem taken_toNat (buffer bits : UInt32) (h : bits.toNat < 8) :
    (buffer >>> bits).toUInt8.toNat = buffer.toNat / 2 ^ bits.toNat % 256 := by
  rw [UInt32.toNat_toUInt8, UInt32.toNat_shiftRight,
    Nat.mod_eq_of_lt (by omega : bits.toNat < 32), Nat.shiftRight_eq_div_pow]

theorem byteBits_of_toNat (byte : UInt8) (l : List Bool) (h : l.length = 8)
    (hb : byte.toNat = ofBits l) : byteBits byte = l := by
  rw [byteBits, hb, ← h]
  exact bitsOf_ofBits l

theorem push_holds {r : Register} {seen : List Bool} (h : r.Holds seen) {value : ℕ}
    (hv : value < 32) : (r.push value).Holds (seen ++ bitsOf 5 value) := by
  have hshift := shifted_toNat h hv
  have hcount := h.hasRoom.2.1
  obtain ⟨rest, hlen, hlt, hbuffer, hseen⟩ := h
  generalize hl : rest ++ bitsOf 5 value = l
  have hall : ofBits l = r.buffer.toNat * 32 + value := by
    rw [← hl, ofBits_append, hbuffer, length_bitsOf, ofBits_bitsOf]
    omega
  have hlong : l.length = r.bits.toNat + 5 := by
    rw [← hl, List.length_append, length_bitsOf, hlen]
  have hread : seen ++ bitsOf 5 value = r.bytes.flatMap byteBits ++ l := by
    rw [hseen, List.append_assoc, hl]
  by_cases hfull : 8 ≤ r.bits + 5
  · -- the first eight of the bits held go out as a byte
    have hbits : (r.bits + 5 - 8).toNat = r.bits.toNat + 5 - 8 := by
      rw [UInt32.toNat_sub_of_le _ _ hfull, hcount]
      rfl
    have hle : 8 ≤ r.bits.toNat + 5 := by
      rw [← hcount]
      exact UInt32.le_iff_toNat_le.mp hfull
    have hw : l.length = 8 + (r.bits.toNat + 5 - 8) := by omega
    have htake : (l.take 8).length = 8 := by
      rw [List.length_take]
      omega
    have hdrop : (l.drop 8).length = r.bits.toNat + 5 - 8 := by
      rw [List.length_drop, hlong]
    have hbyte := ofBits_lt (l.take 8)
    rw [htake] at hbyte
    have hout : byteBits ((r.buffer <<< 5 ||| UInt32.ofNat value) >>>
        (r.bits + 5 - 8)).toUInt8 = l.take 8 := by
      apply byteBits_of_toNat _ _ htake
      rw [taken_toNat _ _ (by omega), hshift, hbits, ← hall, ← ofBits_take l hw]
      exact Nat.mod_eq_of_lt hbyte
    rw [Register.push]
    simp only [hfull, if_true]
    refine ⟨l.drop 8, by rw [hdrop, hbits], by omega, ?_, ?_⟩
    · rw [mask_toNat _ _ (by omega), hshift, hbits, ← hall, ofBits_drop l hw]
    · rw [hread, List.flatMap_append, List.flatMap_singleton, hout, List.append_assoc,
        List.take_append_drop]
  · have hfew : r.bits.toNat + 5 < 8 := by
      rw [← hcount]
      exact Nat.lt_of_not_le fun hle => hfull (UInt32.le_iff_toNat_le.mpr hle)
    rw [Register.push]
    simp only [hfull, if_false]
    exact ⟨l, by rw [hlong, hcount], by omega, by rw [hall, hshift], hread⟩

/-! ### Characters -/

theorem position_eq_none_iff (c : Char) :
    position c = none ↔ upperByte c ∉ alphabet.map Char.toNat := by
  rw [position, List.idxOf?_eq_none_iff]

theorem position_lt {c : Char} {value : ℕ} (h : position c = some value) : value < 32 := by
  rw [position, List.idxOf?, List.findIdx?_eq_some_iff_getElem] at h
  exact h.choose

theorem characters_read : ∀ value < 32,
    position (character value) = some value ∧ character value ∈ alphabet := by
  decide +kernel

theorem position_character (value : ℕ) (h : value < 32) :
    position (character value) = some value :=
  (characters_read value h).1

theorem character_mem (value : ℕ) (h : value < 32) : character value ∈ alphabet :=
  (characters_read value h).2

theorem alphabet_read : ∀ c ∈ alphabet, (kept c = true ∧ kept c.toLower = true ∧
    position c.toLower = position c) ∧ c.toNat < 256 := by
  decide +kernel

theorem alphabet_kept (c : Char) (h : c ∈ alphabet) :
    kept c = true ∧ kept c.toLower = true ∧ position c.toLower = position c :=
  (alphabet_read c h).1

theorem alphabet_code (c : Char) (h : c ∈ alphabet) : c.toNat < 256 := (alphabet_read c h).2

theorem toUpper_toNat (c : Char) : c.toUpper.toNat = c.toNat ∨
    c.toNat < 128 ∧ c.toUpper.toNat < 128 := by
  by_cases h : 'a'.val ≤ c.val ∧ c.val ≤ 'z'.val
  · right
    have hlow : 97 ≤ c.val.toNat := UInt32.le_iff_toNat_le.mp h.1
    have hhigh : c.val.toNat ≤ 122 := UInt32.le_iff_toNat_le.mp h.2
    have hshift : ('A'.val - 'a'.val).toNat = 2 ^ 32 - 32 := by decide
    have hupper : c.toUpper.toNat = (c.val + ('A'.val - 'a'.val)).toNat := by
      rw [Char.toUpper, dif_pos h]
      rfl
    have hcode : c.toNat = c.val.toNat := rfl
    rw [UInt32.toNat_add, hshift] at hupper
    omega
  · left
    rw [Char.toUpper, dif_neg h]

theorem position_of_alphabet (c : Char) (h : c.toUpper ∈ alphabet) : position c ≠ none := by
  have hcode := alphabet_code _ h
  rw [ne_eq, position_eq_none_iff, not_not, upperByte, Nat.mod_eq_of_lt hcode]
  exact List.mem_map_of_mem h

theorem position_of_foreign (c : Char) (h : Foreign c) :
    position c = none ↔ ¬Disguised c := by
  rw [position_eq_none_iff, not_iff_not, Disguised, upperByte]
  obtain hsame | ⟨hlow, hupper⟩ := toUpper_toNat c
  · rw [hsame]
    constructor
    · intro hmem
      refine ⟨?_, hmem⟩
      -- a code of one byte is the character's own
      apply Nat.le_of_not_lt
      intro hlt
      rw [Nat.mod_eq_of_lt hlt, ← hsame] at hmem
      obtain ⟨a, ha, hcode⟩ := List.mem_map.mp hmem
      exact h.1 (Char.toNat_inj.mp hcode ▸ ha)
    · exact And.right
  · constructor
    · intro hmem
      rw [Nat.mod_eq_of_lt (by omega)] at hmem
      obtain ⟨a, ha, hcode⟩ := List.mem_map.mp hmem
      exact absurd (Char.toNat_inj.mp hcode ▸ ha) h.1
    · intro hd
      have := hd.1
      omega

/-! ### Reading -/

def bitsRead (positions : List (Option ℕ)) : List Bool :=
  positions.flatMap fun p => bitsOf 5 (p.getD 0)

theorem readChars_snoc (chars : List Char) (c : Char) :
    readChars (chars ++ [c]) = (readChars chars).bind fun r => (position c).map r.push := by
  rw [readChars, List.foldlM_append]
  cases h : chars.foldlM (fun r c => (position c).map r.push) Register.start with
  | none => simp [readChars, h]
  | some r => simp [readChars, h]

theorem readChars_eq_none_iff (chars : List Char) :
    readChars chars = none ↔ ∃ c ∈ chars, position c = none := by
  induction chars using List.reverseRecOn with
  | nil => simp [readChars]
  | append_singleton chars c ih =>
      rw [readChars_snoc]
      cases h : readChars chars with
      | none => 
          obtain ⟨b, hb, hnone⟩ := ih.mp h
          simp only [Option.bind_none, true_iff]
          exact ⟨b, List.mem_append_left _ hb, hnone⟩
      | some r =>
          have hchars : ¬∃ c ∈ chars, position c = none := by
            rw [← ih, h]
            simp
          simp only [Option.bind_some, Option.map_eq_none_iff, List.mem_append,
            List.mem_singleton, or_and_right, exists_or, exists_eq_left]
          simp only [hchars, false_or]

theorem readChars_holds (chars : List Char) {r : Register} (h : readChars chars = some r) :
    r.Holds (bitsRead (chars.map position)) := by
  induction chars using List.reverseRecOn generalizing r with
  | nil =>
      cases h
      exact start_holds
  | append_singleton chars c ih =>
      rw [readChars_snoc] at h
      obtain ⟨before, hbefore, hpush⟩ := Option.bind_eq_some_iff.mp h
      obtain ⟨value, hvalue, hr⟩ := Option.map_eq_some_iff.mp hpush
      have hnext := push_holds (ih hbefore) (position_lt hvalue)
      rw [bitsRead, List.map_append, List.flatMap_append]
      simp only [List.map_cons, List.map_nil, List.flatMap_singleton, hvalue, Option.getD_some]
      rw [← hr]
      exact hnext

theorem Respelt.positions {s t : List Char} (h : Respelt s t) :
    (t.filter kept).map position = (s.filter kept).map position := by
  induction h with
  | nil => rfl
  | keep c h ih =>
      rw [List.filter_cons, List.filter_cons]
      split
      · rw [List.map_cons, List.map_cons, ih]
      · exact ih
  | lower c hc h ih =>
      obtain ⟨hkept, hlower, hsame⟩ := alphabet_kept c hc
      rw [List.filter_cons_of_pos hkept, List.filter_cons_of_pos hlower, List.map_cons,
        List.map_cons, hsame, ih]
  | space c hc h ih =>
      rw [List.filter_cons_of_neg (by simp [kept, hc])]
      exact ih
  | add h ih =>
      rw [List.filter_cons_of_neg (by simp [kept])]
      exact ih
  | drop h ih =>
      rw [List.filter_cons_of_neg (by simp [kept])]
      exact ih

/-! ### The encoding read back -/

theorem length_lt_five (l : List Bool)
    (h : ∀ a b c d e rest, l = a :: b :: c :: d :: e :: rest → False) : l.length < 5 := by
  rcases l with _ | ⟨a, _ | ⟨b, _ | ⟨c, _ | ⟨d, _ | ⟨e, rest⟩⟩⟩⟩⟩
  · simp
  · simp
  · simp
  · simp
  · simp
  · exact (h a b c d e rest rfl).elim

theorem groups_length (l : List Bool) : ∀ g ∈ groups l, g.length = 5 := by
  fun_induction groups l with
  | case1 a b c d e rest ih =>
      intro g hg
      rcases List.mem_cons.mp hg with rfl | hg
      · rfl
      · exact ih g hg
  | case2 => simp
  | case3 short hlong hnil =>
      intro g hg
      have hlt := length_lt_five short hlong
      rw [List.mem_singleton.mp hg, List.length_append, List.length_replicate]
      omega

theorem groups_flatten (l : List Bool) :
    ∃ n < 5, (groups l).flatten = l ++ List.replicate n false := by
  fun_induction groups l with
  | case1 a b c d e rest ih =>
      obtain ⟨n, hn, hrest⟩ := ih
      exact ⟨n, hn, by rw [List.flatten_cons, hrest]; rfl⟩
  | case2 => exact ⟨0, by omega, rfl⟩
  | case3 short hlong hnil =>
      have hpos : 0 < short.length := List.length_pos_iff.mpr hnil
      exact ⟨5 - short.length, by omega, by simp⟩

theorem bitsRead_groups (gs : List (List Bool)) (h : ∀ g ∈ gs, g.length = 5) :
    bitsRead ((gs.map fun g => character (ofBits g)).map position) = gs.flatten := by
  induction gs with
  | nil => rfl
  | cons g gs ih =>
      have hg := h g List.mem_cons_self
      have hsmall := ofBits_lt g
      rw [hg] at hsmall
      have hback := bitsOf_ofBits g
      rw [hg] at hback
      have hrest := ih fun b hb => h b (List.mem_cons_of_mem g hb)
      rw [bitsRead] at hrest ⊢
      rw [List.map_cons, List.map_cons, List.flatMap_cons, hrest, position_character _ hsmall,
        Option.getD_some, hback, List.flatten_cons]

theorem encodeNopad_mem (bytes : List UInt8) : ∀ c ∈ encodeNopad bytes, c ∈ alphabet := by
  intro c hc
  obtain ⟨g, hg, rfl⟩ := List.mem_map.mp hc
  have hsmall := ofBits_lt g
  rw [groups_length _ g hg] at hsmall
  exact character_mem _ hsmall

theorem encode_kept (bytes : List UInt8) : (encode bytes).filter kept = encodeNopad bytes := by
  rw [encode, List.filter_append, List.filter_eq_self.mpr, List.filter_eq_nil_iff.mpr,
    List.append_nil]
  · intro c hc
    rw [List.eq_of_mem_replicate hc]
    decide
  · intro c hc
    exact (alphabet_kept c (encodeNopad_mem bytes c hc)).1

theorem byteBits_injective : Function.Injective byteBits := by
  intro a b h
  have hnum := congrArg ofBits h
  rw [byteBits, byteBits, ofBits_bitsOf, ofBits_bitsOf, Nat.mod_eq_of_lt a.toNat_lt,
    Nat.mod_eq_of_lt b.toNat_lt] at hnum
  exact UInt8.toNat_inj.mp hnum

theorem readChars_encoding (bytes : List UInt8) (chars : List Char)
    (h : chars.map position = (encodeNopad bytes).map position) :
    (readChars chars).map Register.bytes = some bytes := by
  have hall : ¬∃ c ∈ chars, position c = none := by
    rintro ⟨c, hc, hnone⟩
    have hmem := List.mem_map_of_mem (f := position) hc
    rw [h] at hmem
    obtain ⟨b, hb, hposition⟩ := List.mem_map.mp hmem
    obtain ⟨g, hg, rfl⟩ := List.mem_map.mp hb
    have hsmall := ofBits_lt g
    rw [groups_length _ g hg] at hsmall
    rw [position_character _ hsmall, hnone] at hposition
    cases hposition
  cases hread : readChars chars with
  | none => exact absurd ((readChars_eq_none_iff chars).mp hread) hall
  | some r =>
      obtain ⟨rest, -, hlt, -, hseen⟩ := readChars_holds chars hread
      obtain ⟨n, hn, hflat⟩ := groups_flatten (bytes.flatMap byteBits)
      rw [h, encodeNopad, bitsRead_groups _ (groups_length _), hflat] at hseen
      have hsame := words_inj byteBits 8 (fun b => length_bitsOf 8 b.toNat) byteBits_injective
        (by rw [List.length_replicate]; omega) hlt hseen
      rw [Option.map_some, hsame.1]

theorem decodeSecret_respelt (secret : String) (bytes : List UInt8)
    (h : Respelt (encode bytes) secret.toList) : decodeSecret secret = some bytes := by
  rw [decodeSecret]
  apply readChars_encoding
  rw [h.positions, encode_kept]

/-! ### What is refused -/

theorem decodeSecret_eq_none_iff (secret : String) :
    decodeSecret secret = none ↔ ∃ c ∈ secret.toList, Foreign c ∧ ¬Disguised c := by
  rw [decodeSecret, Option.map_eq_none_iff, readChars_eq_none_iff]
  constructor
  · rintro ⟨c, hc, hnone⟩
    obtain ⟨hmem, hkept⟩ := List.mem_filter.mp hc
    have hforeign : Foreign c := ⟨fun h => position_of_alphabet c h hnone, hkept⟩
    exact ⟨c, hmem, hforeign, (position_of_foreign c hforeign).mp hnone⟩
  · rintro ⟨c, hmem, hforeign, hplain⟩
    exact ⟨c, List.mem_filter.mpr ⟨hmem, hforeign.2⟩, (position_of_foreign c hforeign).mpr hplain⟩

/-- A secret is read as asked unless all that is foreign in it is disguised. -/
theorem meets_iff (secret : String) : Meets secret ↔
    ((∃ c ∈ secret.toList, Foreign c) → ∃ c ∈ secret.toList, Foreign c ∧ ¬Disguised c) := by
  constructor
  · intro h hforeign
    exact (decodeSecret_eq_none_iff secret).mp (h.refuses hforeign)
  · intro h
    constructor
    · exact decodeSecret_respelt secret
    · intro hforeign
      exact (decodeSecret_eq_none_iff secret).mpr (h hforeign)
    · intro taken rest _ r hr
      exact (readChars_holds taken hr).hasRoom

example : decodeSecret "ME" = some [0x61] := by decide +kernel

/-- `Ł` is `U+0141`, and `0x41` is `A`. -/
theorem disguised_read :
    decodeSecret "MŁ" = some [0x60] ∧ ¬Meets "MŁ" := by
  have hread : decodeSecret "MŁ" = some [0x60] := by decide +kernel
  refine ⟨hread, fun h => ?_⟩
  have hnone := h.refuses ⟨'Ł', by decide +kernel, by decide +kernel, by decide +kernel⟩
  rw [hread] at hnone
  cases hnone

/-! ### The register as a number -/

def Register.numbers (r : Register) : List UInt8 × ℕ × ℕ :=
  (r.bytes, r.buffer.toNat, r.bits.toNat)

end Eunha.Base32Secrets
