import Mathlib.Data.Nat.Digits.Defs

/-!
# Just enough DER

A value is read off the front of the bytes it stands in, keeps its contents and its
whole encoding, and is refused with the reason the reader gives.
-/
namespace Eunha.Der

abbrev Result (α : Type*) := Except String α

def invalid {α : Type*} (why : String) : Result α := .error why

def classUniversal : ℕ := 0
def classContext : ℕ := 2

def boolean : ℕ := 1
def integer : ℕ := 2
def bitString : ℕ := 3
def octetString : ℕ := 4
def sequenceTag : ℕ := 16

structure Tlv where
  tagClass : ℕ
  constructed : Bool
  tag : ℕ
  value : List UInt8
  raw : List UInt8
deriving DecidableEq

/-! ### Reading one value -/

def next : List UInt8 → Result (UInt8 × List UInt8)
  | [] => invalid "DER ends early"
  | byte :: rest => .ok (byte, rest)

def highTag (tag : ℕ) : List UInt8 → Result (ℕ × List UInt8)
  | [] => invalid "DER ends early"
  | byte :: rest =>
      if tag > (2 ^ 32 - 1) / 128 then invalid "DER tag is too large"
      else
        let tag := tag * 128 + byte.toNat % 128
        if byte.toNat < 128 then .ok (tag, rest) else highTag tag rest

/-- The number the next `count` bytes make, the highest first. -/
def bigEndian (number : ℕ) : ℕ → List UInt8 → Result (ℕ × List UInt8)
  | 0, rest => .ok (number, rest)
  | _ + 1, [] => invalid "DER ends early"
  | count + 1, byte :: rest => bigEndian (number * 256 + byte.toNat) count rest

def readTag (first : UInt8) (rest : List UInt8) : Result (ℕ × List UInt8) :=
  if first.toNat % 32 = 31 then highTag 0 rest else .ok (first.toNat % 32, rest)

def readLength (bytes : List UInt8) : Result (ℕ × List UInt8) := do
  let (byte, rest) ← next bytes
  if byte.toNat < 128 then .ok (byte.toNat, rest)
  else if byte.toNat % 128 = 0 ∨ byte.toNat % 128 > 4 then invalid "unsupported DER length"
  else bigEndian 0 (byte.toNat % 128) rest

/-- One value off the front of the input, and the input after it. -/
def read (bytes : List UInt8) : Result (Tlv × List UInt8) := do
  let (first, rest) ← next bytes
  let (tag, rest) ← readTag first rest
  let (length, rest) ← readLength rest
  if rest.length < length then invalid "DER length overruns the data"
  else
    .ok ({ tagClass := first.toNat / 64
           constructed := first.toNat / 32 % 2 = 1
           tag := tag
           value := rest.take length
           raw := bytes.take (bytes.length - (rest.length - length)) }, rest.drop length)

theorem highTag_shorter {tag tag' : ℕ} {bytes rest : List UInt8}
    (h : highTag tag bytes = .ok (tag', rest)) : rest.length < bytes.length := by
  induction bytes generalizing tag with
  | nil => exact nomatch h
  | cons byte bytes ih =>
      simp only [highTag] at h
      split at h
      · exact nomatch h
      · split at h
        · obtain ⟨rfl, rfl⟩ := Prod.mk.inj (Except.ok.inj h)
          exact Nat.lt_succ_self _
        · exact (ih h).trans (Nat.lt_succ_self _)

theorem bigEndian_shorter {number number' count : ℕ} {bytes rest : List UInt8}
    (h : bigEndian number count bytes = .ok (number', rest)) : rest.length ≤ bytes.length := by
  induction bytes generalizing number count with
  | nil =>
      cases count with
      | zero =>
          obtain ⟨rfl, rfl⟩ := Prod.mk.inj (Except.ok.inj h)
          exact le_rfl
      | succ count => exact nomatch h
  | cons byte bytes ih =>
      cases count with
      | zero =>
          obtain ⟨rfl, rfl⟩ := Prod.mk.inj (Except.ok.inj h)
          exact le_rfl
      | succ count => exact (ih h).trans (Nat.le_succ _)

theorem readTag_shorter {first : UInt8} {bytes rest : List UInt8} {tag : ℕ}
    (h : readTag first bytes = .ok (tag, rest)) : rest.length ≤ bytes.length := by
  unfold readTag at h
  split at h
  · exact (highTag_shorter h).le
  · obtain ⟨rfl, rfl⟩ := Prod.mk.inj (Except.ok.inj h)
    exact le_rfl

theorem readLength_shorter {bytes rest : List UInt8} {length : ℕ}
    (h : readLength bytes = .ok (length, rest)) : rest.length < bytes.length := by
  cases bytes with
  | nil => exact nomatch h
  | cons byte bytes =>
      change (if _ then _ else _) = _ at h
      split at h
      · obtain ⟨rfl, rfl⟩ := Prod.mk.inj (Except.ok.inj h)
        exact Nat.lt_succ_self _
      · split at h
        · exact nomatch h
        · exact Nat.lt_succ_of_le (bigEndian_shorter h)

theorem read_shorter {bytes rest : List UInt8} {tlv : Tlv} (h : read bytes = .ok (tlv, rest)) :
    rest.length < bytes.length := by
  cases bytes with
  | nil => exact nomatch h
  | cons first bytes =>
      change (readTag first bytes >>= _) = _ at h
      cases htag : readTag first bytes with
      | error why => rw [htag] at h; exact nomatch h
      | ok read =>
          obtain ⟨tag, afterTag⟩ := read
          rw [htag] at h
          change (readLength afterTag >>= _) = _ at h
          cases hlength : readLength afterTag with
          | error why => rw [hlength] at h; exact nomatch h
          | ok read =>
              obtain ⟨length, afterLength⟩ := read
              rw [hlength] at h
              change (if _ then _ else _) = _ at h
              split at h
              · exact nomatch h
              · obtain ⟨rfl, rfl⟩ := Prod.mk.inj (Except.ok.inj h)
                have htag := readTag_shorter htag
                have hlength := readLength_shorter hlength
                rw [List.length_drop, List.length_cons]
                omega

/-- Every value there is, in order. -/
def readAll (bytes : List UInt8) : Result (List Tlv) :=
  if bytes.isEmpty then .ok []
  else
    match _h : read bytes with
    | .error why => .error why
    | .ok (tlv, rest) => (tlv :: ·) <$> readAll rest
termination_by bytes.length
decreasing_by exact read_shorter _h

/-! ### What a value is read as -/

namespace Tlv

def parse (bytes : List UInt8) : Result Tlv := do
  let (tlv, rest) ← read bytes
  if rest.isEmpty then .ok tlv else invalid "DER has trailing bytes"

def is (tlv : Tlv) (tagClass tag : ℕ) : Bool := tlv.tagClass = tagClass ∧ tlv.tag = tag

def isUniversal (tlv : Tlv) (tag : ℕ) : Bool := tlv.is classUniversal tag

def children (tlv : Tlv) : Result (List Tlv) :=
  if !tlv.constructed then invalid "DER value is not constructed" else readAll tlv.value

def sequence (tlv : Tlv) : Result (List Tlv) :=
  if !tlv.isUniversal sequenceTag then invalid "DER value is not a SEQUENCE" else tlv.children

def octets (tlv : Tlv) : Result (List UInt8) :=
  if !tlv.isUniversal octetString || tlv.constructed then
    invalid "DER value is not an OCTET STRING"
  else .ok tlv.value

def boolean (tlv : Tlv) : Result Bool :=
  if !tlv.isUniversal Der.boolean || tlv.value.length != 1 then
    invalid "DER value is not a BOOLEAN"
  else .ok (tlv.value.head? != some 0)

/-- A non-negative INTEGER small enough for 64 bits. -/
def smallUint (tlv : Tlv) : Result ℕ :=
  if !tlv.isUniversal integer && !tlv.isUniversal 10 then
    invalid "DER value is not an INTEGER"
  else
    match tlv.value with
    | [] => invalid "INTEGER is negative or empty"
    | first :: rest =>
        if 128 ≤ first.toNat then invalid "INTEGER is negative or empty"
        else
          let bytes := if first = 0 ∧ rest ≠ [] then rest else first :: rest
          if 8 < bytes.length then invalid "INTEGER is too large"
          else .ok (bytes.foldl (fun number byte => number * 256 + byte.toNat) 0)

end Tlv

/-! ### Object identifiers -/

/-- One arc in base 128, the high bit set on all but the last digit. -/
def arc (n : ℕ) : List UInt8 :=
  match Nat.digits 128 n with
  | [] => [0]
  | low :: high => high.reverse.map (fun digit => UInt8.ofNat (128 + digit)) ++ [UInt8.ofNat low]

def oid : List ℕ → List UInt8
  | first :: second :: arcs => arc (first * 40 + second) ++ arcs.flatMap arc
  | _ => []

end Eunha.Der
