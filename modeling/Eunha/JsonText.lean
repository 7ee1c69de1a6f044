import Mathlib.Data.List.Basic
import Mathlib.Data.List.Infix
import Eunha.Encodings

/-!
# JSON texts and the values they denote

The part of JSON made of strings and of objects of these, written with no spaces:
which value a text denotes, and a reader that reads each such text as that value.
A character of a string may be written as it is or escaped, so many texts denote
one value.
-/
namespace Eunha.JsonText

open Encodings

inductive Value (N : Type) where
  | null
  | bool (b : Bool)
  | number (n : N)
  | string (s : List Char)
  | array (values : List (Value N))
  | object (members : List (List Char × Value N))

variable {N : Type}

def Value.get (key : List Char) : Value N → Option (Value N)
  | .object members => members.lookup key
  | _ => none

def Value.asStr : Value N → Option (List Char)
  | .string s => some s
  | _ => none

/-! ### The grammar -/

def shortEscapes : List (Char × Char) :=
  [('"', '"'), ('\\', '\\'), ('/', '/'), ('b', '\x08'), ('f', '\x0c'), ('n', '\n'), ('r', '\r'),
    ('t', '\t')]

def hexNumber : List Char → Option ℕ
  | [a, b, c, d] => do
      let a ← hexValue a
      let b ← hexValue b
      let c ← hexValue c
      let d ← hexValue d
      pure (((a * 16 + b) * 16 + c) * 16 + d)
  | _ => none

/-- What stands between the quotes of a string, and the string. -/
inductive Body : List Char → List Char → Prop
  | nil : Body [] []
  | plain {t s : List Char} (c : Char) :
      0x20 ≤ c.toNat → c ≠ '"' → c ≠ '\\' → Body t s → Body (c :: t) (c :: s)
  | short {t s : List Char} (e c : Char) :
      (e, c) ∈ shortEscapes → Body t s → Body ('\\' :: e :: t) (c :: s)
  | hex {t s : List Char} (digits : List Char) (c : Char) :
      hexNumber digits = some c.toNat → Body t s → Body ('\\' :: 'u' :: (digits ++ t)) (c :: s)

structure Member (N : Type) where
  keyText : List Char
  key : List Char
  valueText : List Char
  value : Value N

def Member.text (m : Member N) : List Char := '"' :: (m.keyText ++ '"' :: ':' :: m.valueText)

def membersText (members : List (Member N)) : List Char :=
  [','].intercalate (members.map Member.text) ++ ['}']

inductive Denotes : ℕ → List Char → Value N → Prop
  | string {t s : List Char} (depth : ℕ) :
      Body t s → Denotes depth ('"' :: (t ++ ['"'])) (.string s)
  | object (depth : ℕ) (members : List (Member N)) :
      members ≠ [] → (members.map Member.key).Nodup →
      (∀ m ∈ members, Body m.keyText m.key) →
      (∀ m ∈ members, Denotes depth m.valueText m.value) →
      Denotes (depth + 1) ('{' :: membersText members)
        (.object (members.map fun m => (m.key, m.value)))

theorem Denotes.ne_nil {depth : ℕ} {t : List Char} {value : Value N} (h : Denotes depth t value) :
    t ≠ [] := by
  cases h with
  | string => exact List.cons_ne_nil _ _
  | object => exact List.cons_ne_nil _ _

theorem Denotes.mono {depth depth' : ℕ} {t : List Char} {value : Value N}
    (h : Denotes depth t value) (hdepth : depth ≤ depth') : Denotes depth' t value := by
  induction h generalizing depth' with
  | string depth hbody => exact .string depth' hbody
  | object depth members hne hnodup hkeys _ ih =>
      obtain ⟨depth', rfl⟩ := Nat.exists_eq_add_of_le' (Nat.le_trans (Nat.succ_pos _) hdepth)
      exact .object depth' members hne hnodup hkeys fun m hm =>
        ih m hm (Nat.le_of_succ_le_succ hdepth)

theorem membersText_cons (m other : Member N) (members : List (Member N)) :
    membersText (m :: other :: members) = m.text ++ ',' :: membersText (other :: members) := by
  simp [membersText]

theorem membersText_length (members : List (Member N)) :
    members.length ≤ (membersText members).length := by
  induction members with
  | nil => exact Nat.zero_le _
  | cons m members ih =>
      cases members with
      | nil => simp [membersText]
      | cons other members =>
          rw [membersText_cons, List.length_append, List.length_cons, List.length_cons]
          exact (Nat.succ_le_succ ih).trans (Nat.le_add_left _ _)

theorem body_plain {text : List Char}
    (h : ∀ c ∈ text, 0x20 ≤ c.toNat ∧ c ≠ '"' ∧ c ≠ '\\') : Body text text := by
  induction text with
  | nil => exact .nil
  | cons c text ih =>
      obtain ⟨hc, hquote, hslash⟩ := h c (by simp)
      exact .plain c hc hquote hslash (ih fun d hd => h d (List.mem_cons_of_mem _ hd))

theorem hexValue_of_hexNumber {digits : List Char} {n : ℕ} (h : hexNumber digits = some n) :
    ∀ d ∈ digits, hexValue d ≠ none := by
  unfold hexNumber at h
  split at h
  · simp only [Option.bind_eq_bind, Option.bind_eq_some_iff] at h
    obtain ⟨_, ha, _, hb, _, hc, _, hd, -⟩ := h
    simp [ha, hb, hc, hd]
  · cases h

theorem Body.escape {special : Char → Bool} {digits : Char → List Char}
    (hspecial : ∀ c, special c = true → hexNumber (digits c) = some c.toNat ∧
      c ∉ shortEscapes.map Prod.fst ∧ c ≠ 'u' ∧ hexValue c = none)
    {t s : List Char} (h : Body t s) :
    Body (t.flatMap fun c => if special c then '\\' :: 'u' :: digits c else [c]) s := by
  have hkept : ∀ c, c ∈ shortEscapes.map Prod.fst ∨ c = 'u' ∨ hexValue c ≠ none →
      special c = false := by
    intro c hc
    by_contra hspec
    obtain ⟨-, hletter, hu, hhex⟩ := hspecial c (by simpa using hspec)
    exact hc.elim hletter fun hc => hc.elim hu fun hc => hc hhex
  have hslash : special '\\' = false := hkept _ (.inl (by decide))
  induction h with
  | nil => exact .nil
  | plain c hc hquote hback _ ih =>
      by_cases hspec : special c = true
      · simpa [hspec] using Body.hex (digits c) c (hspecial c hspec).1 ih
      · simpa [hspec] using Body.plain c hc hquote hback ih
  | short e c he _ ih =>
      have he' := hkept e (.inl (List.mem_map_of_mem he))
      simpa [hslash, he'] using Body.short e c he ih
  | @hex t s number c hnumber _ ih =>
      have hu := hkept 'u' (.inr (.inl rfl))
      have hplain : number.flatMap (fun c => if special c then '\\' :: 'u' :: digits c else [c]) =
          number := by
        have hdigits := hexValue_of_hexNumber hnumber
        clear hnumber
        induction number with
        | nil => rfl
        | cons d number ih =>
            rw [List.flatMap_cons, hkept d (.inr (.inr (hdigits d (by simp)))),
              ih fun d hd => hdigits d (List.mem_cons_of_mem _ hd)]
            rfl
      have := Body.hex number c hnumber ih
      rw [← hplain] at this
      simpa [hslash, hu] using this

/-! ### The writer -/

def escapeLetter (c : Char) : Option Char :=
  (shortEscapes.find? fun p => p.2 = c && p.1 ≠ '/').map Prod.fst

def writeChar (c : Char) : List Char :=
  match escapeLetter c with
  | some e => ['\\', e]
  | none =>
      if c.toNat < 0x20 then
        ['\\', 'u', '0', '0', Nat.digitChar (c.toNat / 16), Nat.digitChar (c.toNat % 16)]
      else [c]

def writeString (s : List Char) : List Char := '"' :: (s.flatMap writeChar ++ ['"'])

theorem body_writeChar (s : List Char) : Body (s.flatMap writeChar) s := by
  induction s with
  | nil => exact .nil
  | cons c s ih =>
      rw [List.flatMap_cons]
      unfold writeChar
      split
      · next e he =>
          obtain ⟨⟨e', c'⟩, hfind, rfl⟩ := Option.map_eq_some_iff.mp he
          have hc : c' = c := by
            have := List.find?_some hfind
            simp only [Bool.and_eq_true, decide_eq_true_eq] at this
            exact this.1
          exact .short e' c (hc ▸ List.mem_of_find?_eq_some hfind) ih
      · next he =>
          have hplain : ∀ p ∈ shortEscapes, p.1 ≠ '/' → p.2 ≠ c := by
            intro p hp hslash hc
            have := List.find?_eq_none.mp (Option.map_eq_none_iff.mp he) p hp
            simp [hc, hslash] at this
          split_ifs with hcontrol
          · have hdigits : ∀ n < 0x20, hexNumber ['0', '0', Nat.digitChar (n / 16),
                Nat.digitChar (n % 16)] = some n := by decide
            exact .hex ['0', '0', _, _] c (hdigits _ hcontrol) ih
          · exact .plain c (Nat.not_lt.mp hcontrol) (hplain ('"', '"') (by decide) (by decide)).symm
              (hplain ('\\', '\\') (by decide) (by decide)).symm ih

theorem denotes_writeString (depth : ℕ) (s : List Char) :
    Denotes depth (writeString s) (Value.string s : Value N) :=
  .string depth (body_writeChar s)

/-! ### The reader -/

/-- The string up to the closing quote, and what follows the quote. -/
def readBody : List Char → Option (List Char × List Char)
  | [] => none
  | '"' :: t => some ([], t)
  | '\\' :: 'u' :: a :: b :: c :: d :: t => do
      let n ← hexNumber [a, b, c, d]
      if n.isValidChar then (readBody t).map fun (s, t) => (Char.ofNat n :: s, t) else none
  | '\\' :: e :: t => do
      let c ← shortEscapes.lookup e
      (readBody t).map fun (s, t) => (c :: s, t)
  | c :: t =>
      if 0x20 ≤ c.toNat ∧ c ≠ '\\' then (readBody t).map fun (s, t) => (c :: s, t) else none

/-- The members up to the closing brace, and what follows the brace. -/
def readMembers (read : List Char → Option (Value N × List Char)) :
    ℕ → List Char → Option (List (List Char × Value N) × List Char)
  | 0, _ => none
  | fuel + 1, '"' :: t =>
      match readBody t with
      | some (key, ':' :: t) =>
          match read t with
          | some (value, '}' :: t) => some ([(key, value)], t)
          | some (value, ',' :: t) =>
              (readMembers read fuel t).map fun (members, t) => ((key, value) :: members, t)
          | _ => none
      | _ => none
  | _, _ => none

def readValue : ℕ → List Char → Option (Value N × List Char)
  | _, '"' :: t => (readBody t).map fun (s, t) => (.string s, t)
  | depth + 1, '{' :: t =>
      (readMembers (readValue depth) t.length t).map fun (members, t) => (.object members, t)
  | _, _ => none

def parse (depth : ℕ) (text : List Char) : Option (Value N) :=
  match readValue depth text with
  | some (value, []) => some value
  | _ => none

theorem readBody_body {t s : List Char} (h : Body t s) (rest : List Char) :
    readBody (t ++ '"' :: rest) = some (s, rest) := by
  induction h with
  | nil => rfl
  | plain c hc hquote hslash _ ih =>
      rw [List.cons_append, readBody, ih]
      · simp [hc, hslash]
      · simpa using hquote
      · rintro a b c' d t rfl
        exact fun _ => hslash rfl
      · rintro e t rfl
        exact fun _ => hslash rfl
  | short e c he _ ih =>
      simp only [shortEscapes, List.mem_cons, Prod.mk.injEq, List.not_mem_nil, or_false] at he
      rcases he with ⟨rfl, rfl⟩ | ⟨rfl, rfl⟩ | ⟨rfl, rfl⟩ | ⟨rfl, rfl⟩ | ⟨rfl, rfl⟩ | ⟨rfl, rfl⟩ |
        ⟨rfl, rfl⟩ | ⟨rfl, rfl⟩ <;>
      simp [readBody, shortEscapes, List.lookup_cons, ih]
  | hex digits c hdigits _ ih =>
      obtain ⟨a, b, d, e, rfl⟩ : ∃ a b d e, digits = [a, b, d, e] := by
        unfold hexNumber at hdigits
        split at hdigits
        · exact ⟨_, _, _, _, rfl⟩
        · cases hdigits
      have hvalid : c.toNat.isValidChar := c.valid
      simp [readBody, hdigits, hvalid, ih]

theorem readMembers_membersText {depth : ℕ} {members : List (Member N)} (hne : members ≠ [])
    (hkeys : ∀ m ∈ members, Body m.keyText m.key)
    (hvalues : ∀ m ∈ members, ∀ rest,
      readValue depth (m.valueText ++ rest) = some (m.value, rest))
    {fuel : ℕ} (hfuel : members.length ≤ fuel) (rest : List Char) :
    readMembers (readValue depth) fuel (membersText members ++ rest) =
      some (members.map fun m => (m.key, m.value), rest) := by
  induction members generalizing fuel with
  | nil => exact (hne rfl).elim
  | cons m members ih =>
      obtain ⟨fuel, rfl⟩ := Nat.exists_eq_add_of_le' (Nat.le_trans (Nat.succ_pos _) hfuel)
      have hkey := fun rest => readBody_body (hkeys m (by simp)) rest
      have hvalue := hvalues m (by simp)
      cases members with
      | nil => simp [membersText, Member.text, readMembers, hkey, hvalue]
      | cons other members =>
          have ih := ih (List.cons_ne_nil other members)
            (fun n hn => hkeys n (List.mem_cons_of_mem _ hn))
            (fun n hn => hvalues n (List.mem_cons_of_mem _ hn)) (Nat.le_of_succ_le_succ hfuel)
          rw [membersText_cons]
          simp [Member.text, readMembers, hkey, hvalue, ih]

theorem readValue_denotes {depth : ℕ} {t : List Char} {value : Value N} (h : Denotes depth t value)
    (rest : List Char) : readValue depth (t ++ rest) = some (value, rest) := by
  induction h generalizing rest with
  | string depth hbody =>
      rw [List.cons_append, List.append_assoc, readValue]
      rw [List.singleton_append, readBody_body hbody rest]
      rfl
  | object depth members hne _ hkeys _ ih =>
      have hfuel : members.length ≤ (membersText members ++ rest).length := by
        rw [List.length_append]
        exact (membersText_length members).trans (Nat.le_add_right _ _)
      rw [List.cons_append, readValue,
        readMembers_membersText hne hkeys (fun m hm rest => ih m hm rest) hfuel]
      rfl

theorem parse_denotes {depth : ℕ} {t : List Char} {value : Value N} (h : Denotes depth t value) :
    parse depth t = some value := by
  have := readValue_denotes h []
  rw [List.append_nil] at this
  rw [parse, this]

end Eunha.JsonText
