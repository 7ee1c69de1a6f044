import Eunha.Sanitizer

/-!
# Post search queries

The hand-written parser of Mastodon's post search syntax: where each part ends that starts at
a position of the query, and the loop that reads clause after clause.
-/
namespace Eunha.SearchQuery
open Sanitizer (isWhitespace)

abbrev Text := List Char

inductive Body where
  | term (term : Text)
  /-- The words of a quoted phrase, without the quotes. -/
  | phrase (words : List Text)
  /-- `:name:`, an emoji shortcode. -/
  | shortcode
  deriving DecidableEq

inductive Parsed where
  | clause (operator : Option Char) (field : Option Text) (body : Body)
  /-- A stray `"`. -/
  | junk
  deriving DecidableEq

inductive QueryError where
  | parseFailed
  | invalidDate
  | unsupported (message : String)
  deriving DecidableEq

/-! ### Parser -/

def scanFrom (p : Char → Bool) : Text → ℕ → ℕ
  | [], stop => stop
  | c :: rest, stop => if p c then scanFrom p rest (stop + 1) else stop

def scan (p : Char → Bool) (input : Text) (i : ℕ) : ℕ := scanFrom p (input.drop i) i

def slice (input : Text) (start stop : ℕ) : Text := (input.drop start).take (stop - start)

def isTermChar (c : Char) : Bool := !(c = '"' || c = ':') && !isWhitespace c

def isWordChar (c : Char) : Bool := c ≠ '"' && !isWhitespace c

/-- `term`: `[^\s":]+`. -/
def termAt (input : Text) (i : ℕ) : Option (Text × ℕ) :=
  let stop := scan isTermChar input i
  if i < stop then some (slice input i stop, stop) else none

def charAt (input : Text) (i : ℕ) (c : Char) : Option ℕ :=
  if input[i]? = some c then some (i + 1) else none

/-- `space`: `\s+`. -/
def spaceAt (input : Text) (i : ℕ) : Option ℕ :=
  let stop := scan isWhitespace input i
  if i < stop then some stop else none

/-- `prefix`: `term >> colon`. -/
def prefixAt (input : Text) (i : ℕ) : Option (Text × ℕ) := do
  let (term, stop) ← termAt input i
  let stop ← charAt input stop ':'
  pure (term, stop)

/-- `shortcode`: `colon >> term >> colon.maybe`. -/
def shortcodeAt (input : Text) (i : ℕ) : Option (Text × ℕ) := do
  let i ← charAt input i ':'
  let (term, stop) ← termAt input i
  pure (term, (charAt input stop ':').getD stop)

/-! ### Where a scan ends -/

theorem scanFrom_eq (p : Char → Bool) (text : Text) (i : ℕ) :
    scanFrom p text i = i + (text.takeWhile p).length := by
  induction text generalizing i with
  | nil => rfl
  | cons c text ih =>
      cases hc : p c with
      | true =>
          rw [scanFrom, if_pos hc, ih, List.takeWhile_cons_of_pos hc, List.length_cons]
          omega
      | false =>
          rw [scanFrom, if_neg (by simp [hc]), List.takeWhile_cons_of_neg (by simp [hc])]
          rfl

theorem scan_eq (p : Char → Bool) (input : Text) (i : ℕ) :
    scan p input i = i + ((input.drop i).takeWhile p).length :=
  scanFrom_eq p _ i

theorem le_scan (p : Char → Bool) (input : Text) (i : ℕ) : i ≤ scan p input i := by
  rw [scan_eq]
  omega

theorem scan_le {p : Char → Bool} {input : Text} {i : ℕ} (h : i ≤ input.length) :
    scan p input i ≤ input.length := by
  have hlen := (List.takeWhile_sublist p (l := input.drop i)).length_le
  rw [List.length_drop] at hlen
  rw [scan_eq]
  omega

theorem lt_length_of_scan {p : Char → Bool} {input : Text} {i : ℕ} (h : i < scan p input i) :
    i < input.length := by
  by_contra hi
  rw [scan_eq, List.drop_eq_nil_of_le (by omega)] at h
  exact Nat.lt_irrefl _ h

def skipSpace (input : Text) (i : ℕ) : ℕ := (spaceAt input i).getD i

theorem skipSpace_eq (input : Text) (i : ℕ) : skipSpace input i = scan isWhitespace input i := by
  have h := le_scan isWhitespace input i
  unfold skipSpace spaceAt
  dsimp only
  split
  next => rfl
  next hstop =>
    rw [Option.getD_none]
    omega

/-! ### Phrases and clauses -/

def phraseWords (input : Text) (i : ℕ) : List Text × ℕ :=
  let stop := scan isWordChar input i
  if stop = i then ([], i)
  else
    let rest := phraseWords input (skipSpace input stop)
    (slice input i stop :: rest.1, rest.2)
termination_by input.length - i
decreasing_by
  rename_i h
  have hle := le_scan isWordChar input i
  have hlt := lt_length_of_scan (Nat.lt_of_le_of_ne hle (Ne.symm h))
  have hskip := le_scan isWhitespace input (scan isWordChar input i)
  rw [skipSpace_eq]
  omega

/-- `phrase`: `quote >> ([^\s"]+ >> space.maybe).repeat >> quote`. -/
def phraseAt (input : Text) (i : ℕ) : Option (List Text × ℕ) := do
  let i ← charAt input i '"'
  let (words, i) := phraseWords input i
  let stop ← charAt input i '"'
  pure (words, stop)

def operatorAt (input : Text) (i : ℕ) : Option Char × ℕ :=
  match input[i]? with
  | some c => if c = '+' ∨ c = '-' then (some c, i + 1) else (none, i)
  | none => (none, i)

def bodyAt (input : Text) (i : ℕ) : Option (Body × ℕ) :=
  match phraseAt input i with
  | some (words, stop) => some (.phrase words, stop)
  | none =>
      match termAt input i with
      | some (term, stop) => some (.term term, stop)
      | none => (shortcodeAt input i).map fun (_, stop) => (.shortcode, stop)

def fullClauseAt (input : Text) (i : ℕ) : Option (Parsed × ℕ) :=
  let (operator, i) := operatorAt input i
  let (field, i) :=
    match prefixAt input i with
    | some (field, stop) => (some field, stop)
    | none => (none, i)
  (bodyAt input i).map fun (body, stop) => (.clause operator field body, stop)

/-- `clause`: `(operator.maybe >> prefix.maybe >> (phrase | term | shortcode)) | prefix |
quote`. -/
def clauseAt (input : Text) (i : ℕ) : Option (Parsed × ℕ) :=
  match fullClauseAt input i with
  | some found => some found
  | none =>
      match prefixAt input i with
      | some (term, stop) => some (.clause none none (.term term), stop)
      | none => (charAt input i '"').map fun stop => (.junk, stop)

/-- Clause after clause, until none starts; `none` where the steps do not suffice. -/
def parseLoop (input : Text) : ℕ → ℕ → List Parsed → Option (ℕ × List Parsed)
  | 0, _, _ => none
  | steps + 1, i, clauses =>
      match clauseAt input i with
      | some (clause, stop) => parseLoop input steps (skipSpace input stop) (clauses ++ [clause])
      | none => some (i, clauses)

/-- `SearchQueryParser#parse`: `(clause >> space.maybe).repeat`, consuming all of the query. -/
def parse (steps : ℕ) (query : Text) : Option (Except QueryError (List Parsed)) :=
  (parseLoop query steps 0 []).map fun (i, clauses) =>
    if i = query.length then .ok clauses else .error .parseFailed

end Eunha.SearchQuery
