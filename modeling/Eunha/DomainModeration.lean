import Eunha.SqlLike
import Mathlib.Data.List.Dedup
import Mathlib.Data.List.MinMax
import Mathlib.Data.List.Sort
import Mathlib.Data.String.Basic

/-!
# Domain moderation on the federation path

An activity is dropped on arrival when the one block that decides for its actor's
host is a suspend; a delivery is dropped when any suspend block covers the host of
its inbox. The first asks the database, where a parent domain is found with
`LIKE`, and the longest block decides; the second matches endings of the host.
The two agree on a host unless one of two things holds of the blocks: a suspend
block covers the host and is overridden, or one decides that covers it only by the
pattern.

The URL parser's host and the lowercasing of a text are parameters. Of blocks as
long as each other the database may return any; here it is the first of the table.
-/
namespace Eunha.DomainModeration
open SqlLike

/-! ### The model -/

/-- `db::models::domain_severity`. -/
def silence : ℤ := 0
def suspend : ℤ := 1
def noop : ℤ := 2

/-- A row of `domain_blocks`. -/
structure BlockRow where
  domain : String
  severity : Option ℤ
  rejectMedia : Bool := false
  rejectReports : Bool := false
  deriving DecidableEq

structure DomainBlock where
  severity : ℤ
  rejectMedia : Bool
  rejectReports : Bool

def DomainBlock.isSuspend (b : DomainBlock) : Bool := b.severity = suspend

/-- The `WHERE` of `lookup` on one row: `none` when the pattern is an error. -/
def selects (domain : String) (row : BlockRow) : Option Bool :=
  if row.domain = "" then some false
  else if domain = row.domain then some true
  else like ("%.".toList ++ row.domain.toList) domain.toList

def selected (rows : List BlockRow) (domain : String) : Option (List BlockRow) :=
  if ∀ row ∈ rows, (selects domain row).isSome then
    some (rows.filter fun row => selects domain row = some true)
  else none

section
variable (hostStr : String → Option String) (toLowercase : String → String)

def domainOf (uri : String) : Option String := (hostStr uri).map toLowercase

def lookup (rows : List BlockRow) (domain : String) : Option DomainBlock :=
  (selected rows (toLowercase domain)).bind fun sel =>
    (sel.argmax fun row => row.domain.length).map fun row =>
      { severity := row.severity.getD silence
        rejectMedia := row.rejectMedia
        rejectReports := row.rejectReports }

def actorIsSuspended (rows : List BlockRow) (actorUri : String) : Bool :=
  match domainOf hostStr toLowercase actorUri with
  | none => false
  | some domain => (lookup toLowercase rows domain).any DomainBlock.isSuspend

def suspendedDomains (rows : List BlockRow) : List String :=
  (rows.filter fun row => row.domain ≠ "" ∧ row.severity = some suspend).map BlockRow.domain

def hostMatches (host : String) (blocked : List String) : Bool :=
  let host := toLowercase host
  blocked.any fun b =>
    let b := toLowercase b
    host = b || ('.' :: b.toList).isSuffixOf host.toList

def inboxSuspended (inboxUrl : String) (blocked : List String) : Bool :=
  (hostStr inboxUrl).any fun host => hostMatches toLowercase host blocked

/-- The inboxes `enqueue` delivers to. -/
def enqueued (rows : List BlockRow) (inboxes : List String) : List String :=
  let suspended := suspendedDomains rows
  let inboxes := (inboxes.filter fun s => s ≠ "").filter fun inbox =>
    ¬inboxSuspended hostStr toLowercase inbox suspended
  (inboxes.insertionSort (· ≤ ·)).dedup

end

/-! ### When the two agree -/

def Covers (row : BlockRow) (host : String) : Prop :=
  row.domain ≠ "" ∧ (host = row.domain ∨ '.' :: row.domain.toList <:+ host.toList)

def Suspends (row : BlockRow) : Prop := row.severity = some suspend

/-- The row comes first in the query's order. -/
def Precedes (sel : List BlockRow) (a b : BlockRow) : Prop :=
  b.domain.length < a.domain.length ∨
    b.domain.length = a.domain.length ∧ sel.idxOf a ≤ sel.idxOf b

def Overridden (rows : List BlockRow) (host : String) : Prop :=
  (∃ row ∈ rows, Suspends row ∧ Covers row host) ∧
    ∀ sel, selected rows host = some sel →
      ∀ row ∈ sel, Suspends row → ∃ other ∈ sel, ¬Suspends other ∧ Precedes sel other row

def Wildcard (rows : List BlockRow) (host : String) : Prop :=
  (¬∃ row ∈ rows, Suspends row ∧ Covers row host) ∧
    ∃ sel, selected rows host = some sel ∧
      ∃ row ∈ sel, Suspends row ∧ ∀ other ∈ sel, ¬Suspends other → Precedes sel row other

theorem not_precedes_iff {sel : List BlockRow} {a b : BlockRow} (ha : a ∈ sel) (hne : a ≠ b) :
    ¬Precedes sel a b ↔ Precedes sel b a := by
  have hidx : sel.idxOf a ≠ sel.idxOf b := fun h => hne ((List.idxOf_inj ha).mp h)
  unfold Precedes
  omega

theorem exists_first_iff {sel : List BlockRow} :
    (∃ row ∈ sel, Suspends row ∧ ∀ other ∈ sel, ¬Suspends other → Precedes sel row other) ↔
      ¬∀ row ∈ sel, Suspends row → ∃ other ∈ sel, ¬Suspends other ∧ Precedes sel other row := by
  have hcompare : ∀ row ∈ sel, Suspends row → ∀ other, ¬Suspends other →
      (¬Precedes sel row other ↔ Precedes sel other row) := fun row hrow hs other ho =>
    not_precedes_iff hrow fun h => ho (h ▸ hs)
  constructor
  · rintro ⟨row, hrow, hs, hfirst⟩ hall
    obtain ⟨other, hother, ho, hbefore⟩ := hall row hrow hs
    exact (hcompare row hrow hs other ho).mpr hbefore (hfirst other hother ho)
  · intro h
    push Not at h
    obtain ⟨row, hrow, hs, hfirst⟩ := h
    exact ⟨row, hrow, hs, fun other hother ho => by
      by_contra hbefore
      exact hfirst other hother ho ((hcompare row hrow hs other ho).mp hbefore)⟩

theorem argmax_suspends_iff (sel : List BlockRow) :
    (∃ row ∈ sel.argmax (fun row => row.domain.length), Suspends row) ↔
      ∃ row ∈ sel, Suspends row ∧ ∀ other ∈ sel, ¬Suspends other → Precedes sel row other := by
  constructor
  · rintro ⟨row, hrow, hs⟩
    obtain ⟨hmem, hmax, hfirst⟩ := List.mem_argmax_iff.mp hrow
    refine ⟨row, hmem, hs, fun other hother _ => ?_⟩
    rcases (hmax other hother).lt_or_eq with hlt | heq
    · exact .inl hlt
    · exact .inr ⟨heq, hfirst other hother heq.ge⟩
  · rintro ⟨row, hrow, hs, hfirst⟩
    cases hm : sel.argmax (fun row => row.domain.length) with
    | none =>
        rw [List.argmax_eq_none.mp hm] at hrow
        cases hrow
    | some m =>
        obtain ⟨hmem, hmax, hidx⟩ := List.mem_argmax_iff.mp hm
        refine ⟨m, rfl, by_contra fun hsm => ?_⟩
        have hne : row ≠ m := fun h => hsm (h ▸ hs)
        rcases hfirst m hmem hsm with hlt | ⟨heq, hle⟩
        · exact absurd (hmax row hrow) (not_le.mpr hlt)
        · exact hne ((List.idxOf_inj hrow).mp (hle.antisymm (hidx row hrow heq.le)))

section
variable {hostStr : String → Option String} {toLowercase : String → String}

theorem lookup_isSuspend_iff (rows : List BlockRow) (domain : String) :
    (lookup toLowercase rows domain).any DomainBlock.isSuspend = true ↔
      ∃ sel, selected rows (toLowercase domain) = some sel ∧
        ∃ row ∈ sel, Suspends row ∧ ∀ other ∈ sel, ¬Suspends other → Precedes sel row other := by
  unfold lookup
  cases hsel : selected rows (toLowercase domain) with
  | none => simp
  | some sel =>
      have hsuspend : ∀ row : BlockRow, row.severity.getD silence = suspend ↔ Suspends row := by
        intro row
        unfold Suspends
        cases hseverity : row.severity with
        | none => simp [silence, suspend]
        | some severity => simp
      simp only [Option.bind_some, Option.some.injEq, exists_eq_left', ← argmax_suspends_iff]
      cases hm : sel.argmax (fun row => row.domain.length) <;>
        simp [DomainBlock.isSuspend, hsuspend]

theorem hostMatches_iff {rows : List BlockRow}
    (hrows : ∀ row ∈ rows, toLowercase row.domain = row.domain) (host : String) :
    hostMatches toLowercase host (suspendedDomains rows) = true ↔
      ∃ row ∈ rows, Suspends row ∧ Covers row (toLowercase host) := by
  simp only [hostMatches, suspendedDomains, List.any_eq_true, List.mem_map, List.mem_filter,
    decide_eq_true_eq, Bool.or_eq_true, List.isSuffixOf_iff_suffix, Suspends, Covers]
  constructor
  · rintro ⟨_, ⟨row, ⟨hrow, hne, hs⟩, rfl⟩, h⟩
    exact ⟨row, hrow, hs, hne, by rwa [hrows row hrow] at h⟩
  · rintro ⟨row, hrow, hs, hne, h⟩
    exact ⟨_, ⟨row, ⟨hrow, hne, hs⟩, rfl⟩, by rwa [hrows row hrow]⟩

theorem mem_enqueued {rows : List BlockRow} {inboxes : List String} {inbox : String} :
    inbox ∈ enqueued hostStr toLowercase rows inboxes ↔
      inbox ∈ inboxes ∧ inbox ≠ "" ∧
        ¬inboxSuspended hostStr toLowercase inbox (suspendedDomains rows) = true := by
  simp only [enqueued, List.mem_dedup, List.mem_insertionSort, List.mem_filter, decide_eq_true_eq,
    and_assoc]

/-- A delivery to an inbox is dropped exactly when activities from its host are, exactly
when no suspend block that covers the host is overridden, and none decides for it by
its wildcards alone. -/
theorem defederation_agrees_iff (hlower : ∀ s, toLowercase (toLowercase s) = toLowercase s)
    (hempty : hostStr "" = none) {rows : List BlockRow}
    (hrows : ∀ row ∈ rows, toLowercase row.domain = row.domain)
    {inbox actorUri host : String} (hinbox : hostStr inbox = some host)
    (hactor : hostStr actorUri = some host) {inboxes : List String} (hmem : inbox ∈ inboxes) :
    (inbox ∉ enqueued hostStr toLowercase rows inboxes ↔
        actorIsSuspended hostStr toLowercase rows actorUri = true) ↔
      ¬Overridden rows (toLowercase host) ∧ ¬Wildcard rows (toLowercase host) := by
  have hnonempty : inbox ≠ "" := fun h => by
    rw [h, hempty] at hinbox
    cases hinbox
  have hout : inbox ∉ enqueued hostStr toLowercase rows inboxes ↔
      ∃ row ∈ rows, Suspends row ∧ Covers row (toLowercase host) := by
    rw [mem_enqueued, ← hostMatches_iff hrows]
    simp [hmem, hnonempty, inboxSuspended, hinbox]
  have hin : actorIsSuspended hostStr toLowercase rows actorUri = true ↔
      ∃ sel, selected rows (toLowercase host) = some sel ∧
        ∃ row ∈ sel, Suspends row ∧ ∀ other ∈ sel, ¬Suspends other → Precedes sel row other := by
    simp only [actorIsSuspended, domainOf, hactor, Option.map_some]
    rw [lookup_isSuspend_iff, hlower]
  rw [hout, hin]
  unfold Overridden Wildcard
  generalize (∃ row ∈ rows, Suspends row ∧ Covers row (toLowercase host)) = covered
  cases hsel : selected rows (toLowercase host) with
  | none => simp
  | some sel =>
      simp only [Option.some.injEq, exists_eq_left', forall_eq', exists_first_iff]
      tauto

end

theorem defederation_agrees_iff_subdomain :
    let hostStr : String → Option String := fun uri =>
      if uri = "https://a.example.com/inbox" ∨ uri = "https://a.example.com/actor" then
        some "a.example.com"
      else none
    let rows : List BlockRow := [⟨"example.com", some suspend, false, false⟩]
    ("https://a.example.com/inbox" ∉ enqueued hostStr id rows ["https://a.example.com/inbox"] ↔
        actorIsSuspended hostStr id rows "https://a.example.com/actor" = true) ↔
      ¬Overridden rows "a.example.com" ∧ ¬Wildcard rows "a.example.com" :=
  defederation_agrees_iff (fun _ => rfl) (by decide) (fun _ _ => rfl) (by decide) (by decide)
    (by decide)

/-- A silenced subdomain of a suspended domain: its activities come in, and nothing is
delivered to it. -/
theorem silenced_subdomain :
    let hostStr : String → Option String := fun uri =>
      if uri = "https://sub.example.com/inbox" ∨ uri = "https://sub.example.com/actor" then
        some "sub.example.com"
      else none
    let toLowercase : String → String := fun s => String.ofList (s.toList.map Char.toLower)
    let rows : List BlockRow :=
      [⟨"example.com", some suspend, false, false⟩, ⟨"sub.example.com", some silence, false, false⟩]
    (∀ row ∈ rows, toLowercase row.domain = row.domain) ∧
    "https://sub.example.com/inbox" ∉
      enqueued hostStr toLowercase rows ["https://sub.example.com/inbox"] ∧
    actorIsSuspended hostStr toLowercase rows "https://sub.example.com/actor" = false := by
  decide +kernel

/-! ### Domains without wildcards -/

end Eunha.DomainModeration
