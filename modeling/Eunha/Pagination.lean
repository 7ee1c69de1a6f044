import Eunha.Cursors
import Eunha.SignedIdsReadBack
import Mathlib

/-!
# Pages and their links

A page of rows is asked for with a bound and a limit, and links to the pages after and before
it. A link keeps the query of its page but for what pages: the limit is gone from it, so what
it leads to has as many rows as when none is given.
-/
namespace Eunha.Pagination
open SignedIds

/-! ### Requests -/

/-- The parameters of a request, by name. -/
abbrev Query := List (String × Text)

def param (q : Query) (name : String) : Option Text := q.lookup name

def limitClamped (q : Query) (default most : ℤ) : ℤ :=
  max (min ((((param q "limit").bind parseI64).map Int64.toInt).getD default) most) 1

/-- What pages. -/
def pagination : List String := ["max_id", "min_id", "since_id", "limit"]

def nonPaginationQuery (q : Query) : Query := q.filter fun kv => !pagination.contains kv.1

structure Links where
  next : Query
  prev : Query
  deriving DecidableEq

def linkHeader (q : Query) (newest oldest : Text) : Links where
  next := nonPaginationQuery q ++ [("max_id", oldest)]
  prev := nonPaginationQuery q ++ [("min_id", newest)]

def linkHeaders (q : Query) (bounds : Option (Text × Text)) : Option Links :=
  bounds.map fun b => linkHeader q b.1 b.2

/-! ### Pages -/

structure Page (α : Type) where
  rows : List α
  links : Option Links
  deriving DecidableEq

/-- The pages read, each from a link of the one before, until one has none. -/
def follow {α ε : Type} (get : Query → Except ε (Page α)) (pick : Links → Query) :
    ℕ → Query → List (Query × Page α)
  | 0, _ => []
  | fuel + 1, q =>
      match get q with
      | .error _ => []
      | .ok page => (q, page) :: (page.links.map pick).elim [] (follow get pick fuel)

/-! ### Links -/

theorem param_link {name : String} (hname : name ∈ pagination) (q : Query) (key : String)
    (value : Text) :
    param (nonPaginationQuery q ++ [(key, value)]) name = if name = key then some value else none := by
  have hnone : (nonPaginationQuery q).lookup name = none := by
    rw [List.lookup_eq_none_iff]
    intro kv hkv
    have hnot := (List.mem_filter.mp hkv).2
    by_contra hcon
    have heq : name = kv.1 := by simpa using hcon
    rw [← heq, List.contains_iff_mem.mpr hname] at hnot
    cases hnot
  unfold param
  rw [List.lookup_append, hnone, Option.none_or, List.lookup_cons]
  by_cases heq : name = key
  · rw [if_pos heq, heq, beq_self_eq_true]
  · rw [if_neg heq, beq_eq_false_iff_ne.mpr heq, List.lookup_nil]

theorem limit_link (q : Query) {key : String} (hkey : "limit" ≠ key) (value : Text)
    (default most : ℤ) :
    limitClamped (nonPaginationQuery q ++ [(key, value)]) default most = max (min default most) 1 := by
  unfold limitClamped
  rw [param_link (by decide), if_neg hkey]
  rfl

/-! ### Following links through sorted rows -/

section
variable {α β ε : Type} [LinearOrder β] {get : Query → Except ε (Page α)} {pick : Links → Query}
  {turn : List α → List α} {key : α → β} {rows : List α} {asks : Query → Option β → Prop} {q : Query}

/-- The page of a request is these rows, as they are shown, and links to the request for the
rows below the last of them. -/
def Shows (get : Query → Except ε (Page α)) (pick : Links → Query) (turn : List α → List α)
    (key : α → β) (asks : Query → Option β → Prop) (q : Query) (shown : List α) : Prop :=
  ∃ links, get q = .ok ⟨turn shown, links⟩ ∧ (shown = [] → links = none) ∧
    ∀ last, shown.getLast? = some last →
      ∃ l, links = some l ∧ asks (pick l) (some (key last))

/-- Following the links of pages of one limit is to walk through the rows. -/
theorem follow_walk {more : ℕ}
    (hasks : ∀ q bound, asks q bound →
      Shows get pick turn key asks q (Cursors.page key more bound rows))
    (hturn : ∀ l, turn (turn l) = l) (hnil : turn [] = []) (fuel : ℕ) {bound : Option β}
    (hq : asks q bound) :
    (follow get pick fuel q).flatMap (fun read => turn read.2.rows) =
      Cursors.walk key more fuel bound rows := by
  induction fuel generalizing q bound with
  | zero => rfl
  | succ fuel ih =>
      obtain ⟨links, hget, hempty, hlast⟩ := hasks q bound hq
      rw [follow, hget, Cursors.walk]
      cases hend : (Cursors.page key more bound rows).getLast? with
      | none =>
          rw [List.getLast?_eq_none_iff] at hend
          simp [hend, hempty hend, hnil]
      | some last =>
          obtain ⟨l, rfl, hl⟩ := hlast last hend
          simp only [List.flatMap_cons, hturn, Option.map_some, Option.elim_some, ih hl]

/-- When the first page has a limit of its own, all rows are read in order just where no page
ends between two rows of one key. -/
theorem follow_eq_iff {limit more : ℕ}
    (hasks : ∀ q bound, asks q bound →
      Shows get pick turn key asks q (Cursors.page key more bound rows))
    (hturn : ∀ l, turn (turn l) = l) (hnil : turn [] = [])
    (hsorted : rows.Pairwise fun a b => key b ≤ key a) (hlimit : 0 < limit) (hmore : 0 < more)
    (hq : Shows get pick turn key asks q (rows.take limit)) {fuel : ℕ}
    (hfuel : rows.length < fuel) :
    (follow get pick fuel q).flatMap (fun read => turn read.2.rows) = rows ↔
      (∀ a b, rows[limit - 1]? = some a → rows[limit]? = some b → key a ≠ key b) ∧
        Cursors.EndsApart key more (rows.drop limit) := by
  obtain ⟨fuel, rfl⟩ := Nat.exists_eq_add_of_lt (Nat.zero_lt_of_lt hfuel)
  obtain ⟨links, hget, hempty, hlink⟩ := hq
  rw [Nat.zero_add] at hfuel ⊢
  rw [follow, hget]
  simp only [List.flatMap_cons, hturn]
  cases hend : (rows.take limit).getLast? with
  | none =>
      have htake := List.getLast?_eq_none_iff.mp hend
      have hrows : rows = [] := by
        rcases List.take_eq_nil_iff.mp htake with hzero | hrows
        · omega
        · exact hrows
      rw [hempty htake, hrows]
      simp [Cursors.EndsApart]
  | some last =>
      obtain ⟨l, rfl, hl⟩ := hlink last hend
      have hne : rows ≠ [] := by
        rintro rfl
        rw [List.take_nil] at hend
        cases hend
      have hlength : (rows.drop limit).length < fuel := by
        have := List.length_pos_iff.mpr hne
        rw [List.length_drop]
        omega
      have hdrop := hsorted.sublist (List.drop_sublist limit rows)
      rw [Option.map_some, Option.elim_some, follow_walk hasks hturn hnil fuel hl,
        Cursors.walk_below, Cursors.below_last hsorted hend,
        Cursors.append_walk_iff hsorted hmore hend, Cursors.walk_eq_iff hdrop hmore hlength]
      refine and_congr_left fun _ => ⟨fun h a b ha hb => ?_, fun h b hb => ?_⟩
      · have hlen : limit < rows.length := (List.getElem?_eq_some_iff.mp hb).1
        rw [List.getLast?_eq_getElem?, List.length_take_of_le hlen.le,
          List.getElem?_take_of_lt (by omega), ha] at hend
        cases hend
        exact h b hb
      · have hlen : limit < rows.length := (List.getElem?_eq_some_iff.mp hb).1
        rw [List.getLast?_eq_getElem?, List.length_take_of_le hlen.le,
          List.getElem?_take_of_lt (by omega)] at hend
        exact h last b hend hb

end

end Eunha.Pagination
