import Eunha.Cursors
import Eunha.AccountLists
import Eunha.Pages
import Eunha.Pagination

/-!
# Paging the members of a list

The members of a list are read highest id first, a page at a time, and each page but an empty
one links to the next and to the previous one. A link keeps the query of the page but for
what pages, so the pages that are linked have as many members as when no limit is given,
whatever the first was given. The next page is bound from above and the previous one from
below, and both are the highest of those within their bound.
-/
namespace Eunha.ListPages
open SignedIds Scopes AccountLists Pagination
open Roles (AppError)

/-! ### Pages -/

def getListAccounts (s : Store) (auth : Auth) (id : Int64) (q : Query) : Except AppError (Page Int64) :=
  if hasScope auth.scopes "read:lists" = false then .error .forbiddenScope
  else do
    let _ ← fetchList s id auth.accountId
    let unlimited := param q "limit" = some ['0']
    let limit := if unlimited then Int64.maxValue.toInt else limitClamped q 40 80
    let maxId := (param q "max_id").bind parseI64
    let sinceId := (param q "since_id").bind parseI64
    let minId := (param q "min_id").bind parseI64
    let accounts := ((((joined s id).filter fun a =>
      maxId.all (fun m => a.toInt < m.toInt) && sinceId.all (fun m => m.toInt < a.toInt) &&
        minId.all fun m => m.toInt < a.toInt).mergeSort descending).take limit.toNat)
    let bounds :=
      if unlimited then none
      else
        match accounts.head?, accounts.getLast? with
        | some newest, some oldest => some (showI64 newest, showI64 oldest)
        | _, _ => none
    .ok ⟨accounts, linkHeaders q bounds⟩

/-! ### Following links -/

/-- The pages from the first on. -/
def forward (s : Store) (auth : Auth) (id : Int64) (fuel : ℕ) (q : Query) : List (Query × Page Int64) :=
  follow (getListAccounts s auth id) Links.next fuel q

def backward (s : Store) (auth : Auth) (id : Int64) (fuel : ℕ) (q : Query) :
    List (Query × Page Int64) :=
  match ((forward s auth id fuel q).filter (·.2.links.isSome)).getLast? with
  | none => []
  | some last =>
      last :: (last.2.links.map Links.prev).elim [] (follow (getListAccounts s auth id) Links.prev fuel)

/-- A page bound from below has the members immediately above the bound. -/
def Adjacent (s : Store) (id : Int64) (read : Query × Page Int64) : Prop :=
  ∀ m, (param read.1 "min_id").bind parseI64 = some m →
    let above := (members s id).filter fun a => m.toInt < a.toInt
    read.2.rows = above.drop (above.length - (limitClamped read.1 40 80).toNat)

/-- Every member is read once each way, and the pages back are adjacent. -/
structure Exhaustive (s : Store) (auth : Auth) (id : Int64) (fuel : ℕ) (q : Query) : Prop where
  forward : ((forward s auth id fuel q).flatMap (·.2.rows)).Perm (members s id)
  backward : ((backward s auth id fuel q).flatMap (·.2.rows)).Perm (members s id)
  adjacent : ∀ read ∈ ListPages.backward s auth id fuel q, Adjacent s id read

/-! ### One page -/

/-- The list is the account's, and its token may read lists. -/
structure Allowed (s : Store) (auth : Auth) (id : Int64) : Prop where
  scope : hasScope auth.scopes "read:lists" = true
  owned : ⟨id, auth.accountId⟩ ∈ s.lists

/-- The bounds of a request. -/
def within (q : Query) (a : Int64) : Bool :=
  ((param q "max_id").bind parseI64).all (fun m => a.toInt < m.toInt) &&
    ((param q "since_id").bind parseI64).all (fun m => m.toInt < a.toInt) &&
    ((param q "min_id").bind parseI64).all fun m => m.toInt < a.toInt

def pageOf (q : Query) (accounts : List Int64) : Page Int64 where
  rows := accounts
  links := linkHeaders q (match accounts.head?, accounts.getLast? with
    | some newest, some oldest => some (showI64 newest, showI64 oldest)
    | _, _ => none)

variable {s : Store} {auth : Auth} {id : Int64} {q : Query}

theorem getListAccounts_eq (h : Allowed s auth id) (hlimited : param q "limit" ≠ some ['0']) :
    getListAccounts s auth id q =
      .ok (pageOf q (((members s id).filter (within q)).take (limitClamped q 40 80).toNat)) := by
  have hsort : ((joined s id).filter (within q)).mergeSort descending =
      (members s id).filter (within q) := by
    apply Pages.mergeSort_filter _ _ descending_trans descending_total
    intro a _ b _ hab hba
    exact Int64.toInt_inj.mp (le_antisymm (of_decide_eq_true hba) (of_decide_eq_true hab))
  rw [← hsort]
  unfold getListAccounts
  rw [if_neg (by simp [h.scope]), fetchList_owned h.owned]
  simp only [hlimited, if_false]
  rfl

theorem links_nil (q : Query) : (pageOf q []).links = none := rfl

theorem links_append (q : Query) (x : Int64) (before after : List Int64) (y : Int64)
    (h : x :: after = before ++ [y]) :
    (pageOf q (x :: after)).links = some (linkHeader q (showI64 x) (showI64 y)) := by
  have hlast : (x :: after).getLast? = some y := by
    rw [h, List.getLast?_append, List.getLast?_singleton, Option.some_or]
  simp only [pageOf, List.head?_cons, hlast, linkHeaders, Option.map_some]

theorem link_page (h : Allowed s auth id) (q : Query) {key : String} (hkey : "limit" ≠ key)
    (value : Text) {keep : Int64 → Bool}
    (hkeep : ∀ a, within (nonPaginationQuery q ++ [(key, value)]) a = keep a) :
    getListAccounts s auth id (nonPaginationQuery q ++ [(key, value)]) =
      .ok (pageOf (nonPaginationQuery q ++ [(key, value)]) (((members s id).filter keep).take 40)) := by
  have hlimited : param (nonPaginationQuery q ++ [(key, value)]) "limit" ≠ some ['0'] := by
    rw [param_link (by decide), if_neg hkey]
    simp
  rw [getListAccounts_eq h hlimited, limit_link q hkey value 40 80, funext hkeep]
  rfl

theorem next_page (h : Allowed s auth id) (q : Query) (newest : Text) (m : Int64) :
    getListAccounts s auth id (linkHeader q newest (showI64 m)).next =
      .ok (pageOf (linkHeader q newest (showI64 m)).next
        (((members s id).filter fun a => a.toInt < m.toInt).take 40)) := by
  apply link_page h q (by decide)
  intro a
  unfold within
  rw [param_link (by decide), param_link (by decide), param_link (by decide), if_pos rfl,
    if_neg (by decide), if_neg (by decide), Option.bind_some, parseI64_showI64]
  simp

theorem prev_page (h : Allowed s auth id) (q : Query) (oldest : Text) (m : Int64) :
    getListAccounts s auth id (linkHeader q (showI64 m) oldest).prev =
      .ok (pageOf (linkHeader q (showI64 m) oldest).prev
        (((members s id).filter fun a => m.toInt < a.toInt).take 40)) := by
  apply link_page h q (by decide)
  intro a
  unfold within
  rw [param_link (by decide), param_link (by decide), param_link (by decide), if_pos rfl,
    if_neg (by decide), if_neg (by decide), Option.bind_some, parseI64_showI64]
  simp

/-! ### The pages forward -/

/-- Where the last page with members begins, when the rows left come after some others and
the first page of them has so many. -/
structure LastAt (before rows : List Int64) (limit : ℕ) (above : List Int64) : Prop where
  within : rows.length ≤ limit → above = before
  second : limit < rows.length → rows.length ≤ limit + 40 →
    above.length = before.length + limit
  later : limit + 40 < rows.length → before.length + limit + 40 ≤ above.length

theorem follow_next (h : Allowed s auth id) (fuel : ℕ) (q : Query) {before rows : List Int64}
    (hrows : members s id = before ++ rows) {limit : ℕ} (hlimit : 0 < limit)
    (hq : getListAccounts s auth id q = .ok (pageOf q (rows.take limit)))
    (hmin : param q "min_id" = none) (hfuel : rows.length < fuel) :
    (forward s auth id fuel q).flatMap (·.2.rows) = rows ∧
    (rows ≠ [] → ∃ q' above page, page ≠ [] ∧ param q' "min_id" = none ∧
      members s id = above ++ page ∧
      ((forward s auth id fuel q).filter (·.2.links.isSome)).getLast? = some (q', pageOf q' page) ∧
      LastAt before rows limit above) := by
  unfold forward
  induction fuel generalizing q before rows limit with
  | zero => omega
  | succ fuel ih =>
      rw [follow, hq]
      simp only [List.flatMap_cons]
      cases htake : rows.take limit with
      | nil =>
          have hnil : rows = [] := by
            rcases List.take_eq_nil_iff.mp htake with hzero | hnil
            · omega
            · exact hnil
          rw [links_nil]
          exact ⟨by simp [hnil, pageOf], fun hne => absurd hnil hne⟩
      | cons first rest =>
          obtain ⟨start, last, hlast⟩ : ∃ start last, first :: rest = start ++ [last] :=
            ⟨_, _, (List.dropLast_append_getLast (List.cons_ne_nil first rest)).symm⟩
          have hsplit : rows = start ++ last :: rows.drop limit := by
            conv_lhs => rw [← List.take_append_drop limit rows, htake, hlast]
            simp
          have hsorted := members_decreasing s id
          have hall : members s id = (before ++ start) ++ last :: rows.drop limit := by
            rw [hrows, List.append_assoc, ← hsplit]
          have hnext := next_page h q (showI64 first) last
          rw [hall] at hsorted
          rw [hall, Cursors.below_eq Int64.toInt hsorted] at hnext
          have hlength : rows.length = start.length + 1 + (rows.drop limit).length := by
            conv_lhs => rw [hsplit]
            simp
            omega
          obtain ⟨hread, hend⟩ := ih (linkHeader q (showI64 first) (showI64 last)).next
            (by rw [hall]; simp : members s id = (before ++ start ++ [last]) ++ rows.drop limit)
            (by decide : 0 < 40) hnext
            (by rw [linkHeader, param_link (by decide), if_neg (by decide)]) (by omega)
          rw [links_append q first start rest last hlast, Option.map_some, Option.elim_some]
          constructor
          · change (first :: rest) ++ _ = rows
            rw [hread, ← htake, List.take_append_drop]
          intro _
          rw [List.filter_cons_of_pos (by rw [links_append q first start rest last hlast]; rfl)]
          by_cases hdrop : rows.drop limit = []
          · refine ⟨q, before, first :: rest, List.cons_ne_nil _ _, hmin, ?_, ?_, ?_⟩
            · rw [hrows, ← htake]
              conv_lhs => rw [← List.take_append_drop limit rows, hdrop, List.append_nil]
            · have hnone : (follow (getListAccounts s auth id) Links.next fuel
                  (linkHeader q (showI64 first) (showI64 last)).next).filter
                    (·.2.links.isSome) = [] := by
                cases fuel with
                | zero => rfl
                | succ fuel =>
                    rw [follow, hnext, hdrop, List.take_nil]
                    rfl
              rw [hnone, List.getLast?_singleton]
            · have hle := List.drop_eq_nil_iff.mp hdrop
              exact ⟨fun _ => rfl, fun hlt => by omega, fun hlt => by omega⟩
          · obtain ⟨q', above, page, hne, hmin', heq, hgot, hat⟩ := hend hdrop
            refine ⟨q', above, page, hne, hmin', by rw [← heq], ?_, ?_⟩
            · rw [List.getLast?_cons, hgot, Option.getD_some]
            · have hlt : limit < rows.length := by
                by_contra hle
                exact hdrop (List.drop_eq_nil_iff.mpr (by omega))
              have hstart : start.length + 1 = limit := by
                have hlen := congrArg List.length (htake.trans hlast)
                rw [List.length_take, List.length_append, List.length_singleton] at hlen
                omega
              have hbefore : (before ++ start ++ [last]).length = before.length + limit := by
                rw [List.length_append, List.length_append, List.length_singleton]
                omega
              refine ⟨fun hle => by omega, fun _ hle => ?_, fun hgt => ?_⟩
              · rw [hat.within (by omega), hbefore]
              · by_cases hmore : (rows.drop limit).length ≤ 40 + 40
                · rw [hat.second (by omega) hmore]
                  omega
                · have := hat.later (by omega)
                  omega

/-! ### The pages back -/

theorem minId_prev (q : Query) (m : Int64) (oldest : Text) :
    (param (linkHeader q (showI64 m) oldest).prev "min_id").bind parseI64 = some m := by
  unfold linkHeader
  rw [param_link (by decide), if_pos rfl, Option.bind_some, parseI64_showI64]

theorem follow_top (h : Allowed s auth id) (fuel : ℕ) (q : Query) (oldest : Text) {top : Int64}
    {rest : List Int64} (hall : members s id = top :: rest) :
    ∀ read ∈ follow (getListAccounts s auth id) Links.prev fuel (linkHeader q (showI64 top) oldest).prev,
      read.2.rows = [] ∧ Adjacent s id read := by
  have hsorted := members_decreasing s id
  rw [hall, ← List.nil_append (top :: rest)] at hsorted
  have habove : ((members s id).filter fun a => top.toInt < a.toInt) = [] := by
    rw [hall]
    exact Cursors.above_eq Int64.toInt hsorted
  have hprev := prev_page h q oldest top
  rw [habove, List.take_nil] at hprev
  intro read hread
  cases fuel with
  | zero => cases hread
  | succ fuel =>
      rw [follow, hprev] at hread
      simp only [links_nil, Option.map_none, Option.elim_none, List.mem_singleton] at hread
      rw [hread]
      refine ⟨rfl, ?_⟩
      intro m hm
      rw [minId_prev, Option.some.injEq] at hm
      simp only [← hm, habove, List.drop_nil]
      rfl

theorem backward_eq (h : Allowed s auth id) {fuel : ℕ} {q' : Query} {above page : List Int64}
    (hne : page ≠ []) (hall : members s id = above ++ page)
    (hfuel : (members s id).length < fuel)
    (hlast : ((forward s auth id fuel q).filter (·.2.links.isSome)).getLast? =
      some (q', pageOf q' page)) :
    ∃ newest oldest rest, backward s auth id fuel q =
      (q', pageOf q' page) :: ((linkHeader q' (showI64 newest) oldest).prev,
        pageOf (linkHeader q' (showI64 newest) oldest).prev (above.take 40)) :: rest ∧
      ((members s id).filter fun a => newest.toInt < a.toInt) = above ∧
      ∀ read ∈ rest, read.2.rows = [] ∧ Adjacent s id read := by
  obtain ⟨newest, tail, rfl⟩ := List.exists_cons_of_ne_nil hne
  obtain ⟨start, last, hpage⟩ : ∃ start last, newest :: tail = start ++ [last] :=
    ⟨_, _, (List.dropLast_append_getLast hne).symm⟩
  have hsorted := members_decreasing s id
  rw [hall] at hsorted
  have habove : ((members s id).filter fun a => newest.toInt < a.toInt) = above := by
    rw [hall]
    exact Cursors.above_eq Int64.toInt hsorted
  have hprev := prev_page h q' (showI64 last) newest
  rw [habove] at hprev
  have hback : backward s auth id fuel q = (q', pageOf q' (newest :: tail)) ::
      follow (getListAccounts s auth id) Links.prev fuel (linkHeader q' (showI64 newest) (showI64 last)).prev := by
    unfold backward
    rw [hlast]
    simp only
    rw [links_append q' newest start tail last hpage, Option.map_some, Option.elim_some]
  rw [hback]
  cases fuel with
  | zero => omega
  | succ fuel =>
      rw [follow, hprev]
      refine ⟨newest, showI64 last, _, rfl, habove, ?_⟩
      cases above with
      | nil =>
          intro read hread
          rw [List.take_nil, links_nil] at hread
          cases hread
      | cons top above =>
          obtain ⟨start', last', hpage'⟩ : ∃ start last, top :: above.take 39 = start ++ [last] :=
            ⟨_, _, (List.dropLast_append_getLast (List.cons_ne_nil _ _)).symm⟩
          rw [List.take_succ_cons, links_append _ top start' (above.take 39) last' hpage',
            Option.map_some, Option.elim_some]
          exact follow_top h fuel _ (showI64 last') hall

theorem flatMap_empty {reads : List (Query × Page Int64)}
    (h : ∀ read ∈ reads, read.2.rows = [] ∧ Adjacent s id read) :
    reads.flatMap (·.2.rows) = [] :=
  List.flatMap_eq_nil_iff.mpr fun read hread => (h read hread).1

theorem exhaustive_iff_above (h : Allowed s auth id) {fuel : ℕ} {q' : Query}
    {above page : List Int64} (hne : page ≠ []) (hall : members s id = above ++ page)
    (hfuel : (members s id).length < fuel)
    (hlast : ((forward s auth id fuel q).filter (·.2.links.isSome)).getLast? =
      some (q', pageOf q' page))
    (hmin : param q' "min_id" = none)
    (hread : (forward s auth id fuel q).flatMap (·.2.rows) = members s id) :
    Exhaustive s auth id fuel q ↔ above.length ≤ 40 := by
  obtain ⟨newest, oldest, rest, hback, hnewest, hrest⟩ := backward_eq h hne hall hfuel hlast
  have hpages : (backward s auth id fuel q).flatMap (·.2.rows) = page ++ above.take 40 := by
    rw [hback, List.flatMap_cons, List.flatMap_cons, flatMap_empty hrest, List.append_nil]
    rfl
  constructor
  · intro hex
    have hlen := hex.backward.length_eq
    rw [hpages, hall, List.length_append, List.length_append, List.length_take] at hlen
    omega
  · intro hle
    refine ⟨by rw [hread], ?_, ?_⟩
    · rw [hpages, hall, List.take_of_length_le hle]
      exact List.perm_append_comm
    · rw [hback]
      intro read hmem
      rcases List.mem_cons.mp hmem with rfl | hmem
      · intro m hm
        rw [hmin] at hm
        cases hm
      · rcases List.mem_cons.mp hmem with rfl | hmem
        · intro m hm
          rw [minId_prev, Option.some.injEq] at hm
          have hlimit := limit_link q' (by decide : "limit" ≠ "min_id") (showI64 newest) 40 80
          simp only [← hm, hnewest]
          rw [linkHeader, hlimit]
          rw [show (max (min 40 80) 1 : ℤ).toNat = 40 by decide,
            show above.length - 40 = 0 by omega, List.drop_zero]
          exact List.take_of_length_le hle
        · exact (hrest read hmem).2

/-! ### Exhaustive paging -/

theorem exhaustive_iff_length (h : Allowed s auth id) {limit fuel : ℕ} (hlimit : 0 < limit)
    (hq : getListAccounts s auth id q = .ok (pageOf q ((members s id).take limit)))
    (hmin : param q "min_id" = none) (hfuel : (members s id).length < fuel) :
    Exhaustive s auth id fuel q ↔
      (members s id).length ≤ limit ∨ limit ≤ 40 ∧ (members s id).length ≤ limit + 40 := by
  obtain ⟨hread, hend⟩ := follow_next h fuel q (List.nil_append (members s id)).symm
    hlimit hq hmin hfuel
  by_cases hmembers : members s id = []
  · have hback : backward s auth id fuel q = [] := by
      unfold backward forward
      cases fuel with
      | zero => rfl
      | succ fuel =>
          rw [follow, hq, hmembers, List.take_nil]
          rfl
    apply iff_of_true
    · refine ⟨by rw [hread], by rw [hback, hmembers]; rfl, ?_⟩
      rw [hback]
      intro read hread
      cases hread
    · rw [hmembers]
      exact Or.inl (Nat.zero_le limit)
  · obtain ⟨q', above, page, hne, hmin', hall, hlast, hat⟩ := hend hmembers
    rw [exhaustive_iff_above h hne hall hfuel hlast hmin' hread]
    by_cases hone : (members s id).length ≤ limit
    · rw [hat.within hone]
      simp [hone]
    · by_cases htwo : (members s id).length ≤ limit + 40
      · rw [hat.second (by omega) htwo, List.length_nil]
        omega
      · have := hat.later (by omega)
        omega

theorem first_page (h : Allowed s auth id) (hlimited : param q "limit" ≠ some ['0'])
    (hfirst : ∀ name ∈ ["max_id", "since_id", "min_id"], param q name = none) :
    getListAccounts s auth id q =
      .ok (pageOf q ((members s id).take (limitClamped q 40 80).toNat)) := by
  have hwithin : within q = fun _ => true := by
    funext a
    unfold within
    rw [hfirst "max_id" (by simp), hfirst "since_id" (by simp), hfirst "min_id" (by simp)]
    rfl
  rw [getListAccounts_eq h hlimited, hwithin, List.filter_true]

def listOf (n : ℕ) (h : ((List.range n).map fun i => Int64.ofNat (i + 1)).Nodup) : Store where
  lists := [⟨1, 7⟩]
  accounts := (List.range n).map fun i => Int64.ofNat (i + 1)
  follows := []
  followRequests := []
  listAccounts := ((List.range n).map fun i => Int64.ofNat (i + 1)).map fun a => ⟨1, a, none, none⟩
  accounts_nodup := h
  keys_nodup := by
    rw [List.map_map]
    exact h.map fun a b hab => congrArg Prod.fst hab

theorem length_members (s : Store) (id : Int64) : (members s id).length = (joined s id).length :=
  List.length_mergeSort _

def reader : Auth where
  accountId := 7
  scopes := ["read"]

example : limitClamped [("limit", "100".toList)] 40 80 = 80 := by decide +kernel

end Eunha.ListPages
