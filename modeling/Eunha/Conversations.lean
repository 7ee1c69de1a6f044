import Eunha.AccountLists
import Eunha.Pagination
import Mathlib

/-!
# Paging conversations

An account's conversations are read newest last status first, those without one last, a page at
a time. The last status is the cursor, though conversations may share one or have none: the bound
leaves out all that share it, and all that have none.
-/
namespace Eunha.Conversations
open SignedIds Scopes AccountLists Pagination
open Roles (AppError)

/-- A row of `account_conversations`. -/
structure ConvRow where
  id : Int64
  accountId : Int64
  unread : Bool
  participantAccountIds : List Int64
  lastStatusId : Option Int64
  deriving DecidableEq

/-! ### Pages -/

/-- An order of statuses, with those that have none last. -/
def nullsLast (le : ℤ → ℤ → Bool) (c d : ConvRow) : Bool :=
  match c.lastStatusId, d.lastStatusId with
  | some a, some b => le a.toInt b.toInt
  | _, none => true
  | none, some _ => false

def ofAccount (rows : List ConvRow) (accountId : Int64) : List ConvRow :=
  rows.filter fun c => c.accountId = accountId

/-- `ORDER BY last_status_id DESC NULLS LAST` -/
def newestFirst (rows : List ConvRow) (accountId : Int64) : List ConvRow :=
  (ofAccount rows accountId).mergeSort (nullsLast fun a b => b ≤ a)

/-- `ORDER BY last_status_id ASC NULLS LAST` -/
def oldestFirst (rows : List ConvRow) (accountId : Int64) : List ConvRow :=
  (ofAccount rows accountId).mergeSort (nullsLast fun a b => a ≤ b)

def below (bound : Option Int64) (c : ConvRow) : Bool :=
  bound.all fun m => c.lastStatusId.any fun k => k.toInt < m.toInt

def above (bound : Option Int64) (c : ConvRow) : Bool :=
  bound.all fun m => c.lastStatusId.any fun k => m.toInt < k.toInt

def pageOf (q : Query) (page : List ConvRow) : Page ConvRow where
  rows := page
  links := linkHeaders q (match page.head?.bind ConvRow.lastStatusId,
      page.getLast?.bind ConvRow.lastStatusId with
    | some newest, some oldest => some (showI64 newest, showI64 oldest)
    | _, _ => none)

def getConversations (rows : List ConvRow) (auth : Auth) (q : Query) :
    Except AppError (Page ConvRow) :=
  if hasScope auth.scopes "read:statuses" = false then .error .forbiddenScope
  else
    let limit := (limitClamped q 20 40).toNat
    let maxId := (param q "max_id").bind parseI64
    let sinceId := (param q "since_id").bind parseI64
    let minId := (param q "min_id").bind parseI64
    let page :=
      if minId.isSome then
        (((oldestFirst rows auth.accountId).filter (above minId)).take limit).reverse
      else
        ((newestFirst rows auth.accountId).filter fun c => below maxId c && above sinceId c).take limit
    .ok (pageOf q page)

/-! ### Following links -/

/-- Both ways of following links read every row once, in the order of one read. -/
structure Exhaustive (rows : List ConvRow) (auth : Auth) (q : Query) (m : Int64) (fuel : ℕ) :
    Prop where
  forward : (follow (getConversations rows auth) Links.next fuel q).flatMap (·.2.rows) =
    newestFirst rows auth.accountId
  backward : (follow (getConversations rows auth) Links.prev fuel
      (("min_id", showI64 m) :: q)).flatMap (·.2.rows.reverse) = oldestFirst rows auth.accountId

def key (c : ConvRow) : ℤ := (c.lastStatusId.map Int64.toInt).getD 0

/-- Neither the first page nor a page after it ends between two rows of one last status. -/
def EndApart (limit : ℕ) (rows : List ConvRow) : Prop :=
  (∀ a b, rows[limit - 1]? = some a → rows[limit]? = some b → key a ≠ key b) ∧
    Cursors.EndsApart key 20 (rows.drop limit)

def Keyed (rows : List ConvRow) (accountId : Int64) : Prop :=
  ∀ c ∈ ofAccount rows accountId, c.lastStatusId.isSome = true

variable {rows : List ConvRow} {auth : Auth} {q : Query} {m : Int64}

theorem key_eq {c : ConvRow} (h : c.lastStatusId.isSome = true) :
    ∃ k, c.lastStatusId = some k ∧ key c = k.toInt := by
  obtain ⟨k, hk⟩ := Option.isSome_iff_exists.mp h
  exact ⟨k, hk, by rw [key, hk]; rfl⟩

section
variable {le : ℤ → ℤ → Bool}

theorem nullsLast_total (h : ∀ a b, (le a b || le b a) = true) (c d : ConvRow) :
    (nullsLast le c d || nullsLast le d c) = true := by
  unfold nullsLast
  cases c.lastStatusId <;> cases d.lastStatusId <;> simp_all

theorem nullsLast_trans (h : ∀ a b c, le a b = true → le b c = true → le a c = true)
    (c d e : ConvRow) (hcd : nullsLast le c d = true) (hde : nullsLast le d e = true) :
    nullsLast le c e = true := by
  unfold nullsLast at hcd hde ⊢
  cases hc : c.lastStatusId with
  | none =>
      cases hd : d.lastStatusId with
      | none =>
          rw [hc, hd] at hcd
          rw [hd] at hde
          exact hde
      | some b =>
          rw [hc, hd] at hcd
          cases hcd
  | some a =>
      cases he : e.lastStatusId with
      | none => rfl
      | some k =>
          cases hd : d.lastStatusId with
          | none =>
              rw [hd, he] at hde
              cases hde
          | some b =>
              rw [hc, hd] at hcd
              rw [hd, he] at hde
              exact h _ _ _ hcd hde

variable (le) in
theorem sorted_of_keyed (htotal : ∀ a b, (le a b || le b a) = true)
    (htrans : ∀ a b c, le a b = true → le b c = true → le a c = true) {accountId : Int64}
    (h : Keyed rows accountId) :
    ((ofAccount rows accountId).mergeSort (nullsLast le)).Pairwise
      fun c d => le (key c) (key d) = true := by
  have hsorted := List.pairwise_mergeSort (nullsLast_trans htrans) (nullsLast_total htotal)
    (ofAccount rows accountId)
  refine hsorted.imp_of_mem fun {c d} hc hd hcd => ?_
  obtain ⟨a, ha, hka⟩ := key_eq (h c (List.mem_mergeSort.mp hc))
  obtain ⟨b, hb, hkb⟩ := key_eq (h d (List.mem_mergeSort.mp hd))
  unfold nullsLast at hcd
  rw [ha, hb] at hcd
  rwa [hka, hkb]

end

/-! ### The pages of links -/

theorem shows_of_get {turn : List ConvRow → List ConvRow} {pick : Links → Query}
    {asks : Query → Option ℤ → Prop} {f : ConvRow → ℤ} {shown : List ConvRow}
    (hget : getConversations rows auth q = .ok (pageOf q (turn shown))) (hnil : turn [] = [])
    (hne : shown ≠ [] → turn shown ≠ [])
    (hkeyed : ∀ c ∈ turn shown, c.lastStatusId.isSome = true)
    (hpick : ∀ first last k k', (turn shown).head? = some first →
      (turn shown).getLast? = some last → first.lastStatusId = some k →
      last.lastStatusId = some k' → ∀ c, shown.getLast? = some c →
        asks (pick (linkHeader q (showI64 k) (showI64 k'))) (some (f c))) :
    Shows (getConversations rows auth) pick turn f asks q shown := by
  refine ⟨(pageOf q (turn shown)).links, hget, ?_, fun c hc => ?_⟩
  · rintro rfl
    rw [hnil]
    rfl
  · have hshown : shown ≠ [] := by
      rintro rfl
      cases hc
    have hfirst := List.head?_eq_some_head (hne hshown)
    have hlast := List.getLast?_eq_some_getLast (hne hshown)
    obtain ⟨k, hk, -⟩ := key_eq (hkeyed _ (List.head_mem (hne hshown)))
    obtain ⟨k', hk', -⟩ := key_eq (hkeyed _ (List.getLast_mem (hne hshown)))
    refine ⟨_, ?_, hpick _ _ k k' hfirst hlast hk hk' c hc⟩
    unfold pageOf
    simp only [hfirst, hlast, Option.bind_some, hk, hk', linkHeaders, Option.map_some]

def AsksBelow (q : Query) (bound : Option ℤ) : Prop :=
  (param q "min_id").bind parseI64 = none ∧ (param q "since_id").bind parseI64 = none ∧
    ((param q "max_id").bind parseI64).map Int64.toInt = bound ∧ limitClamped q 20 40 = 20

def AsksAbove (q : Query) (bound : Option ℤ) : Prop :=
  (∃ m, (param q "min_id").bind parseI64 = some m ∧ bound = some (-m.toInt)) ∧
    limitClamped q 20 40 = 20

def up (c : ConvRow) : ℤ := -key c

section
variable (hkeyed : Keyed rows auth.accountId)
  (hscope : hasScope auth.scopes "read:statuses" = true)
include hkeyed hscope

theorem shows_below {limit : ℕ} {bound : Option ℤ}
    (hmin : (param q "min_id").bind parseI64 = none)
    (hsince : (param q "since_id").bind parseI64 = none)
    (hmax : ((param q "max_id").bind parseI64).map Int64.toInt = bound)
    (hlimit : (limitClamped q 20 40).toNat = limit) :
    Shows (getConversations rows auth) Links.next id key AsksBelow q
      (Cursors.page key limit bound (newestFirst rows auth.accountId)) := by
  have hrow : ∀ c ∈ newestFirst rows auth.accountId, c.lastStatusId.isSome = true :=
    fun c hc => hkeyed c (List.mem_mergeSort.mp hc)
  have hfilter : ((newestFirst rows auth.accountId).filter fun c =>
      below ((param q "max_id").bind parseI64) c && above none c) =
        Cursors.below key bound (newestFirst rows auth.accountId) := by
    refine List.filter_congr fun c hc => ?_
    obtain ⟨k, hk, hkey⟩ := key_eq (hrow c hc)
    rw [← hmax]
    cases (param q "max_id").bind parseI64 with
    | none => rfl
    | some m => simp [below, above, hk, hkey]
  refine shows_of_get ?_ rfl id (fun c hc => ?_) fun first last k k' _ hlast _ hk' c hc => ?_
  · unfold getConversations
    rw [if_neg (by simp [hscope])]
    simp only [hmin, hsince, Option.isSome_none, Bool.false_eq_true, if_false, hfilter, hlimit]
    rfl
  · exact hrow c (List.mem_of_mem_filter (List.mem_of_mem_take hc))
  · have hkey : key c = k'.toInt := by
      rw [id, hc, Option.some.injEq] at hlast
      rw [hlast, key, hk']
      rfl
    unfold linkHeader AsksBelow
    rw [param_link (by decide), param_link (by decide), param_link (by decide), if_pos rfl,
      if_neg (by decide), if_neg (by decide), Option.bind_some, parseI64_showI64, hkey,
      limit_link q (by decide)]
    exact ⟨rfl, rfl, rfl, rfl⟩

theorem shows_above {limit : ℕ} (hmin : (param q "min_id").bind parseI64 = some m)
    (hlimit : (limitClamped q 20 40).toNat = limit) :
    Shows (getConversations rows auth) Links.prev List.reverse up AsksAbove q
      (Cursors.page up limit (some (-m.toInt)) (oldestFirst rows auth.accountId)) := by
  have hrow : ∀ c ∈ oldestFirst rows auth.accountId, c.lastStatusId.isSome = true :=
    fun c hc => hkeyed c (List.mem_mergeSort.mp hc)
  have hfilter : (oldestFirst rows auth.accountId).filter (above (some m)) =
      Cursors.below up (some (-m.toInt)) (oldestFirst rows auth.accountId) := by
    refine List.filter_congr fun c hc => ?_
    obtain ⟨k, hk, hkey⟩ := key_eq (hrow c hc)
    simp [above, up, hk, hkey]
  refine shows_of_get ?_ rfl (fun h => mt List.reverse_eq_nil_iff.mp h) (fun c hc => ?_)
    fun first last k k' hfirst _ hk _ c hc => ?_
  · unfold getConversations
    rw [if_neg (by simp [hscope])]
    simp only [hmin, Option.isSome_some, if_true, hfilter, hlimit]
    rfl
  · exact hrow c (List.mem_of_mem_filter (List.mem_of_mem_take (List.mem_reverse.mp hc)))
  · have hup : up c = -k.toInt := by
      rw [List.head?_reverse, hc, Option.some.injEq] at hfirst
      rw [hfirst, up, key, hk]
      rfl
    unfold linkHeader AsksAbove
    rw [param_link (by decide), if_pos rfl, Option.bind_some, parseI64_showI64, hup,
      limit_link q (by decide)]
    exact ⟨⟨k, rfl, rfl⟩, rfl⟩

end

/-! ### Exhaustive paging -/

/-- A first request: nothing pages but a limit. -/
def First (q : Query) : Prop := ∀ name ∈ ["max_id", "since_id", "min_id"], param q name = none

theorem forward_iff (hkeyed : Keyed rows auth.accountId)
    (hscope : hasScope auth.scopes "read:statuses" = true) (hfirst : First q) {fuel : ℕ}
    (hfuel : rows.length < fuel) :
    (follow (getConversations rows auth) Links.next fuel q).flatMap (·.2.rows) =
        newestFirst rows auth.accountId ↔
      EndApart (limitClamped q 20 40).toNat (newestFirst rows auth.accountId) := by
  have hlimit : 1 ≤ limitClamped q 20 40 := le_max_right _ _
  have hsorted : (newestFirst rows auth.accountId).Pairwise fun c d => key d ≤ key c := by
    have hpairs := sorted_of_keyed (fun a b => b ≤ a)
      (fun a b => by simpa using le_total b a)
      (fun a b c hab hbc => by simp only [decide_eq_true_eq] at *; omega) hkeyed
    exact hpairs.imp fun h => of_decide_eq_true h
  have hlength : (newestFirst rows auth.accountId).length < fuel := by
    unfold newestFirst ofAccount
    rw [List.length_mergeSort]
    exact (List.length_filter_le _ _).trans_lt hfuel
  have hshows : Shows (getConversations rows auth) Links.next id key AsksBelow q
      (Cursors.page key (limitClamped q 20 40).toNat none (newestFirst rows auth.accountId)) :=
    shows_below hkeyed hscope (by rw [hfirst "min_id" (by simp)]; rfl)
      (by rw [hfirst "since_id" (by simp)]; rfl) (by rw [hfirst "max_id" (by simp)]; rfl) rfl
  rw [Cursors.page, Cursors.below_none] at hshows
  exact follow_eq_iff
    (fun q bound h => shows_below hkeyed hscope h.1 h.2.1 h.2.2.1 (by rw [h.2.2.2]; rfl))
    (fun _ => rfl) rfl hsorted (by omega) (by decide : 0 < 20) hshows hlength

theorem up_ne_iff {c d : ConvRow} : up c ≠ up d ↔ key c ≠ key d := by
  unfold up
  exact neg_inj.not

theorem backward_iff (hkeyed : Keyed rows auth.accountId)
    (hscope : hasScope auth.scopes "read:statuses" = true)
    (hm : ∀ c ∈ ofAccount rows auth.accountId, m.toInt < key c) {fuel : ℕ}
    (hfuel : rows.length < fuel) :
    (follow (getConversations rows auth) Links.prev fuel
        (("min_id", showI64 m) :: q)).flatMap (·.2.rows.reverse) =
        oldestFirst rows auth.accountId ↔
      EndApart (limitClamped q 20 40).toNat (oldestFirst rows auth.accountId) := by
  have hlimit : 1 ≤ limitClamped q 20 40 := le_max_right _ _
  have hsorted : (oldestFirst rows auth.accountId).Pairwise fun c d => up d ≤ up c := by
    have hpairs := sorted_of_keyed (fun a b => a ≤ b)
      (fun a b => by simpa using le_total a b)
      (fun a b c hab hbc => by simp only [decide_eq_true_eq] at *; omega) hkeyed
    exact hpairs.imp fun h => neg_le_neg (of_decide_eq_true h)
  have hlength : (oldestFirst rows auth.accountId).length < fuel := by
    unfold oldestFirst ofAccount
    rw [List.length_mergeSort]
    exact (List.length_filter_le _ _).trans_lt hfuel
  have hall : Cursors.below up (some (-m.toInt)) (oldestFirst rows auth.accountId) =
      oldestFirst rows auth.accountId := by
    refine List.filter_eq_self.mpr fun c hc => ?_
    exact decide_eq_true (neg_lt_neg (hm c (List.mem_mergeSort.mp hc)))
  have hshows := shows_above hkeyed hscope (q := ("min_id", showI64 m) :: q) (m := m)
    (parseI64_showI64 m) rfl
  rw [Cursors.page, hall] at hshows
  have hsame : (limitClamped (("min_id", showI64 m) :: q) 20 40) = limitClamped q 20 40 := rfl
  rw [hsame] at hshows
  have hasks : ∀ q bound, AsksAbove q bound →
      Shows (getConversations rows auth) Links.prev List.reverse up AsksAbove q
        (Cursors.page up 20 bound (oldestFirst rows auth.accountId)) := by
    rintro q bound ⟨⟨k, hk, rfl⟩, hq⟩
    exact shows_above hkeyed hscope hk (by rw [hq]; rfl)
  rw [follow_eq_iff hasks (fun l => List.reverse_reverse l) rfl hsorted (by omega) (by decide)
    hshows hlength]
  unfold EndApart Cursors.EndsApart
  simp only [up_ne_iff]

theorem keyed_of_backward (hscope : hasScope auth.scopes "read:statuses" = true) (fuel : ℕ) :
    ∀ {q : Query} {m : Int64}, (param q "min_id").bind parseI64 = some m →
      ∀ c ∈ (follow (getConversations rows auth) Links.prev fuel q).flatMap (·.2.rows.reverse),
        c.lastStatusId.isSome = true := by
  induction fuel with
  | zero =>
      intro q m _ c hc
      cases hc
  | succ fuel ih =>
      intro q m hmin c hc
      have hget : getConversations rows auth q = .ok (pageOf q
          (((oldestFirst rows auth.accountId).filter (above (some m))).take
            (limitClamped q 20 40).toNat).reverse) := by
        unfold getConversations
        rw [if_neg (by simp [hscope])]
        simp only [hmin, Option.isSome_some, if_true]
      rw [follow, hget, List.flatMap_cons, List.mem_append] at hc
      rcases hc with hc | hc
      · have hmem := List.mem_of_mem_take (List.mem_reverse.mp (List.mem_reverse.mp hc))
        have habove := (List.mem_filter.mp hmem).2
        unfold above at habove
        rw [Option.all_some] at habove
        cases hk : c.lastStatusId with
        | none =>
            rw [hk] at habove
            cases habove
        | some k => rfl
      · simp only [pageOf] at hc
        split at hc
        next newest oldest _ _ =>
          refine ih (m := newest) ?_ c hc
          unfold linkHeader
          rw [param_link (by decide), if_pos rfl, Option.bind_some, parseI64_showI64]
        next => cases hc

theorem keyed_of_exhaustive (hscope : hasScope auth.scopes "read:statuses" = true) {fuel : ℕ}
    (h : Exhaustive rows auth q m fuel) : Keyed rows auth.accountId := by
  intro c hc
  have hmin : (param (("min_id", showI64 m) :: q) "min_id").bind parseI64 = some m :=
    parseI64_showI64 m
  have hread : c ∈ (follow (getConversations rows auth) Links.prev fuel
      (("min_id", showI64 m) :: q)).flatMap (·.2.rows.reverse) := by
    rw [h.backward]
    exact List.mem_mergeSort.mpr hc
  exact keyed_of_backward hscope fuel hmin c hread

def reader : Auth where
  accountId := 7
  scopes := ["read"]

theorem endApart_one (c : ConvRow) : EndApart 1 [c] := by
  refine ⟨fun a b _ hb => ?_, fun i a b _ ha => ?_⟩
  · simp at hb
  · simp at ha

end Eunha.Conversations
