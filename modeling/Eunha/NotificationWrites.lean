import Eunha.Interleaving
import Mathlib

/-!
# Writing a notification

A call decides what becomes of a notification, finds what it is about, deletes the earlier ones
when it is an update, looks for one that is there already, takes a group key and inserts a row.
Each of these is a statement of its own, and the calls of several workers may take their turns in
any order. A statement may fail: a failed look is taken for one that found nothing.

What the policy, the tables of quotes and follows, and Redis answer is given with each statement.
The inserts are kept in a log of their own, so that a call can be told of what was inserted since
it looked; what comes after the insert writes no notification.
-/
namespace Eunha.NotificationWrites
open Interleaving Runs

/-! ### The model -/

inductive ActivityType where
  | status | quote | follow | followRequest
  deriving DecidableEq

/-- Whom a notification is for, whom it is from, and what it is about. -/
structure Key where
  accountId : ℤ
  fromAccountId : ℤ
  type : String
  activityType : ActivityType
  activityId : ℤ
  deriving DecidableEq

/-- A row of `notifications`. -/
structure Row where
  key : Key
  groupKey : Option String
  filtered : Bool
  deriving DecidableEq

structure Store where
  rows : List Row := []
  inserts : List Key := []

structure Request where
  recipientId : ℤ
  fromAccountId : ℤ
  notificationType : String
  statusId : Option ℤ

/-- `notification_policy::decide` -/
inductive Decision where
  | drop | filter | deliver

/-- What a statement is answered: the policy, an id that is looked up, a group key, or an error. -/
structure Answer where
  decision : Decision := .deliver
  found : Option ℤ := none
  groupKey : Option String := none
  fails : Bool := false

/-- Where a call is. Once it has looked, it keeps whether that went well, and the inserts then. -/
inductive Phase where
  | decide
  | activity (filtered : Bool)
  | delete (filtered : Bool) (key : Key)
  | select (filtered : Bool) (key : Key)
  | group (filtered : Bool) (key : Key) (looked : Bool) (seen : ℕ)
  | insert (row : Row) (looked : Bool) (seen : ℕ)

structure Call where
  request : Request
  phase : Phase

def notificationActivity (r : Request) (found : Option ℤ) : Option (ActivityType × ℤ) :=
  if r.notificationType = "quote" then
    r.statusId.bind fun _ => found.map fun id => (.quote, id)
  else
    match r.statusId with
    | some id => some (.status, id)
    | none =>
        if r.notificationType = "follow" then found.map fun id => (.follow, id)
        else if r.notificationType = "follow_request" then
          found.map fun id => (.followRequest, id)
        else none

/-- An `update` or `quoted_update` replaces the earlier ones about the same status. -/
def replaces (type : String) : Bool := type = "update" || type = "quoted_update"

/-- What the DELETE takes with it: what is for the recipient, from anyone. -/
def Key.replacedBy (k old : Key) : Bool :=
  old.accountId = k.accountId && old.type = k.type && old.activityType = k.activityType &&
    old.activityId = k.activityId

def Key.sameAs (k old : Key) : Bool :=
  old.accountId = k.accountId && old.fromAccountId = k.fromAccountId && old.type = k.type &&
    old.activityId = k.activityId

def Store.insertsOf (s : Store) (k : Key) : ℕ := s.inserts.count k

def Store.insert (s : Store) (row : Row) : Store where
  rows := s.rows ++ [row]
  inserts := row.key :: s.inserts

def keyOf (r : Request) (activity : ActivityType × ℤ) : Key :=
  ⟨r.recipientId, r.fromAccountId, r.notificationType, activity.1, activity.2⟩

/-- The next statement of `create_and_push`. -/
def exec (s : Store) (c : Call) (w : Answer) : Store × Option Call :=
  match c.phase with
  | .decide =>
      match w.decision with
      | .drop => (s, none)
      | .filter => (s, some { c with phase := .activity true })
      | .deliver => (s, some { c with phase := .activity false })
  | .activity filtered =>
      match notificationActivity c.request (if w.fails then none else w.found) with
      | none => (s, none)
      | some activity =>
          let key := keyOf c.request activity
          if replaces c.request.notificationType then
            (s, some { c with phase := .delete filtered key })
          else (s, some { c with phase := .select filtered key })
  | .delete filtered key =>
      (if w.fails then s else { s with rows := s.rows.filter fun r => !key.replacedBy r.key },
        some { c with phase := .select filtered key })
  | .select filtered key =>
      if !w.fails && s.rows.any fun r => key.sameAs r.key then (s, none)
      else (s, some { c with phase := .group filtered key (!w.fails) (s.insertsOf key) })
  | .group filtered key looked seen =>
      (s, some { c with phase := .insert ⟨key, w.groupKey, filtered⟩ looked seen })
  | .insert row _ _ => (if w.fails then s else s.insert row, none)

def machine : Machine Store Call Request Answer where
  enter := fun s r => (s, some ⟨r, .decide⟩)
  exec := exec

/-! ### Written once -/

def Store.count (s : Store) (k : Key) : ℕ := (s.rows.map Row.key).count k

def AtMostOne (s : Store) : Prop := ∀ k, s.count k ≤ 1

/-- At most one row of each kind, and exactly one when one has just been inserted. -/
structure WrittenOnce (before after : Store) : Prop where
  atMostOne : AtMostOne after
  exactlyOne : ∀ k, after.inserts = k :: before.inserts → after.count k = 1

/-- What an insert relies on: the look went well, and nothing of the kind came in since. -/
def undisturbed (s : Store) (c : Call) (w : Answer) : Prop :=
  match c.phase with
  | .insert row looked seen =>
      w.fails = false → looked = true ∧ s.insertsOf row.key = seen
  | _ => True

def guards : Guards Store Call Request Answer where
  request := fun _ _ _ => True
  statement := fun s c _ w => undisturbed s c w

/-! ### The invariant -/

def Call.Knows (s : Store) (c : Call) : Prop :=
  match c.phase with
  | .group _ key looked seen =>
      seen ≤ s.insertsOf key ∧ (looked = true → s.insertsOf key = seen → s.count key = 0)
  | .insert row looked seen =>
      seen ≤ s.insertsOf row.key ∧
        (looked = true → s.insertsOf row.key = seen → s.count row.key = 0)
  | _ => True

structure Inv (s : Store) (calls : List Call) : Prop where
  atMostOne : AtMostOne s
  knows : ∀ c ∈ calls, c.Knows s

/-- The store has no row more of a kind unless one of that kind was inserted. -/
structure Later (s s' : Store) : Prop where
  inserts : ∀ k, s.insertsOf k ≤ s'.insertsOf k
  rows : ∀ k, s'.insertsOf k = s.insertsOf k → s'.count k ≤ s.count k

theorem Later.refl (s : Store) : Later s s := ⟨fun _ => le_rfl, fun _ _ => le_rfl⟩

theorem later_delete (s : Store) (p : Row → Bool) :
    Later s { s with rows := s.rows.filter p } where
  inserts := fun _ => le_rfl
  rows := fun k _ => (List.filter_sublist.map Row.key).count_le k

theorem count_insert (s : Store) (row : Row) (k : Key) :
    (s.insert row).count k = s.count k + if row.key = k then 1 else 0 := by
  rw [Store.count, Store.insert, List.map_append, List.count_append, Store.count,
    List.map_singleton, List.count_singleton]
  simp only [beq_iff_eq]

theorem insertsOf_insert (s : Store) (row : Row) (k : Key) :
    (s.insert row).insertsOf k = s.insertsOf k + if row.key = k then 1 else 0 := by
  rw [Store.insertsOf, Store.insert, List.count_cons, Store.insertsOf]
  simp only [beq_iff_eq]

theorem later_insert (s : Store) (row : Row) : Later s (s.insert row) where
  inserts := fun k => by
    rw [insertsOf_insert]
    omega
  rows := by
    intro k h
    rw [insertsOf_insert] at h
    rw [count_insert]
    omega

theorem Call.Knows.later {s s' : Store} (h : Later s s') {c : Call} (hc : c.Knows s) :
    c.Knows s' := by
  obtain ⟨request, phase⟩ := c
  have hkey : ∀ (key : Key) (looked : Bool) (seen : ℕ),
      (seen ≤ s.insertsOf key ∧ (looked = true → s.insertsOf key = seen → s.count key = 0)) →
      seen ≤ s'.insertsOf key ∧
        (looked = true → s'.insertsOf key = seen → s'.count key = 0) := by
    rintro key looked seen ⟨hseen, hnone⟩
    have hle := h.inserts key
    refine ⟨hseen.trans hle, fun hlooked heq => ?_⟩
    have hsame : s.insertsOf key = seen := by omega
    have hcount := h.rows key (heq.trans hsame.symm)
    rw [hnone hlooked hsame] at hcount
    exact Nat.le_zero.mp hcount
  cases phase with
  | decide => trivial
  | activity filtered => trivial
  | delete filtered key => trivial
  | select filtered key => trivial
  | group filtered key looked seen => exact hkey key looked seen hc
  | insert row looked seen => exact hkey row.key looked seen hc

theorem atMostOne_delete {s : Store} (h : AtMostOne s) (p : Row → Bool) :
    AtMostOne { s with rows := s.rows.filter p } :=
  fun k => ((later_delete s p).rows k rfl).trans (h k)

theorem inv_next {s s' : Store} {c : Call} {calls : List Call} (h : Inv s (c :: calls))
    (hlater : Later s s') (hone : AtMostOne s') (next : Option Call)
    (hnext : ∀ c', next = some c' → c'.Knows s') : Inv s' (next.toList ++ calls) where
  atMostOne := hone
  knows := by
    intro c' hc'
    rcases List.mem_append.mp hc' with hmem | hmem
    · exact hnext c' (Option.mem_toList.mp hmem)
    · exact (h.knows c' (List.mem_cons_of_mem c hmem)).later hlater

theorem sameAs_self (k : Key) : k.sameAs k = true := by simp [Key.sameAs]

theorem count_eq_zero_of_select {s : Store} {key : Key}
    (h : (s.rows.any fun r => key.sameAs r.key) = false) : s.count key = 0 := by
  rw [Store.count, List.count_eq_zero]
  intro hmem
  obtain ⟨r, hr, hkey⟩ := List.mem_map.mp hmem
  have hnot := List.any_eq_false.mp h r hr
  rw [hkey] at hnot
  exact hnot (sameAs_self key)

theorem inv_exec {s : Store} {c : Call} {calls : List Call} (w : Answer)
    (h : Inv s (c :: calls)) (hg : undisturbed s c w) :
    Inv (exec s c w).1 ((exec s c w).2.toList ++ calls) := by
  have hknows : c.Knows s := h.knows c List.mem_cons_self
  obtain ⟨request, phase⟩ := c
  cases phase with
  | decide =>
      refine inv_next h ?_ ?_ _ ?_
      · rw [exec]
        cases w.decision <;> exact .refl s
      · rw [exec]
        cases w.decision <;> exact h.atMostOne
      · intro c' hc'
        rw [exec] at hc'
        cases hw : w.decision with
        | drop =>
            rw [hw] at hc'
            cases hc'
        | filter =>
            rw [hw] at hc'
            obtain rfl := Option.some.inj hc'
            trivial
        | deliver =>
            rw [hw] at hc'
            obtain rfl := Option.some.inj hc'
            trivial
  | activity filtered =>
      rw [exec]
      cases notificationActivity request (if w.fails then none else w.found) with
      | none => exact inv_next h (.refl s) h.atMostOne none fun c' hc' => by cases hc'
      | some activity =>
          cases hreplaces : replaces request.notificationType with
          | true =>
              simp only [if_true]
              refine inv_next h (.refl s) h.atMostOne (some _) fun c' hc' => ?_
              obtain rfl := Option.some.inj hc'
              trivial
          | false =>
              simp only [Bool.false_eq_true, if_false]
              refine inv_next h (.refl s) h.atMostOne (some _) fun c' hc' => ?_
              obtain rfl := Option.some.inj hc'
              trivial
  | delete filtered key =>
      rw [exec]
      cases w.fails with
      | true =>
          refine inv_next h (.refl s) h.atMostOne (some _) fun c' hc' => ?_
          obtain rfl := Option.some.inj hc'
          trivial
      | false =>
          refine inv_next h (later_delete s _) (atMostOne_delete h.atMostOne _) (some _)
            fun c' hc' => ?_
          obtain rfl := Option.some.inj hc'
          trivial
  | select filtered key =>
      rw [exec]
      cases hfound : (!w.fails && s.rows.any fun r => key.sameAs r.key) with
      | true =>
          simp only [hfound, if_true]
          exact inv_next h (.refl s) h.atMostOne none fun c' hc' => by cases hc'
      | false =>
          simp only [hfound, Bool.false_eq_true, if_false]
          refine inv_next h (.refl s) h.atMostOne (some _) fun c' hc' => ?_
          obtain rfl := Option.some.inj hc'
          refine ⟨le_rfl, fun hlooked _ => ?_⟩
          rw [hlooked, Bool.true_and] at hfound
          exact count_eq_zero_of_select hfound
  | group filtered key looked seen =>
      rw [exec]
      refine inv_next h (.refl s) h.atMostOne (some _) fun c' hc' => ?_
      obtain rfl := Option.some.inj hc'
      exact hknows
  | insert row looked seen =>
      rw [exec]
      cases hfails : w.fails with
      | true => exact inv_next h (.refl s) h.atMostOne none fun c' hc' => by cases hc'
      | false =>
          refine inv_next h (later_insert s row) ?_ none fun c' hc' => by cases hc'
          obtain ⟨hlooked, hseen⟩ := hg hfails
          intro k
          have hold := h.atMostOne k
          change (s.insert row).count k ≤ 1
          rw [count_insert]
          by_cases hk : row.key = k
          · have hzero := hknows.2 hlooked hseen
            rw [hk] at hzero
            rw [hzero, if_pos hk]
          · rw [if_neg hk]
            exact hold

theorem guarded_inv : GuardedInvariant machine Inv guards where
  perm := fun hperm h => ⟨h.atMostOne, fun c hc => h.knows c (hperm.mem_iff.mpr hc)⟩
  enter := by
    intro s calls r h _
    refine ⟨h.atMostOne, fun c hc => ?_⟩
    rcases List.mem_cons.mp hc with rfl | hmem
    · trivial
    · exact h.knows c hmem
  exec := fun w h hg => inv_exec w h hg

theorem inserts_exec {s : Store} {c : Call} {w : Answer} {k : Key}
    (h : (exec s c w).1.inserts = k :: s.inserts) : 1 ≤ (exec s c w).1.count k := by
  obtain ⟨request, phase⟩ := c
  have hsame : ∀ {s' : Store}, s'.inserts = s.inserts → s'.inserts ≠ k :: s.inserts :=
    fun hs' heq => absurd (hs'.symm.trans heq) (List.cons_ne_self _ _).symm
  cases phase with
  | decide =>
      refine absurd h (hsame ?_)
      rw [exec]
      cases w.decision <;> rfl
  | activity filtered =>
      refine absurd h (hsame ?_)
      rw [exec]
      cases notificationActivity request (if w.fails then none else w.found) with
      | none => rfl
      | some activity =>
          simp only
          cases replaces request.notificationType <;> rfl
  | delete filtered key =>
      refine absurd h (hsame ?_)
      rw [exec]
      cases w.fails <;> rfl
  | select filtered key =>
      refine absurd h (hsame ?_)
      simp only [exec]
      by_cases hfound : (!w.fails && s.rows.any fun r => key.sameAs r.key) = true
      · rw [if_pos hfound]
      · rw [if_neg hfound]
  | group filtered key looked seen => exact absurd h (hsame rfl)
  | insert row looked seen =>
      rw [exec] at h ⊢
      cases hfails : w.fails with
      | true =>
          rw [hfails] at h
          exact absurd h (hsame rfl)
      | false =>
          rw [hfails] at h
          obtain ⟨hk, -⟩ := List.cons.inj h
          change 1 ≤ (s.insert row).count k
          rw [count_insert, if_pos hk]
          omega

/-- Undisturbed from the look to the insert, no call writes what another has written. -/
theorem notification_written_once (s : Store) (h : AtMostOne s)
    (es : List (Event Request Answer)) (e : Event Request Answer)
    (hg : Guarded machine.step guards.meets ⟨s, []⟩ (es ++ [e])) :
    AtMostOne (run machine.step ⟨s, []⟩ es).store ∧
      WrittenOnce (run machine.step ⟨s, []⟩ es).store
        (run machine.step ⟨s, []⟩ (es ++ [e])).store := by
  have hstart : Inv s [] := ⟨h, fun c hc => by cases hc⟩
  have hbefore := guarded_inv.run ⟨s, []⟩ es hstart ((guarded_append _ _ _).mp hg).1
  have hafter := guarded_inv.run ⟨s, []⟩ (es ++ [e]) hstart hg
  refine ⟨hbefore.atMostOne, hafter.atMostOne, fun k hk => ?_⟩
  refine Nat.le_antisymm (hafter.atMostOne k) ?_
  rw [run_append, run_cons, run_nil] at hk ⊢
  generalize run machine.step ⟨s, []⟩ es = c at hk ⊢
  cases e with
  | request r => exact absurd hk (List.cons_ne_self _ _).symm
  | advance place w =>
      rw [Machine.step] at hk ⊢
      cases hcall : c.calls[place]? with
      | none =>
          rw [hcall] at hk
          exact absurd hk (List.cons_ne_self _ _).symm
      | some call =>
          rw [hcall] at hk
          exact inserts_exec hk

/-! ### Two workers -/

def favourite : Request := ⟨1, 2, "favourite", some 7⟩

def statements (place count : ℕ) : List (Event Request Answer) :=
  List.replicate count (.advance place {})

def bothLook : List (Event Request Answer) :=
  [.request favourite, .request favourite] ++ statements 0 3 ++ statements 1 3 ++
    statements 0 2 ++ statements 0 2

def favouriteKey : Key := ⟨1, 2, "favourite", .status, 7⟩

example : (run machine.step ⟨{}, []⟩ bothLook).store.rows.length = 2 := by decide +kernel

theorem favourite_written_twice : ¬ AtMostOne (run machine.step ⟨{}, []⟩ bothLook).store := by
  intro h
  have htwo : (run machine.step ⟨{}, []⟩ bothLook).store.count favouriteKey = 2 := by
    decide +kernel
  have hone := h favouriteKey
  omega

/-- A call that inserts alone. -/
def inTurn : List (Event Request Answer) := [.request favourite] ++ statements 0 4

theorem favourite_written_once :
    AtMostOne (run machine.step ⟨{}, []⟩ inTurn).store ∧
      WrittenOnce (run machine.step ⟨{}, []⟩ inTurn).store
        (run machine.step ⟨{}, []⟩ (inTurn ++ [.advance 0 {}])).store :=
  notification_written_once {} (fun _ => Nat.zero_le _) inTurn (.advance 0 {})
    (by simp [inTurn, statements, Guarded, guards, Guards.meets, undisturbed, machine,
      Machine.step, exec, notificationActivity, favourite, replaces, keyOf, replace,
      List.replicate, Store.insertsOf])

end Eunha.NotificationWrites
