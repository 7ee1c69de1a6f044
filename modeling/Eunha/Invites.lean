import Eunha.Interleaving
import Mathlib.Data.Int.Notation

/-!
# Sign-ups with an invite

A sign-up checks its invite, then much else, and inserts the user and counts the use in one
transaction. Sign-ups run statement by statement beside one another, while time passes and
the invite may be made to expire. The count is always right; the limit and the expiry hold
where no sign-up commits on a check that has gone stale.
-/
namespace Eunha.Invites
open Interleaving Runs

/-! ### The invite -/

structure Inviter where
  confirmed : Bool
  approved : Bool
  disabled : Bool
  suspended : Bool
  requestedDeletion : Bool
  memorial : Bool
  moved : Bool
  deriving DecidableEq

def Inviter.functional (i : Inviter) : Bool :=
  i.confirmed && i.approved && !i.disabled && !i.suspended && !i.requestedDeletion &&
    !i.memorial && !i.moved

structure Invite where
  code : String
  uses : ℕ
  maxUses : Option ℕ
  expiresAt : Option ℤ
  inviter : Inviter
  deriving DecidableEq

def Invite.maxed (invite : Invite) : Bool := invite.maxUses.any (· ≤ invite.uses)

def Invite.expired (invite : Invite) (now : ℤ) : Bool := invite.expiresAt.any (· < now)

/-- A user signed up with the invite, and when. -/
structure Creation where
  time : ℤ
  expiresAt : Option ℤ
  deriving DecidableEq

def Creation.late (c : Creation) : Bool := c.expiresAt.any (· < c.time)

structure Store where
  now : ℤ
  invite : Invite
  /-- A transaction holds the invite's row, having updated it. -/
  locked : Bool
  created : List Creation
  deriving DecidableEq

def Store.find (s : Store) (code : String) : Option Invite :=
  if s.invite.code = code then some s.invite else none

def validateInvite (s : Store) (code : String) : Except String Unit :=
  match s.find code with
  | none => .error "err_invalid_invite"
  | some invite =>
      if invite.maxed then .error "err_invite_maxed"
      else if invite.expired s.now then .error "err_invite_expired"
      else if !invite.inviter.functional then .error "err_invalid_invite"
      else .ok ()

/-! ### A sign-up, statement by statement -/

/-- What a statement is answered, besides what the store says: that it fails, or whether
the form passes what is checked of it. -/
structure Answer where
  fails : Bool
  passes : Bool
  deriving DecidableEq

inductive Stage where
  | find
  | validate (invited : Bool)
  | blocked (invited valid : Bool)
  | checks (invited : Bool)
  | insert (invited : Bool)
  | count
  | token (uses : Option ℕ)
  | commit (uses : Option ℕ)
  deriving DecidableEq

structure SignUp where
  code : String
  app : Bool
  stage : Stage
  deriving DecidableEq

def SignUp.go (c : SignUp) (stage : Stage) : Option SignUp := some { c with stage := stage }

/-- What the open transaction would set `uses` to, its row being locked. -/
def SignUp.pending (c : SignUp) : Option ℕ :=
  match c.stage with
  | .token uses => uses
  | .commit uses => uses
  | _ => none

def SignUp.holds (c : SignUp) : Bool := c.pending.isSome

def rollback (s : Store) (c : SignUp) : Store :=
  if c.holds then { s with locked := false } else s

/-- The token is inserted only for an app. -/
def afterCount (c : SignUp) (uses : Option ℕ) : Stage :=
  if c.app then .token uses else .commit uses

def commit (s : Store) : Option ℕ → Store
  | none => s
  | some uses =>
      { s with
        invite := { s.invite with uses := uses }
        locked := false
        created := ⟨s.now, s.invite.expiresAt⟩ :: s.created }

def proceed (registrationsOpen : Bool) (s : Store) (c : SignUp) (w : Answer) :
    Store × Option SignUp :=
  match c.stage with
  | .find => (s, c.go (.validate (s.find c.code).isSome))
  | .validate invited => (s, c.go (.blocked invited (validateInvite s c.code).isOk))
  | .blocked invited valid =>
      (s, if (registrationsOpen || valid) && w.passes then c.go (.checks invited) else none)
  | .checks invited => (s, if w.passes then c.go (.insert invited) else none)
  | .insert invited => (s, c.go (if invited then .count else afterCount c none))
  | .count =>
      -- The row may be locked by another transaction, for which this one waits.
      if s.locked then (s, some c)
      else ({ s with locked := true }, c.go (afterCount c (some (s.invite.uses + 1))))
  | .token uses => (s, c.go (.commit uses))
  | .commit uses => (commit s uses, none)

/-- A check of the invite that fails makes it no good; any other statement that fails ends
the sign-up, and with it the transaction. -/
def exec (registrationsOpen : Bool) (s : Store) (c : SignUp) (w : Answer) :
    Store × Option SignUp :=
  if w.fails then
    match c.stage with
    | .validate invited => (s, c.go (.blocked invited false))
    | _ => (rollback s c, none)
  else proceed registrationsOpen s c w

inductive Request where
  | signUp (code : String) (app : Bool)
  /-- Time passes. -/
  | tick (seconds : ℕ)
  /-- The invite is deleted, or every invite deactivated: it expires now. -/
  | expire
  /-- Something else happens to who invites. -/
  | inviter (i : Inviter)
  deriving DecidableEq

def enter (s : Store) : Request → Store × Option SignUp
  | .signUp code app =>
      (s, some ⟨code, app, if code = "" then .blocked false false else .find⟩)
  | .tick n => ({ s with now := s.now + n }, none)
  | .expire =>
      -- The update waits for a transaction that holds the row.
      (if s.locked then s else { s with invite := { s.invite with expiresAt := some s.now } }, none)
  | .inviter i =>
      (if s.locked then s else { s with invite := { s.invite with inviter := i } }, none)

def signUps (registrationsOpen : Bool) : Machine Store SignUp Request Answer where
  enter := enter
  exec := exec registrationsOpen

def fresh (now : ℤ) (code : String) (maxUses : ℕ) (expiresAt : Option ℤ) (inviter : Inviter) :
    Config Store SignUp where
  store := ⟨now, ⟨code, 0, some maxUses, expiresAt, inviter⟩, false, []⟩
  calls := []

/-! ### What is asked of an invite -/

/-- No more users than it allows, the count right when nobody is signing up, and nobody
in after it expired. -/
structure Kept (maxUses : ℕ) (c : Config Store SignUp) : Prop where
  admits : c.store.created.length ≤ maxUses
  counted : c.Quiescent → c.store.invite.uses = c.store.created.length
  inTime : ∀ u ∈ c.store.created, u.late = false

def Fresh (s : Store) (c : SignUp) (w : Answer) : Prop :=
  ∀ uses, c.stage = .commit (some uses) → w.fails = false →
    s.invite.maxed = false ∧ s.invite.expired s.now = false

def guards : Guards Store SignUp Request Answer where
  request _ _ _ := True
  statement s c _ w := Fresh s c w

/-! ### The count -/

structure Inv (maxUses : ℕ) (s : Store) (calls : List SignUp) : Prop where
  limit : s.invite.maxUses = some maxUses
  counted : s.invite.uses = s.created.length
  locked : calls.countP SignUp.holds = if s.locked then 1 else 0
  pending : ∀ c ∈ calls, ∀ uses, c.pending = some uses → uses = s.invite.uses + 1

variable {maxUses : ℕ} {registrationsOpen : Bool} {s : Store} {c : SignUp} {calls : List SignUp}

theorem Inv.perm {calls' : List SignUp} (hperm : calls.Perm calls') (h : Inv maxUses s calls) :
    Inv maxUses s calls' where
  limit := h.limit
  counted := h.counted
  locked := (hperm.countP_eq SignUp.holds).symm.trans h.locked
  pending := fun c hc => h.pending c (hperm.mem_iff.2 hc)

theorem Inv.goOn (h : Inv maxUses s (c :: calls)) {next : Option SignUp}
    (hpending : ∀ d ∈ next, d.pending = c.pending) (hends : next = none → c.pending = none) :
    Inv maxUses s (next.toList ++ calls) where
  limit := h.limit
  counted := h.counted
  locked := by
    rw [← h.locked, List.countP_append, List.countP_cons]
    cases next with
    | none => simp [SignUp.holds, hends rfl]
    | some d =>
        have hholds : d.holds = c.holds := by rw [SignUp.holds, SignUp.holds, hpending d rfl]
        rw [Option.toList_some, List.countP_singleton, hholds]
        omega
  pending := by
    intro d hd uses huses
    rcases List.mem_append.1 hd with hd | hd
    · rw [Option.mem_toList] at hd
      rw [hpending d hd] at huses
      exact h.pending c List.mem_cons_self uses huses
    · exact h.pending d (List.mem_cons_of_mem _ hd) uses huses

theorem countP_holds_cons (hc : c.holds = true) :
    (c :: calls).countP SignUp.holds = calls.countP SignUp.holds + 1 :=
  List.countP_cons_of_pos hc

theorem Inv.alone (h : Inv maxUses s (c :: calls)) (hc : c.holds = true) :
    s.locked = true ∧ calls.countP SignUp.holds = 0 := by
  have hcount := h.locked
  rw [countP_holds_cons hc] at hcount
  cases hlocked : s.locked with
  | false =>
      rw [hlocked] at hcount
      exact absurd hcount (Nat.succ_ne_zero _)
  | true =>
      rw [hlocked, if_pos rfl] at hcount
      exact ⟨rfl, Nat.succ.inj hcount⟩

theorem pending_eq_none_of_countP (hcount : calls.countP SignUp.holds = 0) :
    ∀ d ∈ calls, d.pending = none := by
  intro d hd
  have hholds := (List.countP_eq_zero.1 hcount) d hd
  exact Option.not_isSome_iff_eq_none.1 hholds

theorem Inv.release (h : Inv maxUses s (c :: calls)) : Inv maxUses (rollback s c) calls := by
  unfold rollback
  split
  · rename_i hc
    obtain ⟨-, hcount⟩ := h.alone hc
    refine ⟨h.limit, h.counted, hcount, ?_⟩
    intro d hd uses huses
    rw [pending_eq_none_of_countP hcount d hd] at huses
    exact nomatch huses
  · rename_i hc
    refine ⟨h.limit, h.counted, ?_, fun d hd => h.pending d (List.mem_cons_of_mem _ hd)⟩
    rw [← h.locked, List.countP_cons_of_neg hc]

theorem Inv.commit {uses : Option ℕ} (h : Inv maxUses s (c :: calls))
    (huses : c.pending = uses) : Inv maxUses (Invites.commit s uses) calls := by
  cases uses with
  | none =>
      refine ⟨h.limit, h.counted, ?_, fun d hd => h.pending d (List.mem_cons_of_mem _ hd)⟩
      have hc : ¬ c.holds = true := by
        rw [SignUp.holds, huses]
        exact Bool.false_ne_true
      rw [Invites.commit, ← h.locked, List.countP_cons_of_neg hc]
  | some uses =>
      have hc : c.holds = true := by
        rw [SignUp.holds, huses]
        rfl
      obtain ⟨-, hcount⟩ := h.alone hc
      have heq := h.pending c List.mem_cons_self uses huses
      refine ⟨h.limit, ?_, hcount, ?_⟩
      · show uses = s.created.length + 1
        rw [heq, h.counted]
      · intro d hd uses' huses'
        rw [pending_eq_none_of_countP hcount d hd] at huses'
        exact nomatch huses'

theorem pending_afterCount (c : SignUp) (uses : Option ℕ) :
    SignUp.pending { c with stage := afterCount c uses } = uses := by
  unfold afterCount SignUp.pending
  cases c.app <;> rfl

theorem Inv.take (h : Inv maxUses s (c :: calls)) (hc : c.pending = none)
    (hfree : s.locked = false) :
    Inv maxUses { s with locked := true }
      ({ c with stage := afterCount c (some (s.invite.uses + 1)) } :: calls) := by
  have hholds : ¬ c.holds = true := by
    rw [SignUp.holds, hc]
    exact Bool.false_ne_true
  have hcount : calls.countP SignUp.holds = 0 := by
    have hlocked := h.locked
    rwa [hfree, List.countP_cons_of_neg hholds] at hlocked
  refine ⟨h.limit, h.counted, ?_, ?_⟩
  · rw [List.countP_cons_of_pos, hcount]
    · rfl
    · rw [SignUp.holds, pending_afterCount]
      rfl
  · intro d hd uses huses
    rcases List.mem_cons.1 hd with rfl | hd
    · rw [pending_afterCount] at huses
      exact (Option.some.inj huses).symm
    · rw [pending_eq_none_of_countP hcount d hd] at huses
      exact nomatch huses

theorem inv_proceed (w : Answer) (h : Inv maxUses s (c :: calls)) :
    Inv maxUses (proceed registrationsOpen s c w).1
      ((proceed registrationsOpen s c w).2.toList ++ calls) := by
  obtain ⟨code, app, stage⟩ := c
  cases stage with
  | find => exact h.goOn (fun d hd => by cases hd; rfl) (fun _ => rfl)
  | validate invited => exact h.goOn (fun d hd => by cases hd; rfl) (fun _ => rfl)
  | blocked invited valid =>
      unfold proceed
      dsimp only
      split
      · exact h.goOn (fun d hd => by cases hd; rfl) (fun _ => rfl)
      · exact h.goOn (fun d hd => nomatch hd) (fun _ => rfl)
  | checks invited =>
      unfold proceed
      dsimp only
      split
      · exact h.goOn (fun d hd => by cases hd; rfl) (fun _ => rfl)
      · exact h.goOn (fun d hd => nomatch hd) (fun _ => rfl)
  | insert invited =>
      apply h.goOn _ (fun _ => rfl)
      intro d hd
      cases hd
      cases invited with
      | true => rfl
      | false => exact pending_afterCount _ none
  | count =>
      unfold proceed
      dsimp only
      split
      · exact h
      · rename_i hfree
        exact h.take rfl (Bool.not_eq_true _ ▸ hfree)
  | token uses => exact h.goOn (fun d hd => by cases hd; rfl) (fun hnone => nomatch hnone)
  | commit uses => exact h.commit rfl

theorem inv_exec (w : Answer) (h : Inv maxUses s (c :: calls)) :
    Inv maxUses (exec registrationsOpen s c w).1
      ((exec registrationsOpen s c w).2.toList ++ calls) := by
  unfold exec
  split
  · split
    · rename_i hstage
      obtain ⟨code, app, stage⟩ := c
      cases hstage
      exact h.goOn (fun d hd => by cases hd; rfl) (fun _ => rfl)
    · exact h.release
  · exact inv_proceed w h

theorem inv_enter (r : Request) (h : Inv maxUses s calls) :
    Inv maxUses (enter s r).1 ((enter s r).2.toList ++ calls) := by
  cases r with
  | signUp code app =>
      have hpending : SignUp.pending ⟨code, app, if code = "" then .blocked false false else .find⟩
          = none := by
        by_cases hcode : code = ""
        · rw [if_pos hcode]
          rfl
        · rw [if_neg hcode]
          rfl
      refine ⟨h.limit, h.counted, ?_, ?_⟩
      · rw [enter, Option.toList_some, List.singleton_append, List.countP_cons_of_neg, h.locked]
        rw [SignUp.holds, hpending]
        exact Bool.false_ne_true
      · intro d hd uses huses
        rcases List.mem_cons.1 hd with rfl | hd
        · exact nomatch hpending.symm.trans huses
        · exact h.pending d hd uses huses
  | tick n => exact ⟨h.limit, h.counted, h.locked, h.pending⟩
  | expire =>
      unfold enter
      dsimp only
      split
      · exact h
      · exact ⟨h.limit, h.counted, h.locked, h.pending⟩
  | inviter i =>
      unfold enter
      dsimp only
      split
      · exact h
      · exact ⟨h.limit, h.counted, h.locked, h.pending⟩

theorem inv_signUps (maxUses : ℕ) (registrationsOpen : Bool) :
    Invariant (signUps registrationsOpen) (Inv maxUses) (fun _ _ _ => True) where
  perm := Inv.perm
  enter := fun r h _ => inv_enter r h
  exec := inv_exec

/-! ### The limit and the expiry -/

def creates (c : SignUp) (w : Answer) : Prop :=
  (∃ uses, c.stage = .commit (some uses)) ∧ w.fails = false

theorem created_rollback (s : Store) (c : SignUp) : (rollback s c).created = s.created := by
  unfold rollback
  split <;> rfl

theorem created_proceed (w : Answer) (h : ∀ uses, c.stage ≠ .commit (some uses)) :
    (proceed registrationsOpen s c w).1.created = s.created := by
  unfold proceed
  split
  case h_6 => split <;> rfl
  case h_8 uses hstage =>
    cases uses with
    | none => rfl
    | some uses => exact absurd hstage (h uses)
  all_goals rfl

theorem created_exec (w : Answer) (h : ¬ creates c w) :
    (exec registrationsOpen s c w).1.created = s.created := by
  unfold exec
  split
  · split
    · rfl
    · exact created_rollback s c
  · rename_i hfails
    apply created_proceed
    intro uses huses
    exact h ⟨⟨uses, huses⟩, Bool.not_eq_true _ ▸ hfails⟩

theorem created_of_creates {w : Answer} (h : creates c w) :
    (exec registrationsOpen s c w).1.created = ⟨s.now, s.invite.expiresAt⟩ :: s.created := by
  obtain ⟨⟨uses, huses⟩, hfails⟩ := h
  rw [exec, if_neg (by rw [hfails]; exact Bool.false_ne_true), proceed, huses]
  rfl

theorem created_enter (s : Store) (r : Request) : (enter s r).1.created = s.created := by
  cases r with
  | signUp code app => rfl
  | tick n => rfl
  | expire =>
      unfold enter
      dsimp only
      split <;> rfl
  | inviter i =>
      unfold enter
      dsimp only
      split <;> rfl

theorem kept_iff {c : Config Store SignUp} (h : Inv maxUses c.store c.calls) :
    Kept maxUses c ↔ c.store.created.length ≤ maxUses ∧ ∀ u ∈ c.store.created, u.late = false :=
  ⟨fun hkept => ⟨hkept.admits, hkept.inTime⟩, fun ⟨hadmits, hinTime⟩ =>
    ⟨hadmits, fun _ => h.counted, hinTime⟩⟩

theorem maxed_eq_false_iff (h : Inv maxUses s calls) :
    s.invite.maxed = false ↔ s.created.length + 1 ≤ maxUses := by
  rw [Invite.maxed, h.limit, h.counted, Option.any_some, decide_eq_false_iff_not]
  omega

theorem fresh_iff_of_creates {w : Answer} (h : creates c w) :
    Fresh s c w ↔ s.invite.maxed = false ∧ s.invite.expired s.now = false := by
  obtain ⟨⟨uses, huses⟩, hfails⟩ := h
  exact ⟨fun hfresh => hfresh uses huses hfails, fun hgood _ _ _ => hgood⟩

theorem fresh_of_not_creates {w : Answer} (h : ¬ creates c w) : Fresh s c w :=
  fun uses huses hfails => absurd ⟨⟨uses, huses⟩, hfails⟩ h

theorem kept_step_iff (c : Config Store SignUp) (e : Event Request Answer)
    (hinv : Inv maxUses c.store c.calls) (hkept : Kept maxUses c) :
    Kept maxUses ((signUps registrationsOpen).step c e) ↔ guards.meets c e := by
  have hnext : Inv maxUses ((signUps registrationsOpen).step c e).store
      ((signUps registrationsOpen).step c e).calls :=
    (inv_signUps maxUses registrationsOpen).step c e hinv (by cases e <;> trivial)
  obtain ⟨hadmits, hinTime⟩ := (kept_iff hinv).1 hkept
  rw [kept_iff hnext]
  cases e with
  | request r =>
      have hcreated : ((signUps registrationsOpen).step c (.request r)).store.created =
          c.store.created := created_enter c.store r
      rw [hcreated]
      exact iff_of_true ⟨hadmits, hinTime⟩ trivial
  | advance k w =>
      cases hcall : c.calls[k]? with
      | none =>
          simp only [Machine.step, Guards.meets, hcall]
          exact iff_of_true ⟨hadmits, hinTime⟩ trivial
      | some call =>
          simp only [Machine.step, Guards.meets, hcall]
          by_cases hcreates : creates call w
          · rw [show ((signUps registrationsOpen).exec c.store call w).1.created = _ from
              created_of_creates hcreates]
            rw [show guards.statement c.store call (others c.calls k) w ↔ _ from
              fresh_iff_of_creates hcreates, maxed_eq_false_iff hinv, List.length_cons]
            apply and_congr_right
            intro _
            constructor
            · intro hall
              exact hall _ List.mem_cons_self
            · intro hexpired u hu
              rcases List.mem_cons.1 hu with rfl | hu
              · exact hexpired
              · exact hinTime u hu
          · rw [show ((signUps registrationsOpen).exec c.store call w).1.created = _ from
              created_exec w hcreates]
            exact iff_of_true ⟨hadmits, hinTime⟩ (fresh_of_not_creates hcreates)

theorem inv_fresh (now : ℤ) (code : String) (maxUses : ℕ) (expiresAt : Option ℤ)
    (inviter : Inviter) :
    Inv maxUses (fresh now code maxUses expiresAt inviter).store
      (fresh now code maxUses expiresAt inviter).calls :=
  ⟨rfl, rfl, rfl, fun _ h => nomatch h⟩

/-- From its creation on an invite admits no more users than it allows, none of them after
it expired, and counts them right, exactly if no sign-up commits with it once it has been
used up or has expired since its check. -/
theorem kept_throughout_iff (now : ℤ) (code : String) (maxUses : ℕ) (expiresAt : Option ℤ)
    (inviter : Inviter) (registrationsOpen : Bool) (events : List (Event Request Answer)) :
    (∀ before, before <+: events →
        Kept maxUses (run (signUps registrationsOpen).step
          (fresh now code maxUses expiresAt inviter) before)) ↔
      Guarded (signUps registrationsOpen).step guards.meets
        (fresh now code maxUses expiresAt inviter) events := by
  have hfresh := inv_fresh now code maxUses expiresAt inviter
  apply throughout_iff_guarded (J := fun c => Inv maxUses c.store c.calls)
  · intro c e h
    exact (inv_signUps maxUses registrationsOpen).step c e h (by cases e <;> trivial)
  · intro c e h hkept
    exact kept_step_iff c e h hkept
  · exact hfresh
  · exact (kept_iff hfresh).2 ⟨Nat.zero_le _, fun _ h => nomatch h⟩

/-- Whatever fails, and however many sign up, each user has been counted once, one sign-up at
most holds the invite, and none that has ended. -/
theorem users_counted (now : ℤ) (code : String) (maxUses : ℕ) (expiresAt : Option ℤ)
    (inviter : Inviter) (registrationsOpen : Bool) (events : List (Event Request Answer)) :
    let c := run (signUps registrationsOpen).step (fresh now code maxUses expiresAt inviter) events
    c.store.invite.uses = c.store.created.length ∧ c.calls.countP SignUp.holds ≤ 1 ∧
      (c.Quiescent → c.store.locked = false) := by
  intro c
  have h : Inv maxUses c.store c.calls :=
    run_invariant (P := fun c : Config Store SignUp => Inv maxUses c.store c.calls)
      (fun c e hc => (inv_signUps maxUses registrationsOpen).step c e hc (by cases e <;> trivial))
      _ events (inv_fresh now code maxUses expiresAt inviter)
  have hlocked := h.locked
  refine ⟨h.counted, by split at hlocked <;> omega, fun hquiescent => ?_⟩
  rw [hquiescent] at hlocked
  simpa using hlocked

/-! ### Two sign-ups for one place -/

def somebody : Inviter := ⟨true, true, false, false, false, false, false⟩

def passing : Answer := ⟨false, true⟩

/-- Both check the invite before either commits. -/
def twoAtOnce : List (Event Request Answer) :=
  [.request (.signUp "code" false), .request (.signUp "code" false),
    .advance 0 passing, .advance 0 passing, .advance 1 passing, .advance 1 passing] ++
    List.replicate 5 (.advance 0 passing) ++ List.replicate 5 (.advance 0 passing)

/-- An invite for one person admits two. -/
theorem admits_two :
    ¬ (∀ before, before <+: twoAtOnce →
        Kept 1 (run (signUps false).step (fresh 0 "code" 1 none somebody) before)) ∧
      (run (signUps false).step (fresh 0 "code" 1 none somebody) twoAtOnce).calls = [] ∧
      (run (signUps false).step (fresh 0 "code" 1 none somebody) twoAtOnce).store.created.length
        = 2 := by
  have hcreated : (run (signUps false).step (fresh 0 "code" 1 none somebody)
      twoAtOnce).store.created.length = 2 := by decide +kernel
  refine ⟨?_, by decide +kernel, hcreated⟩
  intro h
  have hadmits := (h twoAtOnce (List.prefix_refl _)).admits
  rw [hcreated] at hadmits
  exact absurd hadmits (by decide)

end Eunha.Invites
