import Eunha.PostRetries
import Eunha.Publishing

/-!
# A schedule is published once

A pass that has taken a schedule up and not published it yet holds it, and so does one that
has published it and not deleted its row yet. While no pass reads as due what another holds,
and none stops in the middle of a schedule it has published, a schedule that was published is
deleted before it can be read again.
-/
namespace Eunha.PublishedOnce
open Tables Database Posting PostEffects PostRetries Scheduling Publishing Interleaving Runs
open Programs Program

/-! ### What a pass holds -/

def pending : Phase → List Scheduled
  | .select => []
  | .load row _ rest | .insert row _ _ rest | .recordFailure row rest | .park row rest =>
      row :: rest
  | .follow _ _ rest | .forgetAttempts _ rest | .forgetSchedule _ rest => rest

def spent : Phase → Option Scheduled
  | .follow row _ _ | .forgetAttempts row _ | .forgetSchedule row _ => some row
  | _ => none

def held (c : Phase) : List ℕ := ((spent c).toList ++ pending c).map (·.id)

def Remains (s : Store) (scheduledId : ℕ) : Prop :=
  ∃ row ∈ s.world.scheduled.rows, row.id = scheduledId

instance (s : Store) (scheduledId : ℕ) : Decidable (Remains s scheduledId) :=
  inferInstanceAs (Decidable (∃ row ∈ s.world.scheduled.rows, row.id = scheduledId))

def publishedIds (s : Store) : List ℕ := s.published.map (·.1)

def carriedOut (w : Outcome) : Prop := w.crashed = false ∧ w.fails = false

instance (w : Outcome) : Decidable (carriedOut w) :=
  inferInstanceAs (Decidable (w.crashed = false ∧ w.fails = false))

/-- No pass reads as due what another one holds, every schedule that is taken up has its
parameters and its author, and no pass stops between a publication and the deletion of what
remains of the schedule. -/
def Careful (s : Store) (call : Phase) (others : List Phase) (w : Outcome) : Prop :=
  match call with
  | .select => carriedOut w → ∀ row ∈ due s w.now, row.params.isSome ∧
      ∀ c ∈ others, row.id ∉ held c
  | .load row _ _ => (s.world.db.account row.accountId).isSome
  | .follow row _ _ => Remains s row.id → w.crashed = false
  | .forgetAttempts row _ | .forgetSchedule row _ => Remains s row.id → carriedOut w
  | _ => True

instance (s : Store) (call : Phase) (others : List Phase) (w : Outcome) :
    Decidable (Careful s call others w) :=
  match call with
  | .select => inferInstanceAs (Decidable (carriedOut w → ∀ row ∈ due s w.now,
      row.params.isSome ∧ ∀ c ∈ others, row.id ∉ held c))
  | .load row _ _ => inferInstanceAs (Decidable ((s.world.db.account row.accountId).isSome = true))
  | .follow row _ _ => inferInstanceAs (Decidable (Remains s row.id → w.crashed = false))
  | .forgetAttempts row _ | .forgetSchedule row _ =>
      inferInstanceAs (Decidable (Remains s row.id → carriedOut w))
  | .insert .. | .recordFailure .. | .park .. => inferInstanceAs (Decidable True)

def careful : Guards Store Phase Publishing.Request Outcome := ⟨fun _ _ _ => True, Careful⟩

instance (c : Config Store Phase) (event : Event Publishing.Request Outcome) :
    Decidable (careful.meets c event) :=
  match event with
  | .request _ => inferInstanceAs (Decidable True)
  | .advance k w =>
      match h : c.calls[k]? with
      | none => decidable_of_iff True (by rw [Guards.meets, h])
      | some call => decidable_of_iff (Careful c.store call (others c.calls k) w)
          (by rw [Guards.meets, h]; rfl)

/-! ### What is left of a program -/

def Able : Phase → Prop
  | .load row left _ => left.Always Eq ∧
      left.FailsOnly (fun w => (w.db.account row.accountId).isSome) (· = .transient)
  | .follow _ left _ => left.Always Kept ∧ left.FailsOnly (fun _ => True) fun _ => False
  | _ => True

section
variable {e : Env} {I : World → Prop} {E : PublishError → Prop} {ε : Type}

theorem failsOnly_userDefaults (accountId : ℕ) :
    (userDefaults accountId : Publish _).FailsOnly I E :=
  (FailsOnly.askOr _ _ _).bind fun _ => (FailsOnly.askOr _ _ _).bind fun _ => trivial

theorem failsOnly_resolveMention (username : String) (domain : Option String) :
    (resolveMention e username domain : Publish _).FailsOnly I E := by
  refine (FailsOnly.askOr _ _ _).bind fun known => ?_
  split
  · exact .askOr _ _ _
  · trivial

theorem failsOnly_resolveMentionAccounts (handles : List (String × Option String)) :
    (resolveMentionAccounts e handles : Publish _).FailsOnly I E := by
  induction handles with
  | nil => trivial
  | cons handle handles ih =>
      exact (failsOnly_resolveMention _ _).bind fun _ => ih.bind fun _ => trivial

theorem failsOnly_parentOf (inReplyToId : Option ℤ) :
    (parentOf inReplyToId).FailsOnly I E := by
  cases inReplyToId with
  | none => trivial
  | some id => exact .askOr _ _ _

theorem reads_parentOf (inReplyToId : Option ℤ) : (parentOf inReplyToId).Always Eq := by
  cases inReplyToId with
  | none => trivial
  | some id => exact reads_askOr _ _ _

theorem reads_author (accountId : ℕ) : (author accountId).Always Eq := by
  refine ⟨fun _ => rfl, fun w => ?_, trivial⟩
  dsimp only
  split <;> trivial

theorem failsOnly_author (accountId : ℕ) :
    (author accountId).FailsOnly (fun w => (w.db.account accountId).isSome) (· = .transient) := by
  refine ⟨fun w hw => ?_, rfl⟩
  obtain ⟨account, haccount⟩ := Option.isSome_iff_exists.mp hw
  dsimp only
  rw [haccount]
  trivial

theorem reads_load (row : Scheduled) (statusId : ℕ) : (load e row statusId).Always Eq := by
  unfold load
  split
  · trivial
  · exact (reads_author _).bind fun _ => (reads_userDefaults _).bind fun _ =>
      (reads_parentOf _).bind fun _ => (reads_resolveMentionAccounts e _).bind fun _ => trivial

theorem failsOnly_load {row : Scheduled} (h : row.params.isSome) (statusId : ℕ) :
    (load e row statusId).FailsOnly (fun w => (w.db.account row.accountId).isSome)
      (· = .transient) := by
  obtain ⟨p, hp⟩ := Option.isSome_iff_exists.mp h
  rw [load, hp]
  exact (failsOnly_author _).bind fun _ => (failsOnly_userDefaults _).bind fun _ =>
    (failsOnly_parentOf _).bind fun _ => (failsOnly_resolveMentionAccounts _).bind fun _ => trivial

theorem kept_publishPoll (d : Draft) (now : ℤ) : (publishPoll d now).Always Kept := by
  unfold publishPoll
  split
  · trivial
  · split
    · trivial
    · exact Always.logged (Always.exec fun w => ⟨rfl, rfl, rfl, rfl⟩)

theorem kept_followUp (p : Params) (d : Draft) (now : ℤ) : (followUp e p d now).Always Kept := by
  have hwhole : Whole fun _ => false := fun _ _ => rfl
  unfold followUp
  refine Always.bind (sound_storeStatusesTags e hwhole _ _).always.logged fun _ => ?_
  refine Always.bind (sound_storeStatusMentions hwhole _ _).always.logged fun _ => ?_
  refine Always.bind (kept_countCreated d.row).logged fun _ => ?_
  refine Always.bind (.each (fun id => ?_) _) fun _ => kept_publishPoll d now
  exact Always.logged (Always.exec fun w => ⟨rfl, rfl, rfl, rfl⟩)

theorem failsOnly_followUp (p : Params) (d : Draft) (now : ℤ) :
    (followUp e p d now).FailsOnly I fun _ => False := by
  unfold followUp
  refine FailsOnly.bind (.logged _) fun _ => FailsOnly.bind (.logged _) fun _ =>
    FailsOnly.bind (.logged _) fun _ => FailsOnly.bind (.each (fun _ => .logged _) _) fun _ => ?_
  unfold publishPoll
  split
  · trivial
  · split
    · trivial
    · exact .logged _

end

/-! ### How a pass goes on -/

theorem loading_spec {row : Scheduled} {rest : List Scheduled} {left : Publish (Params × Draft)}
    (hreads : left.Always Eq)
    (hfails : left.FailsOnly (fun w => (w.db.account row.accountId).isSome) (· = .transient)) :
    pending (loading row rest left) = row :: rest ∧ spent (loading row rest left) = none ∧
      Able (loading row rest left) := by
  cases left with
  | done loaded => exact ⟨rfl, rfl, trivial⟩
  | fail error =>
      obtain rfl : error = .transient := hfails
      exact ⟨rfl, rfl, trivial⟩
  | statement l move next failed => exact ⟨rfl, rfl, hreads, hfails⟩

theorem following_spec {row : Scheduled} {rest : List Scheduled} {left : Publish Unit}
    (hkept : left.Always Kept) (hfails : left.FailsOnly (fun _ => True) fun _ => False) :
    pending (following row rest left) = rest ∧ spent (following row rest left) = some row ∧
      Able (following row rest left) := by
  cases left with
  | done ended => exact ⟨rfl, rfl, trivial⟩
  | fail error => exact hfails.elim
  | statement l move next failed => exact ⟨rfl, rfl, hkept, hfails⟩

theorem takeUp_spec {e : Env} {statusId : ℕ} {rows : List Scheduled}
    (h : ∀ row ∈ rows, row.params.isSome) :
    ∀ c ∈ takeUp e statusId rows, pending c = rows ∧ spent c = none ∧ Able c := by
  cases rows with
  | nil =>
      intro c hc
      cases hc
  | cons row rest =>
      intro c hc
      cases hc
      exact loading_spec (reads_load row statusId)
        (failsOnly_load (h row List.mem_cons_self) statusId)

/-! ### The invariant -/

structure Inv (before : List Status) (s : Store) (calls : List Phase) : Prop where
  made : s.world.db.statuses.rows = before ++ s.published.map (·.2)
  once : (publishedIds s).Nodup
  apart : (calls.flatMap held).Nodup
  fresh : ∀ c ∈ calls, ∀ row ∈ pending c, row.id ∉ publishedIds s
  published : ∀ c ∈ calls, ∀ row, spent c = some row → row.id ∈ publishedIds s
  /-- What was published and is still there is about to be deleted. -/
  deleted : ∀ id ∈ publishedIds s, Remains s id →
    ∃ c ∈ calls, ∃ row, spent c = some row ∧ row.id = id
  below : ∀ id ∈ publishedIds s, id < s.world.scheduled.next
  heldBelow : ∀ c ∈ calls, ∀ id ∈ held c, id < s.world.scheduled.next
  params : ∀ c ∈ calls, ∀ row ∈ pending c, row.params.isSome
  able : ∀ c ∈ calls, Able c

theorem Inv.perm {before : List Status} {s : Store} {calls calls' : List Phase}
    (hp : calls.Perm calls') (h : Inv before s calls) : Inv before s calls' where
  made := h.made
  once := h.once
  apart := (hp.flatMap_right held).nodup_iff.mp h.apart
  fresh c hc := h.fresh c (hp.mem_iff.mpr hc)
  published c hc := h.published c (hp.mem_iff.mpr hc)
  deleted id hid hrow := by
    obtain ⟨c, hc, hspent⟩ := h.deleted id hid hrow
    exact ⟨c, hp.mem_iff.mp hc, hspent⟩
  below := h.below
  heldBelow c hc := h.heldBelow c (hp.mem_iff.mpr hc)
  params c hc := h.params c (hp.mem_iff.mpr hc)
  able c hc := h.able c (hp.mem_iff.mpr hc)

/-- No status is made, and no schedule comes back. -/
structure Quiet (s t : Store) : Prop where
  statuses : t.world.db.statuses.rows = s.world.db.statuses.rows
  published : t.published = s.published
  next : s.world.scheduled.next ≤ t.world.scheduled.next
  remains : ∀ id < s.world.scheduled.next, Remains t id → Remains s id

theorem Quiet.of_scheduled {s t : Store}
    (statuses : t.world.db.statuses.rows = s.world.db.statuses.rows)
    (published : t.published = s.published) (scheduled : t.world.scheduled = s.world.scheduled) :
    Quiet s t := by
  refine ⟨statuses, published, by rw [scheduled], fun id _ h => ?_⟩
  rwa [Remains, scheduled] at h

theorem Inv.quiet {before : List Status} {s t : Store} {calls : List Phase}
    (h : Inv before s calls) (hq : Quiet s t) : Inv before t calls := by
  have hids : publishedIds t = publishedIds s := by rw [publishedIds, hq.published, publishedIds]
  refine ⟨?_, hids ▸ h.once, h.apart, hids ▸ h.fresh, hids ▸ h.published, ?_, ?_, ?_, h.params,
    h.able⟩
  · rw [hq.statuses, hq.published, h.made]
  · intro id hid hrow
    rw [hids] at hid
    exact h.deleted id hid (hq.remains id (h.below id hid) hrow)
  · intro id hid
    rw [hids] at hid
    exact (h.below id hid).trans_le hq.next
  · exact fun c hc id hid => (h.heldBelow c hc id hid).trans_le hq.next

/-- What a pass may go on as, holding no more than it held. -/
structure GoesOn (s : Store) (call : Phase) (next : Option Phase) : Prop where
  takesNone : ∀ c ∈ next, (pending c).Sublist (pending call)
  spendsNone : ∀ c ∈ next, ∀ row, spent c = some row → spent call = some row
  leavesNone : ∀ row, spent call = some row → Remains s row.id → ∃ c ∈ next, spent c = some row
  able : ∀ c ∈ next, Able c

theorem GoesOn.held_sublist {s : Store} {call : Phase} {next : Option Phase}
    (h : GoesOn s call next) : (next.toList.flatMap held).Sublist (held call) := by
  cases next with
  | none => exact List.nil_sublist _
  | some c =>
      rw [Option.toList_some, List.flatMap_singleton]
      refine (List.Sublist.append ?_ (h.takesNone c rfl)).map _
      cases hspent : spent c with
      | none => exact List.nil_sublist _
      | some row => rw [h.spendsNone c rfl row hspent]

theorem Inv.goOn {before : List Status} {s : Store} {call : Phase} {calls : List Phase}
    {next : Option Phase} (h : Inv before s (call :: calls)) (hg : GoesOn s call next) :
    Inv before s (next.toList ++ calls) := by
  have hcalls {P : Phase → Prop} (hnext : ∀ c ∈ next, P c)
      (hrest : ∀ c ∈ call :: calls, P c) : ∀ c ∈ next.toList ++ calls, P c := by
    intro c hc
    rcases List.mem_append.mp hc with hc | hc
    · exact hnext c (Option.mem_toList.mp hc)
    · exact hrest c (List.mem_cons_of_mem call hc)
  refine ⟨h.made, h.once, ?_, hcalls ?_ h.fresh, hcalls ?_ h.published, ?_, h.below,
    hcalls ?_ h.heldBelow, hcalls ?_ h.params, hcalls hg.able h.able⟩
  · have hapart := h.apart
    rw [List.flatMap_cons] at hapart
    rw [List.flatMap_append]
    exact hapart.sublist (hg.held_sublist.append_right _)
  · intro c hc row hrow
    exact h.fresh call List.mem_cons_self row ((hg.takesNone c hc).subset hrow)
  · intro c hc row hrow
    exact h.published call List.mem_cons_self row (hg.spendsNone c hc row hrow)
  · intro id hid hrow
    obtain ⟨c, hc, row, hspent, rfl⟩ := h.deleted id hid hrow
    rcases List.mem_cons.mp hc with rfl | hc
    · obtain ⟨d, hd, hdspent⟩ := hg.leavesNone row hspent hrow
      exact ⟨d, List.mem_append_left _ (Option.mem_toList.mpr hd), row, hdspent, rfl⟩
    · exact ⟨c, List.mem_append_right _ hc, row, hspent, rfl⟩
  · intro c hc id hid
    refine h.heldBelow call List.mem_cons_self id (hg.held_sublist.subset ?_)
    rw [List.mem_flatMap]
    exact ⟨c, Option.mem_toList.mpr hc, hid⟩
  · intro c hc row hrow
    exact h.params call List.mem_cons_self row ((hg.takesNone c hc).subset hrow)

/-- A pass that has nothing published in hand may end, or leave its schedule. -/
theorem GoesOn.drop {s : Store} {call : Phase}
    (h : ∀ row, spent call = some row → ¬ Remains s row.id) : GoesOn s call none where
  takesNone _ hc := by cases hc
  spendsNone _ hc := by cases hc
  leavesNone row hspent hrow := absurd hrow (h row hspent)
  able _ hc := by cases hc

theorem GoesOn.takeUp {e : Env} {s : Store} {call : Phase} {statusId : ℕ}
    {rest : List Scheduled} (hrest : rest.Sublist (pending call))
    (hparams : ∀ row ∈ rest, row.params.isSome)
    (h : ∀ row, spent call = some row → ¬ Remains s row.id) :
    GoesOn s call (Publishing.takeUp e statusId rest) where
  takesNone c hc := by
    rw [(takeUp_spec hparams c hc).1]
    exact hrest
  spendsNone c hc row hspent := by
    rw [(takeUp_spec hparams c hc).2.1] at hspent
    cases hspent
  leavesNone row hspent hrow := absurd hrow (h row hspent)
  able c hc := (takeUp_spec hparams c hc).2.2

theorem GoesOn.same {s : Store} {call c : Phase} (hpending : pending c = pending call)
    (hspent : spent c = spent call) (hable : Able c) : GoesOn s call (some c) where
  takesNone d hd := by
    cases hd
    rw [hpending]
  spendsNone d hd row hrow := by
    cases hd
    rwa [hspent] at hrow
  leavesNone row hrow _ := ⟨c, rfl, hspent.trans hrow⟩
  able d hd := by
    cases hd
    exact hable

/-! ### The statements -/

section
variable {e : Env} {before : List Status} {s : Store} {calls : List Phase} {w : Outcome}

theorem quiet_setAttempts (s : Store) (id : ℕ) (attempts : Option Attempts) :
    Quiet s (s.setAttempts id attempts) :=
  .of_scheduled rfl rfl rfl

theorem quiet_deleteScheduled (s : Store) (p : Scheduled → Bool) :
    Quiet s (s.deleteScheduled p) := by
  refine ⟨rfl, rfl, le_rfl, fun id _ h => ?_⟩
  obtain ⟨row, hrow, hid⟩ := h
  exact ⟨row, List.mem_of_mem_filter hrow, hid⟩

theorem quiet_world {s : Store} {world : World} (h : Kept s.world world) :
    Quiet s { s with world := world } := by
  refine .of_scheduled ?_ rfl h.scheduled
  rw [h.statuses]

theorem due_sublist (s : Store) (now : ℤ) :
    ∃ rows, rows.Perm (s.world.scheduled.rows.filter fun row =>
      row.scheduledAt.any (· ≤ now) && retryable (s.attempts row.id) now) ∧
      (due s now).Sublist rows :=
  ⟨_, List.mergeSort_perm _ _, List.take_sublist 50 _⟩

theorem mem_due {now : ℤ} {row : Scheduled} (h : row ∈ due s now) :
    row ∈ s.world.scheduled.rows := by
  obtain ⟨rows, hperm, hsub⟩ := due_sublist s now
  exact List.mem_of_mem_filter (hperm.mem_iff.mp (hsub.subset h))

theorem nodup_due (now : ℤ) : ((due s now).map (·.id)).Nodup := by
  obtain ⟨rows, hperm, hsub⟩ := due_sublist s now
  refine List.Nodup.sublist (hsub.map _) ((hperm.map _).nodup_iff.mpr ?_)
  exact List.pairwise_map.mpr (s.world.scheduled.distinct.filter _)

theorem Inv.select (h : Inv before s (.select :: calls)) (hg : Careful s .select calls w)
    (hw : carriedOut w) :
    Inv before s ((takeUp e w.statusId (due s w.now)).toList ++ calls) := by
  have hdue := hg hw
  have hspec : ∀ c ∈ takeUp e w.statusId (due s w.now),
      pending c = due s w.now ∧ spent c = none ∧ Able c :=
    takeUp_spec fun row hrow => (hdue row hrow).1
  have hends : GoesOn s .select none := .drop fun row hrow => by cases hrow
  have hcalls : Inv before s calls := h.goOn hends
  cases hnext : takeUp e w.statusId (due s w.now) with
  | none => exact hcalls
  | some c =>
      obtain ⟨hpending, hspent, hable⟩ := hspec c hnext
      have hheld : held c = (due s w.now).map (·.id) := by rw [held, hspent, hpending]; rfl
      have hothers : ∀ row ∈ due s w.now, ∀ d ∈ calls, row.id ∉ held d :=
        fun row hrow => (hdue row hrow).2
      have hcons {P : Phase → Prop} (hc : P c) (hrest : ∀ d ∈ calls, P d) :
          ∀ d ∈ c :: calls, P d := List.forall_mem_cons.mpr ⟨hc, hrest⟩
      refine ⟨hcalls.made, hcalls.once, ?_, hcons ?_ hcalls.fresh, hcons ?_ hcalls.published, ?_,
        hcalls.below, hcons ?_ hcalls.heldBelow, hcons ?_ hcalls.params, hcons hable hcalls.able⟩
      · rw [Option.toList_some, List.singleton_append, List.flatMap_cons, hheld,
          List.nodup_append]
        refine ⟨nodup_due w.now, hcalls.apart, fun id hid other hother heq => ?_⟩
        obtain ⟨row, hrow, rfl⟩ := List.mem_map.mp hid
        obtain ⟨d, hd, hin⟩ := List.mem_flatMap.mp hother
        exact hothers row hrow d hd (heq ▸ hin)
      · -- what was published and is there is held by the pass that published it
        intro row hrow hin
        rw [hpending] at hrow
        obtain ⟨d, hd, other, hother, hid⟩ :=
          hcalls.deleted row.id hin ⟨row, mem_due hrow, rfl⟩
        refine hothers row hrow d hd ?_
        rw [held, hother, ← hid]
        exact List.mem_map_of_mem List.mem_cons_self
      · intro row hrow
        rw [hspent] at hrow
        cases hrow
      · intro id hid hrow
        obtain ⟨d, hd, other⟩ := hcalls.deleted id hid hrow
        exact ⟨d, List.mem_cons_of_mem c hd, other⟩
      · intro id hid
        rw [hheld] at hid
        obtain ⟨row, hrow, rfl⟩ := List.mem_map.mp hid
        exact s.world.scheduled.below row (mem_due hrow)
      · intro row hrow
        rw [hpending] at hrow
        exact (hdue row hrow).1

theorem Inv.load {row : Scheduled} {left : Publish (Params × Draft)} {rest : List Scheduled}
    (h : Inv before s (.load row left rest :: calls))
    (hg : Careful s (.load row left rest) calls w) :
    Inv before { s with world := (left.next w.fails s.world).1 }
      (loading row rest (left.next w.fails s.world).2 :: calls) := by
  obtain ⟨hreads, hfails⟩ := h.able _ List.mem_cons_self
  obtain ⟨hsame, hreads'⟩ := hreads.next (fun _ => rfl) w.fails s.world
  obtain ⟨hpending, hspent, hable⟩ :
      pending (loading row rest (left.next w.fails s.world).2) = row :: rest ∧ _ ∧ _ :=
    loading_spec hreads' (hfails.next w.fails hg)
  rw [← hsame]
  exact h.goOn (.same hpending hspent hable)

theorem Inv.follow {row : Scheduled} {left : Publish Unit} {rest : List Scheduled}
    (h : Inv before s (.follow row left rest :: calls)) :
    Inv before { s with world := (left.next w.fails s.world).1 }
      (following row rest (left.next w.fails s.world).2 :: calls) := by
  obtain ⟨hkept, hfails⟩ := h.able _ List.mem_cons_self
  obtain ⟨hworld, hkept'⟩ := hkept.next Kept.refl w.fails s.world
  obtain ⟨hpending, hspent, hable⟩ :
      pending (following row rest (left.next w.fails s.world).2) = rest ∧ _ ∧ _ :=
    following_spec hkept' (hfails.next w.fails trivial)
  exact (h.quiet (quiet_world hworld)).goOn (.same hpending hspent hable)

theorem insertion_cases (row : Scheduled) (p : Params) (d : Draft) (rest : List Scheduled) :
    insertion e s row p d rest w = (s, .recordFailure row rest) ∨
      refused s.world d = false ∧ insertion e s row p d rest w =
        ({ s with world := insertRow d s.world, published := s.published ++ [(row.id, d.row)] },
          following row rest (followUp e p d w.now)) := by
  unfold insertion insertPublished
  rw [Program.next]
  cases w.fails with
  | true => exact .inl rfl
  | false =>
      cases hrefused : refused s.world d with
      | true =>
          refine .inl ?_
          simp only [insertRow, hrefused, if_true, Bool.false_eq_true, if_false]
      | false =>
          refine .inr ⟨rfl, ?_⟩
          simp only [Bool.false_eq_true, if_false]

theorem rows_insertRow {d : Draft} {world : World} (h : refused world d = false) :
    (insertRow d world).db.statuses.rows = world.db.statuses.rows ++ [d.row] := by
  rw [insertRow, h]
  refine Table.rows_insert fun htaken => ?_
  rw [refused, decide_eq_true htaken] at h
  cases h

theorem Inv.insert {row : Scheduled} {p : Params} {d : Draft} {rest : List Scheduled}
    (h : Inv before s (.insert row p d rest :: calls)) :
    Inv before (insertion e s row p d rest w).1
      ((insertion e s row p d rest w).2 :: calls) := by
  rcases insertion_cases (e := e) (s := s) (w := w) row p d rest with heq | ⟨hrefused, heq⟩
  · rw [heq]
    have hgoes : GoesOn s (.insert row p d rest) (some (.recordFailure row rest)) :=
      .same rfl rfl trivial
    exact h.goOn hgoes
  · rw [heq]
    obtain ⟨hpending, hspent, hable⟩ :
        pending (following row rest (followUp e p d w.now)) = rest ∧ _ ∧ _ :=
      following_spec (kept_followUp p d w.now) (failsOnly_followUp p d w.now)
    have hheld : held (following row rest (followUp e p d w.now)) =
        held (.insert row p d rest) := by rw [held, hspent, hpending]; rfl
    have hscheduled : (insertRow d s.world).scheduled = s.world.scheduled := by
      rw [insertRow]
      split <;> rfl
    have hids : (s.published ++ [(row.id, d.row)]).map (·.1) = publishedIds s ++ [row.id] := by
      rw [List.map_append]; rfl
    have hnew : row.id ∉ publishedIds s := h.fresh _ List.mem_cons_self row List.mem_cons_self
    have hapart := h.apart
    rw [List.flatMap_cons, List.nodup_append] at hapart
    obtain ⟨hown, _, hothers⟩ := hapart
    have hrest : row.id ∉ rest.map (·.id) := (List.nodup_cons.mp hown).1
    refine ⟨?_, ?_, ?_, ?_, ?_, ?_, ?_, ?_, ?_, ?_⟩
    · rw [rows_insertRow hrefused, h.made, List.map_append, List.append_assoc]
      rfl
    · rw [publishedIds, hids]
      exact h.once.append (List.nodup_singleton _) (List.disjoint_singleton.mpr hnew)
    · rw [List.flatMap_cons, hheld]
      exact h.apart
    · intro c hc other hother
      rw [publishedIds, hids, List.mem_append, List.mem_singleton, not_or]
      rcases List.mem_cons.mp hc with rfl | hc
      · rw [hpending] at hother
        refine ⟨h.fresh _ List.mem_cons_self other (List.mem_cons_of_mem row hother), ?_⟩
        exact fun heq => hrest (heq ▸ List.mem_map_of_mem hother)
      · refine ⟨h.fresh c (List.mem_cons_of_mem _ hc) other hother, fun heq => ?_⟩
        refine hothers row.id List.mem_cons_self row.id ?_ rfl
        rw [List.mem_flatMap]
        exact ⟨c, hc, heq ▸ List.mem_map_of_mem (List.mem_append_right _ hother)⟩
    · intro c hc other hother
      rw [publishedIds, hids, List.mem_append, List.mem_singleton]
      rcases List.mem_cons.mp hc with rfl | hc
      · rw [hspent] at hother
        cases hother
        exact .inr rfl
      · exact .inl (h.published c (List.mem_cons_of_mem _ hc) other hother)
    · intro id hid hrow
      rw [publishedIds, hids, List.mem_append, List.mem_singleton] at hid
      rw [Remains, hscheduled] at hrow
      rcases hid with hid | rfl
      · obtain ⟨c, hc, other, hother, rfl⟩ := h.deleted id hid hrow
        rcases List.mem_cons.mp hc with rfl | hc
        · cases hother
        · exact ⟨c, List.mem_cons_of_mem _ hc, other, hother, rfl⟩
      · exact ⟨_, List.mem_cons_self, row, hspent, rfl⟩
    · intro id hid
      rw [publishedIds, hids, List.mem_append, List.mem_singleton] at hid
      rw [hscheduled]
      rcases hid with hid | rfl
      · exact h.below id hid
      · exact h.heldBelow _ List.mem_cons_self row.id List.mem_cons_self
    · intro c hc
      rw [hscheduled]
      rcases List.mem_cons.mp hc with rfl | hc
      · rw [hheld]
        exact h.heldBelow _ List.mem_cons_self
      · exact h.heldBelow c (List.mem_cons_of_mem _ hc)
    · intro c hc other hother
      rcases List.mem_cons.mp hc with rfl | hc
      · rw [hpending] at hother
        exact h.params _ List.mem_cons_self other (List.mem_cons_of_mem row hother)
      · exact h.params c (List.mem_cons_of_mem _ hc) other hother
    · exact List.forall_mem_cons.mpr ⟨hable, fun c hc => h.able c (List.mem_cons_of_mem _ hc)⟩

theorem Inv.forgetSchedule {row : Scheduled} {rest : List Scheduled}
    (h : Inv before s (.forgetSchedule row rest :: calls)) :
    Inv before (s.deleteScheduled (·.id = row.id))
      ((takeUp e w.statusId rest).toList ++ calls) := by
  refine (h.quiet (quiet_deleteScheduled s _)).goOn (.takeUp (List.Sublist.refl rest) ?_ ?_)
  · exact h.params _ List.mem_cons_self
  · intro row' hrow'
    cases hrow'
    rintro ⟨left, hleft, hid⟩
    have hkept := (List.mem_filter.mp hleft).2
    simp [hid] at hkept

theorem Inv.recordFailure {row : Scheduled} {rest : List Scheduled}
    (h : Inv before s (.recordFailure row rest :: calls)) :
    Inv before (recordPublishFailure e s row rest w).1
      ((recordPublishFailure e s row rest w).2.toList ++ calls) := by
  refine (h.quiet (quiet_setAttempts s row.id _)).goOn ?_
  rw [recordPublishFailure]
  dsimp only
  split
  · exact .same rfl rfl trivial
  · refine .takeUp (List.sublist_cons_self row rest) ?_ fun _ hspent => by cases hspent
    exact fun other hother => h.params _ List.mem_cons_self other (List.mem_cons_of_mem row hother)

theorem Inv.park {row : Scheduled} {rest : List Scheduled} {attempts : Option Attempts}
    (h : Inv before s (.park row rest :: calls)) :
    Inv before (s.setAttempts row.id attempts) ((takeUp e w.statusId rest).toList ++ calls) := by
  refine (h.quiet (quiet_setAttempts s row.id attempts)).goOn ?_
  refine .takeUp (List.sublist_cons_self row rest) ?_ fun _ hspent => by cases hspent
  exact fun other hother => h.params _ List.mem_cons_self other (List.mem_cons_of_mem row hother)

theorem Careful.drop {call : Phase} (hg : Careful s call calls w) (hw : w.crashed = true) :
    GoesOn s call none := by
  refine .drop fun row hspent hrow => ?_
  cases call <;> cases hspent
  case follow => rw [hg hrow] at hw; cases hw
  case forgetAttempts => rw [(hg hrow).1] at hw; cases hw
  case forgetSchedule => rw [(hg hrow).1] at hw; cases hw

theorem inv_exec {call : Phase} (h : Inv before s (call :: calls))
    (hg : Careful s call calls w) :
    Inv before (Publishing.exec e s call w).1
      ((Publishing.exec e s call w).2.toList ++ calls) := by
  unfold Publishing.exec
  cases hcrashed : w.crashed with
  | true => exact h.goOn (hg.drop hcrashed)
  | false =>
      rw [if_neg Bool.false_ne_true]
      cases call with
      | select =>
          cases hfails : w.fails with
          | true => exact h.goOn (.drop fun row hspent => by cases hspent)
          | false => exact h.select hg ⟨hcrashed, hfails⟩
      | load row left rest => exact h.load hg
      | insert row p d rest => exact h.insert
      | follow row left rest => exact h.follow
      | forgetAttempts row rest =>
          cases hfails : w.fails with
          | true =>
              refine h.goOn (.drop fun other hspent hrow => ?_)
              cases hspent
              rw [(hg hrow).2] at hfails
              cases hfails
          | false =>
              refine (h.quiet (quiet_setAttempts s row.id none)).goOn ?_
              exact .same rfl rfl trivial
      | forgetSchedule row rest =>
          cases hfails : w.fails with
          | true =>
              refine h.goOn (.drop fun other hspent hrow => ?_)
              cases hspent
              rw [(hg hrow).2] at hfails
              cases hfails
          | false => exact h.forgetSchedule
      | recordFailure row rest =>
          cases hfails : w.fails with
          | true => exact h.goOn (.drop fun other hspent => by cases hspent)
          | false => exact h.recordFailure
      | park row rest =>
          cases hfails : w.fails with
          | true => exact h.goOn (.drop fun other hspent => by cases hspent)
          | false => exact h.park

theorem quiet_updateScheduledStatus (id accountId : ℕ) (scheduledAt : Option ℤ) (now : ℤ) :
    Quiet s (updateScheduledStatus s id accountId scheduledAt now) := by
  unfold updateScheduledStatus
  split
  · exact .of_scheduled rfl rfl rfl
  · refine ⟨rfl, rfl, le_rfl, fun other _ hrow => ?_⟩
    obtain ⟨row, hrow, rfl⟩ := hrow
    obtain ⟨old, hold, rfl⟩ := List.mem_map.mp hrow
    refine ⟨old, hold, ?_⟩
    split <;> rfl

theorem inv_enter (r : Publishing.Request) (h : Inv before s calls) :
    Inv before (enter s r).1 ((enter s r).2.toList ++ calls) := by
  cases r with
  | publishDueStatuses =>
      refine ⟨h.made, h.once, h.apart, ?_, ?_, ?_, h.below, ?_, ?_, ?_⟩
      · exact List.forall_mem_cons.mpr ⟨(fun _ hin => nomatch hin), h.fresh⟩
      · exact List.forall_mem_cons.mpr ⟨(fun _ hin => nomatch hin), h.published⟩
      · intro id hid hrow
        obtain ⟨c, hc, hspent⟩ := h.deleted id hid hrow
        exact ⟨c, List.mem_cons_of_mem _ hc, hspent⟩
      · exact List.forall_mem_cons.mpr ⟨(fun _ hin => nomatch hin), h.heldBelow⟩
      · exact List.forall_mem_cons.mpr ⟨(fun _ hin => nomatch hin), h.params⟩
      · exact List.forall_mem_cons.mpr ⟨trivial, h.able⟩
  | schedule r time =>
      refine h.quiet ⟨rfl, rfl, Nat.le_succ _, fun id hid hrow => ?_⟩
      obtain ⟨row, hrow, rfl⟩ := hrow
      rcases List.mem_append.mp hrow with hrow | hrow
      · exact ⟨row, hrow, rfl⟩
      · rw [List.mem_singleton.mp hrow] at hid
        exact absurd hid (Nat.lt_irrefl _)
  | updateScheduledStatus id accountId scheduledAt now =>
      exact h.quiet (quiet_updateScheduledStatus id accountId scheduledAt now)
  | deleteScheduledStatus id accountId => exact h.quiet (quiet_deleteScheduled s _)

end

theorem invariant (e : Env) (before : List Status) :
    GuardedInvariant (machine e) (Inv before) careful where
  perm := Inv.perm
  enter r h _ := inv_enter r h
  exec _ h hg := inv_exec h hg

/-! ### What is removed -/

theorem scheduled_exec {e : Env} {before : List Status} {s : Store} {call : Phase}
    {calls : List Phase} (w : Outcome) (h : Inv before s (call :: calls)) :
    (Publishing.exec e s call w).1.world.scheduled = s.world.scheduled ∨
      ∃ row rest, call = .forgetSchedule row rest ∧
        (Publishing.exec e s call w).1 = s.deleteScheduled (·.id = row.id) := by
  have hable : Able call := h.able call List.mem_cons_self
  unfold Publishing.exec
  split
  · exact .inl rfl
  · cases call with
    | select =>
        refine .inl ?_
        dsimp only
        split <;> rfl
    | load row left rest =>
        refine .inl ?_
        change (left.next w.fails s.world).1.scheduled = _
        rw [← (hable.1.next (fun _ => rfl) w.fails s.world).1]
    | insert row p d rest =>
        refine .inl ?_
        change (insertion e s row p d rest w).1.world.scheduled = _
        rcases insertion_cases (e := e) (s := s) (w := w) row p d rest with heq | ⟨_, heq⟩
        · rw [heq]
        · rw [heq]
          change (insertRow d s.world).scheduled = _
          rw [insertRow]
          split <;> rfl
    | follow row left rest =>
        refine .inl ?_
        change (left.next w.fails s.world).1.scheduled = _
        exact (hable.1.next Kept.refl w.fails s.world).1.scheduled
    | forgetAttempts row rest =>
        refine .inl ?_
        dsimp only
        split <;> rfl
    | forgetSchedule row rest =>
        dsimp only
        split
        · exact .inl rfl
        · exact .inr ⟨row, rest, rfl, rfl⟩
    | recordFailure row rest =>
        refine .inl ?_
        dsimp only
        split <;> rfl
    | park row rest =>
        refine .inl ?_
        dsimp only
        split <;> rfl

theorem remains_deleteScheduled {s : Store} {p : Scheduled → Bool} {row : Scheduled}
    (hrow : row ∈ s.world.scheduled.rows) (h : p row = false) :
    Remains (s.deleteScheduled p) row.id :=
  ⟨row, List.mem_filter.mpr ⟨hrow, by rw [h]; rfl⟩, rfl⟩

def RemovedRightly (s : Store) (event : Event Publishing.Request Outcome) (t : Store) : Prop :=
  ∀ row ∈ s.world.scheduled.rows, ¬ Remains t row.id →
    row.id ∈ publishedIds s ∨ event = .request (.deleteScheduledStatus row.id row.accountId)

theorem removedRightly_step {e : Env} {before : List Status} {c : Config Store Phase}
    (h : Inv before c.store c.calls) (event : Event Publishing.Request Outcome) :
    RemovedRightly c.store event ((machine e).step c event).store := by
  intro row hrow hgone
  cases event with
  | request r =>
      cases r with
      | publishDueStatuses => exact absurd ⟨row, hrow, rfl⟩ hgone
      | schedule r time => exact absurd ⟨row, List.mem_append_left _ hrow, rfl⟩ hgone
      | updateScheduledStatus id accountId scheduledAt now =>
          refine absurd ?_ hgone
          change Remains (updateScheduledStatus c.store id accountId scheduledAt now) row.id
          unfold updateScheduledStatus
          split
          · exact ⟨row, hrow, rfl⟩
          · refine ⟨_, List.mem_map_of_mem hrow, ?_⟩
            split <;> rfl
      | deleteScheduledStatus id accountId =>
          by_cases hid : row.id = id ∧ row.accountId = accountId
          · obtain ⟨rfl, rfl⟩ := hid
            exact .inr rfl
          · exact absurd (remains_deleteScheduled hrow (decide_eq_false hid)) hgone
  | advance k w =>
      refine .inl ?_
      rw [Machine.step] at hgone
      cases hcall : c.calls[k]? with
      | none =>
          rw [hcall] at hgone
          exact absurd ⟨row, hrow, rfl⟩ hgone
      | some call =>
          rw [hcall] at hgone
          change ¬ Remains (Publishing.exec e c.store call w).1 row.id at hgone
          have hcalls := h.perm (perm_of_getElem? hcall)
          rcases scheduled_exec (e := e) w hcalls with hsame | ⟨spentRow, rest, rfl, hdeletes⟩
          · rw [Remains, hsame] at hgone
            exact absurd ⟨row, hrow, rfl⟩ hgone
          · by_cases hid : row.id = spentRow.id
            · rw [hid]
              exact hcalls.published _ List.mem_cons_self spentRow rfl
            · rw [hdeletes] at hgone
              exact absurd (remains_deleteScheduled hrow (decide_eq_false hid)) hgone

/-- All that is new are the statuses published, and no schedule has given two. -/
structure OnePerSchedule (s t : Store) : Prop where
  made : t.world.db.statuses.rows = s.world.db.statuses.rows ++ t.published.map (·.2)
  once : (publishedIds t).Nodup

/-- All through a run each schedule gives one status at most, and none is removed but after
its publication or by its owner. -/
structure PublishesOnce (e : Env) (s : Store) (es : List (Event Publishing.Request Outcome)) :
    Prop where
  once : ∀ before, before <+: es →
    OnePerSchedule s (run (machine e).step ⟨s, []⟩ before).store
  removed : ∀ before event, before ++ [event] <+: es →
    RemovedRightly (run (machine e).step ⟨s, []⟩ before).store event
      (run (machine e).step ⟨s, []⟩ (before ++ [event])).store

theorem careful_passes_publish_once (e : Env) (s : Store)
    (es : List (Event Publishing.Request Outcome)) (hs : s.published = [])
    (hg : Guarded (machine e).step careful.meets ⟨s, []⟩ es) : PublishesOnce e s es := by
  have hstart : Inv s.world.db.statuses.rows s [] := by
    refine ⟨by simp [hs], by simp [publishedIds, hs], List.nodup_nil, ?_, ?_, ?_, ?_, ?_, ?_, ?_⟩
    all_goals simp [publishedIds, hs]
  have hinv (before : List (Event Publishing.Request Outcome)) (hb : before <+: es) :
      Inv s.world.db.statuses.rows (run (machine e).step ⟨s, []⟩ before).store
        (run (machine e).step ⟨s, []⟩ before).calls := by
    obtain ⟨rest, rfl⟩ := hb
    exact (invariant e _).run ⟨s, []⟩ before hstart ((guarded_append _ before rest).mp hg).1
  constructor
  · intro before hb
    exact ⟨(hinv before hb).made, (hinv before hb).once⟩
  · intro before event hb
    rw [run_append]
    exact removedRightly_step (hinv before ((List.prefix_append before [event]).trans hb)) event

/-! ### Passes that overlap -/

def dueRow : Scheduled where
  id := 1
  accountId := 1
  scheduledAt := some minute
  params := some (paramsOf (hello none 0 1).form)

def oneDue : Store where
  world := { aliceOnly with
    scheduled := Serial.empty.insert (fun id => { dueRow with id := id }) fun _ => rfl }
  attempts := fun _ => none
  published := []

def carries (k statusId : ℕ) : Event Publishing.Request Outcome :=
  .advance k ⟨false, false, hour, statusId⟩

def stops (k : ℕ) : Event Publishing.Request Outcome := .advance k ⟨true, false, hour, 0⟩

/-- A pass over the schedule, from its first read to its end. -/
def wholePass (statusId : ℕ) : List (Event Publishing.Request Outcome) :=
  .request .publishDueStatuses :: List.replicate 11 (carries 0 statusId)

/-- A pass that is stopped before it inserts, and another one that is not. -/
def restarted : List (Event Publishing.Request Outcome) :=
  .request .publishDueStatuses :: carries 0 10 :: stops 0 :: wholePass 11

theorem careful_passes_publish_once_restarted :
    PublishesOnce plainEnv oneDue restarted ∧
      publishedIds (run (machine plainEnv).step ⟨oneDue, []⟩ restarted).store = [1] ∧
      ¬ Remains (run (machine plainEnv).step ⟨oneDue, []⟩ restarted).store 1 :=
  ⟨careful_passes_publish_once plainEnv oneDue restarted rfl (by decide +kernel),
    by decide +kernel, by decide +kernel⟩

/-- Two processes read the schedule before either has published it. -/
def overlapping : List (Event Publishing.Request Outcome) :=
  [.request .publishDueStatuses, .request .publishDueStatuses, carries 0 10, carries 1 11] ++
    List.replicate 4 (carries 0 10) ++ List.replicate 4 (carries 1 11)

/-- A process stops once it has inserted the status. -/
def interrupted : List (Event Publishing.Request Outcome) :=
  .request .publishDueStatuses :: List.replicate 5 (carries 0 10) ++ stops 0 :: wholePass 11

theorem not_publishesOnce_of_two {e : Env} {s : Store}
    {es : List (Event Publishing.Request Outcome)}
    (h : publishedIds (run (machine e).step ⟨s, []⟩ es).store = [1, 1]) :
    ¬ PublishesOnce e s es := by
  intro honce
  have hnodup := (honce.once es (List.prefix_refl es)).once
  rw [h] at hnodup
  exact absurd hnodup (by decide)

/-- Both ways the schedule is published twice. -/
theorem schedule_published_twice :
    ¬ PublishesOnce plainEnv oneDue overlapping ∧
      ¬ PublishesOnce plainEnv oneDue interrupted :=
  ⟨not_publishesOnce_of_two (by decide +kernel), not_publishesOnce_of_two (by decide +kernel)⟩

end Eunha.PublishedOnce
