import Eunha.PostEffects
import Eunha.Runs
import Mathlib.Data.String.Basic

/-!
# Retrying a post

Attempts to post with one idempotency key, one after another, each with statements that
fail. Whatever fails, the part of a post up to its first write leaves everything as it was.
The first attempt that gets through creates the one status, and the later ones find it by
the key, as long as three things hold: nothing fails between the status and the answer, the
key can be read back, and nothing follows an attempt that scheduled.
-/
namespace Eunha.PostRetries
open Tables Database Posting PostEffects Programs Program Runs

/-! ### What a request decides on -/

section
variable {e : Env} {r : Request} {fails : Statement → Bool} {w : World}

/-- What the read of the key answers. -/
def recalled (fails : Statement → Bool) (w : World) (r : Request) : Option ℕ :=
  r.idempotencyKey.bind fun key =>
    if fails .getKey then none else storedKey w (r.accountId, key) r.now

def replayed (fails : Statement → Bool) (w : World) (r : Request) : Option ℕ :=
  (recalled fails w r).filter fun id => (w.db.keptStatus id).isSome

theorem yields_replay :
    Yields fails w (replay r) fun a t => t = w ∧ a = replayed fails w r := by
  unfold replay
  split
  next hkey =>
    refine .done ⟨rfl, ?_⟩
    rw [replayed, recalled, hkey]
    rfl
  next key hkey =>
    have hstored : Yields fails w
        (askOr .getKey (fun w => storedKey w (r.accountId, key) r.now) none : Post _)
        fun a t => t = w ∧ a = recalled fails w r := by
      refine .askOr (fun hget => ⟨rfl, ?_⟩) fun hget => ⟨rfl, ?_⟩
      · rw [recalled, hkey, Option.bind_some, hget]
        rfl
      · rw [recalled, hkey, Option.bind_some, hget]
        rfl
    refine hstored.bind fun stored t hs => ?_
    obtain ⟨rfl, rfl⟩ := hs
    split
    next hnone =>
      refine .done ⟨rfl, ?_⟩
      rw [replayed, hnone]
      rfl
    next id hsome =>
      refine Yields.bind (.ask (Q := fun a u => u = t ∧ a = t.db.keptStatus id) ⟨rfl, rfl⟩)
        fun kept u hk => ?_
      obtain ⟨rfl, rfl⟩ := hk
      split
      next hnone =>
        refine .done ⟨rfl, ?_⟩
        rw [replayed, hsome, Option.filter_some, hnone]
        rfl
      next status hkept =>
        refine Yields.bind (reads_read _ _).yields fun _ v hv => ?_
        refine Yields.bind (reads_read _ _).yields fun _ v' hv' => ?_
        refine .done ⟨hv'.trans hv, ?_⟩
        obtain ⟨_, rfl, _⟩ := Db.keptStatus_mem hkept
        rw [replayed, hsome, Option.filter_some, hkept]
        rfl

theorem yields_plan :
    Yields fails w (plan e r) fun p t => t = w ∧
      match replayed fails w r with
      | some id => p = .replay id
      | none => ∀ id, p ≠ .replay id := by
  refine Yields.bind (reads_fetchAccount _).yields fun found t ht => ?_
  subst ht
  refine yields_replay.bind fun a u hu => ?_
  obtain ⟨rfl, rfl⟩ := hu
  cases replayed fails _ r with
  | some id => exact .done ⟨rfl, rfl⟩
  | none =>
      refine Yields.bind (reads_attempt _).yields fun _ t ht => ?_
      refine Yields.bind (reads_schedule e r).yields fun scheduled v hv => ?_
      split
      · exact .done ⟨hv.trans ht, fun id hid => by cases hid⟩
      · refine Yields.bind (reads_prepare e _ _ r).yields fun draft v' hv' => ?_
        exact .done ⟨hv'.trans (hv.trans ht), fun id hid => by cases hid⟩

def decided (e : Env) (fails : Statement → Bool) (w : World) (r : Request) :
    Except Error Plan :=
  ((plan e r).run fails w).2

theorem run_plan : (plan e r).run fails w = (w, decided e fails w r) :=
  run_of_reads (reads_plan e r) fails w

theorem postStatus_of_error {error : Error} (h : decided e fails w r = .error error) :
    (postStatus e r).run fails w = (w, .error error) :=
  run_bind_error (run_plan.trans (by rw [h]))

theorem postStatus_of_plan {p : Plan} (h : decided e fails w r = .ok p) :
    (postStatus e r).run fails w = (carryOut e r p).run fails w :=
  run_bind_ok (run_plan.trans (by rw [h]))

theorem decided_of_replayed {id : ℕ} {p : Plan} (hid : replayed fails w r = some id)
    (h : decided e fails w r = .ok p) : p = .replay id := by
  have hplan := (yields_plan w p (run_plan.trans (by rw [h]))).2
  rw [hid] at hplan
  exact hplan

theorem decided_of_not_replayed {id : ℕ} (hnone : replayed fails w r = none) :
    decided e fails w r ≠ .ok (.replay id) := by
  intro h
  have hplan := (yields_plan w _ (run_plan.trans (by rw [h]))).2
  rw [hnone] at hplan
  exact hplan id rfl

/-! ### What a request writes -/

theorem id_scheduled (r : Request) (time : ℤ) (id : ℕ) :
    ({ id := id
       accountId := r.accountId
       scheduledAt := some time
       params := some (paramsOf r.form) } : Scheduled).id = id := rfl

def scheduledAt (w : World) (r : Request) (time : ℤ) : World :=
  { w with
    scheduled := w.scheduled.insert
      (fun id =>
        { id := id
          accountId := r.accountId
          scheduledAt := some time
          params := some (paramsOf r.form) }) (id_scheduled r time) }

theorem carryOut_schedule (time : ℤ) :
    (carryOut e r (.schedule time)).run fails w =
      if fails .insertScheduled then (w, .error .database)
      else (scheduledAt w r time, .ok (.scheduled w.scheduled.next)) := by
  cases h : fails .insertScheduled with
  | true =>
      rw [carryOut, run_bind, insertScheduled, Program.run, h]
      rfl
  | false =>
      rw [carryOut, run_bind, insertScheduled, Program.run, h]
      rfl

def Goes (fails : Statement → Bool) (w : World) (d : Draft) : Prop :=
  fails .insertStatus = false ∧ refused w d = false

theorem carryOut_post_refused {account : Account} {idScheme : Option ℤ} {d : Draft}
    (h : ¬ Goes fails w d) :
    (carryOut e r (.post account idScheme d)).run fails w = (w, .error .database) := by
  have hrow : (insertStatus d).run fails w = (w, .error .database) := by
    rw [insertStatus, Program.run]
    split
    · rfl
    next hfails =>
      have hrefused : refused w d = true := by
        by_contra hnot
        exact h ⟨by simpa using hfails, by simpa using hnot⟩
      rw [if_pos hrefused, insertRow, if_pos hrefused]
      rfl
  exact run_bind_error hrow

theorem keys_recordKey (id : ℕ) (key : ℕ × String) (entry : ℕ × ℤ)
    (h : ((recordKey r id).run fails w).1.keys key = some entry) :
    w.keys key = some entry ∨ entry = (id, r.now + keyLifetime) := by
  unfold recordKey at h
  split at h
  · exact .inl h
  next k hk =>
    rw [Program.run] at h
    split at h
    · exact .inl h
    · by_cases hsame : key = (r.accountId, k)
      · subst hsame
        rw [Program.run] at h
        dsimp only at h
        rw [Function.update_self, Option.some.injEq] at h
        exact .inr h.symm
      · rw [Program.run] at h
        dsimp only at h
        rw [Function.update_of_ne hsame] at h
        exact .inl h

theorem carryOut_post {account : Account} {idScheme : Option ℤ} {d : Draft}
    (h : Goes fails w d) (hwhole : Whole fails) :
    ∃ w', (carryOut e r (.post account idScheme d)).run fails w = (w', .ok (.status d.id)) ∧
      w'.db.statuses = w.db.statuses.insert d.row ∧ w'.scheduled = w.scheduled ∧
      ∀ key entry, w'.keys key = some entry →
        w.keys key = some entry ∨ entry = (d.id, r.now + keyLifetime) := by
  have hrow : (insertStatus d).run fails w = (insertRow d w, .ok ()) := by
    rw [insertStatus, Program.run, h.1, h.2]
    rfl
  have hinserted : (insertRow d w).db.statuses = w.db.statuses.insert d.row ∧
      (insertRow d w).scheduled = w.scheduled ∧ (insertRow d w).keys = w.keys := by
    rw [insertRow, h.2]
    exact ⟨rfl, rfl, rfl⟩
  have hsound := sound_attach e account idScheme r d hwhole
  obtain ⟨w₁, _, hattach⟩ := hsound.completes (insertRow d w)
  have hkept : Spared (insertRow d w) ((attach e account idScheme r d).run fails
      (insertRow d w)).1 := hsound.always.run Spared.refl Spared.trans _
  rw [hattach] at hkept
  have hrecord : (recordKey r d.id).run fails w₁ = (((recordKey r d.id).run fails w₁).1, .ok ()) ∧
      ((recordKey r d.id).run fails w₁).1.db = w₁.db ∧
      ((recordKey r d.id).run fails w₁).1.scheduled = w₁.scheduled := by
    rw [recordKey]
    split
    · exact ⟨rfl, rfl, rfl⟩
    · rw [Program.run]
      split <;> exact ⟨rfl, rfl, rfl⟩
  refine ⟨((recordKey r d.id).run fails w₁).1, ?_, ?_, ?_, fun key entry hentry => ?_⟩
  · rw [carryOut, run_bind_ok hrow, run_bind_ok hattach, run_bind_ok hrecord.1]
    rfl
  · rw [hrecord.2.1, hkept.statuses, hinserted.1]
  · rw [hrecord.2.2, hkept.scheduled, hinserted.2.1]
  · have hstored := keys_recordKey d.id key entry hentry
    rwa [hkept.keys, hinserted.2.2] at hstored

end

/-! ### Attempts -/

/-- A request that is tried, and the statements of it that fail. -/
structure Attempt where
  request : Request
  fails : Statement → Bool

/-- What the attempts so far have left, and how each was answered. -/
structure History where
  world : World
  answers : List (Except Error Answer)

section
variable (e : Env) (accountId : ℕ) (key : String)

def Attempt.keyed (a : Attempt) : Request :=
  { a.request with accountId := accountId, idempotencyKey := some key }

def step (h : History) (a : Attempt) : History :=
  let (world, answer) := (postStatus e (a.keyed accountId key)).run a.fails h.world
  ⟨world, h.answers ++ [answer]⟩

def created (start w : World) : List Answer :=
  (w.db.statuses.rows.filter fun s => !start.db.statuses.rows.any (·.id = s.id)).map
      (.status ·.id) ++
    (w.scheduled.rows.filter fun s => decide (start.scheduled.next ≤ s.id)).map (.scheduled ·.id)

/-- At most one status or schedule came of the attempts, and every attempt that succeeded
was answered with it. -/
def Once (start : World) (h : History) : Prop :=
  ∃ item : Option Answer, created start h.world = item.toList ∧
    ∀ answer, .ok answer ∈ h.answers → item = some answer

def WithinSixHours (attempts : List Attempt) : Prop :=
  ∀ a ∈ attempts, ∀ b ∈ attempts, b.request.now < a.request.now + keyLifetime

instance (attempts : List Attempt) : Decidable (WithinSixHours attempts) :=
  inferInstanceAs (Decidable (∀ a ∈ attempts, ∀ b ∈ attempts, _))

/-- Nothing goes wrong that a retry cannot make up for: nothing fails between the status
and its answer; once a status was answered with, its key was stored and can be read; and
nothing gets through after a schedule was answered with. -/
structure Careful (h : History) (a : Attempt) : Prop where
  whole : ∀ account idScheme d,
    decided e a.fails h.world (a.keyed accountId key) = .ok (.post account idScheme d) →
      Goes a.fails h.world d → Whole a.fails
  heard : (∃ id, .ok (.status id) ∈ h.answers) →
    (h.world.keys (accountId, key)).isSome ∧ a.fails .getKey = false ∨
      ∃ error, decided e a.fails h.world (a.keyed accountId key) = .error error
  alone : (∃ id, .ok (.scheduled id) ∈ h.answers) →
    ∃ error, decided e a.fails h.world (a.keyed accountId key) = .error error

/-! ### How far the attempts have come -/

inductive Progress (attempts : List Attempt) (start : World) (h : History) : Prop where
  | nothing (statuses : h.world.db.statuses = start.db.statuses)
      (scheduled : h.world.scheduled = start.scheduled)
      (key : h.world.keys (accountId, key) = none)
      (answers : ∀ answer, .ok answer ∉ h.answers)
  | posted (row : Status) (statuses : h.world.db.statuses.rows = start.db.statuses.rows ++ [row])
      (free : ¬ start.db.statuses.Taken row) (kept : row.deleted = false)
      (scheduled : h.world.scheduled = start.scheduled)
      (key : ∀ entry, h.world.keys (accountId, key) = some entry → entry.1 = row.id ∧
        ∀ b ∈ attempts, b.request.now < entry.2)
      (answered : .ok (.status row.id) ∈ h.answers)
      (answers : ∀ answer, .ok answer ∈ h.answers → answer = .status row.id)
  | planned (row : Scheduled)
      (statuses : h.world.db.statuses = start.db.statuses)
      (scheduled : h.world.scheduled.rows = start.scheduled.rows ++ [row])
      (id : row.id = start.scheduled.next)
      (answered : .ok (.scheduled row.id) ∈ h.answers)
      (answers : ∀ answer, .ok answer ∈ h.answers → answer = .scheduled row.id)

variable {e accountId key} {attempts : List Attempt} {start : World} {h : History}

theorem old_statuses (start : World) :
    (start.db.statuses.rows.filter fun s => !start.db.statuses.rows.any (·.id = s.id)) = [] := by
  rw [List.filter_eq_nil_iff]
  intro s hs hnew
  have hold : start.db.statuses.rows.any (·.id = s.id) = true :=
    List.any_eq_true.mpr ⟨s, hs, by simp⟩
  rw [hold] at hnew
  cases hnew

theorem old_scheduled (start : World) :
    (start.scheduled.rows.filter fun s => decide (start.scheduled.next ≤ s.id)) = [] := by
  rw [List.filter_eq_nil_iff]
  intro s hs hnew
  exact absurd (start.scheduled.below s hs) (by simpa using hnew)

theorem Progress.once (hp : Progress accountId key attempts start h) : Once start h := by
  cases hp with
  | nothing statuses scheduled key answers =>
      refine ⟨none, ?_, fun answer hok => absurd hok (answers answer)⟩
      rw [created, statuses, scheduled, old_statuses, old_scheduled]
      rfl
  | posted row statuses free kept scheduled key answered answers =>
      refine ⟨some (.status row.id), ?_, fun answer hok => by rw [answers answer hok]⟩
      have hnew : start.db.statuses.rows.any (·.id = row.id) = false := by
        rw [List.any_eq_false]
        intro s hs hsame
        refine free ⟨s, hs, .id row.id, ?_, List.mem_cons_self⟩
        rw [Status.keys, of_decide_eq_true hsame]
        exact List.mem_cons_self
      rw [created, statuses, scheduled, List.filter_append, old_statuses, old_scheduled,
        List.filter_singleton, hnew]
      rfl
  | planned row statuses scheduled id answered answers =>
      refine ⟨some (.scheduled row.id), ?_, fun answer hok => by rw [answers answer hok]⟩
      have hnew : decide (start.scheduled.next ≤ row.id) = true := decide_eq_true id.ge
      rw [created, statuses, scheduled, List.filter_append, old_statuses, old_scheduled,
        List.filter_singleton, hnew]
      rfl

theorem Progress.error (hp : Progress accountId key attempts start h) (error : Error) :
    Progress accountId key attempts start ⟨h.world, h.answers ++ [.error error]⟩ := by
  have hok (answer : Answer) : .ok answer ∈ h.answers ++ [.error error] ↔
      .ok answer ∈ h.answers := by simp
  cases hp with
  | nothing statuses scheduled key answers =>
      exact .nothing statuses scheduled key fun answer => (hok answer).not.mpr (answers answer)
  | posted row statuses free kept scheduled key answered answers =>
      exact .posted row statuses free kept scheduled key ((hok _).mpr answered)
        fun answer h => answers answer ((hok answer).mp h)
  | planned row statuses scheduled id answered answers =>
      exact .planned row statuses scheduled id ((hok _).mpr answered)
        fun answer h => answers answer ((hok answer).mp h)

theorem Progress.again {row : Status} (hp : Progress accountId key attempts start h)
    (answered : .ok (.status row.id) ∈ h.answers) :
    Progress accountId key attempts start ⟨h.world, h.answers ++ [.ok (.status row.id)]⟩ := by
  have hok (answer : Answer) : .ok answer ∈ h.answers ++ [.ok (.status row.id)] ↔
      .ok answer ∈ h.answers := by
    rw [List.mem_append, List.mem_singleton, Except.ok.injEq, or_iff_left_iff_imp]
    rintro rfl
    exact answered
  cases hp with
  | nothing statuses scheduled key answers =>
      exact .nothing statuses scheduled key fun answer => (hok answer).not.mpr (answers answer)
  | posted row' statuses free kept scheduled key answered' answers =>
      exact .posted row' statuses free kept scheduled key ((hok _).mpr answered')
        fun answer h => answers answer ((hok answer).mp h)
  | planned row' statuses scheduled id answered' answers =>
      exact .planned row' statuses scheduled id ((hok _).mpr answered')
        fun answer h => answers answer ((hok answer).mp h)

theorem Progress.planned_of_nothing {r : Request}
    (statuses : h.world.db.statuses = start.db.statuses)
    (scheduled : h.world.scheduled = start.scheduled)
    (answers : ∀ answer, .ok answer ∉ h.answers) (time : ℤ) :
    Progress accountId key attempts start
      ⟨scheduledAt h.world r time, h.answers ++ [.ok (.scheduled h.world.scheduled.next)]⟩ := by
  refine .planned
    { id := h.world.scheduled.next
      accountId := r.accountId
      scheduledAt := some time
      params := some (paramsOf r.form) } statuses ?_ ?_ (by simp) fun answer hok => ?_
  · rw [← scheduled]
    rfl
  · rw [← scheduled]
  · simpa [answers answer] using hok

theorem Progress.posted_of_nothing {a : Attempt} {w' : World} {d : Draft}
    (hwithin : ∀ b ∈ attempts, b.request.now < a.request.now + keyLifetime)
    (statuses : h.world.db.statuses = start.db.statuses)
    (scheduled : h.world.scheduled = start.scheduled)
    (hkey : h.world.keys (accountId, key) = none)
    (answers : ∀ answer, .ok answer ∉ h.answers) (hgoes : Goes a.fails h.world d)
    (hstatuses : w'.db.statuses = h.world.db.statuses.insert d.row)
    (hscheduled : w'.scheduled = h.world.scheduled)
    (hkeys : ∀ k entry, w'.keys k = some entry →
      h.world.keys k = some entry ∨ entry = (d.id, a.request.now + keyLifetime)) :
    Progress accountId key attempts start ⟨w', h.answers ++ [.ok (.status d.id)]⟩ := by
  have hfree : ¬ start.db.statuses.Taken d.row := by
    intro htaken
    have hrefused := hgoes.2
    rw [refused, statuses, decide_eq_true htaken] at hrefused
    cases hrefused
  refine .posted d.row ?_ hfree rfl (hscheduled.trans scheduled) (fun entry hentry => ?_)
    (List.mem_append_right _ List.mem_cons_self) fun answer hok => ?_
  · rw [← Table.rows_insert hfree, ← statuses, ← hstatuses]
  · rcases hkeys _ entry hentry with hold | rfl
    · rw [hkey] at hold
      cases hold
    · exact ⟨rfl, hwithin⟩
  · have hanswer : answer = .status d.id := by simpa [answers answer] using hok
    exact hanswer

theorem replayed_of_key {fails : Statement → Bool} {w : World} {a : Attempt} {row : Status}
    (hrow : row ∈ w.db.statuses.rows) (hkept : row.deleted = false)
    (hkey : ∀ entry, w.keys (accountId, key) = some entry → entry.1 = row.id ∧
      a.request.now < entry.2)
    (hstored : (w.keys (accountId, key)).isSome) (hget : fails .getKey = false) :
    replayed fails w (a.keyed accountId key) = some row.id := by
  obtain ⟨⟨id, expiry⟩, hentry⟩ := Option.isSome_iff_exists.mp hstored
  obtain ⟨rfl, hnow⟩ := hkey _ hentry
  have hsome : (w.db.keptStatus row.id).isSome := by
    rw [Db.keptStatus, List.find?_isSome]
    exact ⟨row, hrow, by simp [hkept]⟩
  have hread : storedKey w (accountId, key) a.request.now = some row.id := by
    rw [storedKey, hentry, Option.filter_some, if_pos (decide_eq_true hnow)]
    rfl
  have hrecalled : recalled fails w (a.keyed accountId key) = some row.id := by
    change (if fails .getKey then none else storedKey w (accountId, key) a.request.now) = _
    rw [hget, hread]
    rfl
  rw [replayed, hrecalled, Option.filter_some, if_pos hsome]

theorem progress_postStatus {a : Attempt}
    (hwithin : ∀ b ∈ attempts, b.request.now < a.request.now + keyLifetime)
    (ha : a ∈ attempts) (hp : Progress accountId key attempts start h)
    (hg : Careful e accountId key h a) :
    ∃ w' result, (postStatus e (a.keyed accountId key)).run a.fails h.world = (w', result) ∧
      Progress accountId key attempts start ⟨w', h.answers ++ [result]⟩ ∧
      ∀ error, result = .error error → w' = h.world := by
  cases hdecided : decided e a.fails h.world (a.keyed accountId key) with
  | error error =>
      exact ⟨h.world, .error error, postStatus_of_error hdecided, hp.error error,
        fun _ _ => rfl⟩
  | ok p =>
      rw [postStatus_of_plan hdecided]
      have hp' := hp
      cases hp with
      | posted row statuses free kept scheduled hkey answered answers =>
          have hrow : row ∈ h.world.db.statuses.rows := by
            rw [statuses]
            exact List.mem_append_right _ List.mem_cons_self
          rcases hg.heard ⟨row.id, answered⟩ with ⟨hstored, hget⟩ | ⟨error, herror⟩
          · have hreplayed := replayed_of_key (a := a) hrow kept
              (fun entry hentry => ⟨(hkey entry hentry).1, (hkey entry hentry).2 a ha⟩)
              hstored hget
            obtain rfl := decided_of_replayed hreplayed hdecided
            exact ⟨h.world, .ok (.status row.id), rfl, hp'.again answered,
              fun error herror => by cases herror⟩
          · rw [hdecided] at herror
            cases herror
      | planned row statuses scheduled id answered answers =>
          obtain ⟨error, herror⟩ := hg.alone ⟨row.id, answered⟩
          rw [hdecided] at herror
          cases herror
      | nothing statuses scheduled hkey answers =>
          cases p with
          | replay id =>
              have hnone : replayed a.fails h.world (a.keyed accountId key) = none := by
                have hrecalled : recalled a.fails h.world (a.keyed accountId key) = none := by
                  simp only [recalled, Attempt.keyed, Option.bind_some, storedKey, hkey]
                  split <;> rfl
                rw [replayed, hrecalled]
                rfl
              exact absurd hdecided (decided_of_not_replayed hnone)
          | schedule time =>
              rw [carryOut_schedule]
              split
              · exact ⟨h.world, _, rfl, hp'.error _, fun _ _ => rfl⟩
              · exact ⟨_, _, rfl, .planned_of_nothing statuses scheduled answers time,
                  fun error herror => by cases herror⟩
          | post account idScheme d =>
              by_cases hgoes : Goes a.fails h.world d
              · obtain ⟨w', hrun, hstatuses, hscheduled, hkeys⟩ :=
                  carryOut_post (r := a.keyed accountId key) hgoes
                    (hg.whole account idScheme d hdecided hgoes)
                refine ⟨w', _, hrun, ?_, fun error herror => by cases herror⟩
                exact .posted_of_nothing hwithin statuses scheduled hkey answers hgoes hstatuses
                  hscheduled hkeys
              · exact ⟨h.world, _, carryOut_post_refused hgoes, hp'.error _, fun _ _ => rfl⟩

theorem step_of_run {a : Attempt} {w' : World} {result : Except Error Answer}
    (hrun : (postStatus e (a.keyed accountId key)).run a.fails h.world = (w', result)) :
    step e accountId key h a = ⟨w', h.answers ++ [result]⟩ := by
  rw [step, hrun]

def RetrySafe (e : Env) (accountId : ℕ) (key : String) (start : World)
    (attempts : List Attempt) : Prop :=
  ∀ before, before <+: attempts →
    Once start (run (step e accountId key) ⟨start, []⟩ before) ∧
      ∀ a, before ++ [a] <+: attempts → ∀ error,
        (run (step e accountId key) ⟨start, []⟩ (before ++ [a])).answers.getLast? =
            some (.error error) →
          (run (step e accountId key) ⟨start, []⟩ (before ++ [a])).world =
            (run (step e accountId key) ⟨start, []⟩ before).world

/-- However the attempts fail, retrying them carefully is safe. -/
theorem careful_retries_safe (e : Env) (accountId : ℕ) (key : String) (start : World)
    (attempts : List Attempt) (hkey : start.keys (accountId, key) = none)
    (hwithin : WithinSixHours attempts)
    (hg : Guarded (step e accountId key) (Careful e accountId key) ⟨start, []⟩ attempts) :
    RetrySafe e accountId key start attempts := by
  intro before hbefore
  have hprogress : Progress accountId key attempts start
      (run (step e accountId key) ⟨start, []⟩ before) := by
    obtain ⟨rest, rfl⟩ := hbefore
    have hmem : Guarded (step e accountId key) (fun _ a => a ∈ before ++ rest) ⟨start, []⟩
        before := guarded_of_forall _ _ fun a ha => List.mem_append_left _ ha
    refine run_guarded (P := Progress accountId key (before ++ rest) start)
      (fun h a hp hcare => ?_) _ before (.nothing rfl rfl hkey fun _ => List.not_mem_nil)
      (guarded_and ((guarded_append _ before rest).mp hg).1 hmem)
    obtain ⟨w', result, hrun, hp', _⟩ :=
      progress_postStatus (hwithin a hcare.2) hcare.2 hp hcare.1
    rw [step_of_run hrun]
    exact hp'
  refine ⟨hprogress.once, fun a ha error hlast => ?_⟩
  obtain ⟨rest, rfl⟩ := ha
  have hcare := ((guarded_append _ before _).mp (by rwa [List.append_assoc] at hg)).2
  have hmem : a ∈ before ++ [a] ++ rest := by simp
  obtain ⟨w', result, hrun, _, hsame⟩ :=
    progress_postStatus (hwithin a hmem) hmem hprogress hcare.1
  rw [run_append, run_cons, run_nil, step_of_run hrun] at hlast ⊢
  rw [List.getLast?_concat, Option.some.injEq] at hlast
  exact hsame error hlast

end

/-! ### A post that is retried -/

def plainEnv : Env where
  domain := "example.com"
  countableLength := fun text spoilerText => text.length + spoilerText.length
  graphemes := String.length
  extractHashtags := fun _ => []
  extractMentionHandles := fun _ => []
  tagName := id
  lower := String.toLower
  resolveActor := fun _ _ => none
  supportedLocale := (· = "en")
  parseRfc3339 := fun _ => some (10 * minute)
  hasSigningKey := fun _ => true
  reach := fun _ _ _ => []

def alice : Account where
  id := 1
  username := "alice"
  domain := none
  uri := none
  locked := false
  silenced := false
  unavailable := false
  movedToAccountId := none

def aliceOnly : World where
  db := { Db.empty with accounts := Table.empty.insert alice }
  quotePolicies := fun _ => 0
  mentions := []
  quotes := .empty
  idSchemes := fun _ => none
  inboxUrls := fun _ => ""
  settings := fun _ _ => none
  columns := fun _ => none
  media := .empty
  polls := .empty
  hideTotals := fun _ => false
  tags := []
  nextConversationId := 1
  accountConversations := []
  scheduled := .empty
  keys := fun _ => none
  deliveries := []

def hello (scheduledAt : Option String) (now : ℤ) (statusId : ℕ) : Request where
  accountId := 1
  applicationId := none
  idempotencyKey := none
  form :=
    { status := some "hello"
      inReplyToId := none
      quotedStatusId := none
      quoteApprovalPolicy := none
      spoilerText := none
      sensitive := none
      language := none
      visibility := none
      mediaIds := none
      poll := none
      scheduledAt := scheduledAt
      allowedMentions := none }
  now := now
  statusId := statusId
  quoteId := statusId
  quoteRequestId := ""

def lostAnswers : List Attempt :=
  [⟨hello none 0 10, (· = .insertStatus)⟩, ⟨hello none second 11, fun _ => false⟩,
    ⟨hello none (2 * second) 12, fun _ => false⟩]

theorem careful_retries_safe_lostAnswers :
    RetrySafe plainEnv 1 "key" aliceOnly lostAnswers ∧
      created aliceOnly (run (step plainEnv 1 "key") ⟨aliceOnly, []⟩ lostAnswers).world =
        [.status 11] := by
  refine ⟨careful_retries_safe plainEnv 1 "key" aliceOnly lostAnswers rfl (by decide) ?_,
    by decide +kernel⟩
  have hfirst : (run (step plainEnv 1 "key") ⟨aliceOnly, []⟩ (lostAnswers.take 1)).answers =
      [.error .database] := by decide +kernel
  have hsecond : (run (step plainEnv 1 "key") ⟨aliceOnly, []⟩ (lostAnswers.take 2)).answers =
      [.error .database, .ok (.status 11)] := by decide +kernel
  have hstored : ((run (step plainEnv 1 "key") ⟨aliceOnly, []⟩ (lostAnswers.take 2)).world.keys
      (1, "key")).isSome := by decide +kernel
  refine ⟨⟨?_, ?_, ?_⟩, ⟨?_, ?_, ?_⟩, ⟨?_, ?_, ?_⟩, trivial⟩
  · intro account idScheme d hd hgoes
    exact absurd hgoes.1 (by decide)
  · rintro ⟨id, hid⟩
    cases hid
  · rintro ⟨id, hid⟩
    cases hid
  · exact fun _ _ _ _ _ _ _ => rfl
  · rintro ⟨id, hid⟩
    change .ok (.status id) ∈
      (run (step plainEnv 1 "key") ⟨aliceOnly, []⟩ (lostAnswers.take 1)).answers at hid
    rw [hfirst] at hid
    simp at hid
  · rintro ⟨id, hid⟩
    change .ok (.scheduled id) ∈
      (run (step plainEnv 1 "key") ⟨aliceOnly, []⟩ (lostAnswers.take 1)).answers at hid
    rw [hfirst] at hid
    simp at hid
  · exact fun _ _ _ _ _ _ _ => rfl
  · exact fun _ => .inl ⟨hstored, rfl⟩
  · rintro ⟨id, hid⟩
    change .ok (.scheduled id) ∈
      (run (step plainEnv 1 "key") ⟨aliceOnly, []⟩ (lostAnswers.take 2)).answers at hid
    rw [hsecond] at hid
    simp at hid

def lostPost : List Attempt :=
  [⟨hello none 0 10, (· = .buildStatus)⟩, ⟨hello none second 11, fun _ => false⟩]

def lostKey : List Attempt :=
  [⟨hello none 0 10, (· = .setKey)⟩, ⟨hello none second 11, fun _ => false⟩]

def lostSchedule : List Attempt :=
  [⟨hello (some "later") 0 10, fun _ => false⟩, ⟨hello (some "later") second 11, fun _ => false⟩]

theorem not_once_of_two {start : World} {h : History} {a b : Answer}
    (hcreated : created start h.world = [a, b]) : ¬ Once start h := by
  rintro ⟨item, hitem, _⟩
  rw [hcreated] at hitem
  cases item <;> cases hitem

/-- A post that fails once its row is there, a key that is not stored and a schedule are
each made a second time. -/
theorem retried_posts_doubled :
    (WithinSixHours lostPost ∧ ¬ RetrySafe plainEnv 1 "key" aliceOnly lostPost) ∧
      (WithinSixHours lostKey ∧ ¬ RetrySafe plainEnv 1 "key" aliceOnly lostKey) ∧
        WithinSixHours lostSchedule ∧ ¬ RetrySafe plainEnv 1 "key" aliceOnly lostSchedule := by
  have hposts : created aliceOnly (run (step plainEnv 1 "key") ⟨aliceOnly, []⟩ lostPost).world =
      [.status 10, .status 11] := by decide +kernel
  have hkeys : created aliceOnly (run (step plainEnv 1 "key") ⟨aliceOnly, []⟩ lostKey).world =
      [.status 10, .status 11] := by decide +kernel
  have hschedules :
      created aliceOnly (run (step plainEnv 1 "key") ⟨aliceOnly, []⟩ lostSchedule).world =
        [.scheduled 1, .scheduled 2] := by decide +kernel
  refine ⟨⟨by decide, fun hsafe => ?_⟩, ⟨by decide, fun hsafe => ?_⟩, by decide, fun hsafe => ?_⟩
  · exact not_once_of_two hposts (hsafe _ List.prefix_rfl).1
  · exact not_once_of_two hkeys (hsafe _ List.prefix_rfl).1
  · exact not_once_of_two hschedules (hsafe _ List.prefix_rfl).1

end Eunha.PostRetries
