import Eunha.JobQueueInvariant
import Mathlib.Data.List.Induction

/-!
# How a job leaves the table, and what its lock excludes

A row is deleted by the execution of its job, when that came out well, was
discarded or was the last, or by the pruning of the dead. The lock of a job held
until it has run stays in its row, whatever becomes of its executions, until its
time is up or it is dead; the unique index keeps another row with it out.
-/
namespace Eunha.JobQueue
open Runs

variable {A : Type*} {s : State A} {id : ℕ} {row row' : Row A}

/-- What a step that takes a row out of the table is. -/
inductive Leaves (s : State A) (id : ℕ) (row : Row A) : Op A → Prop
  | done (e delay) :
      e.job.id = id → .performed e.job .ok ∈ s.history → Leaves s id row (.record e delay)
  | discarded (e delay) :
      e.job.id = id → .performed e.job .discard ∈ s.history → Leaves s id row (.record e delay)
  | failed (e delay message) :
      e.job.id = id → .performed e.job (.error message) ∈ s.history →
      row.maxRetries = -1 ∨ row.maxRetries ≤ row.attempts ∧ row.keepDead = false →
      Leaves s id row (.record e delay)
  | prunedOld : row.deadAt.isSome → Leaves s id row .pruneOld
  | prunedExcess : row.deadAt.isSome → Leaves s id row .pruneExcess

theorem Statement.run_eq_none {statement : Statement} {now : ℕ}
    (h : statement.run now row = none) : statement = .delete := by
  cases statement with
  | delete => rfl
  | reschedule delay message =>
      simp only [Statement.run] at h
      split_ifs at h
  | bury message =>
      simp only [Statement.run] at h
      split_ifs at h

theorem Execution.statement_delete {registered : String → Bool} {e : Execution A} {delay : ℕ}
    (h : e.statement registered delay = some .delete) :
    e.returned = some .ok ∨ e.returned = some .discard ∨
      ∃ message, e.returned = some (.error message) ∧
        (e.job.maxRetries < 0 ∨ e.job.outOfRetries = true ∧ e.job.keepDead = false) := by
  rcases e with ⟨worker, job, returned, exhausted⟩
  rcases returned with _ | _ | _ | message
  · simp [Execution.statement] at h
  · exact .inl rfl
  · exact .inr (.inl rfl)
  · refine .inr (.inr ⟨message, rfl, ?_⟩)
    simp only [Execution.statement] at h
    split_ifs at h with h₁ h₂ h₃ h₄ h₅
    · exact .inl h₂
    · cases h
    · exact .inr ⟨h₃, by simpa using h₅⟩
    · cases h
    · cases h

section
variable [DecidableEq A] [ToString A] {registered : String → Bool}

theorem leaves_of_step (h : Tracked s) (op : Op A) (hrow : s.jobs id = some row)
    (hgone : (step registered s op).jobs id = none) : Leaves s id row op := by
  have hstep := step_row registered h.fresh op id
  rw [hrow, hgone] at hstep
  generalize hb : some row = before at hstep
  generalize ha : none = after at hstep
  cases hstep with
  | same => cases hb.trans ha.symm
  | inserted => cases hb
  | bulkInserted => cases hb
  | recorded e delay statement row he hid hstatement =>
      cases hb
      subst hid
      obtain rfl := Statement.run_eq_none ha.symm
      rcases Execution.statement_delete hstatement with hr | hr | ⟨message, hr, hlast⟩
      · exact .done e delay rfl (h.performed e he _ hr)
      · exact .discarded e delay rfl (h.performed e he _ hr)
      · refine .failed e delay message rfl (h.performed e he _ hr) ?_
        obtain ⟨hmax, hkeep, hattempts⟩ := h.columns e he row hrow
        have hsound := h.sound _ row hrow
        rcases hlast with hlast | ⟨hlast, hdead⟩
        · have := hsound.maxRetries
          exact .inl (by omega)
        · simp only [Claimed.outOfRetries, decide_eq_true_eq] at hlast
          have := hsound.attempts
          exact .inr ⟨by omega, hkeep.trans hdead⟩
  | pruned op row hop hdead =>
      cases hb
      rcases hop with rfl | rfl
      · exact .prunedOld hdead
      · exact .prunedExcess hdead
  | _ => cases ha

theorem after_concat (ops : List (Op A)) (op : Op A) :
    after registered (ops ++ [op]) = step registered (after registered ops) op :=
  run_append _ _ _

theorem left_of_accepted (ops : List (Op A)) {kind : String} {args : A} {options : Options}
    {due : ℕ} (hmem : .accepted id kind args options due ∈ (after registered ops).history)
    (hgone : (after registered ops).jobs id = none) :
    ∃ pre op post row, ops = pre ++ op :: post ∧ (after registered pre).jobs id = some row ∧
      Leaves (after registered pre) id row op := by
  induction ops using List.reverseRecOn with
  | nil => exact absurd hmem (List.not_mem_nil)
  | append_singleton ops op ih =>
      have h := tracked_after registered ops
      obtain ⟨new, hhistory, hnew⟩ := history_step registered h.fresh op
      rw [after_concat] at hmem hgone
      cases hrow : (after registered ops).jobs id with
      | some row => exact ⟨ops, op, [], row, rfl, hrow, leaves_of_step h op hrow hgone⟩
      | none =>
          rw [hhistory, List.mem_append] at hmem
          rcases hmem with hmem | hmem
          · obtain ⟨pre, op', post, row, rfl, hleaves⟩ := ih hmem hrow
            exact ⟨pre, op', post ++ [op], row, by simp, hleaves⟩
          · cases hnew _ hmem with
            | inserted _ _ _ _ _ hinserted => cases hinserted.symm.trans hgone
            | bulkInserted _ _ _ _ _ _ _ _ hinserted => cases hinserted.symm.trans hgone

/-! ### Locks -/

omit [DecidableEq A] in
theorem RowStep.key {op : Op A} {before after : Option (Row A)}
    (h : RowStep registered s id op before after) (hb : before = some row)
    (ha : after = some row') : row'.uniqueKey = row.uniqueKey ∨ row'.uniqueKey = none := by
  cases h with
  | same => cases hb.symm.trans ha; exact .inl rfl
  | inserted => cases hb
  | bulkInserted => cases hb
  | expired => cases ha; exact .inr rfl
  | claimed =>
      cases hb
      cases ha
      simp only [Row.claim]
      split_ifs
      · exact .inr rfl
      · exact .inl rfl
  | recorded e delay statement =>
      cases hb
      cases statement with
      | delete => cases ha
      | reschedule delay message =>
          simp only [Statement.run] at ha
          split_ifs at ha <;> cases ha <;> exact .inl rfl
      | bury message =>
          simp only [Statement.run] at ha
          split_ifs at ha <;> cases ha
          · exact .inr rfl
          · exact .inl rfl
  | pruned => cases ha
  | _ => cases hb; cases ha; exact .inl rfl

omit [DecidableEq A] in
theorem RowStep.keeps_key {op : Op A} {before after : Option (Row A)}
    (h : RowStep registered s id op before after) (hb : before = some row)
    (ha : after = some row') (hlock : row.unlockOnClaim = false) (hdead : row'.deadAt = none) :
    row.deadAt = none ∧
      (row'.uniqueKey = row.uniqueKey ∨ ∃ until', row.uniqueUntil = some until' ∧ until' ≤ s.now) := by
  cases h with
  | same => cases hb.symm.trans ha; exact ⟨hdead, .inl rfl⟩
  | inserted => cases hb
  | bulkInserted => cases hb
  | expired key _ until' huntil hle => cases hb; cases ha; exact ⟨hdead, .inr ⟨until', huntil, hle⟩⟩
  | claimed => cases hb; cases ha; exact ⟨hdead, .inl (by simp [Row.claim, hlock])⟩
  | recorded e delay statement =>
      cases hb
      cases statement with
      | delete => cases ha
      | reschedule delay message =>
          simp only [Statement.run] at ha
          split_ifs at ha <;> cases ha <;> exact ⟨hdead, .inl rfl⟩
      | bury message =>
          simp only [Statement.run] at ha
          split_ifs at ha <;> cases ha
          · cases hdead
          · exact ⟨hdead, .inl rfl⟩
  | pruned => cases ha
  | _ => cases hb; cases ha; exact ⟨hdead, .inl rfl⟩

/-- The unique index, and the locks the accepted jobs still hold. -/
structure Locks (s : State A) : Prop where
  unique : ∀ i j row row', s.jobs i = some row → s.jobs j = some row' →
    row.uniqueKey.isSome → row'.uniqueKey = row.uniqueKey → i = j
  held : ∀ id kind args options due ttl row,
    .accepted id kind args options due ∈ s.history → options.lock = .untilExecuted ttl →
    s.jobs id = some row →
    row.unlockOnClaim = false ∧ row.uniqueUntil = some (due + ttl) ∧
      (row.deadAt = none → due + ttl ≤ s.now ∨
        row.uniqueKey = some (uniqueKey kind options.queue args))

theorem key_origin (hs : Fresh s) (op : Op A) (hrow : (step registered s op).jobs id = some row)
    (hkey : row.uniqueKey.isSome) :
    (∃ row₀, s.jobs id = some row₀ ∧ row₀.uniqueKey = row.uniqueKey) ∨
      id = s.nextId ∧ ∀ id' row', s.jobs id' = some row' → row'.uniqueKey ≠ row.uniqueKey := by
  have hstep := step_row registered hs op id
  cases hbefore : s.jobs id with
  | some row₀ =>
      rcases hstep.key hbefore hrow with h | h
      · exact .inl ⟨row₀, rfl, h.symm⟩
      · rw [h] at hkey
        cases hkey
  | none =>
      rcases hstep.of_none hbefore with h | ⟨kind, options, args, delay, -, hid, h, hfree⟩ |
        ⟨kind, options, argss, args, -, -, h⟩
      · cases h.symm.trans hrow
      · cases h.symm.trans hrow
        refine .inr ⟨hid, fun id' row' hrow' heq => ?_⟩
        exact hfree id' row' hrow' (heq ▸ hkey) heq
      · cases h.symm.trans hrow
        cases hkey

theorem Locks.step (h : Tracked s) (hl : Locks s) (op : Op A) : Locks (step registered s op) := by
  obtain ⟨new, hhistory, hnew⟩ := history_step registered h.fresh op
  refine ⟨?_, ?_⟩
  · intro i j row row' hi hj hkey heq
    rcases key_origin h.fresh op hi hkey with ⟨rowi, hrowi, hkeyi⟩ | ⟨hid, hfree⟩
    · rcases key_origin h.fresh op hj (heq ▸ hkey) with ⟨rowj, hrowj, hkeyj⟩ | ⟨hid, hfree⟩
      · exact hl.unique i j rowi rowj hrowi hrowj (hkeyi ▸ hkey) (by rw [hkeyi, hkeyj, heq])
      · exact (hfree i rowi hrowi (by rw [hkeyi, heq])).elim
    · rcases key_origin h.fresh op hj (heq ▸ hkey) with ⟨rowj, hrowj, hkeyj⟩ | ⟨hid', -⟩
      · exact (hfree j rowj hrowj (by rw [hkeyj, heq])).elim
      · exact hid.trans hid'.symm
  · intro id kind args options due ttl row hmem hlock hrow
    rw [hhistory, List.mem_append] at hmem
    rcases hmem with hmem | hmem
    · have hid : id < s.nextId := h.past _ hmem
      have hstep := step_row registered h.fresh op id
      cases hbefore : s.jobs id with
      | none =>
          rcases hstep.of_none hbefore with
            h | ⟨_, _, _, _, -, h, -⟩ | ⟨_, _, _, _, -, h, -⟩
          · cases h.symm.trans hrow
          · omega
          · omega
      | some row₀ =>
          obtain ⟨hclaim, huntil, hkey⟩ := hl.held id kind args options due ttl row₀ hmem hlock hbefore
          have hlater := hstep.later hbefore hrow
          refine ⟨hlater.unlockOnClaim.trans hclaim, hlater.uniqueUntil.trans huntil, fun hdead => ?_⟩
          have hnow := now_le_step registered s op
          obtain ⟨hdead₀, hkept⟩ := hstep.keeps_key hbefore hrow hclaim hdead
          rcases hkey hdead₀ with hle | hkey
          · exact .inl (hle.trans hnow)
          · rcases hkept with hkept | ⟨until', huntil', hle⟩
            · exact .inr (hkept.trans hkey)
            · rw [huntil, Option.some.injEq] at huntil'
              exact .inl (huntil'.trans_le (hle.trans hnow))
    · cases hnew _ hmem with
      | inserted _ _ _ delay _ hinserted =>
          cases hinserted.symm.trans hrow
          simp [queuedRow, lockColumns, hlock]
      | bulkInserted _ _ _ _ _ hnone => cases hnone.symm.trans hlock

theorem locks_after (ops : List (Op A)) : Locks (after registered ops) := by
  have hempty : Locks (State.empty : State A) :=
    ⟨by simp [State.empty], by simp [State.empty]⟩
  refine (run_invariant (P := fun s => Tracked s ∧ Locks s)
    (fun s op h => ⟨h.1.step op, h.2.step h.1 op⟩) _ ops ⟨?_, hempty⟩).2
  exact tracked_after registered []

omit [DecidableEq A] in
theorem Locks.exclusive (hl : Locks s) {i j : ℕ} {kind : String} {args : A}
    {options options' : Options} {due due' ttl ttl' : ℕ} {rowi rowj : Row A}
    (hi : .accepted i kind args options due ∈ s.history)
    (hj : .accepted j kind args options' due' ∈ s.history)
    (hqueue : options'.queue = options.queue)
    (hlocki : options.lock = .untilExecuted ttl) (hlockj : options'.lock = .untilExecuted ttl')
    (hti : s.now < due + ttl) (htj : s.now < due' + ttl')
    (hrowi : s.jobs i = some rowi) (hrowj : s.jobs j = some rowj)
    (hdeadi : rowi.deadAt = none) (hdeadj : rowj.deadAt = none) : i = j := by
  have hkeyi := ((hl.held i kind args options due ttl rowi hi hlocki hrowi).2.2 hdeadi).resolve_left
    (by omega)
  have hkeyj := ((hl.held j kind args options' due' ttl' rowj hj hlockj hrowj).2.2
    hdeadj).resolve_left (by omega)
  exact hl.unique i j rowi rowj hrowi hrowj (by rw [hkeyi]; rfl) (by rw [hkeyi, hkeyj, hqueue])

end

end Eunha.JobQueue
