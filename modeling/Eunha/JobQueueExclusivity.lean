import Eunha.JobQueueInvariant

/-!
# Whether a worker that lost its claim can disturb the next

A heartbeat and a hand-back name the worker in their `WHERE`; the statement an
execution ends with names the job alone. So a worker whose lease lapsed while
its `perform` ran, and whose job another has claimed since, still deletes,
reschedules or buries it. As long as no such worker ends an execution, the row
of a claimed job is its holder's, until the holder's lease lapses in turn.
-/
namespace Eunha.JobQueue
open Runs

variable {A : Type*}

def Op.worker : Op A → Option String
  | .claim _ _ worker _ => some worker
  | .heartbeat e => some e.worker
  | .returns e _ => some e.worker
  | .exhaust e => some e.worker
  | .record e _ => some e.worker
  | .dies e => some e.worker
  | .handBack worker => some worker
  | _ => none

def Row.claimColumns (row : Row A) : Option ℕ × Option String × ℕ × ℤ × Option ℕ :=
  (row.lockedAt, row.lockedBy, row.runAt, row.attempts, row.deadAt)

/-- The statement fails, as it would take `attempts` out of range. -/
def Statement.refused (row : Row A) : Statement → Prop
  | .delete => False
  | _ => i32Max < row.attempts + 1

theorem Statement.run_of_refused {statement : Statement} {row : Row A} (now : ℕ)
    (h : statement.refused row) : statement.run now row = some row := by
  cases statement with
  | delete => exact h.elim
  | _ => exact if_neg (not_le.mpr h)

theorem Statement.run_unlocks {statement : Statement} {row row' : Row A} {now : ℕ}
    (h : ¬statement.refused row) (hrun : statement.run now row = some row') :
    row'.lockedBy = none := by
  cases statement with
  | delete => cases hrun
  | _ =>
      have hle := not_lt.mp h
      simp only [Statement.run, if_pos hle, Option.some.injEq] at hrun
      exact hrun ▸ rfl

section
variable [DecidableEq A] [ToString A] (registered : String → Bool)

/-- While a worker holds a job, the step of any other leaves the columns of its
claim, unless it claims the job itself, the holder's lease having lapsed. -/
def Undisturbed (s : State A) (op : Op A) : Prop :=
  ∀ id row holder, s.jobs id = some row → row.lockedBy = some holder →
    op.worker ≠ some holder →
    (∃ row', (step registered s op).jobs id = some row' ∧ row'.claimColumns = row.claimColumns) ∨
    ∃ order limit worker only at', op = .claim order limit worker only ∧
      row.lockedAt = some at' ∧ at' + lease < s.now

omit [ToString A] in
def Respected (s : State A) : Op A → Prop
  | .record e delay => e ∈ s.executions → ∀ row holder statement,
      s.jobs e.job.id = some row → row.lockedBy = some holder →
      e.statement registered delay = some statement →
      holder = e.worker ∨ statement.refused row
  | _ => True

variable {registered}

theorem step_record {s : State A} {e : Execution A} {delay : ℕ} {statement : Statement}
    (he : e ∈ s.executions) (hstatement : e.statement registered delay = some statement) :
    (step registered s (.record e delay)).jobs e.job.id =
      (s.jobs e.job.id).bind (statement.run s.now) := by
  simp [step, State.record, hstatement, he, update_jobs]

theorem undisturbed_iff_respected {s : State A} (h : Tracked s) (op : Op A) :
    Undisturbed registered s op ↔ Respected registered s op := by
  constructor
  · intro hu
    cases op with
    | record e delay =>
        intro he row holder statement hrow hholder hstatement
        by_contra hstale
        rw [not_or] at hstale
        have hworker : (Op.record e delay).worker ≠ some holder := fun hw =>
          hstale.1 (Option.some.inj hw).symm
        rcases hu _ row holder hrow hholder hworker with ⟨row', hrow', hcols⟩ | ⟨_, _, _, _, _, h, -⟩
        · rw [step_record he hstatement, hrow, Option.bind_some] at hrow'
          have hfree := Statement.run_unlocks hstale.2 hrow'
          have hsame : row'.lockedBy = row.lockedBy := congrArg (fun c => c.2.1) hcols
          rw [hsame, hholder] at hfree
          cases hfree
        · cases h
    | _ => trivial
  · intro hr id row holder hrow hholder hworker
    have hsound := h.sound id row hrow
    have hstep := step_row registered h.fresh op id
    generalize hbefore : s.jobs id = before at hstep
    rw [hrow] at hbefore
    generalize (step registered s op).jobs id = after at hstep ⊢
    cases hstep with
    | same => exact .inl ⟨row, hbefore.symm, rfl⟩
    | inserted => cases hbefore
    | bulkInserted => cases hbefore
    | expired => cases hbefore; exact .inl ⟨_, rfl, rfl⟩
    | claimed order limit worker only _ hclaim =>
        cases hbefore
        obtain ⟨at', hat⟩ := Option.isSome_iff_exists.mp (hsound.locked (by simp [hholder]))
        exact .inr ⟨order, limit, worker, only, at', rfl, hat,
          (claimable_iff.mp hclaim).2.2.2 at' hat⟩
    | renewed e _ _ _ hl =>
        cases hbefore
        exact (hworker (hl.symm.trans hholder)).elim
    | recorded e delay statement _ he hid hstatement =>
        cases hbefore
        subst hid
        have hstale := (hr he row holder statement hrow hholder hstatement).resolve_left
          fun hw => hworker (by rw [hw]; rfl)
        exact .inl ⟨row, Statement.run_of_refused s.now hstale, rfl⟩
    | handedBack worker _ hl =>
        cases hbefore
        exact (hworker (hl.symm.trans hholder)).elim
    | pruned _ _ _ hdead =>
        cases hbefore
        rw [hsound.dead hdead] at hholder
        cases hholder

end


end Eunha.JobQueue
