import Eunha.JobQueue

/-!
# What one step does to a job

`RowStep` lists the changes a step can make to the row of one id. Every fact
about the table is proved by cases on it. `Tracked` is what holds of the table,
the executions and the history in every state a run reaches.
-/
namespace Eunha.JobQueue
open Runs

variable {A : Type*} {s : State A} {id : ℕ} {row : Row A}

theorem mem_rows {r : ℕ × Row A} : r ∈ s.rows ↔ r.1 < s.nextId ∧ s.jobs r.1 = some r.2 := by
  obtain ⟨id, row⟩ := r
  simp only [State.rows, List.mem_filterMap, List.mem_range, Option.map_eq_some_iff,
    Prod.mk.injEq]
  constructor
  · rintro ⟨i, hi, row', hrow, rfl, rfl⟩
    exact ⟨hi, hrow⟩
  · rintro ⟨hi, hrow⟩
    exact ⟨id, hi, row, hrow, rfl, rfl⟩

theorem claimable_iff {now : ℕ} {only : Option ℕ} :
    claimable now only id row = true ↔
      row.deadAt = none ∧ (∀ i, only = some i → id = i) ∧ (only.isSome ∨ row.runAt ≤ now) ∧
        ∀ at', row.lockedAt = some at' → at' + lease < now := by
  simp [claimable, and_assoc, Option.all_eq_true]

theorem of_mem_picked {order : List Queue} {limit : ℕ} {only : Option ℕ} {r : ℕ × Row A}
    (h : r ∈ s.picked order limit only) :
    s.jobs r.1 = some r.2 ∧ claimable s.now only r.1 r.2 = true := by
  have h := List.mem_of_mem_take h
  rw [List.mem_insertionSort, List.mem_filter, mem_rows] at h
  exact ⟨h.1.2, h.2⟩

theorem dead_of_mem_deadTooLong (h : id ∈ s.deadTooLong) :
    ∃ row, (id, row) ∈ s.rows ∧ row.deadAt.isSome := by
  obtain ⟨⟨id, row⟩, hrow, rfl⟩ := List.mem_map.mp h
  rw [List.mem_filter] at hrow
  exact ⟨row, hrow.1, by cases hd : row.deadAt <;> simp_all⟩

theorem dead_of_mem_deadTooMany (h : id ∈ s.deadTooMany) :
    ∃ row, (id, row) ∈ s.rows ∧ row.deadAt.isSome := by
  obtain ⟨⟨at', id⟩, hdropped, rfl⟩ := List.mem_map.mp h
  have h := List.mem_of_mem_drop hdropped
  rw [List.mem_insertionSort, List.mem_filterMap] at h
  obtain ⟨⟨id, row⟩, hrow, hdead⟩ := h
  obtain ⟨d, hd, heq⟩ := Option.map_eq_some_iff.mp hdead
  cases heq
  exact ⟨row, hrow, by rw [hd]; rfl⟩

section
variable [DecidableEq A] [ToString A] (registered : String → Bool)

inductive RowStep (s : State A) (id : ℕ) : Op A → Option (Row A) → Option (Row A) → Prop
  | same (op) (o) : RowStep s id op o o
  | inserted (kind options args delay) :
      id = s.nextId →
      (∀ id' row', s.jobs id' = some row' → row'.uniqueKey.isSome →
        row'.uniqueKey ≠ (queuedRow s.now kind options args delay).uniqueKey) →
      RowStep s id (.insert kind options args delay) none
        (some (queuedRow s.now kind options args delay))
  | bulkInserted (kind options argss args) :
      s.nextId ≤ id →
      RowStep s id (.performBulk kind options argss) none (some (bulkRow s.now kind options args))
  | expired (key row until') :
      row.uniqueUntil = some until' → until' ≤ s.now →
      RowStep s id (.expire key) (some row) (some { row with uniqueKey := none })
  | claimed (order limit worker only row) :
      claimable s.now only id row = true →
      RowStep s id (.claim order limit worker only) (some row) (some (row.claim s.now worker))
  | renewed (e row) :
      e ∈ s.executions → e.job.id = id → row.lockedBy = some e.worker →
      RowStep s id (.heartbeat e) (some row) (some { row with lockedAt := some s.now })
  | recorded (e delay statement row) :
      e ∈ s.executions → e.job.id = id → e.statement registered delay = some statement →
      RowStep s id (.record e delay) (some row) (statement.run s.now row)
  | handedBack (worker row) :
      row.lockedBy = some worker →
      RowStep s id (.handBack worker) (some row)
        (some { row with lockedAt := none, lockedBy := none })
  | pruned (op row) :
      op = .pruneOld ∨ op = .pruneExcess → row.deadAt.isSome →
      RowStep s id op (some row) none

variable {registered}

/-- No row is stored under an id the sequence has not reached. -/
def Fresh (s : State A) : Prop := ∀ id, s.nextId ≤ id → s.jobs id = none

omit [DecidableEq A] [ToString A] in
theorem update_jobs (s : State A) (i : ℕ) (f : Row A → Option (Row A)) (id : ℕ) :
    (s.update i f).jobs id = if id = i then (s.jobs i).bind f else s.jobs id := by
  simp [State.update, Function.update_apply]

omit [DecidableEq A] [ToString A] in
theorem Fresh.add {u : State A} (hu : Fresh u) (row : Row A) (options : Options) :
    Fresh (u.add row options) := by
  intro i hi
  have hi : u.nextId + 1 ≤ i := hi
  simp only [State.add, Function.update_apply]
  rw [if_neg (by omega)]
  exact hu i (by omega)

omit [DecidableEq A] [ToString A] in
theorem Fresh.performBulk {u : State A} (hu : Fresh u) (now : ℕ) (kind : String)
    (options : Options) (argss : List A) :
    Fresh (argss.foldl (fun u args => u.add (bulkRow now kind options args) options) u) := by
  induction argss generalizing u with
  | nil => exact hu
  | cons args argss ih => exact ih (hu.add _ _)

omit [DecidableEq A] [ToString A] in
theorem performBulk_jobs (now : ℕ) (kind : String) (options : Options) (argss : List A)
    (u : State A) (hu : Fresh u) (id : ℕ) :
    (argss.foldl (fun u args => u.add (bulkRow now kind options args) options) u).jobs id =
        u.jobs id ∨
      u.nextId ≤ id ∧ ∃ args',
        (argss.foldl (fun u args => u.add (bulkRow now kind options args) options) u).jobs id =
          some (bulkRow now kind options args') := by
  induction argss generalizing u with
  | nil => exact Or.inl rfl
  | cons args argss ih =>
      rcases ih _ (hu.add _ _) with h | ⟨hid, h⟩
      · rw [List.foldl_cons, h]
        simp only [State.add, Function.update_apply]
        split_ifs with hid
        · exact Or.inr ⟨hid.ge, args, rfl⟩
        · exact Or.inl rfl
      · exact Or.inr ⟨Nat.le_of_succ_le hid, h⟩

omit [DecidableEq A] [ToString A] in
theorem performBulk_executions (now : ℕ) (kind : String) (options : Options) (argss : List A)
    (u : State A) :
    (argss.foldl (fun u args => u.add (bulkRow now kind options args) options) u).executions =
      u.executions := by
  induction argss generalizing u with
  | nil => rfl
  | cons args argss ih => rw [List.foldl_cons, ih]; rfl

omit [DecidableEq A] [ToString A] in
theorem performBulk_nextId (now : ℕ) (kind : String) (options : Options) (argss : List A)
    (u : State A) :
    (argss.foldl (fun u args => u.add (bulkRow now kind options args) options) u).nextId =
      u.nextId + argss.length := by
  induction argss generalizing u with
  | nil => rfl
  | cons args argss ih =>
      rw [List.foldl_cons, ih, List.length_cons]
      simp only [State.add]
      omega

omit [DecidableEq A] [ToString A] in
theorem performBulk_now (now : ℕ) (kind : String) (options : Options) (argss : List A)
    (u : State A) :
    (argss.foldl (fun u args => u.add (bulkRow now kind options args) options) u).now = u.now := by
  induction argss generalizing u with
  | nil => rfl
  | cons args argss ih => rw [List.foldl_cons, ih]; rfl

variable (registered) in
theorem step_row (hs : Fresh s) (op : Op A) (id : ℕ) :
    RowStep registered s id op (s.jobs id) ((step registered s op).jobs id) := by
  cases op with
  | expire key =>
      simp only [step, State.expire]
      cases hrow : s.jobs id with
      | none => exact .same _ _
      | some row =>
          rw [Option.map_some]
          split_ifs with h
          · obtain ⟨until', huntil, hle⟩ := (Option.any_eq_true _ _).mp h.2
            exact .expired key row until' huntil (by simpa using hle)
          · exact .same _ _
  | insert kind options args delay =>
      simp only [step, State.insert]
      split_ifs with h
      · exact .same _ _
      · simp only [State.add, Function.update_apply]
        split_ifs with hid
        · rw [hs id hid.ge]
          refine .inserted kind options args delay hid fun id' row' hrow' hsome heq => ?_
          refine h (List.any_eq_true.mpr ⟨(id', row'), mem_rows.mpr ⟨?_, hrow'⟩, ?_⟩)
          · by_contra hge
            simp [hs id' (by omega)] at hrow'
          · simp [← heq, hsome]
        · exact .same _ _
  | performBulk kind options argss =>
      simp only [step, State.performBulk]
      split_ifs with h
      · exact .same _ _
      · rcases performBulk_jobs s.now kind options argss s hs id with h | ⟨hid, args, h⟩
        · rw [h]
          exact .same _ _
        · rw [h, hs id hid]
          exact .bulkInserted kind options argss args hid
  | claim order limit worker only =>
      simp only [step, State.claim]
      split_ifs with h
      · obtain ⟨⟨id, row⟩, hr, rfl⟩ := List.mem_map.mp h
        obtain ⟨hrow, hclaim⟩ := of_mem_picked hr
        rw [hrow]
        exact .claimed order limit worker only row hclaim
      · exact .same _ _
  | heartbeat e =>
      simp only [step, State.heartbeat]
      split_ifs with h
      · rw [update_jobs]
        split_ifs with hid
        · subst hid
          cases hrow : s.jobs e.job.id with
          | none => exact .same _ _
          | some row =>
              rw [Option.bind_some]
              split_ifs with hl
              · exact .renewed e row h.1 rfl hl
              · exact .same _ _
        · exact .same _ _
      · exact .same _ _
  | returns e result =>
      simp only [step, State.returns]
      split_ifs <;> exact .same _ _
  | exhaust e =>
      simp only [step, State.exhaust]
      split_ifs <;> exact .same _ _
  | record e delay =>
      simp only [step, State.record]
      split
      case h_1 statement hstatement =>
        split_ifs with he
        · simp only [update_jobs]
          split_ifs with hid
          · subst hid
            cases hrow : s.jobs e.job.id with
            | none => exact .same _ _
            | some row => exact .recorded e delay statement row he rfl hstatement
          · exact .same _ _
        · exact .same _ _
      case h_2 => exact .same _ _
  | dies e => exact .same _ _
  | handBack worker =>
      simp only [step, State.handBack]
      cases hrow : s.jobs id with
      | none => exact .same _ _
      | some row =>
          rw [Option.map_some]
          split_ifs with h
          · exact .handedBack worker row h
          · exact .same _ _
  | pruneOld =>
      simp only [step, State.prune]
      split_ifs with h
      · obtain ⟨row, hrow, hdead⟩ := dead_of_mem_deadTooLong h
        rw [(mem_rows.mp hrow).2]
        exact .pruned _ row (.inl rfl) hdead
      · exact .same _ _
  | pruneExcess =>
      simp only [step, State.prune]
      split_ifs with h
      · obtain ⟨row, hrow, hdead⟩ := dead_of_mem_deadTooMany h
        rw [(mem_rows.mp hrow).2]
        exact .pruned _ row (.inr rfl) hdead
      · exact .same _ _
  | tick elapsed => exact .same _ _

variable (registered) in
/-- A change the operation can make to the executions in flight, but for ending some. -/
inductive ExecutionStep (s : State A) : Op A → Execution A → Prop
  | kept (op e) : e ∈ s.executions → ExecutionStep s op e
  | claimed (order limit worker only id row) :
      s.jobs id = some row →
      ExecutionStep s (.claim order limit worker only) { worker, job := row.claimed id }
  | returned (e result) :
      e ∈ s.executions → registered e.job.kind →
      .performed e.job result ∈ (step registered s (.returns e result)).history →
      ExecutionStep s (.returns e result) { e with returned := some result }
  | exhausted (e) :
      e ∈ s.executions → ExecutionStep s (.exhaust e) { e with exhausted := true }

theorem step_execution (s : State A) (op : Op A) {e : Execution A}
    (he : e ∈ (step registered s op).executions) : ExecutionStep registered s op e := by
  cases op with
  | expire key => exact .kept _ _ he
  | insert kind options args delay =>
      refine .kept _ _ ?_
      simp only [step, State.insert] at he
      split_ifs at he <;> exact he
  | performBulk kind options argss =>
      refine .kept _ _ ?_
      simp only [step, State.performBulk] at he
      split_ifs at he
      · exact he
      · rwa [performBulk_executions] at he
  | claim order limit worker only =>
      simp only [step, State.claim, List.mem_append, List.mem_map] at he
      rcases he with he | ⟨r, hr, rfl⟩
      · exact .kept _ _ he
      · exact .claimed order limit worker only r.1 r.2 (of_mem_picked hr).1
  | heartbeat e' =>
      refine .kept _ _ ?_
      simp only [step, State.heartbeat] at he
      split_ifs at he <;> exact he
  | returns e' result =>
      simp only [step, State.returns] at he
      split_ifs at he with h
      · rcases List.mem_cons.mp he with rfl | he
        · refine .returned e' result h.1 h.2.1 ?_
          simp [step, State.returns, h]
        · exact .kept _ _ (List.mem_of_mem_erase he)
      · exact .kept _ _ he
  | exhaust e' =>
      simp only [step, State.exhaust] at he
      split_ifs at he with h
      · rcases List.mem_cons.mp he with rfl | he
        · exact .exhausted e' h.1
        · exact .kept _ _ (List.mem_of_mem_erase he)
      · exact .kept _ _ he
  | record e' delay =>
      refine .kept _ _ ?_
      simp only [step, State.record] at he
      split at he
      · split_ifs at he
        · exact List.mem_of_mem_erase he
        · exact he
      · exact he
  | dies e' => exact .kept _ _ (List.mem_of_mem_erase he)
  | handBack worker => exact .kept _ _ (List.mem_of_mem_filter he)
  | pruneOld => exact .kept _ _ he
  | pruneExcess => exact .kept _ _ he
  | tick elapsed => exact .kept _ _ he

variable (registered) in
theorem nextId_le_step (s : State A) (op : Op A) : s.nextId ≤ (step registered s op).nextId := by
  cases op with
  | insert kind options args delay =>
      simp only [step, State.insert]
      split_ifs
      · exact le_rfl
      · exact Nat.le_succ _
  | performBulk kind options argss =>
      simp only [step, State.performBulk]
      split_ifs
      · exact le_rfl
      · exact (performBulk_nextId s.now kind options argss s).symm ▸ Nat.le_add_right _ _
  | heartbeat e =>
      simp only [step, State.heartbeat]
      split_ifs <;> exact le_rfl
  | returns e result =>
      simp only [step, State.returns]
      split_ifs <;> exact le_rfl
  | exhaust e =>
      simp only [step, State.exhaust]
      split_ifs <;> exact le_rfl
  | record e delay =>
      simp only [step, State.record]
      split
      · split_ifs <;> exact le_rfl
      · exact le_rfl
  | _ => exact le_rfl

omit [DecidableEq A] in
theorem RowStep.of_none {op : Op A} {before after : Option (Row A)}
    (h : RowStep registered s id op before after) (hb : before = none) :
    after = none ∨
      (∃ kind options args delay, op = .insert kind options args delay ∧ id = s.nextId ∧
        after = some (queuedRow s.now kind options args delay) ∧
        ∀ id' row', s.jobs id' = some row' → row'.uniqueKey.isSome →
          row'.uniqueKey ≠ (queuedRow s.now kind options args delay).uniqueKey) ∨
      ∃ kind options argss args, op = .performBulk kind options argss ∧ s.nextId ≤ id ∧
        after = some (bulkRow s.now kind options args) := by
  cases h with
  | same => exact .inl hb
  | inserted kind options args delay hid hfree =>
      exact .inr (.inl ⟨kind, options, args, delay, rfl, hid, rfl, hfree⟩)
  | bulkInserted kind options argss args hid =>
      exact .inr (.inr ⟨kind, options, argss, args, rfl, hid, rfl⟩)
  | _ => cases hb

theorem Fresh.step (hs : Fresh s) (op : Op A) : Fresh (step registered s op) := by
  have hkept : (∀ kind options args delay, op ≠ .insert kind options args delay) →
      (∀ kind options argss, op ≠ .performBulk kind options argss) →
      Fresh (JobQueue.step registered s op) := by
    intro hinsert hbulk id hid
    have hid' := (nextId_le_step registered s op).trans hid
    rcases (step_row registered hs op id).of_none (hs id hid') with
      h | ⟨_, _, _, _, h, -⟩ | ⟨_, _, _, _, h, -⟩
    · exact h
    · exact (hinsert _ _ _ _ h).elim
    · exact (hbulk _ _ _ h).elim
  cases op with
  | insert kind options args delay =>
      simp only [JobQueue.step, State.insert]
      split_ifs
      · exact hs
      · exact hs.add _ _
  | performBulk kind options argss =>
      simp only [JobQueue.step, State.performBulk]
      split_ifs
      · exact hs
      · exact hs.performBulk _ _ _ _
  | _ => exact hkept (by simp) (by simp)

/-- What no statement changes of a row, and its attempts, which only grow. -/
structure Row.Later (row row' : Row A) : Prop where
  kind : row'.kind = row.kind
  maxRetries : row'.maxRetries = row.maxRetries
  keepDead : row'.keepDead = row.keepDead
  uniqueUntil : row'.uniqueUntil = row.uniqueUntil
  unlockOnClaim : row'.unlockOnClaim = row.unlockOnClaim
  attempts : row.attempts ≤ row'.attempts

omit [DecidableEq A] [ToString A] in
theorem Row.Later.refl (row : Row A) : row.Later row := ⟨rfl, rfl, rfl, rfl, rfl, le_rfl⟩

omit [DecidableEq A] [ToString A] in
theorem Statement.run_later {statement : Statement} {now : ℕ} {row' : Row A}
    (h : statement.run now row = some row') : row.Later row' := by
  cases statement with
  | delete => cases h
  | reschedule delay message =>
      simp only [Statement.run] at h
      split_ifs at h <;> cases h
      · exact ⟨rfl, rfl, rfl, rfl, rfl, Int.le.intro 1 rfl⟩
      · exact .refl row
  | bury message =>
      simp only [Statement.run] at h
      split_ifs at h <;> cases h
      · exact ⟨rfl, rfl, rfl, rfl, rfl, Int.le.intro 1 rfl⟩
      · exact .refl row

omit [DecidableEq A] in
theorem RowStep.later {op : Op A} {before after : Option (Row A)} {row' : Row A}
    (h : RowStep registered s id op before after) (hb : before = some row)
    (ha : after = some row') : row.Later row' := by
  cases h with
  | same => cases hb.symm.trans ha; exact .refl row
  | inserted => cases hb
  | bulkInserted => cases hb
  | recorded e delay statement => cases hb; exact Statement.run_later ha
  | pruned => cases ha
  | _ => cases hb; cases ha; exact ⟨rfl, rfl, rfl, rfl, rfl, le_rfl⟩

/-- What holds of a row: a claim is both its columns, a dead job is not claimed. -/
structure Row.Sound (row : Row A) : Prop where
  locked : row.lockedBy.isSome → row.lockedAt.isSome
  dead : row.deadAt.isSome → row.lockedBy = none
  attempts : 0 ≤ row.attempts
  maxRetries : -1 ≤ row.maxRetries

omit [DecidableEq A] [ToString A] in
theorem Statement.run_sound {statement : Statement} {now : ℕ} {row' : Row A} (hrow : row.Sound)
    (h : statement.run now row = some row') : row'.Sound := by
  cases statement with
  | delete => cases h
  | reschedule delay message =>
      simp only [Statement.run] at h
      split_ifs at h <;> cases h
      · exact ⟨by simp, by simp, by have := hrow.attempts; simp; omega, hrow.maxRetries⟩
      · exact hrow
  | bury message =>
      simp only [Statement.run] at h
      split_ifs at h <;> cases h
      · exact ⟨by simp, by simp, by have := hrow.attempts; simp; omega, hrow.maxRetries⟩
      · exact hrow

omit [DecidableEq A] [ToString A] in
theorem retryColumns_bounds (options : Options) :
    -1 ≤ (retryColumns options).1 ∧ (retryColumns options).1 ≤ i32Max := by
  unfold retryColumns
  cases options.retry with
  | never => exact ⟨le_rfl, show (-1 : ℤ) ≤ i32Max by decide⟩
  | count n =>
      simp only
      split_ifs with hn
      · exact ⟨by omega, hn⟩
      · exact ⟨by decide, le_rfl⟩

omit [DecidableEq A] in
theorem RowStep.sound {op : Op A} {before after : Option (Row A)} {row' : Row A}
    (h : RowStep registered s id op before after) (hb : ∀ row, before = some row → row.Sound)
    (ha : after = some row') : row'.Sound := by
  cases h with
  | same => exact hb _ ha
  | inserted kind options args delay =>
      cases ha
      exact ⟨by simp [queuedRow], by simp [queuedRow], by simp [queuedRow],
        (retryColumns_bounds options).1⟩
  | bulkInserted kind options argss args =>
      cases ha
      exact ⟨by simp [bulkRow], by simp [bulkRow], by simp [bulkRow],
        (retryColumns_bounds options).1⟩
  | expired key row =>
      cases ha
      have := hb row rfl
      exact ⟨this.locked, this.dead, this.attempts, this.maxRetries⟩
  | claimed order limit worker only row hclaim =>
      cases ha
      have := hb row rfl
      refine ⟨fun _ => rfl, fun hd => ?_, this.attempts, this.maxRetries⟩
      simp [Row.claim, (claimable_iff.mp hclaim).1] at hd
  | renewed e row he hid hl =>
      cases ha
      have := hb row rfl
      exact ⟨fun _ => rfl, this.dead, this.attempts, this.maxRetries⟩
  | recorded e delay statement row => exact Statement.run_sound (hb row rfl) ha
  | handedBack worker row =>
      cases ha
      have := hb row rfl
      exact ⟨by simp, fun _ => rfl, this.attempts, this.maxRetries⟩
  | pruned => cases ha

variable (registered) in
/-- An event the operation can add to the history. -/
inductive NewEvent (s : State A) : Op A → Event A → Prop
  | inserted (kind options args delay) :
      (step registered s (.insert kind options args delay)).nextId = s.nextId + 1 →
      (step registered s (.insert kind options args delay)).jobs s.nextId =
        some (queuedRow s.now kind options args delay) →
      NewEvent s (.insert kind options args delay)
        (.accepted s.nextId kind args options (s.now + delay))
  | bulkInserted (kind options argss id args) :
      options.lock = .none → s.nextId ≤ id →
      id < (step registered s (.performBulk kind options argss)).nextId →
      (step registered s (.performBulk kind options argss)).jobs id =
        some (bulkRow s.now kind options args) →
      NewEvent s (.performBulk kind options argss) (.accepted id kind args options s.now)
  | performed (e result) :
      e ∈ s.executions → NewEvent s (.returns e result) (.performed e.job result)
  | exhausted (e) : e ∈ s.executions → NewEvent s (.exhaust e) (.exhausted e.job.id)
  | pruned (op id) : id < s.nextId → NewEvent s op (.pruned id)

omit [DecidableEq A] [ToString A] in
theorem performBulk_history (now : ℕ) (kind : String) (options : Options) (argss : List A)
    (u : State A) (hu : Fresh u) :
    let u' := argss.foldl (fun u args => u.add (bulkRow now kind options args) options) u
    ∃ new, u'.history = u.history ++ new ∧
      ∀ event ∈ new, ∃ id args, event = .accepted id kind args options now ∧ u.nextId ≤ id ∧
        id < u.nextId + argss.length ∧ u'.jobs id = some (bulkRow now kind options args) := by
  induction argss generalizing u with
  | nil => exact ⟨[], by simp⟩
  | cons args argss ih =>
      have hadd := hu.add (bulkRow now kind options args) options
      obtain ⟨new, hnew, hevents⟩ := ih _ hadd
      refine ⟨.accepted u.nextId kind args options now :: new, ?_, ?_⟩
      · rw [List.foldl_cons, hnew]
        exact List.append_assoc u.history [.accepted u.nextId kind args options now] new
      · rintro event (_ | ⟨_, hevent⟩)
        · refine ⟨u.nextId, args, rfl, le_rfl, by simp, ?_⟩
          rcases performBulk_jobs now kind options argss _ hadd u.nextId with h | ⟨hle, -⟩
          · rw [List.foldl_cons, h]
            exact Function.update_self ..
          · exact (Nat.not_succ_le_self _ hle).elim
        · obtain ⟨id, args', rfl, hle, hlt, hrow⟩ := hevents event hevent
          simp only [State.add] at hle hlt
          exact ⟨id, args', rfl, by omega, by rw [List.length_cons]; omega, hrow⟩

variable (registered) in
theorem history_step (hs : Fresh s) (op : Op A) :
    ∃ new, (step registered s op).history = s.history ++ new ∧
      ∀ event ∈ new, NewEvent registered s op event := by
  have hnone : ∃ new, s.history = s.history ++ new ∧
      ∀ event ∈ new, NewEvent registered s op event := ⟨[], by simp⟩
  have hpruned : ∀ ids : List ℕ, (∀ id ∈ ids, id < s.nextId) → ∀ event ∈ ids.map Event.pruned,
      NewEvent registered s op event := by
    intro ids hids event hevent
    obtain ⟨id, hid, rfl⟩ := List.mem_map.mp hevent
    exact .pruned op id (hids id hid)
  cases op with
  | insert kind options args delay =>
      by_cases hconflict : (s.rows.any fun r => r.2.uniqueKey.isSome &&
          r.2.uniqueKey = (queuedRow s.now kind options args delay).uniqueKey) = true
      · simpa only [step, State.insert, if_pos hconflict] using hnone
      · refine ⟨[.accepted s.nextId kind args options (s.now + delay)], ?_, ?_⟩
        · simp only [step, State.insert, if_neg hconflict]
          rfl
        · intro event hevent
          rw [List.mem_singleton.mp hevent]
          refine .inserted kind options args delay ?_ ?_ <;>
            simp [step, State.insert, if_neg hconflict, State.add]
  | performBulk kind options argss =>
      by_cases hlock : options.lock = .none
      · obtain ⟨new, hnew, hevents⟩ := performBulk_history s.now kind options argss s hs
        refine ⟨new, by simpa [step, State.performBulk, hlock] using hnew, ?_⟩
        intro event hevent
        obtain ⟨id, args, rfl, hle, hlt, hrow⟩ := hevents event hevent
        refine .bulkInserted kind options argss id args hlock hle ?_ ?_
        · simpa [step, State.performBulk, hlock, performBulk_nextId] using hlt
        · simpa [step, State.performBulk, hlock] using hrow
      · simp [step, State.performBulk, hlock]
  | heartbeat e =>
      simp only [step, State.heartbeat]
      split_ifs <;> exact hnone
  | returns e result =>
      simp only [step, State.returns]
      split_ifs with h
      · exact ⟨[_], rfl, fun event hevent => List.mem_singleton.mp hevent ▸ .performed e result h.1⟩
      · exact hnone
  | exhaust e =>
      simp only [step, State.exhaust]
      split_ifs with h
      · exact ⟨[_], rfl, fun event hevent => List.mem_singleton.mp hevent ▸ .exhausted e h.1⟩
      · exact hnone
  | record e delay =>
      simp only [step, State.record]
      split
      · split_ifs <;> exact hnone
      · exact hnone
  | pruneOld => exact ⟨_, rfl, hpruned _ fun id hid =>
      have ⟨_, hrow, _⟩ := dead_of_mem_deadTooLong hid
      (mem_rows.mp hrow).1⟩
  | pruneExcess => exact ⟨_, rfl, hpruned _ fun id hid =>
      have ⟨_, hrow, _⟩ := dead_of_mem_deadTooMany hid
      (mem_rows.mp hrow).1⟩
  | _ => exact hnone

variable (registered) in
theorem history_prefix_step (hs : Fresh s) (op : Op A) :
    s.history <+: (step registered s op).history := by
  obtain ⟨new, h, -⟩ := history_step registered hs op
  exact h ▸ List.prefix_append _ _

variable (registered) in
theorem now_le_step (s : State A) (op : Op A) : s.now ≤ (step registered s op).now := by
  cases op with
  | insert kind options args delay =>
      simp only [step, State.insert]
      split_ifs <;> exact le_rfl
  | performBulk kind options argss =>
      simp only [step, State.performBulk]
      split_ifs
      · exact le_rfl
      · exact (performBulk_now s.now kind options argss s).ge
  | heartbeat e =>
      simp only [step, State.heartbeat]
      split_ifs <;> exact le_rfl
  | returns e result =>
      simp only [step, State.returns]
      split_ifs <;> exact le_rfl
  | exhaust e =>
      simp only [step, State.exhaust]
      split_ifs <;> exact le_rfl
  | record e delay =>
      simp only [step, State.record]
      split
      · split_ifs <;> exact le_rfl
      · exact le_rfl
  | tick elapsed => exact Nat.le_add_right _ _
  | _ => exact le_rfl

/-- What holds of the table, the executions in flight and the history. -/
structure Tracked (s : State A) : Prop where
  fresh : Fresh s
  sound : ∀ id row, s.jobs id = some row → row.Sound
  issued : ∀ e ∈ s.executions, e.job.id < s.nextId
  columns : ∀ e ∈ s.executions, ∀ row, s.jobs e.job.id = some row →
    row.maxRetries = e.job.maxRetries ∧ row.keepDead = e.job.keepDead ∧
      e.job.attempts ≤ row.attempts
  performed : ∀ e ∈ s.executions, ∀ result, e.returned = some result →
    .performed e.job result ∈ s.history
  past : ∀ event ∈ s.history, event.id < s.nextId

theorem ExecutionStep.job {op : Op A} {e : Execution A}
    (h : ExecutionStep registered s op e) :
    (∃ e₀ ∈ s.executions, e₀.job = e.job) ∨
      ∃ id row, s.jobs id = some row ∧ e.job = row.claimed id := by
  cases h with
  | kept _ _ he => exact .inl ⟨_, he, rfl⟩
  | claimed _ _ _ _ id row hrow => exact .inr ⟨id, row, hrow, rfl⟩
  | returned e₀ result he₀ => exact .inl ⟨e₀, he₀, rfl⟩
  | exhausted e₀ he₀ => exact .inl ⟨e₀, he₀, rfl⟩

theorem Tracked.step (h : Tracked s) (op : Op A) : Tracked (step registered s op) := by
  have hrows := fun id => step_row registered h.fresh op id
  have hhistory := (history_prefix_step registered h.fresh op).subset
  have hlt : ∀ {id row}, s.jobs id = some row → id < s.nextId := fun {id row} hrow =>
    lt_of_not_ge fun hge => by rw [h.fresh id hge] at hrow; cases hrow
  refine ⟨h.fresh.step op, fun id row hrow => (hrows id).sound (h.sound id) hrow, ?_, ?_, ?_, ?_⟩
  · intro e he
    refine lt_of_lt_of_le ?_ (nextId_le_step registered s op)
    rcases (step_execution s op he).job with ⟨e₀, he₀, hjob⟩ | ⟨id, row, hrow, hjob⟩
    · exact hjob ▸ h.issued e₀ he₀
    · exact hjob ▸ hlt hrow
  · intro e he row' hrow'
    rcases (step_execution s op he).job with ⟨e₀, he₀, hjob⟩ | ⟨id, row, hrow, hjob⟩
    · rw [← hjob] at hrow' ⊢
      cases hrow : s.jobs e₀.job.id with
      | none =>
          -- An id in use is not inserted again.
          have hid := h.issued e₀ he₀
          rcases (hrows e₀.job.id).of_none hrow with
            hn | ⟨_, _, _, _, -, hn, -⟩ | ⟨_, _, _, _, -, hn, -⟩
          · rw [hn] at hrow'; cases hrow'
          · omega
          · omega
      | some row =>
          obtain ⟨hmax, hkeep, hattempts⟩ := h.columns e₀ he₀ row hrow
          have hlater := (hrows e₀.job.id).later hrow hrow'
          exact ⟨hlater.maxRetries.trans hmax, hlater.keepDead.trans hkeep,
            hattempts.trans hlater.attempts⟩
    · rw [hjob] at hrow' ⊢
      have hlater := (hrows id).later hrow hrow'
      exact ⟨hlater.maxRetries, hlater.keepDead, hlater.attempts⟩
  · intro e he result hresult
    cases step_execution s op he with
    | kept _ _ he => exact hhistory (h.performed e he result hresult)
    | claimed => cases hresult
    | returned e₀ result he₀ _ hevent => cases hresult; exact hevent
    | exhausted e₀ he₀ => exact hhistory (h.performed e₀ he₀ result hresult)
  · intro event hevent
    obtain ⟨new, hhistory, hnew⟩ := history_step registered h.fresh op
    have hnext := nextId_le_step registered s op
    rw [hhistory, List.mem_append] at hevent
    rcases hevent with hevent | hevent
    · exact (h.past event hevent).trans_le hnext
    · cases hnew event hevent with
      | inserted _ _ _ _ hlast => exact hlast ▸ Nat.lt_succ_self _
      | bulkInserted _ _ _ _ _ _ _ hlt => exact hlt
      | performed e _ he => exact (h.issued e he).trans_le hnext
      | exhausted e he => exact (h.issued e he).trans_le hnext
      | pruned _ id hid => exact hid.trans_le hnext

variable (registered) in
theorem tracked_after (ops : List (Op A)) : Tracked (after registered ops) := by
  refine run_invariant (P := Tracked) (fun s op h => h.step op) _ ops ?_
  exact ⟨fun _ _ => rfl, by simp [State.empty], by simp [State.empty], by simp [State.empty],
    by simp [State.empty], by simp [State.empty]⟩

end

end Eunha.JobQueue
