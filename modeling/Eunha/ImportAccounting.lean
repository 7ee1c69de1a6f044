import Eunha.Imports
import Mathlib.Data.List.Nodup
import Mathlib.Order.Nat

/-!
# The accounting of an import

Once no job of an import is in the table or being worked on, the import is finished, every row
was counted once, and the rows left are those whose effect did not happen. That takes a first
pass that indexes every row, does not fail, and does not die over rows it has settled; a row
read by one worker at a time, and given up only before its effect has happened; and nothing
lost between a row being deleted or counted and its job being done with it.
-/
namespace Eunha.Imports
open Interleaving Runs

/-! ### What is asked of an import -/

def ids (s : Import) : List ℕ := s.rows.map (·.id)

/-- The jobs in the table, each with its row. -/
def pairs (s : Import) : List (ℕ × Option ℕ) := s.jobs.map fun j => (j.id, j.row)

structure Accounted (all : List ℕ) (s : Import) : Prop where
  finished : s.state = .finished
  processed : s.processedItems = s.totalItems
  imported : s.importedItems = s.totalItems - s.rows.length
  once : s.counted.Perm all
  left : ∀ row ∈ all, row ∈ ids s ↔ row ∉ s.effects

/-- What is asked of an import once none of its jobs is in the table or being worked on. -/
def Kept (all : List ℕ) (c : Config Import Call) : Prop :=
  c.store.jobs = [] → c.Quiescent → Accounted all c.store

def Call.job : Call → ℕ
  | .first job _ => job
  | .row job _ _ _ => job

def Call.rowOf : Call → Option ℕ
  | .first _ _ => none
  | .row _ _ r _ => some r

def Call.begun : Call → Bool
  | .first _ .begin => false
  | .first _ _ => true
  | .row _ _ _ _ => false

def Call.works : Call → Bool
  | .row _ _ _ .perform => true
  | .row _ _ _ .delete => true
  | .row _ _ _ (.count _ _) => true
  | _ => false

def Call.gives : Call → Bool
  | .row _ _ _ (.finish false _) => true
  | .row _ _ _ (.done true) => true
  | _ => false

def Call.finishing : Call → Bool
  | .first _ .finish => true
  | .row _ _ _ (.finish _ _) => true
  | _ => false

def Answer.succeeds (w : Answer) : Bool := w ≠ .crashes && !w.failed

def Listed (s : Import) (job : ℕ) : Prop := job ∈ (pairs s).map (·.1)

def Alone (row : ℕ) (calls : List Call) : Prop :=
  ∀ c ∈ calls, c.rowOf = some row → c.works = false ∧ c.gives = false

def FirstSound (s : Import) (job : ℕ) (stage : FirstStage) (calls : List Call) (w : Answer) :
    Prop :=
  match stage with
  | .begin => w ≠ .crashes → w.failed = false ∧ Listed s job ∧ ∀ c ∈ calls, c.begun = false
  | .start _ => w.failed = false
  | .load _ =>
      w.failed = false ∧
        (s.type ≠ .domainBlocking → (indexed s).map (·.map Prod.snd) = some s.rows)
  | .settle _ _ _ => w.failed = false ∧ (w = .crashes → s.processedItems = 0)
  | .carry _ _ _ _ => w.succeeds
  | .clear _ => w.failed = false
  | .block _ [] => w.succeeds
  | .block _ (row :: _) => w.succeeds ∧ row.hasDomain
  | .finish => w.succeeds
  | .done => w.succeeds

def RowSound (s : Import) (job row : ℕ) (stage : RowStage) (calls : List Call) (w : Answer) :
    Prop :=
  match stage with
  | .read => row ∈ ids s → w.succeeds → Listed s job ∧ Alone row calls
  | .perform => w = .refuses → row ∉ s.effects
  | .count true _ => w.succeeds
  | .count false exhausted => exhausted → w.failed = false
  | .finish _ _ => w.succeeds
  | .exhausted =>
      row ∈ ids s → w.failed = false ∧
        (w.succeeds → row ∉ s.effects ∧ Listed s job ∧ Alone row calls)
  | .done gaveUp => gaveUp → w.succeeds
  | .delete => True
  | .failed => True

def Sound (s : Import) (c : Call) (calls : List Call) (w : Answer) : Prop :=
  match c with
  | .first job stage => FirstSound s job stage calls w
  | .row job _ row stage => RowSound s job row stage calls w

instance (s : Import) (job : ℕ) : Decidable (Listed s job) :=
  inferInstanceAs (Decidable (_ ∈ _))

instance (row : ℕ) (calls : List Call) : Decidable (Alone row calls) :=
  inferInstanceAs (Decidable (∀ c ∈ calls, _))

instance (s : Import) (job : ℕ) (stage : FirstStage) (calls : List Call) (w : Answer) :
    Decidable (FirstSound s job stage calls w) := by
  unfold FirstSound
  split <;> infer_instance

instance (s : Import) (job row : ℕ) (stage : RowStage) (calls : List Call) (w : Answer) :
    Decidable (RowSound s job row stage calls w) := by
  unfold RowSound
  split <;> infer_instance

instance (s : Import) (c : Call) (calls : List Call) (w : Answer) :
    Decidable (Sound s c calls w) := by
  unfold Sound
  split <;> infer_instance

/-- A job may be claimed at any time, and what is asked is asked of the statements. -/
def guards : Guards Import Call ℕ Answer := ⟨fun _ _ _ => True, Sound⟩

instance (c : Config Import Call) (e : Event ℕ Answer) : Decidable (guards.meets c e) := by
  unfold Guards.meets
  split
  · exact .isTrue trivial
  · split
    · exact .isTrue trivial
    · change Decidable (Sound _ _ _ _)
      infer_instance

/-! ### One row, as the import and the calls have it -/

structure View where
  present : Prop
  counted : Prop
  effect : Prop
  jobs : List ℕ
  calls : List Call

def view (s : Import) (calls : List Call) (row : ℕ) : View where
  present := row ∈ ids s
  counted := row ∈ s.counted
  effect := row ∈ s.effects
  jobs := ((pairs s).filter (·.2 = some row)).map (·.1)
  calls := calls.filter (·.rowOf = some row)

def RowStage.Holds (v : View) : RowStage → Prop
  | .perform => v.present ∧ ¬v.counted
  | .delete => v.present ∧ ¬v.counted ∧ v.effect
  | .count true _ => ¬v.present ∧ ¬v.counted ∧ v.effect
  | .count false _ => v.present ∧ ¬v.counted ∧ ¬v.effect
  | .finish true _ => ¬v.present
  | .finish false _ => v.present ∧ v.counted
  | .done true => v.present ∧ v.counted
  | .done false => ¬v.present
  | _ => True

def Call.Holds (v : View) : Call → Prop
  | .first _ _ => True
  | .row _ _ _ stage => stage.Holds v

def Call.counts : Call → Bool
  | .row _ _ _ (.count true _) => true
  | _ => false

/-- A row that was queued: it waits for its job, is deleted and about to be counted, or was
counted, once its effect had happened or as one given up. -/
structure Fine (v : View) : Prop where
  waits : ¬v.counted → v.present → v.jobs ≠ []
  counts : ¬v.counted → ¬v.present → ∃ c ∈ v.calls, c.counts
  carried : v.counted → ¬v.present → v.effect
  kept : v.counted → v.present → ¬v.effect
  spent : v.counted → v.present → ∀ j ∈ v.jobs, ∃ c ∈ v.calls, c.job = j ∧ c.gives
  each : ∀ c ∈ v.calls, c.Holds v
  single : v.calls.Pairwise fun c d => ¬(c.works ∧ d.works)
  unique : ∀ j ∈ v.jobs, ∀ k ∈ v.jobs, j = k
  same : ∀ c ∈ v.calls, ∀ j ∈ v.jobs, c.job = j

section
variable {p k e : Prop} {js : List ℕ} {c : Call} {n : Option Call} {calls : List Call}

theorem Fine.swap (h : Fine ⟨p, k, e, js, c :: calls⟩) (hcounts : c.counts = false)
    (hgives : c.gives = true → ∃ d ∈ n, d.job = c.job ∧ d.gives)
    (hholds : ∀ d ∈ n, d.Holds ⟨p, k, e, js, n.toList ++ calls⟩)
    (hworks : ∀ d ∈ n, d.works = true → ∀ o ∈ calls, o.works = false)
    (hjob : ∀ d ∈ n, ∀ j ∈ js, d.job = j) :
    Fine ⟨p, k, e, js, n.toList ++ calls⟩ where
  waits := h.waits
  counts := by
    intro hk hp
    obtain ⟨o, ho, hoc⟩ := h.counts hk hp
    rcases List.mem_cons.1 ho with rfl | ho
    · rw [hcounts] at hoc
      cases hoc
    · exact ⟨o, List.mem_append_right _ ho, hoc⟩
  carried := h.carried
  kept := h.kept
  spent := by
    intro hk hp j hj
    obtain ⟨o, ho, hoj, hog⟩ := h.spent hk hp j hj
    rcases List.mem_cons.1 ho with rfl | ho
    · obtain ⟨d, hd, hdj, hdg⟩ := hgives hog
      exact ⟨d, List.mem_append_left _ (Option.mem_toList.2 hd), hdj.trans hoj, hdg⟩
    · exact ⟨o, List.mem_append_right _ ho, hoj, hog⟩
  each := by
    intro o ho
    rcases List.mem_append.1 ho with ho | ho
    · exact hholds o (Option.mem_toList.1 ho)
    · have hold := h.each o (List.mem_cons_of_mem _ ho)
      cases o with
      | first job stage => trivial
      | row job attempts row stage => exact hold
  single := by
    have hrest := (List.pairwise_cons.1 h.single).2
    cases n with
    | none => exact hrest
    | some d =>
        apply List.pairwise_cons.2
        refine ⟨fun o ho hw => ?_, hrest⟩
        rw [hworks d rfl hw.1 o ho] at hw
        exact absurd hw.2 (by decide)
  unique := h.unique
  same := by
    intro o ho
    rcases List.mem_append.1 ho with ho | ho
    · exact hjob o (Option.mem_toList.1 ho)
    · exact h.same o (List.mem_cons_of_mem _ ho)

theorem Fine.idle (h : Fine ⟨p, k, e, js, c :: calls⟩) (hc : c.works = true) :
    ∀ o ∈ calls, o.works = false := by
  intro o ho
  have hnot := (List.pairwise_cons.1 h.single).1 o ho
  rw [hc] at hnot
  simpa using hnot

theorem pairwise_next {d : Call}
    (h : (c :: calls).Pairwise fun c d => ¬(c.works ∧ d.works))
    (hd : ∀ o ∈ calls, o.works = false) :
    (d :: calls).Pairwise fun c d => ¬(c.works ∧ d.works) := by
  apply List.pairwise_cons.2
  refine ⟨fun o ho hw => ?_, (List.pairwise_cons.1 h).2⟩
  rw [hd o ho] at hw
  exact absurd hw.2 (by decide)

theorem same_next {d : Call} (h : ∀ o ∈ c :: calls, ∀ j ∈ js, o.job = j) (hd : d.job = c.job) :
    ∀ o ∈ d :: calls, ∀ j ∈ js, o.job = j := by
  intro o ho j hj
  rcases List.mem_cons.1 ho with rfl | ho
  · exact hd.trans (h c List.mem_cons_self j hj)
  · exact h o (List.mem_cons_of_mem _ ho) j hj

theorem Call.Holds.mono {v v' : View} {o : Call} (h : o.Holds v) (ho : o.works = false)
    (hp : v'.present ↔ v.present) (hk : v.counted → v'.counted) : o.Holds v' := by
  cases o with
  | first job stage => trivial
  | row job attempts r stage =>
      cases stage with
      | perform => cases ho
      | delete => cases ho
      | count imported exhausted => cases ho
      | finish imported exhausted =>
          cases imported with
          | true => exact fun hp' => h (hp.1 hp')
          | false => exact ⟨hp.2 h.1, hk h.2⟩
      | done gaveUp =>
          cases gaveUp with
          | true => exact ⟨hp.2 h.1, hk h.2⟩
          | false => exact fun hp' => h (hp.1 hp')
      | _ => trivial

section
variable {job a r : ℕ} {stage : RowStage}

theorem Fine.carries (h : Fine ⟨p, k, e, js, .row job a r .perform :: calls⟩)
    (hstage : stage = .delete ∨ stage = .failed) :
    Fine ⟨p, k, True, js, .row job a r stage :: calls⟩ := by
  obtain ⟨hp, hk⟩ : p ∧ ¬k := h.each _ List.mem_cons_self
  have hidle := h.idle rfl
  exact
    { waits := h.waits
      counts := fun _ hnp => absurd hp hnp
      carried := fun hk' => absurd hk' hk
      kept := fun hk' => absurd hk' hk
      spent := fun hk' => absurd hk' hk
      each := by
        intro o ho
        rcases List.mem_cons.1 ho with rfl | ho
        · rcases hstage with rfl | rfl
          · exact ⟨hp, hk, trivial⟩
          · trivial
        · have hold := h.each o (List.mem_cons_of_mem _ ho)
          exact hold.mono (hidle o ho) Iff.rfl id
      single := pairwise_next h.single hidle
      unique := h.unique
      same := same_next h.same rfl }

theorem Fine.deletes (h : Fine ⟨p, k, e, js, .row job a r .delete :: calls⟩) :
    Fine ⟨False, k, e, js, .row job a r (.count true false) :: calls⟩ := by
  obtain ⟨hp, hk, he⟩ : p ∧ ¬k ∧ e := h.each _ List.mem_cons_self
  have hidle := h.idle rfl
  exact
    { waits := fun _ hp' => hp'.elim
      counts := fun _ _ => ⟨_, List.mem_cons_self, rfl⟩
      carried := fun hk' => absurd hk' hk
      kept := fun hk' => absurd hk' hk
      spent := fun hk' => absurd hk' hk
      each := by
        intro o ho
        rcases List.mem_cons.1 ho with rfl | ho
        · exact ⟨id, hk, he⟩
        · have hold := h.each o (List.mem_cons_of_mem _ ho)
          have hworks := hidle o ho
          cases o with
          | first job' stage' => trivial
          | row job' a' r' stage' =>
              cases stage' with
              | perform => cases hworks
              | delete => cases hworks
              | count imported exhausted => cases hworks
              | finish imported exhausted =>
                  cases imported with
                  | true => exact id
                  | false => exact absurd hold.2 hk
              | done gaveUp =>
                  cases gaveUp with
                  | true => exact absurd hold.2 hk
                  | false => exact id
              | _ => trivial
      single := pairwise_next h.single hidle
      unique := h.unique
      same := same_next h.same rfl }

theorem Fine.progresses {imported exhausted : Bool}
    (h : Fine ⟨p, k, e, js, .row job a r (.count imported exhausted) :: calls⟩)
    (hstage : stage = .finish imported exhausted ∨ stage = .done !imported) :
    Fine ⟨p, True, e, js, .row job a r stage :: calls⟩ := by
  have hhere := h.each _ List.mem_cons_self
  have hidle := h.idle rfl
  have hrow : (imported = true ∧ ¬p ∧ e) ∨ (imported = false ∧ p ∧ ¬e) := by
    cases imported with
    | true => exact .inl ⟨rfl, hhere.1, hhere.2.2⟩
    | false => exact .inr ⟨rfl, hhere.1, hhere.2.2⟩
  exact
    { waits := fun hk => absurd trivial hk
      counts := fun hk => absurd trivial hk
      carried := by
        intro _ hp
        rcases hrow with ⟨_, _, he⟩ | ⟨_, hp', _⟩
        · exact he
        · exact absurd hp' hp
      kept := by
        intro _ hp
        rcases hrow with ⟨_, hp', _⟩ | ⟨_, _, he⟩
        · exact absurd hp hp'
        · exact he
      spent := by
        intro _ hp j hj
        rcases hrow with ⟨_, hp', _⟩ | ⟨rfl, _, _⟩
        · exact absurd hp hp'
        · refine ⟨_, List.mem_cons_self, h.same _ List.mem_cons_self j hj, ?_⟩
          rcases hstage with rfl | rfl <;> rfl
      each := by
        intro o ho
        rcases List.mem_cons.1 ho with rfl | ho
        · rcases hrow with ⟨rfl, hp, _⟩ | ⟨rfl, hp, _⟩
          · rcases hstage with rfl | rfl <;> exact hp
          · rcases hstage with rfl | rfl <;> exact ⟨hp, trivial⟩
        · have hold := h.each o (List.mem_cons_of_mem _ ho)
          exact hold.mono (hidle o ho) Iff.rfl fun _ => trivial
      single := pairwise_next h.single hidle
      unique := h.unique
      same := same_next h.same rfl }

theorem Fine.ends {gaveUp : Bool}
    (h : Fine ⟨p, k, e, js, .row job a r (.done gaveUp) :: calls⟩) :
    Fine ⟨p, k, e, js.filter (· ≠ job), calls⟩ := by
  have hhere := h.each _ List.mem_cons_self
  exact
    { waits := by
        intro hk hp
        cases gaveUp with
        | true => exact absurd hhere.2 hk
        | false => exact absurd hp hhere
      counts := by
        intro hk hp
        obtain ⟨o, ho, hoc⟩ := h.counts hk hp
        rcases List.mem_cons.1 ho with rfl | ho
        · cases hoc
        · exact ⟨o, ho, hoc⟩
      carried := h.carried
      kept := h.kept
      spent := by
        intro _ _ j hj
        have hmem := List.mem_filter.1 hj
        have hjob : job = j := h.same _ List.mem_cons_self j hmem.1
        simp [hjob] at hmem
      each := fun o ho => by
        have hold := h.each o (List.mem_cons_of_mem _ ho)
        cases o with
        | first job' stage' => trivial
        | row job' a' r' stage' => exact hold
      single := (List.pairwise_cons.1 h.single).2
      unique := fun j hj j' hj' =>
        h.unique j (List.mem_of_mem_filter hj) j' (List.mem_of_mem_filter hj')
      same := fun o ho j hj =>
        h.same o (List.mem_cons_of_mem _ ho) j (List.mem_of_mem_filter hj) }

end

end

/-! ### The counters -/

/-- The counters say how many rows were counted, and how many of these are gone. -/
structure Base (all : List ℕ) (s : Import) : Prop where
  distinct : all.Nodup
  total : s.totalItems = all.length
  rows : (ids s).Nodup
  known : ∀ r ∈ ids s, r ∈ all
  once : s.counted.Nodup
  counted : ∀ r ∈ s.counted, r ∈ all
  processed : s.processedItems = s.counted.length
  imported : s.importedItems = (s.counted.filter (· ∉ ids s)).length

theorem mem_ids_deleteRow {s : Import} {r x : ℕ} :
    x ∈ ids (s.deleteRow r) ↔ x ∈ ids s ∧ x ≠ r := by
  simp only [ids, Import.deleteRow, List.mem_map, List.mem_filter, decide_eq_true_eq]
  constructor
  · rintro ⟨row, ⟨hrow, hne⟩, rfl⟩
    exact ⟨⟨row, hrow, rfl⟩, hne⟩
  · rintro ⟨⟨row, hrow, rfl⟩, hne⟩
    exact ⟨row, ⟨hrow, hne⟩, rfl⟩

section
variable {all : List ℕ} {s t : Import} {r : ℕ}

theorem Base.congr (h : Base all s) (htotal : t.totalItems = s.totalItems)
    (hrows : ids t = ids s) (hcounted : t.counted = s.counted)
    (hprocessed : t.processedItems = s.processedItems)
    (himported : t.importedItems = s.importedItems) : Base all t where
  distinct := h.distinct
  total := htotal.trans h.total
  rows := hrows ▸ h.rows
  known := hrows ▸ h.known
  once := hcounted ▸ h.once
  counted := hcounted ▸ h.counted
  processed := by rw [hprocessed, hcounted]; exact h.processed
  imported := by rw [himported, hcounted, hrows]; exact h.imported

theorem Base.deleteRow (h : Base all s) (hr : r ∉ s.counted) : Base all (s.deleteRow r) where
  distinct := h.distinct
  total := h.total
  rows := h.rows.sublist (List.filter_sublist.map _)
  known := fun x hx => h.known x (mem_ids_deleteRow.1 hx).1
  once := h.once
  counted := h.counted
  processed := h.processed
  imported := by
    refine h.imported.trans (congrArg List.length (List.filter_congr fun x hx => ?_))
    have hne : x ≠ r := fun he => hr (he ▸ hx)
    simp only [mem_ids_deleteRow, hne, ne_eq, not_false_eq_true, and_true]

theorem Base.progress {imported : Bool} (h : Base all s) (hall : r ∈ all) (hr : r ∉ s.counted)
    (himported : imported = true ↔ r ∉ ids s) : Base all (s.progress r imported) where
  distinct := h.distinct
  total := h.total
  rows := h.rows
  known := h.known
  once := by
    apply List.nodup_append.2
    refine ⟨h.once, List.nodup_singleton r, ?_⟩
    rintro x hx y hy rfl
    exact hr (List.mem_singleton.1 hy ▸ hx)
  counted := by
    intro x hx
    rcases List.mem_append.1 hx with hx | hx
    · exact h.counted x hx
    · exact List.mem_singleton.1 hx ▸ hall
  processed := by
    show s.processedItems + 1 = (s.counted ++ [r]).length
    rw [h.processed, List.length_append, List.length_singleton]
  imported := by
    show s.importedItems + (if imported = true then 1 else 0) =
      ((s.counted ++ [r]).filter (· ∉ ids s)).length
    rw [List.filter_append, List.length_append, ← h.imported]
    by_cases hin : r ∈ ids s
    · have hfalse : ¬imported = true := fun hi => himported.1 hi hin
      simp [hin, hfalse]
    · simp [hin, himported.2 hin]

theorem Base.settleRow (h : Base all s) (hall : r ∈ all) (hr : r ∉ s.counted) :
    Base all (s.settleRow r) := by
  refine (h.deleteRow hr).progress hall hr (iff_of_true rfl ?_)
  exact fun hin => (mem_ids_deleteRow.1 hin).2 rfl

end

/-! ### Once the first pass has queued the rows -/

def rowJobs (s : Import) (r : ℕ) : List ℕ := ((pairs s).filter (·.2 = some r)).map (·.1)

def rowCalls (calls : List Call) (r : ℕ) : List Call := calls.filter (·.rowOf = some r)

theorem mem_rowJobs {s : Import} {r j : ℕ} : j ∈ rowJobs s r ↔ (j, some r) ∈ pairs s := by
  simp only [rowJobs, List.mem_map, List.mem_filter, decide_eq_true_eq]
  constructor
  · rintro ⟨⟨j', o⟩, ⟨hp, rfl⟩, rfl⟩
    exact hp
  · exact fun hp => ⟨(j, some r), ⟨hp, rfl⟩, rfl⟩

/-- The rows are what their jobs and their calls make of them. -/
structure Late (all : List ℕ) (s : Import) (calls : List Call) : Prop where
  fine : ∀ r ∈ all, Fine (view s calls r)
  jobs : ((pairs s).map (·.1)).Nodup
  rowOf : ∀ p ∈ pairs s, ∀ c ∈ calls, c.job = p.1 → c.rowOf = p.2
  known : ∀ c ∈ calls, ∀ r, c.rowOf = some r → r ∈ all
  rows : ∀ p ∈ pairs s, ∀ r, p.2 = some r → r ∈ all
  first : ∀ job stage, .first job stage ∈ calls →
    job = 0 ∧ (stage = .begin ∨ stage = .finish ∨ stage = .done)
  firstJob : ∀ p ∈ pairs s, p.2 = none → p.1 = 0 ∧ ∃ c ∈ calls, c.begun
  complete : s.counted.length = s.totalItems →
    s.state = .finished ∨ ∃ c ∈ calls, c.finishing

section
variable {all : List ℕ} {s t : Import} {calls : List Call} {n : Option Call}
  {job a r : ℕ} {stage : RowStage}

theorem Late.here (h : Late all s (.row job a r stage :: calls)) :
    r ∈ all ∧ Fine ⟨r ∈ ids s, r ∈ s.counted, r ∈ s.effects, rowJobs s r,
      .row job a r stage :: rowCalls calls r⟩ := by
  have hall := h.known _ List.mem_cons_self r rfl
  have hfine := h.fine r hall
  simp only [view, List.filter_cons, Call.rowOf, decide_true, if_true] at hfine
  exact ⟨hall, hfine⟩

theorem Late.replace {c : Call} (h : Late all s (c :: calls))
    (hids : ∀ x, c.rowOf ≠ some x → (x ∈ ids t ↔ x ∈ ids s))
    (hcounted : ∀ x, c.rowOf ≠ some x → (x ∈ t.counted ↔ x ∈ s.counted))
    (heffects : ∀ x, c.rowOf ≠ some x → (x ∈ t.effects ↔ x ∈ s.effects))
    (hpairs : pairs t = pairs s ∨ pairs t = (pairs s).filter (·.1 ≠ c.job))
    (hnext : ∀ d ∈ n, d.job = c.job ∧ d.rowOf = c.rowOf)
    (hfine : ∀ x, c.rowOf = some x → Fine ⟨x ∈ ids t, x ∈ t.counted, x ∈ t.effects, rowJobs t x,
      n.toList ++ rowCalls calls x⟩)
    (hfirst : ∀ job stage, n = some (.first job stage) → stage = .finish ∨ stage = .done)
    (hbegun : ∀ p ∈ pairs t, p.2 = none → c.begun = true → ∃ d ∈ n, d.begun)
    (hcomplete : t.counted.length = t.totalItems →
      t.state = .finished ∨ ∃ c ∈ n.toList ++ calls, c.finishing) :
    Late all t (n.toList ++ calls) := by
  have hsub : ∀ p ∈ pairs t, p ∈ pairs s := by
    intro p hp
    rcases hpairs with heq | heq
    · exact heq ▸ hp
    · rw [heq] at hp
      exact List.mem_of_mem_filter hp
  have hmem : ∀ d ∈ n.toList ++ calls, d ∈ n ∨ d ∈ calls := by
    intro d hd
    exact (List.mem_append.1 hd).imp_left Option.mem_toList.1
  have hjobs : ∀ x, c.rowOf ≠ some x → rowJobs t x = rowJobs s x := by
    intro x hx
    rcases hpairs with heq | heq
    · rw [rowJobs, rowJobs, heq]
    · rw [rowJobs, rowJobs, heq, List.filter_filter]
      apply congrArg (List.map _)
      apply List.filter_congr
      intro p hp
      by_cases hpx : p.2 = some x
      · have hne : p.1 ≠ c.job := by
          intro he
          exact hx ((h.rowOf p hp c List.mem_cons_self he.symm).trans hpx)
        simp [hpx, hne]
      · simp [hpx]
  exact
    { fine := by
        intro x hx
        show Fine ⟨_, _, _, rowJobs t x, rowCalls (n.toList ++ calls) x⟩
        by_cases hxr : c.rowOf = some x
        · have hall : n.toList.filter (·.rowOf = some x) = n.toList := by
            apply List.filter_eq_self.2
            intro d hd
            exact decide_eq_true ((hnext d (Option.mem_toList.1 hd)).2.trans hxr)
          rw [rowCalls, List.filter_append, hall]
          exact hfine x hxr
        · have hnone : n.toList.filter (·.rowOf = some x) = [] := by
            apply List.filter_eq_nil_iff.2
            intro d hd
            rw [(hnext d (Option.mem_toList.1 hd)).2]
            simpa using hxr
          have hcalls : rowCalls (n.toList ++ calls) x = rowCalls (c :: calls) x := by
            rw [rowCalls, rowCalls, List.filter_append, hnone, List.nil_append,
              List.filter_cons_of_neg (by simpa using hxr)]
          rw [hjobs x hxr, hcalls, propext (hids x hxr), propext (hcounted x hxr),
            propext (heffects x hxr)]
          exact h.fine x hx
      jobs := by
        rcases hpairs with heq | heq
        · rw [heq]
          exact h.jobs
        · rw [heq]
          exact h.jobs.sublist (List.filter_sublist.map _)
      rowOf := by
        intro p hp d hd hjob
        rcases hmem d hd with hd | hd
        · obtain ⟨hj, hr⟩ := hnext d hd
          rw [hr]
          exact h.rowOf p (hsub p hp) c List.mem_cons_self (hj.symm.trans hjob)
        · exact h.rowOf p (hsub p hp) d (List.mem_cons_of_mem _ hd) hjob
      known := by
        intro d hd x hx
        rcases hmem d hd with hd | hd
        · exact h.known c List.mem_cons_self x ((hnext d hd).2.symm.trans hx)
        · exact h.known d (List.mem_cons_of_mem _ hd) x hx
      rows := fun p hp => h.rows p (hsub p hp)
      first := by
        intro job' stage' hd
        rcases hmem _ hd with hd | hd
        · have hnone : c.rowOf = none := (hnext _ hd).2.symm
          cases c with
          | row _ _ _ _ => cases hnone
          | first job'' stage'' =>
              have hjob := (h.first job'' stage'' List.mem_cons_self).1
              exact ⟨(hnext _ hd).1.trans hjob, .inr (hfirst job' stage' hd)⟩
        · exact h.first job' stage' (List.mem_cons_of_mem _ hd)
      firstJob := by
        intro p hp hnone
        obtain ⟨hzero, d, hd, hdb⟩ := h.firstJob p (hsub p hp) hnone
        refine ⟨hzero, ?_⟩
        rcases List.mem_cons.1 hd with rfl | hd
        · obtain ⟨d', hd', hdb'⟩ := hbegun p hp hnone hdb
          exact ⟨d', List.mem_append_left _ (Option.mem_toList.2 hd'), hdb'⟩
        · exact ⟨d, List.mem_append_right _ hd, hdb⟩
      complete := hcomplete }

theorem Late.step (h : Late all s (.row job a r stage :: calls))
    (hids : ∀ x, x ≠ r → (x ∈ ids t ↔ x ∈ ids s))
    (hcounted : ∀ x, x ≠ r → (x ∈ t.counted ↔ x ∈ s.counted))
    (heffects : ∀ x, x ≠ r → (x ∈ t.effects ↔ x ∈ s.effects))
    (hpairs : pairs t = pairs s ∨ pairs t = (pairs s).filter (·.1 ≠ job))
    (hnext : ∀ d ∈ n, d.job = job ∧ d.rowOf = some r)
    (hfine : Fine ⟨r ∈ ids t, r ∈ t.counted, r ∈ t.effects, rowJobs t r,
      n.toList ++ rowCalls calls r⟩)
    (hcomplete : t.counted.length = t.totalItems →
      t.state = .finished ∨ ∃ c ∈ n.toList ++ calls, c.finishing) :
    Late all t (n.toList ++ calls) := by
  have hne : ∀ x, (Call.row job a r stage).rowOf ≠ some x → x ≠ r := by
    rintro x hx rfl
    exact hx rfl
  refine h.replace (fun x hx => hids x (hne x hx)) (fun x hx => hcounted x (hne x hx))
    (fun x hx => heffects x (hne x hx)) hpairs hnext ?_ ?_ nofun hcomplete
  · rintro x hx
    obtain rfl : r = x := Option.some.inj hx
    exact hfine
  · rintro job' stage' rfl
    cases (hnext _ rfl).2

theorem Late.swap (h : Late all s (.row job a r stage :: calls))
    (hids : ids t = ids s) (hcounted : t.counted = s.counted) (heffects : t.effects = s.effects)
    (hpairs : pairs t = pairs s) (htotal : t.totalItems = s.totalItems)
    (hstate : s.state = .finished ∨ (Call.row job a r stage).finishing = true →
      t.state = .finished)
    (hnext : ∀ d ∈ n, d.job = job ∧ d.rowOf = some r)
    (hcounts : (Call.row job a r stage).counts = false)
    (hgives : (Call.row job a r stage).gives = true → ∃ d ∈ n, d.job = job ∧ d.gives)
    (hholds : ∀ d ∈ n, d.Holds ⟨r ∈ ids s, r ∈ s.counted, r ∈ s.effects, rowJobs s r,
      n.toList ++ rowCalls calls r⟩)
    (hworks : ∀ d ∈ n, d.works = true → ∀ o ∈ rowCalls calls r, o.works = false) :
    Late all t (n.toList ++ calls) := by
  have hfine := h.here.2
  apply h.step (t := t) (fun x _ => by rw [hids]) (fun x _ => by rw [hcounted])
    (fun x _ => by rw [heffects]) (.inl hpairs) hnext
  · have hjobs : rowJobs t r = rowJobs s r := by rw [rowJobs, rowJobs, hpairs]
    rw [hids, hcounted, heffects, hjobs]
    refine hfine.swap hcounts hgives hholds hworks fun d hd j hj => ?_
    exact (hnext d hd).1.trans (hfine.same _ List.mem_cons_self j hj)
  · intro hlen
    rw [hcounted, htotal] at hlen
    rcases h.complete hlen with hs | ⟨c, hc, hfin⟩
    · exact .inl (hstate (.inl hs))
    · rcases List.mem_cons.1 hc with rfl | hc
      · exact .inl (hstate (.inr hfin))
      · exact .inr ⟨c, List.mem_append_right _ hc, hfin⟩

end

/-! ### A worker of a row -/

theorem any_iff_mem_ids {s : Import} {r : ℕ} : s.rows.any (·.id = r) = true ↔ r ∈ ids s := by
  simp [ids]

theorem mem_rowCalls {calls : List Call} {r : ℕ} {o : Call} :
    o ∈ rowCalls calls r ↔ o ∈ calls ∧ o.rowOf = some r := by
  simp [rowCalls]

theorem Answer.failed_of_succeeds {w : Answer} (h : w.succeeds = true) : w.failed = false := by
  cases w <;> simp_all [Answer.succeeds, Answer.failed]

theorem Answer.ne_crashes {w : Answer} (h : w.succeeds = true) : w ≠ .crashes := by
  rintro rfl
  cases h

theorem Answer.succeeds_of {w : Answer} (hcrash : w ≠ .crashes) (hfailed : w.failed = false) :
    w.succeeds = true := by
  simp [Answer.succeeds, hcrash, hfailed]

section
variable {all : List ℕ} {s : Import} {calls : List Call} {job a r : ℕ} {stage : RowStage}
  {w : Answer}

theorem Late.spent (h : Late all s (.row job a r stage :: calls))
    (hcounts : (Call.row job a r stage).counts = false)
    (hgives : (Call.row job a r stage).gives = false)
    (hfin : (Call.row job a r stage).finishing = false) : Late all s calls := by
  refine h.swap (n := none) rfl rfl rfl rfl rfl ?_ nofun hcounts ?_ nofun nofun
  · rintro (hs | hf)
    · exact hs
    · rw [hfin] at hf
      cases hf
  · intro hg
    rw [hgives] at hg
    cases hg

theorem Late.goOn {t : RowStage} (h : Late all s (.row job a r stage :: calls))
    (hcounts : (Call.row job a r stage).counts = false)
    (hgives : (Call.row job a r stage).gives = false)
    (hfin : (Call.row job a r stage).finishing = false)
    (hholds : t.Holds ⟨r ∈ ids s, r ∈ s.counted, r ∈ s.effects, rowJobs s r,
      .row job a r t :: rowCalls calls r⟩)
    (hworks : (Call.row job a r t).works = true →
      ∀ o ∈ rowCalls calls r, o.works = false) :
    Late all s (.row job a r t :: calls) := by
  refine h.swap (n := some (.row job a r t)) rfl rfl rfl rfl rfl ?_ ?_ hcounts ?_ ?_ ?_
  · rintro (hs | hf)
    · exact hs
    · rw [hfin] at hf
      cases hf
  · rintro d ⟨⟩
    exact ⟨rfl, rfl⟩
  · intro hg
    rw [hgives] at hg
    cases hg
  · rintro d ⟨⟩
    exact hholds
  · rintro d ⟨⟩
    exact hworks

theorem Late.uncounted (h : Late all s (.row job a r stage :: calls))
    (hgives : (Call.row job a r stage).gives = false) (hin : r ∈ ids s) (hlisted : Listed s job)
    (halone : Alone r calls) : r ∉ s.counted := by
  intro hcounted
  obtain ⟨⟨j, o⟩, hp, rfl⟩ := List.mem_map.1 hlisted
  have hrow : some r = o := h.rowOf _ hp _ List.mem_cons_self rfl
  subst hrow
  obtain ⟨c, hc, _, hcg⟩ := h.here.2.spent hcounted hin _ (mem_rowJobs.2 hp)
  rcases List.mem_cons.1 hc with rfl | hc
  · rw [hgives] at hcg
    cases hcg
  · obtain ⟨hc, hcr⟩ := mem_rowCalls.1 hc
    rw [(halone c hc hcr).2] at hcg
    cases hcg

theorem Alone.rowCalls (h : Alone r calls) : ∀ o ∈ Imports.rowCalls calls r, o.works = false := by
  intro o ho
  obtain ⟨hmem, hrow⟩ := mem_rowCalls.1 ho
  exact (h o hmem hrow).1

theorem late_read (h : Late all s (.row job a r .read :: calls))
    (hg : RowSound s job r .read calls w) (hcrash : w ≠ .crashes) :
    Late all s (((rowWorker s job a r .read w).2.map (Call.row job a r)).toList ++ calls) := by
  dsimp only [rowWorker]
  cases hfailed : w.failed with
  | true => exact h.goOn (t := .failed) rfl rfl rfl trivial nofun
  | false =>
      by_cases hin : r ∈ ids s
      · obtain ⟨hlisted, halone⟩ := hg hin (Answer.succeeds_of hcrash hfailed)
        rw [if_neg (by decide), if_pos (any_iff_mem_ids.2 hin)]
        refine h.goOn (t := .perform) rfl rfl rfl ?_ fun _ => halone.rowCalls
        exact ⟨hin, h.uncounted rfl hin hlisted halone⟩
      · rw [if_neg (by decide), if_neg (mt any_iff_mem_ids.1 hin)]
        exact h.goOn (t := .done false) rfl rfl rfl hin nofun

theorem late_exhausted (h : Late all s (.row job a r .exhausted :: calls))
    (hg : RowSound s job r .exhausted calls w) (hcrash : w ≠ .crashes) :
    Late all s (((rowWorker s job a r .exhausted w).2.map (Call.row job a r)).toList ++ calls) := by
  dsimp only [rowWorker]
  by_cases hin : r ∈ ids s
  · obtain ⟨hfailed, hrest⟩ := hg hin
    obtain ⟨heffect, hlisted, halone⟩ := hrest (Answer.succeeds_of hcrash hfailed)
    rw [if_neg (by rw [hfailed]; decide), if_pos (any_iff_mem_ids.2 hin)]
    refine h.goOn (t := .count false true) rfl rfl rfl ?_ fun _ => halone.rowCalls
    exact ⟨hin, h.uncounted rfl hin hlisted halone, heffect⟩
  · rw [if_neg (mt any_iff_mem_ids.1 hin), ite_self]
    exact h.goOn (t := .done false) rfl rfl rfl hin nofun

theorem Late.carries {stage' : RowStage} (h : Late all s (.row job a r .perform :: calls))
    (hstage : stage' = .delete ∨ stage' = .failed) :
    Late all (s.carryOut r) (.row job a r stage' :: calls) := by
  refine h.step (t := s.carryOut r) (n := some (.row job a r stage')) (fun _ _ => Iff.rfl)
    (fun _ _ => Iff.rfl) ?_ (.inl rfl) ?_ ?_ ?_
  · intro x hx
    show x ∈ s.effects ++ [r] ↔ x ∈ s.effects
    simp [hx]
  · rintro d ⟨⟩
    exact ⟨rfl, rfl⟩
  · have hmem : (r ∈ (s.carryOut r).effects) = True :=
      eq_true (List.mem_append_right _ List.mem_cons_self)
    rw [hmem]
    exact h.here.2.carries hstage
  · intro hlen
    rcases h.complete hlen with hs | ⟨c, hc, hfin⟩
    · exact .inl hs
    · rcases List.mem_cons.1 hc with rfl | hc
      · cases hfin
      · exact .inr ⟨c, List.mem_cons_of_mem _ hc, hfin⟩

theorem late_perform (h : Late all s (.row job a r .perform :: calls))
    (hg : RowSound s job r .perform calls w) :
    Late all (rowWorker s job a r .perform w).1
      (((rowWorker s job a r .perform w).2.map (Call.row job a r)).toList ++ calls) := by
  have hhere := h.here.2
  obtain ⟨hin, hk⟩ : r ∈ ids s ∧ r ∉ s.counted := hhere.each _ List.mem_cons_self
  cases w with
  | fails => exact h.goOn (t := .failed) rfl rfl rfl trivial nofun
  | failsAfter => exact h.carries (.inr rfl)
  | refuses =>
      refine h.goOn (t := .count false false) rfl rfl rfl ⟨hin, hk, hg rfl⟩ ?_
      exact fun _ => hhere.idle rfl
  | ok => exact h.carries (.inl rfl)
  | finds existing => exact h.carries (.inl rfl)
  | crashes => exact h.carries (.inl rfl)

theorem late_delete (h : Late all s (.row job a r .delete :: calls)) :
    Late all (rowWorker s job a r .delete w).1
      (((rowWorker s job a r .delete w).2.map (Call.row job a r)).toList ++ calls) := by
  dsimp only [rowWorker]
  cases w.failed with
  | true => exact h.goOn (t := .failed) rfl rfl rfl trivial nofun
  | false =>
      refine h.step (t := s.deleteRow r) (n := some (.row job a r (.count true false)))
        ?_ (fun _ _ => Iff.rfl) (fun _ _ => Iff.rfl) (.inl rfl) ?_ ?_ ?_
      · intro x hx
        rw [mem_ids_deleteRow]
        exact and_iff_left hx
      · rintro d ⟨⟩
        exact ⟨rfl, rfl⟩
      · have hgone : (r ∈ ids (s.deleteRow r)) = False :=
          eq_false fun hin => (mem_ids_deleteRow.1 hin).2 rfl
        rw [hgone]
        exact h.here.2.deletes
      · intro hlen
        rcases h.complete hlen with hs | ⟨c, hc, hfin⟩
        · exact .inl hs
        · rcases List.mem_cons.1 hc with rfl | hc
          · cases hfin
          · exact .inr ⟨c, List.mem_cons_of_mem _ hc, hfin⟩

theorem late_progress {imported exhausted : Bool} (hb : Base all s)
    (h : Late all s (.row job a r (.count imported exhausted) :: calls))
    (hfailed : w.failed = false) :
    Base all (rowWorker s job a r (.count imported exhausted) w).1 ∧
      Late all (rowWorker s job a r (.count imported exhausted) w).1
        (((rowWorker s job a r (.count imported exhausted) w).2.map (Call.row job a r)).toList ++
          calls) := by
  have hhere := h.here
  have hholds : (Call.row job a r (.count imported exhausted)).Holds _ :=
    hhere.2.each _ List.mem_cons_self
  have hk : r ∉ s.counted := by cases imported <;> exact hholds.2.1
  dsimp only [rowWorker]
  rw [if_neg (by rw [hfailed]; decide)]
  refine ⟨hb.progress hhere.1 hk ?_, ?_⟩
  · cases imported with
    | true => exact iff_of_true rfl hholds.1
    | false => exact iff_of_false (by decide) fun hn => hn hholds.1
  · refine h.step (t := s.progress r imported)
      (n := some (.row job a r (if s.processedItems + 1 = s.totalItems then
        .finish imported exhausted else .done !imported)))
      (fun _ _ => Iff.rfl) ?_ (fun _ _ => Iff.rfl) (.inl rfl) ?_ ?_ ?_
    · intro x hx
      show x ∈ s.counted ++ [r] ↔ x ∈ s.counted
      simp [hx]
    · rintro d ⟨⟩
      exact ⟨rfl, rfl⟩
    · have hmem : (r ∈ (s.progress r imported).counted) = True :=
        eq_true (List.mem_append_right _ List.mem_cons_self)
      rw [hmem]
      apply hhere.2.progresses
      split
      · exact .inl rfl
      · exact .inr rfl
    · intro hlen
      right
      refine ⟨_, List.mem_cons_self, ?_⟩
      have hcount : s.processedItems + 1 = s.totalItems := by
        rw [hb.processed]
        exact (List.length_append ..).symm.trans hlen
      rw [if_pos hcount]
      rfl

theorem late_finish {imported exhausted : Bool}
    (h : Late all s (.row job a r (.finish imported exhausted) :: calls)) :
    Late all s.finish (.row job a r (.done !imported) :: calls) := by
  have hholds := h.here.2.each _ List.mem_cons_self
  refine h.swap (n := some (.row job a r (.done !imported))) rfl rfl rfl rfl rfl
    (fun _ => rfl) ?_ rfl ?_ ?_ ?_
  · rintro d ⟨⟩
    exact ⟨rfl, rfl⟩
  · intro hg
    refine ⟨_, rfl, rfl, ?_⟩
    cases imported with
    | true => cases hg
    | false => rfl
  · rintro d ⟨⟩
    cases imported <;> exact hholds
  · rintro d ⟨⟩ hw
    cases hw

theorem pairs_reschedule : pairs (s.reschedule job) = pairs s := by
  rw [pairs, pairs, Import.reschedule, List.map_map]
  apply List.map_congr_left
  intro j _
  dsimp only [Function.comp]
  split <;> rfl

theorem late_failed (h : Late all s (.row job a r .failed :: calls)) :
    Late all (rowWorker s job a r .failed w).1
      (((rowWorker s job a r .failed w).2.map (Call.row job a r)).toList ++ calls) := by
  dsimp only [rowWorker]
  split
  · cases w.failed with
    | true => exact h.spent rfl rfl rfl
    | false =>
        refine h.swap (t := s.reschedule job) (n := none) rfl rfl rfl pairs_reschedule rfl ?_
          nofun rfl nofun nofun nofun
        rintro (hs | hf)
        · exact hs
        · cases hf
  · exact h.goOn (t := .exhausted) rfl rfl rfl trivial nofun

theorem pairs_deleteJob : pairs (s.deleteJob job) = (pairs s).filter (·.1 ≠ job) := by
  rw [pairs, pairs, Import.deleteJob, List.filter_map]
  rfl

theorem late_done {gaveUp : Bool} (h : Late all s (.row job a r (.done gaveUp) :: calls)) :
    Late all (s.deleteJob job) calls := by
  refine h.step (t := s.deleteJob job) (n := none) (fun _ _ => Iff.rfl) (fun _ _ => Iff.rfl)
    (fun _ _ => Iff.rfl) (.inr pairs_deleteJob) nofun ?_ ?_
  · have hjobs : rowJobs (s.deleteJob job) r = (rowJobs s r).filter (· ≠ job) := by
      rw [rowJobs, rowJobs, pairs_deleteJob, List.filter_map, List.filter_filter,
        List.filter_filter]
      apply congrArg (List.map _)
      apply List.filter_congr
      intro p _
      exact Bool.and_comm _ _
    rw [hjobs]
    exact h.here.2.ends
  · intro hlen
    rcases h.complete hlen with hs | ⟨c, hc, hfin⟩
    · exact .inl hs
    · rcases List.mem_cons.1 hc with rfl | hc
      · cases hfin
      · exact .inr ⟨c, hc, hfin⟩

theorem row_kept (hb : Base all s) (h : Late all s (.row job a r stage :: calls))
    (hg : RowSound s job r stage calls w) :
    Base all (exec s (.row job a r stage) w).1 ∧
      Late all (exec s (.row job a r stage) w).1
        ((exec s (.row job a r stage) w).2.toList ++ calls) := by
  by_cases hcrash : w = .crashes
  · subst hcrash
    refine ⟨hb, ?_⟩
    cases stage with
    | read => exact h.spent rfl rfl rfl
    | perform => exact h.spent rfl rfl rfl
    | delete => exact h.spent rfl rfl rfl
    | count imported exhausted =>
        cases imported with
        | true => cases hg
        | false => exact h.spent rfl rfl rfl
    | finish imported exhausted => cases hg
    | failed => exact h.spent rfl rfl rfl
    | exhausted => exact h.spent rfl rfl rfl
    | done gaveUp =>
        cases gaveUp with
        | true => cases hg rfl
        | false => exact h.spent rfl rfl rfl
  · rw [exec, if_neg hcrash]
    cases stage with
    | read => exact ⟨hb, late_read h hg hcrash⟩
    | perform =>
        refine ⟨?_, late_perform h hg⟩
        cases w <;> exact hb.congr rfl rfl rfl rfl rfl
    | delete =>
        refine ⟨?_, late_delete h⟩
        have hk : r ∉ s.counted := (h.here.2.each _ List.mem_cons_self).2.1
        dsimp only [rowWorker]
        split
        · exact hb
        · exact hb.deleteRow hk
    | count imported exhausted =>
        cases imported with
        | true => exact late_progress hb h (Answer.failed_of_succeeds hg)
        | false =>
            cases hfailed : w.failed with
            | false => exact late_progress hb h hfailed
            | true =>
                cases exhausted with
                | true => cases hfailed.symm.trans (hg rfl)
                | false =>
                    dsimp only [rowWorker]
                    rw [hfailed]
                    exact ⟨hb, h.goOn (t := .failed) rfl rfl rfl trivial (by rintro ⟨⟩)⟩
    | finish imported exhausted =>
        dsimp only [rowWorker]
        rw [Answer.failed_of_succeeds hg]
        exact ⟨hb.congr rfl rfl rfl rfl rfl, late_finish h⟩
    | failed =>
        refine ⟨?_, late_failed h⟩
        dsimp only [rowWorker]
        split
        · split
          · exact hb
          · exact hb.congr rfl rfl rfl rfl rfl
        · exact hb
    | exhausted => exact ⟨hb, late_exhausted h hg hcrash⟩
    | done gaveUp =>
        dsimp only [rowWorker]
        cases hfailed : w.failed with
        | false => exact ⟨hb.congr rfl rfl rfl rfl rfl, late_done h⟩
        | true =>
            cases gaveUp with
            | true => cases hfailed.symm.trans (Answer.failed_of_succeeds (hg rfl))
            | false => exact ⟨hb, h.spent rfl rfl rfl⟩

end

/-! ### The first pass, once it has queued the rows -/

section
variable {all : List ℕ} {s t : Import} {calls : List Call} {n : Option FirstStage} {job : ℕ}
  {stage : FirstStage} {w : Answer}

theorem Late.firstStep (h : Late all s (.first job stage :: calls)) (hids : ids t = ids s)
    (hcounted : t.counted = s.counted) (heffects : t.effects = s.effects)
    (hpairs : pairs t = pairs s ∨ pairs t = (pairs s).filter (·.1 ≠ job))
    (hnext : ∀ stage' ∈ n, stage' = .finish ∨ stage' = .done)
    (hbegun : ∀ p ∈ pairs t, p.2 = none → stage ≠ .begin → n ≠ none)
    (hcomplete : t.counted.length = t.totalItems →
      t.state = .finished ∨ ∃ c ∈ (n.map (.first job)).toList ++ calls, c.finishing) :
    Late all t ((n.map (.first job)).toList ++ calls) := by
  refine h.replace (fun x _ => by rw [hids]) (fun x _ => by rw [hcounted])
    (fun x _ => by rw [heffects]) hpairs ?_ nofun ?_ ?_ hcomplete
  · intro d hd
    obtain ⟨stage', _, rfl⟩ := Option.map_eq_some_iff.1 hd
    exact ⟨rfl, rfl⟩
  · intro job' stage' hd
    obtain ⟨stage'', hs, heq⟩ := Option.map_eq_some_iff.1 hd
    cases heq
    exact hnext _ hs
  · intro p hp hnone hb
    have hne : stage ≠ .begin := by
      rintro rfl
      cases hb
    obtain ⟨stage', hs⟩ := Option.ne_none_iff_exists'.1 (hbegun p hp hnone hne)
    refine ⟨.first job stage', by rw [hs]; rfl, ?_⟩
    rcases hnext stage' hs with rfl | rfl <;> rfl

theorem first_kept_late (h : Late all s (.first job stage :: calls)) (hb : Base all s)
    (hg : FirstSound s job stage calls w) :
    Base all (exec s (.first job stage) w).1 ∧
      Late all (exec s (.first job stage) w).1
        ((exec s (.first job stage) w).2.toList ++ calls) := by
  have hstage := h.first job stage List.mem_cons_self
  have hrest : ∀ {c : Call}, c ∈ .first job stage :: calls → c.finishing = true →
      stage ≠ .finish → c ∈ calls := by
    intro c hc hfin hne
    rcases List.mem_cons.1 hc with rfl | hc
    · cases stage <;> first | exact absurd rfl hne | cases hfin
    · exact hc
  rcases hstage.2 with rfl | rfl | rfl
  · -- The first pass is claimed again, and the one that has begun is not done.
    by_cases hcrash : w = .crashes
    · subst hcrash
      refine ⟨hb, h.firstStep (n := none) rfl rfl rfl (.inl rfl) (by rintro _ ⟨⟩) ?_ ?_⟩
      · exact fun _ _ _ hne => absurd rfl hne
      · intro hlen
        refine (h.complete hlen).imp_right ?_
        rintro ⟨c, hc, hfin⟩
        exact ⟨c, hrest hc hfin (by rintro ⟨⟩), hfin⟩
    · obtain ⟨_, hlisted, halone⟩ := hg hcrash
      obtain ⟨p, hp, hpjob⟩ := List.mem_map.1 hlisted
      have hnone := h.rowOf p hp _ List.mem_cons_self hpjob.symm
      obtain ⟨_, c, hc, hbegun⟩ := h.firstJob p hp hnone.symm
      rcases List.mem_cons.1 hc with rfl | hc
      · cases hbegun
      · rw [halone c hc] at hbegun
        cases hbegun
  · rw [exec, if_neg (Answer.ne_crashes hg)]
    dsimp only [firstPass]
    rw [Answer.failed_of_succeeds hg]
    refine ⟨hb.congr rfl rfl rfl rfl rfl, ?_⟩
    refine h.firstStep (t := s.finish) (n := some .done) rfl rfl rfl (.inl rfl) ?_ ?_ ?_
    · rintro _ ⟨⟩
      exact .inr rfl
    · rintro _ _ _ _ ⟨⟩
    · exact fun _ => .inl rfl
  · rw [exec, if_neg (Answer.ne_crashes hg)]
    dsimp only [firstPass]
    rw [Answer.failed_of_succeeds hg]
    refine ⟨hb.congr rfl rfl rfl rfl rfl, ?_⟩
    refine h.firstStep (t := s.deleteJob job) (n := none) rfl rfl rfl (.inr pairs_deleteJob)
      (by rintro _ ⟨⟩) ?_ ?_
    · intro p hp hnone _
      rw [pairs_deleteJob] at hp
      have hmem := List.mem_filter.1 hp
      have hzero := (h.firstJob p hmem.1 hnone).1
      rw [hzero, hstage.1] at hmem
      simp at hmem
    · intro hlen
      refine (h.complete hlen).imp_right ?_
      rintro ⟨c, hc, hfin⟩
      exact ⟨c, hrest hc hfin (by rintro ⟨⟩), hfin⟩

end

/-! ### Before the rows are queued -/

/-- The rows whose effect happened, and those counted, are the ones gone. -/
structure Settling (all : List ℕ) (s : Import) : Prop where
  counted : ∀ x ∈ all, x ∈ s.counted ↔ x ∉ ids s
  effects : ∀ x ∈ all, x ∈ s.effects ↔ x ∉ ids s

/-- Nothing was written but the state. -/
structure Untouched (all : List ℕ) (s : Import) : Prop where
  settling : Settling all s
  counted : s.counted = []

def FirstStage.Holds (all : List ℕ) (s : Import) : FirstStage → Prop
  | .begin => True
  | .start processed => processed = s.processedItems ∧ Untouched all s
  | .load processed => processed = s.processedItems ∧ Untouched all s
  | .settle left _ processed =>
      processed = s.processedItems ∧ left.map Prod.snd = s.rows ∧ Settling all s
  | .carry row left _ processed =>
      processed = s.processedItems ∧ left.map Prod.snd = s.rows ∧
        (∀ x ∈ all, x ∈ s.counted ↔ x ∉ ids s) ∧ row ∉ ids s ∧
        ∀ x ∈ all, x ≠ row → (x ∈ s.effects ↔ x ∉ ids s)
  | .clear rows => rows = s.rows ∧ Untouched all s
  | .block rows left =>
      s.rows = [] ∧ (rows.map (·.id)).Perm all ∧
        ∀ x ∈ all, x ∈ s.effects ∨ x ∈ left.map (·.id)
  | .finish => False
  | .done => False

structure Early (all : List ℕ) (s : Import) (calls : List Call) : Prop where
  jobs : s.jobs = [⟨0, none, 0⟩]
  nextJob : s.nextJob = 1
  first : ∀ c ∈ calls, ∃ stage, c = .first 0 stage
  single : calls.Pairwise fun c d => ¬(c.begun ∧ d.begun)
  here : ∀ job stage, .first job stage ∈ calls → stage.Holds all s
  untouched : (∀ c ∈ calls, c.begun = false) → Untouched all s

section
variable {all : List ℕ} {s t : Import} {calls : List Call} {job : ℕ} {stage stage' : FirstStage}
  {w : Answer}

theorem Untouched.of_processed (h : Settling all s) (hb : Base all s)
    (hzero : s.processedItems = 0) : Untouched all s := by
  refine ⟨h, List.length_eq_zero_iff.1 ?_⟩
  rw [← hb.processed]
  exact hzero

theorem Untouched.congr (h : Untouched all s) (hrows : t.rows = s.rows)
    (hcounted : t.counted = s.counted) (heffects : t.effects = s.effects) : Untouched all t := by
  have hids : ids t = ids s := congrArg (List.map _) hrows
  refine ⟨⟨fun x hx => ?_, fun x hx => ?_⟩, hcounted.trans h.counted⟩
  · rw [hcounted, hids]
    exact h.settling.counted x hx
  · rw [heffects, hids]
    exact h.settling.effects x hx

theorem Early.alone (h : Early all s (.first job stage :: calls)) (hstage : stage ≠ .begin) :
    ∀ d ∈ calls, d.begun = false := by
  intro d hd
  have hnot := (List.pairwise_cons.1 h.single).1 d hd
  have hbegun : (Call.first job stage).begun = true := by cases stage <;> simp_all [Call.begun]
  rw [hbegun] at hnot
  simpa using hnot

theorem begin_of_not_begun {d : Call} (hd : d.begun = false)
    (hfirst : ∃ stage, d = .first 0 stage) : d = .first 0 .begin := by
  obtain ⟨stage, rfl⟩ := hfirst
  cases stage <;> first | rfl | cases hd

theorem Early.dies (h : Early all s (.first job stage :: calls))
    (hstage : stage ≠ .begin → Untouched all s) : Early all s calls where
  jobs := h.jobs
  nextJob := h.nextJob
  first := fun c hc => h.first c (List.mem_cons_of_mem _ hc)
  single := (List.pairwise_cons.1 h.single).2
  here := fun job' stage' hc => h.here job' stage' (List.mem_cons_of_mem _ hc)
  untouched := by
    intro hcalls
    by_cases hs : stage = .begin
    · subst hs
      apply h.untouched
      intro c hc
      rcases List.mem_cons.1 hc with rfl | hc
      · rfl
      · exact hcalls c hc
    · exact hstage hs

theorem Early.goOn (h : Early all s (.first job stage :: calls)) (hjobs : t.jobs = s.jobs)
    (hnext : t.nextJob = s.nextJob) (halone : ∀ d ∈ calls, d.begun = false)
    (hbegun : stage' ≠ .begin) (hholds : stage'.Holds all t) :
    Early all t (.first job stage' :: calls) := by
  have hjob : job = 0 := by
    obtain ⟨stage'', heq⟩ := h.first _ List.mem_cons_self
    cases heq
    rfl
  exact
    { jobs := hjobs.trans h.jobs
      nextJob := hnext.trans h.nextJob
      first := by
        intro c hc
        rcases List.mem_cons.1 hc with rfl | hc
        · exact ⟨stage', by rw [hjob]⟩
        · exact h.first c (List.mem_cons_of_mem _ hc)
      single := by
        apply List.pairwise_cons.2
        refine ⟨fun d hd hw => ?_, (List.pairwise_cons.1 h.single).2⟩
        rw [halone d hd] at hw
        exact absurd hw.2 (by decide)
      here := by
        intro job'' stage'' hc
        rcases List.mem_cons.1 hc with heq | hc
        · cases heq
          exact hholds
        · have heq := begin_of_not_begun (halone _ hc) (h.first _ (List.mem_cons_of_mem _ hc))
          cases heq
          trivial
      untouched := by
        intro hcalls
        have hfalse := hcalls _ List.mem_cons_self
        cases stage' <;> first | exact absurd rfl hbegun | cases hfalse }

end

/-! ### Queueing the rows -/

def queued (rows : List ℕ) (n : ℕ) : List (ℕ × Option ℕ) :=
  (rows.zipIdx n).map fun (r, i) => (i, some r)

theorem mem_queued {rows : List ℕ} {n i : ℕ} {o : Option ℕ} :
    (i, o) ∈ queued rows n ↔ ∃ r, o = some r ∧ n ≤ i ∧ rows[i - n]? = some r := by
  simp only [queued, List.mem_map, Prod.exists, Prod.mk.injEq]
  constructor
  · rintro ⟨r, j, hmem, rfl, rfl⟩
    exact ⟨r, rfl, List.mk_mem_zipIdx_iff_le_and_getElem?_sub.1 hmem⟩
  · rintro ⟨r, rfl, hmem⟩
    exact ⟨r, i, List.mk_mem_zipIdx_iff_le_and_getElem?_sub.2 hmem, rfl, rfl⟩

theorem queue_cons (s : Import) (r : ℕ) (rows : List ℕ) :
    s.queue (r :: rows) = (s.addJob r).queue rows := rfl

theorem queue_eq (s : Import) (rows : List ℕ) :
    s.queue rows = { s with jobs := (s.queue rows).jobs, nextJob := (s.queue rows).nextJob } := by
  induction rows generalizing s with
  | nil => rfl
  | cons r rows ih =>
      rw [queue_cons, ih]
      rfl

theorem pairs_queue (s : Import) (rows : List ℕ) :
    pairs (s.queue rows) = pairs s ++ queued rows s.nextJob := by
  induction rows generalizing s with
  | nil => exact (List.append_nil _).symm
  | cons r rows ih =>
      rw [queue_cons, ih]
      simp [pairs, Import.addJob, queued, List.zipIdx_cons]

section
variable {all : List ℕ} {s t : Import} {calls : List Call} {stage : FirstStage} {w : Answer}

def Queued (s : Import) : Prop := pairs s = (0, none) :: queued (ids s) 1

theorem Queued.cases (h : Queued s) {i : ℕ} {o : Option ℕ} (hp : (i, o) ∈ pairs s) :
    (i = 0 ∧ o = none) ∨ ∃ r, o = some r ∧ 1 ≤ i ∧ (ids s)[i - 1]? = some r := by
  rw [h] at hp
  rcases List.mem_cons.1 hp with heq | hp
  · cases heq
    exact .inl ⟨rfl, rfl⟩
  · exact .inr (mem_queued.1 hp)

theorem late_of_queued (hb : Base all t) (hs : Settling all t) (hq : Queued t)
    (hcalls : ∀ c ∈ calls, c = .first 0 .begin) (hstage : stage = .finish ∨ stage = .done)
    (hcomplete : t.counted.length = t.totalItems → stage = .finish) :
    Late all t (.first 0 stage :: calls) := by
  have hnone : ∀ c ∈ .first 0 stage :: calls, c.rowOf = none ∧ c.job = 0 := by
    intro c hc
    rcases List.mem_cons.1 hc with rfl | hc
    · exact ⟨rfl, rfl⟩
    · rw [hcalls c hc]
      exact ⟨rfl, rfl⟩
  have hrowCalls : ∀ x, rowCalls (.first 0 stage :: calls) x = [] := by
    intro x
    apply List.filter_eq_nil_iff.2
    intro c hc
    rw [(hnone c hc).1]
    simp
  have hjob : ∀ x j, j ∈ rowJobs t x ↔ 1 ≤ j ∧ (ids t)[j - 1]? = some x := by
    intro x j
    rw [mem_rowJobs]
    constructor
    · intro hp
      rcases hq.cases hp with ⟨_, ho⟩ | ⟨r, ho, hj⟩
      · cases ho
      · cases ho
        exact hj
    · intro hj
      rw [hq]
      exact List.mem_cons_of_mem _ (mem_queued.2 ⟨x, rfl, hj⟩)
  exact
    { fine := by
        intro x hx
        show Fine ⟨_, _, _, rowJobs t x, rowCalls (.first 0 stage :: calls) x⟩
        rw [hrowCalls]
        exact
          { waits := by
              intro _ hin
              obtain ⟨i, hi⟩ := List.mem_iff_getElem?.1 hin
              exact List.ne_nil_of_mem ((hjob x (i + 1)).2 ⟨Nat.le_add_left 1 i, hi⟩)
            counts := fun hk hin => absurd ((hs.counted x hx).2 hin) hk
            carried := fun _ hin => (hs.effects x hx).2 hin
            kept := fun hk hin => absurd hin ((hs.counted x hx).1 hk)
            spent := fun hk hin => absurd hin ((hs.counted x hx).1 hk)
            each := nofun
            single := List.Pairwise.nil
            unique := by
              intro j hj k hk
              obtain ⟨hj1, hj⟩ := (hjob x j).1 hj
              obtain ⟨hk1, hk⟩ := (hjob x k).1 hk
              have hlt := (List.getElem?_eq_some_iff.1 hj).1
              have heq := (List.getElem?_inj hlt hb.rows).1 (hj.trans hk.symm)
              omega
            same := nofun }
      jobs := by
        have hfst : (queued (ids t) 1).map (·.1) = List.range' 1 (ids t).length := by
          rw [queued, List.map_map]
          exact List.zipIdx_map_snd 1 (ids t)
        rw [hq, List.map_cons, hfst]
        apply List.nodup_cons.2
        refine ⟨fun hmem => ?_, List.nodup_range'⟩
        have := (List.mem_range'_1.1 hmem).1
        omega
      rowOf := by
        rintro ⟨i, o⟩ hp c hc hj
        rw [(hnone c hc).1]
        rcases hq.cases hp with ⟨_, ho⟩ | ⟨r, _, hi, _⟩
        · exact ho.symm
        · have hzero : 0 = i := (hnone c hc).2.symm.trans hj
          omega
      known := by
        intro c hc x hx
        rw [(hnone c hc).1] at hx
        cases hx
      rows := by
        rintro ⟨i, o⟩ hp x hx
        rcases hq.cases hp with ⟨_, ho⟩ | ⟨r, ho, _, hr⟩
        · cases ho.symm.trans hx
        · cases ho.symm.trans hx
          exact hb.known _ (List.mem_of_getElem? hr)
      first := by
        intro job stage' hc
        rcases List.mem_cons.1 hc with heq | hc
        · cases heq
          exact ⟨rfl, .inr hstage⟩
        · cases hcalls _ hc
          exact ⟨rfl, .inl rfl⟩
      firstJob := by
        rintro ⟨i, o⟩ hp ho
        rcases hq.cases hp with ⟨hi, _⟩ | ⟨r, hr, _⟩
        · refine ⟨hi, _, List.mem_cons_self, ?_⟩
          rcases hstage with rfl | rfl <;> rfl
        · cases ho.symm.trans hr
      complete := by
        intro hlen
        refine .inr ⟨_, List.mem_cons_self, ?_⟩
        rw [hcomplete hlen]
        rfl }

theorem map_eraseP {left : Index} {key : Option String} {e : Option String × Row}
    (hnodup : (left.map (·.2.id)).Nodup) (hfind : left.find? (·.1 = key) = some e) :
    (left.eraseP (·.1 = key)).map Prod.snd = (left.map Prod.snd).filter (·.id ≠ e.2.id) := by
  induction left with
  | nil => cases hfind
  | cons entry left ih =>
      obtain ⟨hnotin, hrest⟩ := List.nodup_cons.1 hnodup
      by_cases hkey : entry.1 = key
      · rw [List.find?_cons_of_pos (by simpa using hkey)] at hfind
        obtain rfl : entry = e := Option.some.inj hfind
        rw [List.eraseP_cons_of_pos (by simpa using hkey), List.map_cons,
          List.filter_cons_of_neg (by simp)]
        refine (List.filter_eq_self.2 fun row hrow => ?_).symm
        obtain ⟨other, hother, rfl⟩ := List.mem_map.1 hrow
        have hne : other.2.id ≠ entry.2.id := by
          intro he
          exact hnotin (List.mem_map.2 ⟨other, hother, he⟩)
        simpa using hne
      · rw [List.find?_cons_of_neg (by simpa using hkey)] at hfind
        have hmem := List.mem_of_find?_eq_some hfind
        have hne : entry.2.id ≠ e.2.id := by
          intro he
          exact hnotin (List.mem_map.2 ⟨e, hmem, he.symm⟩)
        rw [List.eraseP_cons_of_neg (by simpa using hkey), List.map_cons, List.map_cons,
          List.filter_cons_of_pos (by simpa using hne), ih hrest hfind]

end

/-! ### The first pass, before it has queued the rows -/

def Inv (all : List ℕ) (s : Import) (calls : List Call) : Prop :=
  Base all s ∧ (Early all s calls ∨ Late all s calls)

section
variable {all : List ℕ} {s t : Import} {calls : List Call} {job : ℕ} {stage : FirstStage}
  {w : Answer}

theorem Early.job_eq (h : Early all s (.first job stage :: calls)) : job = 0 := by
  obtain ⟨stage', heq⟩ := h.first _ List.mem_cons_self
  cases heq
  rfl

theorem Early.begins (h : Early all s (.first job stage :: calls))
    (halone : ∀ d ∈ calls, d.begun = false) : ∀ c ∈ calls, c = .first 0 .begin :=
  fun c hc => begin_of_not_begun (halone c hc) (h.first c (List.mem_cons_of_mem _ hc))

theorem Settling.uncounted (h : Settling all s) (hb : Base all s) {r : ℕ} (hr : r ∈ ids s) :
    r ∈ all ∧ r ∉ s.counted :=
  ⟨hb.known r hr, fun hk => (h.counted r (hb.known r hr)).1 hk hr⟩

theorem mem_counted_settleRow {r x : ℕ} :
    x ∈ (s.settleRow r).counted ↔ x ∈ s.counted ∨ x = r := by
  show x ∈ s.counted ++ [r] ↔ _
  rw [List.mem_append, List.mem_singleton]

theorem mem_ids_settleRow {r x : ℕ} : x ∈ ids (s.settleRow r) ↔ x ∈ ids s ∧ x ≠ r :=
  mem_ids_deleteRow

theorem Settling.settleRow (h : Settling all s) {r : ℕ} :
    (∀ x ∈ all, x ∈ (s.settleRow r).counted ↔ x ∉ ids (s.settleRow r)) ∧
      ∀ x ∈ all, x ≠ r → (x ∈ s.effects ↔ x ∉ ids (s.settleRow r)) := by
  constructor
  · intro x hx
    rw [mem_counted_settleRow, mem_ids_settleRow, h.counted x hx]
    tauto
  · intro x hx hne
    rw [mem_ids_settleRow, h.effects x hx]
    tauto

theorem settling_carryOut {r : ℕ} (hcounted : ∀ x ∈ all, x ∈ s.counted ↔ x ∉ ids s)
    (hr : r ∉ ids s) (heffects : ∀ x ∈ all, x ≠ r → (x ∈ s.effects ↔ x ∉ ids s)) :
    Settling all (s.carryOut r) := by
  refine ⟨hcounted, fun x hx => ?_⟩
  show x ∈ s.effects ++ [r] ↔ x ∉ ids s
  rw [List.mem_append, List.mem_singleton]
  by_cases hxr : x = r
  · subst hxr
    exact iff_of_true (.inr rfl) hr
  · rw [heffects x hx hxr]
    tauto

theorem settle_row {left : Index} {key : Option String} {existing : List (Option String)}
    {processed : ℕ} {e : Option String × Row} (hb : Base all s)
    (h : Early all s (.first job (.settle left (key :: existing) processed) :: calls))
    (hlookup : lookup left key = some e) :
    Base all (s.settleRow e.2.id) ∧ processed + 1 = (s.settleRow e.2.id).processedItems ∧
      (left.eraseP (·.1 = key)).map Prod.snd = (s.settleRow e.2.id).rows ∧
      e.2.id ∉ ids (s.settleRow e.2.id) ∧
      (∀ x ∈ all, x ∈ (s.settleRow e.2.id).counted ↔ x ∉ ids (s.settleRow e.2.id)) ∧
      ∀ x ∈ all, x ≠ e.2.id → (x ∈ s.effects ↔ x ∉ ids (s.settleRow e.2.id)) := by
  obtain ⟨hp, hrows, hs⟩ := h.here _ _ List.mem_cons_self
  have hids : left.map (·.2.id) = ids s := by
    rw [ids, ← hrows, List.map_map]
    rfl
  rw [lookup] at hlookup
  split at hlookup
  · have hmem : e.2.id ∈ ids s := by
      rw [← hids]
      exact List.mem_map.2 ⟨e, List.mem_of_find?_eq_some hlookup, rfl⟩
    obtain ⟨hall, hk⟩ := hs.uncounted hb hmem
    refine ⟨hb.settleRow hall hk, congrArg (· + 1) hp, ?_, ?_, hs.settleRow⟩
    · rw [map_eraseP (hids ▸ hb.rows) hlookup, hrows]
      rfl
    · exact fun hin => (mem_ids_settleRow.1 hin).2 rfl
  · cases hlookup

theorem settle_kept {left : Index} {existing : List (Option String)} {processed : ℕ}
    (hb : Base all s) (h : Early all s (.first job (.settle left existing processed) :: calls))
    (hfailed : w.failed = false) :
    Inv all (firstPass s job (.settle left existing processed) w).1
      (((firstPass s job (.settle left existing processed) w).2.map (.first job)).toList ++
        calls) := by
  have halone := h.alone nofun
  obtain ⟨hp, hrows, hs⟩ := h.here _ _ List.mem_cons_self
  cases existing with
  | nil =>
      dsimp only [firstPass]
      rw [if_neg (by rw [hfailed]; decide)]
      have hids : left.map (·.2.id) = ids s := by
        rw [ids, ← hrows, List.map_map]
        rfl
      have heq := queue_eq s (left.map (·.2.id))
      have hrowsEq : ids (s.queue (left.map (·.2.id))) = ids s := by
        rw [heq]
        rfl
      have hb' : Base all (s.queue (left.map (·.2.id))) := by
        rw [heq]
        exact hb.congr rfl rfl rfl rfl rfl
      refine ⟨hb', .inr ?_⟩
      have hq : Queued (s.queue (left.map (·.2.id))) := by
        rw [Queued, pairs_queue, hrowsEq, hids, pairs, h.jobs, h.nextJob]
        rfl
      have hs' : Settling all (s.queue (left.map (·.2.id))) := by
        rw [heq]
        exact ⟨hs.counted, hs.effects⟩
      cases h.job_eq
      refine late_of_queued hb' hs' hq (h.begins halone) ?_ ?_
      · split
        · exact .inl rfl
        · exact .inr rfl
      · intro hlen
        have hdone : processed = s.totalItems := by
          rw [hp, hb.processed]
          rw [heq] at hlen
          exact hlen
        rw [if_pos hdone]
  | cons key existing =>
      dsimp only [firstPass]
      rw [if_neg (by rw [hfailed]; decide)]
      cases hlookup : lookup left key with
      | none => exact ⟨hb, .inl (h.goOn rfl rfl halone nofun ⟨hp, hrows, hs⟩)⟩
      | some e =>
          obtain ⟨hb', hp', hrows', hgone, hcounted, heffects⟩ := settle_row hb h hlookup
          dsimp only
          split
          · refine ⟨hb'.congr rfl rfl rfl rfl rfl, .inl (h.goOn rfl rfl halone nofun ?_)⟩
            exact ⟨hp', hrows', settling_carryOut hcounted hgone heffects⟩
          · refine ⟨hb', .inl (h.goOn rfl rfl halone nofun ?_)⟩
            exact ⟨hp', hrows', hcounted, hgone, heffects⟩

theorem Untouched.ids_perm (h : Untouched all s) (hb : Base all s) : (ids s).Perm all := by
  apply (List.perm_ext_iff_of_nodup hb.rows hb.distinct).2
  intro x
  refine ⟨hb.known x, fun hx => ?_⟩
  have hiff := h.settling.counted x hx
  rw [h.counted] at hiff
  exact not_not.1 fun hn => List.not_mem_nil (hiff.2 hn)

theorem load_kept {processed : ℕ} (hb : Base all s)
    (h : Early all s (.first job (.load processed) :: calls))
    (hg : FirstSound s job (.load processed) calls w) :
    Inv all (firstPass s job (.load processed) w).1
      (((firstPass s job (.load processed) w).2.map (.first job)).toList ++ calls) := by
  have halone := h.alone nofun
  obtain ⟨hp, hu⟩ := h.here _ _ List.mem_cons_self
  obtain ⟨hfailed, hindexed⟩ := hg
  dsimp only [firstPass]
  rw [if_neg (by rw [hfailed]; decide)]
  by_cases htype : s.type = .domainBlocking
  · rw [if_pos htype]
    exact ⟨hb, .inl (h.goOn rfl rfl halone nofun ⟨rfl, hu⟩)⟩
  · rw [if_neg htype]
    obtain ⟨left, hleft, hrows⟩ := Option.map_eq_some_iff.1 (hindexed htype)
    rw [hleft]
    exact ⟨hb, .inl (h.goOn rfl rfl halone nofun ⟨hp, hrows, hu.settling⟩)⟩

theorem clear_kept {rows : List Row} (hb : Base all s)
    (h : Early all s (.first job (.clear rows) :: calls)) (hfailed : w.failed = false) :
    Inv all (firstPass s job (.clear rows) w).1
      (((firstPass s job (.clear rows) w).2.map (.first job)).toList ++ calls) := by
  obtain ⟨rfl, hu⟩ := h.here _ _ List.mem_cons_self
  dsimp only [firstPass]
  rw [if_neg (by rw [hfailed]; decide)]
  have hperm := hu.ids_perm hb
  refine ⟨?_, .inl (h.goOn rfl rfl (h.alone nofun) nofun ?_)⟩
  · exact
      { distinct := hb.distinct
        total := hb.total
        rows := List.nodup_nil
        known := nofun
        once := hb.once
        counted := hb.counted
        processed := hb.processed
        imported := by
          rw [hb.imported, hu.counted]
          rfl }
  · exact ⟨rfl, hperm, fun x hx => .inr (hperm.mem_iff.2 hx)⟩

theorem block_kept {rows left : List Row} (hb : Base all s)
    (h : Early all s (.first job (.block rows left) :: calls))
    (hg : FirstSound s job (.block rows left) calls w) :
    Inv all (firstPass s job (.block rows left) w).1
      (((firstPass s job (.block rows left) w).2.map (.first job)).toList ++ calls) := by
  obtain ⟨hnone, hperm, heffects⟩ := h.here _ _ List.mem_cons_self
  have halone := h.alone nofun
  have hids : ids s = [] := by
    rw [ids, hnone]
    rfl
  cases left with
  | nil =>
      dsimp only [firstPass]
      rw [if_neg (by rw [Answer.failed_of_succeeds hg]; decide)]
      have hb' : Base all (s.tally (rows.map (·.id))) :=
        { distinct := hb.distinct
          total := hb.total
          rows := hb.rows
          known := hb.known
          once := hperm.nodup_iff.2 hb.distinct
          counted := fun x hx => hperm.mem_iff.1 hx
          processed := hb.total.trans hperm.length_eq.symm
          imported := by
            show s.totalItems = ((rows.map (·.id)).filter (· ∉ ids s)).length
            rw [hids, List.filter_eq_self.2 fun x _ => by simp]
            exact hb.total.trans hperm.length_eq.symm }
      refine ⟨hb', .inr ?_⟩
      cases h.job_eq
      refine late_of_queued hb' ?_ ?_ (h.begins halone) (.inl rfl) fun _ => rfl
      · refine ⟨fun x hx => iff_of_true (hperm.mem_iff.2 hx) ?_, fun x hx => ?_⟩
        · show x ∉ ids s
          rw [hids]
          exact List.not_mem_nil
        · refine iff_of_true ((heffects x hx).resolve_right List.not_mem_nil) ?_
          show x ∉ ids s
          rw [hids]
          exact List.not_mem_nil
      · show pairs s = (0, none) :: queued (ids s) 1
        rw [hids, pairs, h.jobs]
        rfl
  | cons row left =>
      dsimp only [firstPass]
      rw [if_pos (by rw [Answer.failed_of_succeeds hg.1, hg.2]; rfl)]
      refine ⟨hb.congr rfl rfl rfl rfl rfl, .inl (h.goOn rfl rfl halone nofun ?_)⟩
      refine ⟨hnone, hperm, fun x hx => ?_⟩
      show x ∈ s.effects ++ [row.id] ∨ x ∈ left.map (·.id)
      rw [List.mem_append, List.mem_singleton]
      rcases heffects x hx with he | he
      · exact .inl (.inl he)
      · rcases List.mem_cons.1 he with rfl | he
        · exact .inl (.inr rfl)
        · exact .inr he

theorem first_kept_early (hb : Base all s) (h : Early all s (.first job stage :: calls))
    (hg : FirstSound s job stage calls w) :
    Inv all (exec s (.first job stage) w).1
      ((exec s (.first job stage) w).2.toList ++ calls) := by
  have hhere := h.here _ _ List.mem_cons_self
  by_cases hcrash : w = .crashes
  · subst hcrash
    refine ⟨hb, .inl (h.dies fun hne => ?_)⟩
    cases stage with
    | begin => exact absurd rfl hne
    | start processed => exact hhere.2
    | load processed => exact hhere.2
    | settle left existing processed => exact .of_processed hhere.2.2 hb (hg.2 rfl)
    | carry row left existing processed => cases hg
    | clear rows => exact hhere.2
    | block rows left =>
        cases left with
        | nil => cases hg
        | cons row left => cases hg.1
    | finish => cases hg
    | done => cases hg
  · rw [exec, if_neg hcrash]
    cases stage with
    | begin =>
        obtain ⟨hfailed, _, halone⟩ := hg hcrash
        dsimp only [firstPass]
        rw [if_neg (by rw [hfailed]; decide)]
        refine ⟨hb, .inl (h.goOn rfl rfl halone (by rintro ⟨⟩) ⟨rfl, h.untouched ?_⟩)⟩
        intro c hc
        rcases List.mem_cons.1 hc with rfl | hc
        · rfl
        · exact halone c hc
    | start processed =>
        have hfailed : w.failed = false := hg
        dsimp only [firstPass]
        rw [if_neg (by rw [hfailed]; decide)]
        refine ⟨hb.congr rfl rfl rfl rfl rfl, .inl (h.goOn rfl rfl (h.alone (by rintro ⟨⟩)) (by rintro ⟨⟩) ?_)⟩
        exact ⟨hhere.1, hhere.2.congr rfl rfl rfl⟩
    | load processed => exact load_kept hb h hg
    | settle left existing processed => exact settle_kept hb h hg.1
    | carry row left existing processed =>
        have hgo : firstPass s job (.carry row left existing processed) w =
            (s.carryOut row, some (.settle left existing processed)) := by
          cases w <;> first | rfl | cases hg
        rw [hgo]
        obtain ⟨hp, hrows, hcounted, hgone, heffects⟩ := hhere
        refine ⟨hb.congr rfl rfl rfl rfl rfl, .inl (h.goOn rfl rfl (h.alone (by rintro ⟨⟩)) (by rintro ⟨⟩) ?_)⟩
        exact ⟨hp, hrows, settling_carryOut hcounted hgone heffects⟩
    | clear rows => exact clear_kept hb h hg
    | block rows left => exact block_kept hb h hg
    | finish => cases hhere
    | done => cases hhere

end

/-! ### Every interleaving -/

theorem Fine.perm {p k e : Prop} {js : List ℕ} {calls calls' : List Call}
    (h : Fine ⟨p, k, e, js, calls⟩) (hperm : calls.Perm calls') :
    Fine ⟨p, k, e, js, calls'⟩ where
  waits := h.waits
  counts := fun hk hp => by
    obtain ⟨c, hc, hcc⟩ := h.counts hk hp
    exact ⟨c, hperm.mem_iff.1 hc, hcc⟩
  carried := h.carried
  kept := h.kept
  spent := fun hk hp j hj => by
    obtain ⟨c, hc, hcj⟩ := h.spent hk hp j hj
    exact ⟨c, hperm.mem_iff.1 hc, hcj⟩
  each := fun c hc => by
    have hold := h.each c (hperm.mem_iff.2 hc)
    cases c with
    | first job stage => trivial
    | row job a r stage => exact hold
  single := (hperm.pairwise_iff fun hcd hdc => hcd hdc.symm).1 h.single
  unique := h.unique
  same := fun c hc => h.same c (hperm.mem_iff.2 hc)

section
variable {all : List ℕ} {s : Import} {calls calls' : List Call}

theorem Late.perm (h : Late all s calls) (hperm : calls.Perm calls') : Late all s calls' where
  fine := fun r hr => (h.fine r hr).perm (hperm.filter _)
  jobs := h.jobs
  rowOf := fun p hp c hc => h.rowOf p hp c (hperm.mem_iff.2 hc)
  known := fun c hc => h.known c (hperm.mem_iff.2 hc)
  rows := h.rows
  first := fun job stage hc => h.first job stage (hperm.mem_iff.2 hc)
  firstJob := fun p hp hnone => by
    obtain ⟨hzero, c, hc, hbegun⟩ := h.firstJob p hp hnone
    exact ⟨hzero, c, hperm.mem_iff.1 hc, hbegun⟩
  complete := fun hlen => by
    refine (h.complete hlen).imp_right ?_
    rintro ⟨c, hc, hfin⟩
    exact ⟨c, hperm.mem_iff.1 hc, hfin⟩

theorem Early.perm (h : Early all s calls) (hperm : calls.Perm calls') : Early all s calls' where
  jobs := h.jobs
  nextJob := h.nextJob
  first := fun c hc => h.first c (hperm.mem_iff.2 hc)
  single := (hperm.pairwise_iff fun hcd hdc => hcd hdc.symm).1 h.single
  here := fun job stage hc => h.here job stage (hperm.mem_iff.2 hc)
  untouched := fun hcalls => h.untouched fun c hc => hcalls c (hperm.mem_iff.1 hc)

def Job.claimed (j : Job) : Call :=
  match j.row with
  | none => .first j.id .begin
  | some row => .row j.id j.attempts row .read

theorem early_claims (h : Early all s calls) {j : Job} (hj : j ∈ s.jobs) :
    Early all s (j.claimed :: calls) := by
  rw [h.jobs, List.mem_singleton] at hj
  subst hj
  exact
    { jobs := h.jobs
      nextJob := h.nextJob
      first := by
        intro c hc
        rcases List.mem_cons.1 hc with rfl | hc
        · exact ⟨.begin, rfl⟩
        · exact h.first c hc
      single := by
        apply List.pairwise_cons.2
        exact ⟨fun d _ hw => absurd hw.1 (by decide), h.single⟩
      here := by
        intro job stage hc
        rcases List.mem_cons.1 hc with heq | hc
        · cases heq
          trivial
        · exact h.here job stage hc
      untouched := fun hcalls => h.untouched fun c hc => hcalls c (List.mem_cons_of_mem _ hc) }

theorem Fine.claims {p k e : Prop} {js : List ℕ} {c : Call} (h : Fine ⟨p, k, e, js, calls⟩)
    (hholds : c.Holds ⟨p, k, e, js, c :: calls⟩) (hworks : c.works = false)
    (hjob : ∀ j ∈ js, c.job = j) : Fine ⟨p, k, e, js, c :: calls⟩ where
  waits := h.waits
  counts := fun hk hp => by
    obtain ⟨d, hd, hdc⟩ := h.counts hk hp
    exact ⟨d, List.mem_cons_of_mem _ hd, hdc⟩
  carried := h.carried
  kept := h.kept
  spent := fun hk hp j hj => by
    obtain ⟨d, hd, hdj⟩ := h.spent hk hp j hj
    exact ⟨d, List.mem_cons_of_mem _ hd, hdj⟩
  each := by
    intro d hd
    rcases List.mem_cons.1 hd with rfl | hd
    · exact hholds
    · have hold := h.each d hd
      cases d with
      | first job stage => trivial
      | row job a r stage => exact hold
  single := by
    apply List.pairwise_cons.2
    refine ⟨fun d _ hw => ?_, h.single⟩
    rw [hworks] at hw
    exact absurd hw.1 (by decide)
  unique := h.unique
  same := by
    intro d hd
    rcases List.mem_cons.1 hd with rfl | hd
    · exact hjob
    · exact h.same d hd

theorem Job.claimed_spec (j : Job) :
    j.claimed.job = j.id ∧ j.claimed.rowOf = j.row ∧ j.claimed.works = false ∧
      ∀ v, j.claimed.Holds v := by
  obtain ⟨id, row, attempts⟩ := j
  cases row <;> exact ⟨rfl, rfl, rfl, fun _ => trivial⟩

theorem late_claims (h : Late all s calls) {j : Job} (hj : j ∈ s.jobs) :
    Late all s (j.claimed :: calls) := by
  obtain ⟨hjob, hrow, hworks, hholds⟩ := j.claimed_spec
  have hpair : (j.id, j.row) ∈ pairs s := List.mem_map_of_mem hj
  have hsame : ∀ p ∈ pairs s, p.1 = j.id → p = (j.id, j.row) := by
    intro p hp he
    exact List.inj_on_of_nodup_map h.jobs hp hpair he
  exact
    { fine := by
        intro r hr
        have hfine := h.fine r hr
        show Fine ⟨_, _, _, rowJobs s r, rowCalls (j.claimed :: calls) r⟩
        by_cases hjr : j.row = some r
        · have hcalls : rowCalls (j.claimed :: calls) r = j.claimed :: rowCalls calls r :=
            List.filter_cons_of_pos (by simpa [hrow] using hjr)
          rw [hcalls]
          refine Fine.claims hfine (hholds _) hworks fun k hk => ?_
          rw [hjob]
          exact hfine.unique j.id (mem_rowJobs.2 (hjr ▸ hpair)) k hk
        · have hcalls : rowCalls (j.claimed :: calls) r = rowCalls calls r :=
            List.filter_cons_of_neg (by simpa [hrow] using hjr)
          rw [hcalls]
          exact hfine
      jobs := h.jobs
      rowOf := by
        intro p hp c hc he
        rcases List.mem_cons.1 hc with rfl | hc
        · rw [hsame p hp (he.symm.trans hjob)]
          exact hrow
        · exact h.rowOf p hp c hc he
      known := by
        intro c hc r hcr
        rcases List.mem_cons.1 hc with rfl | hc
        · exact h.rows _ hpair r (hrow.symm.trans hcr)
        · exact h.known c hc r hcr
      rows := h.rows
      first := by
        intro job stage hc
        rcases List.mem_cons.1 hc with heq | hc
        · obtain ⟨id, row, attempts⟩ := j
          cases row with
          | none =>
              cases heq
              exact ⟨(h.firstJob _ hpair rfl).1, .inl rfl⟩
          | some r => cases heq
        · exact h.first job stage hc
      firstJob := by
        intro p hp hnone
        obtain ⟨hzero, c, hc, hbegun⟩ := h.firstJob p hp hnone
        exact ⟨hzero, c, List.mem_cons_of_mem _ hc, hbegun⟩
      complete := by
        intro hlen
        refine (h.complete hlen).imp_right ?_
        rintro ⟨c, hc, hfin⟩
        exact ⟨c, List.mem_cons_of_mem _ hc, hfin⟩ }

end

theorem inv_guarded (all : List ℕ) : GuardedInvariant importer (Inv all) guards where
  perm := fun hperm h => ⟨h.1, h.2.imp (·.perm hperm) (·.perm hperm)⟩
  enter := by
    intro s calls job h _
    show Inv all (enter s job).1 ((enter s job).2.toList ++ calls)
    unfold enter
    cases hfind : s.jobs.find? (·.id = job) with
    | none => exact h
    | some j =>
        have hj : j ∈ s.jobs := List.mem_of_find?_eq_some hfind
        exact ⟨h.1, h.2.imp (early_claims · hj) (late_claims · hj)⟩
  exec := by
    rintro s c calls w ⟨hb, hphase⟩ hg
    cases c with
    | first job stage =>
        rcases hphase with h | h
        · exact first_kept_early hb h hg
        · obtain ⟨hb', h'⟩ := first_kept_late h hb hg
          exact ⟨hb', .inr h'⟩
    | row job a r stage =>
        rcases hphase with h | h
        · obtain ⟨stage', heq⟩ := h.first _ List.mem_cons_self
          cases heq
        · obtain ⟨hb', h'⟩ := row_kept hb h hg
          exact ⟨hb', .inr h'⟩

section
variable {domain : String} {type : ImportType} {overwrite : Bool} {data : List (Option String)}

theorem ids_confirmed : ids (confirmed domain type overwrite data) = List.range data.length := by
  rw [ids, confirmed, List.map_map, List.range_eq_range']
  exact List.zipIdx_map_snd 0 data

theorem inv_confirmed :
    Inv (List.range data.length) (confirmed domain type overwrite data) [] := by
  refine ⟨?_, .inl ?_⟩
  · exact
      { distinct := List.nodup_range
        total := List.length_range.symm
        rows := ids_confirmed ▸ List.nodup_range
        known := fun x hx => ids_confirmed ▸ hx
        once := List.nodup_nil
        counted := nofun
        processed := rfl
        imported := rfl }
  · have huntouched :
        Untouched (List.range data.length) (confirmed domain type overwrite data) := by
      refine ⟨⟨fun x hx => ?_, fun x hx => ?_⟩, rfl⟩
      all_goals
        rw [ids_confirmed]
        exact iff_of_false List.not_mem_nil (not_not.2 hx)
    exact
      { jobs := rfl
        nextJob := rfl
        first := nofun
        single := List.Pairwise.nil
        here := nofun
        untouched := fun _ => huntouched }

end

theorem accounted_of_inv {all : List ℕ} {s : Import} (h : Inv all s []) (hjobs : s.jobs = []) :
    Accounted all s := by
  obtain ⟨hb, hearly | h⟩ := h
  · rw [hearly.jobs] at hjobs
    cases hjobs
  · have hpairs : pairs s = [] := by
      rw [pairs, hjobs]
      rfl
    have hrowJobs : ∀ x, rowJobs s x = [] := by
      intro x
      rw [rowJobs, hpairs]
      rfl
    have hcounted : ∀ x ∈ all, x ∈ s.counted := by
      intro x hx
      by_contra hk
      have hfine := h.fine x hx
      by_cases hin : x ∈ ids s
      · exact hfine.waits hk hin (hrowJobs x)
      · obtain ⟨c, hc, _⟩ := hfine.counts hk hin
        exact List.not_mem_nil hc
    have hperm : s.counted.Perm all := by
      apply (List.perm_ext_iff_of_nodup hb.once hb.distinct).2
      exact fun x => ⟨hb.counted x, hcounted x⟩
    have hall : s.counted.length = s.totalItems := hperm.length_eq.trans hb.total.symm
    exact
      { finished := by
          rcases h.complete hall with hs | ⟨c, hc, _⟩
          · exact hs
          · exact absurd hc List.not_mem_nil
        processed := hb.processed.trans hall
        imported := by
          have hleft : (s.counted.filter (· ∈ ids s)).Perm (ids s) := by
            apply (List.perm_ext_iff_of_nodup (hb.once.filter _) hb.rows).2
            intro x
            rw [List.mem_filter, decide_eq_true_eq]
            exact ⟨And.right, fun hx => ⟨hcounted x (hb.known x hx), hx⟩⟩
          have hsplit := List.length_eq_length_filter_add (l := s.counted) (· ∈ ids s)
          have hrows : (ids s).length = s.rows.length := List.length_map ..
          have hlen := hleft.length_eq
          have himported := hb.imported
          simp only [decide_not] at himported
          omega
        once := hperm
        left := by
          intro x hx
          have hfine := h.fine x hx
          constructor
          · exact hfine.kept (hcounted x hx)
          · intro he
            by_contra hin
            exact he (hfine.carried (hcounted x hx) hin) }

/-- The accounting of an import is right whenever none of its jobs is pending, all through a
run whose statements meet what is asked of them. -/
theorem import_accounted (domain : String) (type : ImportType) (overwrite : Bool)
    (data : List (Option String)) (es : List (Event ℕ Answer))
    (hg : Guarded importer.step guards.meets ⟨confirmed domain type overwrite data, []⟩ es) :
    ∀ before, before <+: es →
      Kept (List.range data.length)
        (run importer.step ⟨confirmed domain type overwrite data, []⟩ before) := by
  rintro before ⟨after, rfl⟩ hjobs hquiet
  have hbefore := ((guarded_append _ _ _).1 hg).1
  have hinv := (inv_guarded (List.range data.length)).run
    ⟨confirmed domain type overwrite data, []⟩ before inv_confirmed hbefore
  rw [hquiet] at hinv
  exact accounted_of_inv hinv hjobs

/-- An import of two accounts to block, the second of which is not found. -/
def twoRows : List (Event ℕ Answer) :=
  [.request 0, .advance 0 .ok, .advance 0 .ok, .advance 0 .ok, .advance 0 .ok, .advance 0 .ok,
    .request 1, .request 2, .advance 0 .ok, .advance 0 .ok, .advance 0 .ok, .advance 0 .ok,
    .advance 0 .ok, .advance 0 .ok, .advance 0 .refuses, .advance 0 .ok, .advance 0 .ok,
    .advance 0 .ok]

theorem accounted_twoRows :
    Kept (List.range 2)
      (run importer.step ⟨confirmed "a.b" .blocking false [some "x@c", some "y@c"], []⟩ twoRows) :=
  import_accounted "a.b" .blocking false [some "x@c", some "y@c"] twoRows (by decide +kernel)
    twoRows (List.prefix_refl _)

def countFails : List (Event ℕ Answer) :=
  [.request 0, .advance 0 .ok, .advance 0 .ok, .advance 0 .ok, .advance 0 .ok, .advance 0 .ok,
    .request 1, .advance 0 .ok, .advance 0 .ok, .advance 0 .ok, .advance 0 .fails, .advance 0 .ok,
    .request 1, .advance 0 .ok, .advance 0 .ok]

/-- A lease lapses, and two workers carry the same row out. -/
def workedTwice : List (Event ℕ Answer) :=
  [.request 0, .advance 0 .ok, .advance 0 .ok, .advance 0 .ok, .advance 0 .ok, .advance 0 .ok,
    .request 1, .request 1, .advance 0 .ok, .advance 1 .ok, .advance 0 .ok, .advance 1 .ok,
    .advance 0 .ok, .advance 1 .ok, .advance 0 .ok, .advance 1 .ok, .advance 0 .ok, .advance 0 .ok,
    .advance 0 .ok]

def repeatedHandle : List (Event ℕ Answer) :=
  [.request 0, .advance 0 .ok, .advance 0 .ok, .advance 0 .ok, .advance 0 .ok, .advance 0 .ok,
    .request 1, .advance 0 .ok, .advance 0 .ok, .advance 0 .ok, .advance 0 .ok, .advance 0 .ok]

theorem miscounted_imports :
    let start := fun data => (⟨confirmed "a.b" .blocking false data, []⟩ : Config Import Call)
    ¬Kept (List.range 1) (run importer.step (start [some "x@c"]) countFails) ∧
      ¬Kept (List.range 1) (run importer.step (start [some "x@c"]) workedTwice) ∧
      ¬Kept (List.range 2) (run importer.step (start [some "x@c", some "x@c"]) repeatedHandle) := by
  intro start
  have spent : ∀ {all : List ℕ} {c : Config Import Call}, c.store.jobs = [] ∧ c.calls = [] ∧
      c.store.processedItems ≠ c.store.totalItems → ¬Kept all c := by
    rintro all c ⟨hjobs, hcalls, hprocessed⟩ h
    exact hprocessed (h hjobs hcalls).processed
  refine ⟨spent ?_, spent ?_, spent ?_⟩
  all_goals decide +kernel

end Eunha.Imports
