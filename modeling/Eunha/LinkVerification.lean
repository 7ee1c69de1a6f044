import Eunha.Runs
import Mathlib

/-!
# Verifying the links of a profile while it is edited

A worker reads the fields of a profile, fetches the page of each that is a link, one after
another, and writes all fields back with those marked whose page links to the profile. An edit
reads the fields for the marks of values it keeps, and writes its own. Any number of workers and
edits come between one another. A mark is only ever on a value whose page was fetched and linked
back; but a worker writes what it read, whatever has been written since.
-/
namespace Eunha.LinkVerification
open Runs

abbrev Text := List Char

structure Field where
  name : Text
  value : Text
  verifiedAt : Option Text
  deriving DecidableEq

/-- Whose profile it is, and what the crates make of a value. -/
structure Site where
  remote : Bool
  /-- The profile's address, which a remote account may not have. -/
  linkBack : Option Text
  remoteValueForVerification : Text → Option Text
  isVerifiable : Text → Bool

variable (site : Site)

def page (value : Text) : Option Text :=
  (if site.remote then site.remoteValueForVerification value else some value).filter
    site.isVerifiable

def Field.requiresVerification (f : Field) : Bool :=
  (page site f.value).isSome && f.verifiedAt.isNone

/-! ### Workers and edits -/

/-- The fields a worker has gone through, and those it has not. -/
structure Worker where
  done : List Field
  todo : List Field
  changed : Bool
  deriving DecidableEq

/-- What an edit asks for, and the fields it has read. -/
structure Edit where
  fields : List (Text × Text)
  old : List Field
  deriving DecidableEq

/-- The fields of the account, and who is at work. Nothing reads what was asked for last, or
which values had a page that linked back. -/
structure State where
  fields : List Field
  workers : ℕ → Option Worker
  edits : ℕ → Option Edit
  last : List (Text × Text)
  checked : List Text

inductive Op where
  | start (worker : ℕ)
  | fetch (worker : ℕ) (linksBack : Bool) (now : Text)
  | finish (worker : ℕ)
  | editRead (edit : ℕ) (fields : List (Text × Text))
  | editWrite (edit : ℕ)

def Edit.field (e : Edit) (f : Text × Text) : Field where
  name := f.1
  value := f.2
  verifiedAt := (e.old.find? fun o => o.value = f.2).bind Field.verifiedAt

def Edit.asked (e : Edit) : List (Text × Text) := e.fields.filter fun f => f.1 ≠ []

/-- The next statement of a worker (`verify_account_links`) or of an edit. -/
def step (s : State) : Op → State
  | .start worker =>
      if site.linkBack.isNone then s
      else { s with workers := Function.update s.workers worker (some ⟨[], s.fields, false⟩) }
  | .fetch worker linksBack now =>
      match s.workers worker with
      | some ⟨done, f :: todo, changed⟩ =>
          if f.requiresVerification site && linksBack then
            { s with
              workers := Function.update s.workers worker
                (some ⟨done ++ [{ f with verifiedAt := some now }], todo, true⟩)
              checked := f.value :: s.checked }
          else
            { s with
              workers := Function.update s.workers worker (some ⟨done ++ [f], todo, changed⟩) }
      | _ => s
  | .finish worker =>
      match s.workers worker with
      | some ⟨done, [], changed⟩ =>
          { s with
            fields := if changed then done else s.fields
            workers := Function.update s.workers worker none }
      | _ => s
  | .editRead edit fields =>
      { s with edits := Function.update s.edits edit (some ⟨fields, s.fields⟩) }
  | .editWrite edit =>
      match s.edits edit with
      | some e =>
          { s with
            fields := e.asked.map e.field
            edits := Function.update s.edits edit none
            last := e.asked }
      | none => s

/-! ### What is kept -/

def entries (fields : List Field) : List (Text × Text) := fields.map fun f => (f.name, f.value)

/-- Every mark is on a value whose page linked back. -/
def Honest (checked : List Text) (fields : List Field) : Prop :=
  ∀ f ∈ fields, f.verifiedAt.isSome = true → f.value ∈ checked

structure Vouched (s : State) : Prop where
  fields : Honest s.checked s.fields
  workers : ∀ worker w, s.workers worker = some w → Honest s.checked (w.done ++ w.todo)
  edits : ∀ edit e, s.edits edit = some e → Honest s.checked e.old

/-- A worker that marked something writes over the names and values it read. -/
def upToDate (s : State) : Op → Prop
  | .finish worker =>
      ∀ w, s.workers worker = some w → w.changed = true → entries w.done = entries s.fields
  | _ => True

variable {site} {s : State}

theorem forall_update {α : Type} {f : ℕ → Option α} {P : α → Prop}
    (h : ∀ i v, f i = some v → P v) {b : Option α} (hb : ∀ v, b = some v → P v) (a : ℕ) :
    ∀ i v, Function.update f a b i = some v → P v := by
  intro i v hv
  by_cases heq : i = a
  · rw [heq, Function.update_self] at hv
    exact hb v hv
  · rw [Function.update_of_ne heq] at hv
    exact h i v hv

theorem Vouched.start (h : Vouched s) (worker : ℕ) :
    Vouched { s with workers := Function.update s.workers worker (some ⟨[], s.fields, false⟩) } where
  fields := h.fields
  workers := by
    refine forall_update h.workers (fun w hw => ?_) worker
    rw [← Option.some.inj hw]
    exact h.fields
  edits := h.edits

theorem Vouched.fetch (h : Vouched s) {worker : ℕ} {w w' : Worker} {checked : List Text}
    (hw : s.workers worker = some w) (hsub : s.checked ⊆ checked)
    (hw' : Honest s.checked (w.done ++ w.todo) → Honest checked (w'.done ++ w'.todo)) :
    Vouched
      { s with workers := Function.update s.workers worker (some w'), checked := checked } where
  fields := fun f hf hmark => hsub (h.fields f hf hmark)
  workers := by
    refine forall_update (fun other v hv f hf hmark => ?_) (fun v hv => ?_) worker
    · exact hsub (h.workers other v hv f hf hmark)
    · rw [← Option.some.inj hv]
      exact hw' (h.workers worker w hw)
  edits := fun edit e he f hf hmark => hsub (h.edits edit e he f hf hmark)

theorem Vouched.finish (h : Vouched s) {worker : ℕ} {w : Worker}
    (hw : s.workers worker = some w) (htodo : w.todo = []) :
    Vouched
      { s with
        fields := if w.changed then w.done else s.fields
        workers := Function.update s.workers worker none } where
  fields := by
    have hdone := h.workers worker w hw
    rw [htodo, List.append_nil] at hdone
    dsimp only
    split
    · exact hdone
    · exact h.fields
  workers := by
    refine forall_update h.workers (fun v hv => ?_) worker
    cases hv
  edits := h.edits

theorem Vouched.editRead (h : Vouched s) (edit : ℕ) (fields : List (Text × Text)) :
    Vouched { s with edits := Function.update s.edits edit (some ⟨fields, s.fields⟩) } where
  fields := h.fields
  workers := h.workers
  edits := by
    refine forall_update h.edits (fun e he => ?_) edit
    rw [← Option.some.inj he]
    exact h.fields

/-- The mark an edit keeps is on the value it was read with. -/
theorem honest_field {checked : List Text} {e : Edit} (h : Honest checked e.old) :
    Honest checked (e.asked.map e.field) := by
  intro f hf hmark
  obtain ⟨entry, -, rfl⟩ := List.mem_map.mp hf
  cases hfind : e.old.find? fun o => o.value = entry.2 with
  | none =>
      unfold Edit.field at hmark
      rw [hfind] at hmark
      cases hmark
  | some o =>
      unfold Edit.field at hmark ⊢
      rw [hfind] at hmark
      have hvalue := List.find?_some hfind
      have hold := h o (List.mem_of_find?_eq_some hfind) hmark
      rwa [of_decide_eq_true hvalue] at hold

theorem Vouched.editWrite (h : Vouched s) {edit : ℕ} {e : Edit} (he : s.edits edit = some e) :
    Vouched
      { s with
        fields := e.asked.map e.field
        edits := Function.update s.edits edit none
        last := e.asked } where
  fields := honest_field (h.edits edit e he)
  workers := h.workers
  edits := by
    refine forall_update h.edits (fun d hd => ?_) edit
    cases hd

theorem step_vouched (h : Vouched s) (op : Op) : Vouched (step site s op) := by
  cases op with
  | start worker =>
      simp only [step]
      split
      · exact h
      · exact h.start worker
  | fetch worker linksBack now =>
      simp only [step]
      split
      next done f todo changed hw =>
        split
        next hlinks =>
          refine h.fetch hw (List.subset_cons_self _ _) fun hbefore g hg hmark => ?_
          simp only [List.append_assoc, List.singleton_append, List.mem_append,
            List.mem_cons] at hg hbefore
          rcases hg with hdone | rfl | htodo
          · exact List.mem_cons_of_mem _ (hbefore g (by simp [hdone]) hmark)
          · exact List.mem_cons_self
          · exact List.mem_cons_of_mem _ (hbefore g (by simp [htodo]) hmark)
        next =>
          refine h.fetch hw (List.Subset.refl _) fun hbefore => ?_
          rwa [List.append_assoc, List.singleton_append]
      next => exact h
  | finish worker =>
      simp only [step]
      split
      next done changed hw => exact h.finish hw rfl
      next => exact h
  | editRead edit fields => exact h.editRead edit fields
  | editWrite edit =>
      simp only [step]
      split
      next e he => exact h.editWrite he
      next => exact h

theorem entries_field (e : Edit) : entries (e.asked.map e.field) = e.asked := by
  unfold entries
  rw [List.map_map]
  exact List.map_id _

theorem step_kept (h : entries s.fields = s.last) (op : Op) (hop : upToDate s op) :
    entries (step site s op).fields = (step site s op).last := by
  cases op with
  | start worker =>
      simp only [step]
      split <;> exact h
  | fetch worker linksBack now =>
      simp only [step]
      split
      · split <;> exact h
      · exact h
  | finish worker =>
      simp only [step]
      split
      next done changed hw =>
        cases changed with
        | true => exact (hop _ hw rfl).trans h
        | false => exact h
      next => exact h
  | editRead edit fields => exact h
  | editWrite edit =>
      simp only [step]
      split
      next e he => exact entries_field e
      next => exact h

/-! ### Runs -/

theorem run_vouched (h : Vouched s) (ops : List Op) : Vouched (run (step site) s ops) := by
  induction ops generalizing s with
  | nil => exact h
  | cons op ops ih => exact ih (step_vouched h op)

/-- Every mark is on a value that was checked; and the names and values are those of the last
edit, as long as every worker that marked something writes over what it read. -/
theorem edits_kept (site : Site) (s : State) (hs : Vouched s) (hlast : entries s.fields = s.last)
    (ops : List Op) :
    Vouched (run (step site) s ops) ∧
      (Guarded (step site) upToDate s ops →
        entries (run (step site) s ops).fields = (run (step site) s ops).last) := by
  refine ⟨run_vouched hs ops, fun hg => ?_⟩
  clear hs
  induction ops generalizing s with
  | nil => exact hlast
  | cons op ops ih => exact ih (step site s op) (step_kept hlast op hg.1) hg.2

/-! ### An edit while a page is fetched -/

def localSite : Site where
  remote := false
  linkBack := some ['m', 'e']
  remoteValueForVerification := some
  isVerifiable _ := true

def oneField : State where
  fields := [⟨['w'], ['a'], none⟩]
  workers _ := none
  edits _ := none
  last := [(['w'], ['a'])]
  checked := []

/-- The worker reads, the field is changed, and the worker writes. -/
def changedMeanwhile : List Op :=
  [.start 0, .editRead 0 [(['w'], ['b'])], .editWrite 0, .fetch 0 true ['t'], .finish 0]

theorem edit_undone :
    entries (run (step localSite) oneField changedMeanwhile).fields = [(['w'], ['a'])] ∧
      (run (step localSite) oneField changedMeanwhile).last = [(['w'], ['b'])] := by
  decide

theorem vouched_oneField : Vouched oneField where
  fields := by
    intro f hf hmark
    rw [List.mem_singleton.mp hf] at hmark
    cases hmark
  workers := nofun
  edits := nofun

theorem edits_kept_one :
    Vouched (run (step localSite) oneField changedMeanwhile) ∧
      (Guarded (step localSite) upToDate oneField changedMeanwhile →
        entries (run (step localSite) oneField changedMeanwhile).fields =
          (run (step localSite) oneField changedMeanwhile).last) :=
  edits_kept localSite oneField vouched_oneField rfl changedMeanwhile

end Eunha.LinkVerification
