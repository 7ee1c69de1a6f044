import Eunha.Roles
import Mathlib

/-!
# Rules in other languages, and in order

The translations of a rule are changed by a list of attributes, which is read into changes
first: no two translations may end up in one language. The changes are then applied one
statement after another, those that destroy first, and the database holds to one translation
in a language after each. Rules are in an order, and moving one numbers them all again.
-/
namespace Eunha.RuleTranslations
open Roles (AppError asI32)

/-! ### Changes -/

/-- A row of `rule_translations`. -/
structure Translation where
  id : ℤ
  ruleId : ℤ
  language : String
  text : String
  hint : String
  deriving DecidableEq

structure TranslationForm where
  id : Option ℤ
  language : Option String
  text : Option String
  hint : Option String
  destroy : Option Bool

/-- What a save does to one translation. -/
inductive Change where
  | create (language text hint : String)
  | update (id : ℤ) (language : Option String) (text : String) (hint : Option String)
  | destroy (id : ℤ)
  deriving DecidableEq

def Change.taken : Change → Option String
  | .create language _ _ => some language
  | .update _ language _ _ => language
  | .destroy _ => none

def textSizeLimit : ℕ := 300

def isBlank (s : String) : Bool := Sanitizer.trim s.toList = []

def textErrors (text : String) : List String :=
  if textSizeLimit < text.toList.length then
    ["Translations text is too long (maximum is 300 characters)"]
  else []

def blankErrors (language : Option String) : List String :=
  if language.any isBlank then ["Translations language can't be blank"] else []

def changeOf (existing : List (ℤ × String)) (form : TranslationForm) :
    Except AppError (Option Change × List String) :=
  let text := form.text.getD ""
  match form.id with
  | some id =>
      if (existing.any fun e => e.1 = id) = false then .error .notFound
      else if form.destroy.getD false then .ok (some (.destroy id), [])
      else if isBlank text then .ok (none, [])
      else .ok (some (.update id form.language text form.hint),
        textErrors text ++ blankErrors form.language)
  | none =>
      if isBlank text then .ok (none, [])
      else .ok (some (.create (form.language.getD "") text (form.hint.getD "")),
        textErrors text ++ blankErrors (some (form.language.getD "")))

def changesOf (existing : List (ℤ × String)) :
    List TranslationForm → Except AppError (List Change × List String)
  | [] => .ok ([], [])
  | form :: forms =>
      match changeOf existing form, changesOf existing forms with
      | .error e, _ => .error e
      | .ok _, .error e => .error e
      | .ok (change, errors), .ok (changes, more) => .ok (change.toList ++ changes, errors ++ more)

def takenErrors : List String → List String → List String
  | _, [] => []
  | languages, language :: rest =>
      if language ∈ languages then
        "Translations language has already been taken" :: takenErrors languages rest
      else takenErrors (languages ++ [language]) rest

def leftAlone (changes : List Change) (e : ℤ × String) : Bool :=
  !changes.any fun c => match c with
    | .destroy d => d = e.1
    | .update u (some _) _ _ => u = e.1
    | _ => false

/-- `translation_changes`: the changes, and what is wrong with them. -/
def translationChanges (existing : List (ℤ × String)) (forms : List TranslationForm) :
    Except AppError (List Change × List String) :=
  match changesOf existing forms with
  | .error e => .error e
  | .ok (changes, errors) =>
      .ok (changes, errors ++ takenErrors ((existing.filter (leftAlone changes)).map Prod.snd)
        (changes.filterMap Change.taken))

/-! ### Applying them -/

/-- The table, with its keys and the next value of its sequence. -/
structure Store where
  rows : List Translation
  nextId : ℤ
  ids_nodup : (rows.map Translation.id).Nodup
  keys_nodup : (rows.map fun t => (t.ruleId, t.language)).Nodup
  ids_lt : ∀ t ∈ rows, t.id < nextId

/-- `SELECT id, language … WHERE rule_id = $1` -/
def existing (s : Store) (ruleId : ℤ) : List (ℤ × String) :=
  (s.rows.filter fun t => t.ruleId = ruleId).map fun t => (t.id, t.language)

def Change.on (c : Change) (t : Translation) : Translation :=
  match c with
  | .update id language text hint =>
      if t.id = id then
        { t with language := language.getD t.language, text := text, hint := hint.getD t.hint }
      else t
  | _ => t

def Change.destroys (c : Change) (t : Translation) : Bool :=
  match c with
  | .destroy id => t.id = id
  | _ => false

def taken (rows : List Translation) (id ruleId : ℤ) (language : String) : Bool :=
  rows.any fun t => t.id ≠ id && t.ruleId = ruleId && t.language = language

def applyChange (ruleId : ℤ) (c : Change) (rows : List Translation) (nextId : ℤ) :
    Option (List Translation × ℤ) :=
  match c with
  | .destroy _ => some (rows, nextId)
  | .create language text hint =>
      if taken rows nextId ruleId language then none
      else some (rows ++ [⟨nextId, ruleId, language, text, hint⟩], nextId + 1)
  | .update id language _ _ =>
      if language.any fun l => rows.any fun t => t.id = id && taken rows id t.ruleId l then none
      else some (rows.map c.on, nextId)

def applyAll (ruleId : ℤ) : List Change → List Translation → ℤ → Option (List Translation)
  | [], rows, _ => some rows
  | c :: changes, rows, nextId =>
      (applyChange ruleId c rows nextId).bind fun r => applyAll ruleId changes r.1 r.2

/-- `apply`: the rows it leaves, or none when a statement fails. -/
def apply (s : Store) (ruleId : ℤ) (changes : List Change) : Option (List Translation) :=
  applyAll ruleId changes (s.rows.filter fun t => !changes.any (·.destroys t)) s.nextId

/-! ### What they describe -/

def updated (changes : List Change) (t : Translation) : Translation :=
  changes.foldl (fun t c => c.on t) t

/-- The new rows. -/
def created (ruleId : ℤ) : List Change → ℤ → List Translation
  | [], _ => []
  | .create language text hint :: changes, nextId =>
      ⟨nextId, ruleId, language, text, hint⟩ :: created ruleId changes (nextId + 1)
  | _ :: changes, nextId => created ruleId changes nextId

def described (s : Store) (ruleId : ℤ) (changes : List Change) : List Translation :=
  (s.rows.filter fun t => !changes.any (·.destroys t)).map (updated changes) ++
    created ruleId changes s.nextId

/-! ### The order of rules -/

/-- A row of `rules`. -/
structure Rule where
  id : ℤ
  priority : ℤ
  deleted : Bool
  deriving DecidableEq

structure RuleTable where
  rows : List Rule
  nodup : (rows.map Rule.id).Nodup

/-- `ORDER BY priority ASC, id ASC` -/
def before (a b : Rule) : Bool :=
  a.priority < b.priority || a.priority = b.priority && a.id ≤ b.id

/-- `Rule.ordered` -/
def ordered (rules : RuleTable) : List ℤ :=
  ((rules.rows.filter fun r => !r.deleted).mergeSort before).map Rule.id

/-- The rule taken out and put back so many places on. -/
def placed (ids : List ℤ) (id offset : ℤ) : List ℤ :=
  let position := ids.idxOf id
  let rest := ids.eraseIdx position
  let target := position + offset
  if target < 0 then rest ++ [id]
  else if rest.length < target then rest.insertIdx position id
  else rest.insertIdx target.toNat id

/-- `UPDATE rules SET priority = $2 … WHERE id = $1 AND priority <> $2`, for each. -/
def number : ℕ → List ℤ → List Rule → List Rule
  | _, [], rows => rows
  | index, rule :: ids, rows =>
      number (index + 1) ids (rows.map fun r =>
        if r.id = rule && r.priority ≠ asI32 index then { r with priority := asI32 index } else r)

def moveRule (rules : RuleTable) (id offset : ℤ) : Except AppError (List Rule) :=
  if id ∈ ordered rules then .ok (number 0 (placed (ordered rules) id offset) rules.rows)
  else .error .notFound

/-- The kept rules are numbered from zero, the others in the order they had. -/
def Moved (rules : RuleTable) (id : ℤ) (rows : List Rule) : Prop :=
  ∃ order : List ℤ, order.Perm (ordered rules) ∧ order.erase id = (ordered rules).erase id ∧
    (∀ (i : ℕ) (r : ℤ), order[i]? = some r → ∀ row ∈ rows, row.id = r → row.priority = i) ∧
    rows.map (fun r => (r.id, r.deleted)) = rules.rows.map fun r => (r.id, r.deleted)

/-! ### Changes that are accepted -/

def Change.target : Change → Option ℤ
  | .update id _ _ _ => some id
  | _ => none

theorem takenErrors_nil {languages rest : List String} (h : takenErrors languages rest = []) :
    rest.Nodup ∧ ∀ language ∈ rest, language ∉ languages := by
  induction rest generalizing languages with
  | nil => exact ⟨List.nodup_nil, fun _ hmem => by cases hmem⟩
  | cons language rest ih =>
      rw [takenErrors] at h
      by_cases hin : language ∈ languages
      · rw [if_pos hin] at h
        cases h
      · rw [if_neg hin] at h
        obtain ⟨hnodup, hout⟩ := ih h
        refine ⟨List.nodup_cons.mpr ⟨?_, hnodup⟩, ?_⟩
        · intro hmem
          exact hout language hmem (List.mem_append_right _ (List.mem_singleton_self _))
        · intro other hother
          rcases List.mem_cons.mp hother with rfl | hother
          · exact hin
          · exact fun hmem => hout other hother (List.mem_append_left _ hmem)

theorem changeOf_id {existing : List (ℤ × String)} {form : TranslationForm} {change : Change}
    {errors : List String} (h : changeOf existing form = .ok (some change, errors)) {id : ℤ}
    (hid : change.target = some id ∨ change = .destroy id) : id ∈ existing.map Prod.fst := by
  unfold changeOf at h
  cases hform : form.id with
  | none =>
      simp only [hform] at h
      by_cases hblank : isBlank (form.text.getD "") = true
      · rw [if_pos hblank] at h
        cases h
      · rw [if_neg hblank] at h
        injection h with h
        injection h with hchange
        injection hchange with hchange
        subst hchange
        rcases hid with hid | hid <;> cases hid
  | some formId =>
      simp only [hform] at h
      by_cases hany : (existing.any fun e => decide (e.1 = formId)) = false
      · rw [if_pos hany] at h
        cases h
      rw [if_neg hany] at h
      have hfound : formId ∈ existing.map Prod.fst := by
        rw [Bool.not_eq_false] at hany
        obtain ⟨e, he, heid⟩ := List.any_eq_true.mp hany
        exact List.mem_map.mpr ⟨e, he, of_decide_eq_true heid⟩
      have heq : formId = id := by
        by_cases hdestroy : form.destroy.getD false = true
        · rw [if_pos hdestroy] at h
          injection h with h
          injection h with hchange
          injection hchange with hchange
          subst hchange
          rcases hid with hid | hid
          · cases hid
          · cases hid
            rfl
        rw [if_neg hdestroy] at h
        by_cases hblank : isBlank (form.text.getD "") = true
        · rw [if_pos hblank] at h
          cases h
        · rw [if_neg hblank] at h
          injection h with h
          injection h with hchange
          injection hchange with hchange
          subst hchange
          rcases hid with hid | hid
          · cases hid
            rfl
          · cases hid
      exact heq ▸ hfound

theorem changesOf_ids {existing : List (ℤ × String)} {forms : List TranslationForm}
    {changes : List Change} {errors : List String} (h : changesOf existing forms = .ok (changes, errors))
    {c : Change} (hc : c ∈ changes) {id : ℤ} (hid : c.target = some id ∨ c = .destroy id) :
    id ∈ existing.map Prod.fst := by
  induction forms generalizing changes errors with
  | nil =>
      cases h
      cases hc
  | cons form forms ih =>
      rw [changesOf] at h
      cases hform : changeOf existing form with
      | error e =>
          rw [hform] at h
          cases h
      | ok first =>
          cases hforms : changesOf existing forms with
          | error e =>
              rw [hform, hforms] at h
              cases h
          | ok rest =>
              obtain ⟨change, errs⟩ := first
              obtain ⟨more, errs'⟩ := rest
              rw [hform, hforms] at h
              cases h
              rcases List.mem_append.mp hc with hc | hc
              · have hchange : change = some c := Option.mem_toList.mp hc
                rw [hchange] at hform
                exact changeOf_id hform hid
              · exact ih hforms hc

structure Accepted (s : Store) (ruleId : ℤ) (changes : List Change) : Prop where
  ids : ∀ c ∈ changes, ∀ id, c.target = some id ∨ c = .destroy id →
    ∃ t ∈ s.rows, t.id = id ∧ t.ruleId = ruleId
  distinct : (changes.filterMap Change.taken).Nodup

theorem accepted {s : Store} {ruleId : ℤ} {forms : List TranslationForm} {changes : List Change}
    (h : translationChanges (existing s ruleId) forms = .ok (changes, [])) :
    Accepted s ruleId changes := by
  unfold translationChanges at h
  cases hforms : changesOf (existing s ruleId) forms with
  | error e =>
      rw [hforms] at h
      cases h
  | ok result =>
      obtain ⟨changes', errors⟩ := result
      rw [hforms] at h
      simp only [Except.ok.injEq, Prod.mk.injEq, List.append_eq_nil_iff] at h
      obtain ⟨rfl, -, htaken⟩ := h
      refine ⟨?_, (takenErrors_nil htaken).1⟩
      intro c hc id hid
      obtain ⟨e, he, rfl⟩ := List.mem_map.mp (changesOf_ids hforms hc hid)
      obtain ⟨t, ht, rfl⟩ := List.mem_map.mp he
      exact ⟨t, (List.mem_filter.mp ht).1, rfl, of_decide_eq_true (List.mem_filter.mp ht).2⟩

theorem taken_once {pre post : List Change} {c u : Change} {language : String}
    (h : ((pre ++ c :: post).filterMap Change.taken).Nodup) (hu : u ∈ pre)
    (htaken : u.taken = some language) : c.taken ≠ some language := by
  intro hc
  rw [List.filterMap_append, List.filterMap_cons_some hc] at h
  have hmem : language ∈ pre.filterMap Change.taken := List.mem_filterMap.mpr ⟨u, hu, htaken⟩
  exact (List.nodup_append.mp h).2.2 language hmem language List.mem_cons_self rfl

/-! ### Rows after some changes -/

theorem on_id (c : Change) (t : Translation) : (c.on t).id = t.id := by
  cases c <;> simp only [Change.on]
  split_ifs <;> rfl

theorem on_ruleId (c : Change) (t : Translation) : (c.on t).ruleId = t.ruleId := by
  cases c <;> simp only [Change.on]
  split_ifs <;> rfl

theorem on_of_ne {c : Change} {t : Translation} (h : c.target ≠ some t.id) : c.on t = t := by
  cases c with
  | create language text hint => rfl
  | destroy id => rfl
  | update id language text hint =>
      have hne : t.id ≠ id := fun heq => h (by rw [Change.target, heq])
      simp only [Change.on, if_neg hne]

theorem on_language (c : Change) (t : Translation) :
    (c.target = some t.id ∧ c.taken = some (c.on t).language) ∨
      (c.target = some t.id → c.taken = none) ∧ (c.on t).language = t.language := by
  by_cases h : c.target = some t.id
  · cases c with
    | create language text hint => cases h
    | destroy id => cases h
    | update id language text hint =>
        cases h
        simp only [Change.on, if_true, Change.taken]
        cases language with
        | none => exact Or.inr ⟨fun _ => rfl, rfl⟩
        | some language => exact Or.inl ⟨rfl, rfl⟩
  · exact Or.inr ⟨fun h' => absurd h' h, by rw [on_of_ne h]⟩

theorem updated_append (pre : List Change) (c : Change) (t : Translation) :
    updated (pre ++ [c]) t = c.on (updated pre t) := by
  rw [updated, List.foldl_append]
  rfl

theorem updated_id (changes : List Change) (t : Translation) : (updated changes t).id = t.id := by
  induction changes using List.reverseRecOn with
  | nil => rfl
  | append_singleton changes c ih => rw [updated_append, on_id, ih]

theorem updated_ruleId (changes : List Change) (t : Translation) :
    (updated changes t).ruleId = t.ruleId := by
  induction changes using List.reverseRecOn with
  | nil => rfl
  | append_singleton changes c ih => rw [updated_append, on_ruleId, ih]

theorem updated_language (changes : List Change) (t : Translation) :
    (∃ u ∈ changes, u.target = some t.id ∧ u.taken = some (updated changes t).language) ∨
      (∀ u ∈ changes, u.target = some t.id → u.taken = none) ∧
        (updated changes t).language = t.language := by
  induction changes using List.reverseRecOn with
  | nil => exact Or.inr ⟨(fun u hu => by cases hu), rfl⟩
  | append_singleton changes c ih =>
      rw [updated_append]
      have hid := updated_id changes t
      rcases on_language c (updated changes t) with ⟨htarget, htaken⟩ | ⟨hkeep, hlanguage⟩
      · exact Or.inl ⟨c, by simp, hid ▸ htarget, htaken⟩
      · rw [hlanguage]
        rw [hid] at hkeep
        rcases ih with hgiven | ⟨hnone, hsame⟩
        · obtain ⟨u, hu, htarget, htaken⟩ := hgiven
          exact Or.inl ⟨u, List.mem_append_left _ hu, htarget, htaken⟩
        · refine Or.inr ⟨?_, hsame⟩
          intro u hu
          rcases List.mem_append.mp hu with hu | hu
          · exact hnone u hu
          · rw [List.mem_singleton.mp hu]
            exact hkeep

/-! ### The statements, one after another -/

def additions (changes : List Change) : ℤ :=
  changes.countP fun c => c matches .create ..

theorem additions_append (pre : List Change) (c : Change) :
    additions (pre ++ [c]) = additions pre + additions [c] := by
  simp [additions]

theorem additions_nonneg (changes : List Change) : 0 ≤ additions changes :=
  Int.natCast_nonneg _

theorem created_append (ruleId : ℤ) (pre post : List Change) (nextId : ℤ) :
    created ruleId (pre ++ post) nextId =
      created ruleId pre nextId ++ created ruleId post (nextId + additions pre) := by
  induction pre generalizing nextId with
  | nil => simp [created, additions]
  | cons c pre ih =>
      cases c with
      | create language text hint =>
          simp only [List.cons_append, created, ih, additions, List.countP_cons]
          simp only [Nat.cast_add, if_true, Nat.cast_one]
          rw [show nextId + 1 + ↑(List.countP (fun c => c matches .create ..) pre) =
            nextId + (↑(List.countP (fun c => c matches .create ..) pre) + 1) by ring]
      | update id language text hint => simpa [created, additions] using ih nextId
      | destroy id => simpa [created, additions] using ih nextId

theorem mem_created {ruleId : ℤ} {changes : List Change} {nextId : ℤ} {t : Translation}
    (h : t ∈ created ruleId changes nextId) :
    nextId ≤ t.id ∧ t.id < nextId + additions changes ∧ t.ruleId = ruleId ∧
      ∃ c ∈ changes, c.taken = some t.language := by
  induction changes generalizing nextId with
  | nil => cases h
  | cons c changes ih =>
      have hadd : additions (c :: changes) = additions [c] + additions changes := by
        simp [additions, List.countP_cons, add_comm]
      have hlater : ∀ {n : ℤ}, t ∈ created ruleId changes n → nextId ≤ n →
          n ≤ nextId + additions [c] → nextId ≤ t.id ∧ t.id < nextId + additions (c :: changes) ∧
            t.ruleId = ruleId ∧ ∃ c' ∈ c :: changes, c'.taken = some t.language := by
        intro n ht hle hle'
        obtain ⟨h₁, h₂, h₃, c', hc', h₄⟩ := ih ht
        exact ⟨by omega, by omega, h₃, c', List.mem_cons_of_mem _ hc', h₄⟩
      cases c with
      | create language text hint =>
          have hone : additions [Change.create language text hint] = 1 := rfl
          rw [created] at h
          rcases List.mem_cons.mp h with rfl | h
          · have := additions_nonneg changes
            exact ⟨le_rfl, by simp only; omega, rfl, _, List.mem_cons_self, rfl⟩
          · exact hlater h (by omega) (by omega)
      | update id language text hint => exact hlater h le_rfl (by simp [additions])
      | destroy id => exact hlater h le_rfl (by simp [additions])

def after (ruleId : ℤ) (rows : List Translation) (nextId : ℤ) (changes : List Change) :
    List Translation :=
  rows.map (updated changes) ++ created ruleId changes nextId

variable {ruleId nextId : ℤ} {rows : List Translation}

theorem applyChange_eq {pre : List Change} {c : Change}
    (hid : ∀ id, c.target = some id → id < nextId) {r : List Translation × ℤ}
    (h : applyChange ruleId c (after ruleId rows nextId pre) (nextId + additions pre) = some r) :
    r = (after ruleId rows nextId (pre ++ [c]), nextId + additions (pre ++ [c])) := by
  rw [additions_append]
  unfold after at h ⊢
  rw [created_append]
  have hmap : rows.map (updated (pre ++ [c])) = (rows.map (updated pre)).map c.on := by
    rw [List.map_map]
    exact List.map_congr_left fun t _ => updated_append pre c t
  rw [hmap]
  cases c with
  | create language text hint =>
      have hon : ∀ l : List Translation, l.map (Change.create language text hint).on = l :=
        fun l => by rw [show (Change.create language text hint).on = id from rfl, List.map_id]
      simp only [applyChange] at h
      split_ifs at h
      rw [← Option.some.inj h, hon, List.append_assoc,
        show additions [Change.create language text hint] = 1 from rfl, add_assoc]
      rfl
  | destroy id =>
      have hon : ∀ l : List Translation, l.map (Change.destroy id).on = l :=
        fun l => by rw [show (Change.destroy id).on = (fun t => t) from rfl, List.map_id']
      simp only [applyChange] at h
      rw [← Option.some.inj h, hon]
      simp [created, additions]
  | update id language text hint =>
      have hlt : id < nextId := hid id rfl
      have hon : (created ruleId pre nextId).map (Change.update id language text hint).on =
          created ruleId pre nextId := by
        conv_rhs => rw [← List.map_id' (created ruleId pre nextId)]
        refine List.map_congr_left fun t ht => on_of_ne ?_
        intro heq
        cases heq
        have := (mem_created ht).1
        omega
      simp only [applyChange] at h
      split_ifs at h
      rw [← Option.some.inj h, List.map_append, hon]
      simp [created, additions]

/-- The statement of a change does not fail after some others. -/
def Fits (ruleId : ℤ) (rows : List Translation) (nextId : ℤ) (pre : List Change) (c : Change) :
    Prop :=
  applyChange ruleId c (after ruleId rows nextId pre) (nextId + additions pre) ≠ none

variable (ruleId nextId rows) in
/-- The statements are all made just where none fails, and leave what is described. -/
theorem applyAll_eq (pre post : List Change)
    (hids : ∀ c ∈ post, ∀ id, c.target = some id → id < nextId) (rows' : List Translation) :
    applyAll ruleId post (after ruleId rows nextId pre) (nextId + additions pre) = some rows' ↔
      (∀ mid c rest, post = mid ++ c :: rest → Fits ruleId rows nextId (pre ++ mid) c) ∧
        rows' = after ruleId rows nextId (pre ++ post) := by
  induction post generalizing pre with
  | nil =>
      rw [applyAll, List.append_nil, Option.some.injEq]
      constructor
      · rintro rfl
        exact ⟨fun mid c rest h => by simp at h, rfl⟩
      · exact fun h => h.2.symm
  | cons c post ih =>
      rw [applyAll]
      cases hstep : applyChange ruleId c (after ruleId rows nextId pre) (nextId + additions pre) with
      | none =>
          simp only [Option.bind_none, reduceCtorEq, false_iff]
          rintro ⟨hfits, -⟩
          have hfit := hfits [] c post rfl
          rw [List.append_nil] at hfit
          exact hfit hstep
      | some r =>
          have hr := applyChange_eq (fun id => hids c List.mem_cons_self id) hstep
          rw [Option.bind_some, hr]
          rw [ih (pre ++ [c]) fun c' hc' => hids c' (List.mem_cons_of_mem _ hc')]
          have happend : pre ++ c :: post = pre ++ [c] ++ post := by simp
          rw [happend]
          refine and_congr_left fun _ => ?_
          constructor
          · intro hfits mid c' rest heq
            cases mid with
            | nil =>
                injection heq with hc _
                rw [← hc, List.append_nil]
                unfold Fits
                rw [hstep]
                exact Option.some_ne_none r
            | cons c'' mid =>
                injection heq with hc heq
                rw [← hc, ← List.singleton_append, ← List.append_assoc]
                exact hfits mid c' rest heq
          · intro hfits mid c' rest heq
            have hfit := hfits (c :: mid) c' rest (by rw [heq]; rfl)
            rwa [← List.singleton_append, ← List.append_assoc] at hfit

/-! ### Free languages -/

def Held (s : Store) (ruleId : ℤ) (changes pre : List Change) (c : Change) (language : String) :
    Prop :=
  ∃ t ∈ s.rows, t.ruleId = ruleId ∧ t.language = language ∧ Change.destroy t.id ∉ changes ∧
    c.target ≠ some t.id ∧ ∀ u ∈ pre, u.target = some t.id → u.taken = none

/-- No change gives a translation a language while another one still holds it. -/
def Freed (s : Store) (ruleId : ℤ) (changes : List Change) : Prop :=
  ∀ pre c post language, changes = pre ++ c :: post → c.taken = some language →
    (∀ id, c.target = some id → Change.destroy id ∉ changes) →
    ¬ Held s ruleId changes pre c language

/-- The rows that are not destroyed. -/
def kept (s : Store) (changes : List Change) : List Translation :=
  s.rows.filter fun t => !changes.any (·.destroys t)

theorem mem_kept {s : Store} {changes : List Change} {t : Translation} :
    t ∈ kept s changes ↔ t ∈ s.rows ∧ Change.destroy t.id ∉ changes := by
  unfold kept
  rw [List.mem_filter]
  refine and_congr_right fun _ => ?_
  rw [Bool.not_eq_true', List.any_eq_false]
  constructor
  · intro h hmem
    exact h _ hmem (decide_eq_true rfl)
  · intro h c hc hdestroys
    cases c with
    | create language text hint => cases hdestroys
    | update id language text hint => cases hdestroys
    | destroy id =>
        have heq : t.id = id := of_decide_eq_true hdestroys
        exact h (heq ▸ hc)

theorem mem_after {s : Store} {changes pre : List Change} {y : Translation} :
    y ∈ after ruleId (kept s changes) nextId pre ↔
      (∃ t ∈ kept s changes, updated pre t = y) ∨ y ∈ created ruleId pre nextId := by
  rw [after, List.mem_append, List.mem_map]

theorem taken_iff {rows : List Translation} {id : ℤ} {language : String} :
    taken rows id ruleId language = true ↔
      ∃ y ∈ rows, y.id ≠ id ∧ y.ruleId = ruleId ∧ y.language = language := by
  unfold taken
  simp only [List.any_eq_true, Bool.and_eq_true, decide_eq_true_eq, and_assoc]

theorem holds_iff {s : Store} {changes pre post : List Change} {c : Change} {language : String}
    (haccepted : Accepted s ruleId changes) (heq : changes = pre ++ c :: post)
    (hc : c.taken = some language) :
    (∃ y ∈ after ruleId (kept s changes) s.nextId pre,
      c.target ≠ some y.id ∧ y.ruleId = ruleId ∧ y.language = language) ↔
      Held s ruleId changes pre c language := by
  have honce := heq ▸ haccepted.distinct
  constructor
  · rintro ⟨y, hy, htarget, hrule, hlanguage⟩
    rcases mem_after.mp hy with ⟨t, ht, rfl⟩ | hcreated
    · rw [updated_id] at htarget
      rw [updated_ruleId] at hrule
      obtain ⟨hrow, hdestroy⟩ := mem_kept.mp ht
      rcases updated_language pre t with ⟨u, hu, -, htaken⟩ | ⟨hnone, hsame⟩
      · rw [hlanguage] at htaken
        exact absurd hc (taken_once honce hu htaken)
      · exact ⟨t, hrow, hrule, hsame ▸ hlanguage, hdestroy, htarget, hnone⟩
    · obtain ⟨-, -, -, u, hu, htaken⟩ := mem_created hcreated
      rw [hlanguage] at htaken
      exact absurd hc (taken_once honce hu htaken)
  · rintro ⟨t, hrow, hrule, hlanguage, hdestroy, htarget, hnone⟩
    refine ⟨updated pre t, mem_after.mpr (Or.inl ⟨t, mem_kept.mpr ⟨hrow, hdestroy⟩, rfl⟩),
      by rwa [updated_id], by rwa [updated_ruleId], ?_⟩
    rcases updated_language pre t with ⟨u, hu, hut, htaken⟩ | ⟨-, hsame⟩
    · rw [hnone u hu hut] at htaken
      cases htaken
    · rw [hsame, hlanguage]

theorem fits_iff {s : Store} {changes pre post : List Change} {c : Change}
    (haccepted : Accepted s ruleId changes) (heq : changes = pre ++ c :: post) :
    Fits ruleId (kept s changes) s.nextId pre c ↔ ∀ language, c.taken = some language →
      (∀ id, c.target = some id → Change.destroy id ∉ changes) →
        ¬ Held s ruleId changes pre c language := by
  have hmem : c ∈ changes := heq ▸ List.mem_append_right _ List.mem_cons_self
  have hids : ∀ t ∈ kept s changes, t.id < s.nextId := fun t ht => s.ids_lt t (mem_kept.mp ht).1
  unfold Fits
  cases c with
  | destroy id => simp [applyChange, Change.taken]
  | create language text hint =>
      have hfree : ∀ y ∈ after ruleId (kept s changes) s.nextId pre, y.id ≠ s.nextId + additions pre := by
        intro y hy
        have hadd := additions_nonneg pre
        rcases mem_after.mp hy with ⟨t, ht, rfl⟩ | hcreated
        · have := hids t ht
          rw [updated_id]
          omega
        · have := (mem_created hcreated).2.1
          omega
      have hiff : taken (after ruleId (kept s changes) s.nextId pre) (s.nextId + additions pre)
          ruleId language = true ↔
          Held s ruleId changes pre (.create language text hint) language := by
        rw [taken_iff, ← holds_iff haccepted heq rfl]
        constructor
        · rintro ⟨y, hy, -, hrule, hlanguage⟩
          exact ⟨y, hy, by simp [Change.target], hrule, hlanguage⟩
        · rintro ⟨y, hy, -, hrule, hlanguage⟩
          exact ⟨y, hy, hfree y hy, hrule, hlanguage⟩
      constructor
      · intro hne language' hc _ hheld
        cases hc
        apply hne
        simp only [applyChange]
        rw [if_pos (hiff.mpr hheld)]
      · intro h
        simp only [applyChange]
        rw [if_neg fun ht => h language rfl (fun id hid => by cases hid) (hiff.mp ht)]
        exact Option.some_ne_none _
  | update id language text hint =>
      obtain ⟨t', ht', rfl, hrule'⟩ := haccepted.ids _ hmem id (Or.inl rfl)
      cases language with
      | none => simp [applyChange, Change.taken]
      | some language =>
          have hiff : ((after ruleId (kept s changes) s.nextId pre).any fun t => t.id = t'.id &&
              taken (after ruleId (kept s changes) s.nextId pre) t'.id t.ruleId language) = true ↔
              Change.destroy t'.id ∉ changes ∧
                Held s ruleId changes pre (.update t'.id (some language) text hint) language := by
            rw [← holds_iff haccepted heq rfl]
            simp only [List.any_eq_true, Bool.and_eq_true, decide_eq_true_eq, taken_iff]
            constructor
            · rintro ⟨x, hx, hid, y, hy, hne, hrule, hlanguage⟩
              rcases mem_after.mp hx with ⟨t, ht, rfl⟩ | hcreated
              · rw [updated_id] at hid
                obtain ⟨hrow, hdestroy⟩ := mem_kept.mp ht
                have hsame : t = t' := List.inj_on_of_nodup_map s.ids_nodup hrow ht' hid
                subst hsame
                rw [updated_ruleId, hrule'] at hrule
                refine ⟨hdestroy, y, hy, ?_, hrule, hlanguage⟩
                intro heq
                exact hne (Option.some.inj heq).symm
              · have := (mem_created hcreated).1
                have := s.ids_lt t' ht'
                omega
            · rintro ⟨hdestroy, y, hy, hne, hrule, hlanguage⟩
              refine ⟨updated pre t', mem_after.mpr (Or.inl ⟨t', mem_kept.mpr ⟨ht', hdestroy⟩, rfl⟩),
                updated_id pre t', y, hy, ?_, ?_, hlanguage⟩
              · intro heq
                exact hne (by rw [heq]; rfl)
              · rw [updated_ruleId, hrule', hrule]
          constructor
          · intro hne language' hc heffective hheld
            cases hc
            apply hne
            simp only [applyChange, Option.any_some]
            rw [if_pos (hiff.mpr ⟨heffective _ rfl, hheld⟩)]
          · intro h
            simp only [applyChange, Option.any_some]
            rw [if_neg fun ht => h language rfl (fun id hid => by
              cases hid
              exact (hiff.mp ht).1) (hiff.mp ht).2]
            exact Option.some_ne_none _

theorem apply_eq_iff {s : Store} {changes : List Change} (haccepted : Accepted s ruleId changes) :
    apply s ruleId changes = some (described s ruleId changes) ↔ Freed s ruleId changes := by
  have hids : ∀ c ∈ changes, ∀ id, c.target = some id → id < s.nextId := by
    intro c hc id hid
    obtain ⟨t, ht, rfl, -⟩ := haccepted.ids c hc id (Or.inl hid)
    exact s.ids_lt t ht
  have hstart : after ruleId (kept s changes) s.nextId [] = kept s changes := by
    rw [after, created, List.append_nil]
    exact List.map_id' _
  have hadd : s.nextId + additions [] = s.nextId := by simp [additions]
  have hrun := applyAll_eq ruleId s.nextId (kept s changes) []
    changes hids (described s ruleId changes)
  rw [hstart, hadd] at hrun
  unfold apply
  rw [show (s.rows.filter fun t => !changes.any (·.destroys t)) = kept s changes from rfl, hrun]
  constructor
  · rintro ⟨hfits, -⟩ pre c post language heq hc heffective
    exact (fits_iff haccepted heq).mp (hfits pre c post heq) language hc heffective
  · intro hfreed
    refine ⟨fun pre c post heq => ?_, rfl⟩
    exact (fits_iff haccepted heq).mpr fun language hc heffective =>
      hfreed pre c post language heq hc heffective

/-! ### Rules in order -/

theorem ordered_nodup (rules : RuleTable) : (ordered rules).Nodup := by
  have hperm := (List.mergeSort_perm (rules.rows.filter fun r => !r.deleted) before).map Rule.id
  refine hperm.nodup_iff.mpr ?_
  exact rules.nodup.sublist (List.filter_sublist.map Rule.id)

theorem insertIdx_placed {rest : List ℤ} {id : ℤ} (hid : id ∉ rest) {n : ℕ} (hn : n ≤ rest.length) :
    (rest.insertIdx n id).Perm (id :: rest) ∧ (rest.insertIdx n id).erase id = rest := by
  refine ⟨List.perm_insertIdx id rest hn, ?_⟩
  induction rest generalizing n with
  | nil =>
      rw [Nat.le_zero.mp hn, List.insertIdx_zero]
      exact List.erase_cons_head _ _
  | cons first rest ih =>
      cases n with
      | zero =>
          rw [List.insertIdx_zero]
          exact List.erase_cons_head _ _
      | succ n =>
          have hne : first ≠ id := fun heq => hid (heq ▸ List.mem_cons_self)
          rw [List.insertIdx_succ_cons, List.erase_cons_tail (by simpa using hne),
            ih (fun hmem => hid (List.mem_cons_of_mem _ hmem)) (Nat.le_of_succ_le_succ hn)]

theorem placed_spec {ids : List ℤ} (hnodup : ids.Nodup) {id : ℤ} (hid : id ∈ ids) (offset : ℤ) :
    (placed ids id offset).Perm ids ∧ (placed ids id offset).erase id = ids.erase id := by
  have hlt : ids.idxOf id < ids.length := List.idxOf_lt_length_iff.mpr hid
  have herase : ids.eraseIdx (ids.idxOf id) = ids.erase id :=
    (List.erase_eq_eraseIdx_of_idxOf rfl).symm
  have hnot : id ∉ ids.erase id := hnodup.not_mem_erase
  have hperm : (id :: ids.erase id).Perm ids := (List.perm_cons_erase hid).symm
  have hlength : (ids.erase id).length = ids.length - 1 := List.length_erase_of_mem hid
  have hinsert : ∀ n, n ≤ (ids.erase id).length →
      ((ids.erase id).insertIdx n id).Perm ids ∧
        ((ids.erase id).insertIdx n id).erase id = ids.erase id := by
    intro n hn
    obtain ⟨hp, he⟩ := insertIdx_placed hnot hn
    exact ⟨hp.trans hperm, he⟩
  unfold placed
  simp only [herase]
  split_ifs with hneg hfar
  · rw [← List.insertIdx_length_self]
    exact hinsert _ le_rfl
  · exact hinsert _ (by omega)
  · exact hinsert _ (by omega)

def renumbered (index : ℕ) (ids : List ℤ) (r : Rule) : Rule :=
  if r.id ∈ ids then { r with priority := asI32 (index + ids.idxOf r.id : ℕ) } else r

theorem renumbered_of_not_mem {index : ℕ} {ids : List ℤ} {r : Rule} (h : r.id ∉ ids) :
    renumbered index ids r = r := if_neg h

theorem number_eq {ids : List ℤ} (hnodup : ids.Nodup) (index : ℕ) (rows : List Rule) :
    number index ids rows = rows.map (renumbered index ids) := by
  induction ids generalizing index rows with
  | nil =>
      rw [number, show renumbered index [] = id from
        funext fun r => renumbered_of_not_mem List.not_mem_nil, List.map_id]
  | cons rule ids ih =>
      obtain ⟨hnot, hrest⟩ := List.nodup_cons.mp hnodup
      rw [number, ih hrest, List.map_map]
      apply List.map_congr_left
      intro r _
      rw [Function.comp_apply]
      by_cases hr : r.id = rule
      · have hset : (if r.id = rule && r.priority ≠ asI32 index then
            { r with priority := asI32 index } else r) = { r with priority := asI32 index } := by
          by_cases hp : r.priority = asI32 index
          · rw [if_neg (by simp [hp]), ← hp]
          · rw [if_pos (by simp [hr, hp])]
        rw [hset, renumbered_of_not_mem (by simpa [hr] using hnot), renumbered,
          if_pos (hr ▸ List.mem_cons_self), hr, List.idxOf_cons_self, Nat.add_zero]
      · rw [if_neg (by simp [hr])]
        have hidx : (rule :: ids).idxOf r.id = ids.idxOf r.id + 1 :=
          List.idxOf_cons_ne _ (Ne.symm hr)
        by_cases hmem : r.id ∈ ids
        · rw [renumbered, renumbered, if_pos hmem, if_pos (List.mem_cons_of_mem _ hmem), hidx,
            show index + (ids.idxOf r.id + 1) = index + 1 + ids.idxOf r.id by omega]
        · rw [renumbered_of_not_mem hmem, renumbered_of_not_mem]
          intro hcons
          rcases List.mem_cons.mp hcons with heq | hin
          · exact hr heq
          · exact hmem hin

theorem asI32_lt (n : ℤ) : asI32 n < 2 ^ 31 := by
  have := Int.bmod_lt (x := n) (m := 2 ^ 32) (by decide)
  unfold asI32
  omega

theorem moved_iff (rules : RuleTable) (id offset : ℤ) {rows : List Rule}
    (h : moveRule rules id offset = .ok rows) :
    Moved rules id rows ↔ (ordered rules).length ≤ 2 ^ 31 := by
  unfold moveRule at h
  split_ifs at h with hid
  injection h with hrows
  obtain ⟨hperm, herase⟩ := placed_spec (ordered_nodup rules) hid offset
  have hnodup := hperm.nodup_iff.mpr (ordered_nodup rules)
  rw [number_eq hnodup] at hrows
  constructor
  · rintro ⟨order, hperm', -, hnumber, -⟩
    by_contra hlong
    have hlt : 2 ^ 31 < order.length := by
      rw [hperm'.length_eq]
      omega
    obtain ⟨r, hr⟩ : ∃ r, order[2 ^ 31]? = some r := ⟨_, List.getElem?_eq_getElem hlt⟩
    have hmem : r ∈ ordered rules := hperm'.mem_iff.mp (List.mem_of_getElem? hr)
    obtain ⟨rule, hrule, rfl⟩ := List.mem_map.mp hmem
    rw [List.mem_mergeSort, List.mem_filter] at hrule
    have hin : renumbered 0 (placed (ordered rules) id offset) rule ∈ rows :=
      hrows ▸ List.mem_map_of_mem hrule.1
    have hplaced : rule.id ∈ placed (ordered rules) id offset := hperm.mem_iff.mpr hmem
    have hpriority := hnumber _ _ hr _ hin (by rw [renumbered, if_pos hplaced])
    rw [renumbered, if_pos hplaced] at hpriority
    have := asI32_lt ((0 + (placed (ordered rules) id offset).idxOf rule.id : ℕ) : ℤ)
    simp only at hpriority
    omega
  · intro hlength
    refine ⟨placed (ordered rules) id offset, hperm, herase, ?_, ?_⟩
    · rintro i r hr row hrow rfl
      rw [← hrows] at hrow
      obtain ⟨rule, -, rfl⟩ := List.mem_map.mp hrow
      have hkeep : (renumbered 0 (placed (ordered rules) id offset) rule).id = rule.id := by
        unfold renumbered
        split_ifs <;> rfl
      rw [hkeep] at hr
      have hplaced : rule.id ∈ placed (ordered rules) id offset := List.mem_of_getElem? hr
      obtain ⟨hi, hget⟩ := List.getElem?_eq_some_iff.mp hr
      have hidx : (placed (ordered rules) id offset).idxOf rule.id = i := by
        rw [← hget]
        exact hnodup.idxOf_getElem i hi
      rw [renumbered, if_pos hplaced, hidx, Nat.zero_add]
      have hi' : (i : ℤ) < 2 ^ 31 := by
        have hlen := hperm.length_eq
        have hnat : i < 2 ^ 31 := by omega
        exact_mod_cast hnat
      have hnumber : asI32 (i : ℤ) = i :=
        Roles.asI32_of_le (by unfold Roles.positionLimit; omega)
          (by unfold Roles.positionLimit; omega)
      simp only [hnumber]
    · rw [← hrows, List.map_map]
      apply List.map_congr_left
      intro r _
      simp only [Function.comp_def, renumbered]
      split_ifs <;> rfl

/-! ### Both together -/

/-- Accepted changes are applied as described and rules moved as they should be, just where
every language is free when it is taken and there are numbers for the rules. -/
theorem applied_and_moved_iff (s : Store) (ruleId : ℤ) (forms : List TranslationForm)
    (changes : List Change)
    (haccepted : translationChanges (existing s ruleId) forms = .ok (changes, []))
    (rules : RuleTable) (id offset : ℤ) :
    (apply s ruleId changes = some (described s ruleId changes) ∧
        ∀ rows, moveRule rules id offset = .ok rows → Moved rules id rows) ↔
      Freed s ruleId changes ∧ (id ∈ ordered rules → (ordered rules).length ≤ 2 ^ 31) := by
  rw [apply_eq_iff (accepted haccepted)]
  refine and_congr_right fun _ => ?_
  constructor
  · intro h hid
    have hok : moveRule rules id offset =
        .ok (number 0 (placed (ordered rules) id offset) rules.rows) := if_pos hid
    exact (moved_iff rules id offset hok).mp (h _ hok)
  · intro h rows hok
    have hid : id ∈ ordered rules := by
      by_contra hnot
      rw [moveRule, if_neg hnot] at hok
      cases hok
    exact (moved_iff rules id offset hok).mpr (h hid)

/-- Rule 1 in English and in Korean. -/
def twoLanguages : Store where
  rows := [⟨1, 1, "en", "no", ""⟩, ⟨2, 1, "ko", "no", ""⟩]
  nextId := 3
  ids_nodup := by decide
  keys_nodup := by decide
  ids_lt := by decide

def languages (first second : String) : List TranslationForm :=
  [⟨some 1, some first, some "no", none, none⟩, ⟨some 2, some second, some "no", none, none⟩]

def changesTo (first second : String) : List Change :=
  [.update 1 (some first) "no" none, .update 2 (some second) "no" none]

def oneRule : RuleTable where
  rows := [⟨1, 0, false⟩]
  nodup := by decide

example : placed [10, 20, 30] 20 (-1) = [20, 10, 30] := by decide +kernel

def german : List TranslationForm := [⟨none, some "de", some "no", none, none⟩]

theorem german_freed : Freed twoLanguages 1 [.create "de" "no" ""] := by
  rintro pre c post language heq hc - ⟨t, ht, -, hlanguage, -⟩
  have hcreate : c = .create "de" "no" "" := by
    have hmem : c ∈ [Change.create "de" "no" ""] := heq ▸ List.mem_append_right _ List.mem_cons_self
    exact List.mem_singleton.mp hmem
  rw [hcreate, Change.taken, Option.some.injEq] at hc
  rw [← hc] at hlanguage
  revert t
  decide

theorem applied_and_moved :
    apply twoLanguages 1 [.create "de" "no" ""] =
        some (described twoLanguages 1 [.create "de" "no" ""]) ∧
      ∀ rows, moveRule oneRule 1 1 = .ok rows → Moved oneRule 1 rows :=
  (applied_and_moved_iff twoLanguages 1 german [.create "de" "no" ""] (by decide +kernel)
    oneRule 1 1).mpr ⟨german_freed, fun _ => by
      simp only [ordered, List.length_map, List.length_mergeSort]
      decide⟩

/-- Two translations may not swap their languages. -/
theorem swap_clashes :
    translationChanges (existing twoLanguages 1) (languages "ko" "en") =
      .ok (changesTo "ko" "en", []) ∧ apply twoLanguages 1 (changesTo "ko" "en") = none := by
  decide +kernel

end Eunha.RuleTranslations
