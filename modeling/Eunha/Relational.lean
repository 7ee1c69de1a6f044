import Eunha.Tables

/-!
# Rows that refer to rows

A database of rows of several tables, whose columns hold ids and other values, under a
schema that says which columns refer to which table, what becomes of a row when the row it
refers to is deleted, and which columns no two rows may agree on. A deletion takes along
the rows that refer to what is deleted, and theirs in turn.
-/
namespace Eunha.Relational
open Tables

@[ext]
structure Row where
  table : String
  id : ℕ
  value : String → Option ℕ

inductive OnDelete where
  | cascade
  | setNull
  | restrict
  deriving DecidableEq

structure ForeignKey where
  table : String
  column : String
  target : String
  onDelete : OnDelete
  deriving DecidableEq

structure Schema where
  foreignKeys : List ForeignKey
  /-- The unique indexes, each a table and its columns. -/
  unique : List (String × List String)

inductive Key where
  | id (table : String) (n : ℕ)
  | unique (table : String) (columns : List String) (values : List ℕ)
  deriving DecidableEq

def Row.keys (schema : Schema) (r : Row) : List Key :=
  .id r.table r.id :: (schema.unique.filter (·.1 = r.table)).filterMap fun index =>
    (index.2.mapM r.value).map (.unique r.table index.2)

abbrev Db (schema : Schema) : Type := Table (Row.keys schema)

theorem id_mem_keys (schema : Schema) (r : Row) : .id r.table r.id ∈ r.keys schema := by
  simp [Row.keys]

theorem keys_ne_nil (schema : Schema) (r : Row) : r.keys schema ≠ [] := by simp [Row.keys]

theorem unique_mem_keys {schema : Schema} {r : Row} {table : String} {columns : List String}
    {values : List ℕ} :
    .unique table columns values ∈ r.keys schema ↔
      (table, columns) ∈ schema.unique ∧ r.table = table ∧ columns.mapM r.value = some values := by
  simp only [Row.keys, List.mem_cons, reduceCtorEq, List.mem_filterMap, List.mem_filter,
    decide_eq_true_eq, Option.map_eq_some_iff, false_or, Key.unique.injEq]
  constructor
  · rintro ⟨⟨t, c⟩, ⟨hmem, ht⟩, v, hv, hrt, hc, rfl⟩
    obtain rfl : t = table := ht.trans hrt
    obtain rfl : c = columns := hc
    exact ⟨hmem, hrt, hv⟩
  · rintro ⟨hmem, rfl, hv⟩
    exact ⟨(r.table, columns), ⟨hmem, rfl⟩, values, hv, rfl, rfl, rfl⟩

theorem eq_of_id {schema : Schema} (db : Db schema) {r s : Row} (hr : r ∈ db.rows)
    (hs : s ∈ db.rows) (ht : r.table = s.table) (hid : r.id = s.id) : r = s :=
  db.eq_of_key hr hs (id_mem_keys schema r) (by rw [ht, hid]; exact id_mem_keys schema s)

theorem exists_mapM {α β : Type} {f g f' g' : α → Option β}
    (h : ∀ a b, f a = some b → g a = some b → ∃ c, f' a = some c ∧ g' a = some c) {l : List α}
    {values : List β} (hf : l.mapM f = some values) (hg : l.mapM g = some values) :
    ∃ values', l.mapM f' = some values' ∧ l.mapM g' = some values' := by
  induction l generalizing values with
  | nil => exact ⟨[], rfl, rfl⟩
  | cons a l ih =>
      simp only [List.mapM_cons, Option.bind_eq_bind, Option.bind_eq_some_iff, Option.pure_def,
        Option.some.injEq] at hf hg
      obtain ⟨b, hfb, rest, hfrest, rfl⟩ := hf
      obtain ⟨b', hgb, rest', hgrest, heq⟩ := hg
      obtain ⟨rfl, rfl⟩ := List.cons.inj heq
      obtain ⟨c, hfc, hgc⟩ := h a b' hfb hgb
      obtain ⟨values', hfv, hgv⟩ := ih hfrest hgrest
      exact ⟨c :: values', by simp [hfc, hfv], by simp [hgc, hgv]⟩

theorem table_of_clash {schema : Schema} {r s : Row} (h : Clash (Row.keys schema) r s) :
    r.table = s.table := by
  obtain ⟨k, hr, hs⟩ := h
  cases k with
  | id table n =>
      simp only [Row.keys, List.mem_cons, Key.id.injEq, List.mem_filterMap, Option.map_eq_some_iff,
        reduceCtorEq, and_false, exists_false, or_false] at hr hs
      exact hr.1.symm.trans hs.1
  | unique table columns values =>
      exact (unique_mem_keys.mp hr).2.1.trans (unique_mem_keys.mp hs).2.1.symm

theorem clash_of_values {schema : Schema} {r s r' s' : Row} (hrt : r'.table = r.table)
    (hri : r'.id = r.id) (hst : s'.table = s.table) (hsi : s'.id = s.id)
    (hvalue : r.table = s.table → ∀ column v, r.value column = some v → s.value column = some v →
      ∃ w, r'.value column = some w ∧ s'.value column = some w)
    (h : Clash (Row.keys schema) r s) : Clash (Row.keys schema) r' s' := by
  have htable := table_of_clash h
  obtain ⟨k, hr, hs⟩ := h
  cases k with
  | id table n =>
      refine ⟨.id table n, ?_, ?_⟩
      · simpa [Row.keys, hrt, hri] using hr
      · simpa [Row.keys, hst, hsi] using hs
  | unique table columns values =>
      obtain ⟨hmem, hr, hrv⟩ := unique_mem_keys.mp hr
      obtain ⟨-, hs, hsv⟩ := unique_mem_keys.mp hs
      obtain ⟨values', hrv', hsv'⟩ := exists_mapM (hvalue htable) hrv hsv
      refine ⟨.unique table columns values', ?_, ?_⟩
      · exact unique_mem_keys.mpr ⟨hmem, hrt.trans hr, hrv'⟩
      · exact unique_mem_keys.mpr ⟨hmem, hst.trans hs, hsv'⟩

def Row.set (r : Row) (column : String) (v : ℕ) : Row :=
  { r with value := Function.update r.value column (some v) }

/-! ### Deletion -/

section Deletion
variable (schema : Schema)

def ForeignKey.refers (fk : ForeignKey) (r s : Row) : Bool :=
  r.table = fk.table && s.table = fk.target && r.value fk.column = some s.id

theorem ForeignKey.refers_iff {fk : ForeignKey} {r s : Row} :
    fk.refers r s = true ↔
      r.table = fk.table ∧ s.table = fk.target ∧ r.value fk.column = some s.id := by
  simp [ForeignKey.refers, and_assoc]

def doomed (rows : List Row) (deleted : Row → Bool) : ℕ → Row → Bool
  | 0, r => deleted r
  | n + 1, r =>
      doomed rows deleted n r || rows.any fun s => doomed rows deleted n s &&
        schema.foreignKeys.any fun fk => fk.onDelete = .cascade && fk.refers r s

variable {schema} in
theorem doomed_succ {rows : List Row} {deleted : Row → Bool} {n : ℕ} {r : Row} :
    doomed schema rows deleted (n + 1) r = true ↔
      doomed schema rows deleted n r = true ∨
        ∃ s ∈ rows, doomed schema rows deleted n s = true ∧
          ∃ fk ∈ schema.foreignKeys, fk.onDelete = .cascade ∧ fk.refers r s = true := by
  simp [doomed]

theorem of_doomed {rows : List Row} {deleted : Row → Bool} {p : Row → Prop}
    (hdeleted : ∀ r ∈ rows, deleted r = true → p r)
    (hclosed : ∀ r ∈ rows, ∀ s ∈ rows, p s → ∀ fk ∈ schema.foreignKeys, fk.onDelete = .cascade →
      fk.refers r s = true → p r) (n : ℕ) :
    ∀ r ∈ rows, doomed schema rows deleted n r = true → p r := by
  induction n with
  | zero => exact hdeleted
  | succ n ih =>
      intro r hr h
      rcases doomed_succ.mp h with h | ⟨s, hs, hdoomed, fk, hfk, hcascade, hrefers⟩
      · exact ih r hr h
      · exact hclosed r hr s hs (ih s hs hdoomed) fk hfk hcascade hrefers

def nullified (gone : List Row) (r : Row) : Row :=
  { r with
    value := fun column =>
      if schema.foreignKeys.any fun fk => fk.onDelete = .setNull && fk.column = column &&
        gone.any (fk.refers r ·) then none
      else r.value column }

theorem mapM_of_mapM {α β : Type} {f g : α → Option β} (hfg : ∀ a b, f a = some b → g a = some b)
    {l : List α} {values : List β} (h : l.mapM f = some values) : l.mapM g = some values := by
  induction l generalizing values with
  | nil => simpa using h
  | cons a l ih =>
      simp only [List.mapM_cons, Option.bind_eq_bind, Option.bind_eq_some_iff, Option.pure_def,
        Option.some.injEq] at h ⊢
      obtain ⟨b, hb, rest, hrest, rfl⟩ := h
      exact ⟨b, hfg a b hb, rest, ih hrest, rfl⟩

theorem value_of_nullified {gone : List Row} {r : Row} {column : String} {v : ℕ}
    (h : (nullified schema gone r).value column = some v) : r.value column = some v := by
  simp only [nullified] at h
  split at h
  · cases h
  · exact h

theorem keys_nullified (gone : List Row) (r : Row) :
    (nullified schema gone r).keys schema ⊆ r.keys schema := by
  intro k hk
  cases k with
  | id table n => simpa [Row.keys, nullified] using hk
  | unique table columns values =>
      obtain ⟨hmem, ht, hv⟩ := unique_mem_keys.mp hk
      refine unique_mem_keys.mpr ⟨hmem, ht, ?_⟩
      exact mapM_of_mapM (fun column v => value_of_nullified schema) hv

variable {schema}

/-- `DELETE FROM …`, which fails where a row that stays refers to one that goes by a key
that restricts it. -/
def delete (db : Db schema) (deleted : Row → Bool) : Option (Db schema) :=
  let gone := db.rows.filter (doomed schema db.rows deleted db.rows.length)
  let kept := db.deleteWhere (doomed schema db.rows deleted db.rows.length)
  if kept.rows.any fun r => gone.any fun s =>
      schema.foreignKeys.any fun fk => fk.onDelete = .restrict && fk.refers r s then none
  else some (kept.shrink (nullified schema gone) (keys_nullified schema gone))

theorem mem_delete {db db' : Db schema} {deleted : Row → Bool} (h : delete db deleted = some db')
    {r' : Row} :
    r' ∈ db'.rows ↔ ∃ r ∈ db.rows, doomed schema db.rows deleted db.rows.length r = false ∧
      nullified schema (db.rows.filter (doomed schema db.rows deleted db.rows.length)) r = r' := by
  unfold delete at h
  dsimp only at h
  split at h
  · cases h
  · rw [← Option.some.inj h]
    simp only [Table.shrink, List.mem_map, Table.mem_deleteWhere, and_assoc]

theorem value_nullified {gone : List Row} {r : Row} {column : String}
    (h : ∀ fk ∈ schema.foreignKeys, fk.onDelete = .setNull → fk.column = column →
      ∀ s ∈ gone, fk.refers r s = false) :
    (nullified schema gone r).value column = r.value column := by
  simp only [nullified]
  rw [if_neg]
  simp only [List.any_eq_true, Bool.and_eq_true, decide_eq_true_eq, not_exists]
  rintro fk ⟨hfk, ⟨hnull, hcolumn⟩, s, hs, hrefers⟩
  rw [h fk hfk hnull hcolumn s hs] at hrefers
  cases hrefers

end Deletion
end Eunha.Relational
