import Eunha.AccountMerging

/-!
# What a merge keeps

Merging a duplicate into an account is meant to lose nothing: what referred to the duplicate
refers to the account, but for rows the account has the like of. It does where every column
a row refers to the duplicate by is one of the merged ones, no row is refused for a reason of
its own, no two rows of the duplicate become one, nobody follows, blocks or mutes the other
of the two, and nothing hangs on a row the account has the like of. Reports about the
duplicate and replies to it are among what is lost, for their columns are not merged.
-/
namespace Eunha.AccountMerging
open Tables Relational

section
variable (schema : Schema) (others : List (String × String))

def accountColumns : List (String × String) :=
  mergedColumns ++ (schema.foreignKeys.filter (·.target = "accounts")).map
    (fun fk => (fk.table, fk.column)) ++ others

def RefersTo (account : ℕ) (r : Row) : Prop :=
  ∃ column, (r.table, column) ∈ accountColumns schema others ∧ r.value column = some account

def moved (account duplicate : ℕ) (r : Row) : Row :=
  { r with
    value := fun column =>
      if (r.table, column) ∈ accountColumns schema others ∧ r.value column = some duplicate
      then some account else r.value column }

variable {schema} in
def Excepted (db : Db schema) (account duplicate : ℕ) (r : Row) : Prop :=
  RefersTo schema others duplicate r ∧ ∃ s ∈ db.rows, ¬ RefersTo schema others duplicate s ∧
    Clash (Row.keys schema) (moved schema others account duplicate r) s

def linkTables : List String := ["follows", "blocks", "mutes"]

def IsSelfLink (account : ℕ) (r : Row) : Prop :=
  r.table ∈ linkTables ∧ r.value "account_id" = some account ∧
    r.value "target_account_id" = some account

variable {schema} in
/-- Nothing is lost, nothing else changes, and the account has nothing against itself. -/
structure Kept (db db' : Db schema) (account duplicate : ℕ) : Prop where
  rows : ∀ r ∈ db.rows, RefersTo schema others duplicate r → isAccount duplicate r = false →
    Excepted others db account duplicate r ∨
      ∃ r' ∈ db'.rows, r'.table = r.table ∧ r'.id = r.id ∧
        ∀ column, (r.table, column) ∈ accountColumns schema others →
          r.value column = some duplicate → r'.value column = some account
  rest : ∀ r ∈ db.rows, ¬ RefersTo schema others duplicate r → isAccount duplicate r = false →
    r ∈ db'.rows
  noSelf : ∀ r' ∈ db'.rows, IsSelfLink account r' →
    ∃ r ∈ db.rows, r.table = r'.table ∧ IsSelfLink account r

variable {schema} in
def Contested (db : Db schema) (account duplicate : ℕ) (table : String) : Prop :=
  ∃ r ∈ db.rows, ∃ s ∈ db.rows, r ≠ s ∧ r.table = table ∧ Clash (Row.keys schema)
    (moved schema others account duplicate r) (moved schema others account duplicate s)

def Hangs (account duplicate : ℕ) (fk : ForeignKey) (r s : Row) : Prop :=
  fk.refers r s = true ∨ fk.refers (moved schema others account duplicate r) s = true

variable {schema} in
def Goes (db : Db schema) (account duplicate : ℕ) (r : Row) : Prop :=
  isAccount duplicate r = true ∨ Excepted others db account duplicate r

variable {schema} in
structure Ready (fails : Failures) (db : Db schema) (account duplicate : ℕ) : Prop where
  /-- It refers to the duplicate by columns that are merged. -/
  merged : ∀ r ∈ db.rows, ¬ Goes others db account duplicate r → ∀ column,
    (r.table, column) ∈ accountColumns schema others → r.value column = some duplicate →
      (r.table, column) ∈ mergedColumns
  /-- It is refused for no reason of its own, where it has to be moved on its own. -/
  moves : ∀ r ∈ db.rows, ¬ Goes others db account duplicate r → ∀ column,
    (r.table, column) ∈ mergedColumns → r.value column = some duplicate →
      fails.row r.table column r.id = true →
        fails.whole r.table column = false ∧ ¬ Contested others db account duplicate r.table
  /-- No other row of the duplicate's becomes what it becomes. -/
  apart : ∀ r ∈ db.rows, ¬ Goes others db account duplicate r →
    RefersTo schema others duplicate r → ∀ s ∈ db.rows, RefersTo schema others duplicate s →
      Clash (Row.keys schema) (moved schema others account duplicate r)
        (moved schema others account duplicate s) → s = r
  /-- It is no link between the two. -/
  noLink : ∀ r ∈ db.rows, RefersTo schema others duplicate r →
    IsSelfLink account (moved schema others account duplicate r) →
      ∃ s ∈ db.rows, s.table = r.table ∧ IsSelfLink account s
  /-- It hangs on no row that goes. -/
  noneHangs : ∀ s ∈ db.rows, Excepted others db account duplicate s → ∀ r ∈ db.rows,
    ¬ Goes others db account duplicate r → ∀ fk ∈ schema.foreignKeys,
      Hangs schema others account duplicate fk r s → fk.onDelete ≠ .cascade ∧
        (fk.onDelete = .setNull → RefersTo schema others duplicate r ∧
          ((r.table, fk.column) ∈ accountColumns schema others →
            r.value fk.column ≠ some duplicate))

end

/-! ### How far a row has come -/

section
variable {schema : Schema} {others : List (String × String)} {account duplicate : ℕ}

theorem mem_accountColumns_of_merged {c : String × String} (h : c ∈ mergedColumns) :
    c ∈ accountColumns schema others :=
  List.mem_append_left _ (List.mem_append_left _ h)

theorem mem_accountColumns_of_key {fk : ForeignKey} (h : fk ∈ schema.foreignKeys)
    (ht : fk.target = "accounts") : (fk.table, fk.column) ∈ accountColumns schema others := by
  refine List.mem_append_left _ (List.mem_append_right _ ?_)
  exact List.mem_map.mpr ⟨fk, List.mem_filter.mpr ⟨h, by simpa using ht⟩, rfl⟩

structure PartlyMoved (account duplicate : ℕ) (r r' : Row) : Prop where
  table : r'.table = r.table
  id : r'.id = r.id
  value : ∀ column, r'.value column = r.value column ∨
    (r.table, column) ∈ mergedColumns ∧ r.value column = some duplicate ∧
      r'.value column = some account

theorem PartlyMoved.refl (r : Row) : PartlyMoved account duplicate r r :=
  ⟨rfl, rfl, fun _ => .inl rfl⟩

theorem PartlyMoved.set {r r' : Row} (h : PartlyMoved account duplicate r r') {column : String}
    (hmerged : (r.table, column) ∈ mergedColumns) (hv : r.value column = some duplicate) :
    PartlyMoved account duplicate r (r'.set column account) := by
  refine ⟨h.table, h.id, fun c => ?_⟩
  by_cases hc : c = column
  · subst hc
    exact .inr ⟨hmerged, hv, Function.update_self ..⟩
  · have hother : (r'.set column account).value c = r'.value c := Function.update_of_ne hc ..
    rw [hother]
    exact h.value c

theorem PartlyMoved.was {r r' : Row} (h : PartlyMoved account duplicate r r')
    {column : String} (hv : r'.value column = some duplicate) :
    r.value column = some duplicate := by
  rcases h.value column with hsame | ⟨-, hwas, -⟩
  · rw [← hsame, hv]
  · exact hwas

theorem PartlyMoved.of_not_refersTo {r r' : Row} (h : PartlyMoved account duplicate r r')
    (hnot : ¬ RefersTo schema others duplicate r) : r' = r := by
  have hvalue : r'.value = r.value := by
    funext column
    rcases h.value column with hsame | ⟨hmerged, hwas, -⟩
    · exact hsame
    · exact absurd ⟨column, mem_accountColumns_of_merged hmerged, hwas⟩ hnot
  exact Row.ext h.table h.id hvalue

theorem moved_of_not_refersTo {r : Row} (hnot : ¬ RefersTo schema others duplicate r) :
    moved schema others account duplicate r = r := by
  have hvalue (column : String) :
      (moved schema others account duplicate r).value column = r.value column :=
    if_neg fun h => hnot ⟨column, h⟩
  exact Row.ext rfl rfl (funext hvalue)

variable (others) in
theorem PartlyMoved.moved_eq {r r' : Row} (h : PartlyMoved account duplicate r r') :
    moved schema others account duplicate r' = moved schema others account duplicate r := by
  have hvalue (column : String) : (moved schema others account duplicate r').value column =
      (moved schema others account duplicate r).value column := by
    simp only [moved, h.table]
    rcases h.value column with hsame | ⟨hmerged, hwas, hnow⟩
    · rw [hsame]
    · rw [hnow, ite_self, if_pos ⟨mem_accountColumns_of_merged hmerged, hwas⟩]
  exact Row.ext h.table h.id (funext hvalue)

theorem PartlyMoved.moved_of_now {r r' : Row} (h : PartlyMoved account duplicate r r')
    {column : String} (hnow : r'.value column = some account) :
    (moved schema others account duplicate r).value column = some account := by
  simp only [moved]
  rcases h.value column with hsame | ⟨hmerged, hwas, -⟩
  · rw [← hsame, hnow, ite_self]
  · exact if_pos ⟨mem_accountColumns_of_merged hmerged, hwas⟩

theorem clash_moved {r s : Row} (h : Clash (Row.keys schema) r s) :
    Clash (Row.keys schema) (moved schema others account duplicate r)
      (moved schema others account duplicate s) := by
  refine clash_of_values (r := r) (s := s) rfl rfl rfl rfl (fun ht column v hr hs => ?_) h
  simp only [moved, hr, hs, ht]
  split
  · exact ⟨account, rfl, rfl⟩
  · exact ⟨v, rfl, rfl⟩

/-! ### How far a state has come -/

/-- Every row is on its way, and those that do not go have these columns moved. -/
def Tracks (others : List (String × String)) (account duplicate : ℕ)
    (done : Row → String → Prop) (db cur : Db schema) : Prop :=
  ∃ f : Row → Row, cur.rows = db.rows.map f ∧ ∀ r ∈ db.rows,
    PartlyMoved account duplicate r (f r) ∧ (¬ Goes others db account duplicate r →
      ∀ column, done r column → r.value column = some duplicate →
        (f r).value column = some account)

theorem tracks_start (db : Db schema) :
    Tracks others account duplicate (fun _ _ => False) db db :=
  ⟨id, by simp, fun r _ => ⟨.refl r, fun _ _ h => h.elim⟩⟩

variable {db cur cur' : Db schema} {done done' : Row → String → Prop}

theorem Tracks.weaken (h : Tracks others account duplicate done db cur)
    (hdone : ∀ r ∈ db.rows, ¬ Goes others db account duplicate r → ∀ column,
      r.value column = some duplicate → done' r column → done r column) :
    Tracks others account duplicate done' db cur := by
  obtain ⟨f, hrows, hf⟩ := h
  refine ⟨f, hrows, fun r hr => ⟨(hf r hr).1, fun hgoes column hd hv => ?_⟩⟩
  exact (hf r hr).2 hgoes column (hdone r hr hgoes column hv hd) hv

theorem Tracks.set (h : Tracks others account duplicate done db cur) {p : Row → Bool}
    {table column : String} (hmerged : (table, column) ∈ mergedColumns)
    (hp : ∀ r ∈ db.rows, ∀ r', PartlyMoved account duplicate r r' → p r' = true →
      r.table = table ∧ r.value column = some duplicate)
    (hrows : cur'.rows = cur.rows.map fun r => if p r then r.set column account else r)
    (hdone : ∀ r ∈ db.rows, ∀ r', PartlyMoved account duplicate r r' → ∀ c, done' r c →
      r.value c = some duplicate →
        done r c ∨ c = column ∧ (p r' = true ∨ r'.value c = some account)) :
    Tracks others account duplicate done' db cur' := by
  obtain ⟨f, hcur, hf⟩ := h
  refine ⟨fun r => if p (f r) then (f r).set column account else f r, ?_, fun r hr => ?_⟩
  · rw [hrows, hcur, List.map_map]
    rfl
  · obtain ⟨hpartly, hmoved⟩ := hf r hr
    dsimp only
    split
    next hpr =>
      obtain ⟨ht, hv⟩ := hp r hr (f r) hpartly hpr
      refine ⟨hpartly.set (ht ▸ hmerged) hv, fun hgoes c hd hvc => ?_⟩
      by_cases hc : c = column
      · subst hc
        exact Function.update_self ..
      · rw [show ((f r).set column account).value c = (f r).value c from
          Function.update_of_ne hc ..]
        rcases hdone r hr (f r) hpartly c hd hvc with hd | ⟨hc', -⟩
        · exact hmoved hgoes c hd hvc
        · exact absurd hc' hc
    next hpr =>
      refine ⟨hpartly, fun hgoes c hd hvc => ?_⟩
      rcases hdone r hr (f r) hpartly c hd hvc with hd | ⟨-, hset | hset⟩
      · exact hmoved hgoes c hd hvc
      · exact absurd hset hpr
      · exact hset

variable (others) in
theorem PartlyMoved.clash {r r' s s' : Row} (hr : PartlyMoved account duplicate r r')
    (hs : PartlyMoved account duplicate s s') (h : Clash (Row.keys schema) r' s') :
    Clash (Row.keys schema) (moved schema others account duplicate r)
      (moved schema others account duplicate s) := by
  rw [← hr.moved_eq others, ← hs.moved_eq others]
  exact clash_moved h

theorem mem_of_tracks {f : Row → Row} (hcur : cur.rows = db.rows.map f) {r : Row}
    (hr : r ∈ db.rows) : f r ∈ cur.rows := by
  rw [hcur]
  exact List.mem_map_of_mem hr

theorem moveColumn_of_not_contested (h : Tracks others account duplicate done db cur)
    {table column : String} (hmerged : (table, column) ∈ mergedColumns)
    (hfree : ¬ Contested others db account duplicate table) :
    moveColumn cur table column account duplicate ≠ none := by
  intro hnone
  obtain ⟨f, hcur, hf⟩ := h
  obtain ⟨r', hr', s', hs', hrs, hclash⟩ := Table.exists_ne_of_update? (keys_ne_nil schema) hnone
  simp only [Bool.and_eq_true, decide_eq_true_eq] at hclash
  rw [hcur] at hr' hs'
  obtain ⟨r, hr, rfl⟩ := List.mem_map.mp hr'
  obtain ⟨s, hs, rfl⟩ := List.mem_map.mp hs'
  have hset (q : Row) (hq : q ∈ db.rows) : PartlyMoved account duplicate q
      (if (f q).table = table ∧ (f q).value column = some duplicate
        then (f q).set column account else f q) := by
    split
    next hmoves =>
      exact (hf q hq).1.set (by rw [← (hf q hq).1.table, hmoves.1]; exact hmerged)
        ((hf q hq).1.was hmoves.2)
    next => exact (hf q hq).1
  have htables : r.table = s.table := by
    rw [← (hset r hr).table, ← (hset s hs).table]
    exact table_of_clash hclash
  by_cases ht : r.table = table
  · refine hfree ⟨r, hr, s, hs, fun heq => hrs (congrArg f heq), ht, ?_⟩
    exact (hset r hr).clash _ (hset s hs) hclash
  · rw [if_neg (fun hm => ht ((hf r hr).1.table ▸ hm.1)),
      if_neg (fun hm => ht (htables.trans ((hf s hs).1.table ▸ hm.1)))] at hclash
    exact hrs (cur.eq_of_clash (mem_of_tracks hcur hr) (mem_of_tracks hcur hs) hclash)

theorem moveRow_of_ready {fails : Failures} (hready : Ready others fails db account duplicate)
    (h : Tracks others account duplicate done db cur) {table column : String}
    (hmerged : (table, column) ∈ mergedColumns) {r : Row} (hr : r ∈ db.rows)
    (ht : r.table = table) (hv : r.value column = some duplicate)
    (hgoes : ¬ Goes others db account duplicate r) :
    moveRow cur table column account r.id ≠ none := by
  intro hnone
  obtain ⟨f, hcur, hf⟩ := h
  have honly : ∀ s' ∈ cur.rows, decide (s'.table = table ∧ s'.id = r.id) = true → s' = f r := by
    intro s' hs' hp
    rw [decide_eq_true_eq] at hp
    exact eq_of_id cur hs' (mem_of_tracks hcur hr) (by rw [hp.1, (hf r hr).1.table, ht])
      (by rw [hp.2, (hf r hr).1.id])
  obtain ⟨s', hs', hother, hclash⟩ := Table.exists_clash_of_update?
    (f := fun s => s.set column account) (keys_ne_nil schema) honly (by simpa [moveRow] using hnone)
  rw [hcur] at hs'
  obtain ⟨s, hs, rfl⟩ := List.mem_map.mp hs'
  have hapart : s ≠ r := by
    rintro rfl
    rw [decide_eq_false_iff_not] at hother
    exact hother ⟨(hf s hr).1.table.trans ht, (hf s hr).1.id⟩
  have hmoved := ((hf r hr).1.set (ht ▸ hmerged) hv).clash others (hf s hs).1 hclash
  have hrefers : RefersTo schema others duplicate r :=
    ⟨column, mem_accountColumns_of_merged (ht ▸ hmerged), hv⟩
  by_cases hs' : RefersTo schema others duplicate s
  · exact hapart (hready.apart r hr hgoes hrefers s hs hs' hmoved)
  · rw [moved_of_not_refersTo hs'] at hmoved
    exact hgoes (.inr ⟨hrefers, s, hs, hs', hmoved⟩)

def AndRows (done : Row → String → Prop) (table column : String) (ids : List ℕ) (r : Row)
    (c : String) : Prop :=
  done r c ∨ r.table = table ∧ c = column ∧ r.id ∈ ids

theorem tracks_moveRowOr {fails : Failures} (hready : Ready others fails db account duplicate)
    (h : Tracks others account duplicate done db cur) {table column : String}
    (hmerged : (table, column) ∈ mergedColumns)
    (halone : fails.whole table column = true ∨ Contested others db account duplicate table)
    {id : ℕ} (hid : ∀ r ∈ db.rows, r.table = table → r.id = id →
      r.value column = some duplicate) :
    Tracks others account duplicate (AndRows done table column [id]) db
      (moveRowOr fails table column account cur id) := by
  unfold moveRowOr
  split
  next hfails =>
    refine h.weaken fun r hr hgoes c hv hd => hd.resolve_right ?_
    rintro ⟨rfl, rfl, hmem⟩
    rw [← List.mem_singleton.mp hmem] at hfails
    obtain ⟨hwhole, hfree⟩ := hready.moves r hr hgoes c hmerged hv hfails
    rcases halone with hw | hcontested
    · rw [hwhole] at hw
      cases hw
    · exact hfree hcontested
  next =>
    cases hmove : moveRow cur table column account id with
    | none =>
        refine h.weaken fun r hr hgoes c hv hd => hd.resolve_right ?_
        rintro ⟨ht, rfl, hmem⟩
        rw [← List.mem_singleton.mp hmem] at hmove
        exact moveRow_of_ready hready h hmerged hr ht hv hgoes hmove
    | some cur' =>
        refine h.set hmerged ?_ (Table.rows_update? hmove) ?_
        · intro r hr r' hpartly hp
          simp only [Bool.and_eq_true, decide_eq_true_eq] at hp
          have ht := hpartly.table.symm.trans hp.1
          exact ⟨ht, hid r hr ht (hpartly.id.symm.trans hp.2)⟩
        · rintro r hr r' hpartly c (hd | ⟨ht, rfl, hmem⟩) hv
          · exact .inl hd
          · refine .inr ⟨rfl, .inl ?_⟩
            simp [hpartly.table, hpartly.id, ht, List.mem_singleton.mp hmem]

theorem tracks_rows {fails : Failures} (hready : Ready others fails db account duplicate)
    {table column : String} (hmerged : (table, column) ∈ mergedColumns)
    (halone : fails.whole table column = true ∨ Contested others db account duplicate table)
    (ids : List ℕ) (hids : ∀ id ∈ ids, ∀ r ∈ db.rows, r.table = table → r.id = id →
      r.value column = some duplicate)
    (h : Tracks others account duplicate done db cur) :
    Tracks others account duplicate (AndRows done table column ids) db
      (ids.foldl (moveRowOr fails table column account) cur) := by
  induction ids generalizing cur done with
  | nil => exact h.weaken fun r _ _ c _ hd => hd.resolve_right fun hmem => nomatch hmem.2.2
  | cons id ids ih =>
      have hone := tracks_moveRowOr hready h hmerged halone (hids id (List.mem_cons_self ..))
      refine (ih (fun n hn => hids n (List.mem_cons_of_mem _ hn)) hone).weaken ?_
      rintro r - - c - (hd | ⟨ht, hc, hmem⟩)
      · exact .inl (.inl hd)
      · rcases List.mem_cons.mp hmem with hid | hrest
        · exact .inl (.inr ⟨ht, hc, List.mem_singleton.mpr hid⟩)
        · exact .inr ⟨ht, hc, hrest⟩

theorem tracks_mergeColumn {fails : Failures} (hready : Ready others fails db account duplicate)
    {table column : String} (hmerged : (table, column) ∈ mergedColumns)
    (h : Tracks others account duplicate done db cur)
    (hstep : mergeColumn fails account duplicate cur (table, column) = some cur') :
    Tracks others account duplicate (fun r c => done r c ∨ (r.table, c) = (table, column)) db
      cur' := by
  unfold mergeColumn at hstep
  dsimp only at hstep
  split at hstep
  next moved hmove =>
    obtain rfl := Option.some.inj hstep
    split at hmove
    · cases hmove
    refine h.set hmerged ?_ (Table.rows_update? hmove) ?_
    · intro r hr r' hpartly hp
      simp only [Bool.and_eq_true, decide_eq_true_eq] at hp
      exact ⟨hpartly.table.symm.trans hp.1, hpartly.was hp.2⟩
    · rintro r hr r' hpartly c (hd | hc) hv
      · exact .inl hd
      · obtain ⟨ht, rfl⟩ := Prod.mk.inj hc
        refine .inr ⟨rfl, ?_⟩
        rcases hpartly.value c with hsame | ⟨-, -, hnow⟩
        · exact .inl (by simp [hpartly.table, ht, hsame, hv])
        · exact .inr hnow
  next hmove =>
    split at hstep
    · cases hstep
    obtain rfl := Option.some.inj hstep
    have halone : fails.whole table column = true ∨
        Contested others db account duplicate table := by
      split at hmove
      next hwhole => exact .inl hwhole
      next =>
        refine .inr ?_
        by_contra hfree
        exact moveColumn_of_not_contested h hmerged hfree hmove
    have hids : ∀ id ∈ idsOf cur table column duplicate, ∀ r ∈ db.rows, r.table = table →
        r.id = id → r.value column = some duplicate := by
      obtain ⟨f, hcur, hf⟩ := h
      intro id hid r hr ht hrid
      obtain ⟨r', hr', rfl⟩ := List.mem_map.mp hid
      rw [List.mem_filter, Bool.and_eq_true, decide_eq_true_eq, decide_eq_true_eq] at hr'
      obtain ⟨hmem, ht', hv⟩ := hr'
      have heq : f r = r' := eq_of_id cur (mem_of_tracks hcur hr) hmem
        (by rw [(hf r hr).1.table, ht, ht']) (by rw [(hf r hr).1.id, hrid])
      exact (hf r hr).1.was (heq ▸ hv)
    -- A row whose id is not selected has had its column moved already.
    have hleft : Tracks others account duplicate (fun r c => done r c ∨
        r.table = table ∧ c = column ∧ r.id ∉ idsOf cur table column duplicate) db cur := by
      obtain ⟨f, hcur, hf⟩ := h
      refine ⟨f, hcur, fun r hr => ⟨(hf r hr).1, ?_⟩⟩
      rintro hgoes c (hd | ⟨ht, rfl, hnot⟩) hv
      · exact (hf r hr).2 hgoes c hd hv
      · rcases (hf r hr).1.value c with hsame | ⟨-, -, hnow⟩
        · refine absurd (List.mem_map.mpr ⟨f r, ?_, (hf r hr).1.id⟩) hnot
          refine List.mem_filter.mpr ⟨mem_of_tracks hcur hr, ?_⟩
          simp [(hf r hr).1.table, ht, hsame, hv]
        · exact hnow
    refine (tracks_rows hready hmerged halone _ hids hleft).weaken ?_
    rintro r - - c - (hd | hc)
    · exact .inl (.inl hd)
    · obtain ⟨ht, rfl⟩ := Prod.mk.inj hc
      by_cases hmem : r.id ∈ idsOf cur table c duplicate
      · exact .inr ⟨ht, rfl, hmem⟩
      · exact .inl (.inr ⟨ht, rfl, hmem⟩)

theorem tracks_mergeColumns {fails : Failures} (hready : Ready others fails db account duplicate)
    {columns : List (String × String)} (hmerged : ∀ c ∈ columns, c ∈ mergedColumns)
    (h : Tracks others account duplicate done db cur)
    (hrun : columns.foldlM (mergeColumn fails account duplicate) cur = some cur') :
    Tracks others account duplicate (fun r c => done r c ∨ (r.table, c) ∈ columns) db cur' := by
  induction columns generalizing cur done with
  | nil =>
      obtain rfl := Option.some.inj hrun
      exact h.weaken fun r _ _ c _ hd => hd.resolve_right (List.not_mem_nil)
  | cons column columns ih =>
      rw [List.foldlM_cons, Option.bind_eq_bind, Option.bind_eq_some_iff] at hrun
      obtain ⟨next, hstep, hrest⟩ := hrun
      have hone := tracks_mergeColumn hready (hmerged column (List.mem_cons_self ..)) h hstep
      refine (ih (fun c hc => hmerged c (List.mem_cons_of_mem _ hc)) hone hrest).weaken ?_
      rintro r - - c - (hd | hmem)
      · exact .inl (.inl hd)
      · rcases List.mem_cons.mp hmem with heq | hmem
        · exact .inl (.inr heq)
        · exact .inr hmem

/-! ### What the deletion takes -/

theorem not_refers_of_ready {fails : Failures} (hready : Ready others fails db account duplicate)
    (hne : account ≠ duplicate) {r r' : Row} (hr : r ∈ db.rows)
    (hpartly : PartlyMoved account duplicate r r')
    (hmoved : ∀ column, (r.table, column) ∈ mergedColumns → r.value column = some duplicate →
      r'.value column = some account)
    (hgoes : ¬ Goes others db account duplicate r) {fk : ForeignKey}
    (hfk : fk ∈ schema.foreignKeys) {s : Row} (hs : isAccount duplicate s = true) :
    fk.refers r' s = false := by
  rw [← Bool.not_eq_true]
  intro hrefers
  simp only [isAccount, Bool.and_eq_true, decide_eq_true_eq] at hs
  obtain ⟨ht, htarget, hv⟩ := ForeignKey.refers_iff.mp hrefers
  rw [hs.2] at hv
  have hcolumn : (r.table, fk.column) ∈ accountColumns schema others := by
    rw [← hpartly.table, ht]
    exact mem_accountColumns_of_key hfk (htarget.symm.trans hs.1)
  have hwas := hpartly.was hv
  have hnow := hmoved _ (hready.merged r hr hgoes _ hcolumn hwas) hwas
  rw [hv] at hnow
  exact hne (Option.some.inj hnow).symm

theorem hangs_of_refers {r r' s s' : Row} (hr : PartlyMoved account duplicate r r')
    (hs : PartlyMoved account duplicate s s') {fk : ForeignKey} (h : fk.refers r' s' = true) :
    Hangs schema others account duplicate fk r s := by
  obtain ⟨ht, htarget, hv⟩ := ForeignKey.refers_iff.mp h
  rw [hr.table] at ht
  rw [hs.table] at htarget
  rw [hs.id] at hv
  rcases hr.value fk.column with hsame | ⟨hmerged, hwas, hnow⟩
  · exact .inl (ForeignKey.refers_iff.mpr ⟨ht, htarget, hsame ▸ hv⟩)
  · refine .inr (ForeignKey.refers_iff.mpr ⟨ht, htarget, ?_⟩)
    rw [← hv, hnow]
    exact if_pos ⟨mem_accountColumns_of_merged hmerged, hwas⟩

section Deletion
variable {fails : Failures} (hready : Ready others fails db account duplicate)
  (hne : account ≠ duplicate) {f : Row → Row} (hcur : cur.rows = db.rows.map f)
  (hf : ∀ r ∈ db.rows, PartlyMoved account duplicate r (f r) ∧
    (¬ Goes others db account duplicate r → ∀ column, (r.table, column) ∈ mergedColumns →
      r.value column = some duplicate → (f r).value column = some account))
include hready hne hcur hf

theorem goes_of_doomed (n : ℕ) {r : Row} (hr : r ∈ db.rows)
    (hdoomed : doomed schema cur.rows (isAccount duplicate) n (f r) = true) :
    Goes others db account duplicate r := by
  have hall : ∀ r' ∈ cur.rows, doomed schema cur.rows (isAccount duplicate) n r' = true →
      ∃ r ∈ db.rows, f r = r' ∧ Goes others db account duplicate r := by
    refine of_doomed schema ?_ ?_ n
    · intro r' hr' hdeleted
      rw [hcur] at hr'
      obtain ⟨r, hr, rfl⟩ := List.mem_map.mp hr'
      refine ⟨r, hr, rfl, .inl ?_⟩
      simpa [isAccount, (hf r hr).1.table, (hf r hr).1.id] using hdeleted
    · rintro r' hr' s' - ⟨s, hs, rfl, hgoes⟩ fk hfk hcascade hrefers
      rw [hcur] at hr'
      obtain ⟨r, hr, rfl⟩ := List.mem_map.mp hr'
      refine ⟨r, hr, rfl, ?_⟩
      by_contra hstays
      rcases hgoes with haccount | hexcepted
      · have hs' : isAccount duplicate (f s) = true := by
          simpa [isAccount, (hf s hs).1.table, (hf s hs).1.id] using haccount
        rw [not_refers_of_ready hready hne hr (hf r hr).1 ((hf r hr).2 hstays) hstays hfk hs']
          at hrefers
        cases hrefers
      · exact (hready.noneHangs s hs hexcepted r hr hstays fk hfk
          (hangs_of_refers (hf r hr).1 (hf s hs).1 hrefers)).1 hcascade
  obtain ⟨r₂, hr₂, heq, hgoes⟩ := hall (f r) (mem_of_tracks hcur hr) hdoomed
  have hsame : r₂ = r := by
    refine eq_of_id db hr₂ hr ?_ ?_
    · rw [← (hf r₂ hr₂).1.table, heq, (hf r hr).1.table]
    · rw [← (hf r₂ hr₂).1.id, heq, (hf r hr).1.id]
  exact hsame ▸ hgoes

theorem stays_of_ready {db' : Db schema} (hdelete : delete cur (isAccount duplicate) = some db')
    {r : Row} (hr : r ∈ db.rows) (hstays : ¬ Goes others db account duplicate r) :
    ∃ r' ∈ db'.rows, r'.table = r.table ∧ r'.id = r.id ∧ ∀ column,
      (RefersTo schema others duplicate r → (r.table, column) ∈ accountColumns schema others ∧
        r.value column = some duplicate) → r'.value column = (f r).value column := by
  refine ⟨_, (mem_delete hdelete).mpr ⟨f r, mem_of_tracks hcur hr, ?_, rfl⟩, (hf r hr).1.table,
    (hf r hr).1.id, fun column hcolumn => value_nullified ?_⟩
  · rw [← Bool.not_eq_true]
    exact fun hdoomed => hstays (goes_of_doomed hready hne hcur hf _ hr hdoomed)
  · rintro fk hfk hnull rfl s' hs'
    rw [List.mem_filter, hcur] at hs'
    obtain ⟨s, hs, rfl⟩ := List.mem_map.mp hs'.1
    have hgoes := goes_of_doomed hready hne hcur hf _ hs (hcur ▸ hs'.2)
    rw [← Bool.not_eq_true]
    intro hrefers
    rcases hgoes with haccount | hexcepted
    · have hs' : isAccount duplicate (f s) = true := by
        simpa [isAccount, (hf s hs).1.table, (hf s hs).1.id] using haccount
      rw [not_refers_of_ready hready hne hr (hf r hr).1 ((hf r hr).2 hstays) hstays hfk hs']
        at hrefers
      cases hrefers
    · obtain ⟨hrefersTo, hfree⟩ := (hready.noneHangs s hs hexcepted r hr hstays fk hfk
        (hangs_of_refers (hf r hr).1 (hf s hs).1 hrefers)).2 hnull
      obtain ⟨hmem, hv⟩ := hcolumn hrefersTo
      exact hfree hmem hv

end Deletion

theorem kept_of_ready {schema : Schema} {others : List (String × String)} {fails : Failures}
    {db db' : Db schema} {account duplicate : ℕ} (hne : account ≠ duplicate)
    (hready : Ready others fails db account duplicate)
    (hmerge : mergeWith fails db account duplicate = some db') :
    Kept others db db' account duplicate := by
  obtain ⟨cur, hrun, hdelete⟩ := Option.bind_eq_some_iff.mp hmerge
  split at hdelete
  · cases hdelete
  have htracks := tracks_mergeColumns hready (fun _ hc => hc) (tracks_start db) hrun
  obtain ⟨f, hcur, hf⟩ := htracks.weaken
    fun r _ _ c _ (hd : (r.table, c) ∈ mergedColumns) => .inr hd
  refine ⟨?_, ?_, ?_⟩
  · intro r hr hrefers haccount
    by_cases hexcepted : Excepted others db account duplicate r
    · exact .inl hexcepted
    · have hstays : ¬ Goes others db account duplicate r := by
        rintro (hgoes | hgoes)
        · rw [haccount] at hgoes
          cases hgoes
        · exact hexcepted hgoes
      obtain ⟨r', hr', ht, hid, hvalue⟩ := stays_of_ready hready hne hcur hf hdelete hr hstays
      refine .inr ⟨r', hr', ht, hid, fun column hcolumn hv => ?_⟩
      rw [hvalue column fun _ => ⟨hcolumn, hv⟩]
      exact (hf r hr).2 hstays column (hready.merged r hr hstays column hcolumn hv) hv
  · intro r hr hrefers haccount
    have hstays : ¬ Goes others db account duplicate r := by
      rintro (hgoes | hgoes)
      · rw [haccount] at hgoes
        cases hgoes
      · exact hrefers hgoes.1
    obtain ⟨r', hr', ht, hid, hvalue⟩ := stays_of_ready hready hne hcur hf hdelete hr hstays
    have heq : r' = r := by
      refine Row.ext ht hid (funext fun column => ?_)
      rw [hvalue column fun h => absurd h hrefers, (hf r hr).1.of_not_refersTo hrefers]
    exact heq ▸ hr'
  · intro r' hr' hself
    obtain ⟨r'', hr'', -, rfl⟩ := (mem_delete hdelete).mp hr'
    rw [hcur] at hr''
    obtain ⟨r, hr, rfl⟩ := List.mem_map.mp hr''
    have hlink : IsSelfLink account (moved schema others account duplicate r) := by
      refine ⟨(hf r hr).1.table ▸ hself.1, ?_, ?_⟩
      · exact (hf r hr).1.moved_of_now (value_of_nullified schema hself.2.1)
      · exact (hf r hr).1.moved_of_now (value_of_nullified schema hself.2.2)
    by_cases hrefers : RefersTo schema others duplicate r
    · obtain ⟨s, hs, ht, hselflink⟩ := hready.noLink r hr hrefers hlink
      exact ⟨s, hs, ht.trans (hf r hr).1.table.symm, hselflink⟩
    · rw [moved_of_not_refersTo hrefers] at hlink
      exact ⟨r, hr, (hf r hr).1.table.symm, hlink⟩

/-! ### Columns that are not merged -/

/-- Rows keep their other columns, but for what a deletion makes null. -/
def Frames (db db' : Db schema) : Prop :=
  ∀ r' ∈ db'.rows, ∃ r ∈ db.rows, r'.table = r.table ∧ r'.id = r.id ∧
    ∀ column v, (r.table, column) ∉ mergedColumns → r'.value column = some v →
      r.value column = some v

theorem Frames.refl (db : Db schema) : Frames db db :=
  fun r hr => ⟨r, hr, rfl, rfl, fun _ _ _ h => h⟩

theorem Frames.trans {db₁ db₂ db₃ : Db schema} (h₁ : Frames db₁ db₂) (h₂ : Frames db₂ db₃) :
    Frames db₁ db₃ := by
  intro r₃ hr₃
  obtain ⟨r₂, hr₂, ht₂, hid₂, hv₂⟩ := h₂ r₃ hr₃
  obtain ⟨r₁, hr₁, ht₁, hid₁, hv₁⟩ := h₁ r₂ hr₂
  refine ⟨r₁, hr₁, ht₂.trans ht₁, hid₂.trans hid₁, fun column v hnot hv => ?_⟩
  exact hv₁ column v hnot (hv₂ column v (ht₁ ▸ hnot) hv)

theorem frames_of_set {db db' : Db schema} {table column : String} {v : ℕ}
    (hmerged : (table, column) ∈ mergedColumns) {p : Row → Bool}
    (hp : ∀ r, p r = true → r.table = table)
    (hrows : db'.rows = db.rows.map fun r => if p r then r.set column v else r) :
    Frames db db' := by
  intro r' hr'
  rw [hrows] at hr'
  obtain ⟨r, hr, rfl⟩ := List.mem_map.mp hr'
  split
  next hpr =>
    refine ⟨r, hr, rfl, rfl, fun c w hnot hw => ?_⟩
    have hc : c ≠ column := fun heq => hnot (by rw [heq, hp r hpr]; exact hmerged)
    rwa [show (r.set column v).value c = r.value c from Function.update_of_ne hc ..] at hw
  next => exact ⟨r, hr, rfl, rfl, fun _ _ _ h => h⟩

theorem frames_moveRowOr {fails : Failures} {db : Db schema} {table column : String}
    (hmerged : (table, column) ∈ mergedColumns) (id : ℕ) :
    Frames db (moveRowOr fails table column account db id) := by
  unfold moveRowOr
  split
  · exact .refl db
  · cases hmove : moveRow db table column account id with
    | none => exact .refl db
    | some db' =>
        refine frames_of_set hmerged (fun r hp => ?_) (Table.rows_update? hmove)
        simp only [Bool.and_eq_true, decide_eq_true_eq] at hp
        exact hp.1

theorem frames_rows {fails : Failures} {table column : String}
    (hmerged : (table, column) ∈ mergedColumns) (ids : List ℕ) (db : Db schema) :
    Frames db (ids.foldl (moveRowOr fails table column account) db) := by
  induction ids generalizing db with
  | nil => exact .refl db
  | cons id ids ih => exact (frames_moveRowOr hmerged id).trans (ih _)

theorem frames_mergeColumn {fails : Failures} {db db' : Db schema} {table column : String}
    (hmerged : (table, column) ∈ mergedColumns)
    (hstep : mergeColumn fails account duplicate db (table, column) = some db') :
    Frames db db' := by
  unfold mergeColumn at hstep
  dsimp only at hstep
  split at hstep
  next moved hmove =>
    obtain rfl := Option.some.inj hstep
    split at hmove
    · cases hmove
    refine frames_of_set hmerged (fun r hp => ?_) (Table.rows_update? hmove)
    simp only [Bool.and_eq_true, decide_eq_true_eq] at hp
    exact hp.1
  next =>
    split at hstep
    · cases hstep
    · exact Option.some.inj hstep ▸ frames_rows hmerged _ db

theorem frames_mergeColumns {fails : Failures} {columns : List (String × String)}
    (hmerged : ∀ c ∈ columns, c ∈ mergedColumns) {db db' : Db schema}
    (hrun : columns.foldlM (mergeColumn fails account duplicate) db = some db') :
    Frames db db' := by
  induction columns generalizing db with
  | nil => exact Option.some.inj hrun ▸ .refl db
  | cons column columns ih =>
      rw [List.foldlM_cons, Option.bind_eq_bind, Option.bind_eq_some_iff] at hrun
      obtain ⟨next, hstep, hrest⟩ := hrun
      exact (frames_mergeColumn (hmerged column (List.mem_cons_self ..)) hstep).trans
        (ih (fun c hc => hmerged c (List.mem_cons_of_mem _ hc)) hrest)

theorem frames_delete {db db' : Db schema} {deleted : Row → Bool}
    (h : delete db deleted = some db') : Frames db db' := by
  intro r' hr'
  obtain ⟨r, hr, -, rfl⟩ := (mem_delete h).mp hr'
  exact ⟨r, hr, rfl, rfl, fun _ _ _ hv => value_of_nullified schema hv⟩

theorem merged_of_kept {fails : Failures} {db db' : Db schema} (hne : account ≠ duplicate)
    (hmerge : mergeWith fails db account duplicate = some db')
    (hkept : Kept others db db' account duplicate) {r : Row} (hr : r ∈ db.rows)
    (hstays : ¬ Goes others db account duplicate r) {column : String}
    (hcolumn : (r.table, column) ∈ accountColumns schema others)
    (hv : r.value column = some duplicate) : (r.table, column) ∈ mergedColumns := by
  obtain ⟨cur, hrun, hdelete⟩ := Option.bind_eq_some_iff.mp hmerge
  split at hdelete
  · cases hdelete
  have haccount : isAccount duplicate r = false := by
    rw [← Bool.not_eq_true]
    exact fun haccount => hstays (.inl haccount)
  obtain ⟨r', hr', ht, hid, hnow⟩ := (hkept.rows r hr ⟨column, hcolumn, hv⟩ haccount).resolve_left
    fun hexcepted => hstays (.inr hexcepted)
  obtain ⟨r₂, hr₂, ht₂, hid₂, hframe⟩ :=
    ((frames_mergeColumns (fun _ hc => hc) hrun).trans (frames_delete hdelete)) r' hr'
  obtain rfl := eq_of_id db hr₂ hr (ht₂.symm.trans ht) (hid₂.symm.trans hid)
  by_contra hnot
  have hwas := hframe column account hnot (hnow column hcolumn hv)
  rw [hv] at hwas
  exact hne (Option.some.inj hwas).symm

end

def entry (table : String) (id : ℕ) (values : List (String × ℕ)) : Row :=
  ⟨table, id, fun column => values.lookup column⟩

def noFailures : Failures := ⟨fun _ _ => false, fun _ _ => false, fun _ _ _ => false, false⟩

def statusKeys : Schema := ⟨[⟨"statuses", "account_id", "accounts", .cascade⟩], []⟩

def duplicatePosted : Db statusKeys where
  rows := [entry "accounts" 1 [], entry "accounts" 2 [], entry "statuses" 5 [("account_id", 2)]]
  distinct := by decide +kernel

theorem refersTo_duplicatePosted {r : Row} (hr : r ∈ duplicatePosted.rows)
    {column : String} (hv : r.value column = some 2) :
    r = entry "statuses" 5 [("account_id", 2)] ∧ column = "account_id" := by
  simp only [duplicatePosted, List.mem_cons, List.not_mem_nil, or_false] at hr
  rcases hr with rfl | rfl | rfl
  · cases hv
  · cases hv
  · refine ⟨rfl, ?_⟩
    by_contra hother
    simp [entry, List.lookup_cons, beq_eq_false_iff_ne.mpr hother] at hv

def reportKeys : Schema :=
  ⟨[⟨"reports", "account_id", "accounts", .cascade⟩,
    ⟨"reports", "target_account_id", "accounts", .cascade⟩], []⟩

def duplicateReported : Db reportKeys where
  rows := [entry "accounts" 1 [], entry "accounts" 2 [], entry "accounts" 3 [],
    entry "reports" 9 [("account_id", 3), ("target_account_id", 2)]]
  distinct := by decide +kernel

end Eunha.AccountMerging
