import Mathlib.Data.List.Sort

/-!
# The first rows of a query, of which some are shown

A query takes the first rows in an order, and some of them are then shown. Leaving rows out
of the query beforehand changes what is shown in two ways: they may be missing, and others
come within the limit in their place.
-/
namespace Eunha.Pages

variable {α : Type*}

/-- Of the rows, those a condition rules out are not shown, nor is what comes within the
limit without them. -/
structure Undisturbed (limit : ℕ) (shown kept : α → Bool) (rows : List α) : Prop where
  missing : ∀ x ∈ rows.take limit, shown x = true → kept x = true
  extra : ∀ x ∈ ((rows.filter kept).take limit).drop ((rows.take limit).countP kept),
    shown x = false

variable {limit : ℕ} {shown kept : α → Bool} {rows : List α}

theorem take_filter_eq (limit : ℕ) (kept : α → Bool) (rows : List α) :
    (rows.filter kept).take limit = (rows.take limit).filter kept ++
      ((rows.filter kept).take limit).drop ((rows.take limit).countP kept) := by
  have hsplit : rows.filter kept =
      (rows.take limit).filter kept ++ (rows.drop limit).filter kept := by
    rw [← List.filter_append, List.take_append_drop]
  have hprefix : (rows.take limit).filter kept <+: (rows.filter kept).take limit := by
    rw [List.prefix_take_iff]
    refine ⟨⟨_, hsplit.symm⟩, (List.length_filter_le _ _).trans ?_⟩
    exact List.length_take_le _ _
  obtain ⟨rest, hrest⟩ := hprefix
  rw [← hrest, List.countP_eq_length_filter, List.drop_left]

theorem shown_take_filter (h : Undisturbed limit shown kept rows) :
    ((rows.filter kept).take limit).filter shown = (rows.take limit).filter shown := by
  have hextra : (((rows.filter kept).take limit).drop ((rows.take limit).countP kept)).filter
      shown = [] := by
    rw [List.filter_eq_nil_iff]
    intro x hx
    rw [h.extra x hx]
    decide
  rw [take_filter_eq, List.filter_append, hextra, List.append_nil, List.filter_filter]
  refine List.filter_congr fun x hx => ?_
  cases hx' : shown x with
  | false => rfl
  | true => rw [h.missing x hx hx']; rfl

theorem undisturbed_of_length
    (hkept : ∀ x ∈ rows.take limit, shown x = true → kept x = true)
    (hlength : (((rows.filter kept).take limit).filter shown).length =
      ((rows.take limit).filter shown).length) :
    Undisturbed limit shown kept rows where
  missing := hkept
  extra x hx := by
    have hsame : ((rows.take limit).filter kept).filter shown = (rows.take limit).filter shown := by
      rw [List.filter_filter]
      refine List.filter_congr fun y hy => ?_
      cases hy' : shown y with
      | false => rfl
      | true => rw [hkept y hy hy']; rfl
    rw [take_filter_eq, List.filter_append, hsame, List.length_append] at hlength
    have hnone := List.length_eq_zero_iff.mp (Nat.add_eq_left.mp hlength)
    have hnot := List.filter_eq_nil_iff.mp hnone x hx
    simpa using hnot

theorem shown_take_filter_iff :
    ((rows.filter kept).take limit).filter shown = (rows.take limit).filter shown ↔
      Undisturbed limit shown kept rows := by
  refine ⟨fun h => undisturbed_of_length (fun x hx hshown => ?_) (congrArg List.length h),
    shown_take_filter⟩
  have hx' : x ∈ ((rows.filter kept).take limit).filter shown :=
    h ▸ List.mem_filter.mpr ⟨hx, hshown⟩
  exact (List.mem_filter.mp (List.mem_of_mem_take (List.mem_filter.mp hx').1)).2

theorem mergeSort_filter {le : α → α → Bool} (rows : List α) (kept : α → Bool)
    (htrans : ∀ a b c, le a b = true → le b c = true → le a c = true)
    (htotal : ∀ a b, (le a b || le b a) = true)
    (hantisymm : ∀ a ∈ rows, ∀ b ∈ rows, le a b = true → le b a = true → a = b) :
    (rows.filter kept).mergeSort le = (rows.mergeSort le).filter kept := by
  have hperm : ((rows.filter kept).mergeSort le).Perm ((rows.mergeSort le).filter kept) :=
    (List.mergeSort_perm _ _).trans ((List.mergeSort_perm rows le).symm.filter kept)
  refine List.Perm.eq_of_pairwise ?_
    (List.pairwise_mergeSort htrans htotal _)
    ((List.pairwise_mergeSort htrans htotal rows).filter kept) hperm
  intro a b ha hb hab hba
  rw [List.mem_mergeSort, List.mem_filter] at ha
  rw [List.mem_filter, List.mem_mergeSort] at hb
  exact hantisymm a ha.1 b hb.1 hab hba

end Eunha.Pages
