import Eunha.Precedence
import Mathlib.Data.List.Dedup

/-!
# Reading many keys at once

Rows read by any of several keys and looked up by one of them are the rows of that key
alone. What is found is put in the order the keys were asked for in: a key asked for twice
has its last place, as a map from keys to places has it when a later pair replaces an
earlier one. The result is then the list of the keys, each once, with what each one finds.
-/
namespace Eunha.BatchReads
open Precedence

variable {κ ρ β : Type*} [DecidableEq κ]

/-- `WHERE key = ANY(keys)` -/
def readAny (key : ρ → κ) (keys : List κ) (rows : List ρ) : List ρ :=
  rows.filter fun r => decide (key r ∈ keys)

variable {key : ρ → κ} {keys : List κ} {k : κ} {rows : List ρ} {p : ρ → Bool}

theorem mem_readAny {r : ρ} : r ∈ readAny key keys rows ↔ r ∈ rows ∧ key r ∈ keys := by
  rw [readAny, List.mem_filter, decide_eq_true_iff]

theorem filter_readAny (h : ∀ r ∈ rows, p r = true → key r ∈ keys) :
    (readAny key keys rows).filter p = rows.filter p := by
  rw [readAny, List.filter_filter]
  apply List.filter_congr
  intro r hr
  cases hp : p r with
  | false => rfl
  | true => simpa using h r hr hp

theorem find?_readAny (h : ∀ r ∈ rows, p r = true → key r ∈ keys) :
    (readAny key keys rows).find? p = rows.find? p := by
  rw [← List.head?_filter, filter_readAny h, List.head?_filter]

theorem any_readAny (h : ∀ r ∈ rows, p r = true → key r ∈ keys) :
    (readAny key keys rows).any p = rows.any p := by
  rw [Bool.eq_iff_iff, List.any_eq_true, List.any_eq_true]
  constructor
  · rintro ⟨r, hr, hp⟩
    exact ⟨r, (mem_readAny.mp hr).1, hp⟩
  · rintro ⟨r, hr, hp⟩
    exact ⟨r, mem_readAny.mpr ⟨hr, h r hr hp⟩, hp⟩

/-! ### The order asked for -/

def lastPlace : List κ → κ → Option ℕ
  | [], _ => none
  | a :: l, k =>
      match lastPlace l k with
      | some i => some (i + 1)
      | none => if a = k then some 0 else none

theorem lastPlace_eq_none (h : k ∉ keys) : lastPlace keys k = none := by
  induction keys with
  | nil => rfl
  | cons a l ih =>
      rw [List.mem_cons, not_or] at h
      rw [lastPlace, ih h.2, if_neg (Ne.symm h.1)]

theorem lastPlace_isSome (h : k ∈ keys) : ∃ i, lastPlace keys k = some i := by
  induction keys with
  | nil => cases h
  | cons a l ih =>
      by_cases hk : k ∈ l
      · obtain ⟨i, hi⟩ := ih hk
        exact ⟨i + 1, by rw [lastPlace, hi]⟩
      · have ha : a = k := ((List.mem_cons.mp h).resolve_right hk).symm
        exact ⟨0, by rw [lastPlace, lastPlace_eq_none hk, if_pos ha]⟩

def placeOf (beyond : ℕ) (keys : List κ) (k : κ) : ℕ := (lastPlace keys k).getD beyond

theorem placeOf_cons (beyond : ℕ) (a : κ) (h : k ∈ keys) :
    placeOf beyond (a :: keys) k = placeOf beyond keys k + 1 := by
  obtain ⟨i, hi⟩ := lastPlace_isSome h
  rw [placeOf, placeOf, lastPlace, hi]
  rfl

theorem dedup_placeOf (beyond : ℕ) (keys : List κ) :
    keys.dedup.Pairwise fun a b => placeOf beyond keys a < placeOf beyond keys b := by
  induction keys with
  | nil => exact List.Pairwise.nil
  | cons a l ih =>
      have hl : l.dedup.Pairwise fun b c =>
          placeOf beyond (a :: l) b < placeOf beyond (a :: l) c := by
        refine ih.imp_of_mem fun {b c} hb hc hlt => ?_
        rw [placeOf_cons beyond a (List.mem_dedup.mp hb),
          placeOf_cons beyond a (List.mem_dedup.mp hc)]
        omega
      by_cases ha : a ∈ l
      · rw [List.dedup_cons_of_mem ha]
        exact hl
      · rw [List.dedup_cons_of_notMem ha]
        refine List.pairwise_cons.mpr ⟨fun b hb => ?_, hl⟩
        have hzero : placeOf beyond (a :: l) a = 0 := by
          rw [placeOf, lastPlace, lastPlace_eq_none ha, if_pos rfl]
          rfl
        rw [hzero, placeOf_cons beyond a (List.mem_dedup.mp hb)]
        omega

theorem placeOf_injective {beyond : ℕ} {a b : κ} (ha : a ∈ keys) (hb : b ∈ keys)
    (h : placeOf beyond keys a = placeOf beyond keys b) : a = b := by
  by_contra hne
  rcases before_or (List.mem_dedup.mpr ha) (List.mem_dedup.mpr hb) hne with hab | hba
  · exact absurd h (hab.rel (dedup_placeOf beyond keys)).ne
  · exact absurd h.symm (hba.rel (dedup_placeOf beyond keys)).ne

theorem find?_filter_unique (hone : ∀ r ∈ rows, ∀ s ∈ rows, key r = key s → r = s) :
    (rows.filter p).find? (fun r => decide (key r = k)) =
      (rows.find? fun r => decide (key r = k)).filter p := by
  cases hfind : rows.find? fun r => decide (key r = k) with
  | none =>
      have hnone := List.find?_eq_none.mp hfind
      exact List.find?_eq_none.mpr fun r hr => hnone r (List.mem_of_mem_filter hr)
  | some r =>
      have hr := List.mem_of_find?_eq_some hfind
      have hkey : key r = k := by simpa using List.find?_some hfind
      cases hsome : (rows.filter p).find? fun s => decide (key s = k) with
      | none =>
          have hnone := List.find?_eq_none.mp hsome r
          cases hp : p r with
          | true => exact absurd (decide_eq_true hkey) (hnone (List.mem_filter.mpr ⟨hr, hp⟩))
          | false => rw [Option.filter_some, hp]; rfl
      | some s =>
          obtain ⟨hs, hp⟩ := List.mem_filter.mp (List.mem_of_find?_eq_some hsome)
          have hkey' : key s = k := by simpa using List.find?_some hsome
          obtain rfl := hone r hr s hs (hkey.trans hkey'.symm)
          rw [Option.filter_some, hp]
          rfl

def inOrder (beyond : ℕ) (keys : List κ) (key : ρ → κ) (f : ρ → Option β) (rows : List ρ) :
    List β :=
  (sortBy Prod.fst (rows.filterMap fun r => (f r).map fun b => (placeOf beyond keys (key r), b))).map
    Prod.snd

theorem key_of_find? {r : ρ} (h : rows.find? (fun s => decide (key s = k)) = some r) : key r = k := by
  simpa using List.find?_some h

theorem find?_key {r : ρ} (hkeys : (rows.map key).Nodup) (hr : r ∈ rows) :
    rows.find? (fun s => decide (key s = key r)) = some r := by
  cases hfind : rows.find? (fun s => decide (key s = key r)) with
  | none =>
      have hnone := List.find?_eq_none.mp hfind r hr
      exact absurd (decide_eq_true rfl) hnone
  | some s =>
      rw [List.inj_on_of_nodup_map hkeys (List.mem_of_find?_eq_some hfind) hr (key_of_find? hfind)]

theorem inOrder_eq (beyond : ℕ) (f : ρ → Option β) (hkeys : (rows.map key).Nodup)
    (hmem : ∀ r ∈ rows, key r ∈ keys) :
    inOrder beyond keys key f rows =
      keys.dedup.filterMap fun k => (rows.find? fun r => decide (key r = k)).bind f := by
  let found := keys.dedup.filterMap fun k => rows.find? fun r => decide (key r = k)
  have hfoundKey : found.Pairwise fun r s =>
      placeOf beyond keys (key r) < placeOf beyond keys (key s) := by
    refine List.Pairwise.filterMap _ (fun a b hab r hr s hs => ?_) (dedup_placeOf beyond keys)
    rwa [key_of_find? hr, key_of_find? hs]
  have hperm : found.Perm rows := by
    have hnodup : found.Nodup := hfoundKey.imp fun hlt heq => absurd (heq ▸ rfl) hlt.ne
    rw [List.perm_ext_iff_of_nodup hnodup (List.Nodup.of_map key hkeys)]
    intro r
    rw [List.mem_filterMap]
    constructor
    · rintro ⟨k, _, hk⟩
      exact List.mem_of_find?_eq_some hk
    · intro hr
      exact ⟨key r, List.mem_dedup.mpr (hmem r hr), find?_key hkeys hr⟩
  let g : ρ → Option (ℕ × β) := fun r => (f r).map fun b => (placeOf beyond keys (key r), b)
  have hsorted : (found.filterMap g).Pairwise fun x y => x.1 ≤ y.1 := by
    refine List.Pairwise.filterMap _ (fun r s hrs x hx y hy => ?_) hfoundKey
    obtain ⟨_, _, rfl⟩ := Option.map_eq_some_iff.mp hx
    obtain ⟨_, _, rfl⟩ := Option.map_eq_some_iff.mp hy
    exact hrs.le
  have hsort : sortBy Prod.fst (rows.filterMap g) = found.filterMap g := by
    have hp : (sortBy Prod.fst (rows.filterMap g)).Perm (found.filterMap g) :=
      (sortBy_perm _ _).trans (hperm.filterMap g).symm
    refine hp.eq_of_pairwise (fun x y hx hy hxy hyx => ?_) (sortBy_pairwise _ _) hsorted
    obtain ⟨r, hr, hgr⟩ := List.mem_filterMap.mp ((sortBy_perm _ _).mem_iff.mp hx)
    obtain ⟨s, hs, hgs⟩ := List.mem_filterMap.mp hy
    obtain ⟨b, hb, rfl⟩ := Option.map_eq_some_iff.mp hgr
    obtain ⟨c, hc, rfl⟩ := Option.map_eq_some_iff.mp hgs
    have hs' := hperm.mem_iff.mp hs
    have hkey := placeOf_injective (hmem r hr) (hmem s hs') (le_antisymm hxy hyx)
    have hrs : r = s := List.inj_on_of_nodup_map hkeys hr hs' hkey
    subst hrs
    rw [hb] at hc
    cases hc
    rfl
  have hsnd : (found.filterMap g).map Prod.snd = found.filterMap f := by
    rw [List.map_filterMap]
    apply List.filterMap_congr
    intro r _
    rw [Option.map_map]
    exact Option.map_id'
  change (sortBy Prod.fst (rows.filterMap g)).map Prod.snd = _
  rw [hsort, hsnd, List.filterMap_filterMap]

omit [DecidableEq κ] in
theorem filterMap_eq_iff {f g : κ → Option β} (keyOf : β → κ) (hkeys : keys.Nodup)
    (hf : ∀ k ∈ keys, ∀ b, f k = some b → keyOf b = k)
    (hg : ∀ k ∈ keys, ∀ b, g k = some b → keyOf b = k) :
    keys.filterMap f = keys.filterMap g ↔ ∀ k ∈ keys, f k = g k := by
  have hin : ∀ {h : κ → Option β} {l : List κ} {b : β}, l ⊆ keys →
      (∀ k ∈ keys, ∀ b, h k = some b → keyOf b = k) → b ∈ l.filterMap h → keyOf b ∈ l := by
    intro h l b hl hh hb
    obtain ⟨k, hk, hkb⟩ := List.mem_filterMap.mp hb
    rwa [hh k (hl hk) b hkb]
  refine ⟨fun heq => ?_, fun h => List.filterMap_congr h⟩
  suffices hsub : ∀ l : List κ, l ⊆ keys → l.Nodup → l.filterMap f = l.filterMap g →
      ∀ k ∈ l, f k = g k from hsub keys (List.Subset.refl keys) hkeys heq
  intro l
  induction l with
  | nil =>
      intro _ _ _ k hk
      cases hk
  | cons a l ih =>
      intro hsub hnodup heq
      obtain ⟨ha, hl⟩ := List.nodup_cons.mp hnodup
      have hmem : a ∈ keys := hsub List.mem_cons_self
      have hsub' : l ⊆ keys := fun x hx => hsub (List.mem_cons_of_mem a hx)
      have hhead : f a = g a := by
        cases hfa : f a with
        | none =>
            cases hga : g a with
            | none => rfl
            | some b =>
                rw [List.filterMap_cons_none hfa, List.filterMap_cons_some hga] at heq
                have hb : b ∈ l.filterMap f := heq ▸ List.mem_cons_self
                exact absurd (hg a hmem b hga ▸ hin hsub' hf hb) ha
        | some b =>
            cases hga : g a with
            | none =>
                rw [List.filterMap_cons_some hfa, List.filterMap_cons_none hga] at heq
                have hb : b ∈ l.filterMap g := heq ▸ List.mem_cons_self
                exact absurd (hf a hmem b hfa ▸ hin hsub' hg hb) ha
            | some c =>
                rw [List.filterMap_cons_some hfa, List.filterMap_cons_some hga] at heq
                rw [(List.cons.inj heq).1]
      have htail : l.filterMap f = l.filterMap g := by
        rw [List.filterMap_cons, List.filterMap_cons, hhead] at heq
        cases hga : g a with
        | none => rwa [hga] at heq
        | some c =>
            rw [hga] at heq
            exact (List.cons.inj heq).2
      intro k hk
      rcases List.mem_cons.mp hk with rfl | hk
      · exact hhead
      · exact ih hsub' hl htail k hk

end Eunha.BatchReads
