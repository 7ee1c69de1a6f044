import Mathlib.Data.Finset.Insert
import Mathlib.Data.List.Basic
import Mathlib.Logic.Function.Basic

/-!
# Hash maps as functions, and folds that fill them

A hash map is read as the function of its lookups. Two rules compute what a loop
over rows leaves: a loop that updates one entry per row leaves at each key what
the rows of that key make of its entry, and a loop that updates one field leaves
the record with that field folded.
-/
namespace Eunha.Maps

variable {K V X : Type*}

abbrev HashMap (K V : Type*) := K → Option V

namespace HashMap
variable [DecidableEq K]

def empty : HashMap K V := fun _ => none

def insert (m : HashMap K V) (k : K) (v : V) : HashMap K V := Function.update m k (some v)

/-- `if let Some(v) = m.get_mut(&k) { *v = f(*v) }`. -/
def modify (m : HashMap K V) (k : K) (f : V → V) : HashMap K V :=
  Function.update m k ((m k).map f)

/-- `m.entry(k).or_default().push(v)`. -/
def push (m : HashMap K (List V)) (k : K) (v : V) : HashMap K (List V) :=
  m.insert k ((m k).getD [] ++ [v])

def modifyEach (m : HashMap K V) (rows : List X) (key : X → K) (f : X → V → V) : HashMap K V :=
  rows.foldl (fun m x => m.modify (key x) (f x)) m

theorem modifyEach_apply (m : HashMap K V) (rows : List X) (key : X → K) (f : X → V → V) (k : K) :
    m.modifyEach rows key f k =
      (m k).map fun v => (rows.filter (key · = k)).foldl (fun v x => f x v) v := by
  unfold modifyEach
  induction rows generalizing m with
  | nil => simp
  | cons x rows ih =>
      rw [List.foldl_cons, ih, List.filter_cons]
      by_cases hk : key x = k
      · simp [modify, hk, Function.comp_def]
      · simp [modify, Function.update_of_ne (Ne.symm hk), hk]

theorem foldl_insert_apply (ks : List K) (v : V) (m : HashMap K V) (k : K) :
    (ks.foldl (fun m k => m.insert k v) m) k = if k ∈ ks then some v else m k := by
  induction ks generalizing m with
  | nil => simp
  | cons j ks ih =>
      rw [List.foldl_cons, ih]
      simp only [insert, Function.update_apply, List.mem_cons]
      split_ifs <;> simp_all

/-- `rows.map(|(k, v)| …).collect()`: the last of a key's pairs is kept. -/
theorem foldl_insert_pairs (rows : List (K × V)) (m : HashMap K V) (k : K) :
    (rows.foldl (fun m p => m.insert p.1 p.2) m) k =
      ((rows.filter (·.1 = k)).getLast?.map Prod.snd).or (m k) := by
  induction rows generalizing m with
  | nil => rfl
  | cons p rows ih =>
      rw [List.foldl_cons, ih, List.filter_cons]
      by_cases hk : p.1 = k
      · subst hk
        rw [if_pos (by simp), insert, Function.update_self, List.getLast?_cons]
        cases (rows.filter (·.1 = p.1)).getLast? <;> rfl
      · rw [if_neg (by simpa using hk), insert, Function.update_of_ne (Ne.symm hk)]

theorem foldl_push_getD (rows : List X) (key : X → K) (value : X → V) (m : HashMap K (List V))
    (k : K) :
    ((rows.foldl (fun m x => m.push (key x) (value x)) m) k).getD [] =
      (m k).getD [] ++ (rows.filter (key · = k)).map value := by
  induction rows generalizing m with
  | nil => simp
  | cons x rows ih =>
      rw [List.foldl_cons, ih, List.filter_cons]
      by_cases hk : key x = k
      · subst hk
        simp [push, insert]
      · simp [push, insert, Function.update_of_ne (Ne.symm hk), hk]

end HashMap

theorem foldl_insert_eq_toFinset {A : Type*} [DecidableEq A] (rows : List X) (f : X → A) :
    rows.foldl (fun s x => insert (f x) s) ∅ = (rows.map f).toFinset := by
  rw [← List.toFinset_reverse, ← List.map_reverse, ← List.foldr_reverse]
  induction rows.reverse with
  | nil => rfl
  | cons x rows ih => simp only [List.foldr_cons, ih, List.map_cons, List.toFinset_cons]

section
variable {C F : Type*} (upd : (F → F) → C → C) (hid : ∀ c, upd id c = c)
  (hcomp : ∀ f g c, upd f (upd g c) = upd (f ∘ g) c)
include hid hcomp

theorem foldl_field (f : X → F → F) (rows : List X) (c : C) :
    rows.foldl (fun c x => upd (f x) c) c =
      upd (fun s => rows.foldl (fun s x => f x s) s) c := by
  induction rows generalizing c with
  | nil => exact (hid c).symm
  | cons x rows ih =>
      rw [List.foldl_cons, ih, hcomp]
      rfl

theorem HashMap.modifyEach_field [DecidableEq K] {m : HashMap K C} {k : K} {c : C}
    (hk : m k = some c) (f : X → F → F) (rows : List X) (key : X → K) :
    m.modifyEach rows key (fun x => upd (f x)) k =
      some (upd (fun s => (rows.filter (key · = k)).foldl (fun s x => f x s) s) c) := by
  rw [HashMap.modifyEach_apply, hk, Option.map_some, foldl_field upd hid hcomp]

end

end Eunha.Maps
