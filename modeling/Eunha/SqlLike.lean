import Eunha.Chars
import Mathlib.Data.List.Infix

/-!
# `LIKE`

A pattern of `%` for any text, `_` for any character and `\` before a character
that stands for itself. A pattern that ends in a `\` is an error where the text
reaches it. A pattern without these characters matches itself alone.
-/
namespace Eunha.SqlLike

def firstMatch (f : List Char → Option Bool) : List Char → Option Bool
  | [] => f []
  | c :: t => if f (c :: t) = some false then firstMatch f t else f (c :: t)

/-- A text that starts with `d`, and then matches. -/
def charMatch (d : Char) (f : List Char → Option Bool) : List Char → Option Bool
  | [] => some false
  | c :: t => if c = d then f t else some false

/-- `t LIKE p`, with `none` for the error. -/
def like : List Char → List Char → Option Bool
  | [], t => some t.isEmpty
  | c :: p, t =>
      if c = '%' then firstMatch (like p) t
      else if c = '_' then
        match t with
        | [] => some false
        | _ :: t => like p t
      else if c = '\\' then
        match p with
        | [] => if t.isEmpty then some false else none
        | d :: p => charMatch d (like p) t
      else charMatch c (like p) t

/-- A text that is its own pattern. -/
def Plain (p : List Char) : Prop := ∀ c ∈ p, c ≠ '%' ∧ c ≠ '_' ∧ c ≠ '\\'

theorem like_plain {p : List Char} (h : Plain p) (t : List Char) :
    like p t = some (decide (t = p)) := by
  induction p generalizing t with
  | nil => cases t <;> rfl
  | cons c p ih =>
      obtain ⟨h₁, h₂, h₃⟩ := h c (by simp)
      have ih := ih fun d hd => h d (List.mem_cons_of_mem c hd)
      unfold like
      rw [if_neg h₁, if_neg h₂, if_neg h₃]
      cases t with
      | nil => simp [charMatch]
      | cons x t => by_cases hx : x = c <;> simp [charMatch, hx, ih]

theorem firstMatch_decide (p : List Char) (t : List Char) :
    firstMatch (fun t => some (decide (t = p))) t = some (decide (p <:+ t)) := by
  induction t with
  | nil => simp [firstMatch, List.suffix_nil, eq_comm]
  | cons c t ih =>
      rw [firstMatch, ih]
      by_cases h : c :: t = p
      · simp [h]
      · simp [h, Ne.symm h, List.suffix_cons_iff]

theorem like_any_plain {p : List Char} (h : Plain p) (t : List Char) :
    like ('%' :: p) t = some (decide (p <:+ t)) := by
  unfold like
  rw [if_pos rfl, funext (like_plain h), firstMatch_decide]

example : like "%.a_b".toList "x.acb".toList = some true := by decide +kernel

/-! ### Patterns without escapes -/

theorem firstMatch_isSome {f : List Char → Option Bool} (h : ∀ t, (f t).isSome) (t : List Char) :
    (firstMatch f t).isSome := by
  induction t with
  | nil => exact h []
  | cons c t ih =>
      unfold firstMatch
      split_ifs
      · exact ih
      · exact h (c :: t)

theorem firstMatch_of_suffix {f : List Char → Option Bool} (h : ∀ t, (f t).isSome)
    {u t : List Char} (hu : f u = some true) (hs : u <:+ t) : firstMatch f t = some true := by
  induction t with
  | nil =>
      rw [List.suffix_nil.mp hs] at hu
      exact hu
  | cons c t ih =>
      unfold firstMatch
      rcases List.suffix_cons_iff.mp hs with rfl | hs
      · simp [hu]
      · have hc := h (c :: t)
        split_ifs with hfalse
        · exact ih hs
        · cases hf : f (c :: t) with
          | none => simp [hf] at hc
          | some found => cases found <;> simp_all

theorem like_isSome {p : List Char} (h : '\\' ∉ p) (t : List Char) : (like p t).isSome := by
  induction p generalizing t with
  | nil => rfl
  | cons c p ih =>
      have ih := ih fun hp => h (List.mem_cons_of_mem c hp)
      have hc : c ≠ '\\' := fun hc => h (hc ▸ List.mem_cons_self)
      unfold like
      split_ifs
      · exact firstMatch_isSome ih t
      · cases t with
        | nil => rfl
        | cons x t => exact ih t
      · cases t with
        | nil => rfl
        | cons x t => by_cases hx : x = c <;> simp [charMatch, hx, ih]

theorem like_self {p : List Char} (h : '\\' ∉ p) : like p p = some true := by
  induction p with
  | nil => rfl
  | cons c p ih =>
      have hp : '\\' ∉ p := fun hp => h (List.mem_cons_of_mem c hp)
      have hc : c ≠ '\\' := fun hc => h (hc ▸ List.mem_cons_self)
      unfold like
      split_ifs
      · exact firstMatch_of_suffix (like_isSome hp) (ih hp) (List.suffix_cons c p)
      · exact ih hp
      · simpa [charMatch] using ih hp

theorem like_any_of_suffix {p t : List Char} (h : '\\' ∉ p) (hs : p <:+ t) :
    like ('%' :: p) t = some true := by
  unfold like
  rw [if_pos rfl]
  exact firstMatch_of_suffix (like_isSome h) (like_self h) hs

end Eunha.SqlLike
