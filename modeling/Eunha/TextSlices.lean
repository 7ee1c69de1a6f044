import Mathlib.Algebra.BigOperators.Group.List.Basic
import Mathlib.Algebra.GroupWithZero.Nat
import Mathlib.Data.List.Basic

/-!
# Slices of a text by byte offsets

A text is a list of characters that take one to four bytes each. A slice is given by the
offsets of its first byte and of the one after its last, and there is none where an offset
is out of range or inside a character.
-/
namespace Eunha.TextSlices

def size (text : List Char) : ℕ := (text.map Char.utf8Size).sum

def dropBytes : ℕ → List Char → Option (List Char)
  | 0, text => some text
  | _ + 1, [] => none
  | n + 1, c :: text =>
      if c.utf8Size ≤ n + 1 then dropBytes (n + 1 - c.utf8Size) text else none

def takeBytes : ℕ → List Char → Option (List Char)
  | 0, _ => some []
  | _ + 1, [] => none
  | n + 1, c :: text =>
      if c.utf8Size ≤ n + 1 then (takeBytes (n + 1 - c.utf8Size) text).map (c :: ·) else none

/-- `text[start..stop]` -/
def slice (text : List Char) (start stop : ℕ) : Option (List Char) :=
  if start ≤ stop then (dropBytes start text).bind (takeBytes (stop - start)) else none

@[simp] theorem size_nil : size [] = 0 := rfl

@[simp] theorem size_cons (c : Char) (text : List Char) :
    size (c :: text) = c.utf8Size + size text := by
  simp [size]

@[simp] theorem size_append (text more : List Char) :
    size (text ++ more) = size text + size more := by
  simp [size]

theorem eq_nil_of_size {text : List Char} (h : size text = 0) : text = [] := by
  cases text with
  | nil => rfl
  | cons c text =>
      have hpos := c.utf8Size_pos
      rw [size_cons] at h
      omega

theorem dropBytes_append (text more : List Char) :
    dropBytes (size text) (text ++ more) = some more := by
  induction text with
  | nil => rw [size_nil, List.nil_append, dropBytes]
  | cons c text ih =>
      have hpos := c.utf8Size_pos
      obtain ⟨n, hn⟩ : ∃ n, size (c :: text) = n + 1 :=
        ⟨size (c :: text) - 1, by rw [size_cons]; omega⟩
      have hrest : n + 1 - c.utf8Size = size text := by
        rw [size_cons] at hn
        omega
      rw [hn, List.cons_append, dropBytes, if_pos (by rw [size_cons] at hn; omega), hrest, ih]

theorem takeBytes_append (text more : List Char) :
    takeBytes (size text) (text ++ more) = some text := by
  induction text with
  | nil => rw [size_nil, takeBytes]
  | cons c text ih =>
      have hpos := c.utf8Size_pos
      obtain ⟨n, hn⟩ : ∃ n, size (c :: text) = n + 1 :=
        ⟨size (c :: text) - 1, by rw [size_cons]; omega⟩
      have hrest : n + 1 - c.utf8Size = size text := by
        rw [size_cons] at hn
        omega
      rw [hn, List.cons_append, takeBytes, if_pos (by rw [size_cons] at hn; omega), hrest, ih]
      rfl

theorem slice_append (before text after : List Char) :
    slice (before ++ text ++ after) (size before) (size before + size text) = some text := by
  rw [slice, if_pos (Nat.le_add_right _ _), List.append_assoc, dropBytes_append,
    Option.bind_some, Nat.add_sub_cancel_left, takeBytes_append]

/-- Of two beginnings of a text the shorter one begins the other. -/
theorem exists_append_of_size {before after before' after' : List Char}
    (h : before ++ after = before' ++ after') (hsize : size before ≤ size before') :
    ∃ gap, before' = before ++ gap ∧ after = gap ++ after' := by
  cases List.append_eq_append_iff.mp h with
  | inl hlong =>
      obtain ⟨gap, hbefore, hafter⟩ := hlong
      exact ⟨gap, hbefore, hafter⟩
  | inr hshort =>
      obtain ⟨gap, hbefore, hafter⟩ := hshort
      have hgap : gap = [] := by
        apply eq_nil_of_size
        rw [hbefore, size_append] at hsize
        omega
      subst hgap
      exact ⟨[], by simp [hbefore], by simpa using hafter.symm⟩

end Eunha.TextSlices
