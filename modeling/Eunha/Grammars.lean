import Mathlib.Data.List.Basic

/-!
# Parsing expression grammars

A grammar reads a list from its start and yields a value. A choice takes its first part that
reads, an optional part that reads is never left out, and a repetition stops where its part
fails: what is derived from a list is settled, and so is its failure.
-/
namespace Eunha.Grammars

inductive Grammar (α : Type) : Type → Type 1
  | one (p : α → Bool) (f : α → A) : Grammar α A
  | seq (f : A → B → C) (first : Grammar α A) (second : Grammar α B) : Grammar α C
  | choice (first second : Grammar α A) : Grammar α A
  | maybe (f : Option A → B) (g : Grammar α A) : Grammar α B
  | many (f : List A → B) (g : Grammar α A) : Grammar α B
  | map (f : A → B) (g : Grammar α A) : Grammar α B

inductive Derives {α : Type} : {A : Type} → Grammar α A → List α → Option (A × List α) → Prop
  | one {p : α → Bool} {f : α → A} {c : α} {rest : List α} (hc : p c = true) :
      Derives (.one p f) (c :: rest) (some (f c, rest))
  | oneFails {p : α → Bool} {f : α → A} {c : α} {rest : List α} (hc : p c = false) :
      Derives (.one p f) (c :: rest) none
  | oneEnds {p : α → Bool} {f : α → A} : Derives (.one p f) [] none
  | seq {f : A → B → C} {g : Grammar α A} {h : Grammar α B} {s t u : List α} {a : A} {b : B}
      (hg : Derives g s (some (a, t))) (hh : Derives h t (some (b, u))) :
      Derives (.seq f g h) s (some (f a b, u))
  | seqFails {f : A → B → C} {g : Grammar α A} {h : Grammar α B} {s : List α}
      (hg : Derives g s none) : Derives (.seq f g h) s none
  | seqBreaks {f : A → B → C} {g : Grammar α A} {h : Grammar α B} {s t : List α} {a : A}
      (hg : Derives g s (some (a, t))) (hh : Derives h t none) : Derives (.seq f g h) s none
  | first {g h : Grammar α A} {s t : List α} {a : A} (hg : Derives g s (some (a, t))) :
      Derives (.choice g h) s (some (a, t))
  | second {g h : Grammar α A} {s : List α} {r : Option (A × List α)} (hg : Derives g s none)
      (hh : Derives h s r) : Derives (.choice g h) s r
  | present {f : Option A → B} {g : Grammar α A} {s t : List α} {a : A}
      (hg : Derives g s (some (a, t))) : Derives (.maybe f g) s (some (f (some a), t))
  | absent {f : Option A → B} {g : Grammar α A} {s : List α} (hg : Derives g s none) :
      Derives (.maybe f g) s (some (f none, s))
  | stop {f : List A → B} {g : Grammar α A} {s : List α} (hg : Derives g s none) :
      Derives (.many f g) s (some (f [], s))
  | step {f : List A → B} {g : Grammar α A} {s t : List α} {a : A} {r : Option (B × List α)}
      (hg : Derives g s (some (a, t))) (hrest : Derives (.many (fun as => f (a :: as)) g) t r) :
      Derives (.many f g) s r
  | map {f : A → B} {g : Grammar α A} {s : List α} {r : Option (A × List α)}
      (hg : Derives g s r) : Derives (.map f g) s (r.map fun r => (f r.1, r.2))

section Derives

variable {α A B C : Type}

theorem Derives.unique {g : Grammar α A} {s : List α} {r r' : Option (A × List α)}
    (h : Derives g s r) (h' : Derives g s r') : r = r' := by
  induction h with
  | one hc =>
      cases h' with
      | one _ => rfl
      | oneFails hc' => rw [hc] at hc'; cases hc'
  | oneFails hc =>
      cases h' with
      | one hc' => rw [hc] at hc'; cases hc'
      | oneFails _ => rfl
  | oneEnds => cases h'; rfl
  | seq _ _ ihg ihh =>
      cases h' with
      | seq hg' hh' => cases ihg hg'; cases ihh hh'; rfl
      | seqFails hg' => cases ihg hg'
      | seqBreaks hg' hh' => cases ihg hg'; cases ihh hh'
  | seqFails _ ihg =>
      cases h' with
      | seq hg' _ => cases ihg hg'
      | seqFails _ => rfl
      | seqBreaks hg' _ => cases ihg hg'
  | seqBreaks _ _ ihg ihh =>
      cases h' with
      | seq hg' hh' => cases ihg hg'; cases ihh hh'
      | seqFails _ => rfl
      | seqBreaks _ _ => rfl
  | first _ ihg =>
      cases h' with
      | first hg' => exact ihg hg'
      | second hg' _ => cases ihg hg'
  | second _ _ ihg ihh =>
      cases h' with
      | first hg' => cases ihg hg'
      | second _ hh' => exact ihh hh'
  | present _ ihg =>
      cases h' with
      | present hg' => cases ihg hg'; rfl
      | absent hg' => cases ihg hg'
  | absent _ ihg =>
      cases h' with
      | present hg' => cases ihg hg'
      | absent _ => rfl
  | stop _ ihg =>
      cases h' with
      | stop _ => rfl
      | step hg' _ => cases ihg hg'
  | step _ _ ihg ihrest =>
      cases h' with
      | stop hg' => cases ihg hg'
      | step hg' hrest' => cases ihg hg'; exact ihrest hrest'
  | map _ ihg =>
      cases h' with
      | map hg' => rw [ihg hg']

theorem Derives.many_one (p : α → Bool) (f : List α → B) (s : List α) :
    Derives (.many f (.one p id)) s (some (f (s.takeWhile p), s.dropWhile p)) := by
  induction s generalizing f with
  | nil => exact .stop .oneEnds
  | cons c s ih =>
      cases hc : p c with
      | true =>
          rw [List.takeWhile_cons_of_pos hc, List.dropWhile_cons_of_pos hc]
          exact .step (.one hc) (ih fun as => f (c :: as))
      | false =>
          rw [List.takeWhile_cons_of_neg (by simp [hc]), List.dropWhile_cons_of_neg (by simp [hc])]
          exact .stop (.oneFails hc)

/-- One character of a kind and all that follow it. -/
def many1 (p : α → Bool) : Grammar α (List α) :=
  .seq List.cons (.one p id) (.many id (.one p id))

theorem Derives.many1 {p : α → Bool} {s : List α} (h : s.takeWhile p ≠ []) :
    Derives (many1 p) s (some (s.takeWhile p, s.dropWhile p)) := by
  cases s with
  | nil => exact absurd rfl h
  | cons c s =>
      cases hc : p c with
      | true =>
          rw [List.takeWhile_cons_of_pos hc, List.dropWhile_cons_of_pos hc]
          exact .seq (.one hc) (.many_one p id s)
      | false => exact absurd (List.takeWhile_cons_of_neg (by simp [hc])) h

theorem Derives.many1_fails {p : α → Bool} {s : List α} (h : s.takeWhile p = []) :
    Derives (Grammars.many1 p) s none := by
  cases s with
  | nil => exact .seqFails .oneEnds
  | cons c s =>
      cases hc : p c with
      | true => rw [List.takeWhile_cons_of_pos hc] at h; cases h
      | false => exact .seqFails (.oneFails hc)

def Reads (input : List α) (g : Grammar α A) (scanner : ℕ → Option (A × ℕ)) : Prop :=
  ∀ i, Derives g (input.drop i) ((scanner i).map fun r => (r.1, input.drop r.2))

variable {input : List α} {g : Grammar α A} {h : Grammar α B} {first : ℕ → Option (A × ℕ)}
  {second : ℕ → Option (B × ℕ)}

theorem Reads.congr {other : ℕ → Option (A × ℕ)} (hfirst : Reads input g first)
    (heq : ∀ i, other i = first i) : Reads input g other := by
  rw [funext heq]
  exact hfirst

theorem Reads.one (p : α → Bool) (f : α → A) :
    Reads input (.one p f) fun i =>
      (input[i]?).bind fun c => if p c then some (f c, i + 1) else none := by
  intro i
  dsimp only
  cases hget : input[i]? with
  | none =>
      rw [List.drop_eq_nil_of_le (List.getElem?_eq_none_iff.mp hget)]
      exact .oneEnds
  | some c =>
      have hdrop : input.drop i = c :: input.drop (i + 1) := by
        obtain ⟨hi, rfl⟩ := List.getElem?_eq_some_iff.mp hget
        exact List.drop_eq_getElem_cons hi
      rw [hdrop, Option.bind_some]
      cases hc : p c with
      | true => exact .one hc
      | false => exact .oneFails hc

theorem Reads.seq (hfirst : Reads input g first) (hsecond : Reads input h second)
    (f : A → B → C) :
    Reads input (.seq f g h) fun i =>
      (first i).bind fun a => (second a.2).map fun b => (f a.1 b.1, b.2) := by
  intro i
  have hi := hfirst i
  dsimp only
  cases ha : first i with
  | none =>
      rw [ha] at hi
      exact .seqFails hi
  | some a =>
      have hj := hsecond a.2
      rw [ha] at hi
      rw [Option.bind_some]
      cases hb : second a.2 with
      | none =>
          rw [hb] at hj
          exact .seqBreaks hi hj
      | some b =>
          rw [hb] at hj
          exact .seq hi hj

theorem Reads.choice {g h : Grammar α A} {first second : ℕ → Option (A × ℕ)}
    (hfirst : Reads input g first) (hsecond : Reads input h second) :
    Reads input (.choice g h) fun i => (first i).or (second i) := by
  intro i
  have hi := hfirst i
  dsimp only
  cases ha : first i with
  | none =>
      rw [ha] at hi
      exact .second hi (hsecond i)
  | some a =>
      rw [ha] at hi
      exact .first hi

theorem Reads.maybe (hfirst : Reads input g first) (f : Option A → B) :
    Reads input (.maybe f g) fun i =>
      some ((first i).elim (f none, i) fun a => (f (some a.1), a.2)) := by
  intro i
  have hi := hfirst i
  dsimp only
  cases ha : first i with
  | none =>
      rw [ha] at hi
      exact .absent hi
  | some a =>
      rw [ha] at hi
      exact .present hi

theorem Reads.map (hfirst : Reads input g first) (f : A → B) :
    Reads input (.map f g) fun i => (first i).map fun a => (f a.1, a.2) := by
  intro i
  have hi := Derives.map (f := f) (hfirst i)
  dsimp only
  rw [Option.map_map] at hi ⊢
  exact hi

end Derives

end Eunha.Grammars
