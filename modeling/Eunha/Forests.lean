import Mathlib.Data.List.Nodup
import Mathlib.Logic.Function.Basic

/-!
# Climbing a parent function

A parent function gives each element the one above it, or none. An element is rooted when
climbing from it ends. Taking parents away keeps elements rooted, and so does a new leaf;
giving a root a parent does so unless the root is met on the way up from that parent. A
recursive query over the parents ends exactly on a rooted element, and lists what is met.
-/
namespace Eunha.Forests

variable {α : Type*}

def climb (parent : α → Option α) : ℕ → α → Option α
  | 0, a => some a
  | n + 1, a => (parent a).bind (climb parent n)

/-- Climbing from the element ends. -/
def Rooted (parent : α → Option α) (a : α) : Prop := ∃ n, climb parent n a = none

/-- The second is met on the way up from the first, which counts as met. -/
def Reaches (parent : α → Option α) (a b : α) : Prop := ∃ n, climb parent n a = some b

variable {parent parent' : α → Option α}

theorem climb_succ (n : ℕ) (a : α) : climb parent (n + 1) a = (parent a).bind (climb parent n) :=
  rfl

theorem climb_add (m n : ℕ) (a : α) :
    climb parent (m + n) a = (climb parent m a).bind (climb parent n) := by
  induction m generalizing a with
  | zero => rw [Nat.zero_add]; rfl
  | succ m ih =>
      rw [Nat.succ_add, climb_succ, climb_succ]
      cases parent a with
      | none => rfl
      | some b => exact ih b

theorem Reaches.refl (a : α) : Reaches parent a a := ⟨0, rfl⟩

theorem Reaches.up {a b c : α} (h : parent a = some b) (hc : Reaches parent b c) :
    Reaches parent a c := by
  obtain ⟨n, hn⟩ := hc
  refine ⟨n + 1, ?_⟩
  rw [climb_succ, h]
  exact hn

theorem rooted_of_parent {a : α} (h : ∀ b, parent a = some b → Rooted parent b) :
    Rooted parent a := by
  cases ha : parent a with
  | none => exact ⟨1, by rw [climb_succ, ha]; rfl⟩
  | some b =>
      obtain ⟨n, hn⟩ := h b ha
      exact ⟨n + 1, by rw [climb_succ, ha]; exact hn⟩

theorem Rooted.met {a b : α} (h : Rooted parent a) (hb : Reaches parent a b) :
    Rooted parent b := by
  obtain ⟨n, hn⟩ := h
  obtain ⟨m, hm⟩ := hb
  refine ⟨n, ?_⟩
  have hclimb : climb parent (m + n) a = climb parent n b := by rw [climb_add, hm]; rfl
  rw [← hclimb, Nat.add_comm, climb_add, hn]
  rfl

theorem climb_returns {a : α} {n : ℕ} (h : climb parent n a = some a) (k : ℕ) :
    climb parent (k * n) a = some a := by
  induction k with
  | zero => rw [Nat.zero_mul]; rfl
  | succ k ih =>
      rw [Nat.succ_mul, climb_add, ih]
      exact h

theorem not_rooted_of_returns {a : α} {n : ℕ} (h : climb parent (n + 1) a = some a) :
    ¬ Rooted parent a := by
  rintro ⟨m, hm⟩
  have hforever : climb parent (m * (n + 1)) a = some a := climb_returns h m
  have hpast : m * (n + 1) = m + m * n := by rw [Nat.mul_succ, Nat.add_comm]
  rw [hpast, climb_add, hm] at hforever
  cases hforever

theorem Rooted.met_once {a b : α} (h : Rooted parent a) {m n : ℕ} (hm : climb parent m a = some b)
    (hn : climb parent n a = some b) : m = n := by
  have hlt {m n : ℕ} (hm : climb parent m a = some b) (hn : climb parent n a = some b) :
      ¬ m < n := by
    intro hlt
    obtain ⟨k, rfl⟩ : ∃ k, n = m + (k + 1) := ⟨n - m - 1, by omega⟩
    rw [climb_add, hm] at hn
    exact not_rooted_of_returns hn (h.met ⟨m, hm⟩)
  have := hlt hm hn
  have := hlt hn hm
  omega

/-! ### Changing parents -/

theorem climb_sub (h : ∀ a b, parent' a = some b → parent a = some b) {n : ℕ} {a b : α}
    (hn : climb parent' n a = some b) : climb parent n a = some b := by
  induction n generalizing a with
  | zero => exact hn
  | succ n ih =>
      obtain ⟨c, hc, hclimb⟩ := Option.bind_eq_some_iff.mp hn
      rw [climb_succ, h a c hc]
      exact ih hclimb

theorem Rooted.sub {a : α} (h : ∀ a b, parent' a = some b → parent a = some b)
    (ha : Rooted parent a) : Rooted parent' a := by
  obtain ⟨n, hn⟩ := ha
  refine ⟨n, ?_⟩
  cases hb : climb parent' n a with
  | none => rfl
  | some b =>
      rw [climb_sub h hb] at hn
      cases hn

section
variable (hroot : ∀ a, Rooted parent a)
include hroot

theorem rooted_leaf (leaf : α) (hleaf : ∀ a, parent a ≠ some leaf)
    (hsame : ∀ a, a ≠ leaf → parent' a = parent a) (hnew : parent' leaf ≠ some leaf) (a : α) :
    Rooted parent' a := by
  have hclimb (n : ℕ) (a : α) (ha : a ≠ leaf) : climb parent' n a = climb parent n a := by
    induction n generalizing a with
    | zero => rfl
    | succ n ih =>
        rw [climb_succ, climb_succ, hsame a ha]
        cases hb : parent a with
        | none => rfl
        | some b => exact ih b fun he => hleaf a (he ▸ hb)
  have hold (a : α) (ha : a ≠ leaf) : Rooted parent' a := by
    obtain ⟨n, hn⟩ := hroot a
    exact ⟨n, (hclimb n a ha).trans hn⟩
  by_cases ha : a = leaf
  · subst ha
    exact rooted_of_parent fun b hb => hold b fun he => hnew (he ▸ hb)
  · exact hold a ha

variable [DecidableEq α]

theorem rooted_link {c p : α} (hc : parent c = none) (hp : ¬ Reaches parent p c) (a : α) :
    Rooted (Function.update parent c (some p)) a := by
  have hoff (n : ℕ) (a : α) (ha : ¬ Reaches parent a c) :
      climb (Function.update parent c (some p)) n a = climb parent n a := by
    induction n generalizing a with
    | zero => rfl
    | succ n ih =>
        have hne : a ≠ c := fun he => ha (he ▸ Reaches.refl a)
        rw [climb_succ, climb_succ, Function.update_of_ne hne]
        cases hb : parent a with
        | none => rfl
        | some b => exact ih b fun hr => ha (hr.up hb)
  have hup (n : ℕ) (a : α) (hn : climb parent n a = none) :
      Rooted (Function.update parent c (some p)) a := by
    induction n generalizing a with
    | zero => cases hn
    | succ n ih =>
        refine rooted_of_parent fun b hb => ?_
        by_cases hne : a = c
        · -- above the linked root is its new parent
          subst hne
          rw [Function.update_self, Option.some.injEq] at hb
          subst hb
          obtain ⟨m, hm⟩ := hroot p
          exact ⟨m, (hoff m p hp).trans hm⟩
        · rw [Function.update_of_ne hne] at hb
          rw [climb_succ, hb] at hn
          exact ih b hn
  obtain ⟨n, hn⟩ := hroot a
  exact hup n a hn

theorem rooted_link_iff {c p : α} (hc : parent c = none) :
    (∀ a, Rooted (Function.update parent c (some p)) a) ↔ ¬ Reaches parent p c := by
  refine ⟨fun h hreach => ?_, rooted_link hroot hc⟩
  -- the links up to the new parent's root are still there
  have hsub (n : ℕ) (a : α) (hn : climb parent n a = some c) :
      Reaches (Function.update parent c (some p)) a c := by
    induction n generalizing a with
    | zero =>
        obtain rfl : a = c := Option.some.inj hn
        exact Reaches.refl a
    | succ n ih =>
        obtain ⟨b, hb, hclimb⟩ := Option.bind_eq_some_iff.mp hn
        have hne : a ≠ c := fun he => by rw [he, hc] at hb; cases hb
        exact (ih b hclimb).up (by rw [Function.update_of_ne hne]; exact hb)
  obtain ⟨n, hn⟩ := hreach
  obtain ⟨m, hm⟩ := hsub n p hn
  refine not_rooted_of_returns (n := m) ?_ (h c)
  rw [climb_succ, Function.update_self]
  exact hm

end

/-! ### Leaving elements out -/

section
variable {keep : α → Bool}

theorem climb_filter_of_kept {a : α} (h : ∀ b, Reaches parent a b → keep b = true) (n : ℕ) :
    climb (fun b => (parent b).filter keep) n a = climb parent n a := by
  induction n generalizing a with
  | zero => rfl
  | succ n ih =>
      rw [climb_succ, climb_succ]
      cases hb : parent a with
      | none => rfl
      | some b =>
          have hkept : keep b = true := h b (.up hb (.refl b))
          rw [Option.filter_some, if_pos hkept]
          exact ih fun c hc => h c (hc.up hb)

theorem rooted_filter {a b : α} (hb : Reaches parent a b) (hnot : keep b = false)
    (ha : keep a = true) : Rooted (fun b => (parent b).filter keep) a := by
  obtain ⟨n, hn⟩ := hb
  induction n generalizing a with
  | zero =>
      obtain rfl : a = b := Option.some.inj hn
      rw [ha] at hnot
      cases hnot
  | succ n ih =>
      rw [climb_succ] at hn
      apply rooted_of_parent
      intro c hc
      obtain ⟨hparent, hkept⟩ := Option.filter_eq_some_iff.mp hc
      rw [hparent] at hn
      exact ih hkept hn

end

/-! ### Recursive queries -/

/-- `WITH RECURSIVE t AS (working UNION ALL next t)`: what the levels give until one is
empty, or nothing when there are more levels than fuel. -/
def unionAll (next : List α → List α) : ℕ → List α → Option (List α)
  | 0, _ => none
  | fuel + 1, working =>
      if working = [] then some []
      else (unionAll next fuel (next working)).map (working ++ ·)

/-- The elements met, in order. -/
def path (parent : α → Option α) : ℕ → α → List α
  | 0, _ => []
  | n + 1, a => a :: (parent a).elim [] (path parent n)

theorem getElem?_path {n : ℕ} {a : α} (hn : climb parent n a = none) (k : ℕ) :
    (path parent n a)[k]? = climb parent k a := by
  induction n generalizing a k with
  | zero => cases hn
  | succ n ih =>
      cases k with
      | zero => rfl
      | succ k =>
          rw [path, List.getElem?_cons_succ, climb_succ]
          rw [climb_succ] at hn
          cases hb : parent a with
          | none => rfl
          | some b =>
              rw [hb] at hn
              exact ih hn k

theorem mem_path {n : ℕ} {a b : α} (hn : climb parent n a = none) :
    b ∈ path parent n a ↔ Reaches parent a b := by
  rw [List.mem_iff_getElem?]
  simp only [getElem?_path hn]
  rfl

theorem nodup_path {n : ℕ} {a : α} (hn : climb parent n a = none) : (path parent n a).Nodup := by
  rw [List.nodup_iff_getElem?_ne_getElem?]
  intro k m hlt hm he
  rw [getElem?_path hn, getElem?_path hn] at he
  obtain ⟨b, hb⟩ : ∃ b, climb parent m a = some b := by
    rw [← getElem?_path hn]
    exact ⟨_, List.getElem?_eq_getElem hm⟩
  have := Rooted.met_once ⟨n, hn⟩ (he.trans hb) hb
  omega

theorem path_filter (keep : α → Bool) (n : ℕ) {a : α} (ha : keep a = true) :
    path (fun b => (parent b).filter keep) n a = (path parent n a).takeWhile keep := by
  induction n generalizing a with
  | zero => rfl
  | succ n ih =>
      rw [path, path, List.takeWhile_cons_of_pos ha]
      cases parent a with
      | none => rfl
      | some b =>
          cases hb : keep b with
          | true =>
              rw [Option.filter_some, if_pos hb]
              exact congrArg (a :: ·) (ih hb)
          | false =>
              rw [Option.filter_some, if_neg (by simp [hb])]
              cases n with
              | zero => rfl
              | succ n =>
                  change [a] = a :: List.takeWhile keep (b :: _)
                  rw [List.takeWhile_cons_of_neg (by simp [hb])]

theorem path_succ {n : ℕ} {a b : α} (h : climb parent n a = some b) :
    path parent (n + 1) a = path parent n a ++ [b] := by
  induction n generalizing a with
  | zero =>
      obtain rfl : a = b := Option.some.inj h
      change a :: (parent a).elim [] (path parent 0) = [] ++ [a]
      cases parent a <;> rfl
  | succ n ih =>
      rw [climb_succ] at h
      rw [path, path]
      cases hc : parent a with
      | none =>
          rw [hc] at h
          cases h
      | some c =>
          rw [hc] at h
          exact congrArg (a :: ·) (ih h)

section
variable {next : List α → List α}

theorem unionAll_unique {m n : ℕ} {working xs ys : List α} (hx : unionAll next m working = some xs)
    (hy : unionAll next n working = some ys) : xs = ys := by
  induction m generalizing n working xs ys with
  | zero => cases hx
  | succ m ih =>
      cases n with
      | zero => cases hy
      | succ n =>
          rw [unionAll] at hx hy
          by_cases hnil : working = []
          · rw [if_pos hnil] at hx hy
            exact Option.some.inj (hx.symm.trans hy)
          · rw [if_neg hnil] at hx hy
            obtain ⟨xs', hxs', rfl⟩ := Option.map_eq_some_iff.mp hx
            obtain ⟨ys', hys', rfl⟩ := Option.map_eq_some_iff.mp hy
            rw [ih hxs' hys']

theorem unionAll_eq_path {n : ℕ} {a : α}
    (hnext : ∀ b, Reaches parent a b → next [b] = (parent b).toList)
    (hn : climb parent n a = none) :
    ∃ fuel, unionAll next fuel [a] = some (path parent n a) := by
  induction n generalizing a with
  | zero => cases hn
  | succ n ih =>
      rw [climb_succ] at hn
      cases hb : parent a with
      | none =>
          refine ⟨2, ?_⟩
          have hempty : next [a] = [] := by rw [hnext a (.refl a), hb]; rfl
          simp [unionAll, path, hb, hempty]
      | some b =>
          rw [hb] at hn
          obtain ⟨fuel, hfuel⟩ := ih (fun c hc => hnext c (hc.up hb)) hn
          refine ⟨fuel + 1, ?_⟩
          have hone : next [a] = [b] := by rw [hnext a (.refl a), hb]; rfl
          simp [unionAll, path, hb, hone, hfuel]

theorem unionAll_of_not_rooted {a : α} (hnext : ∀ b, Reaches parent a b →
    next [b] = (parent b).toList) (h : ¬ Rooted parent a) (fuel : ℕ) :
    unionAll next fuel [a] = none := by
  induction fuel generalizing a with
  | zero => rfl
  | succ fuel ih =>
      cases hb : parent a with
      | none => exact absurd ⟨1, by rw [climb_succ, hb]; rfl⟩ h
      | some b =>
          have hone : next [a] = [b] := by rw [hnext a (.refl a), hb]; rfl
          have hrest : unionAll next fuel [b] = none := by
            refine ih (fun c hc => hnext c (hc.up hb)) fun ⟨n, hn⟩ => h ⟨n + 1, ?_⟩
            rw [climb_succ, hb]
            exact hn
          simp [unionAll, hone, hrest]

end

end Eunha.Forests
