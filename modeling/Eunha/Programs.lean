import Mathlib.Logic.Function.Basic

/-!
# Programs of statements that may fail

A program runs a statement at a time on a store. A statement that is carried out moves the
store, and the program goes on with what it read; one that fails leaves the store alone, and
the program says how it goes on then. A run is given which statements fail, by their labels.

What every statement does to the store carries over to runs, whatever fails. That a program
does not give up is shown statement by statement, for given failures.
-/
namespace Eunha.Programs

variable {L σ ε ε' α β : Type}

inductive Program (L σ ε α : Type) where
  | done (a : α)
  | fail (e : ε)
  | statement (l : L) (move : σ → σ) (next : σ → Program L σ ε α) (failed : Program L σ ε α)

namespace Program

def bind : Program L σ ε α → (α → Program L σ ε β) → Program L σ ε β
  | done a, k => k a
  | fail e, _ => fail e
  | statement l move next failed, k =>
      statement l move (fun s => (next s).bind k) (failed.bind k)

instance : Monad (Program L σ ε) where
  pure := done
  bind := bind

def logged : Program L σ ε Unit → Program L σ ε' Unit
  | done a => done a
  | fail _ => done ()
  | statement l move next failed =>
      statement l move (fun s => (next s).logged) failed.logged

def run (fails : L → Bool) : Program L σ ε α → σ → σ × Except ε α
  | done a, s => (s, .ok a)
  | fail e, s => (s, .error e)
  | statement l move next failed, s =>
      if fails l then failed.run fails s else (next s).run fails (move s)

def next (fails : Bool) : Program L σ ε α → σ → σ × Program L σ ε α
  | done a, s => (s, done a)
  | fail e, s => (s, fail e)
  | statement _ move next failed, s => if fails then (s, failed) else (move s, next s)

/-! ### Statements -/

def exec (l : L) (e : ε) (move : σ → σ) : Program L σ ε Unit :=
  statement l move (fun _ => done ()) (fail e)

def ask (l : L) (e : ε) (read : σ → α) : Program L σ ε α :=
  statement l id (fun s => done (read s)) (fail e)

def askOr (l : L) (read : σ → α) (default : α) : Program L σ ε α :=
  statement l id (fun s => done (read s)) (done default)

/-- A statement for each element, in order. -/
def each (body : β → Program L σ ε Unit) : List β → Program L σ ε Unit
  | [] => done ()
  | b :: bs => (body b).bind fun _ => each body bs

/-! ### Runs -/

variable {fails : L → Bool}

@[simp] theorem run_pure (a : α) (s : σ) :
    (pure a : Program L σ ε α).run fails s = (s, .ok a) := rfl

@[simp] theorem run_done (a : α) (s : σ) :
    (done a : Program L σ ε α).run fails s = (s, .ok a) := rfl

@[simp] theorem run_fail (e : ε) (s : σ) :
    (fail e : Program L σ ε α).run fails s = (s, .error e) := rfl

theorem run_bind (p : Program L σ ε α) (k : α → Program L σ ε β) (s : σ) :
    (p >>= k).run fails s =
      match p.run fails s with
      | (t, .ok a) => (k a).run fails t
      | (t, .error e) => (t, .error e) := by
  change (p.bind k).run fails s = _
  induction p generalizing s with
  | done a => rfl
  | fail e => rfl
  | statement l move next failed ihnext ihfailed =>
      simp only [bind, run]
      split
      · exact ihfailed s
      · exact ihnext s (move s)

theorem run_bind_ok {p : Program L σ ε α} {k : α → Program L σ ε β} {s t : σ} {a : α}
    (h : p.run fails s = (t, .ok a)) : (p >>= k).run fails s = (k a).run fails t := by
  rw [run_bind, h]

theorem run_bind_error {p : Program L σ ε α} {k : α → Program L σ ε β} {s t : σ} {e : ε}
    (h : p.run fails s = (t, .error e)) : (p >>= k).run fails s = (t, .error e) := by
  rw [run_bind, h]

/-! ### What every statement does -/

def Always (G : σ → σ → Prop) : Program L σ ε α → Prop
  | done _ => True
  | fail _ => True
  | statement _ move next failed =>
      (∀ s, G s (move s)) ∧ (∀ s, (next s).Always G) ∧ failed.Always G

section
variable {G : σ → σ → Prop}

theorem Always.bind {p : Program L σ ε α} {k : α → Program L σ ε β} (hp : p.Always G)
    (hk : ∀ a, (k a).Always G) : (p >>= k).Always G := by
  change (p.bind k).Always G
  induction p with
  | done a => exact hk a
  | fail e => trivial
  | statement l move next failed ihnext ihfailed =>
      obtain ⟨hmove, hnext, hfailed⟩ := hp
      exact ⟨hmove, fun s => ihnext s (hnext s), ihfailed hfailed⟩

theorem Always.mono {G' : σ → σ → Prop} (h : ∀ s t, G s t → G' s t) {p : Program L σ ε α}
    (hp : p.Always G) : p.Always G' := by
  induction p with
  | done a => trivial
  | fail e => trivial
  | statement l move next failed ihnext ihfailed =>
      obtain ⟨hmove, hnext, hfailed⟩ := hp
      exact ⟨fun s => h _ _ (hmove s), fun s => ihnext s (hnext s), ihfailed hfailed⟩

theorem Always.logged {p : Program L σ ε Unit} (hp : p.Always G) :
    (p.logged : Program L σ ε' Unit).Always G := by
  induction p with
  | done a => trivial
  | fail e => trivial
  | statement l move next failed ihnext ihfailed =>
      obtain ⟨hmove, hnext, hfailed⟩ := hp
      exact ⟨hmove, fun s => ihnext s (hnext s), ihfailed hfailed⟩

theorem Always.exec {l : L} {e : ε} {move : σ → σ} (h : ∀ s, G s (move s)) :
    (exec l e move).Always G :=
  ⟨h, fun _ => trivial, trivial⟩

theorem Always.ask (hrefl : ∀ s, G s s) (l : L) (e : ε) (read : σ → α) :
    (ask l e read).Always G :=
  ⟨hrefl, fun _ => trivial, trivial⟩

theorem Always.askOr (hrefl : ∀ s, G s s) (l : L) (read : σ → α) (default : α) :
    (askOr l read default : Program L σ ε α).Always G :=
  ⟨hrefl, fun _ => trivial, trivial⟩

theorem Always.each {body : β → Program L σ ε Unit} (h : ∀ b, (body b).Always G) (bs : List β) :
    (each body bs).Always G := by
  induction bs with
  | nil => trivial
  | cons b bs ih => exact (h b).bind fun _ => ih

theorem Always.run (hrefl : ∀ s, G s s) (htrans : ∀ {s t u}, G s t → G t u → G s u)
    {p : Program L σ ε α} (hp : p.Always G) (s : σ) : G s (p.run fails s).1 := by
  induction p generalizing s with
  | done a => exact hrefl s
  | fail e => exact hrefl s
  | statement l move next failed ihnext ihfailed =>
      obtain ⟨hmove, hnext, hfailed⟩ := hp
      rw [Program.run]
      split
      · exact ihfailed hfailed s
      · exact htrans (hmove s) (ihnext s (hnext s) (move s))

theorem Always.next (hrefl : ∀ s, G s s) {p : Program L σ ε α} (hp : p.Always G) (b : Bool)
    (s : σ) : G s (p.next b s).1 ∧ (p.next b s).2.Always G := by
  cases p with
  | done a => exact ⟨hrefl s, trivial⟩
  | fail e => exact ⟨hrefl s, trivial⟩
  | statement l move next failed =>
      obtain ⟨hmove, hnext, hfailed⟩ := hp
      cases b with
      | false => exact ⟨hmove s, hnext s⟩
      | true => exact ⟨hrefl s, hfailed⟩

end

/-! ### What a program may fail with -/

def FailsOnly (I : σ → Prop) (E : ε → Prop) : Program L σ ε α → Prop
  | done _ => True
  | fail e => E e
  | statement _ _ next failed => (∀ s, I s → (next s).FailsOnly I E) ∧ failed.FailsOnly I E

section
variable {I : σ → Prop} {E : ε → Prop}

theorem FailsOnly.bind {p : Program L σ ε α} {k : α → Program L σ ε β} (hp : p.FailsOnly I E)
    (hk : ∀ a, (k a).FailsOnly I E) : (p >>= k).FailsOnly I E := by
  change (p.bind k).FailsOnly I E
  induction p with
  | done a => exact hk a
  | fail e => exact hp
  | statement l move next failed ihnext ihfailed =>
      obtain ⟨hnext, hfailed⟩ := hp
      exact ⟨fun s hs => ihnext s (hnext s hs), ihfailed hfailed⟩

theorem FailsOnly.askOr (l : L) (read : σ → α) (default : α) :
    (askOr l read default : Program L σ ε α).FailsOnly I E :=
  ⟨fun _ _ => trivial, trivial⟩

theorem FailsOnly.logged (p : Program L σ ε Unit) :
    (p.logged : Program L σ ε' Unit).FailsOnly I fun _ => False := by
  induction p with
  | done a => trivial
  | fail e => trivial
  | statement l move next failed ihnext ihfailed => exact ⟨fun s _ => ihnext s, ihfailed⟩

theorem FailsOnly.each {body : β → Program L σ ε Unit} (h : ∀ b, (body b).FailsOnly I E)
    (bs : List β) : (each body bs).FailsOnly I E := by
  induction bs with
  | nil => trivial
  | cons b bs ih => exact (h b).bind fun _ => ih

theorem FailsOnly.next {p : Program L σ ε α} (hp : p.FailsOnly I E) (b : Bool) {s : σ}
    (hs : I s) : (p.next b s).2.FailsOnly I E := by
  cases p with
  | done a => trivial
  | fail e => exact hp
  | statement l move next failed =>
      obtain ⟨hnext, hfailed⟩ := hp
      cases b with
      | false => exact hnext s hs
      | true => exact hfailed

end

/-! ### Programs that do not give up -/

def Completes (fails : L → Bool) (p : Program L σ ε α) : Prop :=
  ∀ s, ∃ t a, p.run fails s = (t, .ok a)

theorem Completes.done (a : α) : Completes fails (done a : Program L σ ε α) :=
  fun s => ⟨s, a, rfl⟩

theorem Completes.bind {p : Program L σ ε α} {k : α → Program L σ ε β} (hp : p.Completes fails)
    (hk : ∀ a, (k a).Completes fails) : (p >>= k).Completes fails := by
  intro s
  obtain ⟨t, a, ht⟩ := hp s
  rw [run_bind_ok ht]
  exact hk a t

theorem Completes.exec {l : L} (h : fails l = false) (e : ε) (move : σ → σ) :
    (exec l e move).Completes fails := by
  intro s
  refine ⟨move s, (), ?_⟩
  rw [Program.exec, run, h]
  rfl

theorem Completes.ask {l : L} (h : fails l = false) (e : ε) (read : σ → α) :
    (ask l e read).Completes fails := by
  intro s
  refine ⟨s, read s, ?_⟩
  rw [Program.ask, run, h]
  rfl

theorem Completes.askOr (l : L) (read : σ → α) (default : α) :
    (askOr l read default : Program L σ ε α).Completes fails := by
  intro s
  rw [Program.askOr, run]
  split
  · exact ⟨s, default, rfl⟩
  · exact ⟨s, read s, rfl⟩

theorem Completes.each {body : β → Program L σ ε Unit} {bs : List β}
    (h : ∀ b ∈ bs, (body b).Completes fails) : (each body bs).Completes fails := by
  induction bs with
  | nil => exact .done ()
  | cons b bs ih =>
      exact (h b List.mem_cons_self).bind fun _ => ih fun c hc => h c (List.mem_cons_of_mem b hc)

theorem Completes.logged (p : Program L σ ε Unit) :
    (p.logged : Program L σ ε' Unit).Completes fails := by
  intro s
  induction p generalizing s with
  | done a => exact ⟨s, a, rfl⟩
  | fail e => exact ⟨s, (), rfl⟩
  | statement l move next failed ihnext ihfailed =>
      rw [Program.logged, run]
      split
      · exact ihfailed s
      · exact ihnext s (move s)

/-! ### What a program ends well with -/

/-- When a run from this store ends well, this holds of its answer and the store it leaves. -/
def Yields (fails : L → Bool) (s : σ) (p : Program L σ ε α) (Q : α → σ → Prop) : Prop :=
  ∀ t a, p.run fails s = (t, .ok a) → Q a t

section
variable {s : σ} {Q : α → σ → Prop}

theorem Yields.done {a : α} (h : Q a s) : Yields fails s (done a : Program L σ ε α) Q := by
  intro t b hrun
  cases hrun
  exact h

theorem Yields.fail {e : ε} : Yields fails s (fail e : Program L σ ε α) Q := by
  intro t b hrun
  cases hrun

theorem Yields.bind {p : Program L σ ε α} {k : α → Program L σ ε β} {R : β → σ → Prop}
    (hp : Yields fails s p Q) (hk : ∀ a t, Q a t → Yields fails t (k a) R) :
    Yields fails s (p >>= k) R := by
  intro u b hrun
  cases h : p.run fails s with
  | mk t result =>
      cases result with
      | error e =>
          rw [run_bind_error h] at hrun
          cases hrun
      | ok a =>
          rw [run_bind_ok h] at hrun
          exact hk a t (hp t a h) u b hrun

theorem Yields.ask {l : L} {e : ε} {read : σ → α} (h : Q (read s) s) :
    Yields fails s (ask l e read) Q := by
  intro t a hrun
  rw [Program.ask, run] at hrun
  split at hrun
  · cases hrun
  · cases hrun
    exact h

theorem Yields.askOr {l : L} {read : σ → α} {default : α} (h : fails l = false → Q (read s) s)
    (hdefault : fails l = true → Q default s) :
    Yields fails s (askOr l read default : Program L σ ε α) Q := by
  intro t a hrun
  rw [Program.askOr, run] at hrun
  split at hrun
  next hl =>
    cases hrun
    exact hdefault hl
  next hl =>
    cases hrun
    exact h (by simpa using hl)

theorem Yields.exec {l : L} {e : ε} {move : σ → σ} {Q : Unit → σ → Prop} (h : Q () (move s)) :
    Yields fails s (exec l e move) Q := by
  intro t a hrun
  rw [Program.exec, run] at hrun
  split at hrun
  · cases hrun
  · cases hrun
    exact h

theorem Always.leads {G : σ → σ → Prop} (hrefl : ∀ s, G s s)
    (htrans : ∀ {s t u}, G s t → G t u → G s u) {p : Program L σ ε α} (h : p.Always G) :
    Yields fails s p fun _ t => G s t := by
  intro t a hrun
  have hleads : G s (p.run fails s).1 := h.run hrefl htrans s
  rwa [hrun] at hleads

theorem Always.yields {p : Program L σ ε α} (h : p.Always Eq) :
    Yields fails s p fun _ t => t = s :=
  fun t a hrun => (h.leads (fun _ => rfl) (fun hst htu => hst.trans htu) t a hrun).symm

end
end Program
end Eunha.Programs
