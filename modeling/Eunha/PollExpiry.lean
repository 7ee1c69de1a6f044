import Eunha.Runs
import Mathlib

/-!
# Announcing that polls have ended

A task passes over the polls that have ended since its mark, at most a batch at a time, oldest
first, and tells their authors and voters. The mark is the expiry and the id of the last poll of
a full batch, or else the time of the pass; it is kept in memory, and without one a pass starts
two minutes back. Between passes polls are created, edited and removed.

Times are microseconds. A pass may fail in its first reads, or in reading the voters of one of
its polls, which ends it before the mark moves. When the first pass was made, when the last one
was and what was announced are kept beside the mark.
-/
namespace Eunha.PollExpiry
open Runs

/-! ### The model -/

structure Poll where
  id : ℤ
  expiresAt : Option ℤ
  deriving DecidableEq

/-- `PollExpiryMark`, in the order of `(expires_at, id)`. -/
abbrev Mark := ℤ ×ₗ ℤ

def idMax : ℤ := 2 ^ 63 - 1
def twoMinutes : ℤ := 120000000

/-- `POLL_EXPIRY_BATCH` -/
def batchSize : ℕ := 100

structure PollTable where
  rows : List Poll
  ids_nodup : (rows.map Poll.id).Nodup
  id_le : ∀ p ∈ rows, p.id ≤ idMax

structure State where
  polls : PollTable
  mark : Option Mark := none
  started : Option ℤ := none
  last : Option ℤ := none
  handled : List ℤ := []

def Poll.key (p : Poll) : Mark := toLex (p.expiresAt.getD 0, p.id)

def upTo (time : ℤ) : Mark := toLex (time, idMax)

def isDue (mark : Mark) (now : ℤ) (p : Poll) : Bool :=
  match p.expiresAt with
  | none => false
  | some e => mark < p.key ∧ e ≤ now

def ended (polls : PollTable) (mark : Mark) (now : ℤ) : List Poll :=
  (polls.rows.filter (isDue mark now)).insertionSort fun p q => p.key ≤ q.key

def batch (polls : PollTable) (mark : Mark) (now : ℤ) : List Poll :=
  (ended polls mark now).take batchSize

/-- How far a pass gets. -/
def reached (expired : List Poll) (now : ℤ) : Mark :=
  match expired.getLast? with
  | some last => if expired.length = batchSize then last.key else upTo now
  | none => upTo now

/-- What fails of a pass: its first reads, the voters of one of its polls, or nothing. -/
inductive Outcome where
  | unread
  | voters (place : ℕ)
  | passed
  deriving DecidableEq

def State.from (s : State) (now : ℤ) : Mark := s.mark.getD (upTo (now - twoMinutes))

/-- `notify_polls_expired_after`, called by `run_poll_expiry`. -/
def pass (s : State) (now : ℤ) (outcome : Outcome) : State :=
  let expired := batch s.polls (s.from now) now
  let s' := { s with started := some (s.started.getD now), last := some now }
  match outcome with
  | .unread => s'
  | .voters place =>
      if place < expired.length then
        { s' with handled := s.handled ++ (expired.take (place + 1)).map Poll.id }
      else
        { s' with
          handled := s.handled ++ expired.map Poll.id, mark := some (reached expired now) }
  | .passed =>
      { s' with handled := s.handled ++ expired.map Poll.id, mark := some (reached expired now) }

def PollTable.save (t : PollTable) (p : Poll) (h : p.id ≤ idMax) : PollTable where
  rows := p :: t.rows.filter fun q => q.id ≠ p.id
  ids_nodup := by
    rw [List.map_cons, List.nodup_cons]
    refine ⟨fun hmem => ?_, t.ids_nodup.sublist (List.filter_sublist.map _)⟩
    obtain ⟨q, hq, hid⟩ := List.mem_map.mp hmem
    exact of_decide_eq_true (List.mem_filter.mp hq).2 hid
  id_le := by
    intro q hq
    rcases List.mem_cons.mp hq with rfl | hmem
    · exact h
    · exact t.id_le q (List.mem_of_mem_filter hmem)

def PollTable.remove (t : PollTable) (id : ℤ) : PollTable where
  rows := t.rows.filter fun q => q.id ≠ id
  ids_nodup := t.ids_nodup.sublist (List.filter_sublist.map _)
  id_le := fun q hq => t.id_le q (List.mem_of_mem_filter hq)

inductive Op where
  | save (p : Poll) (h : p.id ≤ idMax)
  | remove (id : ℤ)
  | pass (now : ℤ) (outcome : Outcome)

def step (s : State) : Op → State
  | .save p h => { s with polls := s.polls.save p h }
  | .remove id => { s with polls := s.polls.remove id }
  | .pass now outcome => pass s now outcome

def start (polls : PollTable) : State := { polls := polls }

/-! ### Announced once -/

/-- No poll is handled twice, and those behind the mark that ended since the start have been. -/
structure AnnouncedOnce (s : State) : Prop where
  once : s.handled.Nodup
  behind : ∀ n₀ m, s.started = some n₀ → s.mark = some m →
    ∀ p ∈ s.polls.rows, ∀ e, p.expiresAt = some e →
      (p.id ∈ s.handled ↔ n₀ - twoMinutes < e ∧ p.key ≤ m)

/-- Every poll that has ended since the start has been handled. -/
def CaughtUp (s : State) (now : ℤ) : Prop :=
  ∀ n₀, s.started = some n₀ → ∀ p ∈ s.polls.rows, ∀ e, p.expiresAt = some e →
    n₀ - twoMinutes < e → e ≤ now → p.id ∈ s.handled

def ahead (s : State) (p : Poll) : Prop :=
  p.expiresAt ≠ none → p.id ∉ s.handled ∧ ∀ m, s.mark = some m → m < p.key

/-- No poll ended between the start and two minutes before the first pass that goes well. -/
def noneMissed (s : State) (now : ℤ) : Prop :=
  s.mark = none → ∀ n₀, s.started = some n₀ → ∀ p ∈ s.polls.rows, ∀ e, p.expiresAt = some e →
    n₀ - twoMinutes < e → now - twoMinutes < e

def votersRead (s : State) (now : ℤ) : Outcome → Prop
  | .voters place => (batch s.polls (s.from now) now).length ≤ place
  | _ => True

def guard (s : State) : Op → Prop
  | .save p _ => ahead s p
  | .remove _ => True
  | .pass now outcome =>
      (∀ l, s.last = some l → l ≤ now) ∧ noneMissed s now ∧ votersRead s now outcome

/-! ### One batch -/

theorem mem_ended {polls : PollTable} {mark : Mark} {now : ℤ} {p : Poll} :
    p ∈ ended polls mark now ↔ p ∈ polls.rows ∧ isDue mark now p = true := by
  rw [ended, List.mem_insertionSort, List.mem_filter]

theorem isDue_iff {mark : Mark} {now : ℤ} {p : Poll} {e : ℤ} (he : p.expiresAt = some e) :
    isDue mark now p = true ↔ mark < p.key ∧ e ≤ now := by
  rw [isDue, he]
  exact decide_eq_true_iff

theorem exists_expiry {mark : Mark} {now : ℤ} {p : Poll} (h : isDue mark now p = true) :
    ∃ e, p.expiresAt = some e := by
  cases he : p.expiresAt with
  | none =>
      rw [isDue, he] at h
      cases h
  | some e => exact ⟨e, rfl⟩

theorem key_eq {p : Poll} {e : ℤ} (he : p.expiresAt = some e) : p.key = toLex (e, p.id) := by
  rw [Poll.key, he, Option.getD_some]

theorem key_le_upTo {p : Poll} {e : ℤ} (he : p.expiresAt = some e) (hid : p.id ≤ idMax)
    (now : ℤ) : p.key ≤ upTo now ↔ e ≤ now := by
  rw [key_eq he, upTo, Prod.Lex.toLex_le_toLex]
  constructor
  · rintro (h | ⟨h, -⟩)
    · exact h.le
    · exact h.le
  · intro h
    rcases h.lt_or_eq with hlt | heq
    · exact .inl hlt
    · exact .inr ⟨heq, hid⟩

theorem upTo_lt_key {p : Poll} {e : ℤ} (he : p.expiresAt = some e) (hid : p.id ≤ idMax)
    (now : ℤ) : upTo now < p.key ↔ now < e := by
  rw [← not_le, key_le_upTo he hid, not_le]

theorem upTo_le_upTo {a b : ℤ} (h : a ≤ b) : upTo a ≤ upTo b := by
  rw [upTo, upTo, Prod.Lex.toLex_le_toLex]
  rcases h.lt_or_eq with hlt | heq
  · exact .inl hlt
  · exact .inr ⟨heq, le_rfl⟩

theorem ids_ended (polls : PollTable) (mark : Mark) (now : ℤ) :
    ((ended polls mark now).map Poll.id).Nodup :=
  ((List.perm_insertionSort _ _).map Poll.id).nodup_iff.mpr
    (polls.ids_nodup.sublist (List.filter_sublist.map _))

theorem ended_sorted (polls : PollTable) (mark : Mark) (now : ℤ) :
    (ended polls mark now).Pairwise fun p q => p.key < q.key := by
  have : Std.Total fun p q : Poll => p.key ≤ q.key := ⟨fun p q => le_total p.key q.key⟩
  have : IsTrans Poll fun p q => p.key ≤ q.key := ⟨fun _ _ _ hpq hqr => hpq.trans hqr⟩
  have hle : (ended polls mark now).Pairwise fun p q => p.key ≤ q.key :=
    List.pairwise_insertionSort _ _
  have hne : (ended polls mark now).Pairwise fun p q => p.id ≠ q.id :=
    List.pairwise_map.mp (ids_ended polls mark now)
  refine (hle.and hne).imp fun {p q} h => lt_of_le_of_ne h.1 fun heq => h.2 ?_
  exact congrArg (fun m : Mark => (ofLex m).2) heq

theorem mem_take_iff {l : List Poll} (h : l.Pairwise fun p q => p.key < q.key) {n : ℕ}
    {last : Poll} (hlast : (l.take n).getLast? = some last) {p : Poll} (hp : p ∈ l) :
    p ∈ l.take n ↔ p.key ≤ last.key := by
  obtain ⟨before, hbefore⟩ := List.getLast?_eq_some_iff.mp hlast
  have hsplit : l = before ++ [last] ++ l.drop n := by
    rw [← hbefore, List.take_append_drop]
  rw [hsplit, List.pairwise_append, List.pairwise_append] at h
  obtain ⟨⟨-, -, hinit⟩, -, hrest⟩ := h
  constructor
  · intro hmem
    rw [hbefore, List.mem_append, List.mem_singleton] at hmem
    rcases hmem with hmem | rfl
    · exact (hinit p hmem last List.mem_cons_self).le
    · exact le_rfl
  · intro hle
    rw [hsplit, ← hbefore, List.mem_append] at hp
    rcases hp with hmem | hmem
    · exact hmem
    · exact absurd (hrest last (List.mem_append_right _ List.mem_cons_self) p hmem) hle.not_gt

theorem mem_batch {polls : PollTable} {mark : Mark} {now : ℤ} {p : Poll} {e : ℤ}
    (hp : p ∈ polls.rows) (he : p.expiresAt = some e) :
    p ∈ batch polls mark now ↔
      mark < p.key ∧ p.key ≤ reached (batch polls mark now) now := by
  have hid := polls.id_le p hp
  have hall : p ∈ ended polls mark now ↔ mark < p.key ∧ p.key ≤ upTo now := by
    rw [mem_ended, isDue_iff he, key_le_upTo he hid]
    exact and_iff_right hp
  cases hlast : (batch polls mark now).getLast? with
  | none =>
      have hnil : ended polls mark now = [] := by
        have hbatch := List.getLast?_eq_none_iff.mp hlast
        rw [batch, List.take_eq_nil_iff] at hbatch
        exact hbatch.resolve_left (by decide)
      rw [reached, hlast, ← hall, batch, hnil]
      rfl
  | some last =>
      by_cases hfull : (batch polls mark now).length = batchSize
      · simp only [reached, hlast, if_pos hfull]
        have hlastmem : last ∈ ended polls mark now :=
          List.mem_of_mem_take (List.mem_of_getLast? hlast)
        obtain ⟨hrow, hdue⟩ := mem_ended.mp hlastmem
        obtain ⟨e', he'⟩ := exists_expiry hdue
        have hle : last.key ≤ upTo now :=
          (key_le_upTo he' (polls.id_le last hrow) now).mpr ((isDue_iff he').mp hdue).2
        constructor
        · intro hmem
          have hin := List.mem_of_mem_take hmem
          exact ⟨(hall.mp hin).1, (mem_take_iff (ended_sorted polls mark now) hlast hin).mp hmem⟩
        · rintro ⟨hmark, hkey⟩
          exact (mem_take_iff (ended_sorted polls mark now) hlast
            (hall.mpr ⟨hmark, hkey.trans hle⟩)).mpr hkey
      · simp only [reached, hlast, if_neg hfull]
        rw [← hall, batch, List.take_of_length_le]
        by_contra hlong
        exact hfull (List.length_take_of_le (by omega))

theorem id_mem_batch {polls : PollTable} {mark : Mark} {now : ℤ} {p : Poll}
    (hp : p ∈ polls.rows) :
    p.id ∈ (batch polls mark now).map Poll.id ↔ p ∈ batch polls mark now := by
  constructor
  · intro hmem
    obtain ⟨q, hq, hid⟩ := List.mem_map.mp hmem
    have hrow : q ∈ polls.rows := (mem_ended.mp (List.mem_of_mem_take hq)).1
    rwa [← List.inj_on_of_nodup_map polls.ids_nodup hrow hp hid]
  · exact List.mem_map_of_mem

theorem reached_le (polls : PollTable) (mark : Mark) (now : ℤ) :
    reached (batch polls mark now) now ≤ upTo now := by
  cases hlast : (batch polls mark now).getLast? with
  | none => rw [reached, hlast]
  | some last =>
      by_cases hfull : (batch polls mark now).length = batchSize
      · simp only [reached, hlast, if_pos hfull]
        obtain ⟨hrow, hdue⟩ :=
          mem_ended.mp (List.mem_of_mem_take (List.mem_of_getLast? hlast))
        obtain ⟨e, he⟩ := exists_expiry hdue
        exact (key_le_upTo he (polls.id_le last hrow) now).mpr ((isDue_iff he).mp hdue).2
      · simp only [reached, hlast, if_neg hfull, le_refl]

theorem le_reached {polls : PollTable} {mark : Mark} {now : ℤ} (h : mark ≤ upTo now) :
    mark ≤ reached (batch polls mark now) now := by
  cases hlast : (batch polls mark now).getLast? with
  | none =>
      rw [reached, hlast]
      exact h
  | some last =>
      by_cases hfull : (batch polls mark now).length = batchSize
      · simp only [reached, hlast, if_pos hfull]
        obtain ⟨hrow, hdue⟩ :=
          mem_ended.mp (List.mem_of_mem_take (List.mem_of_getLast? hlast))
        obtain ⟨e, he⟩ := exists_expiry hdue
        exact ((isDue_iff he).mp hdue).1.le
      · simp only [reached, hlast, if_neg hfull]
        exact h

theorem reached_of_not_full {expired : List Poll} (h : expired.length ≠ batchSize) (now : ℤ) :
    reached expired now = upTo now := by
  unfold reached
  cases expired.getLast? with
  | none => rfl
  | some last => exact if_neg h

/-! ### The invariant -/

structure Inv (s : State) : Prop where
  once : s.handled.Nodup
  unmarked : s.mark = none → s.handled = []
  unstarted : s.started = none → s.mark = none
  started_le : ∀ n₀, s.started = some n₀ → ∃ l, s.last = some l ∧ n₀ ≤ l
  bounded : ∀ m, s.mark = some m → ∃ l, s.last = some l ∧ m ≤ upTo l
  floor : ∀ n₀ m, s.started = some n₀ → s.mark = some m → upTo (n₀ - twoMinutes) ≤ m
  behind : ∀ n₀ m, s.started = some n₀ → s.mark = some m →
    ∀ p ∈ s.polls.rows, ∀ e, p.expiresAt = some e →
      (p.id ∈ s.handled ↔ n₀ - twoMinutes < e ∧ p.key ≤ m)

theorem inv_start (polls : PollTable) : Inv (start polls) where
  once := List.nodup_nil
  unmarked := fun _ => rfl
  unstarted := fun _ => rfl
  started_le := fun _ h => by cases h
  bounded := fun _ h => by cases h
  floor := fun _ _ h => by cases h
  behind := fun _ _ h => by cases h

theorem Inv.announcedOnce {s : State} (h : Inv s) : AnnouncedOnce s := ⟨h.once, h.behind⟩

section
variable {s : State} {now : ℤ}

theorem from_le (h : Inv s) (hlast : ∀ l, s.last = some l → l ≤ now) : s.from now ≤ upTo now := by
  unfold State.from
  cases hmark : s.mark with
  | none =>
      rw [Option.getD_none]
      exact upTo_le_upTo (by unfold twoMinutes; omega)
  | some m =>
      obtain ⟨l, hl, hle⟩ := h.bounded m hmark
      rw [Option.getD_some]
      exact hle.trans (upTo_le_upTo (hlast l hl))

theorem started_le_now (h : Inv s) (hlast : ∀ l, s.last = some l → l ≤ now) :
    s.started.getD now ≤ now := by
  cases hstarted : s.started with
  | none => exact le_rfl
  | some n₀ =>
      obtain ⟨l, hl, hle⟩ := h.started_le n₀ hstarted
      exact hle.trans (hlast l hl)

theorem floor_le_from (h : Inv s) (hlast : ∀ l, s.last = some l → l ≤ now) :
    upTo (s.started.getD now - twoMinutes) ≤ s.from now := by
  have hle := started_le_now h hlast
  unfold State.from
  cases hmark : s.mark with
  | none =>
      rw [Option.getD_none]
      exact upTo_le_upTo (by omega)
  | some m =>
      cases hstarted : s.started with
      | none =>
          have hnone := h.unstarted hstarted
          rw [hmark] at hnone
          cases hnone
      | some n₀ => exact h.floor n₀ m hstarted hmark

theorem handled_before (h : Inv s) (hmissed : noneMissed s now) {p : Poll} {e : ℤ}
    (hp : p ∈ s.polls.rows) (he : p.expiresAt = some e) :
    p.id ∈ s.handled ↔ s.started.getD now - twoMinutes < e ∧ p.key ≤ s.from now := by
  have hid := s.polls.id_le p hp
  unfold State.from
  cases hmark : s.mark with
  | none =>
      rw [h.unmarked hmark, Option.getD_none, key_le_upTo he hid]
      refine iff_of_false List.not_mem_nil ?_
      rintro ⟨hafter, hbefore⟩
      cases hstarted : s.started with
      | none =>
          rw [hstarted, Option.getD_none] at hafter
          omega
      | some n₀ =>
          rw [hstarted, Option.getD_some] at hafter
          have hlt := hmissed hmark n₀ hstarted p hp e he hafter
          omega
  | some m =>
      cases hstarted : s.started with
      | none =>
          have hnone := h.unstarted hstarted
          rw [hmark] at hnone
          cases hnone
      | some n₀ => exact h.behind n₀ m hstarted hmark p hp e he

theorem inv_passed (h : Inv s) (hlast : ∀ l, s.last = some l → l ≤ now)
    (hmissed : noneMissed s now) : Inv (pass s now .passed) where
  once := by
    refine List.Nodup.append h.once ?_ ?_
    · exact (ids_ended s.polls (s.from now) now).sublist ((List.take_sublist _ _).map _)
    · intro id hold hnew
      obtain ⟨p, hp, rfl⟩ := List.mem_map.mp hnew
      obtain ⟨hrow, hdue⟩ := mem_ended.mp (List.mem_of_mem_take hp)
      obtain ⟨e, he⟩ := exists_expiry hdue
      have hbehind := ((handled_before h hmissed hrow he).mp hold).2
      exact absurd ((mem_batch hrow he).mp hp).1 hbehind.not_gt
  unmarked := fun hnone => by cases hnone
  unstarted := fun hnone => by cases hnone
  started_le := by
    intro n₀ hn₀
    obtain rfl := Option.some.inj hn₀
    exact ⟨now, rfl, started_le_now h hlast⟩
  bounded := by
    intro m hm
    obtain rfl := Option.some.inj hm
    exact ⟨now, rfl, reached_le _ _ _⟩
  floor := by
    intro n₀ m hn₀ hm
    obtain rfl := Option.some.inj hn₀
    obtain rfl := Option.some.inj hm
    exact (floor_le_from h hlast).trans (le_reached (from_le h hlast))
  behind := by
    intro n₀ m hn₀ hm p hp e he
    obtain rfl := Option.some.inj hn₀
    obtain rfl := Option.some.inj hm
    change p ∈ s.polls.rows at hp
    have hid := s.polls.id_le p hp
    have hreached : s.from now ≤ reached (batch s.polls (s.from now) now) now :=
      le_reached (from_le h hlast)
    change p.id ∈ s.handled ++ _ ↔ _
    rw [List.mem_append, handled_before h hmissed hp he, id_mem_batch hp, mem_batch hp he]
    constructor
    · rintro (⟨hafter, hle⟩ | ⟨hlt, hle⟩)
      · exact ⟨hafter, hle.trans hreached⟩
      · exact ⟨(upTo_lt_key he hid _).mp ((floor_le_from h hlast).trans_lt hlt), hle⟩
    · rintro ⟨hafter, hle⟩
      rcases le_or_gt p.key (s.from now) with hbefore | hbehind
      · exact .inl ⟨hafter, hbefore⟩
      · exact .inr ⟨hbehind, hle⟩

theorem inv_unread (h : Inv s) (hlast : ∀ l, s.last = some l → l ≤ now) :
    Inv (pass s now .unread) where
  once := h.once
  unmarked := h.unmarked
  unstarted := fun hnone => by cases hnone
  started_le := by
    intro n₀ hn₀
    obtain rfl := Option.some.inj hn₀
    exact ⟨now, rfl, started_le_now h hlast⟩
  bounded := by
    intro m hm
    obtain ⟨l, hl, hle⟩ := h.bounded m hm
    exact ⟨now, rfl, hle.trans (upTo_le_upTo (hlast l hl))⟩
  floor := by
    intro n₀ m hn₀ hm
    obtain rfl := Option.some.inj hn₀
    have hfloor := floor_le_from h hlast
    rwa [State.from, show s.mark = some m from hm, Option.getD_some] at hfloor
  behind := by
    intro n₀ m hn₀ hm p hp e he
    obtain rfl := Option.some.inj hn₀
    have hmark : s.mark = some m := hm
    have hbefore : p.id ∈ s.handled ↔
        s.started.getD now - twoMinutes < e ∧ p.key ≤ s.from now := handled_before h (fun hnone => by
      rw [hmark] at hnone
      cases hnone) hp he
    rwa [State.from, hmark, Option.getD_some] at hbefore

theorem inv_save (h : Inv s) {p : Poll} (hid : p.id ≤ idMax) (hahead : ahead s p) :
    Inv { s with polls := s.polls.save p hid } where
  once := h.once
  unmarked := h.unmarked
  unstarted := h.unstarted
  started_le := h.started_le
  bounded := h.bounded
  floor := h.floor
  behind := by
    intro n₀ m hn₀ hm q hq e he
    rcases List.mem_cons.mp hq with rfl | hmem
    · obtain ⟨hnot, hlt⟩ := hahead (by rw [he]; exact Option.some_ne_none e)
      exact iff_of_false hnot fun hboth => absurd (hlt m hm) hboth.2.not_gt
    · exact h.behind n₀ m hn₀ hm q (List.mem_of_mem_filter hmem) e he

theorem inv_remove (h : Inv s) (id : ℤ) : Inv { s with polls := s.polls.remove id } where
  once := h.once
  unmarked := h.unmarked
  unstarted := h.unstarted
  started_le := h.started_le
  bounded := h.bounded
  floor := h.floor
  behind := fun n₀ m hn₀ hm q hq => h.behind n₀ m hn₀ hm q (List.mem_of_mem_filter hq)

theorem inv_step (op : Op) (h : Inv s) (hg : guard s op) : Inv (step s op) := by
  cases op with
  | save p hid => exact inv_save h hid hg
  | remove id => exact inv_remove h id
  | pass now outcome =>
      obtain ⟨hlast, hmissed, hread⟩ := hg
      cases outcome with
      | unread => exact inv_unread h hlast
      | voters place =>
          change Inv (pass s now (.voters place))
          rw [pass, if_neg (not_lt.mpr hread)]
          exact inv_passed h hlast hmissed
      | passed => exact inv_passed h hlast hmissed

end

/-- The runs in which no pass fails at voters and no poll moves behind the mark. -/
theorem expiry_announced_once (polls : PollTable) (ops : List Op)
    (hg : Guarded step guard (start polls) ops) :
    AnnouncedOnce (run step (start polls) ops) ∧
      ∀ before now, ops = before ++ [.pass now .passed] →
        let s := run step (start polls) before
        (batch s.polls (s.from now) now).length = batchSize ∨
          CaughtUp (run step (start polls) ops) now := by
  have hinv : ∀ ops, Guarded step guard (start polls) ops → Inv (run step (start polls) ops) :=
    fun ops hg => run_guarded (fun _ op h hg => inv_step op h hg) (start polls) ops
      (inv_start polls) hg
  refine ⟨(hinv ops hg).announcedOnce, ?_⟩
  rintro before now rfl
  refine or_iff_not_imp_left.mpr fun hfull n₀ hn₀ p hp e he hafter hended => ?_
  have hafterpass := hinv _ hg
  have hid := (run step (start polls) (before ++ [.pass now .passed])).polls.id_le p hp
  refine (hafterpass.behind n₀ (upTo now) hn₀ ?_ p hp e he).mpr
    ⟨hafter, (key_le_upTo he hid now).mpr hended⟩
  rw [run_append]
  exact congrArg some (reached_of_not_full hfull now)

/-! ### A pass that fails halfway -/

def twoPolls : PollTable where
  rows := [⟨1, some 100⟩, ⟨2, some 100⟩]
  ids_nodup := by decide
  id_le := by decide

/-- The voters of poll 2 cannot be read, and the next pass begins where this one did. -/
def halfway : List Op := [.pass 200 (.voters 1), .pass 300 .passed]

example : (run step (start twoPolls) [.pass 200 .passed]).handled = [1, 2] := by decide +kernel

theorem handled_again : ¬ AnnouncedOnce (run step (start twoPolls) halfway) := by
  intro h
  have hhandled : ¬ (run step (start twoPolls) halfway).handled.Nodup := by decide +kernel
  exact hhandled h.once

theorem announced_in_one_pass :
    AnnouncedOnce (run step (start twoPolls) [.pass 200 .passed]) ∧
      ∀ before now, [Op.pass 200 .passed] = before ++ [.pass now .passed] →
        let s := run step (start twoPolls) before
        (batch s.polls (s.from now) now).length = batchSize ∨
          CaughtUp (run step (start twoPolls) [.pass 200 .passed]) now :=
  expiry_announced_once twoPolls [.pass 200 .passed]
    ⟨⟨fun l hl => (by cases hl), fun _ n₀ h => (by cases h), trivial⟩, trivial⟩

end Eunha.PollExpiry
