import Eunha.NoteReading

/-!
# Polls of other servers

A poll arrives with a note, or is refreshed with a later version of it. The options are the
names of the items that have one, the tallies are the totals of all items, and the votes are
the sum of the tallies in a word of 64 bits. The two passes line up when every item has a
name.
-/
namespace Eunha.RemotePolls
open JsonText (Value)
open Notes (Json member asString)
open NoteReading (asI64 asArray)

/-! ### The columns -/

structure Columns where
  options : List String
  cachedTallies : List ℤ
  votesCount : ℤ
  multiple : Bool
  expiresAt : Option ℤ
  deriving DecidableEq

structure Poll extends Columns where
  id : ℕ
  statusId : ℕ
  accountId : ℕ
  deriving DecidableEq

/-- A sum of `i64`s, which wraps. -/
def sumI64 (ns : List ℤ) : ℤ := ns.foldl (fun sum n => Int.bmod (sum + n) (2 ^ 64)) 0

/-- `oneOf`, or else `anyOf`. -/
def itemsOf (object : Json) : Option (List Json) :=
  ((member "oneOf" object).or (member "anyOf" object)).bind asArray

def nameOf (item : Json) : Option String := (member "name" item).bind asString

def totalOf (item : Json) : ℤ := (((member "replies" item).bind (member "totalItems")).bind asI64).getD 0

def columnsOf (parseRfc3339 : String → Option ℤ) (object : Json) (items : List Json) : Columns :=
  let cachedTallies := items.map totalOf
  { options := items.filterMap nameOf
    cachedTallies := cachedTallies
    votesCount := sumI64 cachedTallies
    multiple := (member "anyOf" object).isSome
    expiresAt := ((member "endTime" object).bind asString).bind parseRfc3339 }

/-! ### What is written -/

/-- The status a poll is of, its author, and the id that is next. -/
structure Subject where
  statusId : ℕ
  accountId : ℕ
  pollId : ℕ

variable (parseRfc3339 : String → Option ℤ) (s : Subject)

/-- `INSERT INTO polls … WHERE NOT EXISTS (SELECT 1 FROM polls WHERE status_id = …)` -/
def insertPoll (columns : Columns) (polls : List Poll) : List Poll :=
  if polls.any (·.statusId = s.statusId) then polls
  else polls ++ [⟨columns, s.pollId, s.statusId, s.accountId⟩]

/-- The poll of a `Create`. -/
def createPoll (object : Json) (polls : List Poll) : List Poll :=
  match itemsOf object with
  | none => polls
  | some items => insertPoll s (columnsOf parseRfc3339 object items) polls

def syncRemotePoll (object : Json) (polls : List Poll) : List Poll :=
  match itemsOf object with
  | none => polls
  | some items =>
      let columns := columnsOf parseRfc3339 object items
      if columns.options = [] then polls
      else
        match polls.find? (·.statusId = s.statusId) with
        | some poll =>
            polls.map fun p => if p.id = poll.id then { p with toColumns := columns } else p
        | none => insertPoll s columns polls

/-! ### What they should be -/

/-- The options with their tallies, one for each item with a name, and the sum of these. -/
structure Aligned (items : List Json) (c : Columns) : Prop where
  options : c.options = (items.filter fun item => (nameOf item).isSome).filterMap nameOf
  tallies : c.cachedTallies = (items.filter fun item => (nameOf item).isSome).map totalOf
  total : c.votesCount = c.cachedTallies.sum

def Stored (items : List Json) (polls : List Poll) : Prop :=
  ∃ poll, polls.find? (·.statusId = s.statusId) = some poll ∧ Aligned items poll.toColumns

/-- Every item has a name, and the sum of the totals fits in 64 bits. -/
structure Plain (items : List Json) : Prop where
  named : ∀ item ∈ items, (nameOf item).isSome
  low : -2 ^ 63 ≤ (items.map totalOf).sum
  high : (items.map totalOf).sum < 2 ^ 63

variable {parseRfc3339 s} {object : Json} {items : List Json} {polls : List Poll} {c : Columns}

/-! ### One of them -/

theorem foldl_bmod (ns : List ℤ) (sum : ℤ) :
    ns.foldl (fun sum n => Int.bmod (sum + n) (2 ^ 64)) (Int.bmod sum (2 ^ 64)) =
      Int.bmod (sum + ns.sum) (2 ^ 64) := by
  induction ns generalizing sum with
  | nil => simp
  | cons n ns ih =>
      rw [List.foldl_cons, Int.bmod_add_bmod, ih, List.sum_cons, Int.add_assoc]

theorem sumI64_eq (ns : List ℤ) : sumI64 ns = Int.bmod ns.sum (2 ^ 64) := by
  have h := foldl_bmod ns 0
  rw [Int.zero_add] at h
  exact h

theorem sumI64_eq_sum_iff (ns : List ℤ) :
    sumI64 ns = ns.sum ↔ -2 ^ 63 ≤ ns.sum ∧ ns.sum < 2 ^ 63 := by
  rw [sumI64_eq]
  constructor
  · intro h
    have hlow : -((2 ^ 64 : ℕ) : ℤ) / 2 ≤ Int.bmod ns.sum (2 ^ 64) := Int.le_bmod (by decide)
    have hhigh : Int.bmod ns.sum (2 ^ 64) < ((2 ^ 64 : ℕ) + 1 : ℤ) / 2 := Int.bmod_lt (by decide)
    omega
  · intro h
    exact Int.bmod_eq_of_le (by omega) (by omega)

theorem tallies_eq_iff :
    items.map totalOf = (items.filter fun item => (nameOf item).isSome).map totalOf ↔
      ∀ item ∈ items, (nameOf item).isSome := by
  constructor
  · intro h
    have hlength := congrArg List.length h
    rw [List.length_map, List.length_map] at hlength
    have hall : items.filter (fun item => (nameOf item).isSome) = items :=
      List.filter_sublist.eq_of_length hlength.symm
    exact List.filter_eq_self.mp hall
  · intro h
    rw [List.filter_eq_self.mpr h]

theorem options_eq :
    items.filterMap nameOf = (items.filter fun item => (nameOf item).isSome).filterMap nameOf := by
  induction items with
  | nil => rfl
  | cons item items ih =>
      cases hname : nameOf item with
      | none => rw [List.filterMap_cons_none hname, List.filter_cons_of_neg (by simp [hname]), ih]
      | some name =>
          rw [List.filterMap_cons_some hname, List.filter_cons_of_pos (by simp [hname]),
            List.filterMap_cons_some hname, ih]

theorem aligned_iff : Aligned items (columnsOf parseRfc3339 object items) ↔ Plain items := by
  constructor
  · intro h
    have hfits := (sumI64_eq_sum_iff _).mp h.total
    exact ⟨tallies_eq_iff.mp h.tallies, hfits.1, hfits.2⟩
  · intro h
    exact ⟨options_eq, tallies_eq_iff.mpr h.named, (sumI64_eq_sum_iff _).mpr ⟨h.low, h.high⟩⟩

/-! ### What is stored -/

theorem find?_insertPoll (h : polls.any (·.statusId = s.statusId) = false) :
    (insertPoll s c polls).find? (·.statusId = s.statusId) =
      some ⟨c, s.pollId, s.statusId, s.accountId⟩ := by
  have hnone : polls.find? (·.statusId = s.statusId) = none := by
    apply List.find?_eq_none.mpr
    intro p hp
    exact List.any_eq_false.mp h p hp
  rw [insertPoll, h, if_neg Bool.false_ne_true, List.find?_append, hnone]
  simp

theorem find?_update {poll : Poll} (h : polls.find? (·.statusId = s.statusId) = some poll) :
    ∃ p, (polls.map fun p => if p.id = poll.id then { p with toColumns := c } else p).find?
      (·.statusId = s.statusId) = some p ∧ p.toColumns = c := by
  refine ⟨{ poll with toColumns := c }, ?_, rfl⟩
  have hsame : ∀ p : Poll, (if p.id = poll.id then { p with toColumns := c } else p).statusId =
      p.statusId := by
    intro p
    split <;> rfl
  rw [List.find?_map]
  have hkey : ((fun p : Poll => decide (p.statusId = s.statusId)) ∘ fun p =>
      if p.id = poll.id then { p with toColumns := c } else p) =
      fun p => decide (p.statusId = s.statusId) := by
    funext p
    rw [Function.comp_apply, hsame]
  rw [hkey, h, Option.map_some, if_pos rfl]

theorem stored_iff {poll : Poll} (h : polls.find? (·.statusId = s.statusId) = some poll) :
    Stored s items polls ↔ Aligned items poll.toColumns := by
  constructor
  · rintro ⟨p, hp, haligned⟩
    cases h.symm.trans hp
    exact haligned
  · intro haligned
    exact ⟨poll, h, haligned⟩

theorem any_eq_false_of_find? (h : polls.find? (·.statusId = s.statusId) = none) :
    polls.any (·.statusId = s.statusId) = false := by
  apply List.any_eq_false.mpr
  intro p hp
  exact List.find?_eq_none.mp h p hp

theorem stored_createPoll_iff (hitems : itemsOf object = some items)
    (h : polls.any (·.statusId = s.statusId) = false) :
    Stored s items (createPoll parseRfc3339 s object polls) ↔ Plain items := by
  rw [createPoll, hitems]
  exact (stored_iff (find?_insertPoll h)).trans aligned_iff

theorem stored_syncRemotePoll_iff (hitems : itemsOf object = some items)
    (h : items.filterMap nameOf ≠ []) :
    Stored s items (syncRemotePoll parseRfc3339 s object polls) ↔ Plain items := by
  have hoptions : (columnsOf parseRfc3339 object items).options ≠ [] := h
  rw [syncRemotePoll, hitems]
  dsimp only
  rw [if_neg hoptions]
  cases hfind : polls.find? (·.statusId = s.statusId) with
  | none =>
      exact (stored_iff (find?_insertPoll (any_eq_false_of_find? hfind))).trans aligned_iff
  | some poll =>
      obtain ⟨p, hp, hcolumns⟩ :=
        find?_update (c := columnsOf parseRfc3339 object items) hfind
      refine (stored_iff hp).trans ?_
      rw [hcolumns]
      exact aligned_iff

/-- A poll that is created or refreshed is stored with its tallies beside its options exactly
when every item has a name and the totals add up to no more than 64 bits. -/
theorem polls_aligned_iff (parseRfc3339 : String → Option ℤ) (s : Subject) (object : Json)
    (items : List Json) (polls : List Poll) :
    (itemsOf object = some items → polls.any (·.statusId = s.statusId) = false →
      (Stored s items (createPoll parseRfc3339 s object polls) ↔ Plain items)) ∧
    (itemsOf object = some items → items.filterMap nameOf ≠ [] →
      (Stored s items (syncRemotePoll parseRfc3339 s object polls) ↔ Plain items)) ∧
    (itemsOf object = some items → items.filterMap nameOf = [] →
      syncRemotePoll parseRfc3339 s object polls = polls) ∧
    (itemsOf object = none → createPoll parseRfc3339 s object polls = polls ∧
      syncRemotePoll parseRfc3339 s object polls = polls) := by
  refine ⟨stored_createPoll_iff, stored_syncRemotePoll_iff, fun hitems hnone => ?_, fun hitems => ?_⟩
  · rw [syncRemotePoll, hitems]
    exact if_pos hnone
  · rw [createPoll, syncRemotePoll, hitems]
    exact ⟨rfl, rfl⟩

/-! ### An item with a name, and one without -/

def total (n : ℤ) : List Char × Json :=
  ("replies".toList, .object [("totalItems".toList, .number n)])

def named (name : Char) (n : ℤ) : Json := .object [("name".toList, .string [name]), total n]

def twoNamed : Json := .object [("oneOf".toList, .array [named 'A' 5, named 'B' 1])]

theorem plain_twoNamed : Plain [named 'A' 5, named 'B' 1] where
  named := by
    intro item hitem
    rcases List.mem_pair.mp hitem with rfl | rfl <;> decide
  low := by decide
  high := by decide

theorem aligned_twoNamed :
    Stored ⟨1, 1, 1⟩ [named 'A' 5, named 'B' 1]
      (createPoll (fun _ => none) ⟨1, 1, 1⟩ twoNamed []) :=
  ((polls_aligned_iff (fun _ => none) ⟨1, 1, 1⟩ twoNamed [named 'A' 5, named 'B' 1] []).1 rfl
    rfl).mpr plain_twoNamed

def unnamedFirst : Json :=
  .object [("oneOf".toList, .array [.object [total 5], named 'A' 1])]

def hugeTotals : Json :=
  .object [("anyOf".toList, .array [named 'A' (2 ^ 63 - 1), named 'B' 1])]

/-- The tally of the only option is that of another item. -/
theorem unnamed_misaligned :
    ¬ Stored ⟨1, 1, 1⟩ ((itemsOf unnamedFirst).getD [])
        (createPoll (fun _ => none) ⟨1, 1, 1⟩ unnamedFirst []) ∧
      ¬ Stored ⟨1, 1, 1⟩ ((itemsOf hugeTotals).getD [])
        (syncRemotePoll (fun _ => none) ⟨1, 1, 1⟩ hugeTotals []) := by
  constructor
  · intro h
    have hplain := (stored_createPoll_iff rfl rfl).mp h
    exact absurd (hplain.named (.object [total 5]) List.mem_cons_self) (by decide)
  · intro h
    have hplain := (stored_syncRemotePoll_iff rfl (by decide)).mp h
    exact absurd hplain.high (by decide)

end Eunha.RemotePolls
