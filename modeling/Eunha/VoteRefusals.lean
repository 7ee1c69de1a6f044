import Eunha.NoteReading
import Eunha.PollVotes

/-!
# Votes that are refused

`vote_poll` checks each choice as it comes to it and inserts it before it looks at the next,
with no transaction, so a choice that is refused leaves the votes for those before it. And
`poll_votes` has no unique index for `ON CONFLICT DO NOTHING` to act on, so a choice given
twice is recorded twice. A statement may fail, and an error leaves what came before it.
-/
namespace Eunha.VoteRefusals
open Polls PollVotes
open Notes (Json)
open Roles (AppError parseI64)

/-! ### The form -/

def asI32? (n : ℤ) : Option ℤ := if -2 ^ 31 ≤ n ∧ n < 2 ^ 31 then some n else none

def choiceOf : Json → Option ℤ
  | .number n => asI32? n
  | .string s => (parseI64 s).bind asI32?
  | _ => none

def deserializeChoices (raw : List Json) : Option (List ℤ) := raw.mapM choiceOf

/-! ### One call -/

/-- The statements that fail. -/
structure Faults where
  fetchPoll : Bool
  during : Phase → Bool
  fetchAgain : Bool

inductive Refusal where
  | form
  | scope
  | app (e : AppError)
  deriving DecidableEq

/-- The statements of a call, one after another. -/
def run (fails : Phase → Bool) : ℕ → Store → Next → Store × Option Refusal
  | _, s, .error e => (s, some (.app e))
  | _, s, .done => (s, none)
  | 0, s, .go _ => (s, none)
  | fuel + 1, s, .go c =>
      if fails c.phase then (s, some (.app .internal))
      else run fails fuel (exec s c).1 (exec s c).2

/-- `vote_poll`: two checks, an insert for each choice and two counts at most, and the poll
read once more. -/
def votePoll (f : Faults) (s : Store) (id accountId : ℕ) (mayWrite : Bool) (raw : List Json)
    (now : ℤ) : Store × Option Refusal :=
  match deserializeChoices raw with
  | none => (s, some .form)
  | some choices =>
      if !mayWrite then (s, some .scope)
      else if f.fetchPoll then (s, some (.app .internal))
      else
        match run f.during (choices.length + 4) s (Polls.votePoll s id accountId choices now) with
        | (s', some e) => (s', some e)
        | (s', none) => if f.fetchAgain then (s', some (.app .internal)) else (s', none)

/-! ### What it should leave -/

def Recorded (before after : Store) (id accountId : ℕ) (choices : List ℤ) : Prop :=
  ∃ recorded : List ℤ, recorded.Nodup ∧
    (∀ choice, choice ∈ recorded ↔
      choice ∈ choices ∧ castFor before.pollVotes id accountId choice = 0) ∧
    after.pollVotes = before.pollVotes ++ recorded.map fun choice => ⟨accountId, id, choice, none⟩

/-- An error leaves everything as it was, and otherwise the choices are recorded. -/
def AllOrNothing (f : Faults) (s : Store) (id accountId : ℕ) (mayWrite : Bool) (raw : List Json)
    (now : ℤ) : Prop :=
  match votePoll f s id accountId mayWrite raw now with
  | (s', some _) => s' = s
  | (s', none) => ∀ choices, deserializeChoices raw = some choices → Recorded s s' id accountId choices

/-! ### When it does -/

def comesToLoop (f : Faults) (s : Store) (id accountId : ℕ) (choices : List ℤ) (now : ℤ) :
    Option (Call × Bool) :=
  if f.fetchPoll then none
  else
    match Polls.votePoll s id accountId choices now with
    | .go c =>
        let alreadyVoted := voted s.pollVotes c.poll.id accountId
        if !c.poll.multiple && (f.during (.checkVoted choices) || alreadyVoted) then none
        else if f.during (.checkFirst choices) then none
        else some ({ c with phase := .checkFirst choices }, !alreadyVoted)
    | _ => none

def stops (f : Faults) (c : Call) (first : Bool) (choice : ℤ) (rest created : List ℤ) : Bool :=
  !validChoice c.poll choice || f.during (.insert choice rest created first)

def inserted (f : Faults) (c : Call) (first : Bool) : List ℤ → List ℤ → List ℤ × Bool
  | [], _ => ([], true)
  | choice :: rest, created =>
      if stops f c first choice rest created then ([], false)
      else
        let after := inserted f c first rest (created ++ [choice])
        (choice :: after.1, after.2)

def goesThrough (f : Faults) (c : Call) (first : Bool) (choices : List ℤ) : Bool :=
  (inserted f c first choices []).2

/-- With no choice at all nothing changes but the counts: the recount fails, or it finds the
count right and the voters are not counted. -/
structure EmptyAndUnchanged (f : Faults) (s : Store) (c : Call) (first : Bool) (choices : List ℤ) :
    Prop where
  empty : choices = []
  unchanged : f.during (.recount (c.poll.multiple && first)) = true ∨
    s.recount c.poll.id = s ∧ ((c.poll.multiple && first) = true → f.during .addVoter = true)

/-- No statement fails after the loop. -/
def endsWell (f : Faults) (c : Call) (first : Bool) : Bool :=
  !f.during (.recount (c.poll.multiple && first)) &&
    !(c.poll.multiple && first && f.during .addVoter) && !f.fetchAgain

/-- The first choice is refused; or there is none, and the counts stay; or all are valid,
different and new, and no statement fails. -/
def Plain (f : Faults) (s : Store) (c : Call) (first : Bool) (choices : List ℤ) : Prop :=
  (∃ choice rest, choices = choice :: rest ∧ stops f c first choice rest [] = true) ∨
    EmptyAndUnchanged f s c first choices ∨
    (goesThrough f c first choices = true ∧ endsWell f c first = true ∧ choices.Nodup ∧
      ∀ choice ∈ choices, castFor s.pollVotes c.poll.id c.accountId choice = 0)

/-! ### The loop -/

variable {f : Faults} {s : Store} {c : Call} {first : Bool} {choices created : List ℤ}

def addVotes (s : Store) (c : Call) (choices : List ℤ) : Store :=
  { s with pollVotes := s.pollVotes ++ choices.map (voteOf c) }

/-- What follows the loop. -/
def finish (f : Faults) (s : Store) (c : Call) (first : Bool) : Store × Option Refusal :=
  if f.during (.recount (c.poll.multiple && first)) then (s, some (.app .internal))
  else if c.poll.multiple && first then
    if f.during .addVoter then (s.recount c.poll.id, some (.app .internal))
    else ((s.recount c.poll.id).addVoter c.poll.id, none)
  else (s.recount c.poll.id, none)

theorem addVotes_nil (s : Store) (c : Call) : addVotes s c [] = s := by
  rw [addVotes, List.map_nil, List.append_nil]

theorem addVotes_cons (s : Store) (c : Call) (choice : ℤ) (rest : List ℤ) :
    addVotes (s.addVote c choice) c rest = addVotes s c (choice :: rest) := by
  rw [addVotes, addVotes, Store.addVote, List.map_cons, List.append_assoc]
  rfl

theorem run_recount (fuel : ℕ) (s : Store) :
    run f.during (fuel + 2) s (c.next (.recount (c.poll.multiple && first))) =
      finish f s c first := by
  rw [Call.next, run, finish]
  split
  · rfl
  · rw [exec]
    dsimp only
    cases hvoter : c.poll.multiple && first with
    | false =>
        rw [if_neg Bool.false_ne_true, if_neg Bool.false_ne_true, run]
    | true =>
        rw [if_pos rfl, if_pos rfl, Call.next, run]
        split
        · rfl
        · rw [exec, run]

variable (f c first) in
theorem run_loop (fuel : ℕ) (s : Store) (choices created : List ℤ) :
    ((inserted f c first choices created).2 = true →
      run f.during (choices.length + fuel + 2) s (c.loop choices created first) =
        finish f (addVotes s c (inserted f c first choices created).1) c first) ∧
    ((inserted f c first choices created).2 = false →
      ∃ e, run f.during (choices.length + fuel + 2) s (c.loop choices created first) =
        (addVotes s c (inserted f c first choices created).1, some e)) := by
  induction choices generalizing s created with
  | nil =>
      refine ⟨fun _ => ?_, fun h => by cases h⟩
      rw [inserted, addVotes_nil, List.length_nil, Nat.zero_add]
      exact run_recount fuel s
  | cons choice rest ih =>
      have hfuel : (choice :: rest).length + fuel + 2 = rest.length + fuel + 2 + 1 := by
        rw [List.length_cons]
        omega
      rw [inserted, hfuel, Call.loop]
      cases hvalid : validChoice c.poll choice with
      | false =>
          rw [stops, hvalid, Bool.not_false, Bool.true_or, if_pos rfl, if_pos rfl, addVotes_nil]
          exact ⟨fun h => (Bool.false_ne_true h).elim, fun _ => ⟨_, rfl⟩⟩
      | true =>
          rw [stops, hvalid, Bool.not_true, Bool.false_or, if_neg Bool.false_ne_true, Call.next, run]
          cases hfails : f.during (.insert choice rest created first) with
          | true =>
              rw [if_pos rfl, if_pos rfl, addVotes_nil]
              exact ⟨fun h => (Bool.false_ne_true h).elim, fun _ => ⟨_, rfl⟩⟩
          | false =>
              rw [if_neg Bool.false_ne_true, if_neg Bool.false_ne_true, exec, ← addVotes_cons]
              exact ih (s.addVote c choice) (created ++ [choice])

theorem inserted_eq (h : (inserted f c first choices created).2 = true) :
    (inserted f c first choices created).1 = choices := by
  induction choices generalizing created with
  | nil => rfl
  | cons choice rest ih =>
      rw [inserted] at h ⊢
      split
      next hstops =>
        rw [if_pos hstops] at h
        cases h
      next hstops =>
        rw [if_neg hstops] at h
        dsimp only at h ⊢
        rw [ih h]

theorem inserted_nil_iff (h : (inserted f c first choices created).2 = false) :
    (inserted f c first choices created).1 = [] ↔
      ∃ choice rest, choices = choice :: rest ∧ stops f c first choice rest created = true := by
  cases choices with
  | nil => cases h
  | cons choice rest =>
      rw [inserted]
      split
      next hstops => exact iff_of_true rfl ⟨choice, rest, rfl, hstops⟩
      next hstops =>
        refine iff_of_false (List.cons_ne_nil _ _) ?_
        rintro ⟨_, _, heq, hs⟩
        cases heq
        exact hstops hs

theorem addVotes_eq_iff {l : List ℤ} : addVotes s c l = s ↔ l = [] := by
  constructor
  · intro h
    have hlength := congrArg (fun t : Store => t.pollVotes.length) h
    simpa [addVotes] using hlength
  · rintro rfl
    exact addVotes_nil s c

variable (f c first) in
theorem finish_pollVotes (s : Store) : (finish f s c first).1.pollVotes = s.pollVotes := by
  rw [finish]
  split
  · rfl
  · split
    · split <;> rfl
    · rfl

/-! ### What an error after the loop leaves -/

theorem find?_updatePoll {t : Store} {id : ℕ} {g : Poll → Poll} {hg : ∀ p, (g p).id = p.id}
    {p : Poll} (h : t.polls.rows.find? (·.id = id) = some p) :
    (updatePoll t id g hg).polls.rows.find? (·.id = id) = some (g p) := by
  have hid : p.id = id := by simpa using List.find?_some h
  have hrows : (updatePoll t id g hg).polls.rows =
      t.polls.rows.map fun p => if p.id = id then g p else p := rfl
  have hkey : ((fun p : Poll => decide (p.id = id)) ∘ fun p => if p.id = id then g p else p) =
      fun p => decide (p.id = id) := by
    funext q
    rw [Function.comp_apply]
    split
    next hq => rw [hg]
    next => rfl
  rw [hrows, List.find?_map, hkey, h, Option.map_some, if_pos hid]

theorem addVoter_ne {id : ℕ} {p : Poll} (h : s.polls.rows.find? (·.id = id) = some p) :
    (s.recount id).addVoter id ≠ s := by
  intro heq
  have hrecount : (s.recount id).polls.rows.find? (·.id = id) =
      some { p with votesCount := votesOf s.pollVotes id } := find?_updatePoll h
  have hadd : ((s.recount id).addVoter id).polls.rows.find? (·.id = id) = some
      { p with
        votesCount := votesOf s.pollVotes id
        votersCount := some (p.votersCount.getD 0 + 1) } := find?_updatePoll hrecount
  rw [heq, h] at hadd
  have hvoters := congrArg Poll.votersCount (Option.some.inj hadd)
  dsimp only at hvoters
  rw [hvoters] at hvoters
  simp at hvoters

theorem recorded_iff {after : Store} {id accountId : ℕ} (hid : c.poll.id = id)
    (haccount : c.accountId = accountId) (huri : c.uri = none)
    (hafter : after.pollVotes = s.pollVotes ++ choices.map (voteOf c)) :
    Recorded s after id accountId choices ↔ choices.Nodup ∧
      ∀ choice ∈ choices, castFor s.pollVotes c.poll.id c.accountId choice = 0 := by
  subst hid haccount
  have hvote : voteOf c = fun choice => (⟨c.accountId, c.poll.id, choice, none⟩ : Vote) := by
    funext choice
    rw [voteOf, huri]
  constructor
  · rintro ⟨recorded, hnodup, hmem, heq⟩
    rw [hafter, hvote] at heq
    have hsame : choices = recorded := by
      refine List.map_injective_iff.mpr (fun x y hxy => ?_) (List.append_cancel_left heq)
      exact congrArg Vote.choice hxy
    subst hsame
    exact ⟨hnodup, fun choice hchoice => ((hmem choice).mp hchoice).2⟩
  · rintro ⟨hnodup, hfresh⟩
    refine ⟨choices, hnodup, fun choice => ?_, by rw [hafter, hvote]⟩
    exact ⟨fun h => ⟨h, hfresh choice h⟩, fun h => h.1⟩

theorem unchanged_iff {p : Poll} (hfind : s.polls.rows.find? (·.id = c.poll.id) = some p) :
    (finish f (addVotes s c choices) c first).1 = s ↔ EmptyAndUnchanged f s c first choices := by
  by_cases hempty : choices = []
  · subst hempty
    rw [addVotes_nil, finish]
    cases hrecount : f.during (.recount (c.poll.multiple && first)) with
    | true => exact iff_of_true (by rw [if_pos rfl]) ⟨rfl, .inl hrecount⟩
    | false =>
        rw [if_neg Bool.false_ne_true]
        cases hvoter : c.poll.multiple && first with
        | false =>
            rw [if_neg Bool.false_ne_true]
            constructor
            · intro h
              exact ⟨rfl, .inr ⟨h, fun hv => (Bool.false_ne_true (hvoter.symm.trans hv)).elim⟩⟩
            · intro h
              rcases h.unchanged with h | h
              · exact (Bool.false_ne_true (hrecount.symm.trans h)).elim
              · exact h.1
        | true =>
            rw [if_pos rfl]
            cases hadd : f.during .addVoter with
            | true =>
                rw [if_pos rfl]
                constructor
                · intro h
                  exact ⟨rfl, .inr ⟨h, fun _ => hadd⟩⟩
                · intro h
                  rcases h.unchanged with h | h
                  · exact (Bool.false_ne_true (hrecount.symm.trans h)).elim
                  · exact h.1
            | false =>
                rw [if_neg Bool.false_ne_true]
                refine iff_of_false (addVoter_ne hfind) fun h => ?_
                rcases h.unchanged with h | h
                · exact Bool.false_ne_true (hrecount.symm.trans h)
                · exact Bool.false_ne_true (hadd.symm.trans (h.2 hvoter))
  · refine iff_of_false (fun h => ?_) fun h => hempty h.empty
    have hvotes := congrArg (fun t : Store => t.pollVotes.length) h
    rw [finish_pollVotes, addVotes] at hvotes
    simp at hvotes
    exact hempty hvotes

/-! ### The whole call -/

variable {id accountId : ℕ} {now : ℤ}

theorem votePoll_go (h : Polls.votePoll s id accountId choices now = .go c) :
    s.polls.rows.find? (·.id = id) = some c.poll ∧ c.poll.id = id ∧ c.accountId = accountId ∧
      c.uri = none ∧
      c.phase = if c.poll.multiple then .checkFirst choices else .checkVoted choices := by
  rw [Polls.votePoll] at h
  cases hfind : s.polls.rows.find? (·.id = id) with
  | none =>
      rw [hfind] at h
      cases h
  | some poll =>
      have hid : poll.id = id := by simpa using List.find?_some hfind
      rw [hfind] at h
      dsimp only at h
      split at h
      · cases h
      · split at h
        · cases h
        · split at h
          · cases h
          · cases h
            exact ⟨rfl, hid, rfl, rfl, rfl⟩

theorem run_checkFirst (fuel : ℕ) (hphase : c.phase = .checkFirst choices)
    (hfails : f.during (.checkFirst choices) = false) :
    run f.during (fuel + 1) s (.go c) =
      run f.during fuel s (c.loop choices [] !voted s.pollVotes c.poll.id c.accountId) := by
  rw [run, hphase, hfails, if_neg Bool.false_ne_true, exec, hphase]

theorem run_votePoll_none (hfetch : f.fetchPoll = false)
    (h : comesToLoop f s id accountId choices now = none) :
    ∃ e, run f.during (choices.length + 4) s (Polls.votePoll s id accountId choices now) =
      (s, some e) := by
  rw [comesToLoop, hfetch, if_neg Bool.false_ne_true] at h
  cases hnext : Polls.votePoll s id accountId choices now with
  | error e => exact ⟨.app e, rfl⟩
  | done =>
      rw [Polls.votePoll] at hnext
      split at hnext
      · cases hnext
      · split_ifs at hnext
  | go c =>
      obtain ⟨_, _, haccount, _, hphase⟩ := votePoll_go hnext
      rw [hnext] at h
      dsimp only at h
      rw [show choices.length + 4 = choices.length + 2 + 1 + 1 from rfl]
      cases hmultiple : c.poll.multiple with
      | true =>
          rw [hmultiple] at h hphase
          rw [Bool.not_true, Bool.false_and, if_neg Bool.false_ne_true] at h
          cases hfirst : f.during (.checkFirst choices) with
          | true =>
              rw [run, hphase, if_pos rfl, hfirst, if_pos rfl]
              exact ⟨_, rfl⟩
          | false =>
              rw [hfirst] at h
              cases h
      | false =>
          rw [hmultiple] at h hphase
          rw [if_neg Bool.false_ne_true] at hphase
          rw [Bool.not_false, Bool.true_and] at h
          rw [run, hphase]
          cases hvoted : f.during (.checkVoted choices) with
          | true =>
              rw [if_pos rfl]
              exact ⟨_, rfl⟩
          | false =>
              rw [hvoted, Bool.false_or] at h
              rw [if_neg Bool.false_ne_true, exec, hphase]
              dsimp only
              rw [haccount]
              cases halready : voted s.pollVotes c.poll.id accountId with
              | true =>
                  rw [if_pos rfl, run]
                  exact ⟨_, rfl⟩
              | false =>
                  rw [halready, if_neg Bool.false_ne_true] at h
                  cases hfirst : f.during (.checkFirst choices) with
                  | true =>
                      rw [if_neg Bool.false_ne_true, Call.next, run, hfirst, if_pos rfl]
                      exact ⟨_, rfl⟩
                  | false =>
                      rw [hfirst] at h
                      cases h

theorem loop_phase (phase : Phase) :
    ({ c with phase := phase } : Call).loop choices created first =
      c.loop choices created first := by
  cases choices with
  | nil => rfl
  | cons choice rest => rfl

theorem run_votePoll_some (h : comesToLoop f s id accountId choices now = some (c, first)) :
    ∃ fuel, run f.during (choices.length + 4) s (Polls.votePoll s id accountId choices now) =
        run f.during (choices.length + fuel + 2) s (c.loop choices [] first) ∧
      s.polls.rows.find? (·.id = c.poll.id) = some c.poll ∧ c.poll.id = id ∧
      c.accountId = accountId ∧ c.uri = none := by
  rw [comesToLoop] at h
  cases hfetch : f.fetchPoll with
  | true =>
      rw [hfetch] at h
      cases h
  | false =>
      rw [hfetch, if_neg Bool.false_ne_true] at h
      cases hnext : Polls.votePoll s id accountId choices now with
      | error e =>
          rw [hnext] at h
          cases h
      | done =>
          rw [hnext] at h
          cases h
      | go d =>
          obtain ⟨hfind, hid, rfl, huri, hphase⟩ := votePoll_go hnext
          rw [hnext] at h
          dsimp only at h
          split at h
          · cases h
          next hvoted =>
            split at h
            · cases h
            next hfirst =>
              rw [Bool.not_eq_true] at hfirst
              cases h
              have hrest : s.polls.rows.find? (·.id = d.poll.id) = some d.poll ∧ d.poll.id = id ∧
                  d.accountId = d.accountId ∧ d.uri = none :=
                ⟨hid.symm ▸ hfind, hid, rfl, huri⟩
              cases hmultiple : d.poll.multiple with
              | true =>
                  rw [hmultiple, if_pos rfl] at hphase
                  refine ⟨1, ?_, hrest⟩
                  rw [show choices.length + 4 = choices.length + 1 + 2 + 1 from rfl,
                    run_checkFirst _ hphase hfirst]
                  exact congrArg (run f.during _ s) (loop_phase (c := d) _).symm
              | false =>
                  rw [hmultiple, if_neg Bool.false_ne_true] at hphase
                  rw [hmultiple, Bool.not_false, Bool.true_and, Bool.or_eq_true, not_or,
                    Bool.not_eq_true, Bool.not_eq_true] at hvoted
                  refine ⟨0, ?_, hrest⟩
                  rw [show choices.length + 4 = choices.length + 0 + 2 + 1 + 1 from rfl, run, hphase,
                    hvoted.1, if_neg Bool.false_ne_true, exec, hphase]
                  dsimp only
                  rw [hvoted.2, if_neg Bool.false_ne_true]
                  have hcall := run_checkFirst (f := f) (s := s)
                    (c := { d with phase := .checkFirst choices }) (choices.length + 0 + 2) rfl hfirst
                  dsimp only at hcall
                  rw [hvoted.2] at hcall
                  exact hcall

theorem finish_none (hends : endsWell f c first = true) :
    (finish f s c first).2 = none ∧ f.fetchAgain = false := by
  rw [endsWell, Bool.and_eq_true, Bool.and_eq_true, Bool.not_eq_true', Bool.not_eq_true',
    Bool.not_eq_true'] at hends
  obtain ⟨⟨hrecount, hadd⟩, hagain⟩ := hends
  refine ⟨?_, hagain⟩
  rw [finish, hrecount, if_neg Bool.false_ne_true]
  split
  next hvoter =>
    rw [hvoter, Bool.true_and] at hadd
    rw [hadd, if_neg Bool.false_ne_true]
  next => rfl

theorem finish_some (hends : endsWell f c first = false) (hagain : f.fetchAgain = false) :
    ∃ e, (finish f s c first).2 = some e := by
  rw [endsWell, hagain, Bool.not_false, Bool.and_true] at hends
  rw [finish]
  cases hrecount : f.during (.recount (c.poll.multiple && first)) with
  | true => exact ⟨_, rfl⟩
  | false =>
      rw [hrecount, Bool.not_false, Bool.true_and, Bool.not_eq_false', Bool.and_eq_true] at hends
      rw [if_neg Bool.false_ne_true, hends.1, if_pos rfl, hends.2, if_pos rfl]
      exact ⟨_, rfl⟩

theorem finished_iff (hfind : s.polls.rows.find? (·.id = c.poll.id) = some c.poll)
    (hid : c.poll.id = id) (haccount : c.accountId = accountId) (huri : c.uri = none)
    (hthrough : goesThrough f c first choices = true) :
    (match (match finish f (addVotes s c choices) c first with
      | (s', some e) => (s', some e)
      | (s', none) => if f.fetchAgain then (s', some (.app .internal)) else (s', none)) with
    | (s', some (_ : Refusal)) => s' = s
    | (s', none) => Recorded s s' id accountId choices) ↔ Plain f s c first choices := by
  have hnot : ¬ ∃ choice rest, choices = choice :: rest ∧ stops f c first choice rest [] = true := by
    rintro ⟨choice, rest, rfl, hstops⟩
    rw [goesThrough, inserted, if_pos hstops] at hthrough
    cases hthrough
  have hvotes := finish_pollVotes f c first (addVotes s c choices)
  cases hends : endsWell f c first with
  | true =>
      obtain ⟨hnone, hagain⟩ := finish_none (s := addVotes s c choices) hends
      generalize hend : finish f (addVotes s c choices) c first = result at hvotes hnone
      obtain ⟨after, refusal⟩ := result
      dsimp only at hvotes hnone
      subst hnone
      dsimp only
      rw [hagain, if_neg Bool.false_ne_true]
      dsimp only
      rw [recorded_iff hid haccount huri hvotes]
      constructor
      · intro h
        exact .inr (.inr ⟨hthrough, hends, h⟩)
      · rintro (h | h | h)
        · exact (hnot h).elim
        · rw [h.empty]
          exact ⟨List.nodup_nil, fun choice hc => by cases hc⟩
        · exact h.2.2
  | false =>
      have hplain : Plain f s c first choices ↔ EmptyAndUnchanged f s c first choices := by
        constructor
        · rintro (h | h | h)
          · exact (hnot h).elim
          · exact h
          · exact (Bool.false_ne_true (hends.symm.trans h.2.1)).elim
        · exact fun h => .inr (.inl h)
      rw [hplain, ← unchanged_iff hfind]
      generalize hend : finish f (addVotes s c choices) c first = result
      obtain ⟨after, refusal⟩ := result
      cases refusal with
      | some e => exact Iff.rfl
      | none =>
          cases hagain : f.fetchAgain with
          | true => exact Iff.rfl
          | false =>
              obtain ⟨e, he⟩ := finish_some (s := addVotes s c choices) hends hagain
              rw [hend] at he
              cases he

/-- Whatever refuses a vote before its loop changes nothing, and the loop is as it should be
when it stops at its first choice, or goes through choices that are all different and new. -/
theorem all_or_nothing_iff (f : Faults) (s : Store) (id accountId : ℕ) (mayWrite : Bool)
    (raw : List Json) (now : ℤ) :
    AllOrNothing f s id accountId mayWrite raw now ↔
      ∀ choices, deserializeChoices raw = some choices → mayWrite = true → ∀ c first,
        comesToLoop f s id accountId choices now = some (c, first) → Plain f s c first choices := by
  rw [AllOrNothing, votePoll]
  cases hraw : deserializeChoices raw with
  | none => exact iff_of_true rfl fun choices h => by cases h
  | some choices =>
      cases mayWrite with
      | false => exact iff_of_true rfl fun _ _ h => (Bool.false_ne_true h).elim
      | true =>
          simp only [Option.some.injEq, forall_eq', true_imp_iff, Bool.not_true]
          rw [if_neg Bool.false_ne_true]
          cases hfetch : f.fetchPoll with
          | true =>
              refine iff_of_true rfl fun c first h => ?_
              rw [comesToLoop, hfetch] at h
              cases h
          | false =>
              rw [if_neg Bool.false_ne_true]
              cases hloop : comesToLoop f s id accountId choices now with
              | none =>
                  obtain ⟨e, he⟩ := run_votePoll_none hfetch hloop
                  rw [he]
                  exact iff_of_true rfl fun _ _ h => by cases h
              | some call =>
                  obtain ⟨c, first⟩ := call
                  obtain ⟨fuel, hrun, hfind, hid, haccount, huri⟩ := run_votePoll_some hloop
                  have hstep := run_loop f c first fuel s choices []
                  have honly : (∀ d second, some (c, first) = some (d, second) →
                      Plain f s d second choices) ↔ Plain f s c first choices := by
                    refine ⟨fun h => h c first rfl, fun h d second heq => ?_⟩
                    cases heq
                    exact h
                  rw [honly, hrun]
                  cases hthrough : goesThrough f c first choices with
                  | false =>
                      obtain ⟨e, he⟩ := hstep.2 hthrough
                      rw [he]
                      dsimp only
                      rw [addVotes_eq_iff, inserted_nil_iff hthrough]
                      refine ⟨fun h => .inl h, fun h => ?_⟩
                      rcases h with h | h | h
                      · exact h
                      · rw [h.empty] at hthrough
                        cases hthrough
                      · exact (Bool.false_ne_true (hthrough.symm.trans h.1)).elim
                  | true =>
                      rw [hstep.1 hthrough, inserted_eq hthrough]
                      exact finished_iff hfind hid haccount huri hthrough

/-! ### A valid choice and one that is not -/

theorem unchanged_of_error {mayWrite : Bool} {raw : List Json}
    (h : AllOrNothing f s id accountId mayWrite raw now)
    (herror : (votePoll f s id accountId mayWrite raw now).2.isSome) :
    (votePoll f s id accountId mayWrite raw now).1 = s := by
  rw [AllOrNothing] at h
  generalize votePoll f s id accountId mayWrite raw now = result at h herror
  obtain ⟨after, refusal⟩ := result
  cases refusal with
  | none => cases herror
  | some e => exact h

def noFaults : Faults := ⟨false, fun _ => false, false⟩

def twoOptions : Poll where
  id := 1
  accountId := 1
  statusId := 1
  options := ["A", "B"]
  multiple := true
  expiresAt := none
  cachedTallies := []
  votesCount := 0
  votersCount := some 0

def noVotes : Store := ⟨⟨[twoOptions], List.pairwise_singleton _ _⟩, []⟩

/-- The vote for the first choice stays though the second is refused, and no count is made. -/
theorem vote_left_behind : ¬ AllOrNothing noFaults noVotes 1 2 true [.number 0, .number 5] 0 := by
  intro h
  have hsame := unchanged_of_error h (by decide +kernel)
  have hvotes : (votePoll noFaults noVotes 1 2 true [.number 0, .number 5] 0).1.pollVotes =
      [⟨2, 1, 0, none⟩] := by decide +kernel
  rw [hsame] at hvotes
  cases hvotes

end Eunha.VoteRefusals
