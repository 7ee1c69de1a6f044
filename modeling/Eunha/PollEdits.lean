import Eunha.VoteRefusals
import Mathlib

/-!
# The totals of a poll over votes and edits

Accounts vote here and from elsewhere, and the author edits the post: a poll is added, changed or
removed, and its votes are dropped when its options change or whether several may be chosen.
`votes_count` is counted again each time. `cached_tallies` is written by no vote and emptied by
every edit of the poll: what is shown is counted from the votes themselves.

Calls come one after another and no statement fails. `hide_totals` and the tables of the post are
left out, the id of a new poll is what the sequence gives, and what the check of a form refuses
beside the number of options is given.
-/
namespace Eunha.PollEdits
open Tables Polls PollVotes VoteRefusals Runs
open Roles (asI32)

/-! ### Votes -/

def votePoll (s : Store) (pollId accountId : ℕ) (choices : List ℤ) (now : ℤ) : Store :=
  (VoteRefusals.run noFaults.during (choices.length + 4) s
    (Polls.votePoll s pollId accountId choices now)).1

/-- `handle_poll_vote_note` -/
def pollVoteNote (s : Store) (statusId voterId : ℕ) (choiceName voteUri : String) (now : ℤ) :
    Store :=
  (VoteRefusals.run noFaults.during 4 s
    (handlePollVoteNote s statusId voterId choiceName voteUri now)).1

/-! ### Edits -/

structure PollForm where
  options : List String
  multiple : Option Bool
  expiresAt : Option ℤ

/-- The polls and votes, and the id of the next poll. -/
structure State where
  store : Store
  nextId : ℕ

def pollMaxOptions : ℕ := 4

def validatePollForm (refused : PollForm → Bool) (pf : PollForm) : Bool :=
  2 ≤ pf.options.length && pf.options.length ≤ pollMaxOptions && !refused pf

/-- `DELETE FROM poll_votes WHERE poll_id = …` -/
def deleteVotes (s : Store) (pollId : ℕ) : Store :=
  { s with pollVotes := s.pollVotes.filter fun v => v.pollId ≠ pollId }

def setPoll (s : Store) (pollId : ℕ) (pf : PollForm) : Store :=
  updatePoll s pollId
    (fun p =>
      { p with
        options := pf.options
        multiple := pf.multiple.getD false
        expiresAt := pf.expiresAt
        votesCount := votesOf s.pollVotes pollId
        cachedTallies := [] })
    fun _ => rfl

def newPoll (id statusId accountId : ℕ) (pf : PollForm) : Poll where
  id := id
  accountId := accountId
  statusId := statusId
  options := pf.options
  multiple := pf.multiple.getD false
  expiresAt := pf.expiresAt
  cachedTallies := []
  votesCount := 0
  votersCount := none

/-- The votes go with the old options. -/
def resetVotes (s : Store) (ep : Poll) (pf : PollForm) : Store :=
  if ep.options ≠ pf.options ∨ ep.multiple ≠ pf.multiple.getD false then deleteVotes s ep.id else s

def removePoll (s : Store) (pollId : ℕ) : Store :=
  { deleteVotes s pollId with polls := s.polls.deleteWhere fun p => p.id = pollId }

/-- The poll of `edit_status`: a form without one changes nothing, and an explicit null removes
it. -/
def editPoll (refused : PollForm → Bool) (s : State) (statusId accountId : ℕ) :
    Option (Option PollForm) → State
  | none => s
  | some none =>
      match s.store.polls.rows.find? fun p => p.statusId = statusId with
      | some ep => { s with store := removePoll s.store ep.id }
      | none => s
  | some (some pf) =>
      if validatePollForm refused pf then
        match s.store.polls.rows.find? fun p => p.statusId = statusId with
        | some ep => { s with store := setPoll (resetVotes s.store ep pf) ep.id pf }
        | none =>
            { store :=
                { s.store with
                  polls := s.store.polls.insert (newPoll s.nextId statusId accountId pf) }
              nextId := s.nextId + 1 }
      else s

/-! ### Sequences -/

def arrayLimit : ℕ := 2 ^ 31

inductive Op where
  | vote (pollId accountId : ℕ) (choices : List ℤ) (now : ℤ)
  | note (statusId voterId : ℕ) (choiceName voteUri : String) (now : ℤ)
  | edit (statusId accountId : ℕ) (form : Option (Option PollForm))

def step (refused : PollForm → Bool) (s : State) : Op → State
  | .vote pollId accountId choices now =>
      { s with store := votePoll s.store pollId accountId choices now }
  | .note statusId voterId choiceName voteUri now =>
      { s with store := pollVoteNote s.store statusId voterId choiceName voteUri now }
  | .edit statusId accountId form => editPoll refused s statusId accountId form

/-- Every vote is for an option there is. -/
def ChoicesExist (s : Store) : Prop :=
  ∀ p ∈ s.polls.rows, ∀ v ∈ s.pollVotes, v.pollId = p.id →
    0 ≤ v.choice ∧ v.choice < p.options.length

/-- `votes_count` is the number of rows. -/
def Counted (s : Store) : Prop := ∀ p ∈ s.polls.rows, p.votesCount = votesOf s.pollVotes p.id

/-- `voters_count` is the number of voters where several choices may be made. -/
def VotersCounted (s : Store) : Prop :=
  ∀ p ∈ s.polls.rows, p.multiple = true → p.votersCount.getD 0 = (voters s.pollVotes p.id).card

/-- No choice is refused once another has been inserted. -/
def notCutShort (s : State) : Op → Prop
  | .vote pollId _ choices _ =>
      ∀ p ∈ s.store.polls.rows, p.id = pollId →
        (∀ choice ∈ choices, validChoice p choice = true) ∨
          ∃ choice rest, choices = choice :: rest ∧ validChoice p choice = false
  | _ => True

def changes (p : Poll) (pf : PollForm) : Prop :=
  p.options ≠ pf.options ∨ p.multiple ≠ pf.multiple.getD false

def votersStay (s : State) : Op → Prop
  | .vote _ _ choices _ => choices ≠ []
  | .edit statusId _ (some (some pf)) =>
      ∀ p ∈ s.store.polls.rows, p.statusId = statusId → changes p pf → p.votersCount.getD 0 = 0
  | _ => True

/-- Ids come from the sequence, and options from the database. -/
structure WellFormed (s : State) : Prop where
  polls_lt : ∀ p ∈ s.store.polls.rows, p.id < s.nextId
  votes_lt : ∀ v ∈ s.store.pollVotes, v.pollId < s.nextId
  short : ∀ p ∈ s.store.polls.rows, p.options.length < arrayLimit

/-! ### What a call leaves -/

def Indexes (p : Poll) (choices : List ℤ) : Prop :=
  ∀ choice ∈ choices, 0 ≤ choice ∧ choice < p.options.length

/-- Nothing, or votes for some choices and the counts. -/
def Settled (s t : Store) (named : Prop) : Prop :=
  t = s ∨ ∃ c choices first, c.poll ∈ s.polls.rows ∧ Indexes c.poll choices ∧
    (named → choices ≠ []) ∧ first = !voted s.pollVotes c.poll.id c.accountId ∧
    t = (finish noFaults (addVotes s c choices) c first).1

/-- That, or votes alone, when the call is cut short. -/
def Cast (s t : Store) : Prop :=
  Settled s t False ∨ ∃ c choices, c.poll ∈ s.polls.rows ∧ Indexes c.poll choices ∧
    t = addVotes s c choices

theorem Settled.cast {s t : Store} {named : Prop} (h : Settled s t named) : Cast s t := by
  rcases h with rfl | ⟨c, choices, first, hpoll, hindexes, -, hfirst, rfl⟩
  · exact .inl (.inl rfl)
  · exact .inl (.inr ⟨c, choices, first, hpoll, hindexes, False.elim, hfirst, rfl⟩)

theorem asI32_length {n : ℕ} (h : n < arrayLimit) : asI32 n = n := by
  refine Roles.asI32_of_le ?_ ?_
  · unfold Roles.positionLimit
    omega
  · unfold arrayLimit at h
    unfold Roles.positionLimit
    omega

theorem index_of_valid {p : Poll} (hshort : p.options.length < arrayLimit) {choice : ℤ}
    (h : validChoice p choice = true) : 0 ≤ choice ∧ choice < p.options.length := by
  unfold validChoice at h
  rw [decide_eq_true_iff, asI32_length hshort] at h
  exact h

theorem valid_of_inserted {f : Faults} {c : Call} {first : Bool} {choices created : List ℤ}
    {choice : ℤ} (h : choice ∈ (inserted f c first choices created).1) :
    validChoice c.poll choice = true := by
  induction choices generalizing created with
  | nil => cases h
  | cons other rest ih =>
      rw [inserted] at h
      cases hstops : stops f c first other rest created with
      | true =>
          rw [hstops, if_pos rfl] at h
          cases h
      | false =>
          rw [hstops, if_neg Bool.false_ne_true] at h
          rcases List.mem_cons.mp h with rfl | hmem
          · rw [stops, Bool.or_eq_false_iff, Bool.not_eq_false'] at hstops
            exact hstops.1
          · exact ih hmem

/-- When no statement fails, the loop stops at an invalid choice only. -/
theorem goesThrough_of_valid {c : Call} {first : Bool} {choices created : List ℤ}
    (h : ∀ choice ∈ choices, validChoice c.poll choice = true) :
    (inserted noFaults c first choices created).2 = true := by
  induction choices generalizing created with
  | nil => rfl
  | cons choice rest ih =>
      have hstops : stops noFaults c first choice rest created = false := by
        rw [stops, h choice List.mem_cons_self]
        rfl
      rw [inserted, hstops, if_neg Bool.false_ne_true]
      exact ih fun other hother => h other (List.mem_cons_of_mem choice hother)

theorem first_of_loop {f : Faults} {s : Store} {pollId accountId : ℕ} {choices : List ℤ}
    {now : ℤ} {c : Call} {first : Bool}
    (h : comesToLoop f s pollId accountId choices now = some (c, first)) :
    first = !voted s.pollVotes c.poll.id c.accountId := by
  unfold comesToLoop at h
  split at h
  · cases h
  · split at h
    next d hnext =>
      dsimp only at h
      split_ifs at h
      cases h
      rw [(votePoll_go hnext).2.2.1]
    next => cases h

/-- A vote leaves everything, or goes through, or is cut short at a choice. -/
theorem votePoll_cast {s : Store} (hshort : ∀ p ∈ s.polls.rows, p.options.length < arrayLimit)
    (pollId accountId : ℕ) (choices : List ℤ) (now : ℤ) :
    Cast s (votePoll s pollId accountId choices now) := by
  unfold votePoll
  cases hloop : comesToLoop noFaults s pollId accountId choices now with
  | none =>
      obtain ⟨e, he⟩ := run_votePoll_none rfl hloop
      rw [he]
      exact .inl (.inl rfl)
  | some call =>
      obtain ⟨c, first⟩ := call
      obtain ⟨fuel, hrun, hfind, -⟩ := run_votePoll_some hloop
      have hpoll : c.poll ∈ s.polls.rows := List.mem_of_find?_eq_some hfind
      have hindexes : Indexes c.poll (inserted noFaults c first choices []).1 :=
        fun choice hmem => index_of_valid (hshort c.poll hpoll) (valid_of_inserted hmem)
      have hstep := run_loop noFaults c first fuel s choices []
      rw [hrun]
      cases hthrough : (inserted noFaults c first choices []).2 with
      | true =>
          rw [hstep.1 hthrough]
          exact .inl (.inr ⟨c, _, first, hpoll, hindexes, False.elim, first_of_loop hloop, rfl⟩)
      | false =>
          obtain ⟨e, he⟩ := hstep.2 hthrough
          rw [he]
          exact .inr ⟨c, _, hpoll, hindexes, rfl⟩

/-- A vote that is not cut short goes through, or leaves everything. -/
theorem votePoll_settled {s : State} (hw : WellFormed s) {pollId accountId : ℕ}
    {choices : List ℤ} {now : ℤ} (h : notCutShort s (.vote pollId accountId choices now)) :
    Settled s.store (votePoll s.store pollId accountId choices now) (choices ≠ []) := by
  unfold votePoll
  cases hloop : comesToLoop noFaults s.store pollId accountId choices now with
  | none =>
      obtain ⟨e, he⟩ := run_votePoll_none rfl hloop
      rw [he]
      exact .inl rfl
  | some call =>
      obtain ⟨c, first⟩ := call
      obtain ⟨fuel, hrun, hfind, hid, -⟩ := run_votePoll_some hloop
      have hpoll : c.poll ∈ s.store.polls.rows := List.mem_of_find?_eq_some hfind
      have hstep := run_loop noFaults c first fuel s.store choices []
      rw [hrun]
      rcases h c.poll hpoll hid with hvalid | ⟨choice, rest, rfl, hinvalid⟩
      · have hthrough : (inserted noFaults c first choices []).2 = true :=
          goesThrough_of_valid hvalid
        rw [hstep.1 hthrough]
        refine .inr ⟨c, _, first, hpoll, fun choice hmem =>
          index_of_valid (hw.short c.poll hpoll) (valid_of_inserted hmem), ?_,
          first_of_loop hloop, rfl⟩
        rw [inserted_eq hthrough]
        exact id
      · have hstops : stops noFaults c first choice rest [] = true := by
          rw [stops, hinvalid]
          rfl
        have hcut : (inserted noFaults c first (choice :: rest) []).2 = false := by
          rw [inserted, if_pos hstops]
        obtain ⟨e, he⟩ := hstep.2 hcut
        rw [he, (inserted_nil_iff hcut).mpr ⟨choice, rest, rfl, hstops⟩, addVotes_nil]
        exact .inl rfl

theorem pollVoteNote_settled {s : Store}
    (hshort : ∀ p ∈ s.polls.rows, p.options.length < arrayLimit) (statusId voterId : ℕ)
    (choiceName voteUri : String) (now : ℤ) :
    Settled s (pollVoteNote s statusId voterId choiceName voteUri now) True := by
  unfold pollVoteNote handlePollVoteNote
  cases hfind : s.polls.rows.find? fun p => p.statusId = statusId with
  | none => exact .inl rfl
  | some poll =>
      have hpoll : poll ∈ s.polls.rows := List.mem_of_find?_eq_some hfind
      dsimp only
      by_cases hexpired : poll.expired now = true
      · rw [if_pos hexpired]
        exact .inl rfl
      · rw [if_neg hexpired]
        cases hname : poll.options.idxOf? choiceName with
        | none => exact .inl rfl
        | some choice =>
            have hlt : choice < poll.options.length := by
              rw [List.idxOf?, List.findIdx?_eq_some_iff_getElem] at hname
              exact hname.1
            have hindex : asI32 choice = choice := asI32_length (hlt.trans (hshort poll hpoll))
            dsimp only
            rw [VoteRefusals.run, if_neg (by simp [noFaults]), exec]
            dsimp only
            by_cases halready :
                (!poll.multiple && voted s.pollVotes poll.id voterId) = true
            · rw [if_pos halready]
              exact .inl rfl
            · rw [if_neg halready, Call.next, VoteRefusals.run, if_neg (by simp [noFaults]), exec]
              dsimp only
              refine .inr ⟨⟨poll, voterId, some voteUri, .insertNote (asI32 choice)
                (voted s.pollVotes poll.id voterId)⟩, [asI32 choice],
                !voted s.pollVotes poll.id voterId, hpoll, ?_, fun _ => List.cons_ne_nil _ _, rfl, ?_⟩
              · intro other hother
                rw [List.mem_singleton.mp hother, hindex]
                exact ⟨Int.natCast_nonneg _, Int.ofNat_lt.mpr hlt⟩
              · rw [← addVotes_cons, addVotes_nil]
                exact congrArg Prod.fst (run_recount 0 _)

/-! ### The rows of polls and votes -/

/-- The polls keep their ids, their options and their tallies. -/
def SamePolls (s t : Store) : Prop :=
  ∀ p ∈ t.polls.rows, ∃ q ∈ s.polls.rows, q.id = p.id ∧ q.options = p.options ∧
    q.cachedTallies = p.cachedTallies

theorem finish_eq (s : Store) (c : Call) (first : Bool) :
    (finish noFaults s c first).1 =
      if c.poll.multiple && first then (s.recount c.poll.id).addVoter c.poll.id
      else s.recount c.poll.id := by
  unfold finish
  rw [if_neg (by simp [noFaults])]
  by_cases h : (c.poll.multiple && first) = true
  · rw [if_pos h, if_pos h, if_neg (by simp [noFaults])]
  · rw [if_neg h, if_neg h]

/-- The poll that is voted in has a voter more when the account had not voted, and others have
what they had. -/
theorem mem_finish {s : Store} {c : Call} {first : Bool} {p : Poll}
    (h : p ∈ (finish noFaults s c first).1.polls.rows) :
    ∃ q ∈ s.polls.rows, q.id = p.id ∧ q.options = p.options ∧
      q.cachedTallies = p.cachedTallies ∧ q.multiple = p.multiple ∧
      p.votersCount.getD 0 = q.votersCount.getD 0 +
        if q.id = c.poll.id ∧ (c.poll.multiple && first) = true then 1 else 0 := by
  rw [finish_eq] at h
  by_cases hvoter : (c.poll.multiple && first) = true
  · rw [if_pos hvoter] at h
    obtain ⟨r, hr, rfl⟩ := mem_updatePoll.mp h
    obtain ⟨q, hq, rfl⟩ := mem_updatePoll.mp hr
    refine ⟨q, hq, ?_⟩
    by_cases hid : q.id = c.poll.id
    · simp [hid, hvoter]
    · simp [hid]
  · rw [if_neg hvoter] at h
    obtain ⟨q, hq, rfl⟩ := mem_updatePoll.mp h
    refine ⟨q, hq, ?_⟩
    by_cases hid : q.id = c.poll.id
    · simp [hid, hvoter]
    · simp [hid]

theorem samePolls_finish (s : Store) (c : Call) (first : Bool) :
    SamePolls s (finish noFaults s c first).1 := by
  intro p hp
  obtain ⟨q, hq, hid, hoptions, htallies, -⟩ := mem_finish hp
  exact ⟨q, hq, hid, hoptions, htallies⟩

theorem Cast.samePolls {s t : Store} (h : Cast s t) : SamePolls s t := by
  rcases h with (rfl | ⟨c, choices, first, -, -, -, -, rfl⟩) | ⟨c, choices, -, -, rfl⟩
  · exact fun p hp => ⟨p, hp, rfl, rfl, rfl⟩
  · exact samePolls_finish (addVotes s c choices) c first
  · exact fun p hp => ⟨p, hp, rfl, rfl, rfl⟩

theorem Cast.votes {s t : Store} (h : Cast s t) {v : Vote} (hv : v ∈ t.pollVotes) :
    v ∈ s.pollVotes ∨ ∃ p ∈ s.polls.rows, v.pollId = p.id ∧ 0 ≤ v.choice ∧
      v.choice < p.options.length := by
  have hadded : ∀ c choices, c.poll ∈ s.polls.rows → Indexes c.poll choices →
      v ∈ (addVotes s c choices).pollVotes →
      v ∈ s.pollVotes ∨ ∃ p ∈ s.polls.rows, v.pollId = p.id ∧ 0 ≤ v.choice ∧
        v.choice < p.options.length := by
    intro c choices hpoll hindexes hmem
    rcases List.mem_append.mp hmem with hold | hnew
    · exact .inl hold
    · obtain ⟨choice, hchoice, rfl⟩ := List.mem_map.mp hnew
      exact .inr ⟨c.poll, hpoll, rfl, hindexes choice hchoice⟩
  rcases h with (rfl | ⟨c, choices, first, hpoll, hindexes, -, -, rfl⟩) |
    ⟨c, choices, hpoll, hindexes, rfl⟩
  · exact .inl hv
  · rw [finish_pollVotes] at hv
    exact hadded c choices hpoll hindexes hv
  · exact hadded c choices hpoll hindexes hv

theorem poll_unique (s : Store) {p q : Poll} (hp : p ∈ s.polls.rows) (hq : q ∈ s.polls.rows)
    (h : p.id = q.id) : p = q :=
  s.polls.eq_of_clash hp hq ⟨p.id, List.mem_singleton.mpr rfl, List.mem_singleton.mpr h⟩

theorem Cast.choicesExist {s t : Store} (h : Cast s t) (hs : ChoicesExist s) :
    ChoicesExist t := by
  intro p hp v hv hid
  obtain ⟨q, hq, hqid, hoptions, -⟩ := h.samePolls p hp
  rw [← hoptions]
  rcases h.votes hv with hold | ⟨r, hr, hrid, hindex⟩
  · exact hs q hq v hold (hid.trans hqid.symm)
  · rwa [poll_unique s hq hr (hqid.trans (hid.symm.trans hrid))]

theorem Cast.wellFormed {s : State} {t : Store} (h : Cast s.store t) (hs : WellFormed s) :
    WellFormed { s with store := t } where
  polls_lt := by
    intro p hp
    obtain ⟨q, hq, hid, -⟩ := h.samePolls p hp
    exact hid ▸ hs.polls_lt q hq
  votes_lt := by
    intro v hv
    rcases h.votes hv with hold | ⟨r, hr, hid, -⟩
    · exact hs.votes_lt v hold
    · exact hid ▸ hs.polls_lt r hr
  short := by
    intro p hp
    obtain ⟨q, hq, -, hoptions, -⟩ := h.samePolls p hp
    exact hoptions ▸ hs.short q hq

/-! ### Counts -/

theorem votesOf_addVotes (s : Store) (c : Call) (choices : List ℤ) {id : ℕ}
    (h : id ≠ c.poll.id) : votesOf (addVotes s c choices).pollVotes id = votesOf s.pollVotes id := by
  unfold votesOf addVotes
  have hnone : choices.countP ((fun x => decide (x.pollId = id)) ∘ voteOf c) = 0 := by
    rw [List.countP_eq_zero]
    intro choice _ heq
    exact h (of_decide_eq_true heq).symm
  rw [List.countP_append, List.countP_map, hnone, Nat.add_zero]

theorem Settled.counted {s t : Store} {named : Prop} (h : Settled s t named) (hs : Counted s) :
    Counted t := by
  rcases h with rfl | ⟨c, choices, first, -, -, -, -, rfl⟩
  · exact hs
  · have hrecounted : Counted ((addVotes s c choices).recount c.poll.id) := by
      intro p hp
      obtain ⟨q, hq, rfl⟩ := mem_updatePoll.mp hp
      by_cases hid : q.id = c.poll.id
      · rw [if_pos hid]
        exact congrArg (votesOf (addVotes s c choices).pollVotes) hid.symm
      · rw [if_neg hid]
        exact (hs q hq).trans (votesOf_addVotes s c choices hid).symm
    rw [finish_eq]
    by_cases hvoter : (c.poll.multiple && first) = true
    · rw [if_pos hvoter]
      intro p hp
      obtain ⟨q, hq, rfl⟩ := mem_updatePoll.mp hp
      have hq' := hrecounted q hq
      by_cases hid : q.id = c.poll.id
      · rw [if_pos hid]
        exact hq'
      · rw [if_neg hid]
        exact hq'
    · rw [if_neg hvoter]
      exact hrecounted

/-! ### Voters -/

theorem mem_voters {votes : List Vote} {id accountId : ℕ} :
    accountId ∈ voters votes id ↔ ∃ v ∈ votes, v.pollId = id ∧ v.accountId = accountId := by
  simp [voters, and_assoc]

theorem voters_addVotes (s : Store) (c : Call) {choices : List ℤ} (h : choices ≠ []) :
    voters (addVotes s c choices).pollVotes c.poll.id =
      insert c.accountId (voters s.pollVotes c.poll.id) := by
  obtain ⟨choice, rest, rfl⟩ := List.exists_cons_of_ne_nil h
  ext accountId
  rw [Finset.mem_insert, mem_voters, mem_voters]
  constructor
  · rintro ⟨v, hv, hid, rfl⟩
    rcases List.mem_append.mp hv with hold | hnew
    · exact .inr ⟨v, hold, hid, rfl⟩
    · obtain ⟨other, -, rfl⟩ := List.mem_map.mp hnew
      exact .inl rfl
  · rintro (rfl | ⟨v, hv, hid, rfl⟩)
    · exact ⟨voteOf c choice, List.mem_append_right _ List.mem_cons_self, rfl, rfl⟩
    · exact ⟨v, List.mem_append_left _ hv, hid, rfl⟩

theorem voters_addVotes_other (s : Store) (c : Call) (choices : List ℤ) {id : ℕ}
    (h : id ≠ c.poll.id) :
    voters (addVotes s c choices).pollVotes id = voters s.pollVotes id := by
  ext accountId
  rw [mem_voters, mem_voters]
  constructor
  · rintro ⟨v, hv, hid, rfl⟩
    rcases List.mem_append.mp hv with hold | hnew
    · exact ⟨v, hold, hid, rfl⟩
    · obtain ⟨other, -, rfl⟩ := List.mem_map.mp hnew
      exact absurd hid.symm h
  · rintro ⟨v, hv, hid, rfl⟩
    exact ⟨v, List.mem_append_left _ hv, hid, rfl⟩

theorem Settled.votersCounted {s t : Store} {named : Prop} (h : Settled s t named)
    (hnamed : named) (hs : VotersCounted s) : VotersCounted t := by
  rcases h with rfl | ⟨c, choices, first, hpoll, -, hchoices, hfirst, rfl⟩
  · exact hs
  intro p hp hmultiple
  obtain ⟨q, hq, hqid, -, -, hqmultiple, hcount⟩ := mem_finish hp
  have hbefore := hs q hq (hqmultiple.trans hmultiple)
  rw [finish_pollVotes, hcount, hbefore, ← hqid]
  by_cases hid : q.id = c.poll.id
  · have hsame : q = c.poll := poll_unique s hq hpoll hid
    rw [hid, voters_addVotes s c (hchoices hnamed), ← hsame, hqmultiple, hmultiple, hfirst,
      Bool.true_and, hsame]
    cases hvoted : voted s.pollVotes c.poll.id c.accountId with
    | true =>
        rw [Finset.insert_eq_self.mpr (voted_iff.mp hvoted), if_neg (by simp), Nat.add_zero]
    | false =>
        have hnot : c.accountId ∉ voters s.pollVotes c.poll.id := by
          rw [← voted_iff, hvoted]
          exact Bool.false_ne_true
        rw [Finset.card_insert_of_notMem hnot, if_pos (by simp)]
  · rw [if_neg (fun hboth => hid hboth.1), voters_addVotes_other s c choices hid, Nat.add_zero]

theorem voters_deleteVotes (s : Store) {id other : ℕ} (h : other ≠ id) :
    voters (deleteVotes s id).pollVotes other = voters s.pollVotes other := by
  ext accountId
  rw [mem_voters, mem_voters]
  constructor
  · rintro ⟨v, hv, hid, rfl⟩
    exact ⟨v, List.mem_of_mem_filter hv, hid, rfl⟩
  · rintro ⟨v, hv, hid, rfl⟩
    exact ⟨v, List.mem_filter.mpr ⟨hv, decide_eq_true (hid ▸ h)⟩, hid, rfl⟩

theorem votesOf_deleteVotes (s : Store) {id other : ℕ} (h : other ≠ id) :
    votesOf (deleteVotes s id).pollVotes other = votesOf s.pollVotes other := by
  unfold votesOf deleteVotes
  rw [List.countP_filter]
  refine List.countP_congr fun v _ => ?_
  simp only [Bool.and_eq_true, decide_eq_true_eq]
  exact ⟨fun hv => hv.1, fun hv => ⟨hv, by rw [hv]; exact h⟩⟩

/-! ### What an edit leaves -/

section
variable {s : Store} {ep : Poll} {pf : PollForm}

theorem polls_resetVotes : (resetVotes s ep pf).polls = s.polls := by
  unfold resetVotes
  by_cases h : ep.options ≠ pf.options ∨ ep.multiple ≠ pf.multiple.getD false
  · rw [if_pos h]
    rfl
  · rw [if_neg h]

theorem mem_resetVotes {v : Vote} (h : v ∈ (resetVotes s ep pf).pollVotes) :
    v ∈ s.pollVotes ∧ (v.pollId = ep.id → ep.options = pf.options) := by
  unfold resetVotes at h
  by_cases hchanged : ep.options ≠ pf.options ∨ ep.multiple ≠ pf.multiple.getD false
  · rw [if_pos hchanged] at h
    obtain ⟨hmem, hne⟩ := List.mem_filter.mp h
    exact ⟨hmem, fun heq => absurd heq (of_decide_eq_true hne)⟩
  · rw [if_neg hchanged] at h
    rw [not_or, not_not] at hchanged
    exact ⟨h, fun _ => hchanged.1⟩

theorem votesOf_resetVotes {other : ℕ} (h : other ≠ ep.id) :
    votesOf (resetVotes s ep pf).pollVotes other = votesOf s.pollVotes other := by
  unfold resetVotes
  by_cases hchanged : ep.options ≠ pf.options ∨ ep.multiple ≠ pf.multiple.getD false
  · rw [if_pos hchanged]
    exact votesOf_deleteVotes s h
  · rw [if_neg hchanged]

theorem mem_setPoll {p : Poll} (h : p ∈ (setPoll (resetVotes s ep pf) ep.id pf).polls.rows) :
    ∃ q ∈ s.polls.rows, q.id = p.id ∧
      ((q.id = ep.id ∧ p.options = pf.options ∧ p.cachedTallies = [] ∧
          p.votesCount = votesOf (resetVotes s ep pf).pollVotes p.id ∧
          p.multiple = pf.multiple.getD false ∧ p.votersCount = q.votersCount) ∨
        (q.id ≠ ep.id ∧ p = q)) := by
  obtain ⟨q, hq, rfl⟩ := mem_updatePoll.mp h
  rw [polls_resetVotes] at hq
  refine ⟨q, hq, ?_⟩
  by_cases hid : q.id = ep.id
  · rw [if_pos hid]
    exact ⟨rfl, .inl ⟨hid, rfl, rfl, by rw [hid], rfl, rfl⟩⟩
  · rw [if_neg hid]
    exact ⟨rfl, .inr ⟨hid, rfl⟩⟩

theorem choicesExist_set (hs : ChoicesExist s) (hep : ep ∈ s.polls.rows) :
    ChoicesExist (setPoll (resetVotes s ep pf) ep.id pf) := by
  intro p hp v hv hid
  obtain ⟨hold, hsame⟩ := mem_resetVotes hv
  obtain ⟨q, hq, hqid, ⟨heq, hoptions, -⟩ | ⟨-, rfl⟩⟩ := mem_setPoll hp
  · have hvote := hs ep hep v hold (hid.trans (hqid.symm.trans heq))
    rwa [hoptions, ← hsame (hid.trans (hqid.symm.trans heq))]
  · exact hs p hq v hold hid

theorem counted_set (hs : Counted s) : Counted (setPoll (resetVotes s ep pf) ep.id pf) := by
  intro p hp
  obtain ⟨q, hq, -, ⟨-, -, -, hcount, -⟩ | ⟨hne, rfl⟩⟩ := mem_setPoll hp
  · exact hcount
  · exact (hs p hq).trans (votesOf_resetVotes hne).symm

theorem votersCounted_set (hs : VotersCounted s) (hep : ep ∈ s.polls.rows)
    (hstay : changes ep pf → ep.votersCount.getD 0 = 0) :
    VotersCounted (setPoll (resetVotes s ep pf) ep.id pf) := by
  intro p hp hmultiple
  obtain ⟨q, hq, hqid, ⟨hid, -, -, -, hform, hcount⟩ | ⟨hne, rfl⟩⟩ := mem_setPoll hp
  · have hsame : q = ep := poll_unique s hq hep hid
    rw [hcount, hsame, ← hqid, hid]
    change _ = (voters (resetVotes s ep pf).pollVotes ep.id).card
    unfold resetVotes
    by_cases hchanges : ep.options ≠ pf.options ∨ ep.multiple ≠ pf.multiple.getD false
    · rw [if_pos hchanges, hstay hchanges]
      refine (Finset.card_eq_zero.mpr (Finset.eq_empty_of_forall_notMem fun accountId hmem => ?_)).symm
      obtain ⟨v, hv, hvid, -⟩ := mem_voters.mp hmem
      have hne := (List.mem_filter.mp hv).2
      exact of_decide_eq_true hne hvid
    · rw [if_neg hchanges]
      have hstill := not_not.mp (not_or.mp hchanges).2
      exact hs ep hep (hstill.trans (hform.symm.trans hmultiple))
  · change _ = (voters (resetVotes s ep pf).pollVotes p.id).card
    rw [hs p hq hmultiple]
    unfold resetVotes
    split
    · rw [voters_deleteVotes s hne]
    · rfl

theorem mem_removePoll {id : ℕ} {p : Poll} (h : p ∈ (removePoll s id).polls.rows) :
    p ∈ s.polls.rows ∧ p.id ≠ id := by
  obtain ⟨hmem, hne⟩ := List.mem_filter.mp h
  exact ⟨hmem, by simpa using hne⟩

theorem choicesExist_remove (hs : ChoicesExist s) (id : ℕ) : ChoicesExist (removePoll s id) :=
  fun p hp v hv hid => hs p (mem_removePoll hp).1 v (List.mem_of_mem_filter hv) hid

theorem counted_remove (hs : Counted s) (id : ℕ) : Counted (removePoll s id) := fun p hp =>
  (hs p (mem_removePoll hp).1).trans (votesOf_deleteVotes s (mem_removePoll hp).2).symm

theorem votersCounted_remove (hs : VotersCounted s) (id : ℕ) :
    VotersCounted (removePoll s id) := by
  intro p hp hmultiple
  obtain ⟨hmem, hne⟩ := mem_removePoll hp
  rw [hs p hmem hmultiple]
  exact congrArg Finset.card (voters_deleteVotes s hne).symm

end

/-- A call keeps the choices, the shapes and the tallies, the counts when it is not cut short,
and the voters when they stay. -/
structure Kept (s t : State) (uncut stay : Prop) : Prop where
  wellFormed : WellFormed t
  choicesExist : ChoicesExist t.store
  counted : uncut → Counted s.store → Counted t.store
  votersCounted : uncut → stay → VotersCounted s.store → VotersCounted t.store
  /-- Tallies are as they were, or empty. -/
  tallies : ∀ p ∈ t.store.polls.rows, p.cachedTallies = [] ∨
    ∃ q ∈ s.store.polls.rows, q.id = p.id ∧ q.cachedTallies = p.cachedTallies

section
variable {s : State} {uncut stay : Prop}

theorem Kept.refl (hw : WellFormed s) (hs : ChoicesExist s.store) : Kept s s uncut stay :=
  ⟨hw, hs, fun _ hc => hc, fun _ _ hv => hv, fun p hp => .inr ⟨p, hp, rfl, rfl⟩⟩

theorem kept_set (hw : WellFormed s) (hs : ChoicesExist s.store) {ep : Poll}
    (hep : ep ∈ s.store.polls.rows) {pf : PollForm} (hpf : pf.options.length < arrayLimit)
    (hstay : stay → changes ep pf → ep.votersCount.getD 0 = 0) :
    Kept s { s with store := setPoll (resetVotes s.store ep pf) ep.id pf } uncut stay where
  wellFormed :=
    { polls_lt := by
        intro p hp
        obtain ⟨q, hq, hid, -⟩ := mem_setPoll hp
        exact hid ▸ hw.polls_lt q hq
      votes_lt := fun v hv => hw.votes_lt v (mem_resetVotes hv).1
      short := by
        intro p hp
        obtain ⟨q, hq, -, ⟨-, hoptions, -⟩ | ⟨-, rfl⟩⟩ := mem_setPoll hp
        · rw [hoptions]
          exact hpf
        · exact hw.short p hq }
  choicesExist := choicesExist_set hs hep
  counted := fun _ => counted_set
  votersCounted := fun _ hstays hv => votersCounted_set hv hep (hstay hstays)
  tallies := by
    intro p hp
    obtain ⟨q, hq, hid, ⟨-, -, hempty, -⟩ | ⟨-, rfl⟩⟩ := mem_setPoll hp
    · exact .inl hempty
    · exact .inr ⟨p, hq, rfl, rfl⟩

theorem kept_remove (hw : WellFormed s) (hs : ChoicesExist s.store) (id : ℕ) :
    Kept s { s with store := removePoll s.store id } uncut stay where
  wellFormed :=
    { polls_lt := fun p hp => hw.polls_lt p (mem_removePoll hp).1
      votes_lt := fun v hv => hw.votes_lt v (List.mem_of_mem_filter hv)
      short := fun p hp => hw.short p (mem_removePoll hp).1 }
  choicesExist := choicesExist_remove hs id
  counted := fun _ hc => counted_remove hc id
  votersCounted := fun _ _ hv => votersCounted_remove hv id
  tallies := fun p hp => .inr ⟨p, (mem_removePoll hp).1, rfl, rfl⟩

theorem kept_insert (hw : WellFormed s) (hs : ChoicesExist s.store) (statusId accountId : ℕ)
    {pf : PollForm} (hpf : pf.options.length < arrayLimit) :
    Kept s
      { store :=
          { s.store with polls := s.store.polls.insert (newPoll s.nextId statusId accountId pf) }
        nextId := s.nextId + 1 } uncut stay where
  wellFormed :=
    { polls_lt := by
        intro p hp
        rcases Table.mem_insert.mp hp with hold | ⟨-, rfl⟩
        · exact Nat.lt_succ_of_lt (hw.polls_lt p hold)
        · exact Nat.lt_succ_self _
      votes_lt := fun v hv => Nat.lt_succ_of_lt (hw.votes_lt v hv)
      short := by
        intro p hp
        rcases Table.mem_insert.mp hp with hold | ⟨-, rfl⟩
        · exact hw.short p hold
        · exact hpf }
  choicesExist := by
    intro p hp v hv hid
    rcases Table.mem_insert.mp hp with hold | ⟨-, rfl⟩
    · exact hs p hold v hv hid
    · exact absurd hid (hw.votes_lt v hv).ne
  counted := by
    intro _ hc p hp
    rcases Table.mem_insert.mp hp with hold | ⟨-, rfl⟩
    · exact hc p hold
    · refine (List.countP_eq_zero.mpr fun v hv => ?_).symm
      exact fun heq => (hw.votes_lt v hv).ne (of_decide_eq_true heq)
  votersCounted := by
    intro _ _ hc p hp hmultiple
    rcases Table.mem_insert.mp hp with hold | ⟨-, rfl⟩
    · exact hc p hold hmultiple
    · refine (Finset.card_eq_zero.mpr (Finset.eq_empty_of_forall_notMem fun _ hmem => ?_)).symm
      obtain ⟨v, hv, hid, -⟩ := mem_voters.mp hmem
      exact (hw.votes_lt v hv).ne hid
  tallies := by
    intro p hp
    rcases Table.mem_insert.mp hp with hold | ⟨-, rfl⟩
    · exact .inr ⟨p, hold, rfl, rfl⟩
    · exact .inl rfl

theorem short_of_valid {refused : PollForm → Bool} {pf : PollForm}
    (h : validatePollForm refused pf = true) : pf.options.length < arrayLimit := by
  unfold validatePollForm pollMaxOptions at h
  simp only [Bool.and_eq_true, decide_eq_true_eq] at h
  unfold arrayLimit
  omega

theorem kept_edit (refused : PollForm → Bool) (hw : WellFormed s) (hs : ChoicesExist s.store)
    (statusId accountId : ℕ) (form : Option (Option PollForm)) :
    Kept s (editPoll refused s statusId accountId form) uncut
      (votersStay s (.edit statusId accountId form)) := by
  match form with
  | none => exact .refl hw hs
  | some none =>
      unfold editPoll
      cases hfind : s.store.polls.rows.find? fun p => p.statusId = statusId with
      | none => exact .refl hw hs
      | some ep => exact kept_remove hw hs ep.id
  | some (some pf) =>
      simp only [editPoll]
      by_cases hvalid : validatePollForm refused pf = true
      · rw [if_pos hvalid]
        cases hfind : s.store.polls.rows.find? fun p => p.statusId = statusId with
        | none => exact kept_insert hw hs statusId accountId (short_of_valid hvalid)
        | some ep =>
            have hmem := List.mem_of_find?_eq_some hfind
            have hstatus := List.find?_some hfind
            exact kept_set hw hs hmem (short_of_valid hvalid) fun hstay =>
              hstay ep hmem (of_decide_eq_true hstatus)
      · rw [if_neg hvalid]
        exact .refl hw hs

theorem Cast.kept {t : Store} (h : Cast s.store t) (hw : WellFormed s)
    (hs : ChoicesExist s.store) (hsettled : uncut → Settled s.store t stay) :
    Kept s { s with store := t } uncut stay where
  wellFormed := h.wellFormed hw
  choicesExist := h.choicesExist hs
  counted := fun huncut => (hsettled huncut).counted
  votersCounted := fun huncut => (hsettled huncut).votersCounted
  tallies := by
    intro p hp
    obtain ⟨q, hq, hid, -, htallies⟩ := h.samePolls p hp
    exact .inr ⟨q, hq, hid, htallies⟩

theorem step_kept (refused : PollForm → Bool) (hw : WellFormed s) (hs : ChoicesExist s.store)
    (op : Op) : Kept s (step refused s op) (notCutShort s op) (votersStay s op) := by
  cases op with
  | vote pollId accountId choices now =>
      exact (votePoll_cast hw.short pollId accountId choices now).kept hw hs (votePoll_settled hw)
  | note statusId voterId choiceName voteUri now =>
      have hsettled := pollVoteNote_settled hw.short statusId voterId choiceName voteUri now
      exact hsettled.cast.kept hw hs fun _ => hsettled
  | edit statusId accountId form =>
      exact kept_edit refused hw hs statusId accountId form

end

/-! ### Over a sequence of calls -/

theorem run_kept (refused : PollForm → Bool) (ops : List Op) {s : State} (hw : WellFormed s)
    (hs : ChoicesExist s.store) :
    WellFormed (run (step refused) s ops) ∧ ChoicesExist (run (step refused) s ops).store ∧
      ∀ p ∈ (run (step refused) s ops).store.polls.rows, p.cachedTallies = [] ∨
        ∃ q ∈ s.store.polls.rows, q.id = p.id ∧ q.cachedTallies = p.cachedTallies := by
  induction ops generalizing s with
  | nil => exact ⟨hw, hs, fun p hp => .inr ⟨p, hp, rfl, rfl⟩⟩
  | cons op ops ih =>
      have hstep := step_kept refused hw hs op
      obtain ⟨hwell, hchoices, htallies⟩ := ih hstep.wellFormed hstep.choicesExist
      refine ⟨hwell, hchoices, fun p hp => ?_⟩
      rcases htallies p hp with hempty | ⟨q, hq, hid, heq⟩
      · exact .inl hempty
      · rcases hstep.tallies q hq with hempty | ⟨r, hr, hrid, hreq⟩
        · exact .inl (heq.symm.trans hempty)
        · exact .inr ⟨r, hr, hrid.trans hid, hreq.trans heq⟩

theorem run_counted (refused : PollForm → Bool) (ops : List Op) {s : State} (hw : WellFormed s)
    (hs : ChoicesExist s.store) (hc : Counted s.store)
    (hg : Guarded (step refused) notCutShort s ops) :
    Counted (run (step refused) s ops).store := by
  induction ops generalizing s with
  | nil => exact hc
  | cons op ops ih =>
      have hstep := step_kept refused hw hs op
      exact ih hstep.wellFormed hstep.choicesExist (hstep.counted hg.1 hc) hg.2

theorem run_votersCounted (refused : PollForm → Bool) (ops : List Op) {s : State}
    (hw : WellFormed s) (hs : ChoicesExist s.store) (hv : VotersCounted s.store)
    (hg : Guarded (step refused) (fun s op => notCutShort s op ∧ votersStay s op) s ops) :
    VotersCounted (run (step refused) s ops).store := by
  induction ops generalizing s with
  | nil => exact hv
  | cons op ops ih =>
      have hstep := step_kept refused hw hs op
      exact ih hstep.wellFormed hstep.choicesExist (hstep.votersCounted hg.1.1 hg.1.2 hv) hg.2

def yesOrNo : Poll := newPoll 1 1 1 ⟨["yes", "no"], none, none⟩

def onePoll : State where
  store :=
    { polls := { rows := [yesOrNo], distinct := List.pairwise_singleton _ _ }, pollVotes := [] }
  nextId := 2

example : (votePoll onePoll.store 1 2 [0] 0).pollVotes = [⟨2, 1, 0, none⟩] := by decide +kernel

theorem wellFormed_onePoll : WellFormed onePoll where
  polls_lt := by
    intro p hp
    rw [List.mem_singleton.mp hp]
    decide
  votes_lt := fun v hv => by cases hv
  short := by
    intro p hp
    rw [List.mem_singleton.mp hp]
    decide

end Eunha.PollEdits
