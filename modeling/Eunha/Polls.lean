import Eunha.Interleaving
import Eunha.Roles
import Eunha.Tables
import Mathlib.Data.Finset.Card

/-!
# Votes in polls

A vote comes from the API or as a note from another server. Either reads the poll, looks
for a vote that is there already, inserts and recounts, each in a statement of its own.
`poll_votes` has no unique index but its id, so its inserts never conflict.
-/
namespace Eunha.Polls
open Tables Interleaving
open Roles (AppError asI32)

structure Poll where
  id : ℕ
  accountId : ℕ
  statusId : ℕ
  options : List String
  multiple : Bool
  expiresAt : Option ℤ
  cachedTallies : List ℕ
  votesCount : ℕ
  votersCount : Option ℕ
  deriving DecidableEq

def Poll.keys (p : Poll) : List ℕ := [p.id]

structure Vote where
  accountId : ℕ
  pollId : ℕ
  choice : ℤ
  uri : Option String
  deriving DecidableEq

structure Store where
  polls : Table Poll.keys
  pollVotes : List Vote

/-- `SELECT EXISTS(SELECT 1 FROM poll_votes WHERE poll_id = … AND account_id = …)` -/
def voted (votes : List Vote) (pollId accountId : ℕ) : Bool :=
  votes.any fun v => v.pollId = pollId ∧ v.accountId = accountId

/-- `UPDATE polls SET … WHERE id = …`, of a column that is no key. -/
def updatePoll (s : Store) (id : ℕ) (f : Poll → Poll) (hf : ∀ p, (f p).id = p.id) : Store :=
  { s with
    polls := s.polls.update (fun p => if p.id = id then f p else p) fun p => by
      split
      · rw [Poll.keys, hf, Poll.keys]
      · rfl }

/-- `SELECT COUNT(*) FROM poll_votes WHERE poll_id = …` -/
def votesOf (votes : List Vote) (pollId : ℕ) : ℕ := votes.countP (·.pollId = pollId)

/-! ### What a call goes through -/

/-- The statement that comes next. -/
inductive Phase where
  | checkVoted (choices : List ℤ)
  | checkFirst (choices : List ℤ)
  | insert (choice : ℤ) (rest created : List ℤ) (wasFirstVote : Bool)
  | checkAlready (choice : ℤ)
  | insertNote (choice : ℤ) (alreadyVoted : Bool)
  | recount (newVoter : Bool)
  | addVoter
  deriving DecidableEq

/-- A vote in progress, with the poll as it was read. -/
structure Call where
  poll : Poll
  accountId : ℕ
  uri : Option String
  phase : Phase
  deriving DecidableEq

inductive Next where
  | go (c : Call)
  | done
  | error (e : AppError)

def Next.call : Next → Option Call
  | .go c => some c
  | _ => none

def Call.next (c : Call) (phase : Phase) : Next := .go { c with phase := phase }

def validChoice (p : Poll) (choice : ℤ) : Bool :=
  0 ≤ choice ∧ choice < asI32 p.options.length

/-- The loop of `vote_poll`, up to its next statement. -/
def Call.loop (c : Call) (choices created : List ℤ) (wasFirstVote : Bool) : Next :=
  match choices with
  | [] => c.next (.recount (c.poll.multiple && wasFirstVote))
  | choice :: rest =>
      if !validChoice c.poll choice then .error (.unprocessable "Invalid choice index")
      else c.next (.insert choice rest created wasFirstVote)

def Store.addVote (s : Store) (c : Call) (choice : ℤ) : Store :=
  { s with pollVotes := s.pollVotes ++ [⟨c.accountId, c.poll.id, choice, c.uri⟩] }

/-- `UPDATE polls SET votes_count = (SELECT COUNT(*) …)` -/
def Store.recount (s : Store) (id : ℕ) : Store :=
  updatePoll s id (fun p => { p with votesCount := votesOf s.pollVotes id }) fun _ => rfl

/-- `UPDATE polls SET voters_count = COALESCE(voters_count, 0) + 1` -/
def Store.addVoter (s : Store) (id : ℕ) : Store :=
  updatePoll s id (fun p => { p with votersCount := some (p.votersCount.getD 0 + 1) }) fun _ => rfl

def exec (s : Store) (c : Call) : Store × Next :=
  let alreadyVoted := voted s.pollVotes c.poll.id c.accountId
  match c.phase with
  | .checkVoted choices =>
      (s, if alreadyVoted then .error (.unprocessable "Already voted")
        else c.next (.checkFirst choices))
  | .checkFirst choices => (s, c.loop choices [] !alreadyVoted)
  | .insert choice rest created wasFirstVote =>
      (s.addVote c choice, c.loop rest (created ++ [choice]) wasFirstVote)
  | .checkAlready choice =>
      (s, if !c.poll.multiple && alreadyVoted then .done
        else c.next (.insertNote choice alreadyVoted))
  | .insertNote choice alreadyVoted =>
      (s.addVote c choice, c.next (.recount (c.poll.multiple && !alreadyVoted)))
  | .recount newVoter =>
      (s.recount c.poll.id, if newVoter then c.next .addVoter else .done)
  | .addVoter => (s.addVoter c.poll.id, .done)

def Poll.expired (p : Poll) (now : ℤ) : Bool := p.expiresAt.any (· < now)

inductive Request where
  | vote (pollId accountId : ℕ) (choices : List ℤ) (now : ℤ)
  | note (statusId voterId : ℕ) (choiceName voteUri : String) (now : ℤ)

/-- `vote_poll`, up to its first statement on the votes. -/
def votePoll (s : Store) (id accountId : ℕ) (choices : List ℤ) (now : ℤ) : Next :=
  match s.polls.rows.find? (·.id = id) with
  | none => .error .notFound
  | some poll =>
      if poll.expired now then .error (.unprocessable "Poll has expired")
      else if poll.accountId = accountId then
        .error (.unprocessable "You cannot vote on your own poll")
      else if !poll.multiple && 1 < choices.length then
        .error (.unprocessable "Multiple choices not allowed")
      else
        .go
          { poll := poll
            accountId := accountId
            uri := none
            phase := if poll.multiple then .checkFirst choices else .checkVoted choices }

/-- `handle_poll_vote_note`, up to its first statement on the votes. -/
def handlePollVoteNote (s : Store) (statusId voterId : ℕ) (choiceName voteUri : String) (now : ℤ) :
    Next :=
  match s.polls.rows.find? (·.statusId = statusId) with
  | none => .done
  | some poll =>
      if poll.expired now then .done
      else
        match poll.options.idxOf? choiceName with
        | none => .done
        | some choice =>
            .go
              { poll := poll
                accountId := voterId
                uri := some voteUri
                phase := .checkAlready (asI32 choice) }

def enter (s : Store) : Request → Next
  | .vote pollId accountId choices now => votePoll s pollId accountId choices now
  | .note statusId voterId choiceName voteUri now =>
      handlePollVoteNote s statusId voterId choiceName voteUri now

/-- Any number of votes, their statements in any order. -/
def machine : Machine Store Call Request Unit where
  enter s r := (s, (enter s r).call)
  exec s c _ := ((exec s c).1, (exec s c).2.call)

/-! ### What the columns say -/

def voters (votes : List Vote) (pollId : ℕ) : Finset ℕ :=
  ((votes.filter (·.pollId = pollId)).map (·.accountId)).toFinset

def castBy (votes : List Vote) (pollId accountId : ℕ) : ℕ :=
  votes.countP fun v => v.pollId = pollId ∧ v.accountId = accountId

def castFor (votes : List Vote) (pollId accountId : ℕ) (choice : ℤ) : ℕ :=
  votes.countP fun v => v.pollId = pollId ∧ v.accountId = accountId ∧ v.choice = choice

/-- No vote is there twice, nor two votes where one is allowed, and the counts are right. -/
structure Consistent (votes : List Vote) (p : Poll) : Prop where
  once : ∀ accountId choice, castFor votes p.id accountId choice ≤ 1
  single : p.multiple = false → ∀ accountId, castBy votes p.id accountId ≤ 1
  counted : p.votesCount = votesOf votes p.id
  votersCounted : p.multiple = true → p.votersCount.getD 0 = (voters votes p.id).card

/-- `cached_tallies` has the number of votes for each option. -/
def Tallied (votes : List Vote) (p : Poll) : Prop :=
  ∀ option : ℕ, option < p.options.length → p.cachedTallies.getD option 0 =
    votes.countP fun v => v.pollId = p.id ∧ v.choice = (option : ℤ)

end Eunha.Polls
