import Eunha.Polls

/-!
# Votes of different accounts, in any interleaving

While no account votes twice at a time in a poll, and what a call names in a multiple-choice
poll are valid choices its account has not made, the calls of a poll only meet in its
counts. A count that is behind is one a call in progress will still set, and the voters not
counted yet are those of calls that will still count them.
-/
namespace Eunha.PollVotes
open Tables Interleaving Polls Runs
open Roles (asI32)

/-! ### One vote more -/

section
variable (votes : List Vote) (v : Vote)

theorem castFor_append (pollId accountId : ℕ) (choice : ℤ) :
    castFor (votes ++ [v]) pollId accountId choice = castFor votes pollId accountId choice +
      if v.pollId = pollId ∧ v.accountId = accountId ∧ v.choice = choice then 1 else 0 := by
  simp [castFor, List.countP_append, List.countP_singleton]

theorem castBy_append (pollId accountId : ℕ) :
    castBy (votes ++ [v]) pollId accountId = castBy votes pollId accountId +
      if v.pollId = pollId ∧ v.accountId = accountId then 1 else 0 := by
  simp [castBy, List.countP_append, List.countP_singleton]

theorem votesOf_append (pollId : ℕ) :
    votesOf (votes ++ [v]) pollId = votesOf votes pollId +
      if v.pollId = pollId then 1 else 0 := by
  simp [votesOf, List.countP_append, List.countP_singleton]

theorem voted_iff {votes : List Vote} {pollId accountId : ℕ} :
    voted votes pollId accountId = true ↔ accountId ∈ voters votes pollId := by
  simp [voted, voters, and_assoc]

theorem voted_append (pollId accountId : ℕ) :
    voted (votes ++ [v]) pollId accountId =
      (voted votes pollId accountId || decide (v.pollId = pollId ∧ v.accountId = accountId)) := by
  simp [voted]

theorem voters_append_self (accountId : ℕ) (choice : ℤ) (uri : Option String) (pollId : ℕ) :
    voters (votes ++ [⟨accountId, pollId, choice, uri⟩]) pollId =
      insert accountId (voters votes pollId) := by
  ext a
  simp [voters]

theorem voters_append_other {pollId : ℕ} (h : v.pollId ≠ pollId) :
    voters (votes ++ [v]) pollId = voters votes pollId := by
  simp [voters, h]

end

theorem castFor_eq_zero {votes : List Vote} {pollId accountId : ℕ}
    (h : voted votes pollId accountId = false) (choice : ℤ) :
    castFor votes pollId accountId choice = 0 := by
  rw [castFor, List.countP_eq_zero]
  intro v hv hp
  have hnone := List.any_eq_false.mp h v hv
  simp only [decide_eq_true_eq] at hp hnone
  exact hnone ⟨hp.1, hp.2.1⟩

theorem castBy_eq_zero {votes : List Vote} {pollId accountId : ℕ}
    (h : voted votes pollId accountId = false) : castBy votes pollId accountId = 0 := by
  rw [castBy, List.countP_eq_zero]
  exact List.any_eq_false.mp h

/-! ### What a call knows -/

def Fresh (votes : List Vote) (c : Call) (choices : List ℤ) : Prop :=
  ∀ choice ∈ choices, castFor votes c.poll.id c.accountId choice = 0

def hasVoted (votes : List Vote) (c : Call) : Bool := voted votes c.poll.id c.accountId

structure Left (votes : List Vote) (c : Call) (choices : List ℤ) : Prop where
  nodup : choices.Nodup
  fresh : Fresh votes c choices
  valid : c.poll.multiple = true → ∀ choice ∈ choices, validChoice c.poll choice = true
  single : c.poll.multiple = false → choices.length ≤ 1

def Knows (votes : List Vote) (c : Call) : Prop :=
  match c.phase with
  | .checkVoted choices => c.poll.multiple = false ∧ choices.length ≤ 1
  | .checkFirst choices =>
      Left votes c choices ∧ (c.poll.multiple = true → choices ≠ []) ∧
        (c.poll.multiple = false → hasVoted votes c = false)
  | .insert choice rest _ wasFirstVote =>
      Left votes c (choice :: rest) ∧ (wasFirstVote = false → hasVoted votes c = true) ∧
        (c.poll.multiple = false → hasVoted votes c = false)
  | .checkAlready choice => c.poll.multiple = true → Fresh votes c [choice]
  | .insertNote choice alreadyVoted =>
      Fresh votes c [choice] ∧ alreadyVoted = hasVoted votes c ∧
        (c.poll.multiple = false → hasVoted votes c = false)
  | .recount newVoter => newVoter = true → c.poll.multiple = true
  | .addVoter => c.poll.multiple = true

def owesVoter (votes : List Vote) (c : Call) : Bool :=
  match c.phase with
  | .insert _ _ _ wasFirstVote => wasFirstVote && hasVoted votes c
  | .recount newVoter => newVoter
  | .addVoter => true
  | _ => false

def owesCount (c : Call) : Bool :=
  match c.phase with
  | .insert .. | .insertNote .. | .recount _ => true
  | _ => false

/-- Two calls of different accounts, or in different polls. -/
def Apart (c d : Call) : Prop := ¬ (c.poll.id = d.poll.id ∧ c.accountId = d.accountId)

theorem Apart.symm {c d : Call} (h : Apart c d) : Apart d c :=
  fun he => h ⟨he.1.symm, he.2.symm⟩

def voteOf (c : Call) (choice : ℤ) : Vote := ⟨c.accountId, c.poll.id, choice, c.uri⟩

section
variable {votes : List Vote} {c d : Call} (h : Apart c d) (choice : ℤ)
include h

theorem hasVoted_other : hasVoted (votes ++ [voteOf c choice]) d = hasVoted votes d := by
  rw [hasVoted, voted_append]
  have hnot : ¬ ((voteOf c choice).pollId = d.poll.id ∧
      (voteOf c choice).accountId = d.accountId) := h
  simp [hnot, hasVoted]

theorem fresh_other {choices : List ℤ} (hfresh : Fresh votes d choices) :
    Fresh (votes ++ [voteOf c choice]) d choices := by
  intro other hother
  rw [castFor_append, hfresh other hother, if_neg fun he => h ⟨he.1, he.2.1⟩]

theorem knows_other (hknows : Knows votes d) : Knows (votes ++ [voteOf c choice]) d := by
  rw [Knows] at hknows ⊢
  have hleft {choices : List ℤ} (hl : Left votes d choices) :
      Left (votes ++ [voteOf c choice]) d choices :=
    ⟨hl.nodup, fresh_other h choice hl.fresh, hl.valid, hl.single⟩
  simp only [hasVoted_other h choice]
  cases hphase : d.phase with
  | checkVoted choices => simpa only [hphase] using hknows
  | checkFirst choices =>
      simp only [hphase] at hknows
      exact ⟨hleft hknows.1, hknows.2⟩
  | insert other rest created wasFirstVote =>
      simp only [hphase] at hknows
      exact ⟨hleft hknows.1, hknows.2⟩
  | checkAlready other =>
      simp only [hphase] at hknows
      exact fun hm => fresh_other h choice (hknows hm)
  | insertNote other alreadyVoted =>
      simp only [hphase] at hknows
      exact ⟨fresh_other h choice hknows.1, hknows.2⟩
  | recount newVoter => simpa only [hphase] using hknows
  | addVoter => simpa only [hphase] using hknows

theorem owesVoter_other : owesVoter (votes ++ [voteOf c choice]) d = owesVoter votes d := by
  rw [owesVoter, owesVoter, hasVoted_other h choice]

end

/-! ### The invariant -/

def owing (votes : List Vote) (calls : List Call) (pollId : ℕ) : ℕ :=
  calls.countP fun c => c.poll.id = pollId ∧ owesVoter votes c = true

theorem owing_cons (votes : List Vote) (c : Call) (calls : List Call) (pollId : ℕ) :
    owing votes (c :: calls) pollId = owing votes calls pollId +
      if c.poll.id = pollId then (owesVoter votes c).toNat else 0 := by
  rw [owing, owing, List.countP_cons]
  cases owesVoter votes c <;> simp

structure Inv (s : Store) (calls : List Call) : Prop where
  read : ∀ c ∈ calls, ∃ p ∈ s.polls.rows, p.id = c.poll.id ∧ p.multiple = c.poll.multiple
  apart : calls.Pairwise Apart
  knows : ∀ c ∈ calls, Knows s.pollVotes c
  once : ∀ pollId accountId choice, castFor s.pollVotes pollId accountId choice ≤ 1
  single : ∀ p ∈ s.polls.rows, p.multiple = false →
    ∀ accountId, castBy s.pollVotes p.id accountId ≤ 1
  counted : ∀ p ∈ s.polls.rows, p.votesCount = votesOf s.pollVotes p.id ∨
    ∃ c ∈ calls, c.poll.id = p.id ∧ owesCount c = true
  votersCounted : ∀ p ∈ s.polls.rows, p.multiple = true →
    p.votersCount.getD 0 + owing s.pollVotes calls p.id = (voters s.pollVotes p.id).card

theorem Inv.perm {s : Store} {calls calls' : List Call} (hp : calls.Perm calls')
    (h : Inv s calls) : Inv s calls' where
  read c hc := h.read c (hp.mem_iff.mpr hc)
  apart := by
    have hsymm : Std.Symm Apart := ⟨fun _ _ => Apart.symm⟩
    exact (hp.pairwise_iff Apart.symm).mp h.apart
  knows c hc := h.knows c (hp.mem_iff.mpr hc)
  once := h.once
  single := h.single
  counted p hpoll := by
    rcases h.counted p hpoll with heq | ⟨c, hc, howes⟩
    · exact .inl heq
    · exact .inr ⟨c, hp.mem_iff.mp hc, howes⟩
  votersCounted p hpoll hm := by
    rw [← h.votersCounted p hpoll hm, owing, owing, hp.countP_eq]

theorem Inv.drop {s : Store} {c : Call} {calls : List Call} (h : Inv s (c :: calls))
    (hcount : owesCount c = false) (hvoter : owesVoter s.pollVotes c = false) : Inv s calls where
  read d hd := h.read d (List.mem_cons_of_mem c hd)
  apart := (List.pairwise_cons.mp h.apart).2
  knows d hd := h.knows d (List.mem_cons_of_mem c hd)
  once := h.once
  single := h.single
  counted p hp := by
    rcases h.counted p hp with heq | ⟨d, hd, hid, howes⟩
    · exact .inl heq
    · rcases List.mem_cons.mp hd with rfl | hd
      · rw [hcount] at howes
        cases howes
      · exact .inr ⟨d, hd, hid, howes⟩
  votersCounted p hp hm := by
    rw [← h.votersCounted p hp hm, owing_cons, hvoter]
    simp

theorem Inv.add {s : Store} {c : Call} {calls : List Call} (h : Inv s calls)
    (hread : ∃ p ∈ s.polls.rows, p.id = c.poll.id ∧ p.multiple = c.poll.multiple)
    (hapart : ∀ d ∈ calls, Apart c d) (hknows : Knows s.pollVotes c)
    (hvoter : owesVoter s.pollVotes c = false) : Inv s (c :: calls) where
  read d hd := by
    rcases List.mem_cons.mp hd with rfl | hd
    · exact hread
    · exact h.read d hd
  apart := List.pairwise_cons.mpr ⟨hapart, h.apart⟩
  knows d hd := by
    rcases List.mem_cons.mp hd with rfl | hd
    · exact hknows
    · exact h.knows d hd
  once := h.once
  single := h.single
  counted p hp := by
    rcases h.counted p hp with heq | ⟨d, hd, howes⟩
    · exact .inl heq
    · exact .inr ⟨d, List.mem_cons_of_mem c hd, howes⟩
  votersCounted p hp hm := by
    rw [← h.votersCounted p hp hm, owing_cons, hvoter]
    simp

theorem Inv.goOn {s : Store} {c : Call} {calls : List Call} (h : Inv s (c :: calls))
    (hcount : owesCount c = false) (hvoter : owesVoter s.pollVotes c = false) {phase : Phase}
    (hknows : Knows s.pollVotes { c with phase := phase })
    (howes : owesVoter s.pollVotes { c with phase := phase } = false) :
    Inv s ({ c with phase := phase } :: calls) :=
  (h.drop hcount hvoter).add (h.read c (by simp)) (List.pairwise_cons.mp h.apart).1 hknows howes

theorem hasVoted_addVote (votes : List Vote) (c : Call) (choice : ℤ) :
    hasVoted (votes ++ [voteOf c choice]) c = true := by
  rw [hasVoted, voted_append]
  simp [voteOf]

theorem Inv.addVote {s : Store} {c : Call} {calls : List Call} (h : Inv s (c :: calls))
    {choice : ℤ} (hfresh : castFor s.pollVotes c.poll.id c.accountId choice = 0)
    (hsingle : c.poll.multiple = false → hasVoted s.pollVotes c = false) {phase : Phase}
    (hknows : Knows (s.pollVotes ++ [voteOf c choice]) { c with phase := phase })
    (hcount : owesCount { c with phase := phase } = true)
    (hvoter : c.poll.multiple = true →
      (owesVoter (s.pollVotes ++ [voteOf c choice]) { c with phase := phase }).toNat =
        (owesVoter s.pollVotes c).toNat + (!hasVoted s.pollVotes c).toNat) :
    Inv (s.addVote c choice) ({ c with phase := phase } :: calls) where
  read d hd := by
    rcases List.mem_cons.mp hd with rfl | hd
    · exact h.read c (by simp)
    · exact h.read d (List.mem_cons_of_mem c hd)
  apart :=
    have hpair := List.pairwise_cons.mp h.apart
    List.pairwise_cons.mpr ⟨hpair.1, hpair.2⟩
  knows d hd := by
    rcases List.mem_cons.mp hd with rfl | hd
    · exact hknows
    · exact knows_other ((List.pairwise_cons.mp h.apart).1 d hd) choice
        (h.knows d (List.mem_cons_of_mem c hd))
  once pollId accountId other := by
    change castFor (s.pollVotes ++ [voteOf c choice]) pollId accountId other ≤ 1
    rw [castFor_append]
    split
    next he =>
      obtain ⟨rfl, rfl, rfl⟩ := he
      change castFor s.pollVotes c.poll.id c.accountId choice + 1 ≤ 1
      rw [hfresh]
    next => exact h.once pollId accountId other
  single p hp hone accountId := by
    change castBy (s.pollVotes ++ [voteOf c choice]) p.id accountId ≤ 1
    rw [castBy_append]
    split
    next he =>
      obtain ⟨hid, rfl⟩ := he
      -- the poll of the call is the poll it has read
      obtain ⟨q, hq, hqid, hqm⟩ := h.read c (by simp)
      have hsame : q = p := s.polls.eq_of_key hq hp (k := p.id)
        (by simp [Poll.keys, hqid, ← hid, voteOf]) (by simp [Poll.keys])
      have hnone : hasVoted s.pollVotes c = false := hsingle (by rw [← hqm, hsame, hone])
      have hzero : castBy s.pollVotes p.id c.accountId = 0 := by
        rw [← hid]
        exact castBy_eq_zero hnone
      change castBy s.pollVotes p.id c.accountId + 1 ≤ 1
      rw [hzero]
    next => exact h.single p hp hone accountId
  counted p hp := by
    by_cases hid : c.poll.id = p.id
    · exact .inr ⟨_, List.mem_cons_self, hid, hcount⟩
    · rcases h.counted p hp with heq | ⟨d, hd, hdid, howes⟩
      · refine .inl ?_
        change p.votesCount = votesOf (s.pollVotes ++ [voteOf c choice]) p.id
        have hother : (voteOf c choice).pollId ≠ p.id := hid
        rw [votesOf_append, if_neg hother, heq, Nat.add_zero]
      · rcases List.mem_cons.mp hd with rfl | hd
        · exact absurd hdid hid
        · exact .inr ⟨d, List.mem_cons_of_mem _ hd, hdid, howes⟩
  votersCounted p hp hm := by
    have hbefore := h.votersCounted p hp hm
    have hothers : owing (s.pollVotes ++ [voteOf c choice]) calls p.id =
        owing s.pollVotes calls p.id := by
      refine List.countP_congr fun d hd => ?_
      rw [owesVoter_other ((List.pairwise_cons.mp h.apart).1 d hd) choice]
    change p.votersCount.getD 0 + owing (s.pollVotes ++ [voteOf c choice]) _ p.id =
      (voters (s.pollVotes ++ [voteOf c choice]) p.id).card
    rw [owing_cons] at hbefore ⊢
    rw [hothers]
    by_cases hid : c.poll.id = p.id
    · obtain ⟨q, hq, hqid, hqm⟩ := h.read c (by simp)
      have hsame : q = p := s.polls.eq_of_key hq hp (k := p.id)
        (by simp [Poll.keys, hqid, hid]) (by simp [Poll.keys])
      have howes := hvoter (by rw [← hqm, hsame, hm])
      have hmem : hasVoted s.pollVotes c = true ↔ c.accountId ∈ voters s.pollVotes p.id := by
        rw [← hid]
        exact voted_iff
      rw [if_pos hid] at hbefore ⊢
      rw [voteOf, hid, voters_append_self]
      rw [voteOf, hid] at howes
      cases hin : hasVoted s.pollVotes c with
      | true =>
          rw [Finset.insert_eq_of_mem (hmem.mp hin)]
          rw [hin] at howes
          simp only [Bool.not_true, Bool.toNat_false, Nat.add_zero] at howes
          omega
      | false =>
          rw [Finset.card_insert_of_notMem fun he => by rw [hmem.mpr he] at hin; cases hin]
          rw [hin] at howes
          simp only [Bool.not_false, Bool.toNat_true] at howes
          omega
    · rw [voters_append_other s.pollVotes (voteOf c choice) hid]
      rw [if_neg hid] at hbefore ⊢
      exact hbefore

/-! ### The columns of a poll -/

theorem mem_updatePoll {s : Store} {id : ℕ} {f : Poll → Poll} {hf : ∀ p, (f p).id = p.id}
    {p : Poll} : p ∈ (updatePoll s id f hf).polls.rows ↔
      ∃ q ∈ s.polls.rows, (if q.id = id then f q else q) = p :=
  List.mem_map

theorem exists_updatePoll {s : Store} {id : ℕ} {f : Poll → Poll} {hf : ∀ p, (f p).id = p.id}
    (hm : ∀ p, (f p).multiple = p.multiple) {pollId : ℕ} {multiple : Bool}
    (h : ∃ p ∈ s.polls.rows, p.id = pollId ∧ p.multiple = multiple) :
    ∃ p ∈ (updatePoll s id f hf).polls.rows, p.id = pollId ∧ p.multiple = multiple := by
  obtain ⟨p, hp, hid, hmultiple⟩ := h
  refine ⟨_, mem_updatePoll.mpr ⟨p, hp, rfl⟩, ?_⟩
  split
  · exact ⟨(hf p).trans hid, (hm p).trans hmultiple⟩
  · exact ⟨hid, hmultiple⟩

theorem Inv.recount {s : Store} {c : Call} {calls : List Call} (h : Inv s (c :: calls))
    {newVoter : Bool} (hphase : c.phase = .recount newVoter) :
    Inv (s.recount c.poll.id)
      ((if newVoter then c.next .addVoter else .done : Next).call.toList ++ calls) := by
  have hm : newVoter = true → c.poll.multiple = true := by
    have hknows := h.knows c (by simp)
    rw [Knows, hphase] at hknows
    exact hknows
  have hcalls : ∀ d ∈ (if newVoter then c.next .addVoter else .done : Next).call.toList ++ calls,
      d ∈ calls ∨ (newVoter = true ∧ d = { c with phase := .addVoter }) := by
    intro d hd
    rcases List.mem_append.mp hd with hd | hd
    · cases newVoter with
      | false => cases hd
      | true => exact .inr ⟨rfl, List.mem_singleton.mp hd⟩
    · exact .inl hd
  constructor
  · intro d hd
    refine exists_updatePoll (fun _ => by rfl) ?_
    rcases hcalls d hd with hd | ⟨_, rfl⟩
    · exact h.read d (List.mem_cons_of_mem c hd)
    · exact h.read c (by simp)
  · have hpair := List.pairwise_cons.mp h.apart
    cases newVoter with
    | false => exact hpair.2
    | true => exact List.pairwise_cons.mpr ⟨hpair.1, hpair.2⟩
  · intro d hd
    rcases hcalls d hd with hd | ⟨hnew, rfl⟩
    · exact h.knows d (List.mem_cons_of_mem c hd)
    · exact hm hnew
  · exact h.once
  · intro p hp hone
    obtain ⟨q, hq, rfl⟩ := mem_updatePoll.mp hp
    by_cases hid : q.id = c.poll.id
    · rw [if_pos hid] at hone ⊢
      exact h.single q hq hone
    · rw [if_neg hid] at hone ⊢
      exact h.single q hq hone
  · intro p hp
    obtain ⟨q, hq, rfl⟩ := mem_updatePoll.mp hp
    by_cases hid : q.id = c.poll.id
    · rw [if_pos hid]
      refine .inl ?_
      change votesOf s.pollVotes c.poll.id = votesOf s.pollVotes q.id
      rw [hid]
    · rw [if_neg hid]
      rcases h.counted q hq with heq | ⟨d, hd, hdid, howes⟩
      · exact .inl heq
      · rcases List.mem_cons.mp hd with rfl | hd
        · exact absurd hdid.symm hid
        · exact .inr ⟨d, List.mem_append_right _ hd, hdid, howes⟩
  · intro p hp hmultiple
    obtain ⟨q, hq, rfl⟩ := mem_updatePoll.mp hp
    have hq' : q.multiple = true := by
      split at hmultiple <;> exact hmultiple
    have hbefore := h.votersCounted q hq hq'
    have howing : owing s.pollVotes
        ((if newVoter then c.next .addVoter else .done : Next).call.toList ++ calls) q.id =
          owing s.pollVotes (c :: calls) q.id := by
      rw [owing_cons, owesVoter, hphase]
      cases newVoter with
      | false => simp [Next.call]
      | true => exact owing_cons s.pollVotes { c with phase := .addVoter } calls q.id
    split
    · exact (congrArg _ howing).trans hbefore
    · exact (congrArg _ howing).trans hbefore

theorem Inv.addVoter {s : Store} {c : Call} {calls : List Call} (h : Inv s (c :: calls))
    (hphase : c.phase = .addVoter) : Inv (s.addVoter c.poll.id) calls where
  read d hd := exists_updatePoll (fun _ => by rfl) (h.read d (List.mem_cons_of_mem c hd))
  apart := (List.pairwise_cons.mp h.apart).2
  knows d hd := h.knows d (List.mem_cons_of_mem c hd)
  once := h.once
  single p hp hone := by
    obtain ⟨q, hq, rfl⟩ := mem_updatePoll.mp hp
    by_cases hid : q.id = c.poll.id
    · rw [if_pos hid] at hone ⊢
      exact h.single q hq hone
    · rw [if_neg hid] at hone ⊢
      exact h.single q hq hone
  counted p hp := by
    obtain ⟨q, hq, rfl⟩ := mem_updatePoll.mp hp
    have hcounted : q.votesCount = votesOf s.pollVotes q.id ∨
        ∃ d ∈ calls, d.poll.id = q.id ∧ owesCount d = true := by
      rcases h.counted q hq with heq | ⟨d, hd, hdid, howes⟩
      · exact .inl heq
      · rcases List.mem_cons.mp hd with rfl | hd
        · rw [owesCount, hphase] at howes
          cases howes
        · exact .inr ⟨d, hd, hdid, howes⟩
    split <;> exact hcounted
  votersCounted p hp hmultiple := by
    obtain ⟨q, hq, rfl⟩ := mem_updatePoll.mp hp
    have hq' : q.multiple = true := by
      split at hmultiple <;> exact hmultiple
    have hbefore := h.votersCounted q hq hq'
    rw [owing_cons, owesVoter, hphase] at hbefore
    by_cases hid : q.id = c.poll.id
    · rw [if_pos hid]
      rw [if_pos hid.symm] at hbefore
      change q.votersCount.getD 0 + 1 + owing s.pollVotes calls q.id =
        (voters s.pollVotes q.id).card
      rw [← hbefore]
      change _ = q.votersCount.getD 0 + (owing s.pollVotes calls q.id + 1)
      omega
    · rw [if_neg hid]
      rw [if_neg fun he => hid he.symm] at hbefore
      exact hbefore

/-! ### Statements -/

theorem inv_checkVoted {s : Store} {c : Call} {calls : List Call} (h : Inv s (c :: calls))
    {choices : List ℤ} (hphase : c.phase = .checkVoted choices) :
    Inv (exec s c).1 ((exec s c).2.call.toList ++ calls) := by
  have hknows := h.knows c (by simp)
  rw [Knows, hphase] at hknows
  have hcount : owesCount c = false := by rw [owesCount, hphase]
  have hvoter : owesVoter s.pollVotes c = false := by rw [owesVoter, hphase]
  rw [exec, hphase]
  dsimp only
  cases hvoted : voted s.pollVotes c.poll.id c.accountId with
  | true => exact h.drop hcount hvoter
  | false =>
      refine h.goOn hcount hvoter ?_ rfl
      have hshort := hknows.2
      refine ⟨⟨?_, fun choice _ => castFor_eq_zero hvoted choice, ?_, fun _ => hshort⟩, ?_, ?_⟩
      · match choices, hshort with
        | [], _ => exact List.nodup_nil
        | [choice], _ => exact List.nodup_singleton choice
      · intro hm
        exact absurd (hknows.1.symm.trans hm) nofun
      · intro hm
        exact absurd (hknows.1.symm.trans hm) nofun
      · exact fun _ => hvoted

theorem inv_checkFirst {s : Store} {c : Call} {calls : List Call} (h : Inv s (c :: calls))
    {choices : List ℤ} (hphase : c.phase = .checkFirst choices) :
    Inv (exec s c).1 ((exec s c).2.call.toList ++ calls) := by
  have hknows := h.knows c (by simp)
  rw [Knows, hphase] at hknows
  obtain ⟨hleft, hsome, hsingle⟩ := hknows
  have hcount : owesCount c = false := by rw [owesCount, hphase]
  have hvoter : owesVoter s.pollVotes c = false := by rw [owesVoter, hphase]
  rw [exec, hphase]
  dsimp only
  cases choices with
  | nil =>
      have hone : c.poll.multiple = false := by
        cases hm : c.poll.multiple with
        | false => rfl
        | true => exact absurd rfl (hsome hm)
      rw [Call.loop, hone]
      exact h.goOn hcount hvoter nofun rfl
  | cons choice rest =>
      rw [Call.loop]
      split
      · exact h.drop hcount hvoter
      · refine h.goOn hcount hvoter
          ⟨⟨hleft.nodup, hleft.fresh, hleft.valid, hleft.single⟩, ?_, hsingle⟩ ?_
        · intro hfirst
          simpa [hasVoted] using hfirst
        · simp [owesVoter, hasVoted]

theorem inv_insert {s : Store} {c : Call} {calls : List Call} (h : Inv s (c :: calls))
    {choice : ℤ} {rest created : List ℤ} {wasFirstVote : Bool}
    (hphase : c.phase = .insert choice rest created wasFirstVote) :
    Inv (exec s c).1 ((exec s c).2.call.toList ++ calls) := by
  have hknows := h.knows c (by simp)
  rw [Knows, hphase] at hknows
  obtain ⟨hleft, hfirst, hsingle⟩ := hknows
  have hfresh := hleft.fresh choice (by simp)
  have hvoter : owesVoter s.pollVotes c = (wasFirstVote && hasVoted s.pollVotes c) := by
    rw [owesVoter, hphase]
  -- the voter is counted once, by the call that voted first
  have howes : wasFirstVote.toNat =
      (owesVoter s.pollVotes c).toNat + (!hasVoted s.pollVotes c).toNat := by
    rw [hvoter]
    cases wasFirstVote with
    | false => rw [hfirst rfl]; rfl
    | true => cases hasVoted s.pollVotes c <;> rfl
  rw [exec, hphase]
  dsimp only
  cases rest with
  | nil =>
      rw [Call.loop]
      refine h.addVote hfresh hsingle ?_ rfl ?_
      · intro hm
        rw [Bool.and_eq_true] at hm
        exact hm.1
      · intro hm
        rw [owesVoter, hm, Bool.true_and]
        exact howes
  | cons other rest =>
      have hmultiple : c.poll.multiple = true := by
        cases hm : c.poll.multiple with
        | true => rfl
        | false =>
            have hlength := hleft.single hm
            simp only [List.length_cons] at hlength
            omega
      obtain ⟨hnotin, hnodup⟩ := List.nodup_cons.mp hleft.nodup
      have hvalid : validChoice c.poll other = true := hleft.valid hmultiple other (by simp)
      rw [Call.loop, hvalid]
      refine h.addVote hfresh hsingle ⟨⟨hnodup, ?_, ?_, ?_⟩, ?_, ?_⟩ rfl ?_
      · intro next hnext
        have hother : choice ≠ next := fun he => hnotin (he ▸ hnext)
        rw [castFor_append, hleft.fresh next (List.mem_cons_of_mem choice hnext),
          if_neg fun he => hother he.2.2]
      · exact fun hm next hnext => hleft.valid hm next (List.mem_cons_of_mem choice hnext)
      · intro hm
        exact absurd (hmultiple.symm.trans hm) nofun
      · exact fun _ => hasVoted_addVote s.pollVotes c choice
      · intro hm
        exact absurd (hmultiple.symm.trans hm) nofun
      · intro _
        rw [owesVoter]
        change (wasFirstVote && hasVoted (s.pollVotes ++ [voteOf c choice]) c).toNat = _
        rw [hasVoted_addVote, Bool.and_true]
        exact howes

theorem inv_checkAlready {s : Store} {c : Call} {calls : List Call} (h : Inv s (c :: calls))
    {choice : ℤ} (hphase : c.phase = .checkAlready choice) :
    Inv (exec s c).1 ((exec s c).2.call.toList ++ calls) := by
  have hknows := h.knows c (by simp)
  rw [Knows, hphase] at hknows
  have hcount : owesCount c = false := by rw [owesCount, hphase]
  have hvoter : owesVoter s.pollVotes c = false := by rw [owesVoter, hphase]
  rw [exec, hphase]
  dsimp only
  split
  · exact h.drop hcount hvoter
  next hgo =>
    have hsingle : c.poll.multiple = false → voted s.pollVotes c.poll.id c.accountId = false := by
      intro hm
      simpa [hm] using hgo
    refine h.goOn hcount hvoter ⟨?_, rfl, hsingle⟩ rfl
    cases hm : c.poll.multiple with
    | true => exact hknows hm
    | false => exact fun other _ => castFor_eq_zero (hsingle hm) other

theorem inv_insertNote {s : Store} {c : Call} {calls : List Call} (h : Inv s (c :: calls))
    {choice : ℤ} {alreadyVoted : Bool} (hphase : c.phase = .insertNote choice alreadyVoted) :
    Inv (exec s c).1 ((exec s c).2.call.toList ++ calls) := by
  have hknows := h.knows c (by simp)
  rw [Knows, hphase] at hknows
  obtain ⟨hfresh, halready, hsingle⟩ := hknows
  have hvoter : owesVoter s.pollVotes c = false := by rw [owesVoter, hphase]
  rw [exec, hphase]
  refine h.addVote (hfresh choice (by simp)) hsingle ?_ rfl ?_
  · intro hm
    rw [Bool.and_eq_true] at hm
    exact hm.1
  · intro hm
    rw [hvoter, owesVoter, hm, Bool.true_and, halready, Bool.toNat_false, Nat.zero_add]

theorem inv_exec {s : Store} {c : Call} {calls : List Call} (h : Inv s (c :: calls)) :
    Inv (exec s c).1 ((exec s c).2.call.toList ++ calls) := by
  cases hphase : c.phase with
  | checkVoted choices => exact inv_checkVoted h hphase
  | checkFirst choices => exact inv_checkFirst h hphase
  | insert choice rest created wasFirstVote => exact inv_insert h hphase
  | checkAlready choice => exact inv_checkAlready h hphase
  | insertNote choice alreadyVoted => exact inv_insertNote h hphase
  | recount newVoter =>
      rw [exec, hphase]
      exact h.recount hphase
  | addVoter =>
      rw [exec, hphase]
      exact h.addVoter hphase

/-! ### Requests -/

def Alone (calls : List Call) (pollId accountId : ℕ) : Prop :=
  ∀ c ∈ calls, ¬ (c.poll.id = pollId ∧ c.accountId = accountId)

structure Offered (votes : List Vote) (p : Poll) (accountId : ℕ) (choices : List ℤ) : Prop where
  some : choices ≠ []
  nodup : choices.Nodup
  valid : ∀ choice ∈ choices, validChoice p choice = true
  fresh : ∀ choice ∈ choices, castFor votes p.id accountId choice = 0

def OneAtATime (s : Store) (calls : List Call) : Request → Prop
  | .vote pollId accountId choices _ =>
      Alone calls pollId accountId ∧ ∀ p ∈ s.polls.rows, p.id = pollId → p.multiple = true →
        Offered s.pollVotes p accountId choices
  | .note statusId voterId choiceName _ _ =>
      ∀ p ∈ s.polls.rows, p.statusId = statusId → Alone calls p.id voterId ∧
        (p.multiple = true → ∀ choice ∈ p.options.idxOf? choiceName,
          castFor s.pollVotes p.id voterId (asI32 choice) = 0)

theorem apart_of_alone {calls : List Call} {c : Call} (h : Alone calls c.poll.id c.accountId) :
    ∀ d ∈ calls, Apart c d :=
  fun d hd he => h d hd ⟨he.1.symm, he.2.symm⟩

theorem inv_votePoll {s : Store} {calls : List Call} (h : Inv s calls) {pollId accountId : ℕ}
    {choices : List ℤ} {now : ℤ} (hg : OneAtATime s calls (.vote pollId accountId choices now)) :
    Inv s ((votePoll s pollId accountId choices now).call.toList ++ calls) := by
  rw [votePoll]
  cases hfind : s.polls.rows.find? (·.id = pollId) with
  | none => exact h
  | some p =>
      have hp : p ∈ s.polls.rows := List.mem_of_find?_eq_some hfind
      obtain rfl : p.id = pollId := by simpa using List.find?_some hfind
      dsimp only
      split_ifs with hexpired hown htoo hmultiple
      · exact h
      · exact h
      · exact h
      · obtain ⟨halone, hoffered⟩ := hg
        obtain ⟨hsome, hnodup, hvalid, hfresh⟩ := hoffered p hp rfl hmultiple
        refine h.add ⟨p, hp, rfl, rfl⟩ (apart_of_alone halone) ⟨⟨hnodup, hfresh, ?_, ?_⟩, ?_, ?_⟩ rfl
        · exact fun _ => hvalid
        · intro hm
          exact absurd (hmultiple.symm.trans hm) nofun
        · exact fun _ => hsome
        · intro hm
          exact absurd (hmultiple.symm.trans hm) nofun
      · have hone : p.multiple = false := by simpa using hmultiple
        refine h.add ⟨p, hp, rfl, rfl⟩ (apart_of_alone hg.1) ⟨hone, ?_⟩ rfl
        simpa [hone] using htoo

theorem inv_note {s : Store} {calls : List Call} (h : Inv s calls) {statusId voterId : ℕ}
    {choiceName voteUri : String} {now : ℤ}
    (hg : OneAtATime s calls (.note statusId voterId choiceName voteUri now)) :
    Inv s ((handlePollVoteNote s statusId voterId choiceName voteUri now).call.toList ++ calls) := by
  rw [handlePollVoteNote]
  cases hfind : s.polls.rows.find? (·.statusId = statusId) with
  | none => exact h
  | some p =>
      have hp : p ∈ s.polls.rows := List.mem_of_find?_eq_some hfind
      have hid : p.statusId = statusId := by simpa using List.find?_some hfind
      obtain ⟨halone, hfresh⟩ := hg p hp hid
      dsimp only
      split
      · exact h
      · cases hchoice : p.options.idxOf? choiceName with
        | none => exact h
        | some choice =>
            refine h.add ⟨p, hp, rfl, rfl⟩ (apart_of_alone halone) (fun hm other hother => ?_) rfl
            rw [List.mem_singleton.mp hother]
            exact hfresh hm choice hchoice

theorem invariant : Invariant machine Inv OneAtATime where
  perm hp h := h.perm hp
  enter r h hg := by
    cases r with
    | vote pollId accountId choices now => exact inv_votePoll h hg
    | note statusId voterId choiceName voteUri now => exact inv_note h hg
  exec _ h := inv_exec h

/-! ### Interleavings -/

theorem inv_start {s : Store} (hs : ∀ p ∈ s.polls.rows, Consistent s.pollVotes p)
    (hknown : ∀ v ∈ s.pollVotes, ∃ p ∈ s.polls.rows, p.id = v.pollId) : Inv s [] where
  read c hc := by cases hc
  apart := List.Pairwise.nil
  knows c hc := by cases hc
  once pollId accountId choice := by
    by_cases hp : ∃ p ∈ s.polls.rows, p.id = pollId
    · obtain ⟨p, hp, rfl⟩ := hp
      exact (hs p hp).once accountId choice
    · have hzero : castFor s.pollVotes pollId accountId choice = 0 := by
        rw [castFor, List.countP_eq_zero]
        intro v hv hpicked
        obtain ⟨p, hmem, hid⟩ := hknown v hv
        exact hp ⟨p, hmem, hid.trans (of_decide_eq_true hpicked).1⟩
      rw [hzero]
      exact Nat.zero_le 1
  single p hp := (hs p hp).single
  counted p hp := .inl (hs p hp).counted
  votersCounted p hp hm := (hs p hp).votersCounted hm

def created (p : Poll) : ℕ × List ℕ := (p.id, p.cachedTallies)

theorem created_step (c : Config Store Call) (e : Event Request Unit) :
    (machine.step c e).store.polls.rows.map created = c.store.polls.rows.map created := by
  have hupdate (s : Store) (id : ℕ) (f : Poll → Poll) (hf : ∀ p, (f p).id = p.id)
      (hsame : ∀ p, created (f p) = created p) :
      (updatePoll s id f hf).polls.rows.map created = s.polls.rows.map created := by
    change (s.polls.rows.map _).map created = _
    rw [List.map_map]
    refine List.map_congr_left fun p _ => ?_
    rw [Function.comp_apply]
    split
    · exact hsame p
    · rfl
  cases e with
  | request r => rfl
  | advance k w =>
      rw [Machine.step]
      cases c.calls[k]? with
      | none => rfl
      | some call =>
          change (exec c.store call).1.polls.rows.map created = _
          rw [exec]
          cases call.phase with
          | recount newVoter => exact hupdate _ _ _ (fun _ => by rfl) fun _ => by rfl
          | addVoter => exact hupdate _ _ _ (fun _ => by rfl) fun _ => by rfl
          | _ => rfl

/-- With accounts that vote once at a time, for choices offered and not made, the votes are
as they should be and counted whenever no vote is in progress, and the tallies are those
stored with the poll. -/
theorem polls_consistent (s : Store) (hs : ∀ p ∈ s.polls.rows, Consistent s.pollVotes p)
    (hknown : ∀ v ∈ s.pollVotes, ∃ p ∈ s.polls.rows, p.id = v.pollId)
    (es : List (Event Request Unit))
    (hg : Guarded machine.step (onRequests OneAtATime) ⟨s, []⟩ es)
    (hquiet : (run machine.step ⟨s, []⟩ es).Quiescent) :
    (∀ p ∈ (run machine.step ⟨s, []⟩ es).store.polls.rows,
      Consistent (run machine.step ⟨s, []⟩ es).store.pollVotes p) ∧
      (run machine.step ⟨s, []⟩ es).store.polls.rows.map created = s.polls.rows.map created := by
  constructor
  · have h := invariant.run ⟨s, []⟩ es (inv_start hs hknown) hg
    rw [hquiet] at h
    intro p hp
    refine ⟨h.once p.id, h.single p hp, ?_, h.votersCounted p hp⟩
    rcases h.counted p hp with heq | ⟨c, hc, _⟩
    · exact heq
    · cases hc
  · exact run_invariant (P := fun c => c.store.polls.rows.map created = s.polls.rows.map created)
      (fun c e hc => (created_step c e).trans hc) ⟨s, []⟩ es rfl

/-! ### A poll of two options -/

def newPoll (multiple : Bool) : Poll where
  id := 5
  accountId := 1
  statusId := 50
  options := ["yes", "no"]
  multiple := multiple
  expiresAt := none
  cachedTallies := []
  votesCount := 0
  votersCount := none

def withPoll (multiple : Bool) : Store where
  polls := { rows := [newPoll multiple], distinct := List.pairwise_singleton _ _ }
  pollVotes := []

theorem consistent_withPoll (multiple : Bool) :
    ∀ p ∈ (withPoll multiple).polls.rows, Consistent (withPoll multiple).pollVotes p := by
  intro p _
  rw [List.mem_singleton.mp ‹p ∈ (withPoll multiple).polls.rows›]
  exact ⟨fun _ _ => Nat.zero_le 1, fun _ _ => Nat.zero_le 1, rfl, fun _ => rfl⟩

/-- A vote of account 2 from here, and one of account 3 from elsewhere while it is on. -/
def twoVoters : List (Event Request Unit) :=
  [.request (.vote 5 2 [0, 1] 0), .advance 0 (), .advance 0 (),
    .request (.note 50 3 "no" "https://b.example/votes/1" 0), .advance 1 (), .advance 1 (),
    .advance 0 (), .advance 1 (), .advance 0 (), .advance 1 (), .advance 0 ()]

theorem polls_consistent_twoVoters :
    (run machine.step ⟨withPoll true, []⟩ twoVoters).store.pollVotes.length = 3 ∧
      ∀ p ∈ (run machine.step ⟨withPoll true, []⟩ twoVoters).store.polls.rows,
        Consistent (run machine.step ⟨withPoll true, []⟩ twoVoters).store.pollVotes p := by
  refine ⟨by decide +kernel, (polls_consistent (withPoll true) (consistent_withPoll true) nofun
    twoVoters ⟨⟨nofun, ?_⟩, trivial, trivial, ?_, trivial, trivial, trivial, trivial, trivial,
      trivial, trivial, trivial⟩ ?_).1⟩
  · intro p hp _ _
    rw [List.mem_singleton.mp hp]
    exact ⟨by decide, by decide, by decide, by decide⟩
  · have hpolls : ∀ p ∈ (run machine.step ⟨withPoll true, []⟩ (twoVoters.take 3)).store.polls.rows,
        p = newPoll true := by decide +kernel
    intro p hp _
    rw [hpolls p hp]
    refine ⟨?_, fun _ => ?_⟩
    · rw [Alone]
      decide +kernel
    · decide +kernel
  · rw [Config.Quiescent]
    decide +kernel

example : votesOf (withPoll true).pollVotes 5 = 0 := by decide +kernel

def oneVote : List (Event Request Unit) :=
  [.request (.vote 5 2 [0] 0), .advance 0 (), .advance 0 (), .advance 0 (), .advance 0 ()]

theorem tallies_are_not_kept :
    (∀ p ∈ (withPoll false).polls.rows, Consistent (withPoll false).pollVotes p ∧
        Tallied (withPoll false).pollVotes p) ∧
      (run machine.step ⟨withPoll false, []⟩ oneVote).Quiescent ∧
        ¬ ∀ p ∈ (run machine.step ⟨withPoll false, []⟩ oneVote).store.polls.rows,
          Tallied (run machine.step ⟨withPoll false, []⟩ oneVote).store.pollVotes p := by
  refine ⟨fun p hp => ⟨consistent_withPoll false p hp, ?_⟩, ?_, fun h => ?_⟩
  · rw [List.mem_singleton.mp hp]
    exact fun _ _ => rfl
  · rw [Config.Quiescent]
    decide +kernel
  · obtain ⟨p, hp, hoptions, htallies⟩ :
        ∃ p ∈ (run machine.step ⟨withPoll false, []⟩ oneVote).store.polls.rows,
          0 < p.options.length ∧ p.cachedTallies.getD 0 0 ≠
            (run machine.step ⟨withPoll false, []⟩ oneVote).store.pollVotes.countP fun v =>
              v.pollId = p.id ∧ v.choice = ((0 : ℕ) : ℤ) := by
      decide +kernel
    exact htallies (h p hp 0 hoptions)

end Eunha.PollVotes
