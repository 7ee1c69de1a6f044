import Eunha.FeedInvariant
import Mathlib.Data.List.Perm.Subperm
import Mathlib.Data.Nat.Digits.Defs

/-!
# A feed filled from the accounts it follows

Account by account the newest eligible statuses are added to a feed. Once the feed is half
full an account is skipped if its last status is older than the oldest entry, going by whole
seconds, and otherwise read from the oldest score on. Of the newest statuses of all the
accounts, those half a feed has room for, one is on the feed at the end just where it was
read at a visit to its author: the trim never takes it off again.
-/
namespace Eunha.FeedPopulating
open Binary64 Feed Runs ScoredSets ScoredSet

/-! ### Populating -/

/-- A status every filter lets in, and that boosts none. -/
structure Status where
  id : ℕ
  accountId : ℕ
  deriving DecidableEq

/-- `FEED_MAX_ITEMS / 2` -/
def limit : ℕ := feedMaxItems / 2

/-- The ids of an account's statuses, newer than `after` when it is given. -/
def idsOf (statuses : List Status) (accountId : ℕ) (after : Option ℤ) : List ℕ :=
  (statuses.filter fun s => s.accountId = accountId ∧ after.all fun a => a < s.id).map (·.id)

/-- `ORDER BY s.id DESC LIMIT $3` -/
def eligibleStatuses (statuses : List Status) (accountId : ℕ) (after : Option ℤ) : List ℕ :=
  ((idsOf statuses accountId after).insertionSort (· ≥ ·)).take limit

def lastStatusAt (statuses : List Status) (accountId : ℕ) : Option ℕ :=
  (idsOf statuses accountId none).max?.map (· / 2 ^ 16)

/-- `(timestamp.map_or(0, |t| t.and_utc().timestamp()) * 1000) << 16` -/
def idAt (timestamp : Option ℕ) : ℤ := ((timestamp.map (· / 1000)).getD 0 * 1000 * 2 ^ 16 : ℕ)

def oldestScore (t : Timeline) : Option ℤ :=
  t.key.entries.getLast?.map fun e => min (e.score : ℤ) (2 ^ 63 - 1)

/-- The feed, and whether it was found to hold `limit` entries. -/
structure Populating where
  feed : Timeline
  overLimit : Bool

def Populating.oldest (p : Populating) : Option ℤ :=
  if p.overLimit || limit ≤ p.feed.key.zcard then oldestScore p.feed else none

/-- What `after` the account is read from, unless it is skipped. -/
def Populating.after (p : Populating) (lastStatusAt : Option ℕ) : Option (Option ℤ) :=
  match p.oldest with
  | none => some none
  -- None of its statuses would stay on the feed.
  | some oldest => if idAt lastStatusAt < oldest then none else some (some (oldest - 1))

/-- One turn of the loop of `populate_from`. -/
def visit (statuses : List Status) (aggregate : Bool) (p : Populating) (target : ℕ) :
    Populating where
  overLimit := p.overLimit || limit ≤ p.feed.key.zcard
  feed :=
    match p.after (lastStatusAt statuses target) with
    | none => p.feed
    | some after =>
        match eligibleStatuses statuses target after with
        | [] => p.feed
        | ids => addAll p.feed (ids.map (·, none)) aggregate

/-- The feed the loop leaves, started on an empty one. -/
def populateFrom (statuses : List Status) (aggregate : Bool) (targets : List ℕ) : Timeline :=
  (run (visit statuses aggregate) ⟨.empty, false⟩ targets).feed

/-- Among the newest `limit` statuses of the targets. -/
def Newest (statuses : List Status) (targets : List ℕ) (s : Status) : Prop :=
  s ∈ statuses ∧ s.accountId ∈ targets ∧
    statuses.countP (fun other => other.accountId ∈ targets ∧ s.id < other.id) < limit

def Reads (statuses : List Status) (p : Populating) (s : Status) : Prop :=
  ∀ oldest ∈ p.oldest,
    oldest ≤ idAt (lastStatusAt statuses s.accountId) ∧ oldest ≤ s.id

variable {statuses : List Status} (aggregate : Bool) {p : Populating} {targets : List ℕ}
  {target : ℕ} {s : Status}

/-! ### Texts of one length -/

theorem append_lt_append {a b x y : List Char} (hlen : a.length = b.length) (h : a < b) :
    a ++ x < b ++ y := by
  induction a generalizing b with
  | nil =>
      rw [List.length_nil] at hlen
      rw [List.eq_nil_of_length_eq_zero hlen.symm] at h
      exact absurd h (lt_irrefl _)
  | cons c a ih =>
      cases b with
      | nil => cases hlen
      | cons d b =>
          rw [List.cons_append, List.cons_append, List.cons_lt_cons_iff]
          rcases List.cons_lt_cons_iff.1 h with hlt | ⟨heq, hlt⟩
          · exact .inl hlt
          · exact .inr ⟨heq, ih (Nat.succ_injective hlen) hlt⟩

theorem digitChar_lt : ∀ n < 10, ∀ m < n, Nat.digitChar m < Nat.digitChar n := by decide

theorem toDigits_lt {m n : ℕ} (hlen : (Nat.toDigits 10 m).length = (Nat.toDigits 10 n).length)
    (h : m < n) : Nat.toDigits 10 m < Nat.toDigits 10 n := by
  induction n using Nat.strongRecOn generalizing m with
  | ind n ih =>
      rcases Nat.lt_or_ge n 10 with hn | hn
      · rw [Nat.toDigits_of_lt_base hn, Nat.toDigits_of_lt_base (h.trans hn)]
        exact List.cons_lt_cons_iff.2 (.inl (digitChar_lt n hn m h))
      · have hm : 10 ≤ m := by
          by_contra hm
          rw [Nat.toDigits_of_lt_base (Nat.not_le.1 hm), Nat.toDigits_of_base_le (by decide) hn,
            List.length_append] at hlen
          have := Nat.length_toDigits_pos (b := 10) (n := n / 10)
          simp only [List.length_cons, List.length_nil] at hlen
          omega
        rw [Nat.toDigits_of_base_le (by decide) hm, Nat.toDigits_of_base_le (by decide) hn]
          at hlen ⊢
        have hprefix : (Nat.toDigits 10 (m / 10)).length = (Nat.toDigits 10 (n / 10)).length := by
          simpa using hlen
        rcases Nat.lt_or_eq_of_le (Nat.div_le_div_right (c := 10) h.le) with hlt | heq
        · exact append_lt_append hprefix (ih (n / 10) (by omega) hprefix hlt)
        · rw [heq]
          apply List.append_left_lt
          refine List.cons_lt_cons_iff.2 (.inl (digitChar_lt _ (Nat.mod_lt n (by decide)) _ ?_))
          omega

theorem repr_lt {m n : ℕ} (hm : 10 ^ 18 ≤ m) (hn : n < 2 ^ 63) (h : m < n) :
    Nat.repr m < Nat.repr n := by
  have hlen : ∀ k, 10 ^ 18 ≤ k → k < 2 ^ 63 → (Nat.toDigits 10 k).length = 19 := by
    intro k hlow hhigh
    apply le_antisymm
    · exact (Nat.length_toDigits_le_iff (by decide) (by decide)).2 (by omega)
    · by_contra hshort
      have := (Nat.length_toDigits_le_iff (b := 10) (n := k) (by decide) (by decide : 0 < 18)).1
        (by omega)
      omega
  rw [String.lt_iff_toList_lt, Nat.toList_repr, Nat.toList_repr]
  exact toDigits_lt ((hlen m hm (by omega)).trans (hlen n (by omega) hn).symm) h

/-! ### What the trim keeps -/

theorem countP_or_le {α : Type*} (p q : α → Prop) [DecidablePred p] [DecidablePred q]
    (l : List α) : l.countP (fun a => p a ∨ q a) ≤ l.countP (p ·) + l.countP (q ·) := by
  induction l with
  | nil => exact Nat.zero_le _
  | cons a l ih =>
      simp only [List.countP_cons, decide_eq_true_eq]
      by_cases hp : p a <;> by_cases hq : q a <;> simp only [hp, hq, or_true, or_false,
        if_true, if_false] <;> omega

theorem mem_take_of_count {α : Type*} {l : List α} {x : α} {n : ℕ} (p : α → Bool) (hx : x ∈ l)
    (hp : ∀ pre post, l = pre ++ x :: post → x ∉ pre → ∀ y ∈ pre, p y = true)
    (hcount : l.countP p < n) : x ∈ l.take n := by
  obtain ⟨pre, post, rfl, hnot⟩ := List.eq_append_cons_of_mem hx
  have hall : pre.countP p = pre.length := List.countP_eq_length.2 (hp pre post rfl hnot)
  rw [List.countP_append, hall] at hcount
  obtain ⟨k, hk⟩ := Nat.exists_eq_add_of_lt (lt_of_le_of_lt (Nat.le_add_right _ _) hcount)
  rw [List.take_append, hk, show pre.length + k + 1 - pre.length = k + 1 by omega,
    List.take_succ_cons]
  exact List.mem_append_right _ List.mem_cons_self

theorem asF64_near {n : ℕ} (h : n < 10 ^ 18) : asF64 n ≤ n + 64 ∧ n ≤ asF64 n + 64 := by
  have hlog : n.log2 < 60 := by
    rcases Nat.eq_zero_or_pos n with rfl | hpos
    · decide
    · exact (Nat.log2_lt hpos.ne').2 (by omega)
  have hunit : 2 ^ (n.log2 + 1 - 53) ≤ 2 ^ 7 := Nat.pow_le_pow_right (by decide) (by omega)
  have hnear := toUnit_near (Nat.two_pow_pos (n.log2 + 1 - 53)) n
  rw [asF64_eq_toUnit]
  omega

theorem count_score_le {ids : List ℕ} (hnodup : ids.Nodup) (score : ℕ) :
    ids.countP (fun id => id < 10 ^ 18 ∧ asF64 id = score) ≤ 129 := by
  rw [List.countP_eq_length_filter]
  have hsub : (ids.filter fun id => id < 10 ^ 18 ∧ asF64 id = score) ⊆
      List.range' (score - 64) 129 := by
    intro id hid
    obtain ⟨-, hid⟩ := List.mem_filter.1 hid
    obtain ⟨hlow, rfl⟩ := of_decide_eq_true hid
    have hnear := asF64_near hlow
    rw [List.mem_range'_1]
    omega
  have hsubperm := List.subperm_of_subset (hnodup.filter _) hsub
  simpa using hsubperm.length_le

variable {t : Timeline} {x : ℕ}

/-- A status with fewer newer ones than half a feed holds stays. -/
theorem mem_trim_of_count (hscored : ∀ e ∈ t.key.entries, e.score = asF64 e.member)
    (hx : x ∈ t.key.members) (hlt : x < 2 ^ 63)
    (hcount : t.key.members.countP (fun y => x < y) < limit) : x ∈ (trim t).key.members := by
  obtain ⟨score, he⟩ := mem_members.1 hx
  have hscore : score = asF64 x := hscored _ he
  rw [trim_key]
  refine mem_members.2 ⟨score, ?_⟩
  show _ ∈ t.key.entries.take feedMaxItems
  apply mem_take_of_count
    (fun f => x < f.member ∨ f.member < 10 ^ 18 ∧ asF64 f.member = asF64 x) he
  · intro pre post hsplit hnot f hf
    have hentry : f ∈ t.key.entries := by
      rw [hsplit]
      exact List.mem_append_left _ hf
    have hbefore : Entry.Before Nat.repr f ⟨x, score⟩ := by
      have hsorted := t.key.sorted
      rw [hsplit] at hsorted
      exact (List.pairwise_append.1 hsorted).2.2 f hf _ List.mem_cons_self
    have hne : f.member ≠ x := by
      intro heq
      rw [entry_eq hentry he heq] at hf
      exact hnot hf
    apply decide_eq_true
    rcases lt_or_gt_of_ne hne with hless | hgreater
    · have hle : asF64 f.member ≤ asF64 x := asF64_mono hless.le
      rcases hbefore with hscores | ⟨hscores, htext⟩
      · rw [hscored f hentry] at hscores
        exact absurd hscores (by simp only [hscore]; omega)
      · refine .inr ⟨?_, ?_⟩
        · by_contra hbig
          exact absurd htext (not_le.2 (repr_lt (not_lt.1 hbig) hlt hless))
        · rw [← hscored f hentry, ← hscores]
          exact hscore
    · exact .inl hgreater
  · have hsplit : t.key.entries.countP (fun f => decide (x < f.member ∨
        f.member < 10 ^ 18 ∧ asF64 f.member = asF64 x)) ≤
        t.key.members.countP (fun y => x < y) +
          t.key.members.countP (fun y => y < 10 ^ 18 ∧ asF64 y = asF64 x) := by
      rw [members, List.countP_map, List.countP_map]
      exact countP_or_le (fun f : Entry ℕ => x < f.member)
        (fun f => f.member < 10 ^ 18 ∧ asF64 f.member = asF64 x) _
    have hfew := count_score_le t.key.nodup (asF64 x)
    have hlimit : limit + 129 ≤ feedMaxItems := by decide
    have hmembers : (t.key.entries.map Entry.member) = t.key.members := rfl
    rw [hmembers] at hfew
    omega

/-! ### What is added -/

/-- A feed that tracks no boosts, its entries scored by themselves. -/
structure Plain (t : Timeline) : Prop where
  reblogs : t.reblogs = .empty
  scored : ∀ e ∈ t.key.entries, e.score = asF64 e.member

theorem Plain.addToFeed (h : Plain t) (id : ℕ) :
    (addToFeed t id none aggregate).2 = t.zaddSelf id := by
  simp [Feed.addToFeed, h.reblogs, zscore]

theorem Plain.addEach (h : Plain t) (ids : List ℕ) :
    Plain (addEach t (ids.map (·, none)) aggregate) ∧
      ∀ x, x ∈ (Feed.addEach t (ids.map (·, none)) aggregate).key.members ↔
        x ∈ t.key.members ∨ x ∈ ids := by
  induction ids generalizing t with
  | nil => exact ⟨h, by simp [Feed.addEach]⟩
  | cons id ids ih =>
      have hself : Plain (t.zaddSelf id) := ⟨h.reblogs, scored_zadd h.scored id⟩
      obtain ⟨hplain, hmem⟩ := ih hself
      have hcons : Feed.addEach t ((id :: ids).map (·, none)) aggregate =
          Feed.addEach (t.zaddSelf id) (ids.map (·, none)) aggregate := by
        rw [← h.addToFeed aggregate]
        rfl
      rw [hcons]
      refine ⟨hplain, fun x => ?_⟩
      rw [hmem, Timeline.zaddSelf, mem_members_zadd, List.mem_cons]
      tauto

theorem Plain.trim (h : Plain t) : Plain (trim t) where
  reblogs := by
    apply ScoredSet.ext
    apply List.eq_nil_iff_forall_not_mem.2
    intro e he
    have := (mem_trim_reblogs.1 he).1
    rw [h.reblogs] at this
    cases this
  scored := by
    rw [trim_key]
    exact fun e he => h.scored e (List.mem_of_mem_take he)

theorem members_trim_subset {y : ℕ} (hy : y ∈ (trim t).key.members) : y ∈ t.key.members := by
  rw [trim_key] at hy
  obtain ⟨score, he⟩ := mem_members.1 hy
  exact mem_members.2 ⟨score, List.mem_of_mem_take he⟩

theorem mem_idsOf {accountId : ℕ} {after : Option ℤ} :
    x ∈ idsOf statuses accountId after ↔
      ∃ s ∈ statuses, s.id = x ∧ s.accountId = accountId ∧ ∀ a ∈ after, a < s.id := by
  rw [idsOf, List.mem_map]
  constructor
  · rintro ⟨s, hs, rfl⟩
    obtain ⟨hs, hcond⟩ := List.mem_filter.1 hs
    obtain ⟨haccount, hafter⟩ := of_decide_eq_true hcond
    refine ⟨s, hs, rfl, haccount, fun a ha => ?_⟩
    rw [Option.mem_def.1 ha] at hafter
    simpa using hafter
  · rintro ⟨s, hs, rfl, haccount, hafter⟩
    refine ⟨s, List.mem_filter.2 ⟨hs, decide_eq_true ⟨haccount, ?_⟩⟩, rfl⟩
    cases after with
    | none => rfl
    | some a => simpa using hafter a rfl

theorem eq_of_id (hids : (statuses.map (·.id)).Nodup) {s s' : Status} (hs : s ∈ statuses)
    (hs' : s' ∈ statuses) (h : s.id = s'.id) : s = s' :=
  List.inj_on_of_nodup_map hids hs hs' h

/-- Of the newest statuses, those of the account that are newer than `after` are read. -/
theorem mem_eligibleStatuses (hids : (statuses.map (·.id)).Nodup)
    (hs : Newest statuses targets s) {after : Option ℤ} :
    s.id ∈ eligibleStatuses statuses target after ↔
      target = s.accountId ∧ ∀ a ∈ after, a < s.id := by
  obtain ⟨hin, htarget, hcount⟩ := hs
  constructor
  · intro h
    have hid := (List.mem_insertionSort _).1 (List.mem_of_mem_take h)
    obtain ⟨s', hs', heq, haccount, hafter⟩ := mem_idsOf.1 hid
    obtain rfl := eq_of_id hids hs' hin heq
    exact ⟨haccount.symm, hafter⟩
  · rintro ⟨rfl, hafter⟩
    have hid : s.id ∈ idsOf statuses s.accountId after := mem_idsOf.2 ⟨s, hin, rfl, rfl, hafter⟩
    apply mem_take_of_count (fun y => s.id < y) ((List.mem_insertionSort _).2 hid)
    · intro pre post hsplit hnot y hy
      have hsorted := List.pairwise_insertionSort (· ≥ ·) (idsOf statuses s.accountId after)
      rw [hsplit] at hsorted
      have hge : y ≥ s.id := (List.pairwise_append.1 hsorted).2.2 y hy _ List.mem_cons_self
      have hne : y ≠ s.id := by
        rintro rfl
        exact hnot hy
      exact decide_eq_true (lt_of_le_of_ne hge hne.symm)
    · rw [(List.perm_insertionSort _ _).countP_eq, idsOf, List.countP_map, List.countP_filter]
      apply lt_of_le_of_lt (List.countP_mono_left ?_) hcount
      intro other _ hother
      simp only [Function.comp_apply, Bool.and_eq_true, decide_eq_true_eq] at hother ⊢
      exact ⟨hother.2.1 ▸ htarget, hother.1⟩

/-- A status of an account that is not skipped is read just where it is newer than `after`. -/
theorem reads_iff {after : Option ℤ}
    (h : p.after (lastStatusAt statuses s.accountId) = some after) :
    Reads statuses p s ↔ ∀ a ∈ after, a < s.id := by
  rw [Populating.after] at h
  rw [Reads]
  cases holdest : p.oldest with
  | none =>
      rw [holdest] at h
      cases h
      exact ⟨nofun, nofun⟩
  | some o =>
      rw [holdest] at h
      simp only at h
      split at h
      · cases h
      · rename_i hskip
        cases h
        simp only [Option.mem_some_iff, forall_eq']
        omega

theorem not_reads (h : p.after (lastStatusAt statuses s.accountId) = none) :
    ¬Reads statuses p s := by
  intro hreads
  rw [Populating.after] at h
  cases holdest : p.oldest with
  | none =>
      rw [holdest] at h
      cases h
  | some o =>
      rw [holdest] at h
      simp only at h
      split at h
      · rename_i hskip
        exact absurd (hreads o holdest).1 (not_le.2 hskip)
      · cases h

/-! ### A visit, and the run -/

structure Filling (statuses : List Status) (targets : List ℕ) (t : Timeline) : Prop where
  plain : Plain t
  known : ∀ y ∈ t.key.members, ∃ s ∈ statuses, s.accountId ∈ targets ∧ s.id = y

theorem Filling.trim (h : Filling statuses targets t) : Filling statuses targets (trim t) :=
  ⟨h.plain.trim, fun y hy => h.known y (members_trim_subset hy)⟩

theorem Filling.addEach (h : Filling statuses targets t) (htarget : target ∈ targets)
    (after : Option ℤ) :
    Filling statuses targets
      (addEach t ((eligibleStatuses statuses target after).map (·, none)) aggregate) := by
  obtain ⟨hplain, hmem⟩ := h.plain.addEach aggregate (eligibleStatuses statuses target after)
  refine ⟨hplain, fun y hy => ?_⟩
  rcases (hmem y).1 hy with hy | hy
  · exact h.known y hy
  · obtain ⟨s, hs, hid, haccount, -⟩ :=
      mem_idsOf.1 ((List.mem_insertionSort _).1 (List.mem_of_mem_take hy))
    exact ⟨s, hs, haccount ▸ htarget, hid⟩

theorem Filling.mem_trim (h : Filling statuses targets t)
    (hbound : ∀ s ∈ statuses, s.id < 2 ^ 63) (hs : Newest statuses targets s) :
    s.id ∈ (Feed.trim t).key.members ↔ s.id ∈ t.key.members := by
  refine ⟨members_trim_subset, fun hmem => ?_⟩
  apply mem_trim_of_count h.plain.scored hmem (hbound s hs.1)
  refine lt_of_le_of_lt ?_ hs.2.2
  have hsub : t.key.members ⊆
      (statuses.filter (·.accountId ∈ targets)).map (·.id) := by
    intro y hy
    obtain ⟨s', hs', haccount, hid⟩ := h.known y hy
    exact List.mem_map.2 ⟨s', List.mem_filter.2 ⟨hs', decide_eq_true haccount⟩, hid⟩
  have hsubperm := List.subperm_of_subset t.key.nodup hsub
  refine (hsubperm.countP_le _).trans ?_
  rw [List.countP_map, List.countP_filter]
  apply List.countP_mono_left
  intro other _ hother
  simpa [and_comm] using hother

theorem Filling.visit (h : Filling statuses targets p.feed) (htarget : target ∈ targets) :
    Filling statuses targets (visit statuses aggregate p target).feed := by
  rw [FeedPopulating.visit]
  cases p.after (lastStatusAt statuses target) with
  | none => exact h
  | some after =>
      have hadd := (h.addEach aggregate htarget after).trim
      simp only
      cases heligible : eligibleStatuses statuses target after with
      | nil => exact h
      | cons id rest =>
          rw [heligible] at hadd
          exact hadd

theorem mem_visit (hids : (statuses.map (·.id)).Nodup)
    (hbound : ∀ s ∈ statuses, s.id < 2 ^ 63) (h : Filling statuses targets p.feed)
    (htarget : target ∈ targets) (hs : Newest statuses targets s) :
    s.id ∈ (visit statuses aggregate p target).feed.key.members ↔
      s.id ∈ p.feed.key.members ∨ target = s.accountId ∧ Reads statuses p s := by
  rw [FeedPopulating.visit]
  cases hafter : p.after (lastStatusAt statuses target) with
  | none =>
      have hnot : ¬(target = s.accountId ∧ Reads statuses p s) := by
        rintro ⟨rfl, hreads⟩
        exact not_reads hafter hreads
      simp [hnot]
  | some after =>
      have hread : s.id ∈ eligibleStatuses statuses target after ↔
          target = s.accountId ∧ Reads statuses p s := by
        rw [mem_eligibleStatuses hids hs]
        apply and_congr_right
        rintro rfl
        exact (reads_iff hafter).symm
      simp only
      rw [← hread]
      cases heligible : eligibleStatuses statuses target after with
      | nil => simp
      | cons id rest =>
          simp only
          rw [← heligible, addAll, (h.addEach aggregate htarget after).mem_trim hbound hs]
          exact (h.plain.addEach aggregate _).2 s.id

theorem mem_run (hids : (statuses.map (·.id)).Nodup)
    (hbound : ∀ s ∈ statuses, s.id < 2 ^ 63) (hs : Newest statuses targets s)
    (rest : List ℕ) (hrest : rest ⊆ targets) (h : Filling statuses targets p.feed) :
    s.id ∈ (run (visit statuses aggregate) p rest).feed.key.members ↔
      s.id ∈ p.feed.key.members ∨ ∃ before after, rest = before ++ s.accountId :: after ∧
        Reads statuses (run (visit statuses aggregate) p before) s := by
  induction rest generalizing p with
  | nil => simp
  | cons target rest ih =>
      have htarget : target ∈ targets := hrest List.mem_cons_self
      rw [run_cons, ih (fun x hx => hrest (List.mem_cons_of_mem _ hx)) (h.visit aggregate htarget),
        mem_visit aggregate hids hbound h htarget hs, or_assoc]
      apply or_congr_right
      constructor
      · rintro (⟨rfl, hreads⟩ | ⟨before, after, rfl, hreads⟩)
        · exact ⟨[], rest, rfl, hreads⟩
        · exact ⟨target :: before, after, rfl, hreads⟩
      · rintro ⟨before, after, hsplit, hreads⟩
        cases before with
        | nil =>
            obtain ⟨rfl, rfl⟩ := List.cons.inj hsplit
            exact .inl ⟨rfl, hreads⟩
        | cons first before =>
            obtain ⟨rfl, rfl⟩ := List.cons.inj hsplit
            exact .inr ⟨before, after, rfl, hreads⟩

theorem filling_empty : Filling statuses targets .empty where
  plain := ⟨rfl, nofun⟩
  known := nofun

/-- The feed holds the newest statuses of all the targets just where each is read at a visit
to its author. -/
theorem populated_iff (hids : (statuses.map (·.id)).Nodup)
    (hbound : ∀ s ∈ statuses, s.id < 2 ^ 63) (aggregate : Bool) (targets : List ℕ) :
    (∀ s, Newest statuses targets s →
      s.id ∈ (populateFrom statuses aggregate targets).key.members) ↔
    ∀ s, Newest statuses targets s → ∃ before after,
      targets = before ++ s.accountId :: after ∧
        Reads statuses (run (visit statuses aggregate) ⟨.empty, false⟩ before) s := by
  apply forall₂_congr
  intro s hs
  rw [populateFrom, mem_run aggregate hids hbound hs targets (List.Subset.refl _) filling_empty]
  exact or_iff_right (by simp [Timeline.empty])

theorem populated_single :
    111411200000000000 ∈ (populateFrom [⟨111411200000000000, 1⟩] true [1]).key.members := by
  have hnewest : Newest [⟨111411200000000000, 1⟩] [1] ⟨111411200000000000, 1⟩ :=
    ⟨by decide, by decide, by decide⟩
  refine (populated_iff (by decide) (by decide) true [1]).2 ?_ ⟨111411200000000000, 1⟩ hnewest
  rintro s ⟨hs, -, -⟩
  rw [List.mem_singleton.1 hs]
  refine ⟨[], [], rfl, fun oldest holdest => ?_⟩
  simp [Populating.oldest, Timeline.empty, zcard, limit, feedMaxItems] at holdest

/-! ### A status of the second of the oldest -/

theorem members_addAll_empty {ids : List ℕ} (hnodup : ids.Nodup)
    (hroom : ids.length ≤ feedMaxItems) :
    Plain (addAll .empty (ids.map (·, none)) aggregate) ∧
      (addAll .empty (ids.map (·, none)) aggregate).key.members.Perm ids := by
  have hempty : Plain .empty := ⟨rfl, nofun⟩
  obtain ⟨hplain, hmem⟩ := hempty.addEach aggregate ids
  have hperm : (addEach .empty (ids.map (·, none)) aggregate).key.members.Perm ids := by
    apply (List.perm_ext_iff_of_nodup (ScoredSet.nodup _) hnodup).2
    intro x
    refine (hmem x).trans ?_
    simp [Timeline.empty]
  have hall : (trim (addEach .empty (ids.map (·, none)) aggregate)).key.members =
      (addEach .empty (ids.map (·, none)) aggregate).key.members := by
    rw [trim_key, members, members, zremrangebyrank]
    congr 1
    apply List.take_of_length_le
    have hlen := hperm.length_eq
    rw [members, List.length_map] at hlen
    omega
  exact ⟨hplain.trim, hall ▸ hperm⟩

theorem after_start (lastStatusAt : Option ℕ) :
    Populating.after ⟨.empty, false⟩ lastStatusAt = some none := by
  simp [Populating.after, Populating.oldest, limit, feedMaxItems, Timeline.empty, zcard]

/-- Account 1 has 400 statuses, one each millisecond of a second; account 2 one, the newest of
all, in the same second. -/
def lastPosted : Status := ⟨(1700000000000 + 401) * 2 ^ 16, 2⟩

def firstIds : List ℕ := (List.range 400).map fun i => (1700000000000 + 400 - i) * 2 ^ 16

def sameSecond : List Status := lastPosted :: firstIds.map (⟨·, 1⟩)

theorem mem_firstIds {id : ℕ} (h : id ∈ firstIds) :
    1700000000001 * 2 ^ 16 ≤ id ∧ id < lastPosted.id := by
  obtain ⟨i, hi, rfl⟩ := List.mem_map.1 h
  have hlt := List.mem_range.1 hi
  have hlast : lastPosted.id = (1700000000000 + 401) * 2 ^ 16 := rfl
  omega

theorem firstIds_nodup : firstIds.Nodup := by
  apply List.Nodup.map_on ?_ List.nodup_range
  intro i hi j hj heq
  have hilt := List.mem_range.1 hi
  have hjlt := List.mem_range.1 hj
  omega

theorem sameSecond_ids : (sameSecond.map (·.id)).Nodup := by
  have hids : sameSecond.map (·.id) = lastPosted.id :: firstIds := by
    rw [sameSecond, List.map_cons, List.map_map]
    exact congrArg (lastPosted.id :: ·) (List.map_id' firstIds)
  rw [hids, List.nodup_cons]
  exact ⟨fun h => absurd (mem_firstIds h).2 (lt_irrefl _), firstIds_nodup⟩

instance (statuses : List Status) (targets : List ℕ) (s : Status) :
    Decidable (Newest statuses targets s) := inferInstanceAs (Decidable (_ ∧ _ ∧ _))

theorem newest_of_all_skipped :
    Newest sameSecond [1, 2] lastPosted ∧
      lastPosted.id ∉ (populateFrom sameSecond true [1, 2]).key.members := by
  have hnewest : Newest sameSecond [1, 2] lastPosted := by decide +kernel
  refine ⟨hnewest, fun hmem => ?_⟩
  have hread : eligibleStatuses sameSecond 1 none = firstIds := by decide +kernel
  have hlength : firstIds.length = limit := by
    rw [firstIds, List.length_map, List.length_range]
    rfl
  obtain ⟨hplain, hperm⟩ :=
    members_addAll_empty true firstIds_nodup (by rw [hlength]; decide)
  -- The first visit fills half the feed, and the oldest score is past the second's start.
  obtain ⟨p, hp⟩ : ∃ p, p = visit sameSecond true ⟨.empty, false⟩ 1 := ⟨_, rfl⟩
  have hfeed : p.feed = addAll .empty (firstIds.map (·, none)) true := by
    rw [hp, visit, after_start]
    simp only
    rw [hread]
    cases hfirst : firstIds with
    | nil =>
        rw [hfirst] at hlength
        exact absurd hlength (by decide)
    | cons id rest => rfl
  rw [← hfeed] at hplain hperm
  obtain ⟨e, he⟩ : ∃ e, p.feed.key.entries.getLast? = some e := by
    cases hlast : p.feed.key.entries.getLast? with
    | some e => exact ⟨e, rfl⟩
    | none =>
        rw [List.getLast?_eq_none_iff] at hlast
        have hlen := hperm.length_eq
        rw [members, hlast, hlength] at hlen
        exact absurd hlen (by decide)
  have hentry : e ∈ p.feed.key.entries := List.mem_of_getLast? he
  have hscore : asF64 (1700000000001 * 2 ^ 16) ≤ e.score := by
    rw [hplain.scored e hentry]
    exact asF64_mono (mem_firstIds (hperm.mem_iff.1 (member_mem hentry))).1
  have hover : limit ≤ p.feed.key.zcard := by
    have hlen := hperm.length_eq
    rw [members, List.length_map, hlength] at hlen
    exact hlen.ge
  have holdest : p.oldest = some (min (e.score : ℤ) (2 ^ 63 - 1)) := by
    rw [Populating.oldest, if_pos (by simp [hover]), oldestScore, he]
    rfl
  have hbound : ∀ s ∈ sameSecond, s.id < 2 ^ 63 := by decide +kernel
  rw [populateFrom] at hmem
  have hrun := (mem_run true sameSecond_ids hbound hnewest [1, 2] (List.Subset.refl _)
    filling_empty).1 hmem
  rcases hrun with hempty | ⟨before, after, hsplit, hreads⟩
  · cases hempty
  · have hbefore : before = [1] := by
      cases before with
      | nil => cases hsplit
      | cons first before =>
          obtain ⟨rfl, hsplit⟩ := List.cons.inj hsplit
          cases before with
          | nil => rfl
          | cons second before =>
              obtain ⟨_, hsplit⟩ := List.cons.inj hsplit
              cases before <;> cases hsplit
    rw [hbefore] at hreads
    have hpast := (hreads _ (hp ▸ holdest)).1
    have hidAt : idAt (lastStatusAt sameSecond lastPosted.accountId) =
        1700000000000 * 2 ^ 16 := by decide +kernel
    have hstart : asF64 (1700000000001 * 2 ^ 16) = 1700000000001 * 2 ^ 16 := by decide +kernel
    rw [hidAt] at hpast
    omega

end Eunha.FeedPopulating
