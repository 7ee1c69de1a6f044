import Eunha.Cursors
import Eunha.Feed
import Mathlib.Order.OrderDual

/-!
# Reading a feed page by page

A feed is read by score, newest first below the last id of the page before, or oldest first
above it. A bound is the id as binary64, like every score, and leaves out all ids that share
its score. So all ids are read, in the order of the ids, just where no page ends between two
ids of one score and the decimal text of ids of one score, which breaks ties, is ordered as
they are.
-/
namespace Eunha.FeedPaging
open Binary64 Cursors ScoredSets ScoredSet

/-- Up to `limit` ids, newest first below `max_id` and above `since_id`, or, given `min_id`,
the oldest above it and below `max_id`, oldest first. -/
def get (z : ScoredSet Nat.repr) (maxId sinceId minId : Option ℕ) (limit : ℕ) : List ℕ :=
  let under := fun e : Entry ℕ => maxId.all fun m => e.score < asF64 m
  match minId with
  | some minId =>
      -- `ZRANGEBYSCORE key (min (max LIMIT 0 limit`
      (((z.entries.filter fun e => asF64 minId < e.score ∧ under e).map
        Entry.member).reverse).take limit
  | none =>
      -- `ZREVRANGEBYSCORE key (max (since LIMIT 0 limit`
      ((z.entries.filter fun e => under e ∧ sinceId.all fun s => asF64 s < e.score).map
        Entry.member).take limit

/-- The pages read with `max_id` the last id of the page before, until one is empty. -/
def readDown (z : ScoredSet Nat.repr) (limit : ℕ) : ℕ → Option ℕ → List ℕ
  | 0, _ => []
  | fuel + 1, maxId =>
      match (get z maxId none none limit).getLast? with
      | none => []
      | some last => get z maxId none none limit ++ readDown z limit fuel (some last)

/-- The pages read with `min_id` the last id of the page before, until one is empty. -/
def readUp (z : ScoredSet Nat.repr) (limit : ℕ) : ℕ → ℕ → List ℕ
  | 0, _ => []
  | fuel + 1, minId =>
      match (get z none none (some minId) limit).getLast? with
      | none => []
      | some last => get z none none (some minId) limit ++ readUp z limit fuel last

/-- What `add_to_feed` makes of ids: each is scored by itself. -/
def Scored (z : ScoredSet Nat.repr) : Prop := ∀ e ∈ z.entries, e.score = asF64 e.member

def TextOrdered (z : ScoredSet Nat.repr) : Prop :=
  ∀ a ∈ z.members, ∀ b ∈ z.members, asF64 a = asF64 b → a < b → Nat.repr a < Nat.repr b

/-- Every member is read once, and in strictly decreasing order. -/
structure ReadsDown (z : ScoredSet Nat.repr) (ids : List ℕ) : Prop where
  decreasing : ids.Pairwise (· > ·)
  exhaustive : ∀ id, id ∈ ids ↔ id ∈ z.members

/-- Every member is read once, and in strictly increasing order. -/
structure ReadsUp (z : ScoredSet Nat.repr) (ids : List ℕ) : Prop where
  increasing : ids.Pairwise (· < ·)
  exhaustive : ∀ id, id ∈ ids ↔ id ∈ z.members

variable {z : ScoredSet Nat.repr} {limit : ℕ}

/-! ### The order of the entries -/

theorem scores_sorted (z : ScoredSet Nat.repr) :
    z.entries.Pairwise fun e f => f.score ≤ e.score :=
  z.sorted.imp fun h => h.score_le

theorem repr_injective : Function.Injective Nat.repr := by
  intro m n h
  have hdigits : Nat.toDigits 10 m = Nat.toDigits 10 n := by
    rw [← Nat.toList_repr, ← Nat.toList_repr, h]
  rw [← Nat.ofDigitChars_toDigits (n := m) (by decide : 1 < 10) le_rfl, hdigits,
    Nat.ofDigitChars_toDigits (by decide) le_rfl]

theorem members_decreasing_iff (hz : Scored z) :
    z.members.Pairwise (· > ·) ↔ TextOrdered z := by
  have hsorted := List.pairwise_iff_getElem.1 z.sorted
  rw [members, List.pairwise_map]
  constructor
  · intro hdec a ha b hb hscore hlt
    rw [List.pairwise_iff_getElem] at hdec
    obtain ⟨s, hs⟩ := mem_members.1 ha
    obtain ⟨t, ht⟩ := mem_members.1 hb
    have hst : s = t := (hz _ hs).trans (hscore.trans (hz _ ht).symm)
    obtain ⟨i, hi, hia⟩ := List.getElem_of_mem hs
    obtain ⟨j, hj, hjb⟩ := List.getElem_of_mem ht
    rcases lt_trichotomy i j with hij | hij | hij
    · have hba := hdec i j hi hj hij
      rw [hia, hjb] at hba
      exact absurd hba hlt.asymm
    · subst hij
      cases hia.symm.trans hjb
      exact absurd hlt (lt_irrefl _)
    · have hbefore := hsorted j i hj hi hij
      rw [hia, hjb] at hbefore
      rcases hbefore with hless | ⟨_, hle⟩
      · exact absurd hless (by simp [hst])
      · exact lt_of_le_of_ne hle (repr_injective.ne hlt.ne)
  · intro htext
    have hne : z.entries.Pairwise fun e f => e.member ≠ f.member := List.pairwise_map.1 z.nodup
    refine (z.sorted.and hne).imp_of_mem ?_
    rintro e f he hf ⟨hbefore, hdistinct⟩
    by_contra hnot
    have hlt : e.member < f.member := lt_of_le_of_ne (not_lt.1 hnot) hdistinct
    have hscores : e.score ≤ f.score := by
      rw [hz e he, hz f hf]
      exact asF64_mono hlt.le
    rcases hbefore with hless | ⟨hscore, hle⟩
    · exact absurd hscores (not_le.2 hless)
    · have hscore' : asF64 e.member = asF64 f.member := by rw [← hz e he, ← hz f hf, hscore]
      exact absurd (htext _ (member_mem he) _ (member_mem hf) hscore' hlt) (not_lt.2 hle)

/-! ### The pages as pages of the entries -/

theorem get_down (z : ScoredSet Nat.repr) (limit : ℕ) (maxId : Option ℕ) :
    get z maxId none none limit =
      (page Entry.score limit (maxId.map asF64) z.entries).map Entry.member := by
  rw [get, page, List.map_take]
  congr 2
  apply List.filter_congr
  intro e _
  cases maxId <;> simp

theorem readDown_eq (hz : Scored z) (fuel : ℕ) (maxId : Option ℕ) :
    readDown z limit fuel maxId =
      (walk Entry.score limit fuel (maxId.map asF64) z.entries).map Entry.member := by
  induction fuel generalizing maxId with
  | zero => rfl
  | succ fuel ih =>
      rw [readDown, walk, get_down, List.getLast?_map]
      cases hlast : (page Entry.score limit (maxId.map asF64) z.entries).getLast? with
      | none => rfl
      | some last =>
          have hmem : last ∈ z.entries :=
            (mem_below.1 (List.mem_of_mem_take (List.mem_of_getLast? hlast))).1
          simp only [Option.map_some]
          rw [ih, List.map_append, Option.map_some, hz last hmem]

/-- The score, the lowest first. -/
def upward (e : Entry ℕ) : ℕᵒᵈ := OrderDual.toDual e.score

theorem get_up (z : ScoredSet Nat.repr) (limit minId : ℕ) :
    get z none none (some minId) limit =
      (page upward limit (some (OrderDual.toDual (asF64 minId))) z.entries.reverse).map
        Entry.member := by
  rw [get, page, List.map_take, below, List.filter_reverse, List.map_reverse]
  congr 3
  apply List.filter_congr
  intro e _
  simp [upward]

theorem readUp_eq (hz : Scored z) (fuel minId : ℕ) :
    readUp z limit fuel minId =
      (walk upward limit fuel (some (OrderDual.toDual (asF64 minId))) z.entries.reverse).map
        Entry.member := by
  induction fuel generalizing minId with
  | zero => rfl
  | succ fuel ih =>
      rw [readUp, walk, get_up, List.getLast?_map]
      cases hlast : (page upward limit (some (OrderDual.toDual (asF64 minId)))
          z.entries.reverse).getLast? with
      | none => rfl
      | some last =>
          have hmem : last ∈ z.entries := List.mem_reverse.1
            (mem_below.1 (List.mem_of_mem_take (List.mem_of_getLast? hlast))).1
          simp only [Option.map_some]
          rw [ih, List.map_append, upward, hz last hmem]

theorem eq_of_exhaustive {rows read : List (Entry ℕ)} (hsub : read.Sublist rows)
    (hnodup : (rows.map Entry.member).Nodup)
    (hall : ∀ id ∈ rows.map Entry.member, id ∈ read.map Entry.member) : read = rows := by
  apply hsub.eq_of_length_le
  have hsubperm := List.subperm_of_subset hnodup hall
  simpa using hsubperm.length_le

/-- A feed is read page by page in full and in order just where no page ends between two ids
of one score, and the text of ids of one score is ordered as they are. -/
theorem read_in_full_iff (hz : Scored z) (hpos : ∀ id ∈ z.members, 0 < id) (hlimit : 0 < limit)
    {fuel : ℕ} (hfuel : z.zcard < fuel) :
    (ReadsDown z (readDown z limit fuel none) ↔
      EndsApart Entry.score limit z.entries ∧ TextOrdered z) ∧
    (ReadsUp z (readUp z limit fuel 0) ↔
      EndsApart Entry.score limit z.entries.reverse ∧ TextOrdered z) := by
  have hup : z.entries.reverse.Pairwise fun e f => upward f ≤ upward e :=
    List.pairwise_reverse.2 (scores_sorted z)
  have hnodup : (z.entries.reverse.map Entry.member).Nodup := by
    rw [List.map_reverse, List.nodup_reverse]
    exact z.nodup
  constructor
  · rw [readDown_eq hz, Option.map_none, ← members_decreasing_iff hz,
      ← walk_eq_iff (scores_sorted z) hlimit hfuel]
    constructor
    · intro h
      have heq := eq_of_exhaustive (walk_sublist (scores_sorted z) hlimit) z.nodup
        fun id hid => (h.exhaustive id).2 hid
      have hdec := h.decreasing
      rw [heq] at hdec
      exact ⟨heq, hdec⟩
    · rintro ⟨heq, hdec⟩
      rw [heq]
      exact ⟨hdec, fun id => Iff.rfl⟩
  · have hbelow : below upward (some (OrderDual.toDual (asF64 0))) z.entries.reverse =
        z.entries.reverse := by
      apply List.filter_eq_self.2
      intro e he
      have hscore : 0 < e.score := by
        rw [hz e (List.mem_reverse.1 he)]
        exact asF64_pos (hpos _ (member_mem (List.mem_reverse.1 he)))
      have hzero : asF64 0 = 0 := asF64_of_le (Nat.zero_le _)
      rw [hzero]
      exact decide_eq_true hscore
    have hends : EndsApart Entry.score limit z.entries.reverse ↔
        EndsApart upward limit z.entries.reverse := Iff.rfl
    rw [readUp_eq hz, walk_below, hbelow, hends, ← members_decreasing_iff hz,
      ← walk_eq_iff hup hlimit (by rwa [List.length_reverse])]
    have hincreasing : z.members.Pairwise (· > ·) ↔
        (z.entries.reverse.map Entry.member).Pairwise (· < ·) := by
      rw [List.map_reverse, List.pairwise_reverse]
      rfl
    rw [hincreasing]
    constructor
    · intro h
      have heq := eq_of_exhaustive (walk_sublist hup hlimit) hnodup fun id hid => by
        rw [List.map_reverse, List.mem_reverse] at hid
        exact (h.exhaustive id).2 hid
      have hinc := h.increasing
      rw [heq] at hinc
      exact ⟨heq, hinc⟩
    · rintro ⟨heq, hinc⟩
      rw [heq]
      refine ⟨hinc, fun id => ?_⟩
      rw [List.map_reverse, List.mem_reverse]
      rfl

/-! ### Two statuses of one moment -/

/-- The feed `add_to_feed` makes of these ids. -/
def feedOf (ids : List ℕ) : ScoredSet Nat.repr :=
  ids.foldl (fun z id => z.zadd id (asF64 id)) .empty

theorem scored_feedOf (ids : List ℕ) : Scored (feedOf ids) := by
  have hfold : ∀ z, Scored z → Scored (ids.foldl (fun z id => z.zadd id (asF64 id)) z) := by
    induction ids with
    | nil => exact fun z hz => hz
    | cons id ids ih =>
        intro z hz
        apply ih
        intro e he
        rcases mem_zadd.1 he with rfl | ⟨he, _⟩
        · rfl
        · exact hz e he
  exact hfold .empty nofun

def apart : ScoredSet Nat.repr := feedOf [111411200000000000, 111411200000000016]

theorem read_in_full_apart :
    ReadsDown apart (readDown apart 1 3 none) ∧ ReadsUp apart (readUp apart 1 3 0) := by
  have hentries : apart.entries = [⟨111411200000000016, 111411200000000016⟩,
    ⟨111411200000000000, 111411200000000000⟩] := by decide +kernel
  have hmembers : apart.members = [111411200000000016, 111411200000000000] := by
    rw [members, hentries]
    rfl
  have htext : TextOrdered apart := by
    rw [TextOrdered, hmembers]
    decide +kernel
  have hends : ∀ e f : Entry ℕ, e.score ≠ f.score → EndsApart Entry.score 1 [e, f] := by
    intro e f hne i a b hi ha hb
    have hlt := (List.getElem?_eq_some_iff.1 hb).1
    obtain rfl : i = 1 := by
      simp only [List.length_cons, List.length_nil] at hlt
      omega
    cases ha
    cases hb
    exact hne
  have hpos : ∀ id ∈ apart.members, 0 < id := by
    rw [hmembers]
    decide
  have hfuel : apart.zcard < 3 := by
    rw [zcard, hentries]
    decide
  have hscored : Scored apart := scored_feedOf _
  have h := read_in_full_iff hscored hpos Nat.one_pos hfuel
  constructor
  · apply h.1.2
    rw [hentries]
    exact ⟨hends _ _ (by decide), htext⟩
  · apply h.2.2
    rw [hentries]
    exact ⟨hends _ _ (by decide), htext⟩

def together : ScoredSet Nat.repr := feedOf [111411200000000001, 111411200000000002]

/-- Two statuses of one score, the text of the newer one being the lower. -/
def acrossPower : ScoredSet Nat.repr := feedOf [99999999999999999, 100000000000000000]

theorem same_score_skipped :
    (readDown together 1 3 none = [111411200000000002] ∧
      readUp together 1 3 0 = [111411200000000001] ∧
      ¬ReadsDown together (readDown together 1 3 none) ∧
      ¬ReadsUp together (readUp together 1 3 0)) ∧
    readDown acrossPower 2 3 none = [99999999999999999, 100000000000000000] ∧
      ¬ReadsDown acrossPower (readDown acrossPower 2 3 none) := by
  have hdown : readDown together 1 3 none = [111411200000000002] := by decide +kernel
  have hup : readUp together 1 3 0 = [111411200000000001] := by decide +kernel
  have hacross : readDown acrossPower 2 3 none = [99999999999999999, 100000000000000000] := by
    decide +kernel
  refine ⟨⟨hdown, hup, fun h => ?_, fun h => ?_⟩, hacross, fun h => ?_⟩
  · have hmem := (h.exhaustive 111411200000000001).2 (by decide +kernel)
    rw [hdown] at hmem
    exact absurd hmem (by decide)
  · have hmem := (h.exhaustive 111411200000000002).2 (by decide +kernel)
    rw [hup] at hmem
    exact absurd hmem (by decide)
  · have hdec := h.decreasing
    rw [hacross] at hdec
    exact absurd hdec (by decide)

end Eunha.FeedPaging
