import Eunha.Feed

/-!
# What a feed's three keys say of each other

Each operation is read once, as a case for each thing it can do to the keys with
the tests that led to it. The representation invariant follows case by case:
a tracked post is scored by a boost of it that is in the feed, and boosts are
held back only for tracked posts, of which they are boosts.
-/
namespace Eunha.Feed
open Binary64 Runs ScoredSets ScoredSet

variable {reblogOf : ℕ → Option ℕ} {t : Timeline}

/-! ### Each operation by cases -/

theorem oldest_eq_some {others : Finset ℕ} {other : ℕ} (h : oldest others = some other) :
    other ∈ others := by
  unfold oldest at h
  split_ifs at h with hn
  exact Option.some.inj h ▸ others.min'_mem hn

theorem oldest_eq_none {others : Finset ℕ} (h : oldest others = none) : others = ∅ := by
  unfold oldest at h
  split_ifs at h with hn
  exact Finset.not_nonempty_iff_eq_empty.mp hn

/-- What adding a status that boosts `o` can leave, with the tests it passed. -/
inductive Added (t : Timeline) (s : ℕ) : Option ℕ → Timeline → Prop
  | out (o : Option ℕ) : Added t s o t
  | first (r : ℕ) : (∀ x, (⟨r, x⟩ : Entry ℕ) ∉ t.key.top reblogFalloff) → r ∉ t.reblogs.members →
      Added t s (some r) { t.zaddSelf s with reblogs := t.reblogs.place r (asF64 s) }
  | heldBack (r : ℕ) : r ∈ t.reblogs.members →
      Added t s (some r)
        { t with reblogSet := Function.update t.reblogSet r (insert s (t.reblogSet r)) }
  | post : s ∉ t.reblogs.members → Added t s none (t.zaddSelf s)

theorem addToFeed_added (t : Timeline) (s : ℕ) (o : Option ℕ) :
    Added t s o (addToFeed t s o true).2 := by
  cases o with
  | none =>
      simp only [addToFeed, Option.filter_none]
      split_ifs with h
      · exact .out none
      · exact .post fun hm => h (zscore_isSome.mpr hm)
  | some r =>
      simp only [addToFeed, Option.filter_some, if_true]
      split_ifs with hr ht
      · exact .out (some r)
      · have hm : r ∉ t.reblogs.members := by
          intro hm
          simp [zaddNX, zscore_isSome.mpr hm] at ht
        have hx : ∀ x, (⟨r, x⟩ : Entry ℕ) ∉ t.key.top reblogFalloff := fun x hx =>
          hr (zrevrank_lt.mpr ⟨x, hx⟩)
        have := Added.first r hx hm (s := s)
        simpa [zaddNX, zscore_isSome, hm, Timeline.zaddSelf] using this
      · have hm : r ∈ t.reblogs.members := by
          by_contra hm
          simp [zaddNX, zscore_isSome, hm] at ht
        have := Added.heldBack (t := t) r hm (s := s)
        simpa [zaddNX, zscore_isSome, hm] using this

/-- What removing a status that boosts `o` can leave. -/
inductive Removed (t : Timeline) (s : ℕ) : Option ℕ → Timeline → Prop
  | absent (r : ℕ) : s ∉ t.key.members → Removed t s (some r) t
  | last (r : ℕ) : s ∈ t.key.members → (t.reblogSet r).erase s = ∅ →
      Removed t s (some r)
        { key := t.key.zrem s
          reblogs := t.reblogs.zrem r
          reblogSet := Function.update t.reblogSet r ∅ }
  | promoted (r other : ℕ) : s ∈ t.key.members → other ∈ (t.reblogSet r).erase s →
      Removed t s (some r)
        { key := (t.key.zadd other (asF64 other)).zrem s
          reblogs := (t.reblogs.zrem r).zadd r (asF64 other)
          reblogSet := Function.update t.reblogSet r ((t.reblogSet r).erase s) }
  | post : Removed t s none
      { key := t.key.zrem s
        reblogs := t.reblogs.zrem s
        reblogSet := Function.update t.reblogSet s ∅ }

theorem removeFromFeed_removed (t : Timeline) (s : ℕ) (o : Option ℕ) :
    Removed t s o (removeFromFeed t s o true).2 := by
  cases o with
  | none => exact .post
  | some r =>
      simp only [removeFromFeed, Option.filter_some, if_true]
      split_ifs with hr
      · exact .absent r (zrevrank_isNone.mp hr)
      · have hs : s ∈ t.key.members := by
          by_contra hs
          exact hr (zrevrank_isNone.mpr hs)
        cases ho : oldest ((t.reblogSet r).erase s) with
        | none =>
            have he := oldest_eq_none ho
            simpa only [he] using Removed.last r hs he
        | some other => exact .promoted r other hs (oldest_eq_some ho)

/-! ### Trimming -/

def falloff (t : Timeline) : Option (Entry ℕ) := t.key.zrevrangebyscore reblogFalloff

theorem untrack_foldl_key (rs : List ℕ) (t : Timeline) :
    (rs.foldl Timeline.untrack t).key = t.key := by
  induction rs generalizing t with
  | nil => rfl
  | cons r rs ih => exact ih (t.untrack r)

theorem mem_untrack_foldl_reblogs (rs : List ℕ) (t : Timeline) {e : Entry ℕ} :
    e ∈ (rs.foldl Timeline.untrack t).reblogs.entries ↔
      e ∈ t.reblogs.entries ∧ e.member ∉ rs := by
  induction rs generalizing t with
  | nil => simp
  | cons r rs ih =>
      rw [List.foldl_cons, ih]
      simp only [Timeline.untrack, mem_zrem, List.mem_cons, not_or, and_assoc]

theorem untrack_foldl_reblogSet (rs : List ℕ) (t : Timeline) (r : ℕ) :
    (rs.foldl Timeline.untrack t).reblogSet r = if r ∈ rs then ∅ else t.reblogSet r := by
  induction rs generalizing t with
  | nil => simp
  | cons q rs ih =>
      rw [List.foldl_cons, ih]
      simp only [Timeline.untrack, List.mem_cons, Function.update_apply]
      split_ifs <;> simp_all

theorem zrevrangebyscore_zremrangebyrank (z : ScoredSet Nat.repr) :
    (z.zremrangebyrank feedMaxItems).zrevrangebyscore reblogFalloff =
      z.zrevrangebyscore reblogFalloff := by
  simp [zrevrangebyscore, zremrangebyrank, reblogFalloff, feedMaxItems]

@[simp] theorem trim_key (t : Timeline) : (trim t).key = t.key.zremrangebyrank feedMaxItems := by
  simp only [trim]
  split
  · rfl
  · exact untrack_foldl_key _ _

theorem mem_trim_reblogs {e : Entry ℕ} :
    e ∈ (trim t).reblogs.entries ↔
      e ∈ t.reblogs.entries ∧ ∀ f, falloff t = some f → f.score < e.score := by
  unfold trim falloff
  simp only [zrevrangebyscore_zremrangebyrank]
  cases hf : t.key.zrevrangebyscore reblogFalloff with
  | none => simp
  | some f =>
      simp only [mem_untrack_foldl_reblogs, mem_zrangebyscore, Option.some.injEq, forall_eq']
      refine and_congr_right fun he => ⟨fun h => ?_, fun h => ?_⟩
      · by_contra hle
        exact h ⟨e.score, he, Nat.zero_le _, not_lt.mp hle⟩
      · rintro ⟨s, hs, -, hle⟩
        have hq : s = e.score := congrArg Entry.score (entry_eq hs he rfl)
        omega

/-- What the trim leaves held back for a post was held back before, and the post
is still tracked if it was. -/
theorem mem_trim_reblogSet {r b : ℕ} (hb : b ∈ (trim t).reblogSet r) :
    b ∈ t.reblogSet r ∧ (r ∈ t.reblogs.members → r ∈ (trim t).reblogs.members) := by
  simp only [trim] at hb ⊢
  split at hb
  · exact ⟨hb, id⟩
  · rw [untrack_foldl_reblogSet] at hb
    split_ifs at hb with hr
    · simp at hb
    · refine ⟨hb, fun hm => ?_⟩
      obtain ⟨s, hs⟩ := mem_members.mp hm
      exact mem_members.mpr ⟨s, (mem_untrack_foldl_reblogs _ _).mpr ⟨hs, hr⟩⟩

/-! ### The representation invariant -/

/-- Members are scored by themselves. A tracked post is scored by a boost of it
that is in the feed. What is held back for a post boosts it, and the post is
tracked. -/
structure Tracked (reblogOf : ℕ → Option ℕ) (t : Timeline) : Prop where
  scored : ∀ e ∈ t.key.entries, e.score = asF64 e.member
  standing : ∀ e ∈ t.reblogs.entries,
    ∃ b ∈ t.key.members, reblogOf b = some e.member ∧ asF64 b = e.score
  heldBack : ∀ r, ∀ b ∈ t.reblogSet r, reblogOf b = some r ∧ r ∈ t.reblogs.members

theorem tracked_empty : Tracked reblogOf .empty := by
  constructor <;> simp [Timeline.empty]

theorem scored_zadd {z : ScoredSet Nat.repr} (h : ∀ e ∈ z.entries, e.score = asF64 e.member)
    (s : ℕ) : ∀ e ∈ (z.zadd s (asF64 s)).entries, e.score = asF64 e.member := by
  intro e he
  rcases mem_zadd.mp he with rfl | ⟨he, _⟩
  · rfl
  · exact h e he

theorem Tracked.mem_entries (h : Tracked reblogOf t) {b : ℕ} (hb : b ∈ t.key.members) :
    (⟨b, asF64 b⟩ : Entry ℕ) ∈ t.key.entries := by
  obtain ⟨s, hs⟩ := mem_members.mp hb
  have : s = asF64 b := h.scored _ hs
  exact this ▸ hs

theorem Tracked.add (h : Tracked reblogOf t) {s : ℕ} {u : Timeline}
    (hu : Added t s (reblogOf s) u) : Tracked reblogOf u := by
  generalize ho : reblogOf s = o at hu
  cases hu with
  | out => exact h
  | first r _ hr =>
      refine ⟨scored_zadd h.scored s, ?_, ?_⟩
      · intro e he
        rcases mem_place.mp he with rfl | ⟨he, _⟩
        · exact ⟨s, by simp [Timeline.zaddSelf], ho, rfl⟩
        · obtain ⟨b, hb, hq⟩ := h.standing e he
          exact ⟨b, by simp [Timeline.zaddSelf, hb], hq⟩
      · intro q b hb
        obtain ⟨hq, hm⟩ := h.heldBack q b hb
        obtain ⟨x, hx⟩ := mem_members.mp hm
        have hne : q ≠ r := fun hqr => hr (hqr ▸ hm)
        exact ⟨hq, mem_members.mpr ⟨x, mem_place.mpr (Or.inr ⟨hx, hne⟩)⟩⟩
  | heldBack r hr =>
      refine ⟨h.scored, h.standing, ?_⟩
      intro q b hb
      simp only [Function.update_apply] at hb
      split_ifs at hb with hq
      · subst hq
        rcases Finset.mem_insert.mp hb with rfl | hb
        · exact ⟨ho, hr⟩
        · exact h.heldBack q b hb
      · exact h.heldBack q b hb
  | post =>
      refine ⟨scored_zadd h.scored s, ?_, h.heldBack⟩
      intro e he
      obtain ⟨b, hb, hq⟩ := h.standing e he
      exact ⟨b, by simp [Timeline.zaddSelf, hb], hq⟩

theorem Tracked.remove (h : Tracked reblogOf t) {s : ℕ} {u : Timeline}
    (hu : Removed t s (reblogOf s) u) : Tracked reblogOf u := by
  generalize ho : reblogOf s = o at hu
  -- A boost standing in for another post than the one removed is another status.
  have hother : ∀ e ∈ t.reblogs.entries, some e.member ≠ o →
      ∃ b ∈ t.key.members, b ≠ s ∧ reblogOf b = some e.member ∧ asF64 b = e.score := by
    intro e he hne
    obtain ⟨b, hb, hq, hs⟩ := h.standing e he
    exact ⟨b, hb, fun hbs => hne (by rw [← hq, hbs, ho]), hq, hs⟩
  cases hu with
  | absent => exact h
  | last r hs hl =>
      refine ⟨fun e he => h.scored e (mem_zrem.mp he).1, ?_, ?_⟩
      · intro e he
        obtain ⟨he, hr⟩ := mem_zrem.mp he
        obtain ⟨b, hb, hbs, hq⟩ := hother e he (by simpa using hr)
        exact ⟨b, by simp [hb, hbs], hq⟩
      · intro q b hb
        simp only [Function.update_apply] at hb
        split_ifs at hb with hq
        · simp at hb
        · obtain ⟨hb, hm⟩ := h.heldBack q b hb
          exact ⟨hb, by simp [hm, hq]⟩
  | promoted r other hs hother' =>
      obtain ⟨hne, hmem⟩ := Finset.mem_erase.mp hother'
      refine ⟨fun e he => scored_zadd h.scored other e (mem_zrem.mp he).1, ?_, ?_⟩
      · intro e he
        rcases mem_zadd.mp he with rfl | ⟨he, hr⟩
        · exact ⟨other, by simp [hne], (h.heldBack r other hmem).1, rfl⟩
        · obtain ⟨b, hb, hbs, hq⟩ := hother e (mem_zrem.mp he).1 (by simpa using hr)
          exact ⟨b, by simp [hb, hbs], hq⟩
      · intro q b hb
        simp only [Function.update_apply] at hb
        split_ifs at hb with hq
        · subst hq
          exact ⟨(h.heldBack q b (Finset.mem_of_mem_erase hb)).1, by simp⟩
        · obtain ⟨hb, hm⟩ := h.heldBack q b hb
          exact ⟨hb, by simp [hm, hq]⟩
  | post =>
      refine ⟨fun e he => h.scored e (mem_zrem.mp he).1, ?_, ?_⟩
      · intro e he
        obtain ⟨b, hb, hbs, hq⟩ := hother e (mem_zrem.mp he).1 (by simp)
        exact ⟨b, by simp [hb, hbs], hq⟩
      · intro q b hb
        simp only [Function.update_apply] at hb
        split_ifs at hb with hq
        · simp at hb
        · obtain ⟨hb, hm⟩ := h.heldBack q b hb
          exact ⟨hb, by simp [hm, hq]⟩

theorem Tracked.mem_trim (h : Tracked reblogOf t) {b : ℕ} (hb : b ∈ t.key.members)
    (hf : ∀ f, falloff t = some f → f.score < asF64 b) : b ∈ (trim t).key.members := by
  have he := h.mem_entries hb
  rw [trim_key, mem_members]
  refine ⟨asF64 b, ?_⟩
  change _ ∈ t.key.entries.take feedMaxItems
  cases hq : falloff t with
  | none =>
      have hl : t.key.entries.length ≤ reblogFalloff := List.getElem?_eq_none_iff.mp hq
      rw [List.take_of_length_le (hl.trans (by decide))]
      exact he
  | some f =>
      have ht : (⟨b, asF64 b⟩ : Entry ℕ) ∈ t.key.top reblogFalloff := by
        by_contra ht
        have := le_score_of_not_mem_top hq he ht
        have := hf f hq
        simp only at *
        omega
      exact List.take_subset_take_left _ (by decide) ht

theorem Tracked.trim (h : Tracked reblogOf t) : Tracked reblogOf (trim t) := by
  refine ⟨?_, ?_, ?_⟩
  · intro e he
    rw [trim_key] at he
    exact h.scored e (List.mem_of_mem_take he)
  · intro e he
    obtain ⟨he, hf⟩ := mem_trim_reblogs.mp he
    obtain ⟨b, hb, hq, hs⟩ := h.standing e he
    exact ⟨b, h.mem_trim hb (by rwa [hs]), hq, hs⟩
  · intro r b hb
    obtain ⟨hb, hm⟩ := mem_trim_reblogSet hb
    obtain ⟨hq, hr⟩ := h.heldBack r b hb
    exact ⟨hq, hm hr⟩

theorem Tracked.addEach (h : Tracked reblogOf t) (ss : List ℕ) :
    Tracked reblogOf (addEach t (ss.map fun s => (s, reblogOf s)) true) := by
  induction ss generalizing t with
  | nil => exact h
  | cons s ss ih => exact ih (h.add (addToFeed_added t s (reblogOf s)))

theorem Tracked.push (h : Tracked reblogOf t) (s : ℕ) :
    Tracked reblogOf (push t s (reblogOf s) true).2 := by
  have ha := h.add (addToFeed_added t s (reblogOf s))
  unfold Feed.push
  dsimp only
  split_ifs
  · exact ha.trim
  · exact ha

theorem Tracked.step (h : Tracked reblogOf t) (op : Op) : Tracked reblogOf (step reblogOf t op) := by
  cases op with
  | push s => exact h.push s
  | addAll ss => exact (h.addEach ss).trim
  | trim => exact h.trim
  | remove s => exact h.remove (removeFromFeed_removed t s (reblogOf s))

theorem tracked_after (reblogOf : ℕ → Option ℕ) (ops : List Op) :
    Tracked reblogOf (after reblogOf ops) :=
  run_invariant (fun _ op h => h.step op) _ ops tracked_empty

/-! ### The size of the feed -/

theorem zcard_trim_le (t : Timeline) : (trim t).key.zcard ≤ feedMaxItems := by
  rw [trim_key]
  exact zcard_zremrangebyrank_le _ _

theorem addToFeed_refused {s : ℕ} {o : Option ℕ} {aggregate : Bool}
    (h : (addToFeed t s o aggregate).1 = false) : (addToFeed t s o aggregate).2.key = t.key := by
  revert h
  unfold addToFeed
  dsimp only
  split <;> split_ifs <;> simp

theorem zcard_remove_le {s : ℕ} {o : Option ℕ} {u : Timeline} (hu : Removed t s o u) :
    u.key.zcard ≤ t.key.zcard := by
  cases hu with
  | absent => exact le_rfl
  | last => exact zcard_zrem_le _ _
  | post => exact zcard_zrem_le _ _
  | promoted r other hs =>
      have h₁ := zcard_zadd_le t.key other (asF64 other)
      have h₂ := zcard_zrem_of_mem (z := t.key.zadd other (asF64 other)) (a := s) (by simp [hs])
      dsimp only
      omega

theorem zcard_step_le (h : t.key.zcard ≤ feedMaxItems) (op : Op) :
    (step reblogOf t op).key.zcard ≤ feedMaxItems := by
  cases op with
  | push s =>
      simp only [step, push]
      split_ifs with ha
      · exact zcard_trim_le _
      · rwa [addToFeed_refused (by simpa using ha)]
  | addAll ss => exact zcard_trim_le _
  | trim => exact zcard_trim_le _
  | remove s => exact (zcard_remove_le (removeFromFeed_removed t s (reblogOf s))).trans h

theorem zcard_after_le (reblogOf : ℕ → Option ℕ) (ops : List Op) :
    (after reblogOf ops).key.zcard ≤ feedMaxItems :=
  run_invariant (P := fun t : Timeline => t.key.zcard ≤ feedMaxItems) (fun _ op h => zcard_step_le h op)
    _ ops (Nat.zero_le _)

/-! ### Cleaning -/

theorem cleanFeed_foldl (rs : List ℕ) (t : Timeline) :
    rs.foldl (fun t r => { t with reblogSet := Function.update t.reblogSet r ∅ }) t =
      { t with reblogSet := fun r => if r ∈ rs then ∅ else t.reblogSet r } := by
  induction rs generalizing t with
  | nil => simp
  | cons q rs ih =>
      rw [List.foldl_cons, ih]
      ext1
      · rfl
      · rfl
      · funext r
        simp only [Function.update_apply, List.mem_cons]
        split_ifs <;> simp_all

theorem Tracked.clean (h : Tracked reblogOf t) : cleanFeed t = .empty := by
  rw [cleanFeed, cleanFeed_foldl]
  ext1
  · rfl
  · rfl
  · funext r
    dsimp only [Timeline.empty]
    split_ifs with hr
    · rfl
    · refine Finset.eq_empty_of_forall_notMem fun b hb => hr (h.heldBack r b hb).2

/-- The three keys agree after every run, at every point of a batch too; the
feed holds no more than `feedMaxItems` once an operation is over, a removal
never enlarges it, and cleaning it leaves no key behind. -/
theorem feed_representation (reblogOf : ℕ → Option ℕ) (ops : List Op) (batch : List ℕ) :
    let t := addEach (after reblogOf ops) (batch.map fun s => (s, reblogOf s)) true
    (∀ e ∈ t.reblogs.entries,
      ∃ b ∈ t.key.members, reblogOf b = some e.member ∧ asF64 b = e.score) ∧
    (∀ r, (t.reblogSet r).Nonempty →
      r ∈ t.reblogs.members ∧ ∀ b ∈ t.reblogSet r, reblogOf b = some r) ∧
    (after reblogOf ops).key.zcard ≤ feedMaxItems ∧
    (∀ s, (after reblogOf (ops ++ [.remove s])).key.zcard ≤ (after reblogOf ops).key.zcard) ∧
    cleanFeed t = .empty := by
  intro t
  have h : Tracked reblogOf t := (tracked_after reblogOf ops).addEach batch
  refine ⟨h.standing, ?_, zcard_after_le reblogOf ops, ?_, h.clean⟩
  · rintro r ⟨b, hb⟩
    exact ⟨(h.heldBack r b hb).2, fun c hc => (h.heldBack r c hc).1⟩
  · intro s
    rw [after, run_append]
    exact zcard_remove_le (removeFromFeed_removed _ s (reblogOf s))

end Eunha.Feed
