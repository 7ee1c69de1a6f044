import Eunha.FeedInvariant

/-!
# Whether a removed status can come back

Only the boosts held back can enter a feed without being pushed, so a status
that is neither in the feed nor held back stays out until it is pushed again.
Removing a status leaves it in that position unless it is a boost that was held
back and not in the feed: `removeFromFeed` returns before it reaches the set it
is held back in. From there, removing the boosts shown before it, one by one,
puts it in the feed.
-/
namespace Eunha.Feed
open Binary64 Runs ScoredSets ScoredSet

variable {reblogOf : ℕ → Option ℕ} {t : Timeline}

/-- Neither in the feed nor held back for any post. -/
structure Gone (s : ℕ) (t : Timeline) : Prop where
  notShown : s ∉ t.key.members
  notHeld : ∀ r, s ∉ t.reblogSet r

theorem Gone.add {s a : ℕ} {o : Option ℕ} {u : Timeline} (h : Gone s t) (ha : s ≠ a)
    (hu : Added t a o u) : Gone s u := by
  cases hu with
  | out => exact h
  | first r => exact ⟨by simp [Timeline.zaddSelf, ha, h.notShown], h.notHeld⟩
  | post => exact ⟨by simp [Timeline.zaddSelf, ha, h.notShown], h.notHeld⟩
  | heldBack r =>
      refine ⟨h.notShown, fun q => ?_⟩
      simp only [Function.update_apply]
      split_ifs
      · simp [ha, h.notHeld]
      · exact h.notHeld q

theorem Gone.remove {s a : ℕ} {o : Option ℕ} {u : Timeline} (h : Gone s t)
    (hu : Removed t a o u) : Gone s u := by
  have herase : ∀ r, s ∉ (t.reblogSet r).erase a := fun r hs =>
    h.notHeld r (Finset.mem_of_mem_erase hs)
  cases hu with
  | absent => exact h
  | promoted r other hs ho =>
      have hne : s ≠ other := fun hso => herase r (hso ▸ ho)
      refine ⟨by simp [hne, h.notShown], fun q => ?_⟩
      simp only [Function.update_apply]
      split_ifs
      · exact herase r
      · exact h.notHeld q
  | last r =>
      refine ⟨by simp [h.notShown], fun q => ?_⟩
      simp only [Function.update_apply]
      split_ifs
      · simp
      · exact h.notHeld q
  | post =>
      refine ⟨by simp [h.notShown], fun q => ?_⟩
      simp only [Function.update_apply]
      split_ifs
      · simp
      · exact h.notHeld q

theorem Gone.trim {s : ℕ} (h : Gone s t) : Gone s (trim t) := by
  refine ⟨fun hs => ?_, fun r hs => h.notHeld r (mem_trim_reblogSet hs).1⟩
  rw [trim_key] at hs
  obtain ⟨x, hx⟩ := mem_members.mp hs
  exact h.notShown (mem_members.mpr ⟨x, List.mem_of_mem_take hx⟩)

theorem Gone.addEach {s : ℕ} (h : Gone s t) (ss : List ℕ) (hs : s ∉ ss) :
    Gone s (addEach t (ss.map fun s => (s, reblogOf s)) true) := by
  induction ss generalizing t with
  | nil => exact h
  | cons a ss ih =>
      rw [List.mem_cons, not_or] at hs
      exact ih (h.add hs.1 (addToFeed_added t a (reblogOf a))) hs.2

theorem Gone.step {s : ℕ} (h : Gone s t) (op : Op) (hs : s ∉ op.pushed) :
    Gone s (step reblogOf t op) := by
  cases op with
  | push a =>
      have ha := h.add (by simpa [Op.pushed] using hs) (addToFeed_added t a (reblogOf a))
      simp only [Feed.step, push]
      split_ifs
      · exact ha.trim
      · exact ha
  | addAll ss => exact (h.addEach ss hs).trim
  | trim => exact h.trim
  | remove a => exact h.remove (removeFromFeed_removed t a (reblogOf a))

/-- The removal of `s` reaches everything the feed has of it: it is in the feed,
or it is not held back for the post it boosts. -/
def Reached (reblogOf : ℕ → Option ℕ) (t : Timeline) (s : ℕ) : Prop :=
  ∀ r, reblogOf s = some r → s ∈ t.reblogSet r → s ∈ t.key.members

theorem gone_of_reached (h : Tracked reblogOf t) {s : ℕ} (hs : Reached reblogOf t s) :
    Gone s (step reblogOf t (.remove s)) := by
  have hu := removeFromFeed_removed t s (reblogOf s)
  change Gone s (removeFromFeed t s (reblogOf s) true).2
  generalize (removeFromFeed t s (reblogOf s) true).2 = u at hu
  -- Another post than the one it boosts never has it held back.
  have hheld : ∀ q, some q ≠ reblogOf s → s ∉ t.reblogSet q := fun q hq hm =>
    hq (h.heldBack q s hm).1.symm
  unfold Reached at hs
  generalize reblogOf s = o at hu hheld hs
  cases hu with
  | absent r hk =>
      refine ⟨hk, fun q hq => ?_⟩
      by_cases hqr : q = r
      · exact hk (hs q (by rw [hqr]) hq)
      · exact hheld q (by simpa using hqr) hq
  | last r =>
      refine ⟨by simp, fun q => ?_⟩
      simp only [Function.update_apply]
      split_ifs with hq
      · simp
      · exact hheld q (by simpa using hq)
  | promoted r other =>
      refine ⟨by simp, fun q => ?_⟩
      simp only [Function.update_apply]
      split_ifs with hq
      · simp
      · exact hheld q (by simpa using hq)
  | post =>
      refine ⟨by simp, fun q => ?_⟩
      simp only [Function.update_apply]
      split_ifs with hq
      · simp
      · exact hheld q (by simp)

/-! ### Bringing a held-back boost back -/

/-- Removing the boost that stands for `r` promotes one of those held back; the
others stay where they are. -/
theorem remove_standing {b r s : ℕ} (hb : b ∈ t.key.members) (hr : reblogOf b = some r)
    (hs : s ∈ t.reblogSet r) (hsb : s ≠ b) :
    let u := step reblogOf t (.remove b)
    u.reblogSet r = (t.reblogSet r).erase b ∧
      ∃ other ∈ u.key.members, other ∈ u.reblogSet r := by
  have hu := removeFromFeed_removed t b (reblogOf b)
  simp only [Feed.step]
  generalize (removeFromFeed t b (reblogOf b) true).2 = u at hu
  rw [hr] at hu
  have hm : s ∈ (t.reblogSet r).erase b := Finset.mem_erase.mpr ⟨hsb, hs⟩
  cases hu with
  | absent _ hk => exact (hk hb).elim
  | last _ _ he => simp [he] at hm
  | promoted _ other _ ho =>
      have hne := (Finset.mem_erase.mp ho).1
      exact ⟨by simp, other, by simp [hne], by simpa using ho⟩

/-- While another boost held back for `r` is shown, removing it leaves fewer; in
the end `s` itself is shown. -/
theorem exists_return {r s : ℕ} (n : ℕ) (h : Tracked reblogOf t)
    (hcard : (t.reblogSet r).card ≤ n) (hs : s ∈ t.reblogSet r)
    (hshown : ∃ b ∈ t.key.members, b ∈ t.reblogSet r) :
    ∃ more : List ℕ, s ∈ (run (step reblogOf) t (more.map .remove)).key.members := by
  induction n generalizing t with
  | zero =>
      have := Finset.card_eq_zero.mp (Nat.le_zero.mp hcard)
      simp [this] at hs
  | succ n ih =>
      obtain ⟨b, hb, hbr⟩ := hshown
      by_cases hsb : s = b
      · exact ⟨[], hsb ▸ hb⟩
      · obtain ⟨hset, hnext⟩ := remove_standing hb (h.heldBack r b hbr).1 hs hsb
        have hlt : ((step reblogOf t (.remove b)).reblogSet r).card ≤ n := by
          have := Finset.card_erase_lt_of_mem hbr
          rw [hset]
          omega
        obtain ⟨more, hmore⟩ := ih (h.step (.remove b)) hlt
          (by rw [hset]; exact Finset.mem_erase.mpr ⟨hsb, hs⟩) hnext
        exact ⟨b :: more, hmore⟩

theorem exists_return_of_held {r s : ℕ} (h : Tracked reblogOf t) (hs : s ∈ t.reblogSet r) :
    ∃ more : List ℕ, s ∈ (run (step reblogOf) t (more.map .remove)).key.members := by
  obtain ⟨hsr, hr⟩ := h.heldBack r s hs
  obtain ⟨x, hx⟩ := mem_members.mp hr
  obtain ⟨b, hb, hbr, -⟩ := h.standing _ hx
  by_cases hsb : s = b
  · exact ⟨[], hsb ▸ hb⟩
  · obtain ⟨hset, hnext⟩ := remove_standing hb hbr hs hsb
    obtain ⟨more, hmore⟩ := exists_return _ (h.step (.remove b)) le_rfl
      (by rw [hset]; exact Finset.mem_erase.mpr ⟨hsb, hs⟩) hnext
    exact ⟨b :: more, hmore⟩

/-- A removed status stays out of the feed until it is pushed again, whatever is
done to the feed, exactly when its removal reached it: a boost held back and not
shown can come back. -/
theorem removed_stays_out_iff (reblogOf : ℕ → Option ℕ) (ops : List Op) (s : ℕ) :
    (∀ more : List Op, (∀ op ∈ more, s ∉ op.pushed) →
      s ∉ (after reblogOf (ops ++ .remove s :: more)).key.members) ↔
    Reached reblogOf (after reblogOf ops) s := by
  have h := tracked_after reblogOf ops
  simp only [after, run_append, run_cons] at h ⊢
  generalize run (step reblogOf) Timeline.empty ops = t at h
  constructor
  · intro hout r hr hs
    by_contra hk
    -- The removal stops at its first test.
    have hstay : step reblogOf t (.remove s) = t := by
      simp [step, removeFromFeed, hr, zrevrank_isNone.mpr hk, Option.filter]
    obtain ⟨more, hmore⟩ := exists_return_of_held h hs
    refine hout (more.map .remove) ?_ (by rwa [hstay])
    simp [Op.pushed]
  · intro hs more hmore
    refine (run_guarded (P := Gone s) ?_ _ more (gone_of_reached h hs)
      (guarded_of_forall _ more hmore)).notShown
    exact fun u op hg hop => hg.step op hop

/-- Two boosts of post 1, the second held back: it is removed first, then the
other, and it is in the feed. -/
theorem removed_boost_returns :
    let reblogOf := fun s : ℕ => if s = 1 then none else some 1
    2 ∉ (after reblogOf [.push 5, .push 2]).key.members ∧
    (∀ op ∈ [Op.remove 5], 2 ∉ op.pushed) ∧
    2 ∈ (after reblogOf [.push 5, .push 2, .remove 2, .remove 5]).key.members := by
  decide

end Eunha.Feed
