import Eunha.FeedInvariant

/-!
# One entry a post among the newest

While nothing is removed, an entry's reverse rank only grows, so two entries of
the same post among the newest would have had to be there when the later one was
added. What rules that out has to outlive the trims, which forget the boosts
past the falloff: every boost still among the newest is the one its post is
tracked with, and the post itself is not among them. Distinct scores are needed
for the trim alone. It forgets by score, and a boost scored as the entry just
past the falloff would be forgotten while it is still among the newest.
-/
namespace Eunha.Feed
open Binary64 Runs ScoredSets ScoredSet

variable {reblogOf : ℕ → Option ℕ} {t : Timeline}

def shown (reblogOf : ℕ → Option ℕ) (s : ℕ) : ℕ := (reblogOf s).getD s

/-- A boost among the newest is the one its post is tracked with, and the post is
not among them as a post. -/
def Aggregated (reblogOf : ℕ → Option ℕ) (t : Timeline) : Prop :=
  ∀ b x r, (⟨b, x⟩ : Entry ℕ) ∈ t.key.top reblogFalloff → reblogOf b = some r →
    (⟨r, asF64 b⟩ : Entry ℕ) ∈ t.reblogs.entries ∧
      ∀ y, (⟨r, y⟩ : Entry ℕ) ∈ t.key.top reblogFalloff → reblogOf r ≠ none

theorem Tracked.mem_top_zadd (h : Tracked reblogOf t) {s a x : ℕ}
    (he : (⟨a, x⟩ : Entry ℕ) ∈ (t.zaddSelf s).key.top reblogFalloff) :
    a = s ∨ (⟨a, x⟩ : Entry ℕ) ∈ t.key.top reblogFalloff :=
  (ScoredSet.mem_top_zadd (fun _ hx => h.scored _ hx) he).imp_left (congrArg Entry.member)

theorem Aggregated.add (ha : Aggregated reblogOf t) (h : Tracked reblogOf t) {s : ℕ}
    {u : Timeline} (hu : Added t s (reblogOf s) u) : Aggregated reblogOf u := by
  generalize ho : reblogOf s = o at hu
  cases hu with
  | out => exact ha
  | heldBack r => exact ha
  | post hs =>
      intro b x r hb hr
      have hb' : (⟨b, x⟩ : Entry ℕ) ∈ t.key.top reblogFalloff := by
        refine (h.mem_top_zadd hb).resolve_left fun he => ?_
        rw [he, ho] at hr
        cases hr
      obtain ⟨ht, hp⟩ := ha b x r hb' hr
      refine ⟨ht, fun y hy => ?_⟩
      rcases h.mem_top_zadd hy with he | hy
      · exact (hs (he ▸ member_mem ht)).elim
      · exact hp y hy
  | first r hr hrt =>
      intro b x q hb hq
      -- A post that was not among the newest is there now only as the boost just added.
      have hpost : ∀ y, (⟨q, y⟩ : Entry ℕ) ∈ (t.zaddSelf s).key.top reblogFalloff →
          (⟨q, y⟩ : Entry ℕ) ∈ t.key.top reblogFalloff ∨ reblogOf q ≠ none := by
        intro y hy
        rcases h.mem_top_zadd hy with he | hy
        · exact Or.inr (by rw [he, ho]; simp)
        · exact Or.inl hy
      rcases h.mem_top_zadd hb with rfl | hb
      · obtain rfl : r = q := Option.some.inj (ho.symm.trans hq)
        exact ⟨mem_place.mpr (Or.inl rfl), fun y hy => (hpost y hy).resolve_left (hr y)⟩
      · obtain ⟨ht, hp⟩ := ha b x q hb hq
        have hne : q ≠ r := fun hqr => hrt (hqr ▸ member_mem ht)
        refine ⟨mem_place.mpr (Or.inr ⟨ht, hne⟩), fun y hy => ?_⟩
        rcases hpost y hy with hy | hy
        · exact hp y hy
        · exact hy

theorem Aggregated.trim (ha : Aggregated reblogOf t) (h : Tracked reblogOf t)
    (hd : ∀ a ∈ t.key.members, ∀ b ∈ t.key.members, asF64 a = asF64 b → a = b) :
    Aggregated reblogOf (trim t) := by
  intro b x r hb hr
  rw [trim_key, top_zremrangebyrank _ (by decide)] at hb ⊢
  obtain ⟨ht, hp⟩ := ha b x r hb hr
  refine ⟨mem_trim_reblogs.mpr ⟨ht, fun f hf => ?_⟩, hp⟩
  have hx : x = asF64 b := h.scored _ (top_subset hb)
  have hfm : f ∈ t.key.entries := List.mem_of_getElem? hf
  have hle : f.score ≤ x := score_le_of_mem_top hf hb
  refine lt_of_le_of_ne (hx ▸ hle) fun heq => not_mem_top hf ?_
  have hfb : f.member = b :=
    hd _ (member_mem hfm) b (member_mem (top_subset hb)) ((h.scored f hfm).symm.trans heq)
  exact entry_eq hfm (top_subset hb) hfb ▸ hb

theorem Aggregated.unique (ha : Aggregated reblogOf t)
    (hd : ∀ a ∈ t.key.members, ∀ b ∈ t.key.members, asF64 a = asF64 b → a = b) {a b x y : ℕ}
    (hat : (⟨a, x⟩ : Entry ℕ) ∈ t.key.top reblogFalloff)
    (hbt : (⟨b, y⟩ : Entry ℕ) ∈ t.key.top reblogFalloff)
    (hs : shown reblogOf a = shown reblogOf b) : a = b := by
  unfold shown at hs
  cases hra : reblogOf a with
  | none =>
      cases hrb : reblogOf b with
      | none => simpa [hra, hrb] using hs
      | some r =>
          obtain rfl : a = r := by simpa [hra, hrb] using hs
          exact ((ha b y a hbt hrb).2 x hat hra).elim
  | some r =>
      cases hrb : reblogOf b with
      | none =>
          obtain rfl : r = b := by simpa [hra, hrb] using hs
          exact ((ha a x r hat hra).2 y hbt hrb).elim
      | some q =>
          obtain rfl : r = q := by simpa [hra, hrb] using hs
          have hscore := entry_eq (ha a x r hat hra).1 (ha b y r hbt hrb).1 rfl
          exact hd a (member_mem (top_subset hat)) b (member_mem (top_subset hbt))
            (congrArg Entry.score hscore)

/-! ### Runs without removals -/

/-- The invariant of such a run whose statuses are among `ss`. -/
structure Filling (reblogOf : ℕ → Option ℕ) (ss : List ℕ) (t : Timeline) : Prop where
  tracked : Tracked reblogOf t
  aggregated : Aggregated reblogOf t
  known : ∀ a ∈ t.key.members, a ∈ ss

theorem filling_empty (ss : List ℕ) : Filling reblogOf ss .empty := by
  refine ⟨tracked_empty, ?_, ?_⟩
  · intro b x r hb
    simp [Timeline.empty, top] at hb
  · simp [Timeline.empty]

variable {ss : List ℕ}

theorem Filling.add (h : Filling reblogOf ss t) {s : ℕ} (hs : s ∈ ss) {u : Timeline}
    (hu : Added t s (reblogOf s) u) : Filling reblogOf ss u := by
  refine ⟨h.tracked.add hu, h.aggregated.add h.tracked hu, ?_⟩
  have hadd : ∀ a ∈ (t.zaddSelf s).key.members, a ∈ ss := by
    intro a ha
    rcases mem_members_zadd.mp ha with rfl | ha
    · exact hs
    · exact h.known a ha
  generalize reblogOf s = o at hu
  cases hu with
  | out => exact h.known
  | heldBack => exact h.known
  | post => exact hadd
  | first => exact hadd

theorem Filling.addEach (h : Filling reblogOf ss t) (batch : List ℕ) (hb : ∀ s ∈ batch, s ∈ ss) :
    Filling reblogOf ss (addEach t (batch.map fun s => (s, reblogOf s)) true) := by
  induction batch generalizing t with
  | nil => exact h
  | cons s batch ih =>
      exact ih (h.add (hb s (by simp)) (addToFeed_added t s (reblogOf s)))
        (fun a ha => hb a (by simp [ha]))

section
variable (hd : ∀ a ∈ ss, ∀ b ∈ ss, asF64 a = asF64 b → a = b)
include hd

theorem Filling.distinct (h : Filling reblogOf ss t) :
    ∀ a ∈ t.key.members, ∀ b ∈ t.key.members, asF64 a = asF64 b → a = b :=
  fun a ha b hb => hd a (h.known a ha) b (h.known b hb)

theorem Filling.trim (h : Filling reblogOf ss t) : Filling reblogOf ss (trim t) := by
  refine ⟨h.tracked.trim, h.aggregated.trim h.tracked (h.distinct hd), fun a ha => ?_⟩
  rw [trim_key] at ha
  obtain ⟨x, hx⟩ := mem_members.mp ha
  exact h.known a (mem_members.mpr ⟨x, List.mem_of_mem_take hx⟩)

theorem Filling.step (h : Filling reblogOf ss t) (op : Op)
    (hop : (∀ s, op ≠ .remove s) ∧ ∀ s ∈ op.pushed, s ∈ ss) :
    Filling reblogOf ss (step reblogOf t op) := by
  cases op with
  | push s =>
      have ha := h.add (hop.2 s (by simp [Op.pushed])) (addToFeed_added t s (reblogOf s))
      simp only [Feed.step, push]
      split_ifs
      · exact ha.trim hd
      · exact ha
  | addAll batch => exact (h.addEach batch hop.2).trim hd
  | trim => exact h.trim hd
  | remove s => exact (hop.1 s rfl).elim

end

/-- At every point of a run without removals, within a batch too, no two of the
newest `reblogFalloff` members show the same post. -/
theorem newest_show_distinct_posts (reblogOf : ℕ → Option ℕ) (ops : List Op) (batch : List ℕ)
    (hops : ∀ s, Op.remove s ∉ ops)
    (hd : ∀ a ∈ ops.flatMap Op.pushed ++ batch, ∀ b ∈ ops.flatMap Op.pushed ++ batch,
      asF64 a = asF64 b → a = b) :
    let t := addEach (after reblogOf ops) (batch.map fun s => (s, reblogOf s)) true
    ∀ a ∈ t.key.members.take reblogFalloff, ∀ b ∈ t.key.members.take reblogFalloff,
      a ≠ b → shown reblogOf a ≠ shown reblogOf b := by
  have hrun : Filling reblogOf (ops.flatMap Op.pushed ++ batch) (after reblogOf ops) := by
    refine run_guarded (fun t op h hop => h.step hd op hop) _ ops (filling_empty _)
      (guarded_of_forall _ ops fun op hop => ⟨?_, fun s hs => ?_⟩)
    · exact fun s he => hops s (he ▸ hop)
    · exact List.mem_append_left _ (List.mem_flatMap.mpr ⟨op, hop, hs⟩)
  have h := hrun.addEach batch fun s hs => List.mem_append_right _ hs
  intro t a ha b hb hne hs
  simp only [members, ← List.map_take, List.mem_map] at ha hb
  obtain ⟨e, he, rfl⟩ := ha
  obtain ⟨f, hf, rfl⟩ := hb
  exact hne (h.aggregated.unique (h.distinct hd) he hf hs)

/-- Post 1 comes after its boosts 5 and 2; only boost 5 is shown. -/
theorem newest_show_distinct_posts_late_post :
    let reblogOf := fun s : ℕ => if s = 2 ∨ s = 5 then some 1 else none
    let t := addEach (after reblogOf [.push 5, .addAll [2, 9]])
      ([1].map fun s => (s, reblogOf s)) true
    t.key.members = [9, 5] ∧
    ∀ a ∈ t.key.members.take reblogFalloff, ∀ b ∈ t.key.members.take reblogFalloff,
      a ≠ b → shown reblogOf a ≠ shown reblogOf b :=
  ⟨by decide, newest_show_distinct_posts _ [.push 5, .addAll [2, 9]] [1] (by simp) (by decide)⟩

end Eunha.Feed
