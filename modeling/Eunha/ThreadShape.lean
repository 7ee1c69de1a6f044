import Mathlib
import Eunha.Precedence
import Eunha.Privacy

/-!
# The shape of a thread

The ancestors of a status come in order of their ids, cut from the low end, so they are
its nearest in the order of the thread only where ids rise along it and those that are
cut off have greater ids. A federated parent fetched after its reply has the greater id.

The descendants come depth first, by ids, and then the replies of authors to themselves
are brought to the front of the whole list. Such a reply stands before its parent when the
parent is another's.
-/
namespace Eunha.ThreadShape
open Tables Database ReplyThreads StatusReads Forests Precedence Privacy

/-! ### Threads -/

/-- A status in a forest of kept statuses, each of which the viewer is shown. -/
structure Thread where
  world : World
  viewer : Option ℕ
  root : Status
  kept : world.db.keptStatus root.id = some root
  ends : ∀ s ∈ world.db.statuses.rows, Rooted (keptParent world.db) s
  shown : ∀ s ∈ world.db.statuses.rows, s.deleted = false → inThread world viewer s = true

/-- Limits of which the depth is one at least, as those of the source are. -/
structure ThreadLimits extends Limits where
  deep : 0 < depth

def limitsFor (viewer : Option ℕ) : ThreadLimits where
  toLimits := threadLimits viewer
  deep := by
    cases viewer with
    | none => decide
    | some id =>
        change 0 < 4096
        decide

/-- The rows `get_status_context` shows, the ancestors and the descendants. -/
def Thread.rows (t : Thread) (limits : Limits) (fuel : ℕ) : Option (List Status × List Status) :=
  (ancestors t.world.db t.root.id limits.ancestors fuel).map fun above =>
    (above.filter (inThread t.world t.viewer),
      promote t.world ((descendants t.world.db t.root.id limits.descendants limits.depth).filter
        (inThread t.world t.viewer)))

/-! ### What is said of a thread -/

/-- The ancestors of a status, the nearest first. -/
inductive Line (db : Db) : Status → List Status → Prop
  | top {s} : keptParent db s = none → Line db s []
  | up {s p line} : keptParent db s = some p → Line db p line → Line db s (p :: line)

def Trail (db : Db) (root c : Status) (ids : List ℕ) : Prop :=
  ∃ k, 0 < k ∧ climb (keptParent db) k c = some root ∧
    ids = ((Forests.path (keptParent db) k c).map (·.id)).reverse

/-- The order of the paths, a path before those that go on from it. -/
def Earlier (p q : List ℕ) : Prop := @LT.lt (List ℕ) List.instLT p q

/-- A reply of an author to themselves. -/
def toSelf (w : World) (s : Status) : Bool := w.replyAuthors s.id = some s.accountId

structure AsClaimed (t : Thread) (limits : Limits) (above below : List Status) : Prop where
  nearest : ∀ line, Line t.world.db t.root line →
    above = (line.take limits.ancestors).reverse
  distinct : below.Nodup
  within : ∀ c ∈ below, ∃ ids, Trail t.world.db t.root c ids ∧ ids.length ≤ limits.depth
  few : below.length ≤ limits.descendants
  afterParent : ∀ c ∈ below, ∀ p ∈ below, keptParent t.world.db c = some p → Before below p c
  front : ∀ a ∈ below, ∀ b ∈ below, keptParent t.world.db a = keptParent t.world.db b →
    toSelf t.world a = true → toSelf t.world b = false → Before below a b
  stable : ∀ a ∈ below, ∀ b ∈ below, keptParent t.world.db a = keptParent t.world.db b →
    toSelf t.world a = toSelf t.world b → a.id < b.id → Before below a b

/-- What holds of them. -/
structure Shape (t : Thread) (limits : Limits) (above below : List Status) : Prop where
  ancestors : ∀ line, Line t.world.db t.root line →
    above.Nodup ∧ (∀ s ∈ above, s ∈ line) ∧
      above.length = min limits.ancestors line.length ∧
      (Falls (·.id) limits.ancestors line → above = (line.take limits.ancestors).reverse ∧
        (above ++ [t.root]).IsChain fun p c => keptParent t.world.db c = some p)
  distinct : below.Nodup
  within : ∀ c ∈ below, ∃ ids, Trail t.world.db t.root c ids ∧ ids.length ≤ limits.depth
  few : below.length ≤ limits.descendants
  /-- A parent stands before its reply, unless only the reply is brought to the front. -/
  afterParent : ∀ c ∈ below, ∀ p ∈ below, keptParent t.world.db c = some p →
    (toSelf t.world c = true → toSelf t.world p = true) → Before below p c
  front : ∀ a ∈ below, ∀ b ∈ below, toSelf t.world a = true → toSelf t.world b = false →
    Before below a b
  /-- Those of one kind stay depth first, by ids. -/
  stable : ∀ a ∈ below, ∀ b ∈ below, ∀ ids ids', Trail t.world.db t.root a ids →
    Trail t.world.db t.root b ids' → toSelf t.world a = toSelf t.world b → Earlier ids ids' →
    Before below a b

/-! ### The ancestors -/

theorem line_of_climb {db : Db} {s : Status} {n : ℕ} (h : climb (keptParent db) n s = none) :
    ∃ line, Forests.path (keptParent db) n s = s :: line ∧ Line db s line := by
  induction n generalizing s with
  | zero => cases h
  | succ n ih =>
      rw [climb_succ] at h
      cases hp : keptParent db s with
      | none => exact ⟨[], by rw [Forests.path, hp]; rfl, .top hp⟩
      | some p =>
          rw [hp] at h
          obtain ⟨line, hpath, hline⟩ := ih h
          refine ⟨p :: line, ?_, .up hp hline⟩
          rw [Forests.path, hp, ← hpath]
          rfl

theorem Line.unique {db : Db} {s : Status} {line line' : List Status} (h : Line db s line)
    (h' : Line db s line') : line = line' := by
  induction h generalizing line' with
  | top hnone =>
      cases h' with
      | top => rfl
      | up hp => rw [hnone] at hp; cases hp
  | up hp hline ih =>
      cases h' with
      | top hnone => rw [hnone] at hp; cases hp
      | up hp' hline' =>
          rw [hp] at hp'
          cases hp'
          rw [ih hline']

theorem Line.isChain {db : Db} {s : Status} {line : List Status} (h : Line db s line) :
    (s :: line).IsChain fun c p => keptParent db c = some p := by
  induction h with
  | top => exact .singleton _
  | up hp hline ih => exact List.isChain_cons_cons.mpr ⟨hp, ih⟩

theorem keptStatus_row {db : Db} {id : ℕ} {s : Status} (h : db.keptStatus id = some s) :
    s ∈ db.statuses.rows ∧ s.deleted = false :=
  ⟨(Db.keptStatus_mem h).1, (Db.keptStatus_mem h).2.2⟩

theorem Line.row {db : Db} {s : Status} {line : List Status} (h : Line db s line) :
    ∀ c ∈ line, c ∈ db.statuses.rows ∧ c.deleted = false := by
  induction h with
  | top => exact fun c hc => absurd hc List.not_mem_nil
  | up hp hline ih =>
      intro c hc
      obtain ⟨i, _, hkept⟩ := Option.bind_eq_some_iff.mp hp
      rcases List.mem_cons.mp hc with rfl | hc
      · exact keptStatus_row hkept
      · exact ih c hc

theorem inj_of_rows {db : Db} {l : List Status} (h : ∀ c ∈ l, c ∈ db.statuses.rows) :
    ∀ a ∈ l, ∀ b ∈ l, a.id = b.id → a = b :=
  fun a ha b hb hid => StatusCounts.eq_of_id (h a ha) (h b hb) hid

variable (t : Thread)

theorem Thread.root_row : t.root ∈ t.world.db.statuses.rows := (Db.keptStatus_mem t.kept).1

theorem Thread.filter_shown {l : List Status}
    (h : ∀ c ∈ l, c ∈ t.world.db.statuses.rows ∧ c.deleted = false) :
    l.filter (inThread t.world t.viewer) = l :=
  List.filter_eq_self.mpr fun c hc => t.shown c (h c hc).1 (h c hc).2

theorem Thread.ancestors_eq (limit : ℕ) :
    ∃ line, Line t.world.db t.root line ∧ line.Nodup ∧
      (∃ fuel, (ancestors t.world.db t.root.id limit fuel).isSome) ∧
      ∀ fuel above, ancestors t.world.db t.root.id limit fuel = some above →
        above = (sortBy (·.id) line).take limit := by
  obtain ⟨n, hn⟩ := t.ends t.root t.root_row
  obtain ⟨line, hpath, hline⟩ := line_of_climb hn
  have hnodup := nodup_path hn
  rw [hpath, List.nodup_cons] at hnodup
  obtain ⟨⟨fuel, hfuel⟩, honly⟩ := ancestorChain_of_rooted t.kept hn
  refine ⟨line, hline, hnodup.2, ⟨fuel, ?_⟩, fun fuel above habove => ?_⟩
  · rw [ancestors, hfuel]
    rfl
  · obtain ⟨chain, hchain, rfl⟩ := Option.map_eq_some_iff.mp habove
    have hrest : (t.root :: line).filter (·.id ≠ t.root.id) = line := by
      rw [List.filter_cons_of_neg (by simp)]
      refine List.filter_eq_self.mpr fun c hc => ?_
      have hne : c.id ≠ t.root.id := fun hid =>
        hnodup.1 (StatusCounts.eq_of_id (hline.row c hc).1 t.root_row hid ▸ hc)
      simpa using hne
    rw [honly fuel chain hchain, hpath, hrest]
    rfl

/-! ### The paths to the descendants -/

theorem Earlier.asymm {p q : List ℕ} (h : Earlier p q) : ¬Earlier q p := List.lt_asymm h

theorem earlier_of_le {p q : List ℕ} (h : @LE.le (List ℕ) List.instLE p q) (hne : p ≠ q) :
    Earlier p q :=
  (List.le_iff_lt_or_eq.mp h).resolve_right hne

theorem earlier_snoc (p : List ℕ) (i : ℕ) : Earlier p (p ++ [i]) := by
  have h : @LT.lt (List ℕ) List.instLT (p ++ []) (p ++ [i]) :=
    List.append_left_lt (List.nil_lt_cons i [])
  rw [List.append_nil] at h
  exact h

theorem length_replyTree {rows : List Status} {depth id : ℕ} {path p : List ℕ}
    (h : p ∈ replyTree rows depth path id) :
    path.length < p.length ∧ p.length ≤ path.length + depth := by
  induction depth generalizing path id with
  | zero => cases h
  | succ depth ih =>
      rw [replyTree, List.mem_flatMap] at h
      obtain ⟨c, _, hp⟩ := h
      rcases List.mem_cons.mp hp with rfl | hp
      · rw [List.length_append, List.length_singleton]
        omega
      · have hlen := ih hp
        rw [List.length_append, List.length_singleton] at hlen
        omega

theorem nodup_replyTree (db : Db) (depth id : ℕ) (path : List ℕ) :
    (replyTree db.statuses.rows depth path id).Nodup := by
  induction depth generalizing path id with
  | zero => exact List.nodup_nil
  | succ depth ih =>
      rw [replyTree, List.nodup_flatMap]
      constructor
      · intro c _
        apply List.nodup_cons.mpr
        exact ⟨fun h => lt_irrefl _ (length_replyTree h).1, ih _ _⟩
      · have hrows : db.statuses.rows.Nodup := db.statuses.nodup fun r => by simp [Status.keys]
        have hkids := (hrows.filter fun s => s.inReplyToId = some id ∧ s.deleted = false).filter
          fun s => s.id ∉ path
        refine List.Pairwise.imp_of_mem (fun {c d} hc hd hne => ?_) hkids
        -- a path under one reply goes through that reply
        have hthrough : ∀ (c : Status) (p : List ℕ), p ∈ (path ++ [c.id]) ::
            replyTree db.statuses.rows depth (path ++ [c.id]) c.id → path ++ [c.id] <+: p := by
          intro c p hp
          rcases List.mem_cons.mp hp with rfl | hp
          · exact List.prefix_refl _
          · exact prefix_of_mem_replyTree hp
        intro p hpc hpd
        have hsame := List.prefix_of_prefix_length_le (hthrough c p hpc) (hthrough d p hpd)
          (by simp)
        have hid : c.id = d.id := by simpa using hsame.eq_of_length (by simp)
        have hrow : ∀ e ∈ ((replies db.statuses.rows id).filter fun s => s.id ∉ path),
            e ∈ db.statuses.rows := fun e he =>
          List.mem_of_mem_filter (List.mem_of_mem_filter he)
        exact hne (StatusCounts.eq_of_id (hrow c hc) (hrow d hd) hid)

theorem sortedTree_earlier (db : Db) (id depth : ℕ) :
    (sortedTree db id depth).Pairwise Earlier := by
  let le (p q : List ℕ) : Bool := decide (@LE.le (List ℕ) List.instLE p q)
  have htrans : ∀ p q r, le p q = true → le q r = true → le p r = true := fun p q r hpq hqr =>
    decide_eq_true (List.le_trans (of_decide_eq_true hpq) (of_decide_eq_true hqr))
  have htotal : ∀ p q, (le p q || le q p) = true := fun p q => by
    simpa [le] using List.le_total p q
  have hsorted : (sortedTree db id depth).Pairwise fun p q => le p q = true :=
    List.pairwise_mergeSort htrans htotal _
  have hnodup : (sortedTree db id depth).Nodup :=
    (List.mergeSort_perm _ _).nodup_iff.mpr (nodup_replyTree db depth id [])
  exact (hsorted.and hnodup).imp fun h => earlier_of_le (of_decide_eq_true h.1) h.2

theorem Thread.trail_of_mem {depth : ℕ} {p : List ℕ}
    (h : p ∈ sortedTree t.world.db t.root.id depth) :
    (∃ c, endOf t.world.db p = some c ∧ Trail t.world.db t.root c p) ∧ p.length ≤ depth := by
  have hp := (List.mergeSort_perm _ _).mem_iff.mp h
  obtain ⟨tail, c, htail, hne, hend, hclimb, hpath⟩ := climb_of_mem_replyTree t.kept hp
  rw [List.nil_append] at htail
  subst htail
  refine ⟨⟨c, hend, p.length, List.length_pos_iff.mpr hne, hclimb, hpath⟩, ?_⟩
  have hlen := (length_replyTree hp).2
  rwa [List.length_nil, Nat.zero_add] at hlen

theorem Thread.trail_unique {c : Status} (hc : c ∈ t.world.db.statuses.rows) {ids ids' : List ℕ}
    (h : Trail t.world.db t.root c ids) (h' : Trail t.world.db t.root c ids') : ids = ids' := by
  obtain ⟨j, _, hj, rfl⟩ := h
  obtain ⟨k, _, hk, rfl⟩ := h'
  rw [(t.ends c hc).met_once hj hk]

theorem Thread.trail_of_parent {c p : Status} {ids ids' : List ℕ}
    (hc : c ∈ t.world.db.statuses.rows) (hparent : keptParent t.world.db c = some p)
    (hp : Trail t.world.db t.root p ids) (h : Trail t.world.db t.root c ids') :
    ids' = ids ++ [c.id] := by
  obtain ⟨k, _, hk, rfl⟩ := hp
  refine t.trail_unique hc h ⟨k + 1, Nat.succ_pos k, ?_, ?_⟩
  · rw [climb_succ, hparent]
    exact hk
  · rw [Forests.path, hparent, List.map_cons, List.reverse_cons]
    rfl

/-! ### The descendants -/

section
variable (limit depth : ℕ)

/-- The descendants read, depth first by ids. -/
def Thread.tree : List Status := descendants t.world.db t.root.id limit depth

theorem Thread.mem_tree {c : Status} (h : c ∈ t.tree limit depth) :
    (c ∈ t.world.db.statuses.rows ∧ c.deleted = false) ∧
      ∃ ids, Trail t.world.db t.root c ids ∧ ids.length ≤ depth := by
  obtain ⟨p, hp, hend⟩ := List.mem_filterMap.mp h
  obtain ⟨⟨d, hd, htrail⟩, hlen⟩ := t.trail_of_mem (List.mem_of_mem_take hp)
  obtain rfl : c = d := Option.some.inj (hend.symm.trans hd)
  obtain ⟨i, _, hkept⟩ := Option.bind_eq_some_iff.mp hend
  exact ⟨keptStatus_row hkept, p, htrail, hlen⟩

theorem Thread.tree_earlier : (t.tree limit depth).Pairwise fun a b =>
    ∀ ids ids', Trail t.world.db t.root a ids → Trail t.world.db t.root b ids' →
      Earlier ids ids' := by
  rw [Thread.tree, descendants, List.pairwise_filterMap]
  have hsorted := (sortedTree_earlier t.world.db t.root.id depth).sublist
    (List.take_sublist limit _)
  refine List.Pairwise.imp_of_mem (fun {p q} hp hq hpq a ha b hb ids ids' hids hids' => ?_) hsorted
  obtain ⟨⟨c, hc, htrail⟩, _⟩ := t.trail_of_mem (List.mem_of_mem_take hp)
  obtain ⟨⟨d, hd, htrail'⟩, _⟩ := t.trail_of_mem (List.mem_of_mem_take hq)
  obtain rfl : a = c := Option.some.inj (ha.symm.trans hc)
  obtain rfl : b = d := Option.some.inj (hb.symm.trans hd)
  rw [t.trail_unique (endOf_mem ha) hids htrail, t.trail_unique (endOf_mem hb) hids' htrail']
  exact hpq

theorem Thread.tree_nodup : (t.tree limit depth).Nodup := by
  refine List.Pairwise.imp_of_mem (fun {a b} ha hb h => ?_) (t.tree_earlier limit depth)
  rintro rfl
  obtain ⟨_, ids, hids, _⟩ := t.mem_tree limit depth ha
  exact (h ids ids hids hids).asymm (h ids ids hids hids)

theorem Thread.length_tree : (t.tree limit depth).length ≤ limit :=
  (List.length_filterMap_le _ _).trans (List.length_take_le _ _)

theorem Thread.tree_before {a b : Status} (ha : a ∈ t.tree limit depth)
    (hb : b ∈ t.tree limit depth) {ids ids' : List ℕ} (hids : Trail t.world.db t.root a ids)
    (hids' : Trail t.world.db t.root b ids') (h : Earlier ids ids') :
    Before (t.tree limit depth) a b := by
  refine before_of_rel (t.tree_earlier limit depth) ha hb ?_ fun hback => ?_
  · rintro rfl
    rw [t.trail_unique (t.mem_tree limit depth ha).1.1 hids hids'] at h
    exact h.asymm h
  · exact h.asymm (hback ids' ids hids' hids)

end

/-! ### Promotion -/

variable (w : World) {l : List Status} {a b : Status}

theorem promote_perm (l : List Status) : (promote w l).Perm l := List.filter_append_perm _ l

theorem before_promote_front (ha : a ∈ l) (hb : b ∈ l) (hself : toSelf w a = true)
    (hother : toSelf w b = false) : Before (promote w l) a b := by
  apply before_append
  · exact List.mem_filter.mpr ⟨ha, hself⟩
  · exact List.mem_filter.mpr ⟨hb, congrArg (!·) hother⟩

theorem before_promote_same (h : Before l a b) (hsame : toSelf w a = toSelf w b) :
    Before (promote w l) a b := by
  cases hself : toSelf w a with
  | true => exact (h.filter hself (hsame ▸ hself)).mono (List.sublist_append_left _ _)
  | false =>
      have hb : toSelf w b = false := hsame ▸ hself
      exact (h.filter (congrArg (!·) hself) (congrArg (!·) hb)).mono
        (List.sublist_append_right _ _)

/-! ### The shape -/

theorem Thread.ancestors_shape (limit : ℕ) {line : List Status}
    (hline : Line t.world.db t.root line) (hnodup : line.Nodup) :
    ((sortBy (·.id) line).take limit).Nodup ∧
      (∀ s ∈ (sortBy (·.id) line).take limit, s ∈ line) ∧
      ((sortBy (·.id) line).take limit).length = min limit line.length ∧
      (Falls (·.id) limit line →
        (sortBy (·.id) line).take limit = (line.take limit).reverse ∧
        ((sortBy (·.id) line).take limit ++ [t.root]).IsChain
          fun p c => keptParent t.world.db c = some p) := by
  have hperm := sortBy_perm (fun s : Status => s.id) line
  refine ⟨?_, fun s hs => hperm.mem_iff.mp (List.mem_of_mem_take hs), ?_, fun hfalls => ?_⟩
  · exact (hperm.nodup_iff.mpr hnodup).sublist (List.take_sublist limit _)
  · rw [List.length_take, hperm.length_eq]
  · have hnear := take_sortBy_of_falls (inj_of_rows fun c hc => (hline.row c hc).1) hfalls
    refine ⟨hnear, ?_⟩
    have hchain : (t.root :: line.take limit).IsChain
        fun c p => keptParent t.world.db c = some p :=
      hline.isChain.take (limit + 1)
    rw [hnear, ← List.reverse_cons]
    exact List.isChain_reverse.mpr hchain

theorem aliceAndBob_distinct :
    [localAccount 1 "alice", localAccount 2 "bob"].Pairwise
      fun r s => ¬ Clash Database.Account.keys r s := by
  decide

/-- Another's reply to a status, and that author's reply to themselves. -/
def selfReplied : Thread where
  world :=
    { db :=
        { Db.empty with
          accounts := { rows := [localAccount 1 "alice", localAccount 2 "bob"],
                        distinct := aliceAndBob_distinct }
          statuses := { rows := [noteOf 1 1 .pub, { noteOf 2 2 .pub with inReplyToId := some 1 },
                          { noteOf 3 2 .pub with inReplyToId := some 2 }],
                        distinct := by decide } }
      mentions := []
      mutes := []
      polls := { polls := .empty, pollVotes := [] }
      quotes := .empty
      conversations := some
      replyAuthors := fun id => if id = 2 then some 1 else if id = 3 then some 2 else none
      cards := fun _ => none
      authors := by decide }
  viewer := none
  root := noteOf 1 1 .pub
  kept := rfl
  ends := by
    intro s hs
    refine ⟨3, ?_⟩
    revert s
    decide
  shown := by decide

theorem selfReplied_tree : sortedTree selfReplied.world.db 1 20 = [[2], [2, 3]] := by
  have htree : replyTree selfReplied.world.db.statuses.rows 20 [] 1 = [[2], [2, 3]] := by decide
  rw [sortedTree, htree]
  exact List.mergeSort_of_pairwise (by decide)

/-- The reply of the author to themselves comes before what it replies to. -/
theorem selfReply_first :
    selfReplied.rows (limitsFor none).toLimits 2 = some ([],
      [{ noteOf 3 2 .pub with inReplyToId := some 2 },
        { noteOf 2 2 .pub with inReplyToId := some 1 }]) ∧
    ¬∀ fuel above below,
      selfReplied.rows (limitsFor none).toLimits fuel = some (above, below) →
        AsClaimed selfReplied (limitsFor none).toLimits above below := by
  have hrows : selfReplied.rows (limitsFor none).toLimits 2 = some ([],
      [{ noteOf 3 2 .pub with inReplyToId := some 2 },
        { noteOf 2 2 .pub with inReplyToId := some 1 }]) := by
    have habove : ancestors selfReplied.world.db 1 40 2 = some [] := by decide +kernel
    have hbelow : descendants selfReplied.world.db 1 60 20 =
        [{ noteOf 2 2 .pub with inReplyToId := some 1 },
          { noteOf 3 2 .pub with inReplyToId := some 2 }] := by
      rw [descendants, selfReplied_tree]
      decide
    change (ancestors selfReplied.world.db 1 40 2).map _ = _
    rw [habove]
    change some ([], promote _ ((descendants selfReplied.world.db 1 60 20).filter _)) = _
    rw [hbelow]
    decide
  refine ⟨hrows, fun h => ?_⟩
  have hbefore := (h 2 _ _ hrows).afterParent { noteOf 3 2 .pub with inReplyToId := some 2 }
    List.mem_cons_self { noteOf 2 2 .pub with inReplyToId := some 1 }
    (List.mem_cons_of_mem _ List.mem_cons_self) rfl
  revert hbefore
  rw [Before]
  decide

/-- A thread's rows have their shape, whatever the ids and the limits. -/
theorem thread_shape (t : Thread) (limits : ThreadLimits) :
    (∃ fuel, (t.rows limits.toLimits fuel).isSome) ∧
      ∀ fuel above below, t.rows limits.toLimits fuel = some (above, below) →
        Shape t limits.toLimits above below := by
  obtain ⟨line, hline, hnodup, ⟨fuel, hfuel⟩, hrows⟩ := t.ancestors_eq limits.ancestors
  refine ⟨⟨fuel, by rw [Thread.rows, Option.isSome_map]; exact hfuel⟩,
    fun fuel above below h => ?_⟩
  obtain ⟨read, hread, hpair⟩ := Option.map_eq_some_iff.mp h
  obtain rfl := hrows fuel read hread
  obtain ⟨hdistinct, hmem, hlength, hnear⟩ := t.ancestors_shape limits.ancestors hline
    hnodup
  obtain ⟨habove, hbelow⟩ := Prod.mk.inj hpair
  rw [t.filter_shown fun c hc => hline.row c (hmem c hc)] at habove
  have hkept : ∀ c ∈ t.tree limits.descendants limits.depth,
      c ∈ t.world.db.statuses.rows ∧ c.deleted = false := fun c hc => (t.mem_tree _ _ hc).1
  rw [← Thread.tree, t.filter_shown hkept] at hbelow
  have hperm := promote_perm t.world (t.tree limits.descendants limits.depth)
  have hin : ∀ c ∈ below, c ∈ t.tree limits.descendants limits.depth := by
    rw [← hbelow]
    exact fun c hc => hperm.mem_iff.mp hc
  have hstable : ∀ a ∈ below, ∀ b ∈ below, ∀ ids ids', Trail t.world.db t.root a ids →
      Trail t.world.db t.root b ids' → toSelf t.world a = toSelf t.world b →
      Earlier ids ids' → Before below a b := by
    intro a ha b hb ids ids' hids hids' hsame hearlier
    rw [← hbelow]
    exact before_promote_same t.world
      (t.tree_before _ _ (hin a ha) (hin b hb) hids hids' hearlier) hsame
  have hfront : ∀ a ∈ below, ∀ b ∈ below, toSelf t.world a = true → toSelf t.world b = false →
      Before below a b := by
    intro a ha b hb hself hother
    rw [← hbelow]
    exact before_promote_front t.world (hin a ha) (hin b hb) hself hother
  constructor
  · intro line' hline'
    rw [← habove, ← hline.unique hline']
    exact ⟨hdistinct, hmem, hlength, hnear⟩
  · rw [← hbelow, hperm.nodup_iff]
    exact t.tree_nodup _ _
  · exact fun c hc => (t.mem_tree _ _ (hin c hc)).2
  · rw [← hbelow, hperm.length_eq]
    exact t.length_tree _ _
  · intro c hc p hp hparent himp
    obtain ⟨⟨hrow, _⟩, ids', hids', _⟩ := t.mem_tree _ _ (hin c hc)
    obtain ⟨_, ids, hids, _⟩ := t.mem_tree _ _ (hin p hp)
    have hon := t.trail_of_parent hrow hparent hids hids'
    by_cases hsame : toSelf t.world p = toSelf t.world c
    · exact hstable p hp c hc ids ids' hids hids' hsame (hon ▸ earlier_snoc ids c.id)
    · -- the parent alone is brought to the front
      have hc' : toSelf t.world c = false := by
        cases hself : toSelf t.world c with
        | false => rfl
        | true => exact absurd ((himp hself).trans hself.symm) hsame
      have hp' : toSelf t.world p = true := by
        cases hself : toSelf t.world p with
        | false => exact absurd (hself.trans hc'.symm) hsame
        | true => rfl
      exact hfront p hp c hc hp' hc'
  · exact hfront
  · exact hstable

end Eunha.ThreadShape
