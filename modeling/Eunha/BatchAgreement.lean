import Eunha.StatusBatches
import Eunha.StatusCounts

/-!
# The batch agrees with the single status

What the batch looks up for a status it read is what a query for that status alone finds, so
it shows the statuses asked for that are kept and that the viewer may see, each once and in
the order asked for. A status is shown as `get_status` shows it when its author is available
and it has nothing that only `get_status` fills in.
-/
namespace Eunha.BatchAgreement
open Tables Database BatchReads StatusBatches
open StatusReads (Shown ReadError notFound blockedFrom visibleTo inThread quoteData pollFromDb)
open Polls (Poll)

variable {w : World} {viewer : Option ℕ} {now : ℤ} {statuses : List Status} {s : Status}

/-! ### Who may see it -/

theorem any_mem_map {α : Type} {l : List α} {f : α → ℕ} {n : ℕ} :
    n ∈ l.map f ↔ (l.any fun a => decide (f a = n)) = true := by
  simp

theorem mem_blockedAccountIds {id : ℕ} (hs : s ∈ statuses) (hne : s.accountId ≠ id) :
    s.accountId ∈ blockedAccountIds w (some id) statuses ↔
      Quotes.blocked w.db id s.accountId = true := by
  have hother : s.accountId ∈ (statuses.filter (·.accountId ≠ id)).map (·.accountId) :=
    List.mem_map.mpr ⟨s, List.mem_filter.mpr ⟨hs, by simpa using hne⟩, rfl⟩
  rw [blockedAccountIds, List.mem_append, any_mem_map, any_mem_map,
    any_readAny fun r _ hr => by rw [of_decide_eq_true hr]; exact hother,
    any_readAny fun r _ hr => by rw [of_decide_eq_true hr]; exact hother,
    List.any_filter, List.any_filter, Quotes.blocked]
  simp only [List.any_eq_true, Bool.and_eq_true, decide_eq_true_eq]
  constructor
  · rintro (⟨b, hb, h⟩ | ⟨b, hb, h⟩)
    · exact ⟨b, hb, .inl h⟩
    · exact ⟨b, hb, .inr ⟨h.2, h.1⟩⟩
  · rintro ⟨b, hb, h | h⟩
    · exact .inl ⟨b, hb, h⟩
    · exact .inr ⟨b, hb, h.2, h.1⟩

theorem mem_followedIds {id : ℕ} (hs : s ∈ statuses) (hne : s.accountId ≠ id)
    (hpriv : s.visibility = .priv) :
    s.accountId ∈ followedIds w (some id) statuses ↔
      Quotes.follows w.db id s.accountId = true := by
  have hauthor : s.accountId ∈ (statuses.filter fun s =>
      s.visibility = .priv ∧ s.accountId ≠ id).map (·.accountId) :=
    List.mem_map.mpr ⟨s, List.mem_filter.mpr ⟨hs, by simp [hpriv, hne]⟩, rfl⟩
  rw [followedIds, any_mem_map,
    any_readAny fun r _ hr => by rw [of_decide_eq_true hr]; exact hauthor,
    List.any_filter, Quotes.follows]
  simp only [List.any_eq_true, Bool.and_eq_true, decide_eq_true_eq]

theorem mem_mentionedStatusIds {id : ℕ} (hs : s ∈ statuses) (hne : s.accountId ≠ id)
    (hvis : s.visibility = .priv ∨ s.visibility = .direct) :
    s.id ∈ mentionedStatusIds w (some id) statuses ↔
      StatusReads.mentioned w.toWorld s.id id = true := by
  have hchecked : s.id ∈ (statuses.filter fun s =>
      (s.visibility = .priv ∨ s.visibility = .direct) ∧ s.accountId ≠ id).map (·.id) :=
    List.mem_map.mpr ⟨s, List.mem_filter.mpr ⟨hs, by simp [hvis, hne]⟩, rfl⟩
  rw [mentionedStatusIds, any_mem_map,
    any_readAny fun r _ hr => by rw [of_decide_eq_true hr]; exact hchecked,
    List.any_filter, StatusReads.mentioned, List.contains_iff_mem]
  simp only [List.any_eq_true, Bool.and_eq_true, decide_eq_true_eq]
  constructor
  · rintro ⟨m, hm, hid, hstatus⟩
    rw [← hid, ← hstatus]
    exact hm
  · intro h
    exact ⟨_, h, rfl, rfl⟩

theorem batchVisible_eq (hs : s ∈ statuses) :
    batchVisible w viewer statuses s = inThread w.toWorld viewer s := by
  cases viewer with
  | none =>
      have hunblocked : blockedFrom w.toWorld none s = false := rfl
      rw [batchVisible, inThread, hunblocked, visibleTo]
      cases hvis : s.visibility <;>
        simp [blockedAccountIds, followedIds, mentionedStatusIds]
  | some id =>
      by_cases hown : s.accountId = id
      · have hunblocked : blockedFrom w.toWorld (some id) s = false := by
          simp [blockedFrom, hown]
        rw [batchVisible, inThread, hunblocked, visibleTo, StatusReads.checkStatusVisible]
        cases hvis : s.visibility <;> simp [hown]
      · have hblocked := mem_blockedAccountIds (w := w) hs hown
        rw [batchVisible, inThread, blockedFrom, visibleTo, StatusReads.checkStatusVisible]
        cases hblock : Quotes.blocked w.db id s.accountId with
        | true =>
            have hmem := hblocked.mpr hblock
            simp [hmem, Ne.symm hown, hblock]
        | false =>
            have hmem : s.accountId ∉ blockedAccountIds w (some id) statuses := by
              rw [hblocked, hblock]
              exact Bool.false_ne_true
            rw [if_neg fun h => hmem h.2, Option.any_some, hblock, Bool.and_false, Bool.not_false,
              Bool.true_and]
            cases hvis : s.visibility with
            | priv =>
                have hfollows := mem_followedIds (w := w) hs hown hvis
                have hmentioned := mem_mentionedStatusIds (w := w) hs hown (.inl hvis)
                simp [hfollows, hmentioned, hown, Ne.symm hown]
            | direct =>
                have hmentioned := mem_mentionedStatusIds (w := w) hs hown (.inr hvis)
                simp [hmentioned, hown, Ne.symm hown]
            | pub => rfl
            | unlisted => rfl
            | limited => rfl

/-! ### What is looked up -/

theorem batchValues_eq (rows : List (ℕ × String)) {ids : List ℕ} {id : ℕ} (h : id ∈ ids) :
    batchValues rows ids id = batchValues rows [id] id := by
  rw [batchValues, batchValues,
    filter_readAny fun r _ hr => by rw [of_decide_eq_true hr]; exact h,
    filter_readAny fun r _ hr => by rw [of_decide_eq_true hr]; exact List.mem_singleton_self id]

theorem batchStatusMentions_eq {ids : List ℕ} {id : ℕ} (h : id ∈ ids) :
    batchStatusMentions w ids id = (w.mentions.filter (·.1 = id)).map Prod.snd := by
  rw [batchStatusMentions,
    filter_readAny fun r _ hr => by rw [of_decide_eq_true hr]; exact h]

theorem find?_status (hin : ∀ t ∈ statuses, t ∈ w.db.statuses.rows) (hs : s ∈ statuses) :
    statuses.find? (·.id = s.id) = some s := by
  cases hfind : statuses.find? (·.id = s.id) with
  | none =>
      have hnone := List.find?_eq_none.mp hfind s hs
      exact absurd (decide_eq_true rfl) hnone
  | some t =>
      have hid : t.id = s.id := by simpa using List.find?_some hfind
      rw [StatusCounts.eq_of_id (hin t (List.mem_of_find?_eq_some hfind)) (hin s hs) hid]

theorem find?_account {ids : List ℕ} {id : ℕ} (h : id ∈ ids) :
    (readAny (·.id) ids w.db.accounts.rows).find? (·.id = id) = w.db.account id :=
  find?_readAny fun r _ hr => by rw [of_decide_eq_true hr]; exact h

theorem batchStatusEmojis_eq (hin : ∀ t ∈ statuses, t ∈ w.db.statuses.rows)
    (hs : s ∈ statuses) : batchStatusEmojis w statuses s.id = fetchStatusEmojis w s := by
  have hself : [s].find? (·.id = s.id) = some s := by simp
  rw [fetchStatusEmojis, batchStatusEmojis, batchStatusEmojis, find?_status hin hs, hself]
  dsimp only
  rw [find?_account (List.mem_map_of_mem hs), find?_account (by simp)]

def pollsOf (w : World) (id : ℕ) : List Poll := w.polls.polls.rows.filter (·.statusId = id)

theorem pollOf_eq {ids : List ℕ} {p : Poll} (h : p.id ∈ ids) :
    pollOf (readAny (·.pollId) ids w.polls.pollVotes) viewer now p =
      pollFromDb w.toWorld viewer now p := by
  rw [pollOf, filter_readAny fun r _ hr => by rw [of_decide_eq_true hr]; exact h]
  rfl

theorem batchStatusPolls_eq {ids : List ℕ} {id : ℕ} (h : id ∈ ids) :
    batchStatusPolls w ids viewer now id =
      (pollsOf w id).getLast?.map (pollFromDb w.toWorld viewer now) := by
  have hrows : (readAny (·.statusId) ids w.polls.polls.rows).filter (·.statusId = id) =
      pollsOf w id := filter_readAny fun r _ hr => by rw [of_decide_eq_true hr]; exact h
  rw [batchStatusPolls]
  rw [hrows]
  apply Option.map_congr
  intro p hp
  have hmem := List.mem_filter.mp (List.mem_of_getLast? hp)
  apply pollOf_eq
  refine List.mem_map_of_mem (mem_readAny.mpr ⟨hmem.1, ?_⟩)
  rw [of_decide_eq_true hmem.2]
  exact h

theorem batchViewerContexts_eq {ids : List ℕ} {viewerId : ℕ} (hs : s ∈ w.db.statuses.rows)
    (h : s.id ∈ ids) :
    batchViewerContexts w viewerId ids s.id = buildViewerContext w viewerId s.id := by
  have hfound : ∀ keys : List ℕ, s.id ∈ keys →
      (readAny (·.id) keys w.db.statuses.rows).find? (·.id = s.id) = some s := fun keys hk =>
    find?_status (fun t ht => (mem_readAny.mp ht).1) (mem_readAny.mpr ⟨hs, hk⟩)
  have hmem : ∀ keys : List ℕ, s.id ∈ keys → s ∈ readAny (·.id) keys w.db.statuses.rows :=
    fun keys hk => mem_readAny.mpr ⟨hs, hk⟩
  have hself : s.id ∈ [s.id] := List.mem_singleton_self s.id
  rw [buildViewerContext, batchViewerContexts, batchViewerContexts]
  rw [hfound ids h, hfound [s.id] hself]
  dsimp only [Option.map_some, Option.getD_some]
  congr 1
  · rw [any_readAny fun r _ hr => by
        rw [of_decide_eq_true hr]; exact List.mem_map_of_mem (hmem ids h),
      any_readAny fun r _ hr => by
        rw [of_decide_eq_true hr]; exact List.mem_map_of_mem (hmem [s.id] hself)]
  · rw [any_readAny fun r _ hr => by
        rw [of_decide_eq_true hr]; exact List.mem_map_of_mem (hmem ids h),
      any_readAny fun r _ hr => by
        rw [of_decide_eq_true hr]; exact List.mem_map_of_mem (hmem [s.id] hself)]
  · rw [any_readAny fun r _ hr => by rw [of_decide_eq_true hr]; exact h,
      any_readAny fun r _ hr => by rw [of_decide_eq_true hr]; exact hself]
  · rw [any_readAny fun r _ hr => by rw [of_decide_eq_true hr]; exact List.mem_map_of_mem h,
      any_readAny fun r _ hr => by rw [of_decide_eq_true hr]; exact List.mem_map_of_mem hself]
  · rw [List.any_filter, List.any_filter,
      any_readAny fun r _ hr => by
        rw [Bool.and_eq_true] at hr
        rw [of_decide_eq_true hr.2]; exact h,
      any_readAny fun r _ hr => by
        rw [Bool.and_eq_true] at hr
        rw [of_decide_eq_true hr.2]; exact hself]
  · rw [any_readAny fun r _ hr => by rw [of_decide_eq_true hr]; exact h,
      any_readAny fun r _ hr => by rw [of_decide_eq_true hr]; exact hself]
  · rw [any_readAny fun r _ hr => by rw [of_decide_eq_true hr]; exact h,
      any_readAny fun r _ hr => by rw [of_decide_eq_true hr]; exact hself]

theorem find?_kept (id : ℕ) :
    (w.db.statuses.rows.filter fun r => r.deleted = false).find? (·.id = id) =
      w.db.keptStatus id := by
  rw [List.find?_filter, Db.keptStatus]
  congr 1
  funext r
  rw [Bool.eq_iff_iff]
  simp [and_comm]

theorem batchReblogData_eq (hs : s ∈ statuses) :
    batchReblogData w statuses s = fetchReblogData w s := by
  have hreblogs : ∀ id, s.reblogOfId = some id →
      (readAny (·.id) (statuses.filterMap (·.reblogOfId))
        (w.db.statuses.rows.filter fun r => r.deleted = false)).find? (·.id = id) =
      w.db.keptStatus id := by
    intro id hid
    rw [find?_readAny fun r _ hr => ?_, find?_kept]
    rw [of_decide_eq_true hr]
    exact List.mem_filterMap.mpr ⟨s, hs, hid⟩
  rw [batchReblogData, fetchReblogData, StatusReads.reblogOf]
  cases hid : s.reblogOfId with
  | none => rfl
  | some id =>
      rw [Option.bind_some, Option.bind_some, hreblogs id hid]
      cases hr : w.db.keptStatus id with
      | none => rfl
      | some r =>
          have hmem : r ∈ readAny (·.id) (statuses.filterMap (·.reblogOfId))
              (w.db.statuses.rows.filter fun r => r.deleted = false) :=
            List.mem_of_find?_eq_some ((hreblogs id hid).trans hr)
          have hnested : (r.reblogOfId.bind fun id =>
              (readAny (·.id) ((readAny (·.id) (statuses.filterMap (·.reblogOfId))
                (w.db.statuses.rows.filter fun r => r.deleted = false)).filterMap (·.reblogOfId))
                (w.db.statuses.rows.filter fun r => r.deleted = false)).find? (·.id = id)) =
              r.reblogOfId.bind w.db.keptStatus := by
            cases hof : r.reblogOfId with
            | none => rfl
            | some o =>
                rw [Option.bind_some, Option.bind_some, find?_readAny fun t _ ht => ?_, find?_kept]
                rw [of_decide_eq_true ht]
                exact List.mem_filterMap.mpr ⟨r, hmem, hof⟩
          rw [Option.bind_some, Option.map_some, Option.bind_some,
            find?_account (List.mem_map_of_mem (f := (·.accountId))
              (List.mem_map_of_mem (f := resolved _) hmem)), resolved, hnested]

/-! ### What is shown -/

def plainEntry (w : World) (viewer : Option ℕ) (now : ℤ) (context : Option ViewerContext)
    (s : Status) (account : Account) : Entry :=
  { filledIn w viewer viewer now context s account with
    poll := (pollsOf w s.id).getLast?.map (pollFromDb w.toWorld viewer now)
    accountEmojis := []
    accountRoles := []
    application := none }

def plainView (w : World) (viewer : Option ℕ) (now : ℤ) (s : Status) (account : Account) : View :=
  let context := viewer.map fun id => buildViewerContext w id s.id
  { entry := plainEntry w viewer now context s account
    reblog := (fetchReblogData w s).map fun reblog =>
      plainEntry w viewer now context reblog.1 reblog.2
    quote := none }

theorem batchEntry_eq {context : Option ViewerContext} {account : Account}
    (hin : ∀ t ∈ statuses, t ∈ w.db.statuses.rows) (hs : s ∈ statuses) :
    batchEntry w viewer now (statuses.map (·.id)) statuses context s account =
      plainEntry w viewer now context s account := by
  have hid : s.id ∈ statuses.map (·.id) := List.mem_map_of_mem hs
  rw [batchEntry, batchStatusMentions_eq hid, batchStatusPolls_eq hid, batchValues_eq w.media hid,
    batchValues_eq w.tags hid, batchStatusEmojis_eq hin hs]
  rfl

theorem fetchReblogData_mem {reblog : Status × Account} (h : fetchReblogData w s = some reblog) :
    reblog.1 ∈ w.db.statuses.rows := by
  obtain ⟨r, hr, hfound⟩ := Option.bind_eq_some_iff.mp h
  obtain ⟨_, _, rfl⟩ := Option.map_eq_some_iff.mp hfound
  obtain ⟨c, hc, rfl⟩ := Option.map_eq_some_iff.mp hr
  cases hnested : c.reblogOfId.bind w.db.keptStatus with
  | none =>
      obtain ⟨_, _, hkept⟩ := Option.bind_eq_some_iff.mp hc
      exact (Db.keptStatus_mem hkept).1
  | some d =>
      obtain ⟨_, _, hkept⟩ := Option.bind_eq_some_iff.mp hnested
      exact (Db.keptStatus_mem hkept).1

theorem batchView_eq (hin : ∀ t ∈ statuses, t ∈ w.db.statuses.rows) (hs : s ∈ statuses) :
    batchView w viewer now statuses s =
      (w.db.account s.accountId).map (plainView w viewer now s) := by
  let shown := statuses ++ statuses.filterMap fun v => (batchReblogData w statuses v).map (·.1)
  have hreblog : ∀ t ∈ statuses, batchReblogData w statuses t = fetchReblogData w t :=
    fun t ht => batchReblogData_eq ht
  have hshown : ∀ t ∈ shown, t ∈ w.db.statuses.rows := by
    intro t ht
    rcases List.mem_append.mp ht with ht | ht
    · exact hin t ht
    · obtain ⟨v, hv, hvt⟩ := List.mem_filterMap.mp ht
      obtain ⟨reblog, hfound, rfl⟩ := Option.map_eq_some_iff.mp hvt
      exact fetchReblogData_mem ((hreblog v hv).symm.trans hfound)
  rw [batchView]
  dsimp only
  rw [find?_account (List.mem_map_of_mem hs)]
  congr 1
  funext account
  rw [plainView, hreblog s hs]
  have hcontext : (viewer.map fun id => batchViewerContexts w id (statuses.map (·.id)) s.id) =
      viewer.map fun id => buildViewerContext w id s.id := by
    congr 1
    funext id
    exact batchViewerContexts_eq (hin s hs) (List.mem_map_of_mem hs)
  rw [hcontext, batchEntry_eq hshown (List.mem_append_left _ hs)]
  congr 1
  apply Option.map_congr
  intro reblog hfound
  apply batchEntry_eq hshown
  exact List.mem_append_right _ (List.mem_filterMap.mpr
    ⟨s, hs, by rw [hreblog s hs, Option.mem_def.mp hfound]; rfl⟩)

theorem getStatusesBatch_eq {ids : List ℕ} (hlen : ids.length ≤ 20) :
    getStatusesBatch w viewer now ids = .ok (ids.dedup.filterMap fun id =>
      ((w.db.keptStatus id).filter (inThread w.toWorld viewer)).bind fun s =>
        (w.db.account s.accountId).map (plainView w viewer now s)) := by
  let kept := w.db.statuses.rows.filter fun s => s.deleted = false
  let statuses := readAny (·.id) ids kept
  have hrow : ∀ t ∈ statuses, t ∈ w.db.statuses.rows ∧ t.id ∈ ids := by
    intro t ht
    obtain ⟨hkept, hid⟩ := mem_readAny.mp ht
    exact ⟨(List.mem_filter.mp hkept).1, hid⟩
  have hvisible : statuses.filter (batchVisible w viewer statuses) =
      statuses.filter (inThread w.toWorld viewer) :=
    List.filter_congr fun t ht => batchVisible_eq ht
  let visible := statuses.filter (inThread w.toWorld viewer)
  have hin : ∀ t ∈ visible, t ∈ w.db.statuses.rows ∧ t.id ∈ ids := fun t ht =>
    hrow t (List.mem_filter.mp ht).1
  have hkeys : (visible.map (·.id)).Nodup := by
    have hnodup : visible.Nodup :=
      (((w.db.statuses.nodup fun r => by simp [Status.keys]).filter _).filter _).filter _
    refine (List.nodup_map_iff_inj_on hnodup).mpr fun s hs t ht hid => ?_
    exact StatusCounts.eq_of_id (hin s hs).1 (hin t ht).1 hid
  rw [getStatusesBatch, if_neg (by omega)]
  dsimp only
  rw [hvisible, inOrder_eq _ _ hkeys fun t ht => (hin t ht).2]
  congr 1
  apply List.filterMap_congr
  intro id hid
  have hfind : visible.find? (·.id = id) =
      (w.db.keptStatus id).filter (inThread w.toWorld viewer) := by
    have hsame : statuses.find? (·.id = id) = w.db.keptStatus id := by
      rw [find?_readAny fun r _ hr => ?_, find?_kept]
      rw [of_decide_eq_true hr]
      exact List.mem_dedup.mp hid
    rw [← hsame]
    exact find?_filter_unique fun s hs t ht hst =>
      StatusCounts.eq_of_id (hrow s hs).1 (hrow t ht).1 hst
  rw [hfind]
  cases hfound : (w.db.keptStatus id).filter (inThread w.toWorld viewer) with
  | none => rfl
  | some s =>
      exact batchView_eq (fun t ht => (hin t ht).1) (List.mem_of_find?_eq_some (hfind.trans hfound))

/-! ### The two side by side -/

/-- Nothing that only `get_status` fills in, and one poll at most, read for the same viewer. -/
structure Plain (w : World) (viewer pollViewer : Option ℕ) (s : Status) (account : Account) :
    Prop where
  accountEmojis : fetchAccountEmojis w account = []
  accountRoles : fetchAccountRoles w account.id = []
  application : fetchStatusApplication w viewer s = none
  polls : pollsOf w s.id = [] ∨ (pollsOf w s.id).length = 1 ∧ pollViewer = viewer

structure Alike (w : World) (viewer : Option ℕ) (now : ℤ) (s : Status) (account : Account) :
    Prop where
  available : account.unavailable = false
  plain : Plain w viewer viewer s account
  reblog : ∀ r ∈ fetchReblogData w s, Plain w viewer none r.1 r.2
  unquoting : quoteData w.toWorld viewer now s = none

theorem pollFromDb_eq_iff {p q : Poll} {pollViewer : Option ℕ}
    (hviewer : pollViewer = viewer ∨ pollViewer = none) :
    pollFromDb w.toWorld pollViewer now p = pollFromDb w.toWorld viewer now q ↔
      p = q ∧ pollViewer = viewer := by
  constructor
  · intro h
    refine ⟨congrArg StatusReads.PollView.poll h, ?_⟩
    rcases hviewer with rfl | rfl
    · rfl
    · have hvoted := congrArg StatusReads.PollView.ownVotes h
      cases viewer with
      | none => rfl
      | some id => cases hvoted
  · rintro ⟨rfl, rfl⟩
    rfl

variable (now) in
theorem polls_eq_iff {id : ℕ} {pollViewer : Option ℕ}
    (hviewer : pollViewer = viewer ∨ pollViewer = none) :
    (w.polls.polls.rows.find? (·.statusId = id)).map (pollFromDb w.toWorld pollViewer now) =
        (pollsOf w id).getLast?.map (pollFromDb w.toWorld viewer now) ↔
      pollsOf w id = [] ∨ (pollsOf w id).length = 1 ∧ pollViewer = viewer := by
  have hhead : w.polls.polls.rows.find? (·.statusId = id) = (pollsOf w id).head? := by
    rw [pollsOf, List.head?_filter]
  have hnodup : (pollsOf w id).Nodup :=
    (w.polls.polls.nodup fun p => by simp [Polls.Poll.keys]).filter _
  rw [hhead]
  cases hpolls : pollsOf w id with
  | nil => simp
  | cons p polls =>
      rw [hpolls] at hnodup
      rw [List.head?_cons, Option.map_some, List.getLast?_cons, Option.map_some, Option.some.injEq,
        pollFromDb_eq_iff hviewer]
      cases polls with
      | nil => simp
      | cons q polls =>
          refine iff_of_false (fun h => ?_) (fun h => ?_)
          · have hlast : (q :: polls).getLast?.getD p ∈ q :: polls := by
              rw [List.getLast?_eq_some_getLast (List.cons_ne_nil q polls), Option.getD_some]
              exact List.getLast_mem _
            exact (List.nodup_cons.mp hnodup).1 (h.1 ▸ hlast)
          · rcases h with h | h
            · cases h
            · simp at h

theorem filledIn_eq_iff {pollViewer : Option ℕ} {context : Option ViewerContext}
    {account : Account} (hviewer : pollViewer = viewer ∨ pollViewer = none) :
    filledIn w viewer pollViewer now context s account =
      plainEntry w viewer now context s account ↔ Plain w viewer pollViewer s account := by
  constructor
  · intro h
    exact
      { accountEmojis := congrArg Entry.accountEmojis h
        accountRoles := congrArg Entry.accountRoles h
        application := congrArg Entry.application h
        polls := (polls_eq_iff now hviewer).mp (congrArg (fun e : Entry => e.poll) h) }
  · intro h
    have hpoll := (polls_eq_iff now hviewer).mpr h.polls
    rw [plainEntry, filledIn, filledIn, h.accountEmojis, h.accountRoles, h.application]
    simp only [StatusReads.statusFromDb, hpoll]

theorem buildStatus_eq_iff {account : Account} :
    buildStatus w viewer now s account = plainView w viewer now s account ↔
      Plain w viewer viewer s account ∧
        (∀ r ∈ fetchReblogData w s, Plain w viewer none r.1 r.2) ∧
        quoteData w.toWorld viewer now s = none := by
  rw [buildStatus, plainView]
  simp only [View.mk.injEq, filledIn_eq_iff (Or.inl rfl)]
  refine and_congr_right fun _ => and_congr_left fun _ => ?_
  cases fetchReblogData w s with
  | none => simp
  | some r =>
      simp only [Option.map_some, Option.some.injEq, filledIn_eq_iff (Or.inr rfl), Option.mem_def,
        forall_eq']

/-- `get_status` succeeds for a status that is kept, of an available author, and that the
viewer may see. -/
theorem getStatus_toOption (id : ℕ) :
    (getStatus w viewer now id).toOption =
      ((w.db.keptStatus id).filter (inThread w.toWorld viewer)).bind fun s =>
        ((w.db.account s.accountId).filter (!·.unavailable)).map
          (buildStatus w viewer now s) := by
  rw [getStatus]
  cases hrow : w.db.statuses.rows.find? (·.id = id) with
  | none =>
      have hkept : w.db.keptStatus id = none := by
        apply List.find?_eq_none.mpr
        intro s hs
        have hid := List.find?_eq_none.mp hrow s hs
        simp at hid
        simp [hid]
      rw [hkept]
      rfl
  | some row =>
      have hid : row.id = id := by simpa using List.find?_some hrow
      have hmem := List.mem_of_find?_eq_some hrow
      dsimp only
      cases hdeleted : row.deleted with
      | true =>
          have hkept : w.db.keptStatus id = none := by
            apply List.find?_eq_none.mpr
            intro s hs heq
            have hboth : s.id = id ∧ s.deleted = false := by simpa using heq
            rw [StatusCounts.eq_of_id hs hmem (hboth.1.trans hid.symm), hdeleted] at hboth
            cases hboth.2
          rw [hkept]
          rfl
      | false =>
          rw [if_neg Bool.false_ne_true, fetchStatusWithAccount]
          cases hkept : w.db.keptStatus id with
          | none => rfl
          | some s =>
              rw [Option.bind_some, Option.filter_some]
              cases haccount : (w.db.account s.accountId).filter (!·.unavailable) with
              | none =>
                  cases hseen : inThread w.toWorld viewer s with
                  | true =>
                      rw [if_pos rfl, Option.bind_some, haccount]
                      rfl
                  | false => rfl
              | some account =>
                  rw [Option.map_some]
                  dsimp only
                  cases hblocked : blockedFrom w.toWorld viewer s with
                  | true => simp [inThread, hblocked, Except.toOption]
                  | false =>
                      cases hvisible : visibleTo w.toWorld viewer s with
                      | true => simp [inThread, hblocked, hvisible, haccount, Except.toOption]
                      | false => simp [inThread, hblocked, hvisible, Except.toOption]

theorem keptStatus_id {id : ℕ} {view : View}
    {f : Status → Option View} (hf : ∀ s v, f s = some v → v.entry.status = s)
    (h : ((w.db.keptStatus id).filter (inThread w.toWorld viewer)).bind f = some view) :
    view.entry.status.id = id := by
  obtain ⟨s, hs, hview⟩ := Option.bind_eq_some_iff.mp h
  rw [hf s view hview]
  exact (Db.keptStatus_mem (Option.filter_eq_some_iff.mp hs).1).2.1

/-- Of at most twenty ids the batch shows what `get_status` shows exactly when each status
that it shows is shown alike. -/
theorem batch_agrees_iff {ids : List ℕ} (hlen : ids.length ≤ 20) :
    getStatusesBatch w viewer now ids =
        .ok (ids.dedup.filterMap fun id => (getStatus w viewer now id).toOption) ↔
      ∀ id ∈ ids, ∀ s, w.db.keptStatus id = some s → inThread w.toWorld viewer s = true →
        ∀ account, w.db.account s.accountId = some account → Alike w viewer now s account := by
  rw [getStatusesBatch_eq hlen, Except.ok.injEq]
  simp only [getStatus_toOption]
  rw [filterMap_eq_iff (fun v : View => v.entry.status.id) (List.nodup_dedup ids)]
  · simp only [List.mem_dedup]
    refine forall_congr' fun id => imp_congr_right fun _ => ?_
    cases hkept : w.db.keptStatus id with
    | none => simp
    | some s =>
        rw [Option.filter_some]
        cases hseen : inThread w.toWorld viewer s with
        | false => simp [hseen]
        | true =>
            obtain ⟨account, haccount⟩ : ∃ account, w.db.account s.accountId = some account :=
              Option.isSome_iff_exists.mp (w.authors s (Db.keptStatus_mem hkept).1)
            rw [if_pos rfl, Option.bind_some, Option.bind_some, haccount, Option.map_some,
              Option.filter_some]
            simp only [Option.some.injEq, forall_eq', hseen, true_imp_iff, haccount]
            cases havailable : account.unavailable with
            | true =>
                refine iff_of_false (by simp) fun h => ?_
                exact absurd (h.available.symm.trans havailable) Bool.false_ne_true
            | false =>
                rw [Bool.not_false, if_pos rfl, Option.map_some, Option.some.injEq, eq_comm,
                  buildStatus_eq_iff]
                exact ⟨fun h => ⟨havailable, h.1, h.2.1, h.2.2⟩,
                  fun h => ⟨h.plain, h.reblog, h.unquoting⟩⟩
  · intro id _ view hview
    apply keptStatus_id _ hview
    intro s v hv
    obtain ⟨_, _, rfl⟩ := Option.map_eq_some_iff.mp hv
    rfl
  · intro id _ view hview
    apply keptStatus_id _ hview
    intro s v hv
    obtain ⟨_, _, rfl⟩ := Option.map_eq_some_iff.mp hv
    rfl

/-- The statuses of the ids for which `get_status` succeeds, in the order of the request. -/
def Agrees (w : World) (viewer : Option ℕ) (now : ℤ) (ids : List ℕ) : Prop :=
  getStatusesBatch w viewer now ids =
    .ok (ids.dedup.filterMap fun id => (getStatus w viewer now id).toOption)

def alice (suspended : Bool) : Account where
  id := 1
  username := "alice"
  domain := none
  uri := none
  locked := false
  silenced := false
  unavailable := suspended
  movedToAccountId := none

def hello : Status where
  id := 1
  accountId := 1
  uri := none
  visibility := .pub
  inReplyToId := none
  reblogOfId := none
  deleted := false

def oneStatus (suspended : Bool) : World where
  db :=
    { Db.empty with
      accounts := ⟨[alice suspended], List.pairwise_singleton _ _⟩
      statuses := ⟨[hello], List.pairwise_singleton _ _⟩ }
  mentions := []
  mutes := []
  polls := { polls := .empty, pollVotes := [] }
  quotes := .empty
  conversations := some
  replyAuthors := fun _ => none
  cards := fun _ => none
  authors := by
    intro s hs
    rw [List.mem_singleton.mp hs]
    rfl
  texts := fun _ => "hello"
  bios := fun _ => ""
  emojisOf := fun _ _ => []
  media := []
  tags := []
  bookmarks := []
  pins := []
  conversationMutes := []
  users := [⟨1, true, none⟩]
  applications := fun _ => none

theorem alike_hello : Alike (oneStatus false) none 0 hello (alice false) where
  available := rfl
  plain := ⟨rfl, rfl, rfl, .inl rfl⟩
  reblog := by
    intro r hr
    cases hr
  unquoting := rfl

end Eunha.BatchAgreement
