import Eunha.StreamingFanOut

/-!
# The live stream and the feeds

Both filters decide over the same relations, and differ in what they take for a reply: the
stream asks whether a status names a parent, the feeds whether it is marked. Where a status
that names a parent is marked as a reply the two decide alike, for the home of a receiver,
for its lists and for the followers of a hashtag.
-/
namespace Eunha.StreamingAgreement
open Maps FeedFilter StreamingFanOut

/-! ### What is gathered for a status, among others -/

section
variable (db : Database) (r : ℤ) {batch : List Candidate} (receiver : Receiver) {s : Candidate}

def mentionsOf (statusIds : List ℤ) : List ℤ :=
  (db.mentions.filter fun m => m.statusId ∈ statusIds ∧ ¬m.silent).map (·.accountId)

theorem activeMentions_getD {statusIds : List ℤ} {id : ℤ} (h : id ∈ statusIds) :
    (activeMentions db statusIds id).getD [] = mentionsOf db [id] := by
  rw [activeMentions, HashMap.foldl_push_getD, List.filter_filter, mentionsOf]
  simp only [HashMap.empty, Option.getD_none, List.nil_append]
  refine congrArg _ (List.filter_congr fun m _ => ?_)
  by_cases hid : m.statusId = id <;> simp [hid, h]

theorem mem_mentionsOf_cons (id : ℤ) (ids : List ℤ) {x : ℤ} :
    x ∈ mentionsOf db (id :: ids) ↔ x ∈ mentionsOf db [id] ∨ x ∈ mentionsOf db ids := by
  simp only [mentionsOf, List.mem_map, List.mem_filter, decide_eq_true_eq, List.mem_cons,
    List.not_mem_nil, or_false]
  constructor
  · rintro ⟨m, ⟨hm, hid | hids, hsilent⟩, rfl⟩
    · exact .inl ⟨m, ⟨hm, hid, hsilent⟩, rfl⟩
    · exact .inr ⟨m, ⟨hm, hids, hsilent⟩, rfl⟩
  · rintro (⟨m, ⟨hm, hid, hsilent⟩, rfl⟩ | ⟨m, ⟨hm, hids, hsilent⟩, rfl⟩)
    · exact ⟨m, ⟨hm, .inl hid, hsilent⟩, rfl⟩
    · exact ⟨m, ⟨hm, .inr hids, hsilent⟩, rfl⟩

variable (hs : s ∈ batch)
include hs

theorem build_mentions {id : ℤ} (h : id = s.id ∨ s.reblogOfId = some id) :
    ((build db r batch receiver).activeMentions id).getD [] = mentionsOf db [id] := by
  refine activeMentions_getD db (List.mem_flatMap.mpr ⟨s, hs, ?_⟩)
  rcases h with rfl | h
  · exact List.mem_cons_self
  · rw [h]
    exact List.mem_cons_of_mem _ List.mem_cons_self

theorem mem_checkForBlocks (hreblog : s.reblogOfId.isSome = s.reblog.isSome) {x : ℤ} :
    x ∈ checkForBlocks (build db r batch receiver).activeMentions s ↔
      x ∈ mentionsOf db (s.id :: s.reblogOfId.toList) ++ [s.accountId] ++
        (s.reblog.map (·.1)).toList := by
  have hself := build_mentions db r receiver hs (.inl rfl)
  rw [checkForBlocks, hself]
  rcases hof : s.reblogOfId with _ | reblogOfId
  · rw [hof] at hreblog
    have hnone : s.reblog = none := Option.not_isSome_iff_eq_none.mp (by rw [← hreblog]; simp)
    simp [hnone]
  · rw [hof] at hreblog
    obtain ⟨⟨author, domain⟩, hsome⟩ := Option.isSome_iff_exists.mp hreblog.symm
    have hboosted := build_mentions db r receiver hs (.inr hof)
    simp only [hsome, hboosted, Option.toList_some, Option.map_some, List.mem_append,
      List.mem_cons, List.not_mem_nil, or_false, mem_mentionsOf_cons db _ [reblogOfId]]
    tauto

theorem build_blocks {x : ℤ}
    (hx : x ∈ checkForBlocks (build db r batch receiver).activeMentions s) :
    (x ∈ (build db r batch receiver).blocking ↔
      ∃ b ∈ db.blocks, b.accountId = r ∧ b.targetAccountId = x) ∧
    (x ∈ (build db r batch receiver).muting ↔
      ∃ m ∈ db.mutes, m.accountId = r ∧ m.targetAccountId = x) := by
  have hchecked : x ∈ batch.flatMap
      (checkForBlocks (build db r batch receiver).activeMentions) :=
    List.mem_flatMap.mpr ⟨s, hs, hx⟩
  constructor
  · simp only [build, List.mem_toFinset, List.mem_map, List.mem_filter, decide_eq_true_eq]
    constructor
    · rintro ⟨b, ⟨hb, hr, _⟩, rfl⟩
      exact ⟨b, hb, hr, rfl⟩
    · rintro ⟨b, hb, hr, rfl⟩
      exact ⟨b, ⟨hb, hr, hchecked⟩, rfl⟩
  · simp only [build, List.mem_toFinset, List.mem_map, List.mem_filter, decide_eq_true_eq]
    constructor
    · rintro ⟨m, ⟨hm, hr, _⟩, rfl⟩
      exact ⟨m, hm, hr, rfl⟩
    · rintro ⟨m, hm, hr, rfl⟩
      exact ⟨m, ⟨hm, hr, hchecked⟩, rfl⟩

theorem build_blockedBy {x : ℤ} (hx : x = s.accountId ∨ s.reblog.map Prod.fst = some x) :
    x ∈ (build db r batch receiver).blockedBy ↔
      ∃ b ∈ db.blocks, b.accountId = x ∧ b.targetAccountId = r := by
  have hauthors : x ∈ batch.flatMap fun s => s.accountId :: (s.reblog.map Prod.fst).toList := by
    refine List.mem_flatMap.mpr ⟨s, hs, ?_⟩
    rcases hx with rfl | hx
    · exact List.mem_cons_self
    · rw [hx]
      exact List.mem_cons_of_mem _ List.mem_cons_self
  simp only [build, List.mem_toFinset, List.mem_map, List.mem_filter, decide_eq_true_eq]
  constructor
  · rintro ⟨b, ⟨hb, hr, _⟩, rfl⟩
    exact ⟨b, hb, rfl, hr⟩
  · rintro ⟨b, hb, rfl, hr⟩
    exact ⟨b, ⟨hb, hr, hauthors⟩, rfl⟩

theorem build_hidingReblogs (hreblog : s.reblogOfId.isSome) :
    s.accountId ∈ (build db r batch receiver).hidingReblogs ↔
      ∃ f ∈ db.follows, f.accountId = r ∧ f.targetAccountId = s.accountId ∧ ¬f.showReblogs := by
  have hreblogger : s.accountId ∈ (batch.filter fun s => s.reblogOfId.isSome).map
      Candidate.accountId :=
    List.mem_map_of_mem (List.mem_filter.mpr ⟨hs, hreblog⟩)
  simp only [build, List.mem_toFinset, List.mem_map, List.mem_filter, decide_eq_true_eq]
  constructor
  · rintro ⟨f, ⟨hf, hr, _, hshow⟩, hid⟩
    exact ⟨f, hf, hr, hid, hshow⟩
  · rintro ⟨f, hf, hr, hid, hshow⟩
    refine ⟨f, ⟨hf, hr, ?_, hshow⟩, hid⟩
    rw [hid]
    simpa using hreblogger

theorem build_domainBlocking {domain : String} (hd : s.reblog.bind Prod.snd = some domain) :
    domain ∈ (build db r batch receiver).domainBlocking ↔
      ∃ d ∈ db.accountDomainBlocks, d.accountId = r ∧ d.domain = domain := by
  have hdomains : domain ∈ batch.filterMap fun s => s.reblog.bind Prod.snd :=
    List.mem_filterMap.mpr ⟨s, hs, hd⟩
  simp only [build, List.mem_toFinset, List.mem_map, List.mem_filter, decide_eq_true_eq]
  constructor
  · rintro ⟨d, ⟨hrow, hr, _⟩, rfl⟩
    exact ⟨d, hrow, hr, rfl⟩
  · rintro ⟨d, hrow, hr, rfl⟩
    exact ⟨d, ⟨hrow, hr, hdomains⟩, rfl⟩

theorem build_exclusiveListUsers :
    s.accountId ∈ (build db r batch .home).exclusiveListUsers ↔
      ∃ la ∈ db.listAccounts, la.accountId = s.accountId ∧
        ∃ l ∈ db.lists, l.id = la.listId ∧ l.accountId = r ∧ l.exclusive := by
  have hauthor : s.accountId ∈ batch.map Candidate.accountId := List.mem_map_of_mem hs
  simp only [build, List.mem_toFinset, List.mem_map, List.mem_filter, decide_eq_true_eq]
  constructor
  · rintro ⟨la, ⟨hla, _, hl⟩, hid⟩
    exact ⟨la, hla, hid, hl⟩
  · rintro ⟨la, hla, hid, hl⟩
    refine ⟨la, ⟨hla, ?_, hl⟩, hid⟩
    rw [hid]
    simpa using hauthor

end

theorem filter_eq_find? {X : Type*} {p : X → Bool} {rows : List X}
    (h : rows.Pairwise fun x y => ¬ (p x = true ∧ p y = true)) :
    rows.filter p = (rows.find? p).toList := by
  induction rows with
  | nil => rfl
  | cons x rows ih =>
      obtain ⟨hx, hrows⟩ := List.pairwise_cons.mp h
      rw [List.filter_cons, List.find?_cons]
      cases hp : p x with
      | false => simpa using ih hrows
      | true =>
          have hnone : rows.filter p = [] :=
            List.filter_eq_nil_iff.mpr fun y hy hpy => hx y hy ⟨hp, hpy⟩
          simp [hnone]

/-! ### The languages and follows of a receiver -/

section
variable {c : Content} (db : Relations c) (r : ℤ) {batch : List Candidate} {s : Candidate}

theorem follows_once (accountId : ℤ) : db.follows.Pairwise fun f g =>
    ¬ (decide (f.accountId = r ∧ f.targetAccountId = accountId) = true ∧
      decide (g.accountId = r ∧ g.targetAccountId = accountId) = true) := by
  refine db.followsOnce.imp fun h => ?_
  rw [decide_eq_true_eq, decide_eq_true_eq]
  rintro ⟨⟨rfl, rfl⟩, hr, hid⟩
  exact h ⟨hr.symm, hid.symm⟩

theorem build_languages (receiver : Receiver) (hs : s ∈ batch) :
    (build db.toDatabase r batch receiver).languages s.accountId =
      (db.follows.find? fun f => f.accountId = r ∧ f.targetAccountId = s.accountId).bind
        Follow.named := by
  have hauthor : s.accountId ∈ batch.map Candidate.accountId := List.mem_map_of_mem hs
  have hrows : (((db.follows.filter fun f => decide (f.accountId = r ∧
        f.targetAccountId ∈ batch.map Candidate.accountId)).filterMap fun f =>
          f.named.map fun l => (f.targetAccountId, l)).filter (·.1 = s.accountId)) =
      ((db.follows.find? fun f => f.accountId = r ∧
          f.targetAccountId = s.accountId).toList.filterMap fun f =>
            f.named.map fun l => (f.targetAccountId, l)) := by
    rw [← filter_eq_find? (follows_once db r s.accountId), List.filter_filterMap,
      List.filterMap_filter, List.filterMap_filter]
    refine List.filterMap_congr fun f _ => ?_
    by_cases hid : f.targetAccountId = s.accountId
    · by_cases hr : f.accountId = r
      · cases hnamed : f.named <;> simp [hid, hr, hauthor]
      · simp [hr]
    · cases hnamed : f.named <;> simp [hid]
  simp only [build]
  rw [HashMap.foldl_insert_pairs, hrows]
  cases hfind : db.follows.find? fun f => f.accountId = r ∧ f.targetAccountId = s.accountId with
  | none => rfl
  | some f => cases hnamed : f.named <;> simp [hnamed, HashMap.empty]

def receiverFor : Option DistributingList → Receiver
  | none => .home
  | some list => .list list.id list.repliesPolicy

theorem build_following (list : Option DistributingList) (hs : s ∈ batch) {replyTo : ℤ}
    (hreply : s.inReplyToAccountId = some replyTo) :
    replyTo ∈ (build db.toDatabase r batch (receiverFor list)).following ↔
      following db r replyTo list = true := by
  have hreplied : replyTo ∈ batch.filterMap Candidate.inReplyToAccountId :=
    List.mem_filterMap.mpr ⟨s, hs, hreply⟩
  have hfollows : replyTo ∈ ((db.follows.filter fun f => decide (f.accountId = r ∧
      f.targetAccountId ∈ batch.filterMap Candidate.inReplyToAccountId)).map
        Follow.targetAccountId).toFinset ↔ follows db r replyTo = true := by
    simp only [follows, List.any_eq_true, List.mem_toFinset, List.mem_map, List.mem_filter,
      decide_eq_true_eq]
    constructor
    · rintro ⟨f, ⟨hf, hr, _⟩, rfl⟩
      exact ⟨f, hf, hr, rfl⟩
    · rintro ⟨f, hf, hr, rfl⟩
      exact ⟨f, ⟨hf, hr, hreplied⟩, rfl⟩
  cases list with
  | none => exact hfollows
  | some list =>
      simp only [build, receiverFor, following]
      by_cases hfollowed : list.repliesPolicy = repliesFollowed
      · have hne : ¬ list.repliesPolicy = repliesList := by rw [hfollowed]; decide
        rw [if_pos hfollowed, if_neg hne, if_neg (not_not.mpr hfollowed)]
        exact hfollows
      · rw [if_neg hfollowed, if_pos hfollowed]
        split
        · simp only [listed, List.any_eq_true, List.mem_toFinset, List.mem_map, List.mem_filter,
            decide_eq_true_eq]
          constructor
          · rintro ⟨la, ⟨hla, hid, _⟩, rfl⟩
            exact ⟨la, hla, hid, rfl⟩
          · rintro ⟨la, hla, hid, rfl⟩
            exact ⟨la, ⟨hla, hid, hreplied⟩, rfl⟩
        · simp

end

/-! ### The filter over the relations -/

/-- The status as the feeds read it and as the stream reads it. -/
structure Matches {c : Content} (db : Relations c) (d : DistributedStatus) (s : Subject) :
    Prop where
  id : d.status.id = s.status.id
  accountId : d.status.accountId = s.status.accountId
  reply : d.status.reply = s.status.reply
  inReplyToId : d.status.inReplyToId = s.status.inReplyToId
  inReplyToAccountId : d.status.inReplyToAccountId = s.status.inReplyToAccountId
  language : d.status.language = s.status.language
  reblogOfId : d.status.reblogOfId = s.status.reblogOfId
  visibility : d.visibility = s.status.visibility
  reblog : d.status.reblog = s.reblog
  boosts : s.reblog.isSome → s.status.reblogOfId.isSome
  authorDomain : d.authorDomain = s.authorDomain
  authorSilenced : d.authorSilenced = s.authorSilenced
  mentions : s.mentions = mentionsOf db.toDatabase (s.status.id :: s.status.reblogOfId.toList)
  tagIds : s.tagIds = c.tagIds s.status.id

section
variable {c : Content} (db : Relations c)

def lastTests (reply : Bool) (s : Subject) (receiver : ℤ) (list : Option DistributingList) : Bool :=
  match s.status.inReplyToAccountId, reply with
  | some replyTo, true =>
      !following db receiver replyTo list ∧ receiver ≠ replyTo ∧ s.status.accountId ≠ replyTo
  | _, _ =>
      match s.reblog with
      | some (reblogAuthor, reblogDomain) =>
          hidingReblogs db receiver s.status.accountId || blockedBy db receiver reblogAuthor ||
            domainBlocking db receiver reblogDomain
      | none => false

def decision (reply : Bool) (s : Subject) (receiver : ℤ) (list : Option DistributingList) :
    Option Filtered :=
  let st := s.status
  let checkForBlocks := s.mentions ++ [st.accountId] ++ (s.reblog.map (·.1)).toList
  if receiver = st.accountId then none
  else if reply ∧ (st.inReplyToId.isNone ∨ st.inReplyToAccountId.isNone) then some .filter
  else if list.isNone ∧ exclusivelyListed db receiver st.accountId then some .skipHome
  else if otherLanguage db receiver st then some .filter
  else if st.reblogOfId.isSome ∧ s.reblog.isNone then some .filter
  else if blocksOrMutesAny db receiver checkForBlocks then some .filter
  else if blockedBy db receiver st.accountId then some .filter
  else if lastTests db reply s receiver list then some .filter
  else none

theorem filterFromHome_eq_decision (s : Subject) (r : ℤ) (list : Option DistributingList) :
    StreamingFanOut.filterFromHome db s r list = decision db (isReply s.status) s r list := rfl

variable {db} {d : DistributedStatus} {s : Subject} (hm : Matches db d s) (r : ℤ)
  {batch : List Candidate} (hs : d.status ∈ batch) (list : Option DistributingList)
include hm hs

theorem otherLanguage_build :
    (match (build db.toDatabase r batch (receiverFor list)).languages d.status.accountId,
        d.status.language.filter fun l => !l.isEmpty with
      | some languages, some language => !languages.contains language
      | _, _ => false) = otherLanguage db r s.status := by
  rw [build_languages db r _ hs, otherLanguage, hm.language, languagesOf, hm.accountId]
  cases hlanguage : s.status.language.filter fun l => !l.isEmpty with
  | none => cases (db.follows.find? _).bind Follow.named <;> rfl
  | some language =>
      cases hfind : db.follows.find? fun f => f.accountId = r ∧
          f.targetAccountId = s.status.accountId with
      | none => simp
      | some f =>
          rcases hnames : f.languages with _ | _ | ⟨l, languages⟩ <;>
            simp [Follow.named, hnames, Option.filter]

theorem blocksOrMutesAny_build (hreblog : s.status.reblogOfId.isSome = s.reblog.isSome) :
    ((checkForBlocks (build db.toDatabase r batch (receiverFor list)).activeMentions
        d.status).any fun id =>
      id ∈ (build db.toDatabase r batch (receiverFor list)).blocking ∨
        id ∈ (build db.toDatabase r batch (receiverFor list)).muting) =
      blocksOrMutesAny db r
        (s.mentions ++ [s.status.accountId] ++ (s.reblog.map (·.1)).toList) := by
  have hmem (x : ℤ) : x ∈ checkForBlocks
      (build db.toDatabase r batch (receiverFor list)).activeMentions d.status ↔
      x ∈ s.mentions ++ [s.status.accountId] ++ (s.reblog.map (·.1)).toList := by
    rw [mem_checkForBlocks db.toDatabase r _ hs (by rw [hm.reblogOfId, hm.reblog, hreblog]),
      hm.mentions, hm.id, hm.reblogOfId, hm.accountId, hm.reblog]
  rw [Bool.eq_iff_iff, blocksOrMutesAny, Bool.or_eq_true, List.any_eq_true, List.any_eq_true,
    List.any_eq_true]
  simp only [decide_eq_true_eq]
  constructor
  · rintro ⟨x, hx, hblocked⟩
    obtain ⟨hblocking, hmuting⟩ := build_blocks db.toDatabase r _ hs hx
    rcases hblocked with hblocked | hmuted
    · obtain ⟨b, hb, hr, rfl⟩ := hblocking.mp hblocked
      exact .inl ⟨b, hb, hr, (hmem _).mp hx⟩
    · obtain ⟨m, hmute, hr, rfl⟩ := hmuting.mp hmuted
      exact .inr ⟨m, hmute, hr, (hmem _).mp hx⟩
  · rintro (⟨b, hb, hr, hx⟩ | ⟨m, hmute, hr, hx⟩)
    · refine ⟨_, (hmem _).mpr hx, .inl ?_⟩
      exact (build_blocks db.toDatabase r _ hs ((hmem _).mpr hx)).1.mpr ⟨b, hb, hr, rfl⟩
    · refine ⟨_, (hmem _).mpr hx, .inr ?_⟩
      exact (build_blocks db.toDatabase r _ hs ((hmem _).mpr hx)).2.mpr ⟨m, hmute, hr, rfl⟩

theorem blockedBy_build {x : ℤ} (hx : x = s.status.accountId ∨ s.reblog.map Prod.fst = some x) :
    x ∈ (build db.toDatabase r batch (receiverFor list)).blockedBy ↔ blockedBy db r x = true := by
  rw [build_blockedBy db.toDatabase r _ hs (by rwa [hm.accountId, hm.reblog]), blockedBy,
    List.any_eq_true]
  simp only [decide_eq_true_eq]

theorem hidesReblog_build :
    filteredAfterLists.hidesReblog d.status
        (build db.toDatabase r batch (receiverFor list)) =
      match s.reblog with
      | some (reblogAuthor, reblogDomain) =>
          hidingReblogs db r s.status.accountId || blockedBy db r reblogAuthor ||
            domainBlocking db r reblogDomain
      | none => false := by
  rw [filteredAfterLists.hidesReblog, hm.reblog]
  rcases hreblog : s.reblog with _ | ⟨author, domain⟩
  · rfl
  · have hboosts : d.status.reblogOfId.isSome := by
      rw [hm.reblogOfId]
      exact hm.boosts (by rw [hreblog]; rfl)
    have hhiding := build_hidingReblogs db.toDatabase r (receiverFor list) hs hboosts
    have hblocked := blockedBy_build hm r hs list (x := author) (.inr (by rw [hreblog]; rfl))
    have hdomain : (domain.any fun d => d ∈ (build db.toDatabase r batch
        (receiverFor list)).domainBlocking) = domainBlocking db r domain := by
      cases domain with
      | none => rfl
      | some domain =>
          have hboosted : d.status.reblog.bind Prod.snd = some domain := by
            rw [hm.reblog, hreblog]
            rfl
          have hbuilt := build_domainBlocking db.toDatabase r (receiverFor list) hs hboosted
          rw [Bool.eq_iff_iff, domainBlocking]
          simp only [Option.any_some, decide_eq_true_eq, List.any_eq_true]
          exact hbuilt
    rw [hm.accountId] at hhiding ⊢
    rw [Bool.eq_iff_iff]
    simp only [decide_eq_true_eq, Bool.or_eq_true, hhiding, hblocked, hdomain, hidingReblogs,
      List.any_eq_true, or_assoc]

theorem filterResult_build :
    filterResult d.status r (build db.toDatabase r batch (receiverFor list))
      (receiverFor list) = decision db d.status.reply s r list := by
  have hlanguage := otherLanguage_build hm r hs list
  have hexclusive : ((receiverFor list).isHome ∧ d.status.accountId ∈
      (build db.toDatabase r batch (receiverFor list)).exclusiveListUsers) ↔
      list.isNone ∧ exclusivelyListed db r s.status.accountId := by
    cases list with
    | none =>
        have hbuilt := build_exclusiveListUsers db.toDatabase r hs
        rw [hm.accountId] at hbuilt ⊢
        simp only [receiverFor, Receiver.isHome, hbuilt, exclusivelyListed, List.any_eq_true,
          decide_eq_true_eq, Option.isNone_none]
    | some list => simp [receiverFor, Receiver.isHome]
  have hlast : (match d.status.inReplyToAccountId, d.status.reply with
      | some inReplyTo, true =>
          decide (inReplyTo ∉ (build db.toDatabase r batch (receiverFor list)).following ∧
            r ≠ inReplyTo ∧ d.status.accountId ≠ inReplyTo)
      | _, _ => filteredAfterLists.hidesReblog d.status
          (build db.toDatabase r batch (receiverFor list))) =
      lastTests db d.status.reply s r list := by
    unfold lastTests
    rw [hidesReblog_build hm r hs list, hm.accountId]
    cases hto : d.status.inReplyToAccountId with
    | none =>
        rw [hm.inReplyToAccountId] at hto
        rw [hto]
    | some replyTo =>
        have hfollowing := build_following db r list hs hto
        rw [hm.inReplyToAccountId] at hto
        rw [hto]
        cases d.status.reply with
        | false => rfl
        | true =>
            rw [Bool.eq_iff_iff]
            simp only [decide_eq_true_eq, hfollowing, Bool.not_eq_true, Bool.not_eq_true']
  have hafter : filteredAfterLists d.status r (build db.toDatabase r batch (receiverFor list)) =
      if otherLanguage db r s.status then true
      else if d.status.reblogOfId.isSome && d.status.reblog.isNone then true
      else if (checkForBlocks (build db.toDatabase r batch (receiverFor list)).activeMentions
          d.status).any fun id =>
            id ∈ (build db.toDatabase r batch (receiverFor list)).blocking ∨
              id ∈ (build db.toDatabase r batch (receiverFor list)).muting then true
      else if d.status.accountId ∈ (build db.toDatabase r batch (receiverFor list)).blockedBy then
        true
      else lastTests db d.status.reply s r list := by
    rw [← hlanguage, ← hlast]
    rfl
  unfold filterResult decision
  dsimp only
  rw [hafter, hm.inReplyToId, hm.inReplyToAccountId]
  simp only [hexclusive]
  rw [hm.accountId]
  by_cases hgone : s.status.reblogOfId.isSome ∧ s.reblog.isNone
  · have hgone' : (d.status.reblogOfId.isSome && d.status.reblog.isNone) = true := by
      rw [hm.reblogOfId, hm.reblog, Bool.and_eq_true]
      exact hgone
    simp only [hgone', hgone, if_true]
    cases otherLanguage db r s.status <;> rfl
  · have hkept : (d.status.reblogOfId.isSome && d.status.reblog.isNone) = false := by
      rw [hm.reblogOfId, hm.reblog, ← Bool.not_eq_true, Bool.and_eq_true]
      exact hgone
    have hreblog : s.status.reblogOfId.isSome = s.reblog.isSome := by
      cases hof : s.reblog with
      | some boosted => exact hm.boosts (by rw [hof]; rfl)
      | none =>
          rw [hof] at hgone
          cases hid : s.status.reblogOfId with
          | none => rfl
          | some id => exact absurd ⟨by rw [hid]; rfl, rfl⟩ hgone
    have hblocks := blocksOrMutesAny_build hm r hs list hreblog
    have hblocked := blockedBy_build hm r hs list (x := s.status.accountId) (.inl rfl)
    rw [hblocks]
    simp only [hkept, hgone, hblocked, Bool.false_eq_true, if_false]
    cases otherLanguage db r s.status <;>
      cases blocksOrMutesAny db r (s.mentions ++ [s.status.accountId] ++
        (s.reblog.map (·.1)).toList) <;>
      cases blockedBy db r s.status.accountId <;> rfl

end

/-! ### Replies that are marked -/

def Marked (d : DistributedStatus) : Prop :=
  d.status.inReplyToId.isSome → d.status.reply = true ∨
    (d.status.inReplyToAccountId = some d.status.accountId ∧ d.status.reblog = none)

section
variable {c : Content} {db : Relations c} {d : DistributedStatus} {s : Subject}

theorem isReply_of_reply (hm : Matches db d s) (h : d.status.reply = true) :
    isReply s.status = d.status.reply := by
  rw [isReply, ← hm.reply, h]
  rfl

theorem isReply_of_no_parent (hm : Matches db d s) (h : d.status.inReplyToId = none) :
    isReply s.status = d.status.reply := by
  rw [isReply, ← hm.reply, ← hm.inReplyToId, h]
  exact Bool.or_false _

theorem decision_marked (hm : Matches db d s) (h : Marked d) (r : ℤ)
    (list : Option DistributingList) :
    decision db (isReply s.status) s r list = decision db d.status.reply s r list := by
  cases hparent : d.status.inReplyToId with
  | none => rw [isReply_of_no_parent hm hparent]
  | some parent =>
      rcases h (by rw [hparent]; rfl) with hreply | ⟨hself, hreblog⟩
      · rw [isReply_of_reply hm hreply]
      · -- neither takes a reply to its own author for a reply to someone else
        have hlast (reply : Bool) : lastTests db reply s r list = false := by
          unfold lastTests
          rw [← hm.inReplyToAccountId, ← hm.accountId, hself, ← hm.reblog, hreblog]
          cases reply <;> simp
        unfold decision
        dsimp only
        rw [← hm.inReplyToId, hparent, ← hm.inReplyToAccountId, hself, hlast, hlast]
        simp

theorem filterFromHome_agrees (hm : Matches db d s) (h : Marked d) (r : ℤ)
    (list : Option DistributingList) {batch : List Candidate} (hs : d.status ∈ batch) :
    StreamingFanOut.filterFromHome db s r list =
      filterResult d.status r (build db.toDatabase r batch (receiverFor list))
        (receiverFor list) := by
  rw [filterFromHome_eq_decision, decision_marked hm h, filterResult_build hm r hs]

theorem filterFromHome_fanOut (hm : Matches db d s) (h : Marked d) {receivers : List ℤ} {r : ℤ}
    (hr : r ∈ receivers) : ∃ crutches,
      crutchesFor db.toDatabase d.status d.authorDomain receivers true r = some crutches ∧
        StreamingFanOut.filterFromHome db s r none = filterResult d.status r crutches .home := by
  obtain ⟨blockedDomains, notifying, hc, hdomains, -⟩ :=
    crutchesFor_apply db.toDatabase d.status d.authorDomain receivers true hr
  refine ⟨_, hc, ?_⟩
  rw [if_pos rfl, filterResult_domainBlocking d.status r _ .home blockedDomains notifying hdomains]
  exact filterFromHome_agrees hm h r none (List.mem_singleton.mpr rfl)

theorem filterFromTags_agrees (hm : Matches db d s) (hbroadcast : d.broadcastable = true)
    {receivers : List ℤ} {r : ℤ} (hr : r ∈ receivers) : ∃ crutches,
      crutchesFor db.toDatabase d.status d.authorDomain receivers true r = some crutches ∧
        StreamingFanOut.filterFromTags db s r =
          FeedFilter.filterFromTags d.status d.authorDomain r crutches := by
  obtain ⟨blockedDomains, notifying, hc, _, hdomain⟩ :=
    crutchesFor_apply db.toDatabase d.status d.authorDomain receivers true hr
  refine ⟨_, hc, ?_⟩
  -- a status that goes to all is no boost
  have hof : d.status.reblogOfId = none := by
    simp only [DistributedStatus.broadcastable, decide_eq_true_eq, Option.isNone_iff_eq_none]
      at hbroadcast
    exact hbroadcast.2.1
  have hreblog : s.status.reblogOfId.isSome = s.reblog.isSome := by
    cases hboosted : s.reblog with
    | none => rw [← hm.reblogOfId, hof]; rfl
    | some boosted => exact hm.boosts (by rw [hboosted]; rfl)
  have hnone : s.reblog = none := by
    rw [← hm.reblogOfId, hof] at hreblog
    exact Option.not_isSome_iff_eq_none.mp (by rw [← hreblog]; simp)
  have hbatch : d.status ∈ [d.status] := List.mem_singleton.mpr rfl
  have hblocks := blocksOrMutesAny_build hm r hbatch none hreblog
  have hblocked := blockedBy_build hm r hbatch none (x := s.status.accountId) (.inl rfl)
  have hchecked : checkForBlocks
      (build db.toDatabase r [d.status] .home).activeMentions d.status =
      (((build db.toDatabase r [d.status] .home).activeMentions d.status.id).getD []) ++
        [d.status.accountId] := by
    rw [checkForBlocks, hof]
    simp
  have hdomains : (d.authorDomain.any fun x => decide (x ∈ blockedDomains)) =
      domainBlocking db r s.authorDomain := by
    rw [← hm.authorDomain]
    cases hauthor : d.authorDomain with
    | none => rfl
    | some domain =>
        rw [Bool.eq_iff_iff, domainBlocking]
        simp only [Option.any_some, decide_eq_true_eq, List.any_eq_true]
        exact hdomain domain hauthor
  rw [receiverFor, hchecked, hnone, Option.map_none, Option.toList_none, List.append_nil,
    hm.accountId] at hblocks
  rw [receiverFor] at hblocked
  rw [Bool.eq_iff_iff, StreamingFanOut.filterFromTags, FeedFilter.filterFromTags]
  dsimp only
  simp only [decide_eq_true_eq, Bool.or_eq_true, hblocks, hdomains, hblocked, hm.accountId,
    or_assoc]

/-! ### One status, read twice -/

theorem account_of_kept {id : ℤ} {row : StatusRow} (h : c.keptStatus id = some row) :
    ∃ account, c.account row.accountId = some account :=
  Option.isSome_iff_exists.mp
    (c.authors row (List.mem_of_find?_eq_some (Option.eq_some_of_filter_eq_some h)))

theorem subject_of_distributed (db : Relations c) {statusId : ℤ} (h : distributed c statusId = some d) :
    ∃ s, subject db statusId = some s ∧ s.status.deleted = false ∧ Matches db d s := by
  unfold distributed at h
  simp only [Option.bind_eq_bind, Option.bind_eq_some_iff] at h
  obtain ⟨row, hrow, author, hauthor, h⟩ := h
  obtain ⟨hstatus, hkept⟩ := Option.filter_eq_some_iff.mp hrow
  have hdeleted : row.deleted = false := by simpa using hkept
  unfold subject
  rw [hstatus]
  simp only [Option.bind_eq_bind, Option.bind_some, hauthor]
  cases hboosted : row.reblogOfId.bind c.keptStatus with
  | none =>
      simp only [hboosted] at h
      split at h
      · cases h
      next hsuspended =>
        cases h
        simp only [Option.bind_none]
        rw [if_neg hsuspended]
        exact ⟨_, rfl, hdeleted, ⟨rfl, rfl, rfl, rfl, rfl, rfl, rfl, rfl, rfl, nofun, rfl, rfl,
          rfl, rfl⟩⟩
  | some boosted =>
      obtain ⟨reblogOfId, hof, hboostedRow⟩ := Option.bind_eq_some_iff.mp hboosted
      obtain ⟨account, haccount⟩ := account_of_kept hboostedRow
      simp only [hboosted, Option.bind_some, haccount, Option.any_some] at h
      split at h
      · cases h
      next hsuspended =>
        cases h
        simp only [Option.bind_some, haccount]
        rw [if_neg hsuspended]
        refine ⟨_, rfl, hdeleted, ⟨rfl, rfl, rfl, rfl, rfl, rfl, rfl, rfl, rfl, ?_, rfl, rfl,
          rfl, rfl⟩⟩
        intro _
        rw [hof]
        rfl

/-! ### Lists -/

def keptFromList (db : Relations c) (s : Subject) (list : DistributingList) : Bool :=
  StreamingFanOut.filterFromList db s list ||
    (StreamingFanOut.filterFromHome db s list.accountId (some list)).isSome

theorem filterFromList_agrees (hm : Matches db d s) (h : Marked d) {lists : List (ℤ × ℤ × ℤ)}
    {list : DistributingList} (hl : list.id ∈ lists.map Prod.fst) :
    decide (d.status.reply ∧ d.status.inReplyToAccountId ≠ some d.status.accountId ∧
      d.status.inReplyToAccountId ≠ some list.accountId ∧ list.repliesPolicy ≠ repliesFollowed ∧
      ¬(list.repliesPolicy = repliesList ∧ decide (list.id ∈ listingReplyTarget db.toDatabase lists
        d.status.inReplyToAccountId) = true)) = StreamingFanOut.filterFromList db s list := by
  have hlisted : decide (list.id ∈ listingReplyTarget db.toDatabase lists
      d.status.inReplyToAccountId) = d.status.inReplyToAccountId.any (listed db list.id) := by
    cases hto : d.status.inReplyToAccountId with
    | none => simp [listingReplyTarget]
    | some target =>
        rw [Bool.eq_iff_iff, decide_eq_true_eq, mem_listingReplyTarget, Option.any_some, listed,
          List.any_eq_true]
        simp only [hl, true_and, decide_eq_true_eq]
  rw [hlisted, StreamingFanOut.filterFromList]
  rw [← hm.accountId, ← hm.inReplyToAccountId]
  by_cases hself : d.status.inReplyToAccountId = some d.status.accountId
  · simp [hself]
  · have hreply : isReply s.status = d.status.reply := by
      cases hparent : d.status.inReplyToId with
      | none => exact isReply_of_no_parent hm hparent
      | some parent =>
          rcases h (by rw [hparent]; rfl) with hreply | ⟨hown, _⟩
          · exact isReply_of_reply hm hreply
          · exact absurd hown hself
    rw [hreply]
    cases d.status.reply <;> simp [hself]

theorem listKeepsOut_agrees (hm : Matches db d s) (h : Marked d) {lists : List (ℤ × ℤ × ℤ)}
    {list : DistributingList} {owners : List ℤ} (hl : list.id ∈ lists.map Prod.fst)
    (ho : list.accountId ∈ owners) :
    listKeepsOut d.status (crutchesFor db.toDatabase d.status d.authorDomain owners false)
        (listingReplyTarget db.toDatabase lists d.status.inReplyToAccountId)
        (list.id, list.accountId, list.repliesPolicy) = some (keptFromList db s list) := by
  have hfilter := filterFromHome_agrees hm h list.accountId (some list)
    (List.mem_singleton.mpr (rfl : d.status = d.status))
  rw [listKeepsOut_eq db.toDatabase d.status d.authorDomain list.repliesPolicy hl ho,
    filterFromList_agrees hm h hl, keptFromList, hfilter]
  rfl

/-! ### What is published -/

section
variable {now : ℤ}

theorem mem_candidates {r : ℤ} (h : signedInRecently db now r = true)
    (hgoes : r = s.status.accountId ∨ follows db r s.status.accountId = true ∨
      (s.broadcastable = true ∧ followsTag db r s = true)) : r ∈ candidates db now s := by
  obtain ⟨u, hu, hsigned⟩ := List.any_eq_true.mp h
  obtain ⟨rfl, hrecent⟩ := of_decide_eq_true hsigned
  refine List.mem_map.mpr ⟨u, List.mem_filter.mpr ⟨hu, decide_eq_true ?_⟩, rfl⟩
  exact ⟨db.usersLocal u hu, hrecent, hgoes⟩

theorem broadcastable_eq (hm : Matches db d s) : s.broadcastable = d.broadcastable := by
  rw [Subject.broadcastable, DistributedStatus.broadcastable, hm.visibility, hm.reblogOfId,
    hm.authorSilenced]

theorem mem_followersFor {r : ℤ} (h : r ∈ followersFor db now d) :
    signedInRecently db now r = true ∧ follows db r d.status.accountId = true ∧
      (distributedVisibility d.visibility || mentioned db d.status.id r) = true := by
  rw [followersFor] at h
  cases hv : distributedVisibility d.visibility with
  | true =>
      simp only [hv, if_true, List.mem_filter] at h
      exact ⟨h.1.2, h.2, rfl⟩
  | false =>
      simp only [hv, Bool.false_eq_true, if_false, List.mem_filter] at h
      exact ⟨h.1.1.2, h.1.2, h.2⟩

theorem mem_tagFollowersFor {r : ℤ} (h : r ∈ tagFollowersFor db now d) :
    d.broadcastable = true ∧ signedInRecently db now r = true ∧
      ∃ tf ∈ db.tagFollows, tf.accountId = r ∧ tf.tagId ∈ c.tagIds d.status.id := by
  rw [tagFollowersFor] at h
  split at h
  next hbroadcast =>
    obtain ⟨hmem, hsigned⟩ := List.mem_filter.mp h
    obtain ⟨tf, htf, rfl⟩ := List.mem_map.mp (List.mem_dedup.mp hmem)
    obtain ⟨htf, htag⟩ := List.mem_filter.mp htf
    exact ⟨hbroadcast, hsigned, tf, htf, rfl, of_decide_eq_true htag⟩
  next => cases h

theorem delivery_of_fanOutHome (hm : Matches db d s) (h : Marked d) {r : ℤ}
    (hr : r ∈ fanOutHome db now d) : r ∈ candidates db now s ∧
      ∃ kind ∈ homeDeliveries db s r, passes db s r kind = true := by
  by_cases hself : r = s.status.accountId
  · have hdelivered : Delivery.self ∈ homeDeliveries db s r :=
      List.mem_append_left _ (by rw [if_pos hself]; exact List.mem_cons_self)
    refine ⟨mem_candidates ?_ (.inl hself), .self, hdelivered, rfl⟩
    rcases List.mem_append.mp hr with hr | hr
    · rcases List.mem_append.mp hr with hr | hr
      · exact (List.mem_filter.mp hr).2
      · exact (mem_followersFor (List.mem_filter.mp hr).1).1
    · exact (mem_tagFollowersFor (List.mem_filter.mp hr).1).2.1
  · rcases List.mem_append.mp hr with hr | hr
    · rcases List.mem_append.mp hr with hr | hr
      · exact absurd ((List.mem_singleton.mp (List.mem_filter.mp hr).1).trans hm.accountId) hself
      · obtain ⟨hfollower, hpasses⟩ := List.mem_filter.mp hr
        obtain ⟨hsigned, hfollows, hgoes⟩ := mem_followersFor hfollower
        obtain ⟨crutches, hcrutches, hagrees⟩ := filterFromHome_fanOut hm h
          (List.mem_dedup.mpr (List.mem_append_left (tagFollowersFor db now d) hfollower))
        rw [hcrutches, Option.any_some] at hpasses
        rw [hm.accountId] at hfollows
        rw [hm.visibility, hm.id] at hgoes
        refine ⟨mem_candidates hsigned (.inr (.inl hfollows)), .follower, ?_, ?_⟩
        · refine List.mem_append_left _ ?_
          rw [if_neg hself, hfollows, hgoes]
          exact List.mem_cons_self
        · rw [passes, hagrees]
          exact hpasses
    · obtain ⟨hfollower, hpasses⟩ := List.mem_filter.mp hr
      obtain ⟨hbroadcast, hsigned, tf, htf, rfl, htag⟩ := mem_tagFollowersFor hfollower
      obtain ⟨crutches, hcrutches, hagrees⟩ := filterFromTags_agrees hm hbroadcast
        (List.mem_dedup.mpr (List.mem_append_right (followersFor db now d) hfollower))
      rw [hcrutches, Option.any_some] at hpasses
      rw [hm.id, ← hm.tagIds] at htag
      have hfollowsTag : followsTag db tf.accountId s = true :=
        List.any_eq_true.mpr ⟨tf, htf, decide_eq_true ⟨rfl, htag⟩⟩
      rw [← broadcastable_eq hm] at hbroadcast
      refine ⟨mem_candidates hsigned (.inr (.inr ⟨hbroadcast, hfollowsTag⟩)), .tags, ?_, ?_⟩
      · refine List.mem_append_right _ ?_
        rw [if_pos ⟨hbroadcast, List.ne_nil_of_mem htag, hfollowsTag⟩]
        exact List.mem_cons_self
      · rw [passes, hagrees]
        exact hpasses

theorem mem_listsForLocalDistribution {authorId id owner policy : ℤ}
    (h : (id, owner, policy) ∈ listsForLocalDistribution db.toDatabase now authorId) :
    distributingList db now id authorId = some ⟨id, owner, policy⟩ ∧
      ∃ la ∈ db.listAccounts, la.accountId = authorId ∧ la.listId = id := by
  obtain ⟨l, hl, heq⟩ := List.mem_map.mp (List.mem_dedup.mp h)
  cases heq
  obtain ⟨hl, hdistributes⟩ := List.mem_filter.mp hl
  have hholds := of_decide_eq_true hdistributes
  constructor
  · have honly : ∀ m ∈ db.lists, m.id = l.id → m = l := by
      intro m hmem hid
      by_contra hne
      have hsymm : Std.Symm fun l m : FeedList => l.id ≠ m.id := ⟨fun _ _ hn he => hn he.symm⟩
      exact db.listsOnce.forall hmem hl hne hid
    rw [distributingList]
    cases hfind : db.lists.find? fun m => decide (m.id = l.id ∧
        (∃ la ∈ db.listAccounts, la.listId = m.id ∧ la.accountId = authorId ∧
          (la.followId.isSome ∨ m.accountId = authorId)) ∧
        ∃ u ∈ db.users, u.accountId = m.accountId ∧
          u.currentSignInAt.any fun at' => now - activeSeconds ≤ at') with
    | none =>
        have hnot := List.find?_eq_none.mp hfind l hl
        exact absurd (decide_eq_true ⟨rfl, hholds⟩) hnot
    | some m =>
        have hfound := List.find?_some hfind
        rw [decide_eq_true_eq] at hfound
        rw [honly m (List.mem_of_find?_eq_some hfind) hfound.1]
        rfl
  · obtain ⟨⟨la, hla, hid, hauthor, _⟩, _⟩ := hholds
    exact ⟨la, hla, hauthor, hid⟩

theorem listLetsIn_of_fanOutLists (hm : Matches db d s) (h : Marked d) {id : ℤ}
    (hid : (id, false) ∈ fanOutLists db.toDatabase now d.toDistributed) :
    distributedVisibility s.status.visibility = true ∧
      id ∈ ((db.listAccounts.filter (·.accountId = s.status.accountId)).map (·.listId)) ∧
      listLetsIn db now s id = true := by
  rw [fanOutLists] at hid
  split at hid
  · cases hid
  next hvisible =>
    obtain ⟨⟨listId, owner, policy⟩, hl, hout⟩ := List.mem_filterMap.mp hid
    obtain ⟨out, hkept, heq⟩ := Option.map_eq_some_iff.mp hout
    cases heq
    obtain ⟨hdistributing, la, hla, hauthor, hlist⟩ := mem_listsForLocalDistribution hl
    have hlets : keptFromList db s ⟨listId, owner, policy⟩ = false := by
      have hlisted : listId ∈ (listsForLocalDistribution db.toDatabase now
          d.status.accountId).map Prod.fst := List.mem_map_of_mem hl
      have howner : owner ∈ ((listsForLocalDistribution db.toDatabase now
          d.status.accountId).map fun l => l.2.1).dedup :=
        List.mem_dedup.mpr (List.mem_map_of_mem hl)
      exact Option.some.inj ((listKeepsOut_agrees hm h hlisted howner).symm.trans hkept)
    refine ⟨?_, ?_, ?_⟩
    · rw [← hm.visibility]
      exact decide_eq_true (not_not.mp hvisible)
    · refine List.mem_map.mpr ⟨la, List.mem_filter.mpr ⟨hla, decide_eq_true ?_⟩, hlist⟩
      rw [hauthor, hm.accountId]
    · rw [keptFromList, Bool.or_eq_false_iff] at hlets
      rw [listLetsIn, ← hm.accountId, hdistributing, Option.any_some, hlets.1]
      simpa using hlets.2

end

end

/-! ### The stream shows what the feeds show -/

/-- The stream's decisions about a status are the feeds', and what it publishes of a status
it distributes at all goes to the streaming homes and lists that took it in. -/
structure StreamsAsFed (c : Content) (db : Relations c) (statusId : ℤ) : Prop where
  filters : ∀ d s, distributed c statusId = some d → subject db statusId = some s →
    ∀ r list batch, d.status ∈ batch →
      StreamingFanOut.filterFromHome db s r list =
        filterResult d.status r (build db.toDatabase r batch (receiverFor list))
          (receiverFor list)
  home : ∀ d s, distributed c statusId = some d → subject db statusId = some s →
    ∀ receivers, ∀ r ∈ receivers, ∃ crutches,
      crutchesFor db.toDatabase d.status d.authorDomain receivers true r = some crutches ∧
        StreamingFanOut.filterFromHome db s r none = filterResult d.status r crutches .home
  lists : ∀ d s, distributed c statusId = some d → subject db statusId = some s →
    ∀ lists owners, ∀ list : DistributingList, list.id ∈ lists.map Prod.fst →
      list.accountId ∈ owners →
      listKeepsOut d.status (crutchesFor db.toDatabase d.status d.authorDomain owners false)
          (listingReplyTarget db.toDatabase lists d.status.inReplyToAccountId)
          (list.id, list.accountId, list.repliesPolicy) = some (keptFromList db s list)
  tags : ∀ d s, distributed c statusId = some d → subject db statusId = some s →
    d.broadcastable = true → ∀ receivers, ∀ r ∈ receivers, ∃ crutches,
      crutchesFor db.toDatabase d.status d.authorDomain receivers true r = some crutches ∧
        StreamingFanOut.filterFromTags db s r =
          FeedFilter.filterFromTags d.status d.authorDomain r crutches
  published : ∀ now update subscribed pushHome pushList,
    (∀ s, subject db statusId = some s → s.isLocal = true ∨ update = true ∨
      now - s.status.createdAt ≤ realTimeWindow) →
    (∀ r, r ∈ (distribute db now statusId update subscribed
        (fanoutStatus db now statusId pushHome pushList)).homes ↔
      subscribed.home r = true ∧
        (fanoutStatus db now statusId pushHome pushList).homes r = true) ∧
    ∀ id, id ∈ (distribute db now statusId update subscribed
        (fanoutStatus db now statusId pushHome pushList)).lists ↔
      subscribed.list id = true ∧
        (fanoutStatus db now statusId pushHome pushList).lists id = true

section
variable {c : Content} {db : Relations c} {statusId : ℤ}

theorem mem_distribute {now : ℤ} {update : Bool} {subscribed : Subscribed} {fed : Pushed} :
    (∀ r ∈ (distribute db now statusId update subscribed fed).homes,
      subscribed.home r = true ∧ fed.homes r = true) ∧
    ∀ id ∈ (distribute db now statusId update subscribed fed).lists,
      subscribed.list id = true ∧ fed.lists id = true := by
  rw [distribute]
  split
  · exact ⟨nofun, nofun⟩
  · split
    · exact ⟨nofun, nofun⟩
    · split
      · exact ⟨nofun, nofun⟩
      · constructor
        · intro r hr
          obtain ⟨receiver, hreceiver, hr⟩ := List.mem_flatMap.mp hr
          obtain ⟨kind, hkind, rfl⟩ := List.mem_map.mp hr
          have hpassed := (List.mem_filter.mp hkind).2
          rw [Bool.and_eq_true] at hpassed
          exact ⟨(List.mem_filter.mp hreceiver).2, hpassed.2⟩
        · intro id hid
          dsimp only at hid
          split at hid
          · obtain ⟨hid, hfed⟩ := List.mem_filter.mp hid
            exact ⟨(List.mem_filter.mp (List.mem_filter.mp hid).1).2, hfed⟩
          · cases hid

theorem distribute_of_fed {d : DistributedStatus} {s : Subject}
    (hd : distributed c statusId = some d) (hs : subject db statusId = some s)
    (hkept : s.status.deleted = false) (hm : Matches db d s) (h : Marked d) {now : ℤ}
    {update : Bool} {subscribed : Subscribed} {pushHome pushList : ℤ → Bool}
    (htime : s.isLocal = true ∨ update = true ∨ now - s.status.createdAt ≤ realTimeWindow) :
    (∀ r, subscribed.home r = true →
      (fanoutStatus db now statusId pushHome pushList).homes r = true →
      r ∈ (distribute db now statusId update subscribed
        (fanoutStatus db now statusId pushHome pushList)).homes) ∧
    ∀ id, subscribed.list id = true →
      (fanoutStatus db now statusId pushHome pushList).lists id = true →
      id ∈ (distribute db now statusId update subscribed
        (fanoutStatus db now statusId pushHome pushList)).lists := by
  have hstreams : ¬ ((!s.isLocal) = true ∧ (!update) = true ∧
      realTimeWindow < now - s.status.createdAt) := by
    rintro ⟨hremote, hnew, hold⟩
    rcases htime with hlocal | hedit | hrecent
    · rw [hlocal] at hremote
      cases hremote
    · rw [hedit] at hnew
      cases hnew
    · omega
  rw [distribute, hs]
  dsimp only
  rw [hkept, if_neg Bool.false_ne_true, if_neg hstreams]
  constructor
  · intro r hsubscribed hfed
    have hpushed := hfed
    rw [fanoutStatus, hd] at hpushed
    obtain ⟨hcandidate, kind, hkind, hpasses⟩ :=
      delivery_of_fanOutHome hm h (of_decide_eq_true hpushed).1
    refine List.mem_flatMap.mpr ⟨r, List.mem_filter.mpr ⟨hcandidate, hsubscribed⟩, ?_⟩
    refine List.mem_map.mpr ⟨kind, List.mem_filter.mpr ⟨hkind, ?_⟩, rfl⟩
    rw [hpasses, hfed]
    rfl
  · intro id hsubscribed hfed
    have hpushed := hfed
    rw [fanoutStatus, hd] at hpushed
    obtain ⟨hvisible, hlist, hlets⟩ :=
      listLetsIn_of_fanOutLists hm h (of_decide_eq_true hpushed).1
    dsimp only
    rw [if_pos hvisible]
    refine List.mem_filter.mpr ⟨List.mem_filter.mpr ⟨?_, hlets⟩, hfed⟩
    exact List.mem_filter.mpr ⟨List.mem_dedup.mpr hlist, hsubscribed⟩

theorem streamsAsFed_of_marked (h : ∀ d, distributed c statusId = some d → Marked d) :
    StreamsAsFed c db statusId := by
  have hmatches {d : DistributedStatus} {s : Subject} (hd : distributed c statusId = some d)
      (hs : subject db statusId = some s) : Matches db d s := by
    obtain ⟨s', hs', _, hm⟩ := subject_of_distributed db hd
    rw [hs] at hs'
    cases hs'
    exact hm
  constructor
  · intro d s hd hs r list batch hbatch
    exact filterFromHome_agrees (hmatches hd hs) (h d hd) r list hbatch
  · intro d s hd hs receivers r hr
    exact filterFromHome_fanOut (hmatches hd hs) (h d hd) hr
  · intro d s hd hs lists owners list hl ho
    exact listKeepsOut_agrees (hmatches hd hs) (h d hd) hl ho
  · intro d s hd hs hbroadcast receivers r hr
    exact filterFromTags_agrees (hmatches hd hs) hbroadcast hr
  · intro now update subscribed pushHome pushList htime
    cases hd : distributed c statusId with
    | none =>
        have hnothing : fanoutStatus db now statusId pushHome pushList =
            ⟨fun _ => false, fun _ => false⟩ := by rw [fanoutStatus, hd]
        constructor
        · refine fun r => ⟨fun hr => mem_distribute.1 r hr, fun hfed => ?_⟩
          rw [hnothing] at hfed
          cases hfed.2
        · refine fun id => ⟨fun hid => mem_distribute.2 id hid, fun hfed => ?_⟩
          rw [hnothing] at hfed
          cases hfed.2
    | some d =>
        obtain ⟨s, hs, hkept, hm⟩ := subject_of_distributed db hd
        obtain ⟨hhomes, hlists⟩ := distribute_of_fed hd hs hkept hm (h d hd) (htime s hs)
        exact ⟨fun r => ⟨fun hr => mem_distribute.1 r hr, fun hfed => hhomes r hfed.1 hfed.2⟩,
          fun id => ⟨fun hid => mem_distribute.2 id hid, fun hfed => hlists id hfed.1 hfed.2⟩⟩

end

/-! ### Replies that are not marked -/

def noRelations (c : Content) : Relations c where
  follows := []
  blocks := []
  mutes := []
  accountDomainBlocks := []
  mentions := []
  lists := []
  listAccounts := []
  users := []
  tagFollows := []
  followsOnce := .nil
  listsOnce := .nil
  usersLocal := nofun

def hidesBoosts (c : Content) (accountId targetAccountId : ℤ) : Relations c :=
  { noRelations c with
    follows := [⟨accountId, targetAccountId, false, false, none⟩]
    followsOnce := List.pairwise_singleton _ _ }

section
variable {c : Content} {statusId : ℤ} {d : DistributedStatus}

theorem isReply_of_parent {db : Relations c} {s : Subject} (hm : Matches db d s)
    (h : d.status.inReplyToId.isSome) : isReply s.status = true := by
  rw [isReply, ← hm.inReplyToId, h, Bool.or_true]

theorem replies_to_author (h : StreamsAsFed c (noRelations c) statusId)
    (hd : distributed c statusId = some d) (hparent : d.status.inReplyToId.isSome)
    (hreply : d.status.reply = false) :
    d.status.inReplyToAccountId = some d.status.accountId := by
  by_contra hself
  obtain ⟨s, hs, _, hm⟩ := subject_of_distributed (noRelations c) hd
  have hlists := h.lists d s hd hs [(0, d.status.accountId, 2)] [d.status.accountId]
    ⟨0, d.status.accountId, 2⟩ (by simp) (by simp)
  have hkept : keptFromList (noRelations c) s ⟨0, d.status.accountId, 2⟩ = true := by
    rw [keptFromList, StreamingFanOut.filterFromList, isReply_of_parent hm hparent,
      ← hm.inReplyToAccountId, ← hm.accountId]
    simp [hself, repliesFollowed, repliesList]
  rw [hkept, listKeepsOut_eq _ _ _ _ (by simp) (by simp), hreply] at hlists
  simp [FeedFilter.filterFromHome, filterResult] at hlists

theorem no_boost (h : ∀ r, StreamsAsFed c (hidesBoosts c r d.status.accountId) statusId)
    (hd : distributed c statusId = some d) (hparent : d.status.inReplyToId.isSome)
    (hreply : d.status.reply = false)
    (hself : d.status.inReplyToAccountId = some d.status.accountId) : d.status.reblog = none := by
  by_contra hboost
  obtain ⟨⟨reblogAuthor, reblogDomain⟩, hreblog⟩ := Option.ne_none_iff_exists'.mp hboost
  let r := d.status.accountId + 1
  let db := hidesBoosts c r d.status.accountId
  obtain ⟨s, hs, _, hm⟩ := subject_of_distributed db hd
  have hbatch : d.status ∈ [d.status] := List.mem_singleton.mpr rfl
  have hsame : decision db true s r none = decision db false s r none := by
    rw [← isReply_of_parent hm hparent, ← filterFromHome_eq_decision, ← hreply,
      ← filterResult_build hm r hbatch]
    exact (h r).filters d s hd hs r none [d.status] hbatch
  have hother : ¬ r = s.status.accountId := by
    rw [← hm.accountId]
    exact fun he => absurd he (Int.ne_of_gt (Int.lt_succ _))
  have hlanguage : otherLanguage db r s.status = false := by
    rw [otherLanguage]
    split
    · rfl
    · have hnone : languagesOf db r s.status.accountId = [] := by
        rw [languagesOf, ← hm.accountId]
        simp [db, hidesBoosts]
      rw [hnone]
      rfl
  have hblocks (targets : List ℤ) : blocksOrMutesAny db r targets = false := rfl
  have hblocked (accountId : ℤ) : blockedBy db r accountId = false := rfl
  have hunlisted : exclusivelyListed db r s.status.accountId = false := rfl
  have hhides : lastTests db false s r none = true := by
    unfold lastTests
    rw [← hm.inReplyToAccountId, hself, ← hm.reblog, hreblog, ← hm.accountId]
    simp [hidingReblogs, db, hidesBoosts]
  have hshows : lastTests db true s r none = false := by
    unfold lastTests
    rw [← hm.inReplyToAccountId, hself, ← hm.accountId]
    simp
  have hkept : s.reblog.isNone = false := by rw [← hm.reblog, hreblog]; rfl
  obtain ⟨parent, hid⟩ := Option.isSome_iff_exists.mp hparent
  unfold decision at hsame
  dsimp only at hsame
  rw [← hm.inReplyToAccountId, hself, ← hm.inReplyToId, hid] at hsame
  simp [hother, hunlisted, hlanguage, hblocks, hblocked, hhides, hshows, hkept] at hsame

end

def unmarkedReply : Content where
  statuses := [⟨9, 3, false, none, none, none, none, visPublic, 0, false⟩,
    ⟨10, 1, false, some 9, some 3, none, none, visPublic, 0, false⟩]
  accounts := [⟨1, none, false, false⟩, ⟨2, none, false, false⟩, ⟨3, none, false, false⟩]
  statusesTags := []
  authors := by decide

def followsOne : Relations unmarkedReply :=
  { noRelations unmarkedReply with
    follows := [⟨2, 1, true, false, none⟩]
    users := [⟨2, some 0⟩]
    followsOnce := List.pairwise_singleton _ _
    usersLocal := by decide }

example : (subject followsOne 10).map (·.isLocal) = some true := by decide +kernel

end Eunha.StreamingAgreement
