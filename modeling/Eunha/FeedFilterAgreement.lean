import Eunha.FeedFilter

/-!
# The fan-out filters as the rebuild does

For a receiver it fans out to, `crutchesFor` gathers what `build` gathers for the
one status, field by field: it differs in the blocked domains, where it asks
about the author's domain too, and in a field the filter does not read. The
filter reads the blocked domains at the boosted author's alone.
-/
namespace Eunha.FeedFilter
open Maps

theorem foldl_addFollow (author : ℤ) (reblogOfId : Option ℤ) (rows : List Follow)
    (h : ∀ f ∈ rows, f.targetAccountId = author) (c : Crutches) :
    ∃ n, rows.foldl (fun c f => c.addFollow author reblogOfId f) c =
      { c with
        languages :=
          (rows.filterMap fun f => f.named.map fun l => (f.targetAccountId, l)).foldl
            (fun m p => m.insert p.1 p.2) c.languages
        hidingReblogs :=
          c.hidingReblogs ∪
            ((rows.filter fun f => reblogOfId.isSome ∧ ¬f.showReblogs).map
              Follow.targetAccountId).toFinset
        notifying := n } := by
  induction rows generalizing c with
  | nil => exact ⟨c.notifying, by simp⟩
  | cons f rows ih =>
      have hf := h f (by simp)
      obtain ⟨n, hn⟩ := ih (fun g hg => h g (List.mem_cons_of_mem f hg))
        (c.addFollow author reblogOfId f)
      refine ⟨n, ?_⟩
      rw [List.foldl_cons, hn]
      unfold Crutches.addFollow
      cases hl : f.named <;> cases hs : f.showReblogs <;> cases reblogOfId <;>
        simp [hl, hs, hf]

theorem filter_receiver {X : Type*} {receivers : List ℤ} {r : ℤ} (hr : r ∈ receivers)
    (rows : List X) (key : X → ℤ) (q : X → Prop) [DecidablePred q] :
    (rows.filter fun x => decide (key x ∈ receivers ∧ q x)).filter (fun x => decide (key x = r)) =
      rows.filter fun x => decide (key x = r ∧ q x) := by
  rw [List.filter_filter]
  refine List.filter_congr fun x _ => ?_
  by_cases hx : key x = r <;> simp [hx, hr]

theorem modifyEach_insert {C A X : Type*} [DecidableEq A] (upd : (Finset A → Finset A) → C → C)
    (hid : ∀ c, upd id c = c) (hcomp : ∀ f g c, upd f (upd g c) = upd (f ∘ g) c)
    {receivers : List ℤ} {r : ℤ} (hr : r ∈ receivers) {m : HashMap ℤ C} {c : C} (hm : m r = some c)
    (table : List X) (key : X → ℤ) (q : X → Prop) [DecidablePred q] (f : X → A) :
    m.modifyEach (table.filter fun x => decide (key x ∈ receivers ∧ q x)) key
        (fun x => upd (insert (f x))) r =
      some (upd (fun s => (table.filter fun x => decide (key x = r ∧ q x)).foldl
        (fun s x => insert (f x) s) s) c) := by
  rw [HashMap.modifyEach_field upd hid hcomp hm, filter_receiver hr]

/-- What `crutchesFor` gathers for one of its receivers is what `build` gathers,
but for the blocked domains, where it asks about the author's too, and the notifying flag. -/
theorem crutchesFor_apply (db : Database) (status : Candidate) (authorDomain : Option String)
    (receivers : List ℤ) (home : Bool) {r : ℤ} (hr : r ∈ receivers) :
    ∃ blockedDomains notifying,
      crutchesFor db status authorDomain receivers home r =
        some { build db r [status] .home with
          domainBlocking := blockedDomains
          exclusiveListUsers :=
            if home then (build db r [status] .home).exclusiveListUsers else ∅
          notifying } ∧
      (∀ d, status.reblog.bind Prod.snd = some d →
        (d ∈ blockedDomains ↔ d ∈ (build db r [status] .home).domainBlocking)) ∧
      ∀ d, authorDomain = some d →
        (d ∈ blockedDomains ↔
          ∃ row ∈ db.accountDomainBlocks, row.accountId = r ∧ row.domain = d) := by
  have hne : ¬receivers.isEmpty := by
    cases receivers <;> simp_all
  unfold crutchesFor
  extract_lets author mentions checked reblogAuthor domains authors c₁ c₂ c₃ c₄ c₅ c₆ c₇ built
  rw [if_neg hne]
  have h₁ : c₁ r = some { following := built.following } := by
    have h₀ : (receivers.foldl (fun m r => m.insert r ({} : Crutches)) HashMap.empty) r =
        some {} := by
      rw [HashMap.foldl_insert_apply, if_pos hr]
    simp only [c₁]
    cases hx : status.inReplyToAccountId with
    | none => simpa [built, build, hx] using h₀
    | some x =>
        refine (modifyEach_insert (fun f c => { c with following := f c.following })
          (fun _ => rfl) (fun _ _ _ => rfl) hr h₀ db.follows Follow.accountId
          (fun f => f.targetAccountId = x) (fun _ => x)).trans ?_
        have hset : (db.follows.filter fun f =>
            decide (f.accountId = r ∧ f.targetAccountId = x)).map (fun _ => x) = (db.follows.filter fun f =>
              decide (f.accountId = r ∧ f.targetAccountId = x)).map Follow.targetAccountId :=
          List.map_congr_left fun f hf => by simp_all
        simp only [foldl_insert_eq_toFinset, hset]
        simp [built, build, hx]
  have h₂ : ∃ n, c₂ r = some
      { following := built.following
        languages := built.languages
        hidingReblogs := built.hidingReblogs
        notifying := n } := by
    obtain ⟨n, hn⟩ := foldl_addFollow author status.reblogOfId
      (db.follows.filter fun f => decide (f.accountId = r ∧ f.targetAccountId = author))
      (by simp +contextual) { following := built.following }
    refine ⟨n, ?_⟩
    simp only [c₂, HashMap.modifyEach_apply, h₁, Option.map_some, filter_receiver hr, hn]
    cases hq : status.reblogOfId <;>
      simp [built, build, author, hq, List.filter_filter, and_comm, and_left_comm]
  obtain ⟨n, h₂⟩ := h₂
  -- What has been gathered after the follows, the mutes and the blocks of the author.
  let followed : Crutches :=
    { following := built.following
      languages := built.languages
      hidingReblogs := built.hidingReblogs
      notifying := n }
  have h₃ : c₃ r = some { followed with blocking := built.blocking } := by
    refine (modifyEach_insert (fun f c => { c with blocking := f c.blocking }) (fun _ => rfl)
      (fun _ _ _ => rfl) hr h₂ db.blocks Block.accountId (fun b => b.targetAccountId ∈ checked)
      Block.targetAccountId).trans ?_
    simp [foldl_insert_eq_toFinset, followed, built, build, checked, mentions]
  let muted : Crutches :=
    { followed with blocking := built.blocking, muting := built.muting }
  have h₄ : c₄ r = some muted := by
    refine (modifyEach_insert (fun f c => { c with muting := f c.muting }) (fun _ => rfl)
      (fun _ _ _ => rfl) hr h₃ db.mutes Mute.accountId (fun m => m.targetAccountId ∈ checked)
      Mute.targetAccountId).trans ?_
    simp [foldl_insert_eq_toFinset, muted, followed, built, build, checked, mentions]
  let blockedDomains :=
    ((db.accountDomainBlocks.filter fun d => decide (d.accountId = r ∧ d.domain ∈ domains)).map
      AccountDomainBlock.domain).toFinset
  have h₅ : c₅ r = some { muted with domainBlocking := blockedDomains } := by
    simp only [c₅]
    split_ifs with hd
    · simp [h₄, muted, followed, blockedDomains, List.isEmpty_iff.mp hd]
    · refine (modifyEach_insert (fun f c => { c with domainBlocking := f c.domainBlocking })
        (fun _ => rfl) (fun _ _ _ => rfl) hr h₄ db.accountDomainBlocks AccountDomainBlock.accountId
        (fun d => d.domain ∈ domains) AccountDomainBlock.domain).trans ?_
      simp [foldl_insert_eq_toFinset, muted, followed, blockedDomains]
  let blocked : Crutches :=
    { muted with domainBlocking := blockedDomains, blockedBy := built.blockedBy }
  have h₆ : c₆ r = some blocked := by
    refine (modifyEach_insert (fun f c => { c with blockedBy := f c.blockedBy }) (fun _ => rfl)
      (fun _ _ _ => rfl) hr h₅ db.blocks Block.targetAccountId (fun b => b.accountId ∈ authors)
      Block.accountId).trans ?_
    have hauthors : authors =
        [status].flatMap fun s => s.accountId :: (s.reblog.map Prod.fst).toList := by
      simp [authors, author, reblogAuthor]
    simp only [muted, followed, foldl_insert_eq_toFinset, hauthors]
    rfl
  have h₇ : c₇ r =
      some { blocked with exclusiveListUsers := if home then built.exclusiveListUsers else ∅ } := by
    simp only [c₇]
    split_ifs with hh
    · refine (modifyEach_insert
        (fun f c => { c with exclusiveListUsers := f c.exclusiveListUsers }) (fun _ => rfl)
        (fun _ _ _ => rfl) hr h₆ db.lists FeedList.accountId
        (fun l => l.exclusive ∧ ∃ la ∈ db.listAccounts, la.listId = l.id ∧ la.accountId = author)
        (fun _ => author)).trans ?_
      simp only [blocked, muted, followed, foldl_insert_eq_toFinset]
      have hset : ((db.lists.filter fun l => decide (l.accountId = r ∧ l.exclusive ∧
          ∃ la ∈ db.listAccounts, la.listId = l.id ∧ la.accountId = author)).map
            fun _ => author).toFinset = built.exclusiveListUsers := by
        ext x
        simp only [built, build, author, List.mem_toFinset, List.mem_map, List.mem_filter,
          decide_eq_true_eq, List.map_cons, List.map_nil, List.mem_singleton]
        constructor
        · rintro ⟨l, ⟨hl, hr, he, la, hla, hid, ha⟩, rfl⟩
          exact ⟨la, ⟨hla, ha, l, hl, hid.symm, hr, he⟩, ha⟩
        · rintro ⟨la, ⟨hla, ha, l, hl, hid, hr, he⟩, rfl⟩
          exact ⟨l, ⟨hl, hr, he, la, hla, hid.symm, ha⟩, ha.symm⟩
      simp only [hset]
    · exact h₆
  refine ⟨blockedDomains, n, ?_, ?_, ?_⟩
  · simp [h₇, blocked, muted, followed, built, build, mentions]
  · intro d hd
    simp only [blockedDomains, build, domains, hd, List.mem_toFinset, List.mem_map, List.mem_filter]
    constructor
    · rintro ⟨row, ⟨hrow, hq⟩, rfl⟩
      exact ⟨row, ⟨hrow, by simp_all⟩, rfl⟩
    · rintro ⟨row, ⟨hrow, hq⟩, rfl⟩
      exact ⟨row, ⟨hrow, by simp_all⟩, rfl⟩
  · intro d hd
    simp only [blockedDomains, domains, hd, List.mem_toFinset, List.mem_map, List.mem_filter]
    constructor
    · rintro ⟨row, ⟨hrow, hq⟩, rfl⟩
      exact ⟨row, hrow, (of_decide_eq_true hq).1, rfl⟩
    · rintro ⟨row, hrow, hr, rfl⟩
      exact ⟨row, ⟨hrow, by simp [hr]⟩, rfl⟩

theorem filterResult_domainBlocking (status : Candidate) (r : ℤ) (c : Crutches)
    (receiver : Receiver) (blockedDomains : Finset String) (notifying : Bool)
    (h : ∀ d, status.reblog.bind Prod.snd = some d → (d ∈ blockedDomains ↔ d ∈ c.domainBlocking)) :
    filterResult status r { c with domainBlocking := blockedDomains, notifying } receiver =
      filterResult status r c receiver := by
  have hides : filteredAfterLists.hidesReblog status
      { c with domainBlocking := blockedDomains, notifying } =
      filteredAfterLists.hidesReblog status c := by
    unfold filteredAfterLists.hidesReblog
    rcases hreblog : status.reblog with _ | ⟨reblogAccountId, _ | domain⟩
    · rfl
    · rfl
    · simp [h domain (by simp [hreblog])]
  unfold filterResult filteredAfterLists
  simp only [hides]

/-! ### Lists -/

theorem build_list (db : Database) (status : Candidate) (owner id policy : ℤ) :
    build db owner [status] (.list id policy) =
      { build db owner [status] .home with
        following := (build db owner [status] (.list id policy)).following
        exclusiveListUsers := ∅ } := rfl

theorem filterFromHome_of_reply {status : Candidate} {owner id policy : ℤ} {c : Crutches}
    (hauthor : owner ≠ status.accountId) (hreply : status.reply)
    (hself : status.inReplyToAccountId ≠ some status.accountId)
    (howner : status.inReplyToAccountId ≠ some owner)
    (hfollowing : ∀ target, status.inReplyToAccountId = some target → target ∉ c.following) :
    filterFromHome status owner c (.list id policy) = true := by
  unfold filterFromHome filterResult
  rw [if_neg hauthor]
  split_ifs with hgone hexclusive hfiltered
  · rfl
  · rfl
  · rfl
  · exfalso
    apply hfiltered
    rcases ht : status.inReplyToAccountId with _ | target
    · simp_all
    · have hreplied : target ∉ c.following ∧ owner ≠ target ∧ status.accountId ≠ target :=
        ⟨hfollowing target ht, fun h => howner (by rw [ht, h]), fun h => hself (by rw [ht, h])⟩
      unfold filteredAfterLists
      split_ifs
      all_goals simp [ht, hreply, hreplied]

theorem mem_listingReplyTarget {db : Database} {lists : List (ℤ × ℤ × ℤ)} {id target : ℤ} :
    id ∈ listingReplyTarget db lists (some target) ↔
      id ∈ lists.map Prod.fst ∧ ∃ la ∈ db.listAccounts, la.listId = id ∧ la.accountId = target := by
  simp only [listingReplyTarget, List.mem_map, List.mem_filter,
    decide_eq_true_eq]
  constructor
  · rintro ⟨la, ⟨hla, hid, ha⟩, rfl⟩
    exact ⟨hid, la, hla, rfl, ha⟩
  · rintro ⟨hid, la, hla, rfl, ha⟩
    exact ⟨la, ⟨hla, hid, ha⟩, rfl⟩

/-- The accounts the fan-out takes a list to follow are those `build` asks for. -/
theorem following_list (db : Database) (status : Candidate) (owner id policy : ℤ)
    {lists : List (ℤ × ℤ × ℤ)} (h : id ∈ lists.map Prod.fst) :
    (if policy = repliesFollowed then (build db owner [status] .home).following
      else if policy = repliesList then
        (status.inReplyToAccountId.filter fun _ =>
          decide (id ∈ listingReplyTarget db lists status.inReplyToAccountId)).toList.toFinset
      else ∅) = (build db owner [status] (.list id policy)).following := by
  unfold build
  dsimp only
  split_ifs with hfollowed hlist
  · rfl
  · ext x
    cases ht : status.inReplyToAccountId with
    | none => simp [ht]
    | some target =>
        simp only [ht, mem_listingReplyTarget, h, true_and, List.mem_toFinset, Option.mem_toList,
          Option.filter_eq_some_iff, List.filterMap_cons, List.filterMap_nil,
          List.mem_map, List.mem_filter, decide_eq_true_eq, List.mem_singleton, Option.some.injEq]
        constructor
        · rintro ⟨rfl, la, hla, hid, ha⟩
          exact ⟨la, ⟨hla, hid, ha⟩, ha⟩
        · rintro ⟨la, ⟨hla, hid, ha⟩, rfl⟩
          exact ⟨ha.symm, la, hla, hid, ha⟩
  · rfl

theorem listKeepsOut_eq (db : Database) (status : Candidate) (authorDomain : Option String)
    {lists : List (ℤ × ℤ × ℤ)} {id owner : ℤ} (policy : ℤ) {owners : List ℤ}
    (hl : id ∈ lists.map Prod.fst) (ho : owner ∈ owners) :
    listKeepsOut status (crutchesFor db status authorDomain owners false)
        (listingReplyTarget db lists status.inReplyToAccountId) (id, owner, policy) =
      some (decide (status.reply ∧ status.inReplyToAccountId ≠ some status.accountId ∧
          status.inReplyToAccountId ≠ some owner ∧ policy ≠ repliesFollowed ∧
          ¬(policy = repliesList ∧
            decide (id ∈ listingReplyTarget db lists status.inReplyToAccountId) = true)) ||
        filterFromHome status owner (build db owner [status] (.list id policy))
          (.list id policy)) := by
  obtain ⟨blockedDomains, notifying, hc, hdomains, -⟩ :=
    crutchesFor_apply db status authorDomain owners false ho
  have hfollowing := following_list db status owner id policy hl
  have hfilter := filterResult_domainBlocking status owner
    (build db owner [status] (.list id policy)) (.list id policy) blockedDomains false hdomains
  rw [build_list] at hfilter
  unfold listKeepsOut
  simp only [hc, Option.map_some, hfollowing, filterFromHome, hfilter]
  rw [← build_list]

theorem listKeepsOut_eq_build (db : Database) (status : Candidate) (authorDomain : Option String)
    {lists : List (ℤ × ℤ × ℤ)} {id owner : ℤ} (policy : ℤ) {owners : List ℤ}
    (hl : id ∈ lists.map Prod.fst) (ho : owner ∈ owners) (hauthor : owner ≠ status.accountId) :
    listKeepsOut status (crutchesFor db status authorDomain owners false)
        (listingReplyTarget db lists status.inReplyToAccountId) (id, owner, policy) =
      some (filterFromHome status owner (build db owner [status] (.list id policy))
        (.list id policy)) := by
  have hfollowing := following_list db status owner id policy hl
  rw [listKeepsOut_eq db status authorDomain policy hl ho]
  congr 1
  rw [Bool.or_eq_right_iff_imp, decide_eq_true_eq]
  rintro ⟨hreply, hself, howner, hfollowed, hlisted⟩
  refine filterFromHome_of_reply hauthor hreply hself howner fun target ht => ?_
  rw [← hfollowing, if_neg hfollowed]
  split_ifs with hlist
  · have hout : id ∉ listingReplyTarget db lists status.inReplyToAccountId := fun h =>
      hlisted ⟨hlist, decide_eq_true h⟩
    simp only [hout, decide_false]
    simp
  · simp

/-- A status fanned out gets into a home feed, or a list, exactly as it would were the
feed rebuilt: the batched crutches filter as those built for one receiver and that
status, and so does what the fan-out decides for a list not owned by the author. -/
theorem fanOut_filters_as_build (db : Database) (d : Distributed) :
    (∀ receivers, ∀ r ∈ receivers, ∃ c,
      crutchesFor db d.status d.authorDomain receivers true r = some c ∧
      filterResult d.status r c .home =
        filterResult d.status r (build db r [d.status] .home) .home) ∧
    (d.visibility ∈ [visPublic, visUnlisted, visPrivate] → ∀ now,
      ∃ keptOut : ℤ × ℤ × ℤ → Bool,
        fanOutLists db now d =
          (listsForLocalDistribution db now d.status.accountId).map (fun l => (l.1, keptOut l)) ∧
        ∀ id owner policy,
          (id, owner, policy) ∈ listsForLocalDistribution db now d.status.accountId →
          owner ≠ d.status.accountId →
          keptOut (id, owner, policy) =
            filterFromHome d.status owner (build db owner [d.status] (.list id policy))
              (.list id policy)) := by
  constructor
  · intro receivers r hr
    obtain ⟨blockedDomains, notifying, hc, hdomains, -⟩ :=
      crutchesFor_apply db d.status d.authorDomain receivers true hr
    exact ⟨_, hc, filterResult_domainBlocking d.status r _ .home blockedDomains notifying hdomains⟩
  · intro hv now
    let lists := listsForLocalDistribution db now d.status.accountId
    let owners := (lists.map fun l => l.2.1).dedup
    let decision := listKeepsOut d.status (crutchesFor db d.status d.authorDomain owners false)
      (listingReplyTarget db lists d.status.inReplyToAccountId)
    have howners : ∀ l ∈ lists, l.2.1 ∈ owners := fun l hl =>
      List.mem_dedup.mpr (List.mem_map_of_mem hl)
    have hdecided : ∀ l ∈ lists, ∃ out, decision l = some out := by
      intro l hl
      obtain ⟨blockedDomains, notifying, hc, -⟩ :=
        crutchesFor_apply db d.status d.authorDomain owners false (howners l hl)
      simp [decision, listKeepsOut, hc]
    refine ⟨fun l => (decision l).getD false, ?_, ?_⟩
    · unfold fanOutLists
      rw [if_neg (not_not.mpr hv)]
      show lists.filterMap (fun l => (decision l).map fun out => (l.1, out)) = _
      rw [← List.filterMap_eq_map]
      refine List.filterMap_congr fun l hl => ?_
      obtain ⟨out, hout⟩ := hdecided l hl
      simp [hout]
    · intro id owner policy hl hauthor
      have h := listKeepsOut_eq_build db d.status d.authorDomain policy (List.mem_map_of_mem hl)
        (howners _ hl) hauthor
      show (decision (id, owner, policy)).getD false = _
      rw [show decision (id, owner, policy) = _ from h]
      rfl

def listedReplies : Database where
  follows := [⟨2, 1, true, false, none⟩]
  blocks := []
  mutes := []
  accountDomainBlocks := []
  mentions := []
  lists := [⟨7, 2, repliesList, true⟩]
  listAccounts := [⟨7, 1, some 4⟩, ⟨7, 3, none⟩]
  users := [⟨2, some 0⟩]

/-- Account 1 replies to account 3. -/
def replyToListed : Distributed where
  status := ⟨10, 1, true, some 9, some 3, none, none, none⟩
  visibility := visPublic
  authorDomain := none

example : (fanOutLists listedReplies 0 replyToListed).map (·.1) = [7] := by decide +kernel

theorem fanOut_filters_as_build_listed_reply :
    (∃ c, crutchesFor listedReplies replyToListed.status none [2] true 2 = some c ∧
      filterResult replyToListed.status 2 c .home =
        filterResult replyToListed.status 2
          (build listedReplies 2 [replyToListed.status] .home) .home) ∧
    ∃ keptOut : ℤ × ℤ × ℤ → Bool,
      fanOutLists listedReplies 0 replyToListed = [(7, keptOut (7, 2, repliesList))] ∧
      keptOut (7, 2, repliesList) =
        filterFromHome replyToListed.status 2
          (build listedReplies 2 [replyToListed.status] (.list 7 repliesList))
          (.list 7 repliesList) := by
  obtain ⟨hhome, hlists⟩ := fanOut_filters_as_build listedReplies replyToListed
  obtain ⟨keptOut, hdecided, hkept⟩ := hlists (by decide) 0
  exact ⟨hhome [2] 2 (by decide), keptOut, hdecided, hkept 7 2 repliesList (by decide) (by decide)⟩

end Eunha.FeedFilter
