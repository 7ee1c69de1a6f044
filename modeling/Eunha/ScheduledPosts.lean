import Eunha.PostRetries
import Eunha.Scheduling

/-!
# What scheduling makes of a post

A schedule keeps some of the parameters of a post, and `publish_one` makes a status of them
on its own. Where nothing fails, the status has the text, content warning, language and
parent it would have had if it were posted at that moment with the same parameters, and
never the conversation.
-/
namespace Eunha.ScheduledPosts
open Tables Database Posting Scheduling PostEffects PostRetries Programs Program
open Polls (Poll)
open Quotes (Quote)

/-- Nothing fails. -/
def never : Statement → Bool := fun _ => false

theorem whole_never : Whole never := fun _ _ => rfl

/-! ### A post and its publication -/

/-- A status with what a request decides of it. -/
structure Content where
  row : Status
  text : String
  spoilerText : String
  language : Option String
  sensitive : Bool
  inReplyToAccountId : Option ℕ
  conversationId : Option ℕ
  pollId : Option ℕ
  mentions : List ℕ
  tags : List String
  quote : Option Quote
  quotePolicy : BitVec 32
  polls : List (Poll × Bool)
  media : List ℕ
  deriving DecidableEq

def contentOf (w : World) (row : Status) (c : Columns) : Content where
  row := row
  text := c.text
  spoilerText := c.spoilerText
  language := c.language
  sensitive := c.sensitive
  inReplyToAccountId := c.inReplyToAccountId
  conversationId := c.conversationId
  pollId := c.pollId
  mentions := (w.mentions.filter (·.1 = row.id)).map (·.2)
  tags := (w.tags.filter (·.1 = row.id)).map (·.2)
  quote := w.findByStatus row.id
  quotePolicy := w.quotePolicies row.id
  polls := (w.polls.rows.filter (·.statusId = row.id)).map fun p => (p, w.hideTotals p.id)
  media := (w.media.rows.filter (·.statusId = some row.id)).map (·.id)

def content (w : World) (id : ℕ) : Option Content :=
  (w.db.statuses.rows.find? (·.id = id)).bind fun row => (w.columns id).map (contentOf w row)

structure SamePost (id : ℕ) (published posted : World) : Prop where
  content : content published id = content posted id
  accountStats : published.db.accountStats = posted.db.accountStats
  statusStats : published.db.statusStats = posted.db.statusStats
  deliveries : published.deliveries = posted.deliveries

def Schedules (row : Scheduled) (r : Request) : Prop :=
  row.accountId = r.accountId ∧ row.params = some (paramsOf r.form)

def PublishesTheSame (e : Env) (w : World) (r : Request) (row : Scheduled) (posted : World) :
    Prop :=
  ∃ published, (publishOne e row r.now r.statusId).run never w = (published, .ok ()) ∧
    SamePost r.statusId published posted

/-! ### What posting leaves -/

section
variable {e : Env} {account : Account} {idScheme : Option ℤ} {r : Request} {d : Draft}
variable {s : World} {c : Columns}

theorem Sound.leads {α : Type} {p : Post α} (h : Sound Spared never p) :
    Yields never s p fun _ t => Spared s t :=
  h.always.leads Spared.refl Spared.trans

def InConversation (id : ℕ) (t : World) : Prop :=
  ∃ c, t.columns id = some c ∧ c.conversationId.isSome

theorem InConversation.spared {id : ℕ} {t : World} (h : InConversation id s) (ht : Spared s t) :
    InConversation id t := by
  obtain ⟨c, hc, hconversation⟩ := h
  obtain ⟨c', hc', hung⟩ := ht.columns id c hc
  exact ⟨c', hc', hung.conversation hconversation⟩

theorem inConversation_assign (hc : s.columns d.id = some c) :
    Yields never s (assignConversation d) fun _ t => InConversation d.id t := by
  refine Yields.bind (Sound.leads (sound_conversationFor whole_never _).spared)
    fun conversationId t ht => ?_
  obtain ⟨c', hc', _⟩ := ht.columns d.id c hc
  have hset : InConversation d.id
      (t.setColumns d.id fun c => { c with conversationId := some conversationId }) := by
    refine ⟨{ c' with conversationId := some conversationId }, ?_, rfl⟩
    rw [World.columns_setColumns, Function.update_self, hc', Option.map_some]
  refine Yields.bind (Yields.exec (Q := fun _ t => InConversation d.id t) hset) fun _ t ht => ?_
  refine Yields.bind (Yields.exec (Q := fun _ t => InConversation d.id t) ht) fun _ t ht => ?_
  split
  · refine fun u b hrun => ht.spared ?_
    exact Sound.leads (sound_fileConversations d whole_never conversationId).spared u b hrun
  · exact .done ht

theorem inConversation_attach (hc : s.columns d.id = some c) :
    Yields never s (attach e account idScheme r d) fun _ t => InConversation d.id t := by
  have hspared {α : Type} {p : Post α} (h : Sound Kept never p) {t : World}
      (ht : Spared s t) : Yields never t p fun _ u => Spared s u :=
    fun u a hrun => ht.trans (Sound.leads h.spared u a hrun)
  have hstays {α : Type} {p : Post α} (h : Sound Spared never p) {t : World}
      (ht : InConversation d.id t) : Yields never t p fun _ u => InConversation d.id u :=
    fun u a hrun => ht.spared (Sound.leads h u a hrun)
  have hwhole := whole_never
  unfold attach
  refine Yields.bind (hspared (sound_attachQuote e account idScheme r d hwhole) (.refl s))
    fun quote t ht => ?_
  refine Yields.bind (hspared (sound_storeStatusesTags e hwhole _ _) ht) fun _ t ht => ?_
  refine Yields.bind (hspared (sound_storeStatusMentions hwhole _ _) ht) fun _ t ht => ?_
  refine Yields.bind (hspared (sound_ensureQuotedAccess quote) ht) fun _ t ht => ?_
  obtain ⟨c', hc', _⟩ := ht.columns d.id c hc
  refine Yields.bind (inConversation_assign hc') fun _ t ht => ?_
  refine Yields.bind (hstays (Sound.logged (kept_countCreated d.row)).spared ht)
    fun _ t ht => ?_
  refine Yields.bind (hstays (sound_attachMedia d hwhole).spared ht) fun _ t ht => ?_
  refine Yields.bind (hstays (sound_createPoll d hwhole r.now) ht) fun _ t ht => ?_
  refine Yields.bind (hstays (Sound.read (hwhole .loadMedia rfl) _).spared ht) fun _ t ht => ?_
  refine Yields.bind (hstays (Sound.read (hwhole .buildStatus rfl) _).spared ht)
    fun _ t ht => ?_
  exact hstays (sound_federate e d hwhole quote).spared ht

structure AsAsked (e : Env) (w : World) (accountId statusId : ℕ) (form : PostStatusForm)
    (d : Draft) : Prop where
  id : d.id = statusId
  text : d.columns.text = (promoted form).1
  spoilerText : d.columns.spoilerText = (promoted form).2
  language : d.columns.language = validLocaleCascade e
    [form.language, (UserDefaults.read (w.settings accountId) false).language,
      some defaultLocale]
  inReplyToId : d.inReplyToId = form.inReplyToId.bind parseId
  inReplyToAccountId : d.columns.inReplyToAccountId =
    d.inReplyToId.bind fun id => (keptAt w.db id).map (·.accountId)

variable {w : World} {ε : Type}

theorem yields_userDefaults (accountId : ℕ) :
    Yields never w (userDefaults accountId : Program Statement World ε _) fun defaults t =>
      t = w ∧ defaults.language = (UserDefaults.read (w.settings accountId) false).language := by
  refine Yields.bind (Yields.askOr (Q := fun settings t => t = w ∧ settings = w.settings accountId)
    (fun _ => ⟨rfl, rfl⟩) fun hfails => by cases hfails) fun settings t ht => ?_
  obtain ⟨rfl, rfl⟩ := ht
  refine Yields.bind (reads_askOr _ _ _).yields fun locked t ht => ?_
  exact .done ⟨ht, rfl⟩

theorem yields_parentAuthor (inReplyToId : Option ℤ) :
    Yields never w (parentAuthor inReplyToId) fun author t =>
      t = w ∧ author = inReplyToId.bind fun id => (keptAt w.db id).map (·.accountId) := by
  unfold parentAuthor
  split
  · exact .done ⟨rfl, rfl⟩
  next id =>
    refine Yields.bind (Yields.ask (Q := fun author t =>
      t = w ∧ author = (keptAt w.db id).map (·.accountId)) ⟨rfl, rfl⟩) fun author t ht => ?_
    obtain ⟨rfl, rfl⟩ := ht
    rw [Option.bind_some]
    cases (keptAt t.db id).map (·.accountId) with
    | none => exact .fail
    | some author => exact .done ⟨rfl, rfl⟩

theorem asAsked_prepare :
    Yields never w (prepare e account idScheme r) fun d t =>
      t = w ∧ AsAsked e w r.accountId r.statusId r.form d := by
  refine Yields.bind (reads_checkVisibility _).yields fun _ t ht => ?_
  subst ht
  refine Yields.bind (yields_userDefaults _) fun defaults t ht => ?_
  obtain ⟨rfl, hlanguage⟩ := ht
  refine Yields.bind (yields_parentAuthor _) fun author t ht => ?_
  obtain ⟨rfl, hauthor⟩ := ht
  refine Yields.bind (reads_quotedStatus _ _).yields fun quoted t ht => ?_
  refine Yields.bind (reads_resolveMentionAccounts e _).yields fun resolved u hu => ?_
  refine Yields.bind (reads_require _ _).yields fun _ u' hu' => ?_
  refine Yields.bind (reads_require _ _).yields fun _ v hv => ?_
  refine Yields.bind (reads_validateMedia _ _).yields fun media v' hv' => ?_
  refine Yields.bind (reads_orFail _ _).yields fun policy x hx => ?_
  refine .done ⟨hx.trans (hv'.trans (hv.trans (hu'.trans (hu.trans ht)))), ?_⟩
  exact ⟨rfl, rfl, rfl, by rw [hlanguage], rfl, hauthor⟩

theorem asAsked_plan :
    Yields never w (plan e r) fun p _ => ∀ account idScheme d, p = .post account idScheme d →
      AsAsked e w r.accountId r.statusId r.form d := by
  refine Yields.bind (reads_fetchAccount _).yields fun found t ht => ?_
  subst ht
  refine Yields.bind (reads_replay r).yields fun replayed u hu => ?_
  subst hu
  split
  · exact .done fun _ _ _ h => by cases h
  · refine Yields.bind (reads_attempt _).yields fun _ t ht => ?_
    subst ht
    refine Yields.bind (reads_schedule e r).yields fun scheduled u hu => ?_
    subst hu
    split
    · exact .done fun _ _ _ h => by cases h
    · refine Yields.bind asAsked_prepare fun draft t ht => ?_
      refine .done fun _ _ d h => ?_
      cases h
      exact ht.2

structure Posted (e : Env) (w : World) (r : Request) (posted : World) (d : Draft) (c : Columns) :
    Prop where
  asked : AsAsked e w r.accountId r.statusId r.form d
  free : refused w d = false
  statuses : posted.db.statuses = w.db.statuses.insert d.row
  columns : posted.columns d.id = some c
  hung : Hung d.columns c

theorem posted_of_run {posted : World} {id : ℕ} (hkey : r.idempotencyKey = none)
    (h : (postStatus e r).run never w = (posted, .ok (.status id))) :
    ∃ d c, Posted e w r posted d c ∧ c.conversationId.isSome := by
  cases hdecided : decided e never w r with
  | error error =>
      rw [postStatus_of_error hdecided] at h
      cases h
  | ok p =>
      rw [postStatus_of_plan hdecided] at h
      cases p with
      | replay id' =>
          have hnone : replayed never w r = none := by
            rw [replayed, recalled, hkey]
            rfl
          exact absurd hdecided (decided_of_not_replayed hnone)
      | schedule time =>
          rw [carryOut_schedule] at h
          cases h
      | post account idScheme d =>
          by_cases hgoes : Goes never w d
          · have hrow : (insertStatus d).run never w = (insertRow d w, .ok ()) := by
              rw [insertStatus, Program.run, hgoes.2]
              rfl
            have hcolumns : (insertRow d w).columns d.id = some d.columns := by
              rw [insertRow, hgoes.2]
              exact Function.update_self _ _ _
            have hsound := sound_attach e account idScheme r d whole_never
            obtain ⟨t, _, hattach⟩ := hsound.completes (insertRow d w)
            obtain ⟨c, hc, hconversation⟩ := inConversation_attach hcolumns t _ hattach
            have hspared := Sound.leads hsound t _ hattach
            obtain ⟨c', hc', hung⟩ := hspared.columns d.id d.columns hcolumns
            obtain rfl : c' = c := Option.some.inj (hc'.symm.trans hc)
            have hrecord : (recordKey r d.id).run never t = (t, .ok ()) := by
              rw [recordKey, hkey]
              rfl
            rw [carryOut, run_bind_ok hrow, run_bind_ok hattach, run_bind_ok hrecord] at h
            cases h
            refine ⟨d, c', ⟨?_, hgoes.2, ?_, hc, hung⟩, hconversation⟩
            · exact asAsked_plan w _ (run_plan.trans (by rw [hdecided])) account idScheme d rfl
            · rw [hspared.statuses, insertRow, hgoes.2]
              rfl
          · rw [carryOut_post_refused hgoes] at h
            cases h

/-! ### What publishing leaves -/

variable {row : Scheduled} {p : Params} {now : ℤ}

theorem asAsked_load {form : PostStatusForm} (hrow : row.params = some (paramsOf form))
    (statusId : ℕ) :
    Yields never w (load e row statusId) fun x t => t = w ∧
      AsAsked e w row.accountId statusId form x.2 ∧ x.2.columns.conversationId = none := by
  rw [load, hrow]
  refine Yields.bind (Q := fun _ t => t = w) (fun t a hrun => ?_) fun account t ht => ?_
  · rw [author, Program.run, if_neg (show ¬ never .account = true by simp [never])] at hrun
    dsimp only [id] at hrun
    cases hfound : w.db.account row.accountId with
    | none =>
        rw [hfound] at hrun
        cases hrun
    | some account =>
        rw [hfound] at hrun
        cases hrun
        rfl
  subst ht
  refine Yields.bind (yields_userDefaults _) fun defaults t ht => ?_
  obtain ⟨rfl, hlanguage⟩ := ht
  have hparent : Yields never t (parentOf ((paramsOf form).inReplyToId.bind parseId))
      fun author u => u = t ∧ author = ((paramsOf form).inReplyToId.bind parseId).bind
        fun id => (keptAt t.db id).map (·.accountId) := by
    unfold parentOf
    split
    next hnone =>
      rw [hnone]
      exact .done ⟨rfl, rfl⟩
    next id hid =>
      rw [hid]
      exact .askOr (fun _ => ⟨rfl, rfl⟩) fun hfails => by cases hfails
  refine Yields.bind hparent fun author u hu => ?_
  obtain ⟨rfl, rfl⟩ := hu
  refine Yields.bind (reads_resolveMentionAccounts e _).yields fun resolved v hv => ?_
  exact .done ⟨hv, ⟨rfl, rfl, rfl, by rw [← hlanguage]; rfl, rfl, rfl⟩, rfl⟩

theorem kept_followUp : (followUp e p d now).Always Kept := by
  have hsound {ε' : Type} {q : Post Unit} (h : Sound Kept never q) :
      (q.logged : Program Statement World ε' Unit).Always Kept := h.always.logged
  unfold followUp
  refine Always.bind (hsound (sound_storeStatusesTags e whole_never _ _)) fun _ => ?_
  refine Always.bind (hsound (sound_storeStatusMentions whole_never _ _)) fun _ => ?_
  refine Always.bind (kept_countCreated d.row).logged fun _ => ?_
  refine Always.bind (Always.each (fun id => ?_) _) fun _ => ?_
  · exact Always.logged (Always.exec fun w => ⟨rfl, rfl, rfl, rfl⟩)
  · unfold publishPoll
    split
    · trivial
    · split
      · trivial
      · exact Always.logged (Always.exec fun w => ⟨rfl, rfl, rfl, rfl⟩)

structure PublishedAs (e : Env) (w : World) (r : Request) (published : World) (d : Draft) :
    Prop where
  asked : AsAsked e w r.accountId r.statusId r.form d
  free : refused w d = false
  statuses : published.db.statuses = w.db.statuses.insert d.row
  columns : published.columns d.id = some d.columns
  conversation : d.columns.conversationId = none

theorem published_of_run (hrow : Schedules row r) {published : World}
    (h : (publishOne e row r.now r.statusId).run never w = (published, .ok ())) :
    ∃ d, PublishedAs e w r published d := by
  suffices hyields : Yields never w (publishOne e row r.now r.statusId)
      fun _ t => ∃ d, PublishedAs e w r t d from hyields _ _ h
  refine Yields.bind (asAsked_load hrow.2 r.statusId) fun x t hx => ?_
  obtain ⟨p, d⟩ := x
  obtain ⟨rfl, hasked, hconversation⟩ := hx
  refine Yields.bind (Q := fun _ u => refused t d = false ∧ u = insertRow d t)
    (fun u _ hrun => ?_) fun _ u hu => ?_
  · rw [insertPublished, Program.run] at hrun
    cases hrefused : refused t d with
    | true =>
        rw [hrefused] at hrun
        cases hrun
    | false =>
        rw [hrefused] at hrun
        cases hrun
        exact ⟨rfl, rfl⟩
  · obtain ⟨hfree, rfl⟩ := hu
    refine fun v b hrun => ⟨d, ?_⟩
    have hkept := kept_followUp.leads Kept.refl Kept.trans v b hrun
    refine ⟨hrow.1 ▸ hasked, hfree, ?_, ?_, hconversation⟩
    · rw [hkept.statuses, insertRow, hfree]
      rfl
    · rw [hkept.columns, insertRow, hfree]
      exact Function.update_self _ _ _

/-! ### The two compared -/

theorem find_inserted (hfree : refused w d = false) :
    (w.db.statuses.insert d.row).rows.find? (·.id = d.id) = some d.row := by
  have hnew : ¬ w.db.statuses.Taken d.row := by
    intro htaken
    rw [refused, decide_eq_true htaken] at hfree
    cases hfree
  rw [Table.rows_insert hnew, List.find?_append]
  have hnone : w.db.statuses.rows.find? (·.id = d.id) = none := by
    rw [List.find?_eq_none]
    intro s hs hid
    refine hnew ⟨s, hs, .id d.id, ?_, List.mem_cons_self⟩
    rw [Status.keys, of_decide_eq_true hid]
    exact List.mem_cons_self
  rw [hnone, Option.none_or, List.find?_singleton]
  exact if_pos (decide_eq_true (rfl : d.row.id = d.id))

theorem content_posted {posted : World} (h : Posted e w r posted d c) :
    content posted r.statusId = some (contentOf posted d.row c) := by
  rw [content, ← h.asked.id, h.statuses, find_inserted h.free, Option.bind_some, h.columns,
    Option.map_some]

theorem content_published {published : World} (h : PublishedAs e w r published d) :
    content published r.statusId = some (contentOf published d.row d.columns) := by
  rw [content, ← h.asked.id, h.statuses, find_inserted h.free, Option.bind_some, h.columns,
    Option.map_some]

/-- A post that is accepted is in a conversation, and its schedule is never published into
one. -/
theorem scheduling_changes_the_post (e : Env) (w : World) (r : Request) (row : Scheduled)
    (posted : World) (id : ℕ) (hkey : r.idempotencyKey = none)
    (hposted : (postStatus e r).run never w = (posted, .ok (.status id)))
    (hrow : Schedules row r) : ¬ PublishesTheSame e w r row posted := by
  rintro ⟨published, hpublished, hsame⟩
  obtain ⟨d, c, h, hconversation⟩ := posted_of_run hkey hposted
  obtain ⟨d', h'⟩ := published_of_run hrow hpublished
  have hcontent := hsame.content
  rw [content_posted h, content_published h', Option.some.injEq] at hcontent
  have hnone : c.conversationId = none :=
    (congrArg Content.conversationId hcontent).symm.trans h'.conversation
  rw [hnone] at hconversation
  cases hconversation

end

/-! ### A schedule of an account that posts to its followers -/

def followersByDefault : World :=
  { aliceOnly with
    settings := fun _ key => if key = "default_privacy" then some (.string "private") else none }

def dueHello : Request := hello (some "later") (11 * minute) 10

def scheduledHello : Scheduled where
  id := 1
  accountId := 1
  scheduledAt := some (10 * minute)
  params := some (paramsOf dueHello.form)

theorem scheduling_changes_the_post_hello :
    ¬ PublishesTheSame plainEnv followersByDefault dueHello scheduledHello
      ((postStatus plainEnv dueHello).run never followersByDefault).1 := by
  have hposted : ((postStatus plainEnv dueHello).run never followersByDefault).2 =
      .ok (.status 10) := by decide +kernel
  exact scheduling_changes_the_post plainEnv followersByDefault dueHello scheduledHello _ 10 rfl
    (Prod.ext rfl hposted) ⟨rfl, rfl⟩

/-- Posted it is for followers and in a conversation, published it is public and in none. -/
theorem followers_post_published :
    ((postStatus plainEnv dueHello).run never followersByDefault).2 = .ok (.status 10) ∧
      Schedules scheduledHello dueHello ∧
      ((content ((postStatus plainEnv dueHello).run never followersByDefault).1 10).map fun c =>
          (c.row.visibility, c.conversationId)) = some (.priv, some 1) ∧
      ((content ((publishOne plainEnv scheduledHello dueHello.now 10).run never
          followersByDefault).1 10).map fun c => (c.row.visibility, c.conversationId)) =
        some (.pub, none) ∧
      ¬ PublishesTheSame plainEnv followersByDefault dueHello scheduledHello
        ((postStatus plainEnv dueHello).run never followersByDefault).1 := by
  have hposted : ((content ((postStatus plainEnv dueHello).run never followersByDefault).1 10).map
      fun c => (c.row.visibility, c.conversationId)) = some (.priv, some 1) := by decide +kernel
  have hpublished : ((content ((publishOne plainEnv scheduledHello dueHello.now 10).run never
      followersByDefault).1 10).map fun c => (c.row.visibility, c.conversationId)) =
        some (.pub, none) := by decide +kernel
  refine ⟨by decide +kernel, ⟨rfl, rfl⟩, hposted, hpublished, ?_⟩
  rintro ⟨published, hrun, hsame⟩
  have hcontent : content published 10 = _ := hsame.content
  have hdifferent : published = ((publishOne plainEnv scheduledHello dueHello.now 10).run never
      followersByDefault).1 := (congrArg Prod.fst hrun).symm
  rw [hdifferent] at hcontent
  have hmapped := congrArg (Option.map fun c : Content => (c.row.visibility, c.conversationId))
    hcontent
  rw [hpublished] at hmapped
  exact absurd (hmapped.trans hposted) (by decide)

end Eunha.ScheduledPosts
