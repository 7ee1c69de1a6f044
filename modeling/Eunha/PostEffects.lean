import Eunha.Posting

/-!
# What the statements of a post do

The part of a post up to its first write only reads. What is hung on a post afterwards
leaves the statuses, the schedules and the keys as they are, and of the columns of a status
sets its conversation and its poll alone.
-/
namespace Eunha.PostEffects
open Tables Database Posting Programs Program

/-! ### Reading changes nothing -/

abbrev Reads {α : Type} (p : Post α) : Prop := p.Always Eq

section Reads
variable {α β ε : Type}

theorem reads_read (l : Statement) (f : World → α) : Reads (read l f) :=
  .ask (fun _ => rfl) l .database f

theorem reads_askOr (l : Statement) (f : World → α) (default : α) :
    (askOr l f default : Program Statement World ε α).Always Eq :=
  .askOr (fun _ => rfl) l f default

theorem reads_require (c : Bool) (error : Error) : Reads (require c error) := by
  unfold require
  split <;> trivial

theorem reads_orFail (a : Option α) (error : Error) : Reads (orFail a error) := by
  cases a <;> trivial

theorem reads_attempt (x : Except Error α) : Reads (attempt x) := by
  cases x <;> trivial

theorem reads_fetchAccount (accountId : ℕ) : Reads (fetchAccount accountId) :=
  (reads_read _ _).bind fun _ => reads_orFail _ _

theorem reads_replay (r : Request) : Reads (replay r) := by
  unfold replay
  split
  · trivial
  · refine (reads_askOr _ _ _).bind fun stored => ?_
    split
    · trivial
    · refine (reads_read _ _).bind fun kept => ?_
      split
      · trivial
      · exact (reads_read _ _).bind fun _ => (reads_read _ _).bind fun _ => trivial

theorem reads_schedule (e : Env) (r : Request) : Reads (schedule e r) := by
  unfold schedule
  split
  · trivial
  · refine (reads_orFail _ _).bind fun time => ?_
    split
    · trivial
    · exact (reads_require _ _).bind fun _ => (reads_read _ _).bind fun _ =>
        (reads_require _ _).bind fun _ => (reads_read _ _).bind fun _ =>
          (reads_require _ _).bind fun _ => trivial

theorem reads_checkVisibility (visibility : Option String) :
    Reads (checkVisibility visibility) := by
  unfold checkVisibility
  split
  · trivial
  · exact reads_require _ _

theorem reads_userDefaults (accountId : ℕ) :
    (userDefaults accountId : Program Statement World ε _).Always Eq :=
  (reads_askOr _ _ _).bind fun _ => (reads_askOr _ _ _).bind fun _ => trivial

theorem reads_parentAuthor (inReplyToId : Option ℤ) : Reads (parentAuthor inReplyToId) := by
  unfold parentAuthor
  split
  · trivial
  · exact (reads_read _ _).bind fun _ => (reads_orFail _ _).bind fun _ => trivial

theorem reads_quotedStatus (accountId : ℕ) (quotedStatusId : Option String) :
    Reads (quotedStatus accountId quotedStatusId) := by
  unfold quotedStatus
  split
  · trivial
  · exact (reads_orFail _ _).bind fun _ => (reads_read _ _).bind fun _ =>
      (reads_orFail _ _).bind fun _ => (reads_read _ _).bind fun _ =>
        (reads_orFail _ _).bind fun _ => (reads_read _ _).bind fun _ =>
          (reads_orFail _ _).bind fun _ => (reads_require _ _).bind fun _ => trivial

theorem reads_resolveMention (e : Env) (username : String) (domain : Option String) :
    (resolveMention e username domain : Program Statement World ε _).Always Eq := by
  refine (reads_askOr _ _ _).bind fun known => ?_
  split
  · exact reads_askOr _ _ _
  · trivial

theorem reads_resolveMentionAccounts (e : Env) (handles : List (String × Option String)) :
    (resolveMentionAccounts e handles : Program Statement World ε _).Always Eq := by
  induction handles with
  | nil => trivial
  | cons handle handles ih =>
      exact (reads_resolveMention e _ _).bind fun _ => ih.bind fun _ => trivial

theorem reads_attachable (accountId : ℕ) (texts : List String) :
    Reads (attachable accountId texts) := by
  induction texts with
  | nil => trivial
  | cons text texts ih =>
      exact (reads_orFail _ _).bind fun _ => (reads_read _ _).bind fun _ =>
        (reads_orFail _ _).bind fun _ => ih.bind fun _ => trivial

theorem reads_validateMedia (accountId : ℕ) (mediaIds : Option (List String)) :
    Reads (validateMedia accountId mediaIds) := by
  unfold validateMedia
  split
  · trivial
  · exact (reads_require _ _).bind fun _ => (reads_attachable _ _).bind fun _ =>
      (reads_require _ _).bind fun _ => (reads_require _ _).bind fun _ => trivial

theorem reads_prepare (e : Env) (account : Account) (idScheme : Option ℤ) (r : Request) :
    Reads (prepare e account idScheme r) :=
  (reads_checkVisibility _).bind fun _ => (reads_userDefaults _).bind fun _ =>
    (reads_parentAuthor _).bind fun _ => (reads_quotedStatus _ _).bind fun _ =>
      (reads_resolveMentionAccounts e _).bind fun _ => (reads_require _ _).bind fun _ =>
        (reads_require _ _).bind fun _ => (reads_validateMedia _ _).bind fun _ =>
          (reads_orFail _ _).bind fun _ => trivial

theorem reads_plan (e : Env) (r : Request) : Reads (plan e r) := by
  refine (reads_fetchAccount _).bind fun found => (reads_replay r).bind fun replayed => ?_
  split
  · trivial
  · refine (reads_attempt _).bind fun _ => (reads_schedule e r).bind fun scheduled => ?_
    split
    · trivial
    · exact (reads_prepare e _ _ r).bind fun _ => trivial

theorem run_of_reads {p : Post α} (h : Reads p) (fails : Statement → Bool) (w : World) :
    p.run fails w = (w, (p.run fails w).2) := by
  have hsame : w = (p.run fails w).1 := h.run (fun _ => rfl) (fun hst htu => hst.trans htu) w
  exact Prod.ext hsame.symm rfl

end Reads

/-! ### What is hung on a post -/

/-- The same columns, but for a conversation that is not lost and a poll. -/
structure Hung (c c' : Columns) : Prop where
  same : { c' with conversationId := c.conversationId, pollId := c.pollId } = c
  conversation : c.conversationId.isSome → c'.conversationId.isSome

theorem Hung.refl (c : Columns) : Hung c c := ⟨rfl, id⟩

theorem Hung.trans {c c' c'' : Columns} (h : Hung c c') (h' : Hung c' c'') : Hung c c'' := by
  refine ⟨?_, fun hc => h'.conversation (h.conversation hc)⟩
  rw [← h.same, ← h'.same]

/-- The statuses and their columns, the schedules and the keys are left as they are. -/
structure Kept (s t : World) : Prop where
  statuses : t.db.statuses = s.db.statuses
  scheduled : t.scheduled = s.scheduled
  keys : t.keys = s.keys
  columns : t.columns = s.columns

theorem Kept.refl (s : World) : Kept s s := ⟨rfl, rfl, rfl, rfl⟩

theorem Kept.trans {s t u : World} (h : Kept s t) (h' : Kept t u) : Kept s u :=
  ⟨h'.statuses.trans h.statuses, h'.scheduled.trans h.scheduled, h'.keys.trans h.keys,
    h'.columns.trans h.columns⟩

/-- All but the conversations and polls of statuses is left as it is. -/
structure Spared (s t : World) : Prop where
  statuses : t.db.statuses = s.db.statuses
  scheduled : t.scheduled = s.scheduled
  keys : t.keys = s.keys
  columns : ∀ id c, s.columns id = some c → ∃ c', t.columns id = some c' ∧ Hung c c'

theorem Kept.spared {s t : World} (h : Kept s t) : Spared s t :=
  ⟨h.statuses, h.scheduled, h.keys, fun id c hc => ⟨c, by rw [h.columns, hc], .refl c⟩⟩

theorem Spared.refl (s : World) : Spared s s := (Kept.refl s).spared

theorem Spared.trans {s t u : World} (h : Spared s t) (h' : Spared t u) : Spared s u := by
  refine ⟨h'.statuses.trans h.statuses, h'.scheduled.trans h.scheduled, h'.keys.trans h.keys,
    fun id c hc => ?_⟩
  obtain ⟨c', hc', hung⟩ := h.columns id c hc
  obtain ⟨c'', hc'', hung'⟩ := h'.columns id c' hc'
  exact ⟨c'', hc'', hung.trans hung'⟩

theorem spared_setColumns (w : World) (id : ℕ) (f : Columns → Columns)
    (hf : ∀ c, Hung c (f c)) : Spared w (w.setColumns id f) := by
  refine ⟨rfl, rfl, rfl, fun id' c hc => ?_⟩
  rw [World.columns_setColumns]
  by_cases hid : id' = id
  · subst hid
    exact ⟨f c, by rw [Function.update_self, hc, Option.map_some], hf c⟩
  · exact ⟨c, by rw [Function.update_of_ne hid, hc], .refl c⟩

/-- The statements after the row's, whose failure is the answer. -/
def late : Statement → Bool
  | .quotedAuthor | .insertQuote | .findQuote | .clearTags | .findTag _ | .insertTag _
  | .featuredTags | .clearMentions | .insertMention _ | .insertConversation | .setConversation
  | .touchConversation | .ownConversation | .theirConversation _ | .attachMedia _ | .insertPoll
  | .linkPoll | .loadMedia | .buildStatus | .buildNote | .quotedInbox => true
  | _ => false

def Whole (fails : Statement → Bool) : Prop := ∀ l, late l = true → fails l = false

section
variable (e : Env) (account : Account) (idScheme : Option ℤ) (r : Request) (d : Draft)
variable {fails : Statement → Bool}

/-- A part of a post whose statements move the store this way, and that ends well when
none of them fails. -/
structure Sound {α : Type} (G : World → World → Prop) (fails : Statement → Bool) (p : Post α) :
    Prop where
  always : p.Always G
  completes : p.Completes fails

section
variable {G : World → World → Prop} {α β : Type} {l : Statement}

theorem Sound.done (a : α) : Sound G fails (.done a : Post α) :=
  ⟨trivial, .done a⟩

theorem Sound.bind {p : Post α} {k : α → Post β} (hp : Sound G fails p)
    (hk : ∀ a, Sound G fails (k a)) : Sound G fails (p >>= k) :=
  ⟨hp.always.bind fun a => (hk a).always, hp.completes.bind fun a => (hk a).completes⟩

theorem Sound.read (h : fails l = false) (f : World → α) : Sound Kept fails (read l f) :=
  ⟨.ask Kept.refl l Error.database f, .ask h Error.database f⟩

theorem Sound.askOr (l : Statement) (f : World → α) (default : α) :
    Sound Kept fails (askOr l f default) :=
  ⟨.askOr Kept.refl l f default, .askOr l f default⟩

theorem Sound.write {f : World → World} (h : fails l = false) (hf : ∀ w, G w (f w)) :
    Sound G fails (write l f) :=
  ⟨.exec hf, .exec h Error.database f⟩

theorem Sound.each {body : β → Post Unit} (h : ∀ b, Sound G fails (body b)) (bs : List β) :
    Sound G fails (each body bs) :=
  ⟨.each (fun b => (h b).always) bs, .each fun b _ => (h b).completes⟩

theorem Sound.logged {p : Post Unit} (h : p.Always G) : Sound G fails p.logged :=
  ⟨h.logged, .logged p⟩

theorem Sound.returning {move : World → World} {f : World → α} (h : fails l = false)
    (hmove : ∀ w, G w (move w)) :
    Sound G fails (.statement l move (fun w => .done (f w)) (.fail .database)) := by
  refine ⟨⟨hmove, fun _ => trivial, trivial⟩, fun w => ⟨move w, f w, ?_⟩⟩
  rw [Program.run, h]
  rfl

theorem Sound.spared {p : Post α} (h : Sound Kept fails p) : Sound Spared fails p :=
  ⟨h.always.mono fun _ _ => Kept.spared, h.completes⟩

end

theorem sound_attachQuote (h : Whole fails) :
    Sound Kept fails (attachQuote e account idScheme r d) := by
  unfold attachQuote
  split
  · exact .done none
  · refine Sound.bind (Sound.read (h .quotedAuthor rfl) _) fun remote => ?_
    refine Sound.bind (.returning (h .insertQuote rfl) fun w => ?_) fun id => ?_
    · split
      · exact .refl w
      · exact ⟨rfl, rfl, rfl, rfl⟩
    · split
      · exact .done none
      · exact .read (h .findQuote rfl) _

theorem sound_storeStatusesTags (h : Whole fails) (statusId : ℕ) (hashtags : List String) :
    Sound Kept fails (storeStatusesTags e statusId hashtags) := by
  unfold storeStatusesTags
  refine Sound.bind (Sound.write (h .clearTags rfl) fun w => ⟨rfl, rfl, rfl, rfl⟩) fun _ => ?_
  refine (Sound.each (fun written => ?_) hashtags).bind fun _ => ?_
  · dsimp only
    split
    · exact .done ()
    · refine Sound.bind (Sound.read (h (.findTag written) rfl) _) fun _ => ?_
      exact .write (h (.insertTag written) rfl) fun w => ⟨rfl, rfl, rfl, rfl⟩
  · exact .write (h .featuredTags rfl) Kept.refl

theorem sound_storeStatusMentions (h : Whole fails) (statusId : ℕ) (resolved : List Account) :
    Sound Kept fails (storeStatusMentions statusId resolved) := by
  unfold storeStatusMentions
  refine Sound.bind (Sound.write (h .clearMentions rfl) fun w => ⟨rfl, rfl, rfl, rfl⟩) fun _ => ?_
  refine .each (fun account => ?_) resolved
  exact .write (h (.insertMention account.id) rfl) fun w => ⟨rfl, rfl, rfl, rfl⟩

theorem sound_ensureQuotedAccess (quote : Option Quotes.Quote) :
    Sound Kept fails (ensureQuotedAccess quote) := by
  unfold ensureQuotedAccess
  split
  · exact .done ()
  · refine .logged (Always.exec fun w => ?_)
    unfold Quotes.ensureQuotedAccess
    split <;> exact ⟨rfl, rfl, rfl, rfl⟩

theorem sound_conversationFor (h : Whole fails) (inReplyToId : Option ℕ) :
    Sound Kept fails (conversationFor inReplyToId) := by
  unfold conversationFor parentConversation
  refine Sound.bind ?_ fun inherited => ?_
  · split
    · exact .done none
    · exact .askOr _ _ _
  · split
    · exact .done _
    · exact .returning (h .insertConversation rfl) fun w => ⟨rfl, rfl, rfl, rfl⟩

theorem sound_fileConversations (h : Whole fails) (conversationId : ℕ) :
    Sound Kept fails (fileConversations d conversationId) := by
  unfold fileConversations
  refine Sound.bind (Sound.write (h .ownConversation rfl) fun w => ⟨rfl, rfl, rfl, rfl⟩) fun _ => ?_
  refine .each (fun mentioned => ?_) d.resolved
  exact .write (h (.theirConversation mentioned.id) rfl) fun w => ⟨rfl, rfl, rfl, rfl⟩

theorem sound_assignConversation (h : Whole fails) : Sound Spared fails (assignConversation d) := by
  unfold assignConversation
  refine (sound_conversationFor h _).spared.bind fun conversationId => ?_
  refine Sound.bind (Sound.write (h .setConversation rfl) fun w =>
    spared_setColumns w d.id _ fun c => ⟨rfl, fun _ => rfl⟩) fun _ => ?_
  refine Sound.bind (Sound.write (h .touchConversation rfl) Spared.refl) fun _ => ?_
  split
  · exact (sound_fileConversations d h conversationId).spared
  · exact .done ()

theorem kept_countCreated (row : Status) : (countCreated row).Always Kept := by
  unfold countCreated
  split
  · trivial
  · refine Always.bind (Always.exec fun w => ⟨rfl, rfl, rfl, rfl⟩) fun _ => ?_
    split
    · exact Always.exec fun w => ⟨rfl, rfl, rfl, rfl⟩
    · trivial

theorem sound_attachMedia (h : Whole fails) : Sound Kept fails (attachMedia d) := by
  refine .each (fun id => ?_) _
  exact .write (h (.attachMedia id) rfl) fun w => ⟨rfl, rfl, rfl, rfl⟩

theorem sound_createPoll (h : Whole fails) (now : ℤ) : Sound Spared fails (createPoll d now) := by
  unfold createPoll
  split
  · exact .done ()
  · refine Sound.bind (Sound.returning (h .insertPoll rfl) fun _ =>
      (Kept.spared ⟨rfl, rfl, rfl, rfl⟩)) fun id => ?_
    exact .write (h .linkPoll rfl) fun w => spared_setColumns w d.id _ fun c => ⟨rfl, fun hc => hc⟩

theorem sound_deliver (l : Statement) (activity : Activity) (inboxes : List String) :
    Sound Kept fails (deliver l activity inboxes) :=
  .logged (Always.exec fun _ => ⟨rfl, rfl, rfl, rfl⟩)

theorem sound_requestQuote (h : Whole fails) (quote : Option Quotes.Quote) :
    Sound Kept fails (requestQuote d quote) := by
  unfold requestQuote
  split
  · exact .done ()
  · exact .done ()
  · refine Sound.bind (Sound.read (h .quotedInbox rfl) _) fun quoted => ?_
    split
    · split
      · exact .done ()
      · exact sound_deliver _ _ _
    · exact .done ()

theorem sound_federate (h : Whole fails) (quote : Option Quotes.Quote) :
    Sound Kept fails (federate e d quote) := by
  unfold federate
  refine (Sound.askOr _ _ _).bind fun signs => ?_
  split
  · refine Sound.bind (Sound.read (h .buildNote rfl) _) fun _ => ?_
    refine (sound_requestQuote d h quote).bind fun _ => ?_
    refine (Sound.askOr _ _ _).bind fun inboxes => ?_
    split
    · exact .done ()
    · exact sound_deliver _ _ _
  · exact .done ()

theorem sound_attach (h : Whole fails) : Sound Spared fails (attach e account idScheme r d) := by
  unfold attach
  refine (sound_attachQuote e account idScheme r d h).spared.bind fun quote => ?_
  refine (sound_storeStatusesTags e h _ _).spared.bind fun _ => ?_
  refine (sound_storeStatusMentions h _ _).spared.bind fun _ => ?_
  refine (sound_ensureQuotedAccess quote).spared.bind fun _ => ?_
  refine (sound_assignConversation d h).bind fun _ => ?_
  refine (Sound.logged (kept_countCreated d.row)).spared.bind fun _ => ?_
  refine (sound_attachMedia d h).spared.bind fun _ => ?_
  refine (sound_createPoll d h r.now).bind fun _ => ?_
  refine Sound.bind (Sound.read (h .loadMedia rfl) _).spared fun _ => ?_
  exact (Sound.read (h .buildStatus rfl) _).spared.bind fun _ =>
    (sound_federate e d h quote).spared

end

end Eunha.PostEffects
