import Eunha.Posting

/-!
# Publishing what was scheduled

`publish_one` makes the post of a schedule out of the parameters that were kept of it. It
reads and inserts on its own, not through `post_status`: up to the insertion a failure can be
tried again, and from there on the statements are best effort and their failures logged.
-/
namespace Eunha.Scheduling
open Tables Database Posting Programs Program

inductive PublishError where
  | permanent
  | transient
  deriving DecidableEq

abbrev Publish (α : Type) : Type := Program Statement World PublishError α

section
variable (e : Env)

def author (accountId : ℕ) : Publish Account :=
  .statement .account id
    (fun w =>
      match w.db.account accountId with
      | some account => done account
      | none => fail .permanent)
    (fail .transient)

def parentOf (inReplyToId : Option ℤ) : Publish (Option ℕ) :=
  match inReplyToId with
  | none => done none
  | some id => askOr .parent (fun w => (keptAt w.db id).map (·.accountId)) none

/-- The post of a schedule, as it is to be inserted. -/
def draftOf (account : Account) (preferred : Option String)
    (inReplyToAccountId : Option ℕ) (resolved : List Account) (p : Params) (statusId : ℕ) :
    Draft :=
  let text := p.text.getD ""
  let uri := s!"https://{e.domain}/users/{account.username}/statuses/{statusId}"
  let inReplyToId := p.inReplyToId.bind parseId
  { id := statusId
    accountId := account.id
    uri := uri
    visibility := p.visibility.getD "public"
    inReplyToId := inReplyToId
    columns :=
      { text := text
        spoilerText := p.spoilerText.getD ""
        language := validLocaleCascade e [p.language, preferred, some defaultLocale]
        sensitive := p.sensitive.getD false
        inReplyToAccountId := inReplyToAccountId
        reply := inReplyToId.isSome
        url := uri
        applicationId := none
        conversationId := none
        pollId := none }
    quotePolicy := 0
    quoted := none
    resolved := resolved
    hashtags := e.extractHashtags text
    mediaIds := []
    poll := p.poll }

/-- What `publish_one` reads before it inserts. -/
def load (row : Scheduled) (statusId : ℕ) : Publish (Params × Draft) :=
  match row.params with
  | none => fail .permanent
  | some p => do
      let account ← author row.accountId
      let defaults ← userDefaults row.accountId
      let inReplyToAccountId ← parentOf (p.inReplyToId.bind parseId)
      let resolved ← resolveMentionAccounts e (e.extractMentionHandles (p.text.getD ""))
      done (p, draftOf e account defaults.language inReplyToAccountId resolved p statusId)

/-- The insertion, after which the post exists and the schedule is spent. -/
def insertPublished (d : Draft) : Publish Unit :=
  .statement .insertStatus (insertRow d)
    (fun w => if refused w d then fail .transient else done ()) (fail .transient)

def publishPoll (d : Draft) (now : ℤ) : Publish Unit :=
  match d.poll with
  | none => done ()
  | some poll =>
      if poll.options.length < 2 then done ()
      else (write .insertPoll (addPoll d.row poll now)).logged

def followUp (p : Params) (d : Draft) (now : ℤ) : Publish Unit := do
  (storeStatusesTags e d.id d.hashtags).logged
  (storeStatusMentions d.id d.resolved).logged
  (countCreated d.row).logged
  each (fun id => (write (.attachMedia id) (attachOne d.accountId d.id id)).logged)
    ((p.mediaIds.getD []).filterMap parseId)
  publishPoll d now

def publishOne (row : Scheduled) (now : ℤ) (statusId : ℕ) : Publish Unit := do
  let (p, d) ← load e row statusId
  insertPublished d
  followUp e p d now

end
end Eunha.Scheduling
