import Eunha.DomainBlocks

/-!
# What a domain block leaves alone

The rows of accounts, attachments and custom emojis under a domain block: the statements of
`block`, `unblock` and `clear_media` select them by a `LIKE` pattern made of the block's
domain, in which some characters stand for others. Outside the domain nothing changes where
it has none of these; where it has one, a call that does anything reaches another domain.
-/
namespace Eunha.DomainFrames
open DomainBlocks DomainModeration SqlLike

/-! ### Rows -/

structure File where
  name : Option String
  contentType : Option String
  size : Option ℕ
  updatedAt : Option ℤ
  deriving DecidableEq

def File.forgotten : File := ⟨none, none, none, none⟩

/-- What else `purge_profile` resets. -/
structure Profile where
  locked : Bool
  memorial : Bool
  discoverable : Option Bool
  trendable : Option Bool
  displayName : String
  note : String
  fields : List (String × String)
  movedToAccountId : Option ℕ
  reviewedAt : Option ℤ
  requestedReviewAt : Option ℤ
  alsoKnownAs : List String
  avatarRemoteUrl : Option String
  avatarDescription : String
  headerRemoteUrl : String
  headerDescription : String
  deriving DecidableEq

def Profile.purged : Profile :=
  ⟨false, false, some false, some false, "", "", [], none, none, none, [], none, "", "", ""⟩

structure Row extends Account where
  avatar : File
  header : File
  profile : Profile
  deriving DecidableEq

structure Attachment where
  accountId : ℕ
  statusId : Option ℕ
  file : File
  thumbnail : File
  deriving DecidableEq

structure Emoji where
  domain : Option Domain
  shortcode : String
  image : File
  deriving DecidableEq

/-- The rows by their ids, and the statuses of each account that are kept for a report. -/
structure State where
  blocks : BlockTable
  accounts : ℕ → Option Row
  attachments : ℕ → Option Attachment
  emojis : ℕ → Option Emoji
  reported : ℕ → List ℕ

/-! ### Statements -/

/-- `domain = $1 OR domain LIKE '%.' || $1` -/
def selects (b : Block) (domain : Option Domain) : Bool :=
  domain.any fun d => d.text = b.domain.text ||
    like ("%.".toList ++ b.domain.text.toList) d.text.toList = some true

/-- An `UPDATE` of the limits of accounts. -/
def State.updateLimits (s : State) (f : Account → Account) : State :=
  { s with accounts := fun id => (s.accounts id).map fun a => { a with toAccount := f a.toAccount } }

def Row.purge (createdAt : ℤ) (a : Row) : Row where
  toAccount := purgeProfile createdAt a.toAccount
  avatar := .forgotten
  header := .forgotten
  profile := .purged

/-- The accounts that `suspend_accounts` deletes. -/
def Row.deleted (b : Block) (a : Row) : Bool :=
  byDomain b a.toAccount && a.suspendedAt = some b.createdAt

/-- `delete_account::call` on each of them: its profile and its attachments, but for those on
statuses that are reported. -/
def State.deleteAccounts (s : State) (b : Block) : State :=
  { s with
    accounts := fun id => (s.accounts id).map fun a =>
      if a.deleted b then a.purge b.createdAt else a
    attachments := fun id => (s.attachments id).filter fun m =>
      !((s.accounts m.accountId).any (Row.deleted b)) ||
        m.statusId.any (· ∈ s.reported m.accountId) }

def State.deleteEmojis (s : State) (b : Block) : State :=
  { s with emojis := fun id => (s.emojis id).filter fun e => !selects b e.domain }

def Row.clear (b : Block) (a : Row) : Row :=
  if byDomain b a.toAccount then { a with avatar := .forgotten, header := .forgotten } else a

def State.clearFiles (s : State) (b : Block) : State :=
  { s with
    accounts := fun id => (s.accounts id).map (Row.clear b)
    attachments := fun id => (s.attachments id).map fun m =>
      if (s.accounts m.accountId).any fun a => byDomain b a.toAccount then
        { m with file := .forgotten, thumbnail := .forgotten }
      else m }

/-! ### Calls -/

def clearMedia (s : State) (id : ℕ) : State :=
  match s.blocks.find id with
  | none => s
  | some b => if !b.rejectMedia then s else (s.clearFiles b).deleteEmojis b

/-- `process_domain_block!` -/
def process (s : State) (b : Block) : State :=
  if b.severityOf = silence then s.updateLimits (silenceAccount b)
  else if b.severityOf = suspend then (s.updateLimits (suspendAccount b)).deleteAccounts b
  else s

/-- `process_retroactive_updates!` -/
def retroact (s : State) (b : Block) : State :=
  let s := if b.severityOf ≠ silence then s.updateLimits (unsilenceAccount b) else s
  if b.severityOf ≠ suspend then s.updateLimits (unsuspendAccount b) else s

def block (s : State) (id : ℕ) (update : Bool) : State :=
  match s.blocks.find id with
  | none => s
  | some b =>
      let s := process s b
      let s := if update then retroact s b else s
      if b.severityOf = suspend then s.deleteEmojis b
      else if b.rejectMedia then clearMedia s b.id
      else s

def unblock (s : State) (id : ℕ) : State :=
  match s.blocks.find id with
  | none => s
  | some b =>
      let s := if b.severityOf ≠ noop then s.updateLimits (unsilenceAccount b) else s
      let s := if b.severityOf = suspend then s.updateLimits (unsuspendAccount b) else s
      { s with blocks := s.blocks.delete id }

inductive Call where
  | block (update : Bool)
  | unblock
  | clearMedia

def Call.run (s : State) (id : ℕ) : Call → State
  | .block update => DomainFrames.block s id update
  | .unblock => DomainFrames.unblock s id
  | .clearMedia => DomainFrames.clearMedia s id

def Call.Acts (b : Block) : Call → Prop
  | .block update =>
      b.severityOf = silence ∨ b.severityOf = suspend ∨ update = true ∨ b.rejectMedia = true
  | .unblock => b.severityOf ≠ noop
  | .clearMedia => b.rejectMedia = true

/-! ### Outside the domain -/

def Outside (b : Block) (domain : Option Domain) : Prop :=
  ∀ d ∈ domain, d.text ≠ b.domain.text ∧ ¬ '.' :: b.domain.text.toList <:+ d.text.toList

/-- No account, attachment or emoji outside the block's domain has changed. -/
structure Untouched (b : Block) (s s' : State) : Prop where
  accounts : ∀ id a, s.accounts id = some a → Outside b a.domain → s'.accounts id = some a
  attachments : ∀ id m, s.attachments id = some m →
    (∀ a, s.accounts m.accountId = some a → Outside b a.domain) → s'.attachments id = some m
  emojis : ∀ id e, s.emojis id = some e → Outside b e.domain → s'.emojis id = some e

/-- And no account has another domain than it had. -/
structure Frame (b : Block) (s s' : State) : Prop extends Untouched b s s' where
  domains : ∀ id a', s'.accounts id = some a' →
    ∃ a, s.accounts id = some a ∧ a.domain = a'.domain

theorem Frame.refl (b : Block) (s : State) : Frame b s s :=
  ⟨⟨fun _ _ h _ => h, fun _ _ h _ => h, fun _ _ h _ => h⟩, fun _ a' h => ⟨a', h, rfl⟩⟩

theorem Frame.trans {b : Block} {s s' s'' : State} (h : Frame b s s') (h' : Frame b s' s'') :
    Frame b s s'' := by
  refine ⟨⟨?_, ?_, ?_⟩, ?_⟩
  · intro id a ha hout
    exact h'.accounts id a (h.accounts id a ha hout) hout
  · intro id m hm hout
    apply h'.attachments id m (h.attachments id m hm hout)
    intro a' ha'
    obtain ⟨a, ha, hdomain⟩ := h.domains m.accountId a' ha'
    rw [← hdomain]
    exact hout a ha
  · intro id e he hout
    exact h'.emojis id e (h.emojis id e he hout) hout
  · intro id a'' ha''
    obtain ⟨a', ha', hdomain'⟩ := h'.domains id a'' ha''
    obtain ⟨a, ha, hdomain⟩ := h.domains id a' ha'
    exact ⟨a, ha, hdomain.trans hdomain'⟩

/-! ### A domain without wildcards -/

section Plain

variable {b : Block} (hb : Plain b.domain.text.toList)
include hb

theorem not_selects_of_outside {domain : Option Domain} (hout : Outside b domain) :
    selects b domain = false := by
  have hplain : Plain ('.' :: b.domain.text.toList) := by
    intro c hc
    cases List.mem_cons.mp hc with
    | inl h => rw [h]; decide
    | inr h => exact hb c h
  cases domain with
  | none => rfl
  | some d =>
      have hd := hout d rfl
      rw [selects, Option.any_some, pattern_eq, like_any_plain hplain]
      simp [hd.1, hd.2]

theorem byDomain_of_outside {a : Account} (hout : Outside b a.domain) : byDomain b a = false :=
  not_selects_of_outside hb hout

theorem frame_updateLimits (s : State) {f : Account → Account}
    (hf : ∀ a, byDomain b a = false → f a = a) (hdomain : ∀ a, (f a).domain = a.domain) :
    Frame b s (s.updateLimits f) := by
  refine ⟨⟨?_, fun _ _ h _ => h, fun _ _ h _ => h⟩, ?_⟩
  · intro id a ha hout
    rw [State.updateLimits]
    dsimp only
    rw [ha, Option.map_some, hf a.toAccount (byDomain_of_outside hb hout)]
  · intro id a' ha'
    obtain ⟨a, ha, rfl⟩ := Option.map_eq_some_iff.mp ha'
    exact ⟨a, ha, (hdomain a.toAccount).symm⟩

theorem frame_deleteEmojis (s : State) : Frame b s (s.deleteEmojis b) := by
  refine ⟨⟨fun _ _ h _ => h, fun _ _ h _ => h, ?_⟩, fun _ a' h => ⟨a', h, rfl⟩⟩
  intro id e he hout
  rw [State.deleteEmojis]
  dsimp only
  rw [he, Option.filter_some, not_selects_of_outside hb hout]
  rfl

theorem frame_deleteAccounts (s : State) : Frame b s (s.deleteAccounts b) := by
  have hdeleted (a : Row) (hout : Outside b a.domain) : a.deleted b = false := by
    rw [Row.deleted, byDomain_of_outside hb hout, Bool.false_and]
  refine ⟨⟨?_, ?_, fun _ _ h _ => h⟩, ?_⟩
  · intro id a ha hout
    rw [State.deleteAccounts]
    dsimp only
    rw [ha, Option.map_some, hdeleted a hout]
    rfl
  · intro id m hm hout
    have hkept : (s.accounts m.accountId).any (Row.deleted b) = false := by
      cases howner : s.accounts m.accountId with
      | none => rfl
      | some a => exact hdeleted a (hout a howner)
    rw [State.deleteAccounts]
    dsimp only
    rw [hm, Option.filter_some, hkept]
    rfl
  · intro id a' ha'
    obtain ⟨a, ha, rfl⟩ := Option.map_eq_some_iff.mp ha'
    refine ⟨a, ha, ?_⟩
    split
    next => rfl
    next => rfl

theorem frame_clearFiles (s : State) : Frame b s (s.clearFiles b) := by
  refine ⟨⟨?_, ?_, fun _ _ h _ => h⟩, ?_⟩
  · intro id a ha hout
    rw [State.clearFiles]
    dsimp only
    rw [ha, Option.map_some, Row.clear, byDomain_of_outside hb hout]
    rfl
  · intro id m hm hout
    have hkept : ((s.accounts m.accountId).any fun a => byDomain b a.toAccount) = false := by
      cases howner : s.accounts m.accountId with
      | none => rfl
      | some a => exact byDomain_of_outside hb (hout a howner)
    rw [State.clearFiles]
    dsimp only
    rw [hm, Option.map_some, hkept]
    rfl
  · intro id a' ha'
    obtain ⟨a, ha, rfl⟩ := Option.map_eq_some_iff.mp ha'
    refine ⟨a, ha, ?_⟩
    rw [Row.clear]
    split
    next => rfl
    next => rfl

theorem frame_silence (s : State) : Frame b s (s.updateLimits (silenceAccount b)) := by
  apply frame_updateLimits hb
  · intro a ha
    simp [silenceAccount, ha]
  · intro a
    unfold silenceAccount
    split
    next => rfl
    next => rfl

theorem frame_suspend (s : State) : Frame b s (s.updateLimits (suspendAccount b)) := by
  apply frame_updateLimits hb
  · intro a ha
    simp [suspendAccount, ha]
  · intro a
    unfold suspendAccount
    split
    next => rfl
    next => rfl

theorem frame_unsilence (s : State) : Frame b s (s.updateLimits (unsilenceAccount b)) := by
  apply frame_updateLimits hb
  · intro a ha
    simp [unsilenceAccount, ha]
  · intro a
    unfold unsilenceAccount
    split
    next => rfl
    next => rfl

theorem frame_unsuspend (s : State) : Frame b s (s.updateLimits (unsuspendAccount b)) := by
  apply frame_updateLimits hb
  · intro a ha
    simp [unsuspendAccount, ha]
  · intro a
    unfold unsuspendAccount
    split
    next => rfl
    next => rfl

theorem frame_process (s : State) : Frame b s (process s b) := by
  unfold process
  split
  next => exact frame_silence hb s
  next =>
    split
    next => exact (frame_suspend hb s).trans (frame_deleteAccounts hb _)
    next => exact .refl b s

theorem frame_retroact (s : State) : Frame b s (retroact s b) := by
  have hfirst : Frame b s
      (if b.severityOf ≠ silence then s.updateLimits (unsilenceAccount b) else s) := by
    split
    next => exact frame_unsilence hb s
    next => exact .refl b s
  unfold retroact
  dsimp only
  split
  next => exact hfirst.trans (frame_unsuspend hb _)
  next => exact hfirst

theorem frame_clearMedia (s : State) (h : s.blocks.find b.id = some b) :
    Frame b s (clearMedia s b.id) := by
  rw [clearMedia, h]
  dsimp only
  split
  next => exact .refl b s
  next => exact (frame_clearFiles hb s).trans (frame_deleteEmojis hb _)

end Plain

/-! ### The blocks that a call leaves -/

theorem process_blocks (s : State) (b : Block) : (process s b).blocks = s.blocks := by
  unfold process
  split
  next => rfl
  next =>
    split
    next => rfl
    next => rfl

theorem retroact_blocks (s : State) (b : Block) : (retroact s b).blocks = s.blocks := by
  unfold retroact
  dsimp only
  split
  next =>
    split
    next => rfl
    next => rfl
  next =>
    split
    next => rfl
    next => rfl

theorem block_eq {s : State} {b : Block} (h : s.blocks.find b.id = some b) (update : Bool) :
    block s b.id update =
      let t := if update then retroact (process s b) b else process s b
      if b.severityOf = suspend then t.deleteEmojis b
      else if b.rejectMedia then (t.clearFiles b).deleteEmojis b
      else t := by
  have hfind : (if update then retroact (process s b) b else process s b).blocks.find b.id =
      some b := by
    split
    next => rw [retroact_blocks, process_blocks, h]
    next => rw [process_blocks, h]
  rw [block, h]
  dsimp only
  split
  next => rfl
  next =>
    split
    next hmedia =>
      rw [clearMedia, hfind]
      simp [hmedia]
    next => rfl

theorem unblock_eq {s : State} {b : Block} (h : s.blocks.find b.id = some b) :
    unblock s b.id =
      let t := if b.severityOf ≠ noop then s.updateLimits (unsilenceAccount b) else s
      let t := if b.severityOf = suspend then t.updateLimits (unsuspendAccount b) else t
      { t with blocks := s.blocks.delete b.id } := by
  rw [unblock, h]
  dsimp only
  split
  next =>
    split
    next => rfl
    next => rfl
  next =>
    split
    next => rfl
    next => rfl

theorem run_untouched {b : Block} (hb : Plain b.domain.text.toList) {s : State}
    (h : s.blocks.find b.id = some b) (call : Call) : Untouched b s (call.run s b.id) := by
  cases call with
  | block update =>
      have hlimits : Frame b s (if update then retroact (process s b) b else process s b) := by
        split
        next => exact (frame_process hb s).trans (frame_retroact hb _)
        next => exact frame_process hb s
      rw [Call.run, block_eq h]
      dsimp only
      split
      next => exact (hlimits.trans (frame_deleteEmojis hb _)).toUntouched
      next =>
        split
        next =>
          exact ((hlimits.trans (frame_clearFiles hb _)).trans
            (frame_deleteEmojis hb _)).toUntouched
        next => exact hlimits.toUntouched
  | unblock =>
      have hfirst : Frame b s
          (if b.severityOf ≠ noop then s.updateLimits (unsilenceAccount b) else s) := by
        split
        next => exact frame_unsilence hb s
        next => exact .refl b s
      rw [Call.run, unblock_eq h]
      dsimp only
      split
      next =>
        have hall := (hfirst.trans (frame_unsuspend hb _)).toUntouched
        exact ⟨hall.accounts, hall.attachments, hall.emojis⟩
      next =>
        have hall := hfirst.toUntouched
        exact ⟨hall.accounts, hall.attachments, hall.emojis⟩
  | clearMedia => exact (frame_clearMedia hb s h).toUntouched

theorem run_idle {b : Block} {s : State} (h : s.blocks.find b.id = some b) {call : Call}
    (hidle : ¬ call.Acts b) : Untouched b s (call.run s b.id) := by
  cases call with
  | block update =>
      simp only [Call.Acts, not_or, Bool.not_eq_true] at hidle
      have hprocess : process s b = s := by
        rw [process, if_neg hidle.1, if_neg hidle.2.1]
      rw [Call.run, block_eq h]
      simp only [hidle.2.2.1, hidle.2.2.2, hidle.2.1, hprocess, Bool.false_eq_true, if_false]
      exact (Frame.refl b s).toUntouched
  | unblock =>
      have hnoop : b.severityOf = noop := not_not.mp hidle
      have hsuspend : b.severityOf ≠ suspend := by
        rw [hnoop]
        decide
      rw [Call.run, unblock_eq h]
      simp only [hnoop, ne_eq, not_true_eq_false, if_false]
      rw [if_neg (by decide)]
      exact ⟨fun _ _ h _ => h, fun _ _ h _ => h, fun _ _ h _ => h⟩
  | clearMedia =>
      simp only [Call.Acts, Bool.not_eq_true] at hidle
      rw [Call.run, clearMedia, h]
      simp only [hidle, Bool.not_false, if_true]
      exact (Frame.refl b s).toUntouched

/-! ### A domain with wildcards -/

def fill (c : Char) : Char := if c = '_' ∨ c = '%' then 'a' else c

theorem like_fill {p : List Char} (h : '\\' ∉ p) : like p (p.map fill) = some true := by
  induction p with
  | nil => rfl
  | cons c p ih =>
      have hp : '\\' ∉ p := fun hp => h (List.mem_cons_of_mem c hp)
      have hc : c ≠ '\\' := fun hc => h (hc ▸ List.mem_cons_self)
      unfold like
      split
      next =>
        exact firstMatch_of_suffix (like_isSome hp) (ih hp) (List.suffix_cons (fill c) _)
      next hpercent =>
        split
        next => exact ih hp
        next hunder =>
          have hfill : fill c = c := if_neg (by simp [hpercent, hunder])
          simpa [charMatch, hc, hfill] using ih hp

/-- A domain below another that a pattern takes for the block's. -/
def Domain.wild (d : Domain) : Domain where
  text := String.ofList ('x' :: '.' :: d.text.toList.map fill)
  normal := by
    intro c hc
    rw [String.toList_ofList] at hc
    cases List.mem_cons.mp hc with
    | inl h => rw [h]; decide
    | inr h =>
        cases List.mem_cons.mp h with
        | inl h => rw [h]; decide
        | inr h =>
            obtain ⟨e, he, rfl⟩ := List.mem_map.mp h
            unfold fill
            split
            next => decide
            next => exact d.normal e he

theorem plain_of_fill {d : Domain} (h : d.text.toList.map fill = d.text.toList) :
    Plain d.text.toList := by
  intro c hc
  have hfill : fill c = c := by
    have hall := List.map_eq_map_iff.mp (h.trans (List.map_id _).symm)
    exact hall c hc
  have hc' := (d.normal c hc).2.2
  refine ⟨?_, ?_, hc'⟩
  · intro heq
    rw [heq] at hfill
    exact absurd hfill (by decide)
  · intro heq
    rw [heq] at hfill
    exact absurd hfill (by decide)

theorem wild_outside {b : Block} (h : ¬ Plain b.domain.text.toList) :
    Outside b (some (Domain.wild b.domain)) := by
  have htext : (Domain.wild b.domain).text.toList =
      'x' :: '.' :: b.domain.text.toList.map fill := String.toList_ofList
  intro d hd
  cases hd
  constructor
  · intro heq
    rw [heq] at htext
    have hlength := congrArg List.length htext
    simp at hlength
    omega
  · intro hsuffix
    rw [htext] at hsuffix
    cases List.suffix_cons_iff.mp hsuffix with
    | inl heq => cases heq
    | inr hsuffix =>
        have heq := hsuffix.eq_of_length (by simp)
        exact h (plain_of_fill (List.cons.inj heq).2.symm)

theorem selects_wild (b : Block) : selects b (some (Domain.wild b.domain)) = true := by
  have htext : (Domain.wild b.domain).text.toList =
      'x' :: '.' :: b.domain.text.toList.map fill := String.toList_ofList
  have hlike : like ('.' :: b.domain.text.toList) ('.' :: b.domain.text.toList.map fill) =
      some true := like_fill (pattern_noEscape b)
  have hany : like ('%' :: '.' :: b.domain.text.toList)
      ('x' :: '.' :: b.domain.text.toList.map fill) = some true := by
    rw [like, if_pos rfl]
    exact firstMatch_of_suffix (like_isSome (pattern_noEscape b)) hlike (List.suffix_cons 'x' _)
  rw [selects, Option.any_some, pattern_eq, htext, hany]
  simp

def State.single (b : Block) (a : Account) (e : Emoji) : State where
  blocks := ⟨[b], List.pairwise_singleton _ _⟩
  accounts id := if id = 0 then some ⟨a, .forgotten, .forgotten, .purged⟩ else none
  attachments _ := none
  emojis id := if id = 0 then some e else none
  reported _ := []

theorem find_single (b : Block) (a : Account) (e : Emoji) :
    (State.single b a e).blocks.find b.id = some b := by
  simp [State.single, BlockTable.find]

theorem not_untouched_of_emojis {b : Block} (hb : ¬ Plain b.domain.text.toList) {s : State}
    {call : Call} {e : Emoji} (he : s.emojis 0 = some e)
    (hdomain : e.domain = some (Domain.wild b.domain))
    (hgone : (call.run s b.id).emojis 0 = none) : ¬ Untouched b s (call.run s b.id) := by
  intro h
  have hkept := h.emojis 0 e he (by rw [hdomain]; exact wild_outside hb)
  rw [hgone] at hkept
  cases hkept

theorem not_untouched_of_accounts {b : Block} (hb : ¬ Plain b.domain.text.toList) {s : State}
    {call : Call} (a a' : Row) (ha : s.accounts 0 = some a)
    (hdomain : a.domain = some (Domain.wild b.domain))
    (ha' : (call.run s b.id).accounts 0 = some a') (hne : a.silencedAt ≠ a'.silencedAt) :
    ¬ Untouched b s (call.run s b.id) := by
  intro h
  have hkept := h.accounts 0 a ha (by rw [hdomain]; exact wild_outside hb)
  rw [ha'] at hkept
  cases hkept
  exact hne rfl

def wildEmoji (b : Block) : Emoji := ⟨some (Domain.wild b.domain), "", .forgotten⟩

def wildAccount (b : Block) (silencedAt : Option ℤ) : Account :=
  { domain := some (Domain.wild b.domain), silencedAt := silencedAt }

theorem byDomain_wildAccount (b : Block) (silencedAt : Option ℤ) :
    byDomain b (wildAccount b silencedAt) = true :=
  selects_wild b

theorem deleteEmojis_wild {s : State} {b : Block} (h : s.emojis 0 = some (wildEmoji b)) :
    (s.deleteEmojis b).emojis 0 = none := by
  rw [State.deleteEmojis]
  dsimp only
  rw [h, Option.filter_some, wildEmoji, selects_wild]
  rfl

theorem process_emojis (s : State) (b : Block) : (process s b).emojis = s.emojis := by
  unfold process
  split
  next => rfl
  next =>
    split
    next => rfl
    next => rfl

theorem retroact_emojis (s : State) (b : Block) : (retroact s b).emojis = s.emojis := by
  unfold retroact
  dsimp only
  split
  next =>
    split
    next => rfl
    next => rfl
  next =>
    split
    next => rfl
    next => rfl

/-- A row without files, under some limits. -/
def rowOf (a : Account) : Row := ⟨a, .forgotten, .forgotten, .purged⟩

theorem updateLimits_row {s : State} {a a' : Account} {f : Account → Account}
    (h : s.accounts 0 = some (rowOf a)) (hf : f a = a') :
    (s.updateLimits f).accounts 0 = some (rowOf a') := by
  rw [State.updateLimits]
  dsimp only
  rw [h, Option.map_some, ← hf]
  rfl

theorem silenceAccount_wild (b : Block) :
    silenceAccount b (wildAccount b none) = wildAccount b (some b.createdAt) := by
  rw [silenceAccount, if_pos ⟨byDomain_wildAccount b none, rfl⟩]
  rfl

theorem unsilenceAccount_wild (b : Block) :
    unsilenceAccount b (wildAccount b (some b.createdAt)) = wildAccount b none := by
  rw [unsilenceAccount, if_pos ⟨byDomain_wildAccount b _, rfl⟩]
  rfl

theorem unsuspendAccount_wild (b : Block) (silencedAt : Option ℤ) :
    unsuspendAccount b (wildAccount b silencedAt) = wildAccount b silencedAt := by
  rw [unsuspendAccount, if_neg]
  intro h
  cases h.2

theorem retroact_row {s : State} {b : Block} {silencedAt silencedAt' : Option ℤ}
    (h : s.accounts 0 = some (rowOf (wildAccount b silencedAt)))
    (hsilence : if b.severityOf ≠ silence then
      unsilenceAccount b (wildAccount b silencedAt) = wildAccount b silencedAt'
      else silencedAt = silencedAt') :
    (retroact s b).accounts 0 = some (rowOf (wildAccount b silencedAt')) := by
  have hfirst : (if b.severityOf ≠ silence then s.updateLimits (unsilenceAccount b)
      else s).accounts 0 = some (rowOf (wildAccount b silencedAt')) := by
    split
    next hne =>
      rw [if_pos hne] at hsilence
      exact updateLimits_row h hsilence
    next hne =>
      rw [if_neg hne] at hsilence
      rw [h, hsilence]
  unfold retroact
  dsimp only
  split
  next => exact updateLimits_row hfirst (unsuspendAccount_wild b silencedAt')
  next => exact hfirst

theorem block_touches {b : Block} (hb : ¬ Plain b.domain.text.toList) (update : Bool)
    (hacts : (Call.block update).Acts b) :
    ∃ s, s.blocks.find b.id = some b ∧ ¬ Untouched b s ((Call.block update).run s b.id) := by
  by_cases hemojis : b.severityOf = suspend ∨ b.rejectMedia = true
  · have hfind := find_single b (wildAccount b none) (wildEmoji b)
    refine ⟨_, hfind, not_untouched_of_emojis hb (e := wildEmoji b) rfl rfl ?_⟩
    have hkept : (if update then retroact (process (State.single b (wildAccount b none)
        (wildEmoji b)) b) b else process (State.single b (wildAccount b none)
        (wildEmoji b)) b).emojis 0 = some (wildEmoji b) := by
      split
      next => rw [retroact_emojis, process_emojis]; rfl
      next => rw [process_emojis]; rfl
    rw [Call.run, block_eq hfind]
    dsimp only
    split
    next => exact deleteEmojis_wild hkept
    next hsuspend =>
      rw [if_pos (hemojis.resolve_left hsuspend)]
      exact deleteEmojis_wild hkept
  · rw [not_or] at hemojis
    by_cases hsilence : b.severityOf = silence
    · have hfind := find_single b (wildAccount b none) (wildEmoji b)
      refine ⟨_, hfind, not_untouched_of_accounts hb (rowOf (wildAccount b none))
        (rowOf (wildAccount b (some b.createdAt))) rfl rfl ?_
        (by simp [rowOf, wildAccount])⟩
      have hprocess : (process (State.single b (wildAccount b none) (wildEmoji b)) b).accounts
          0 = some (rowOf (wildAccount b (some b.createdAt))) := by
        rw [process, if_pos hsilence]
        exact updateLimits_row rfl (silenceAccount_wild b)
      rw [Call.run, block_eq hfind]
      dsimp only
      rw [if_neg hemojis.1, if_neg hemojis.2]
      split
      next => exact retroact_row hprocess (by rw [if_neg (not_not.mpr hsilence)])
      next => exact hprocess
    · have hupdate : update = true := by
        simpa [Call.Acts, hsilence, hemojis.1, hemojis.2] using hacts
      have hfind := find_single b (wildAccount b (some b.createdAt)) (wildEmoji b)
      refine ⟨_, hfind, not_untouched_of_accounts hb
        (rowOf (wildAccount b (some b.createdAt))) (rowOf (wildAccount b none))
        rfl rfl ?_ (by simp [rowOf, wildAccount])⟩
      rw [Call.run, block_eq hfind]
      dsimp only
      rw [if_neg hemojis.1, if_neg hemojis.2, if_pos hupdate, process, if_neg hsilence,
        if_neg hemojis.1]
      exact retroact_row rfl (by rw [if_pos hsilence]; exact unsilenceAccount_wild b)

theorem run_touches {b : Block} (hb : ¬ Plain b.domain.text.toList) {call : Call}
    (hacts : call.Acts b) :
    ∃ s, s.blocks.find b.id = some b ∧ ¬ Untouched b s (call.run s b.id) := by
  cases call with
  | block update => exact block_touches hb update hacts
  | unblock =>
      have hfind := find_single b (wildAccount b (some b.createdAt)) (wildEmoji b)
      refine ⟨_, hfind, not_untouched_of_accounts hb
        (rowOf (wildAccount b (some b.createdAt))) (rowOf (wildAccount b none))
        rfl rfl ?_ (by simp [rowOf, wildAccount])⟩
      have hfirst := updateLimits_row (s := State.single b (wildAccount b (some b.createdAt))
        (wildEmoji b)) rfl (unsilenceAccount_wild b)
      have hnoop : b.severityOf ≠ noop := hacts
      rw [Call.run, unblock_eq hfind]
      dsimp only
      rw [if_pos hnoop]
      split
      next => exact updateLimits_row hfirst (unsuspendAccount_wild b none)
      next => exact hfirst
  | clearMedia =>
      have hfind := find_single b (wildAccount b none) (wildEmoji b)
      refine ⟨_, hfind, not_untouched_of_emojis hb (e := wildEmoji b) rfl rfl ?_⟩
      have hmedia : b.rejectMedia = true := hacts
      rw [Call.run, clearMedia, hfind]
      dsimp only
      rw [hmedia]
      exact deleteEmojis_wild rfl

/-- A block touches nothing outside its domain, whatever there is, exactly where its domain has
no character that the pattern takes for others, or the call runs no statement. -/
theorem untouched_iff (b : Block) (call : Call) :
    (∀ s, s.blocks.find b.id = some b → Untouched b s (call.run s b.id)) ↔
      Plain b.domain.text.toList ∨ ¬ call.Acts b := by
  constructor
  · intro h
    by_contra hnot
    rw [not_or, not_not] at hnot
    obtain ⟨s, hfind, htouched⟩ := run_touches hnot.1 hnot.2
    exact htouched (h s hfind)
  · intro h s hfind
    cases h with
    | inl hb => exact run_untouched hb hfind call
    | inr hidle => exact run_idle hfind hidle

def under : Domain := ⟨"a_b.example", by decide⟩

def other : Domain := ⟨"x.acb.example", by decide⟩

/-- A block of `a_b.example` silences an account of `x.acb.example`. -/
theorem silence_reaches_other :
    ¬ ∀ (b : Block) (call : Call) (s : State), s.blocks.find b.id = some b →
      (∀ c ∈ b.domain.text.toList, c.isAlphanum ∨ c = '-' ∨ c = '_' ∨ c = '.') →
      Untouched b s (call.run s b.id) := by
  intro h
  have huntouched := h ⟨1, under, some silence, false, false, 7⟩ (.block false)
    (State.single ⟨1, under, some silence, false, false, 7⟩ { domain := some other }
      ⟨none, "", .forgotten⟩) (find_single _ _ _) (by decide)
  have hout : Outside ⟨1, under, some silence, false, false, 7⟩ (some other) := by
    intro d hd
    cases hd
    exact ⟨by decide, by decide +kernel⟩
  have hkept := huntouched.accounts 0 (rowOf { domain := some other }) rfl hout
  have hchanged : ((Call.block false).run (State.single
      ⟨1, under, some silence, false, false, 7⟩ { domain := some other }
      ⟨none, "", .forgotten⟩) 1).accounts 0 =
        some (rowOf { domain := some other, silencedAt := some 7 }) := by
    decide +kernel
  rw [hchanged] at hkept
  cases hkept

end Eunha.DomainFrames
