import Eunha.Quotes
import Eunha.StatusCounts
import Eunha.Runs

/-!
# Quotes that are accepted, and those that were revoked

A row becomes accepted because it was, because the author it quotes is of another server
that vouches for it or is its own author, because its own server asked and the policy lets
it, or because it was posted here under the policy. Of these only asking can bring a
revoked quote of a post here back.
-/
namespace Eunha.QuoteRevocation
open Tables Database Statuses StatusCounts Quotes Runs
open StatusLifecycle hiding Op step handleDelete

/-! ### What is known of the rows -/

/-- A quote of a status knows its author. -/
def WellFormed (w : World) : Prop :=
  ∀ q ∈ w.quotes.rows, ∀ id ∈ q.quotedStatusId,
    ∃ s ∈ w.db.statuses.rows, s.id = id ∧ q.quotedAccountId = some s.accountId

/-- The statuses that are there keep their author, and the accounts their server. -/
structure Keeps (db db' : Db) : Prop where
  statuses : ∀ s ∈ db.statuses.rows,
    ∃ t ∈ db'.statuses.rows, t.id = s.id ∧ t.accountId = s.accountId
  accounts : ∀ id, isLocal db' id = isLocal db id

theorem Keeps.refl (db : Db) : Keeps db db := ⟨fun s hs => ⟨s, hs, rfl, rfl⟩, fun _ => rfl⟩

theorem Keeps.trans {a b c : Db} (h : Keeps a b) (h' : Keeps b c) : Keeps a c where
  statuses s hs := by
    obtain ⟨t, ht, hid, hauthor⟩ := h.statuses s hs
    obtain ⟨u, hu, huid, huauthor⟩ := h'.statuses t ht
    exact ⟨u, hu, huid.trans hid, huauthor.trans hauthor⟩
  accounts id := (h'.accounts id).trans (h.accounts id)

theorem WellFormed.keeps {w : World} {db : Db} (h : WellFormed w) (hkeeps : Keeps w.db db) :
    WellFormed { w with db := db } := by
  intro q hq id hid
  obtain ⟨s, hs, rfl, hauthor⟩ := h q hq id hid
  obtain ⟨t, ht, htid, htauthor⟩ := hkeeps.statuses s hs
  exact ⟨t, ht, htid, htauthor ▸ hauthor⟩

/-- Where a row of quotes comes from, as far as what it quotes and whether it is accepted. -/
structure From (q q' : Quote) : Prop where
  id : q'.id = q.id
  status : q'.statusId = q.statusId
  quotedStatus : q'.quotedStatusId = q.quotedStatusId
  quotedAccount : q'.quotedAccountId = q.quotedAccountId
  accepted : q'.state = .accepted → q.state = .accepted

theorem From.refl (q : Quote) : From q q := ⟨rfl, rfl, rfl, rfl, fun h => h⟩

theorem From.trans {p q r : Quote} (h : From p q) (h' : From q r) : From p r :=
  ⟨h'.id.trans h.id, h'.status.trans h.status, h'.quotedStatus.trans h.quotedStatus,
    h'.quotedAccount.trans h.quotedAccount, fun ha => h.accepted (h'.accepted ha)⟩

structure Remote (db : Db) (q : Quote) : Prop where
  aimed : q.quotedStatusId ≠ none
  author : ∃ id ∈ q.quotedAccountId, isLocal db id = false

/-- Which quote is given which status of ours while it is verified. -/
abbrev Aim := ℕ → ℕ → Prop

/-- An accepted quote whose status was gone, given a status of ours. -/
structure Reattached (aim : Aim) (q q' : Quote) : Prop where
  accepted : q.state = .accepted
  gone : q.quotedStatusId = none
  id : q'.id = q.id
  aimed : ∃ id ∈ q'.quotedStatusId, aim q'.id id

/-- Why a row is accepted: it was, an author who is not of this server vouches for it, or
its status was gone. -/
inductive Vouched (aim : Aim) (w : World) (db : Db) (q' : Quote) : Prop
  | before {q : Quote} (hq : q ∈ w.quotes.rows) (h : From q q')
  | remote (h : Remote db q')
  | reattached {q : Quote} (hq : q ∈ w.quotes.rows) (h : Reattached aim q q')

/-- From one world to another no row is accepted without a word, statuses are kept, and what
is known of the rows stays known. -/
structure Fair (aim : Aim) (w w' : World) : Prop where
  keeps : Keeps w.db w'.db
  known : WellFormed w → WellFormed w'
  accepted : WellFormed w → ∀ q' ∈ w'.quotes.rows, q'.state = .accepted → Vouched aim w w'.db q'

variable {aim : Aim}

theorem Fair.refl (w : World) : Fair aim w w :=
  ⟨.refl w.db, fun h => h, fun _ q hq _ => .before hq (.refl q)⟩

theorem Fair.trans {a b c : World} (h : Fair aim a b) (h' : Fair aim b c) : Fair aim a c where
  keeps := h.keeps.trans h'.keeps
  known ha := h'.known (h.known ha)
  accepted ha q hq haccepted := by
    cases h'.accepted (h.known ha) q hq haccepted with
    | @before r hr hfrom =>
        cases h.accepted ha r hr (hfrom.accepted haccepted) with
        | before ht hfrom' => exact .before ht (hfrom'.trans hfrom)
        | remote hremote =>
            obtain ⟨haimed, id, hid, hnot⟩ := hremote
            refine .remote ⟨by rwa [hfrom.quotedStatus], id, by rwa [hfrom.quotedAccount], ?_⟩
            rw [h'.keeps.accounts]
            exact hnot
        | reattached ht hre =>
            obtain ⟨id, hid, haim⟩ := hre.aimed
            exact .reattached ht ⟨hre.accepted, hre.gone, hfrom.id.trans hre.id,
              id, by rwa [hfrom.quotedStatus], by rwa [hfrom.id]⟩
    | remote hremote => exact .remote hremote
    | @reattached r hr hre =>
        cases h.accepted ha r hr hre.accepted with
        | before ht hfrom =>
            exact .reattached ht ⟨hfrom.accepted hre.accepted, hfrom.quotedStatus ▸ hre.gone,
              hre.id.trans hfrom.id, hre.aimed⟩
        | remote hremote => exact absurd hre.gone hremote.aimed
        | reattached _ hre' =>
            obtain ⟨id, hid, _⟩ := hre'.aimed
            rw [hre.gone] at hid
            nomatch hid

/-! ### Rows by their id -/

def SameAim (w : World) (q : Quote) : Prop := ∀ r ∈ w.quotes.rows, r.id = q.id →
  r.quotedStatusId = q.quotedStatusId ∧ r.quotedAccountId = q.quotedAccountId

theorem quote_mem {w : World} {id : ℕ} {q : Quote} (h : w.quote id = some q) :
    q ∈ w.quotes.rows ∧ q.id = id :=
  ⟨List.mem_of_find?_eq_some h, by simpa using List.find?_some h⟩

theorem findByStatus_mem {w : World} {id : ℕ} {q : Quote} (h : w.findByStatus id = some q) :
    q ∈ w.quotes.rows ∧ q.statusId = id :=
  ⟨List.mem_of_find?_eq_some h, by simpa using List.find?_some h⟩

theorem sameAim_of_mem {w : World} {q : Quote} (h : q ∈ w.quotes.rows) : SameAim w q := by
  intro r hr hid
  obtain rfl := w.quotes.eq_of_key hr h (k := .id q.id) (by simp [Quote.keys, hid])
    (by simp [Quote.keys])
  exact ⟨rfl, rfl⟩

theorem id_getD (w : World) (q : Quote) : ((w.quote q.id).getD q).id = q.id := by
  cases h : w.quote q.id with
  | none => rfl
  | some r => exact (quote_mem h).2

theorem sameAim_getD (w : World) (q : Quote) : SameAim w ((w.quote q.id).getD q) := by
  cases h : w.quote q.id with
  | none =>
      intro r hr hid
      have hnone := List.find?_eq_none.mp h r hr
      simp only [Option.getD_none] at hid
      simp [hid] at hnone
  | some r => exact sameAim_of_mem (quote_mem h).1

theorem SameAim.quotedAccountLocal {w : World} {q : Quote} (h : SameAim w q) :
    quotedAccountLocal w ((w.quote q.id).getD q) = quotedAccountLocal w q := by
  cases hr : w.quote q.id with
  | none => rfl
  | some r =>
      have hmem := quote_mem hr
      rw [Option.getD_some, Quotes.quotedAccountLocal, (h r hmem.1 hmem.2).2]
      rfl

theorem mem_setQuote {w : World} {id : ℕ} {f : Quote → Quote}
    {hf : ∀ q, (f q).keys = q.keys} {q' : Quote} :
    q' ∈ (w.setQuote id f hf).quotes.rows ↔
      ∃ q ∈ w.quotes.rows, (if q.id = id then f q else q) = q' :=
  List.mem_map

theorem id_of_keys {q r : Quote} (h : q.keys = r.keys) : q.id = r.id := by
  simp only [Quote.keys, List.cons.injEq, QuoteIndex.id.injEq] at h
  exact h.1

theorem quote_setQuote (w : World) (id i : ℕ) (f : Quote → Quote)
    (hf : ∀ q, (f q).keys = q.keys) :
    (w.setQuote id f hf).quote i = (w.quote i).map fun q => if q.id = id then f q else q := by
  have hsame : ((fun q : Quote => decide (q.id = i)) ∘ fun q => if q.id = id then f q else q) =
      fun q => decide (q.id = i) := by
    funext q
    rw [Function.comp_apply]
    split
    · rw [id_of_keys (hf q)]
    · rfl
  change (w.quotes.rows.map fun q => if q.id = id then f q else q).find? _ = _
  rw [List.find?_map, hsame]
  rfl

/-! ### Changes of one row -/

theorem fair_setQuote {w : World} {id : ℕ} {f : Quote → Quote} {hf : ∀ q, (f q).keys = q.keys}
    (h : WellFormed w → ∀ q ∈ w.quotes.rows, q.id = id →
      (∀ t ∈ (f q).quotedStatusId,
          ∃ s ∈ w.db.statuses.rows, s.id = t ∧ (f q).quotedAccountId = some s.accountId) ∧
        ((f q).state = .accepted → Vouched aim w w.db (f q))) :
    Fair aim w (w.setQuote id f hf) where
  keeps := .refl w.db
  known hw q' hq' t ht := by
    obtain ⟨q, hq, rfl⟩ := mem_setQuote.mp hq'
    by_cases hid : q.id = id
    · rw [if_pos hid] at ht ⊢
      exact (h hw q hq hid).1 t ht
    · rw [if_neg hid] at ht ⊢
      exact hw q hq t ht
  accepted hw q' hq' haccepted := by
    obtain ⟨q, hq, rfl⟩ := mem_setQuote.mp hq'
    by_cases hid : q.id = id
    · rw [if_pos hid] at haccepted ⊢
      exact (h hw q hq hid).2 haccepted
    · rw [if_neg hid]
      exact .before hq (.refl q)

theorem fair_reject (w : World) (id : ℕ) : Fair aim w (reject w id) := by
  refine fair_setQuote fun hw q hq _ => ?_
  have hstate : q.rejected.state ≠ .accepted := by
    rw [Quote.rejected]
    split
    next h => rw [h]; rintro ⟨⟩
    · rintro ⟨⟩
    · rintro ⟨⟩
  have hquoted : q.rejected.quotedStatusId = q.quotedStatusId ∧
      q.rejected.quotedAccountId = q.quotedAccountId := by
    rw [Quote.rejected]
    split <;> exact ⟨rfl, rfl⟩
  rw [hquoted.1, hquoted.2]
  exact ⟨hw q hq, fun h => absurd h hstate⟩

theorem fair_resetIfStampChanged (w : World) (q : Quote) (stampUri : Option String)
    (legacy : Bool) : Fair aim w (resetIfStampChanged w q stampUri legacy) := by
  rw [resetIfStampChanged]
  split
  · exact .refl w
  · exact fair_setQuote fun hw q hq _ => ⟨hw q hq, nofun⟩

theorem fair_accept {w : World} {q : Quote} (hrow : SameAim w q)
    (hsome : q.quotedStatusId ≠ none) (hnot : quotedAccountLocal w q = false)
    (approvalUri : Option String) : Fair aim w (accept w q.id approvalUri) := by
  refine fair_setQuote fun hw r hr hid => ⟨hw r hr, fun _ => .remote ?_⟩
  obtain ⟨hstatus, haccount⟩ := hrow r hr hid
  rw [← hstatus] at hsome
  refine ⟨hsome, ?_⟩
  obtain ⟨t, ht⟩ := Option.ne_none_iff_exists'.mp hsome
  obtain ⟨s, _, _, hauthor⟩ := hw r hr t ht
  refine ⟨s.accountId, hauthor, ?_⟩
  rw [quotedAccountLocal, ← haccount, hauthor] at hnot
  exact hnot

theorem fair_fastTrack {w : World} {q : Quote} (hrow : SameAim w q)
    (hnot : quotedAccountLocal w q = false) : Fair aim w (fastTrack w q) := by
  rw [fastTrack]
  split
  next h => exact fair_accept hrow (Option.isSome_iff_ne_none.mp h.1) hnot none
  next => exact .refl w

theorem fair_setQuotedStatus {w : World} {q : Quote} {statusId : ℕ} (hrow : SameAim w q)
    (hnone : q.quotedStatusId = none)
    (haim : ∀ r ∈ w.quotes.rows, r.id = q.id → r.state = .accepted →
      ∀ t ∈ w.db.statuses.rows, t.id = statusId → isLocal w.db t.accountId = true →
        aim q.id statusId) :
    Fair aim w (setQuotedStatus w q statusId) := by
  rw [setQuotedStatus]
  cases hfind : w.db.statuses.rows.find? (·.id = statusId) with
  | none => exact .refl w
  | some quoted =>
      have hmem := List.mem_of_find?_eq_some hfind
      have hid : quoted.id = statusId := by simpa using List.find?_some hfind
      dsimp only
      split
      · exact .refl w
      · refine fair_setQuote fun _ r hr hrid => ⟨?_, fun haccepted => ?_⟩
        · intro t ht
          obtain rfl : quoted.id = t := Option.some.inj ht
          exact ⟨quoted, hmem, rfl, rfl⟩
        · have hgone := (hrow r hr hrid).1.trans hnone
          cases hlocal : isLocal w.db quoted.accountId with
          | false => exact .remote ⟨nofun, quoted.accountId, rfl, hlocal⟩
          | true =>
              have haimed := haim r hr hrid haccepted quoted hmem hid hlocal
              exact .reattached hr ⟨haccepted, hgone, rfl, quoted.id, rfl,
                by rwa [hid, hrid]⟩

def aimedAt (db : Db) (quotedUri : Option String) (a : Answers) : Option ℕ :=
  quotedUri.bind fun uri => ((keptByUri db uri).map (·.id)).or a.quoted.join

theorem fair_fetchQuotedPost {w w' : World} {q : Quote} {quotedUri : Option String}
    {a : Answers} (hrow : SameAim w q)
    (haim : ∀ r ∈ w.quotes.rows, r.id = q.id → r.state = .accepted →
      ∀ t ∈ w.db.statuses.rows, aimedAt w.db quotedUri a = some t.id →
        isLocal w.db t.accountId = true → aim q.id t.id)
    (h : fetchQuotedPost w q quotedUri a = some w') : Fair aim w w' := by
  unfold fetchQuotedPost at h
  cases hnone : q.quotedStatusId with
  | some id =>
      rw [hnone] at h
      obtain rfl := Option.some.inj h
      exact .refl w
  | none =>
      rw [hnone] at h
      cases quotedUri with
      | none =>
          obtain rfl := Option.some.inj h
          exact .refl w
      | some uri =>
          dsimp only at h
          cases hkept : keptByUri w.db uri with
          | some found =>
              rw [hkept] at h
              obtain rfl := Option.some.inj h
              refine fair_setQuotedStatus hrow hnone fun r hr hrid haccepted t ht hid hlocal => ?_
              rw [← hid]
              exact haim r hr hrid haccepted t ht (by simp [aimedAt, hkept, hid]) hlocal
          | none =>
              rw [hkept] at h
              obtain ⟨found, hfound, rfl⟩ := Option.map_eq_some_iff.mp h
              cases found with
              | none => exact .refl w
              | some id =>
                  refine fair_setQuotedStatus hrow hnone fun r hr hrid haccepted t ht hid hlocal => ?_
                  rw [← hid]
                  exact haim r hr hrid haccepted t ht (by simp [aimedAt, hkept, hid, hfound]) hlocal

/-! ### Verifying a quote -/

theorem quote_accept (w : World) (id i : ℕ) (approvalUri : Option String) :
    (accept w id approvalUri).quote i = (w.quote i).map fun q =>
      if q.id = id then
        { q with state := .accepted, approvalUri := approvalUri.or q.approvalUri }
      else q :=
  quote_setQuote w id i _ _

theorem quotedAccountLocal_accept (w : World) (id i : ℕ) (approvalUri : Option String)
    (q : Quote) :
    quotedAccountLocal (accept w id approvalUri) (((accept w id approvalUri).quote i).getD q) =
      quotedAccountLocal w ((w.quote i).getD q) := by
  rw [quote_accept]
  cases w.quote i with
  | none => rfl
  | some r =>
      change quotedAccountLocal w (if r.id = id then _ else r) = quotedAccountLocal w r
      split <;> rfl

theorem quotedAccountLocal_fastTrack (w : World) (q r : Quote) (i : ℕ) :
    quotedAccountLocal (fastTrack w q) (((fastTrack w q).quote i).getD r) =
      quotedAccountLocal w ((w.quote i).getD r) := by
  rw [fastTrack]
  split
  · exact quotedAccountLocal_accept w q.id i none r
  · rfl

theorem quotedAccountLocal_setQuotedStatus {w : World} {q : Quote} {found : Status}
    (hrow : SameAim w q) (hnot : quotedAccountLocal w q = false)
    (hmem : found ∈ w.db.statuses.rows) (hremote : isLocal w.db found.accountId = false) :
    quotedAccountLocal (setQuotedStatus w q found.id)
      (((setQuotedStatus w q found.id).quote q.id).getD q) = false := by
  rw [setQuotedStatus]
  cases hfind : w.db.statuses.rows.find? (·.id = found.id) with
  | none =>
      exact hrow.quotedAccountLocal.trans hnot
  | some quoted =>
      have hid : quoted.id = found.id := by simpa using List.find?_some hfind
      obtain rfl := w.db.statuses.eq_of_key (List.mem_of_find?_eq_some hfind) hmem
        (k := .id found.id) (by simp [Status.keys, hid]) (by simp [Status.keys])
      dsimp only
      split
      · exact hrow.quotedAccountLocal.trans hnot
      · have hquote := quote_setQuote w q.id q.id (fun q => { q with
            quotedStatusId := some quoted.id, quotedAccountId := some quoted.accountId })
          fun _ => rfl
        rw [hquote]
        cases hr : w.quote q.id with
        | none => exact hnot
        | some r =>
            change quotedAccountLocal w (if r.id = q.id then _ else r) = false
            rw [if_pos (quote_mem hr).2]
            exact hremote

theorem fair_importQuotedPost (aim : Aim) (e : Env) {w : World} {q : Quote} (hrow : SameAim w q)
    (hnot : quotedAccountLocal w q = false) (approvalUri : String) (quotedUri : Option String)
    (d : StampDocument) (imported : Bool) :
    Fair aim w (importQuotedPost e w q approvalUri quotedUri d imported) ∧
      quotedAccountLocal (importQuotedPost e w q approvalUri quotedUri d imported)
        (((importQuotedPost e w q approvalUri quotedUri d imported).quote q.id).getD q) = false := by
  have hsame : Fair aim w w ∧ quotedAccountLocal w ((w.quote q.id).getD q) = false :=
    ⟨.refl w, hrow.quotedAccountLocal.trans hnot⟩
  unfold importQuotedPost
  cases hnone : q.quotedStatusId with
  | some id => exact hsame
  | none =>
      cases quotedUri with
      | none => exact hsame
      | some uri =>
          dsimp only
          split
          · cases hfound : remoteByUri w uri with
            | none => exact hsame
            | some found =>
                have hremote : isLocal w.db found.accountId = false := by
                  have hpicked := List.find?_some hfound
                  simp only [decide_eq_true_eq] at hpicked
                  exact hpicked.2
                have hmem : found ∈ w.db.statuses.rows := List.mem_of_find?_eq_some hfound
                have hnot' := quotedAccountLocal_setQuotedStatus hrow hnot hmem hremote
                have hset : Fair aim w (setQuotedStatus w q found.id) := by
                  refine fair_setQuotedStatus hrow hnone fun _ _ _ _ t ht hid hlocal => ?_
                  obtain rfl := w.db.statuses.eq_of_key ht hmem (k := .id found.id)
                    (by simp [Status.keys, hid]) (by simp [Status.keys])
                  exact absurd hlocal (by simp [hremote])
                exact ⟨hset.trans (fair_fastTrack (sameAim_getD _ q) hnot'),
                  (quotedAccountLocal_fastTrack _ _ q q.id).trans hnot'⟩
          · exact hsame

theorem sameAim_fastTrack {w : World} {q : Quote} (hrow : SameAim w q) :
    SameAim (fastTrack w q) q := by
  rw [fastTrack]
  split
  · intro r hr hid
    obtain ⟨t, ht, rfl⟩ := mem_setQuote.mp hr
    by_cases htid : t.id = q.id
    · rw [if_pos htid]
      exact hrow t ht htid
    · rw [if_neg htid] at hid
      exact absurd hid htid
  · exact hrow

theorem db_fastTrack (w : World) (q : Quote) : (fastTrack w q).db = w.db := by
  rw [fastTrack]
  split <;> rfl

theorem quotedAccountLocal_of_db {w : World} {q : Quote} (w' : World) (hdb : w'.db = w.db)
    (hnot : quotedAccountLocal w q = false) : quotedAccountLocal w' q = false := by
  rw [quotedAccountLocal, hdb]
  exact hnot

theorem fair_verifyStamp (e : Env) {w : World} {q : Quote} (hrow : SameAim w q)
    (hnot : quotedAccountLocal w q = false) (approvalUri : String) (quotedUri : Option String)
    (d : StampDocument) (imported : Bool) :
    Fair aim w (verifyStamp e w q approvalUri quotedUri d imported) := by
  unfold verifyStamp
  split
  · exact fair_reject w q.id
  split
  · exact .refl w
  split
  · exact .refl w
  obtain ⟨hfair, hnot'⟩ := fair_importQuotedPost aim e hrow hnot approvalUri quotedUri d
    imported
  dsimp only
  generalize importQuotedPost e w q approvalUri quotedUri d imported = w' at hfair hnot' ⊢
  split
  next hmatches =>
    have hsome : ((w'.quote q.id).getD q).quotedStatusId ≠ none := by
      intro hnone
      simp [matchesQuoted, hnone] at hmatches
    have haccept : Fair aim w' _ := fair_accept (sameAim_getD w' q) hsome hnot' (some approvalUri)
    rw [id_getD] at haccept ⊢
    exact hfair.trans haccept
  next => exact hfair

theorem fair_verify (e : Env) {w : World} {q : Quote} (hrow : SameAim w q)
    (stampUri quotedUri : Option String) (a : Answers)
    (haim : ∀ r ∈ w.quotes.rows, r.id = q.id → r.state = .accepted →
      ∀ t ∈ w.db.statuses.rows, aimedAt w.db quotedUri a = some t.id →
        isLocal w.db t.accountId = true → aim q.id t.id) :
    Fair aim w (verify e w q stampUri quotedUri a) := by
  rw [verify]
  cases hfetched : fetchQuotedPost w q quotedUri a with
  | none => exact .refl w
  | some w' =>
      have hfetch := fair_fetchQuotedPost hrow haim hfetched
      have hrow' := sameAim_getD w' q
      dsimp only
      generalize (w'.quote q.id).getD q = q' at hrow' ⊢
      split
      · exact hfetch
      next hlocal =>
        have hnot : quotedAccountLocal w' q' = false := by simpa using hlocal
        have htrack := hfetch.trans (fair_fastTrack hrow' hnot)
        split
        · exact htrack
        · split
          · exact htrack
          · exact htrack.trans (fair_reject _ _)
          · have hnot' := quotedAccountLocal_of_db _ (db_fastTrack w' q') hnot
            exact htrack.trans (fair_verifyStamp e (sameAim_fastTrack hrow') hnot' _ _ _ _)

/-! ### The handlers -/

theorem fair_insert {w : World} {row : Quote} (hquoted : row.quotedStatusId = none)
    (hstate : row.state ≠ .accepted) :
    Fair aim w { w with quotes := w.quotes.insert row } where
  keeps := .refl w.db
  known hw q hq id hid := by
    rcases Table.mem_insert.mp hq with hq | ⟨_, rfl⟩
    · exact hw q hq id hid
    · rw [hquoted] at hid
      nomatch hid
  accepted hw q hq haccepted := by
    rcases Table.mem_insert.mp hq with hq | ⟨_, rfl⟩
    · exact .before hq (.refl q)
    · exact absurd haccepted hstate

theorem fair_destroy (w : World) (id : ℕ) : Fair aim w (destroy w id) where
  keeps := .refl w.db
  known hw q hq := hw q (Table.mem_deleteWhere.mp hq).1
  accepted _ q hq _ := .before (Table.mem_deleteWhere.mp hq).1 (.refl q)

theorem fair_setDb {w : World} {db : Db} (h : Keeps w.db db) : Fair aim w { w with db := db } where
  keeps := h
  known hw := hw.keeps h
  accepted _ q hq _ := .before hq (.refl q)

theorem fair_processQuote (e : Env) (w : World) (statusId accountId quoteId : ℕ) (f : QuoteFields)
    (a : Answers) : Fair aim w (processQuote e w statusId accountId quoteId f a) := by
  rw [processQuote]
  split
  · exact .refl w
  next hfree =>
    have hpending : Fair aim w (insertPending w statusId accountId quoteId f) := by
      refine fair_insert rfl ?_
      dsimp only
      split <;> nofun
    cases hquote : (insertPending w statusId accountId quoteId f).quote quoteId with
    | none => simpa only [hquote] using hpending
    | some quote =>
        simp only [hquote]
        obtain ⟨hmem, hid⟩ := quote_mem hquote
        refine hpending.trans (fair_verify e (sameAim_of_mem hmem) _ _ a ?_)
        -- the row under the new id is the new one, which is not accepted
        intro r hr hrid haccepted
        rcases Table.mem_insert.mp hr with hr | ⟨_, rfl⟩
        · rw [not_or] at hfree
          have hnone : w.quote quoteId = none := by simpa using hfree.2
          exact absurd (hrid.trans hid) (by simpa using List.find?_eq_none.mp hnone r hr)
        · dsimp only at haccepted
          split at haccepted <;> nomatch haccepted

theorem db_resetIfStampChanged (w : World) (q : Quote) (stampUri : Option String)
    (legacy : Bool) : (resetIfStampChanged w q stampUri legacy).db = w.db := by
  rw [resetIfStampChanged]
  split <;> rfl

theorem fair_verifyAgain (e : Env) {w : World} {q : Quote} (stampUri quotedUri : Option String)
    (legacy : Bool) (a : Answers)
    (haim : ∀ t ∈ w.db.statuses.rows, aimedAt w.db quotedUri a = some t.id →
      isLocal w.db t.accountId = true → aim q.id t.id) :
    Fair aim w (verify e (resetIfStampChanged w q stampUri legacy)
      (((resetIfStampChanged w q stampUri legacy).quote q.id).getD q) stampUri quotedUri a) := by
  refine (fair_resetIfStampChanged w q stampUri legacy).trans ?_
  refine fair_verify e (sameAim_getD _ q) stampUri quotedUri a ?_
  rw [db_resetIfStampChanged, id_getD]
  exact fun _ _ _ _ => haim

theorem fair_updateQuote (e : Env) (w : World) (statusId accountId quoteId : ℕ)
    (f : Option QuoteFields) (a : Answers)
    (haim : ∀ q ∈ w.findByStatus statusId, ∀ fields ∈ f, ∀ t ∈ w.db.statuses.rows,
      aimedAt w.db fields.uri a = some t.id → isLocal w.db t.accountId = true → aim q.id t.id) :
    Fair aim w (updateQuote e w statusId accountId quoteId f a) := by
  unfold updateQuote
  cases hfound : w.findByStatus statusId with
  | none =>
      cases f with
      | none => exact .refl w
      | some fields => exact fair_processQuote e w statusId accountId quoteId fields a
  | some quote =>
      cases f with
      | none => exact fair_destroy w quote.id
      | some fields =>
          dsimp only
          split
          · split
            · exact ((fair_reject w quote.id).trans (fair_destroy _ _)).trans
                (fair_processQuote e _ statusId accountId quoteId fields a)
            · exact (fair_destroy w quote.id).trans
                (fair_processQuote e _ statusId accountId quoteId fields a)
          · exact fair_verifyAgain e _ _ _ a (haim quote hfound fields rfl)

theorem fair_updateQuoteApproval (e : Env) (w : World) (statusId : ℕ) (f : QuoteFields)
    (a : Answers)
    (haim : ∀ q ∈ w.findByStatus statusId, ∀ t ∈ w.db.statuses.rows,
      aimedAt w.db f.uri a = some t.id → isLocal w.db t.accountId = true → aim q.id t.id) :
    Fair aim w (updateQuoteApproval e w statusId f a) := by
  unfold updateQuoteApproval
  cases hfound : w.findByStatus statusId with
  | none => exact .refl w
  | some quote =>
      cases huri : f.uri with
      | none => exact .refl w
      | some uri =>
          dsimp only
          split
          · exact .refl w
          · refine fair_verifyAgain e _ _ _ a fun t ht hat hlocal => ?_
            exact haim quote hfound t ht (by rwa [huri]) hlocal

theorem fair_refetchAndVerify (e : Env) (w : World) (quoteId : ℕ)
    (stampUri quotedUri : Option String) (a : Answers)
    (haim : ∀ t ∈ w.db.statuses.rows, aimedAt w.db quotedUri a = some t.id →
      isLocal w.db t.accountId = true → aim quoteId t.id) :
    Fair aim w (Quotes.refetchAndVerify e w quoteId stampUri quotedUri a) := by
  rw [Quotes.refetchAndVerify]
  cases hquote : w.quote quoteId with
  | none => exact .refl w
  | some quote =>
      obtain ⟨hmem, rfl⟩ := quote_mem hquote
      exact fair_verify e (sameAim_of_mem hmem) stampUri quotedUri a fun _ _ _ _ => haim

theorem fair_revokeQuote (w : World) (accountId quotedStatusId quotingStatusId : ℕ) :
    Fair aim w (revokeQuote w accountId quotedStatusId quotingStatusId) := by
  rw [revokeQuote]
  split
  · exact .refl w
  · split
    · exact .refl w
    split
    · exact .refl w
    · exact fair_reject w _

theorem fair_statusRemoved (w : World) (statusId : ℕ) : Fair aim w (statusRemoved w statusId) := by
  rw [statusRemoved]
  split
  · exact .refl w
  · split
    · exact fair_reject w _
    · exact .refl w

theorem fair_revokeByStamp (w : World) (actor approvalUri : String) :
    Fair aim w (revokeByStamp w actor approvalUri).1 := by
  rw [revokeByStamp]
  split
  · exact .refl w
  · exact fair_reject w _

/-! ### Removing statuses -/

theorem keeps_of_eq {db db' : Db} (hstatuses : db'.statuses = db.statuses)
    (haccounts : db'.accounts = db.accounts) : Keeps db db' where
  statuses s hs := ⟨s, hstatuses ▸ hs, rfl, rfl⟩
  accounts id := by rw [isLocal, isLocal, Db.account, Db.account, haccounts]

theorem keeps_discardStatuses (db : Db) (p : Status → Bool) : Keeps db (discardStatuses db p) where
  statuses s hs := by
    refine ⟨_, mem_discardStatuses.mpr ⟨s, hs, rfl⟩, ?_⟩
    split <;> exact ⟨rfl, rfl⟩
  accounts _ := rfl

theorem keeps_onStatusDeleted (db : Db) (accountId : ℕ) (v : Visibility) (reply : Option ℕ) :
    Keeps db (onStatusDeleted db accountId v reply) := by
  rw [onStatusDeleted_eq]
  exact keeps_of_eq rfl rfl

theorem keeps_uncountBoosts (db : Db) (boosts : List Status) :
    Keeps db (uncountBoosts db boosts) := by
  induction boosts generalizing db with
  | nil => exact .refl db
  | cons boost boosts ih => exact (keeps_onStatusDeleted db _ _ _).trans (ih _)

theorem keeps_removeStatus (db : Db) (status : Status) : Keeps db (removeStatus db status) := by
  have hboosts := (keeps_discardStatuses db (isKeptBoostOf status.id)).trans
    (keeps_uncountBoosts _ (db.statuses.rows.filter (isKeptBoostOf status.id)))
  have hremoved := (hboosts.trans (keeps_discardStatuses _ (·.id = status.id))).trans
    (keeps_onStatusDeleted _ status.accountId status.visibility status.inReplyToId)
  rw [removeStatus]
  split
  · exact hremoved.trans (keeps_of_eq rfl rfl)
  · exact hremoved

theorem keeps_deleteStatus (db : Db) (accountId statusId : ℕ) :
    Keeps db (deleteStatus db accountId statusId) := by
  rw [deleteStatus]
  split
  · exact .refl db
  · split
    · exact .refl db
    · exact keeps_removeStatus db _

theorem keeps_discardByUri (db : Db) (uri : String) : Keeps db (discardByUri db uri) := by
  have hdiscarded := keeps_discardStatuses db (·.uri = some uri)
  rw [discardByUri]
  split
  · exact hdiscarded.trans (keeps_onStatusDeleted _ _ _ _)
  · exact hdiscarded

theorem fair_deleteQuoting (w : World) (accountId statusId : ℕ) :
    Fair aim w (deleteQuoting w accountId statusId) :=
  (fair_setDb (keeps_deleteStatus w.db accountId statusId)).trans (fair_statusRemoved _ statusId)

theorem fair_handleDelete (e : Env) (w : World) (actor uri : String) (type : DeletedType) :
    Fair aim w (Quotes.handleDelete e w actor uri type) := by
  rw [Quotes.handleDelete]
  split
  · exact fair_revokeByStamp w actor uri
  split
  · split
    · exact fair_revokeByStamp w actor uri
    · exact .refl w
  have hdb : Fair aim w { w with db := discardByUri w.db uri } :=
    fair_setDb (keeps_discardByUri w.db uri)
  dsimp only
  split
  · exact hdb.trans (fair_statusRemoved _ _)
  · split
    · exact hdb
    · exact hdb.trans (fair_revokeByStamp _ actor uri)

/-! ### Steps -/

def verified (w : World) : Op → Option ℕ
  | .update statusId _ _ _ _ | .updateApproval statusId _ _ =>
      (w.findByStatus statusId).map (·.id)
  | .refetchAndVerify quoteId _ _ _ => some quoteId
  | _ => none

def aimed (w : World) : Op → Option ℕ
  | .update _ _ _ f a => f.bind fun f => aimedAt w.db f.uri a
  | .updateApproval _ f a => aimedAt w.db f.uri a
  | .refetchAndVerify _ _ quotedUri a => aimedAt w.db quotedUri a
  | _ => none

/-- A step gives a quote it verifies a status of ours. -/
def aimOf (w : World) (o : Op) : Aim := fun quoteId statusId =>
  verified w o = some quoteId ∧ aimed w o = some statusId ∧
    ∃ t ∈ w.db.statuses.rows, t.id = statusId ∧ isLocal w.db t.accountId = true

/-- An account of another server, which is where activities come from. -/
def Inbound (db : Db) (actor : String) : Prop :=
  ∀ id, (db.account id).any (·.uri = some actor) = true → isLocal db id = false

/-- What the steps may rely on: what else happens keeps the statuses their authors and the
accounts their servers, and answers come from other servers. -/
def Sound (w : World) : Op → Prop
  | .other db _ _ => Keeps w.db db
  | .answer _ actor _ _ => Inbound w.db actor
  | _ => True

/-- Why a quote is accepted after a step. -/
inductive Cause (e : Env) (w w' : World) (o : Op) (q' : Quote) : Prop
  | vouched (h : Vouched (aimOf w o) w w'.db q')
  | gone (h : q'.quotedStatusId = none)
  | requested {r : QuoteRequest} {q : Quote} (ho : o = .quoteRequest r)
      (hq : requestedQuote e w r = some q) (hstatus : q'.statusId = q.statusId)
      (hquoted : q'.quotedStatusId = q.quotedStatusId)
  | posted {p : QuotePost} {quoted t : Status} (ho : o = .post p)
      (hquoted : quoted ∈ w.db.statuses.rows) (hquotable : quotable w p.accountId quoted = true)
      (ht : t ∈ w'.db.statuses.rows) (hid : t.id = p.statusId)
      (hauthor : t.accountId = p.accountId) (hq : q' = quoteRow w p quoted)

/-- A step keeps what is known of the rows, and each accepted one has a cause. -/
structure Explained (e : Env) (w : World) (o : Op) : Prop where
  accounts : ∀ id, isLocal (step e w o).db id = isLocal w.db id
  known : WellFormed w → WellFormed (step e w o)
  accepted : WellFormed w → ∀ q' ∈ (step e w o).quotes.rows, q'.state = .accepted →
    Cause e w (step e w o) o q'

theorem Fair.explained {e : Env} {w : World} {o : Op} (h : Fair (aimOf w o) w (step e w o)) :
    Explained e w o :=
  ⟨h.keeps.accounts, h.known, fun hw q hq haccepted => .vouched (h.accepted hw q hq haccepted)⟩

theorem ensureQuotedAccess_eq (w : World) (q : Quote) :
    ∃ mentions, ensureQuotedAccess w q = { w with mentions := mentions } := by
  rw [ensureQuotedAccess]
  split
  · exact ⟨_, rfl⟩
  · exact ⟨w.mentions, rfl⟩

theorem keeps_insertCounted (db : Db) (row : Status) : Keeps db (insertCounted db row) := by
  rw [insertCounted, onStatusCreated_eq]
  exact ⟨fun s hs => ⟨s, Table.mem_insert_of_mem hs, rfl, rfl⟩, fun _ => rfl⟩

theorem properStatus_mem {db : Db} {id : ℕ} {s : Status} (h : properStatus db id = some s) :
    s ∈ db.statuses.rows := by
  rw [properStatus, Option.bind_eq_some_iff] at h
  obtain ⟨_, _, h⟩ := h
  exact (Db.keptStatus_mem h).1

theorem postQuote_cases (w : World) (p : QuotePost) :
    (Keeps w.db (postQuote w p).db ∧ (postQuote w p).quotes = w.quotes) ∨
      ∃ quoted row, properStatus w.db p.quotedStatusId = some quoted ∧
        quotable w p.accountId quoted = true ∧ ¬ w.db.statuses.Taken row ∧
        row.id = p.statusId ∧ row.accountId = p.accountId ∧
        (postQuote w p).db = insertCounted w.db row ∧
        (postQuote w p).quotes = w.quotes.insert (quoteRow w p quoted) := by
  rw [postQuote]
  cases hproper : properStatus w.db p.quotedStatusId with
  | none => exact .inl ⟨.refl w.db, rfl⟩
  | some quoted =>
      dsimp only
      split
      · exact .inl ⟨.refl w.db, rfl⟩
      next hquotable =>
        split
        · exact .inl ⟨.refl w.db, rfl⟩
        next hfree =>
          split
          · exact .inl ⟨keeps_insertCounted w.db _, rfl⟩
          · refine .inr ⟨quoted, _, rfl, by simpa using hquotable, hfree, rfl, rfl, ?_, ?_⟩
            · obtain ⟨mentions, h⟩ := ensureQuotedAccess_eq _ (quoteRow w p quoted)
              rw [h]
            · obtain ⟨mentions, h⟩ := ensureQuotedAccess_eq _ (quoteRow w p quoted)
              rw [h]

theorem explained_post (e : Env) (w : World) (p : QuotePost) : Explained e w (.post p) := by
  rcases postQuote_cases w p with ⟨hkeeps, hquotes⟩ |
    ⟨quoted, row, hproper, hquotable, hfree, hid, hauthor, hdb, hquotes⟩
  · refine ⟨hkeeps.accounts, fun hw q hq => ?_, fun hw q hq _ => ?_⟩
    · exact (hw.keeps hkeeps) q (hquotes ▸ hq)
    · exact .vouched (.before (hquotes ▸ hq) (.refl q))
  · have hkeeps : Keeps w.db (postQuote w p).db := hdb ▸ keeps_insertCounted w.db row
    have hmem := properStatus_mem hproper
    have hrow : row ∈ (postQuote w p).db.statuses.rows := by
      rw [hdb, insertCounted, statuses_onStatusCreated]
      exact Table.mem_insert.mpr (.inr ⟨hfree, rfl⟩)
    refine ⟨hkeeps.accounts, fun hw q hq t ht => ?_, fun hw q hq _ => ?_⟩
    · change q ∈ (postQuote w p).quotes.rows at hq
      rw [hquotes] at hq
      rcases Table.mem_insert.mp hq with hq | ⟨_, rfl⟩
      · exact (hw.keeps hkeeps) q hq t ht
      · obtain rfl : quoted.id = t := Option.some.inj ht
        obtain ⟨u, hu, huid, huauthor⟩ := hkeeps.statuses quoted hmem
        exact ⟨u, hu, huid, by rw [huauthor]; rfl⟩
    · change q ∈ (postQuote w p).quotes.rows at hq
      rw [hquotes] at hq
      rcases Table.mem_insert.mp hq with hq | ⟨_, rfl⟩
      · exact .vouched (.before hq (.refl q))
      · exact .posted rfl hmem hquotable hrow hid hauthor rfl

theorem explained_purge (e : Env) (w : World) (p : Status → Bool) : Explained e w (.purge p) := by
  have hrows : ∀ q' ∈ (purgeStatuses w p).quotes.rows, ∃ q ∈ w.quotes.rows,
      (q' = q ∧ ∀ t ∈ q.quotedStatusId, t ∉ removedIds w.db p) ∨ q'.quotedStatusId = none := by
    intro q' hq'
    obtain ⟨q, hq, rfl⟩ := List.mem_map.mp hq'
    refine ⟨q, (Table.mem_deleteWhere.mp hq).1, ?_⟩
    split
    · exact .inr rfl
    next hstays =>
      refine .inl ⟨rfl, fun t ht hgone => hstays ?_⟩
      rw [Option.mem_def] at ht
      simp [ht, hgone]
  refine ⟨fun _ => rfl, fun hw q' hq' t ht => ?_, fun _ q' hq' _ => ?_⟩
  · obtain ⟨q, hq, ⟨rfl, hstays⟩ | hgone⟩ := hrows q' hq'
    · obtain ⟨s, hs, rfl, hauthor⟩ := hw q' hq t ht
      refine ⟨detach (removedIds w.db p) s, ?_, id_detach _ _, ?_⟩
      · exact mem_deleteStatuses.mpr ⟨s, hs, hstays s.id ht, rfl⟩
      · rw [hauthor, detach]
        split <;> rfl
    · rw [hgone] at ht
      cases ht
  · obtain ⟨q, hq, ⟨rfl, _⟩ | hgone⟩ := hrows q' hq'
    · exact .vouched (.before hq (.refl q'))
    · exact .gone hgone

theorem explained_other (e : Env) (w : World) (db : Db) (quotePolicies : ℕ → BitVec 32)
    (mentions : List (ℕ × ℕ)) (h : Keeps w.db db) :
    Explained e w (.other db quotePolicies mentions) :=
  ⟨h.accounts, fun hw => hw.keeps h, fun _ q hq _ => .vouched (.before hq (.refl q))⟩

theorem requestedQuote_spec {e : Env} {w : World} {r : QuoteRequest} {q : Quote}
    (h : requestedQuote e w r = some q) :
    q ∈ w.quotes.rows ∧ ∃ quoted ∈ w.db.statuses.rows, q.quotedStatusId = some quoted.id ∧
      ∃ quoting ∈ w.db.statuses.rows, quoting.id = q.statusId ∧
        policyFor w quoted quoting.accountId ≠ .denied := by
  rw [requestedQuote] at h
  split at h
  · nomatch h
  split at h
  · nomatch h
  cases hrequested : requested w r.object with
  | none => simp [hrequested] at h
  | some quoted =>
      rw [hrequested] at h
      dsimp only at h
      have hquoted : quoted ∈ w.db.statuses.rows := by
        rw [requested, Option.filter_eq_some_iff] at hrequested
        exact List.mem_of_find?_eq_some hrequested.1
      cases hquoter : e.resolve w.db r.actor with
      | none => simp [hquoter] at h
      | some quoterId =>
          rw [hquoter] at h
          dsimp only at h
          split at h
          · nomatch h
          split at h
          · nomatch h
          next hallowed =>
            cases hquoting : keptByUri w.db r.instrument with
            | none => simp [hquoting] at h
            | some quoting =>
                rw [hquoting] at h
                obtain ⟨hfound, hchecks⟩ := Option.filter_eq_some_iff.mp h
                obtain ⟨hmem, hstatus⟩ := findByStatus_mem hfound
                obtain ⟨haimed, rfl⟩ := of_decide_eq_true hchecks
                have hpolicy : policyFor w quoted quoting.accountId ≠ .denied := by
                  simp only [allowed, Bool.not_eq_true', Bool.not_eq_false,
                    Bool.and_eq_true, decide_eq_true_eq] at hallowed
                  exact hallowed.2
                exact ⟨hmem, quoted, hquoted, haimed, quoting, (keptByUri_mem hquoting).1,
                  hstatus.symm, hpolicy⟩

theorem db_setActivityUri (w : World) (id : ℕ) (uri : String) :
    (setActivityUri w id uri).db = w.db := by
  rw [setActivityUri]
  split <;> rfl

theorem from_setActivityUri {w : World} {id : ℕ} {uri : String} {r : Quote}
    (hr : r ∈ (setActivityUri w id uri).quotes.rows) : ∃ q ∈ w.quotes.rows, From q r := by
  rw [setActivityUri] at hr
  split at hr
  · exact ⟨r, hr, .refl r⟩
  · obtain ⟨q, hq, rfl⟩ := mem_setQuote.mp hr
    refine ⟨q, hq, ?_⟩
    split <;> exact ⟨rfl, rfl, rfl, rfl, fun h => h⟩

theorem wellFormed_from {w w' : World} (hw : WellFormed w) (hkeeps : Keeps w.db w'.db)
    (h : ∀ r ∈ w'.quotes.rows, ∃ q ∈ w.quotes.rows,
      r.quotedStatusId = q.quotedStatusId ∧ r.quotedAccountId = q.quotedAccountId) :
    WellFormed w' := by
  intro r hr t ht
  obtain ⟨q, hq, hstatus, haccount⟩ := h r hr
  rw [hstatus] at ht
  rw [haccount]
  exact (hw.keeps hkeeps) q hq t ht

theorem mem_accept {w : World} {id : ℕ} {approvalUri : Option String} {q' : Quote}
    (h : q' ∈ (accept w id approvalUri).quotes.rows) : ∃ q ∈ w.quotes.rows,
      (q.id ≠ id ∧ q' = q) ∨ (q.id = id ∧ q'.statusId = q.statusId ∧
        q'.quotedStatusId = q.quotedStatusId ∧ q'.quotedAccountId = q.quotedAccountId) := by
  obtain ⟨q, hq, rfl⟩ := mem_setQuote.mp h
  refine ⟨q, hq, ?_⟩
  by_cases hid : q.id = id
  · rw [if_pos hid]
    exact .inr ⟨hid, rfl, rfl, rfl⟩
  · rw [if_neg hid]
    exact .inl ⟨hid, rfl⟩

theorem explained_quoteRequest (e : Env) (w : World) (r : QuoteRequest) :
    Explained e w (.quoteRequest r) := by
  cases hrequested : requestedQuote e w r with
  | none =>
      have hsame : step e w (.quoteRequest r) = w := by
        simp [step, handleQuoteRequest, hrequested]
      exact Fair.explained (hsame.symm ▸ Fair.refl w)
  | some quote =>
      have hmem := (requestedQuote_spec hrequested).1
      have hstep : step e w (.quoteRequest r) =
          accept (setActivityUri (ensureQuotedAccess w quote) quote.id r.id) quote.id none := by
        simp [step, handleQuoteRequest, hrequested]
      obtain ⟨mentions, haccess⟩ := ensureQuotedAccess_eq w quote
      have hdb : (step e w (.quoteRequest r)).db = w.db := by
        rw [hstep, haccess]
        exact db_setActivityUri _ _ _
      have hrows : ∀ q' ∈ (step e w (.quoteRequest r)).quotes.rows, ∃ q ∈ w.quotes.rows,
          From q q' ∨ (q = quote ∧ q'.statusId = q.statusId ∧
            q'.quotedStatusId = q.quotedStatusId ∧ q'.quotedAccountId = q.quotedAccountId) := by
        intro q' hq'
        rw [hstep, haccess] at hq'
        obtain ⟨s, hs, hcases⟩ := mem_accept hq'
        obtain ⟨q, hq, hfrom⟩ := from_setActivityUri hs
        refine ⟨q, hq, ?_⟩
        rcases hcases with ⟨_, rfl⟩ | ⟨hid, hstatus, hquoted, haccount⟩
        · exact .inl hfrom
        · refine .inr ⟨?_, hstatus.trans hfrom.status, hquoted.trans hfrom.quotedStatus,
            haccount.trans hfrom.quotedAccount⟩
          exact w.quotes.eq_of_key hq hmem (k := .id quote.id)
            (by simp [Quote.keys, ← hfrom.id, hid]) (by simp [Quote.keys])
      refine ⟨fun id => by rw [hdb], fun hw => ?_, fun _ q' hq' _ => ?_⟩
      · refine wellFormed_from hw (hdb.symm ▸ Keeps.refl w.db) fun q' hq' => ?_
        obtain ⟨q, hq, hfrom | ⟨_, _, hquoted, haccount⟩⟩ := hrows q' hq'
        · exact ⟨q, hq, hfrom.quotedStatus, hfrom.quotedAccount⟩
        · exact ⟨q, hq, hquoted, haccount⟩
      · obtain ⟨q, hq, hfrom | ⟨rfl, hstatus, hquoted, _⟩⟩ := hrows q' hq'
        · exact .vouched (.before hq hfrom)
        · exact .requested rfl hrequested hstatus hquoted

theorem quotedBy_remote {w : World} {actor : String} (hactor : Inbound w.db actor) {q : Quote}
    (h : quotedBy w actor q = true) : quotedAccountLocal w q = false := by
  rw [quotedBy] at h
  rw [quotedAccountLocal]
  cases haccount : q.quotedAccountId with
  | none => rfl
  | some id =>
      rw [haccount] at h
      exact hactor id h

theorem explained_answer (e : Env) (w : World) (accepts : Bool) (actor object : String)
    (result : Option String) (hactor : Inbound w.db actor) :
    Explained e w (.answer accepts actor object result) := by
  have hsame : Fair (aimOf w (.answer accepts actor object result)) w w := .refl w
  cases hfound : w.quotes.rows.find? fun q =>
      q.activityUri = some object ∧ quotedBy w actor q = true with
  | none =>
      apply Fair.explained
      simpa only [step, handleQuoteAnswer, hfound] using hsame
  | some quote =>
      have hmem := List.mem_of_find?_eq_some hfound
      have hpicked := List.find?_some hfound
      rw [decide_eq_true_eq] at hpicked
      have hnot := quotedBy_remote hactor hpicked.2
      have hcases : step e w (.answer accepts actor object result) = w ∨
          step e w (.answer accepts actor object result) = reject w quote.id ∨
          ∃ uri, step e w (.answer accepts actor object result) = accept w quote.id uri := by
        simp only [step, handleQuoteAnswer, hfound]
        split
        · exact .inl rfl
        split
        · exact .inl rfl
        split
        · exact .inr (.inl rfl)
        split
        · exact .inl rfl
        · split
          · exact .inl rfl
          · exact .inr (.inr ⟨_, rfl⟩)
      rcases hcases with hstep | hstep | ⟨uri, hstep⟩
      · exact Fair.explained (hstep.symm ▸ hsame)
      · exact Fair.explained (hstep.symm ▸ fair_reject w quote.id)
      · by_cases hgone : quote.quotedStatusId = none
        · have hrows : ∀ q' ∈ (accept w quote.id uri).quotes.rows, ∃ q ∈ w.quotes.rows,
              q' = q ∨ q'.quotedStatusId = none := by
            intro q' hq'
            obtain ⟨q, hq, ⟨_, rfl⟩ | ⟨hid, _, hquoted, _⟩⟩ := mem_accept hq'
            · exact ⟨q', hq, .inl rfl⟩
            · exact ⟨q, hq, .inr (hquoted.trans ((sameAim_of_mem hmem q hq hid).1.trans hgone))⟩
          refine ⟨fun _ => by rw [hstep]; rfl, fun hw q' hq' t ht => ?_, fun _ q' hq' _ => ?_⟩
          · rw [hstep] at hq' ⊢
            obtain ⟨q, hq, rfl | hnone⟩ := hrows q' hq'
            · exact hw q' hq t ht
            · rw [hnone] at ht
              nomatch ht
          · rw [hstep] at hq'
            obtain ⟨q, hq, rfl | hnone⟩ := hrows q' hq'
            · exact .vouched (.before hq (.refl q'))
            · exact .gone hnone
        · exact Fair.explained (hstep.symm ▸ fair_accept (sameAim_of_mem hmem) hgone hnot uri)

theorem explained (e : Env) (w : World) (o : Op) (h : Sound w o) : Explained e w o := by
  cases o with
  | post p => exact explained_post e w p
  | revoke a b c => exact (fair_revokeQuote w a b c).explained
  | delete a b => exact (fair_deleteQuoting w a b).explained
  | purge p => exact explained_purge e w p
  | other db quotePolicies mentions => exact explained_other e w db quotePolicies mentions h
  | quoteRequest r => exact explained_quoteRequest e w r
  | create a b c f answers => exact (fair_processQuote e w a b c f answers).explained
  | update statusId a b f answers =>
      apply Fair.explained
      refine fair_updateQuote e w statusId a b f answers ?_
      intro q hq fields hfields t ht hat hlocal
      rw [Option.mem_def] at hq hfields
      exact ⟨by simp [verified, hq], by simpa [aimed, hfields] using hat, t, ht, rfl, hlocal⟩
  | updateApproval statusId f answers =>
      apply Fair.explained
      refine fair_updateQuoteApproval e w statusId f answers ?_
      intro q hq t ht hat hlocal
      rw [Option.mem_def] at hq
      exact ⟨by simp [verified, hq], hat, t, ht, rfl, hlocal⟩
  | answer accepts actor object result => exact explained_answer e w accepts actor object result h
  | inboundDelete actor uri type => exact (fair_handleDelete e w actor uri type).explained
  | refetchAndVerify quoteId stampUri quotedUri answers =>
      apply Fair.explained
      refine fair_refetchAndVerify e w quoteId stampUri quotedUri answers ?_
      intro t ht hat hlocal
      exact ⟨rfl, hat, t, ht, rfl, hlocal⟩

/-! ### Runs -/

/-- A quote accepted while its status was there, which was deleted since, is given one of
ours, unasked. -/
def Reattaches (w : World) (o : Op) : Prop :=
  ∃ q ∈ w.quotes.rows, q.state = .accepted ∧ q.quotedStatusId = none ∧ ∃ id, aimOf w o q.id id

/-- The status's policy lets the author of the one that quotes it. -/
def Consented (w w' : World) (q' : Quote) : Prop :=
  ∃ quoted ∈ w.db.statuses.rows, q'.quotedStatusId = some quoted.id ∧
    ∃ quoting ∈ w'.db.statuses.rows, quoting.id = q'.statusId ∧
      policyFor w quoted quoting.accountId ≠ .denied

theorem policyFor_of_quotable {w : World} {accountId : ℕ} {quoted : Status}
    (h : quotable w accountId quoted = true) : policyFor w quoted accountId ≠ .denied := by
  intro hdenied
  simp [quotable, hdenied] at h

/-- The two rows are a status's quote of another. -/
structure SameQuote (q q' : Quote) : Prop where
  status : q'.statusId = q.statusId
  quotedStatus : q'.quotedStatusId = q.quotedStatusId
  quotedAccount : q'.quotedAccountId = q.quotedAccountId

def Unasked (e : Env) (q : Quote) (w : World) : Op → Prop
  | .quoteRequest r => ∀ asked ∈ requestedQuote e w r,
      ¬ (asked.statusId = q.statusId ∧ asked.quotedStatusId = q.quotedStatusId)
  | .post p => p.statusId ≠ q.statusId
  | _ => True

theorem accepted_step {e : Env} {w : World} {o : Op} (hw : WellFormed w) (hsound : Sound w o)
    (hattached : ¬ Reattaches w o) {q' : Quote} (hq' : q' ∈ (step e w o).quotes.rows)
    (haccepted : q'.state = .accepted) (hlocal : quotedAccountLocal (step e w o) q' = true)
    (haimed : q'.quotedStatusId ≠ none) :
    (∃ q ∈ w.quotes.rows, From q q') ∨
      (∃ r q, o = .quoteRequest r ∧ requestedQuote e w r = some q ∧ q'.statusId = q.statusId ∧
        q'.quotedStatusId = q.quotedStatusId ∧ Consented w (step e w o) q') ∨
      ∃ p, o = .post p ∧ q'.statusId = p.statusId ∧ Consented w (step e w o) q' := by
  cases (explained e w o hsound).accepted hw q' hq' haccepted with
  | vouched h =>
      cases h with
      | before hq hfrom => exact .inl ⟨_, hq, hfrom⟩
      | remote h =>
          obtain ⟨id, hid, hnot⟩ := h.author
          rw [Option.mem_def] at hid
          rw [quotedAccountLocal, hid] at hlocal
          exact absurd (hlocal.symm.trans hnot) (by decide)
      | @reattached q hq h =>
          obtain ⟨id, _, haim⟩ := h.aimed
          rw [h.id] at haim
          exact absurd ⟨q, hq, h.accepted, h.gone, id, haim⟩ hattached
  | gone h => exact absurd h haimed
  | @requested r q ho hq hstatus hquoted =>
      subst ho
      refine .inr (.inl ⟨r, q, rfl, hq, hstatus, hquoted, ?_⟩)
      obtain ⟨hmem, s, hs, hsaimed, quoting, hquoting, hid, hpolicy⟩ := requestedQuote_spec hq
      have hkeeps : (step e w (.quoteRequest r)).db = w.db := by
        obtain ⟨mentions, haccess⟩ := ensureQuotedAccess_eq w q
        simp only [step, handleQuoteRequest, hq, haccess]
        exact db_setActivityUri _ _ _
      exact ⟨s, hs, hquoted.trans hsaimed, quoting, hkeeps.symm ▸ hquoting,
        hid.trans hstatus.symm, hpolicy⟩
  | @posted p s t ho hs hquotable ht hid hauthor hq =>
      subst ho hq
      refine .inr (.inr ⟨p, rfl, rfl, s, hs, rfl, t, ht, hid, ?_⟩)
      rw [hauthor]
      exact policyFor_of_quotable hquotable

def NotAccepted (q : Quote) (w : World) : Prop :=
  ∀ q' ∈ w.quotes.rows, SameQuote q q' → q'.state ≠ .accepted

theorem quotedAccountLocal_step {e : Env} {w : World} {o : Op} (hsound : Sound w o) {q q' : Quote}
    (hsame : q'.quotedAccountId = q.quotedAccountId) :
    quotedAccountLocal (step e w o) q' = quotedAccountLocal w q := by
  rw [quotedAccountLocal, quotedAccountLocal, hsame]
  exact congrArg (Option.any · q.quotedAccountId) (funext (explained e w o hsound).accounts)

theorem notAccepted_step {e : Env} {w : World} {o : Op} {q : Quote} (hw : WellFormed w)
    (hsound : Sound w o) (hattached : ¬ Reattaches w o) (hunasked : Unasked e q w o)
    (haimed : q.quotedStatusId ≠ none) (hlocal : quotedAccountLocal w q = true)
    (h : NotAccepted q w) : NotAccepted q (step e w o) := by
  intro q' hq' hsame haccepted
  have hlocal' := (quotedAccountLocal_step (e := e) hsound hsame.quotedAccount).trans hlocal
  have haimed' : q'.quotedStatusId ≠ none := hsame.quotedStatus ▸ haimed
  rcases accepted_step hw hsound hattached hq' haccepted hlocal' haimed' with
    ⟨r, hr, hfrom⟩ | ⟨request, asked, rfl, hasked, hstatus, hquoted, _⟩ | ⟨p, rfl, hstatus, _⟩
  · have hback : SameQuote q r := ⟨hfrom.status.symm.trans hsame.status,
      hfrom.quotedStatus.symm.trans hsame.quotedStatus,
      hfrom.quotedAccount.symm.trans hsame.quotedAccount⟩
    exact h r hr hback (hfrom.accepted haccepted)
  · exact hunasked asked hasked
      ⟨hstatus.symm.trans hsame.status, hquoted.symm.trans hsame.quotedStatus⟩
  · exact hunasked (hstatus.symm.trans hsame.status)

theorem wellFormed_run {e : Env} {w : World} (hw : WellFormed w) {ops : List Op}
    (hsound : Guarded (step e) Sound w ops) : WellFormed (run (step e) w ops) :=
  run_guarded (fun w o hw h => (explained e w o h).known hw) w ops hw hsound

/-- From a world in which nothing was quoted yet, as long as no quote that outlived its
status is given one of ours: a quote that was revoked, and which no later request finds, is
never accepted again, and every quote of a status of ours that is accepted was accepted with
the consent of its policy. -/
theorem quotes_consented (e : Env) (w₀ : World) (h₀ : w₀.quotes.rows = []) (ops : List Op)
    (hsound : Guarded (step e) Sound w₀ ops)
    (hattached : Guarded (step e) (fun w o => ¬ Reattaches w o) w₀ ops) :
    (∀ history rest, history ++ rest = ops → ∀ q ∈ (run (step e) w₀ history).quotes.rows,
      q.state = .revoked → q.quotedStatusId ≠ none →
      quotedAccountLocal (run (step e) w₀ history) q = true →
      Guarded (step e) (Unasked e q) (run (step e) w₀ history) rest →
      ∀ before, before <+: rest → NotAccepted q (run (step e) w₀ (history ++ before))) ∧
    ∀ before o, before ++ [o] <+: ops → ∀ q' ∈ (run (step e) w₀ (before ++ [o])).quotes.rows,
      q'.state = .accepted → quotedAccountLocal (run (step e) w₀ (before ++ [o])) q' = true →
      q'.quotedStatusId ≠ none →
      (∃ q ∈ (run (step e) w₀ before).quotes.rows, From q q') ∨
        Consented (run (step e) w₀ before) (run (step e) w₀ (before ++ [o])) q' := by
  have hw₀ : WellFormed w₀ := by
    intro q hq
    rw [h₀] at hq
    nomatch hq
  constructor
  · rintro history rest rfl q hq hrevoked haimed hlocal hunasked before ⟨after, rfl⟩
    rw [guarded_append] at hsound hattached
    have hnow : NotAccepted q (run (step e) w₀ history) := by
      intro q' hq' hsame
      obtain rfl := (run (step e) w₀ history).quotes.eq_of_key hq' hq (k := .status q.statusId)
        (by simp [Quote.keys, hsame.status]) (by simp [Quote.keys])
      rw [hrevoked]
      nofun
    have hguard := guarded_and (guarded_append _ _ _ |>.mp hsound.2).1
      (guarded_and (guarded_append _ _ _ |>.mp hattached.2).1
        (guarded_append _ _ _ |>.mp hunasked).1)
    rw [run_append]
    refine (run_guarded (P := fun w => WellFormed w ∧ quotedAccountLocal w q = true ∧
      NotAccepted q w) ?_ _ before ⟨wellFormed_run hw₀ hsound.1, hlocal, hnow⟩ hguard).2.2
    rintro w o ⟨hw, hlocal, hnot⟩ ⟨hsound, hattached, hunasked⟩
    exact ⟨(explained e w o hsound).known hw, (quotedAccountLocal_step hsound rfl).trans hlocal,
      notAccepted_step hw hsound hattached hunasked haimed hlocal hnot⟩
  · rintro before o ⟨after, rfl⟩ q' hq' haccepted hlocal haimed
    rw [List.append_assoc, guarded_append] at hsound hattached
    have hstep : run (step e) w₀ (before ++ [o]) = step e (run (step e) w₀ before) o := by
      rw [run_append]
      rfl
    rw [hstep] at hq' hlocal ⊢
    rcases accepted_step (wellFormed_run hw₀ hsound.1) hsound.2.1 hattached.2.1 hq' haccepted
      hlocal haimed with hbefore | ⟨_, _, _, _, _, _, hconsent⟩ | ⟨_, _, _, hconsent⟩
    · exact .inl hbefore
    · exact .inr hconsent
    · exact .inr hconsent

/-! ### A quote revoked and asked for again -/

def alice : Account where
  id := 1
  username := "alice"
  domain := none
  uri := some "https://a.example/users/alice"
  locked := false
  silenced := false
  unavailable := false
  movedToAccountId := none

def bob : Account where
  id := 2
  username := "bob"
  domain := some "b.example"
  uri := some "https://b.example/users/bob"
  locked := false
  silenced := false
  unavailable := false
  movedToAccountId := none

def aliceNote : Status where
  id := 10
  accountId := 1
  uri := some "https://a.example/notes/10"
  visibility := .pub
  inReplyToId := none
  reblogOfId := none
  deleted := false

def bobNote : Status where
  id := 20
  accountId := 2
  uri := some "https://b.example/notes/20"
  visibility := .pub
  inReplyToId := none
  reblogOfId := none
  deleted := false

/-- A public post that anyone may quote, and a post of another server. -/
def twoNotes : World where
  db :=
    { Db.empty with
      accounts := { rows := [alice, bob], distinct := by decide }
      statuses := { rows := [aliceNote, bobNote], distinct := by decide } }
  quotePolicies := fun id => if id = 10 then publicPolicy <<< 16 else 0
  mentions := []
  quotes := Table.empty

def twoServers : Env where
  sameHost x y := x.toList.take 9 = y.toList.take 9
  isWeb uri := uri.toList.take 8 = "https://".toList
  localUrl uri := uri.toList.take 9 = "https://a".toList
  statusUri db id := (db.keptStatus id).bind (·.uri)
  accountUri db id := (db.account id).bind (·.uri)
  resolve db uri := (db.accounts.rows.find? (·.uri = some uri)).map (·.id)
  hasSigningKey id := id = 1
  hasInbox id := id = 2

def quotesAlice : QuoteFields where
  uri := some "https://a.example/notes/10"
  deleted := false
  legacy := false
  approvalUri := none

def request : QuoteRequest where
  id := "https://b.example/requests/1"
  actor := "https://b.example/users/bob"
  object := "https://a.example/notes/10"
  instrument := "https://b.example/notes/20"

/-- The quote arrives, its server asks and is granted it, and the quoted author takes it
back. -/
def takenBack : List Op :=
  [.create 20 2 30 quotesAlice ⟨none, .unanswered, false⟩, .quoteRequest request, .revoke 1 10 20]

def takenBackQuote : Quote where
  id := 30
  accountId := 2
  statusId := 20
  quotedStatusId := some 10
  quotedAccountId := some 1
  state := .revoked
  approvalUri := none
  activityUri := some "https://b.example/requests/1"
  legacy := false

theorem revoked_then_accepted :
    takenBackQuote ∈ (run (step twoServers) twoNotes takenBack).quotes.rows ∧
      { takenBackQuote with state := .accepted } ∈
        (run (step twoServers) twoNotes (takenBack ++ [.quoteRequest request])).quotes.rows := by
  decide +kernel

theorem quotes_consented_takenBack :
    NotAccepted takenBackQuote (run (step twoServers) twoNotes
      (takenBack ++ [.delete 1 10])) := by
  have hsound : Guarded (step twoServers) Sound twoNotes (takenBack ++ [.delete 1 10]) :=
    ⟨trivial, trivial, trivial, trivial, trivial⟩
  have hattached : Guarded (step twoServers) (fun w o => ¬ Reattaches w o) twoNotes
      (takenBack ++ [.delete 1 10]) := by
    refine ⟨?_, ?_, ?_, ?_, trivial⟩ <;>
    · rintro ⟨_, _, _, _, _, hverified, _⟩
      nomatch hverified
  exact (quotes_consented twoServers twoNotes rfl (takenBack ++ [.delete 1 10]) hsound
    hattached).1 takenBack [.delete 1 10] rfl takenBackQuote (by decide +kernel) rfl
    (by decide) (by decide +kernel) ⟨trivial, trivial⟩ [.delete 1 10] (List.prefix_refl _)

end Eunha.QuoteRevocation
