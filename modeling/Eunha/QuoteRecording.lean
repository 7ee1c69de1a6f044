import Eunha.QuoteRevocation

/-!
# The post that a quote is of

What `process_quote` records of a status that was stored: the quote is of the post its URI
names, where that is known and someone may quote it, and stays so whatever becomes of its
stamp.
-/
namespace Eunha.QuoteRecording
open Tables Database StatusLifecycle Quotes
open QuoteRevocation (quote_mem quote_setQuote)

section
variable {w₀ w : Quotes.World} {statusId quoteId accountId : ℕ} {target : Option ℕ}

/-- Nothing but quotes changed, and there is one of the status: of this post, or of none. -/
structure Quoting (w₀ w : Quotes.World) (statusId quoteId accountId : ℕ) (target : Option ℕ) :
    Prop where
  rest : w = { w₀ with quotes := w.quotes }
  row : ∃ q, w.quote quoteId = some q ∧ w.findByStatus statusId = some q ∧
    q.accountId = accountId ∧ q.quotedStatusId = target

theorem Quoting.db (h : Quoting w₀ w statusId quoteId accountId target) : w.db = w₀.db := by
  rw [h.rest]

theorem findByStatus_setQuote (w : Quotes.World) (id i : ℕ) (f : Quotes.Quote → Quotes.Quote)
    (hf : ∀ q, (f q).keys = q.keys) :
    (w.setQuote id f hf).findByStatus i =
      (w.findByStatus i).map fun q => if q.id = id then f q else q := by
  have hstatus (q : Quotes.Quote) : (f q).statusId = q.statusId := by
    have hkeys := hf q
    simp only [Quote.keys, List.cons.injEq, QuoteIndex.status.injEq] at hkeys
    exact hkeys.2.1
  have hsame : ((fun q : Quotes.Quote => decide (q.statusId = i)) ∘
      fun q => if q.id = id then f q else q) = fun q => decide (q.statusId = i) := by
    funext q
    rw [Function.comp_apply]
    split
    · rw [hstatus q]
    · rfl
  change (w.quotes.rows.map fun q => if q.id = id then f q else q).find? _ = _
  rw [List.find?_map, hsame]
  rfl

theorem Quoting.setQuote (h : Quoting w₀ w statusId quoteId accountId target) (id : ℕ)
    {f : Quotes.Quote → Quotes.Quote} {hf : ∀ q, (f q).keys = q.keys} {target' : Option ℕ}
    (haccount : ∀ q, (f q).accountId = q.accountId)
    (htarget : ∀ q, q.quotedStatusId = target → q.id = quoteId →
      (if q.id = id then f q else q).quotedStatusId = target') :
    Quoting w₀ (w.setQuote id f hf) statusId quoteId accountId target' where
  rest := by
    rw [World.setQuote]
    rw [h.rest]
  row := by
    obtain ⟨q, hquote, hstatus, hauthor, hq⟩ := h.row
    refine ⟨if q.id = id then f q else q, ?_, ?_, ?_, htarget q hq (quote_mem hquote).2⟩
    · rw [quote_setQuote, hquote]
      rfl
    · rw [findByStatus_setQuote, hstatus]
      rfl
    · split
      · rw [haccount, hauthor]
      · exact hauthor

theorem Quoting.keep (h : Quoting w₀ w statusId quoteId accountId target) (id : ℕ)
    {f : Quotes.Quote → Quotes.Quote} {hf : ∀ q, (f q).keys = q.keys}
    (haccount : ∀ q, (f q).accountId = q.accountId)
    (hquoted : ∀ q, (f q).quotedStatusId = q.quotedStatusId) :
    Quoting w₀ (w.setQuote id f hf) statusId quoteId accountId target := by
  apply h.setQuote id haccount
  intro q hq _
  split
  · rw [hquoted, hq]
  · exact hq

theorem Quoting.accept (h : Quoting w₀ w statusId quoteId accountId target) (id : ℕ)
    (approvalUri : Option String) :
    Quoting w₀ (accept w id approvalUri) statusId quoteId accountId target :=
  h.keep id (fun _ => rfl) fun _ => rfl

theorem Quoting.reject (h : Quoting w₀ w statusId quoteId accountId target) (id : ℕ) :
    Quoting w₀ (reject w id) statusId quoteId accountId target := by
  apply h.keep id
  · intro q
    rw [Quote.rejected]
    split <;> rfl
  · intro q
    rw [Quote.rejected]
    split <;> rfl

theorem Quoting.fastTrack (h : Quoting w₀ w statusId quoteId accountId target)
    (q : Quotes.Quote) : Quoting w₀ (fastTrack w q) statusId quoteId accountId target := by
  rw [Quotes.fastTrack]
  split
  · exact h.accept q.id none
  · exact h

def refused (found : Database.Status) (accountId : ℕ) : Bool :=
  found.reblogOfId.isSome || (found.accountId ≠ accountId && !found.visibility.distributable)

def quotedBy (db : Database.Db) (accountId : ℕ) (uri : Option String) : Option ℕ :=
  ((uri.bind (keptByUri db)).filter fun found => !refused found accountId).map (·.id)

theorem find?_of_mem {db : Database.Db} {t : Database.Status} (ht : t ∈ db.statuses.rows) :
    db.statuses.rows.find? (·.id = t.id) = some t := by
  rw [Table.find?_eq_some_iff]
  · exact ⟨ht, by simp⟩
  · intro r hr s hs hrid hsid
    rw [decide_eq_true_iff] at hrid hsid
    exact db.statuses.eq_of_key hr hs (k := .id t.id) (by simp [Status.keys, hrid])
      (by simp [Status.keys, hsid])

theorem keptByUri_mem {db : Database.Db} {uri : String} {t : Database.Status}
    (h : keptByUri db uri = some t) : t ∈ db.statuses.rows ∧ t.uri = some uri := by
  have hpicked := List.find?_some h
  rw [decide_eq_true_iff] at hpicked
  exact ⟨List.mem_of_find?_eq_some h, hpicked.1⟩

theorem eq_of_uri {db : Database.Db} {uri : String} {s t : Database.Status}
    (hs : s ∈ db.statuses.rows) (ht : t ∈ db.statuses.rows) (hsuri : s.uri = some uri)
    (hturi : t.uri = some uri) : s = t :=
  db.statuses.eq_of_key hs ht (k := .uri uri) (by simp [Status.keys, hsuri])
    (by simp [Status.keys, hturi])

theorem Quoting.setQuotedStatus (h : Quoting w₀ w statusId quoteId accountId none)
    {q : Quotes.Quote} (hid : q.id = quoteId) (haccount : q.accountId = accountId)
    {found : Database.Status} (hfound : found ∈ w.db.statuses.rows) :
    Quoting w₀ (setQuotedStatus w q found.id) statusId quoteId accountId
      (if refused found accountId then none else some found.id) := by
  rw [Quotes.setQuotedStatus, find?_of_mem hfound]
  dsimp only
  rw [haccount]
  cases hrefused : refused found accountId with
  | true =>
      rw [refused] at hrefused
      rw [if_pos hrefused]
      exact h
  | false =>
      rw [refused] at hrefused
      rw [if_neg (by rw [hrefused]; simp)]
      refine h.setQuote q.id (fun _ => rfl) fun r _ hr => ?_
      rw [if_pos (hr.trans hid.symm)]
      rfl

theorem quoting_verifyStamp (e : Quotes.Env) (h : Quoting w₀ w statusId quoteId accountId target)
    {q : Quotes.Quote} (hid : q.id = quoteId) (haccount : q.accountId = accountId)
    (hq : q.quotedStatusId = target) (approvalUri : String) (uri : Option String)
    (hknown : ∀ u, uri = some u → ∃ found, keptByUri w₀.db u = some found)
    (htarget : target = quotedBy w₀.db accountId uri) (d : StampDocument) (imported : Bool) :
    Quoting w₀ (verifyStamp e w q approvalUri uri d imported) statusId quoteId accountId
      target := by
  have himport : Quoting w₀ (importQuotedPost e w q approvalUri uri d imported) statusId quoteId
      accountId target := by
    unfold importQuotedPost
    cases hnone : q.quotedStatusId with
    | some i => exact h
    | none =>
        cases uri with
        | none => exact h
        | some u =>
            dsimp only
            split
            · cases hremote : remoteByUri w u with
              | none => exact h
              | some found' =>
                  obtain ⟨found, hkept⟩ := hknown u rfl
                  have hmem := keptByUri_mem hkept
                  have hmem' : found' ∈ w₀.db.statuses.rows ∧ found'.uri = some u := by
                    have hpicked := List.find?_some hremote
                    rw [decide_eq_true_iff] at hpicked
                    rw [← h.db]
                    exact ⟨List.mem_of_find?_eq_some hremote, hpicked.1⟩
                  obtain rfl := eq_of_uri hmem.1 hmem'.1 hmem.2 hmem'.2
                  have hrefused : refused found accountId = true := by
                    rw [← hq, hnone, quotedBy, Option.bind_some, hkept, Option.filter_some]
                      at htarget
                    by_contra hnot
                    rw [if_pos (by simpa using hnot)] at htarget
                    cases htarget
                  have hset := Quoting.setQuotedStatus (hq.symm.trans hnone ▸ h) hid haccount
                    (h.db ▸ hmem.1)
                  rw [hrefused, if_pos rfl] at hset
                  rw [← hq, hnone]
                  exact hset.fastTrack _
            · exact h
  rw [verifyStamp]
  split_ifs
  · exact h.reject q.id
  · exact h
  · exact h
  · dsimp only
    split
    · exact himport.accept _ _
    · exact himport

theorem quoting_verify (e : Quotes.Env) (h : Quoting w₀ w statusId quoteId accountId none)
    {q : Quotes.Quote} (hquote : w.quote quoteId = some q) (haccount : q.accountId = accountId)
    (hq : q.quotedStatusId = none) (stampUri uri : Option String)
    (hknown : ∀ u, uri = some u → ∃ found, keptByUri w₀.db u = some found) (a : Answers) :
    Quoting w₀ (verify e w q stampUri uri a) statusId quoteId accountId
      (quotedBy w₀.db accountId uri) := by
  have hid := (quote_mem hquote).2
  have hfetch : ∃ w', fetchQuotedPost w q uri a = some w' ∧
      Quoting w₀ w' statusId quoteId accountId (quotedBy w₀.db accountId uri) := by
    unfold fetchQuotedPost
    rw [hq]
    cases uri with
    | none => exact ⟨w, rfl, h⟩
    | some u =>
        obtain ⟨found, hkept⟩ := hknown u rfl
        have hset := Quoting.setQuotedStatus h hid haccount (h.db ▸ (keptByUri_mem hkept).1)
        rw [quotedBy, Option.bind_some, hkept, Option.filter_some]
        dsimp only
        rw [h.db, hkept]
        refine ⟨_, rfl, ?_⟩
        cases hrefused : refused found accountId with
        | true => exact (if_pos hrefused ▸ hset : Quoting w₀ _ _ _ _ none)
        | false =>
            have hnot : ¬ refused found accountId = true := by simp [hrefused]
            exact (if_neg hnot ▸ hset : Quoting w₀ _ _ _ _ (some found.id))
  obtain ⟨w', hw', hset⟩ := hfetch
  rw [verify, hw']
  dsimp only
  obtain ⟨r, hr, -, hrauthor, hrtarget⟩ := hset.row
  rw [hid, hr, Option.getD_some]
  have hfast := hset.fastTrack r
  split
  · exact hset
  · split
    · exact hfast
    next approvalUri _ =>
      cases a.stamp with
      | unanswered => exact hfast
      | gone => exact hfast.reject quoteId
      | found d =>
          exact quoting_verifyStamp e hfast (quote_mem hr).2 hrauthor hrtarget approvalUri uri
            hknown rfl d a.imported

theorem quoting_processQuote (e : Quotes.Env) (f : QuoteFields) (a : Answers)
    (hfresh : ∀ q ∈ w.quotes.rows, q.id ≠ quoteId ∧ q.statusId ≠ statusId)
    (hknown : ∀ u, f.uri = some u → ∃ found, keptByUri w.db u = some found) :
    Quoting w (processQuote e w statusId accountId quoteId f a) statusId quoteId accountId
      (quotedBy w.db accountId f.uri) := by
  have hid : w.quote quoteId = none := by
    rw [World.quote, List.find?_eq_none]
    intro q hq
    simp [(hfresh q hq).1]
  have hstatus : w.findByStatus statusId = none := by
    rw [World.findByStatus, List.find?_eq_none]
    intro q hq
    simp [(hfresh q hq).2]
  rw [processQuote, if_neg (by simp [hid, hstatus])]
  let row : Quotes.Quote :=
    { id := quoteId
      accountId := accountId
      statusId := statusId
      quotedStatusId := none
      quotedAccountId := none
      state := if f.deleted then .deleted else .pending
      approvalUri := none
      activityUri := none
      legacy := f.legacy }
  have hfree : ¬ w.quotes.Taken row := by
    rintro ⟨q, hq, k, hk, hk'⟩
    simp only [Quote.keys, List.mem_cons, List.not_mem_nil, or_false] at hk hk'
    obtain rfl | rfl := hk
    · exact (hfresh q hq).1 (by simpa [row] using hk')
    · exact (hfresh q hq).2 (by simpa [row] using hk')
  have hrows : (insertPending w statusId accountId quoteId f).quotes.rows =
      w.quotes.rows ++ [row] :=
    Table.rows_insert hfree
  have hquote : (insertPending w statusId accountId quoteId f).quote quoteId = some row := by
    rw [World.quote, hrows, List.find?_append]
    rw [World.quote] at hid
    rw [hid]
    simp [row]
  have hfound :
      (insertPending w statusId accountId quoteId f).findByStatus statusId = some row := by
    rw [World.findByStatus, hrows, List.find?_append]
    rw [World.findByStatus] at hstatus
    rw [hstatus]
    simp [row]
  dsimp only
  rw [hquote]
  exact quoting_verify e ⟨rfl, row, hquote, hfound, rfl, rfl⟩ hquote rfl rfl _ _ hknown a

end

end Eunha.QuoteRecording
