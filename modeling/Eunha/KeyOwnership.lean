import Eunha.RemoteKeys

/-!
# Whose keys are stored

However the calls interleave, whatever other hosts answer and whichever statement fails, a
key is bound to an account for an id the account was stored under, and its URI is that id up
to the fragment or a document fetched there named the id. A call binds keys that belong to
its document's id, to the account it found for that id, and removes keys of that account
alone.
-/
namespace Eunha.KeyOwnership
open Tables Interleaving Runs RemoteSuspension RemoteKeys

variable {net : Net}

/-! ### What has been said -/

def Belongs (log : List Fact) (key uri : String) : Prop :=
  fragmentless key = uri ∨ .named key uri ∈ log

def Vouched (log : List Fact) (uri : String) (id : ℕ) : Prop :=
  .stored id uri ∈ log ∨
    ∃ username domain, .confirmed username domain uri ∈ log ∧ .held id username domain ∈ log

theorem Belongs.mono {log log' : List Fact} (hlog : log ⊆ log') {key uri : String}
    (h : Belongs log key uri) : Belongs log' key uri :=
  h.imp id fun hnamed => hlog hnamed

theorem Vouched.mono {log log' : List Fact} (hlog : log ⊆ log') {uri : String} {id : ℕ}
    (h : Vouched log uri id) : Vouched log' uri id := by
  rcases h with hstored | ⟨username, domain, hconfirmed, hheld⟩
  · exact .inl (hlog hstored)
  · exact .inr ⟨username, domain, hlog hconfirmed, hlog hheld⟩

def Found (log : List Fact) (c : Call) (id : ℕ) : Prop :=
  c.actor.gateway.isSome = true ∨ Vouched log c.uri id

theorem Found.mono {log log' : List Fact} (hlog : log ⊆ log') {c : Call} {id : ℕ}
    (h : Found log c id) : Found log' c id :=
  h.imp_right (Vouched.mono hlog)

structure CallSound (log : List Fact) (c : Call) : Prop where
  sender : ∀ a, c.sender = some a → .stored a.id c.uri ∈ log
  verified : c.verified = true → c.sender = none →
    c.actor.gateway.isSome = true ∨ .confirmed c.username c.domain c.uri ∈ log

theorem CallSound.mono {log log' : List Fact} (hlog : log ⊆ log') {c : Call}
    (h : CallSound log c) : CallSound log' c :=
  ⟨fun a ha => hlog (h.sender a ha), fun hv hs => (h.verified hv hs).imp_right fun hc => hlog hc⟩

def PhaseSound (log : List Fact) : Phase → Prop
  | .confirm c => CallSound log c
  | .byUri c => CallSound log c
  | .byHandle c => CallSound log c ∧ c.sender = none ∧ c.verified = true
  | .create _ => True
  | .rename c a => Found log c a.id
  | .invalidate c a => Found log c a.id
  | .renameAgain c a => Found log c a.id
  | .load c id => Found log c id
  | .suspension c a => Found log c a.id
  | .store c id _ => Found log c id
  | .fetch c id _ keys =>
      Found log c id ∧ .stored id c.uri ∈ log ∧ ∀ key ∈ keys, Belongs log key.uri c.uri
  | .bind c id keys todo =>
      Found log c id ∧ .stored id c.uri ∈ log ∧ (∀ key ∈ keys, Belongs log key.uri c.uri) ∧
        ∀ key ∈ todo, Belongs log key.uri c.uri
  | .purge c id uris => Found log c id ∧ ∀ uri ∈ uris, Belongs log uri c.uri

theorem PhaseSound.mono {log log' : List Fact} (hlog : log ⊆ log') {phase : Phase}
    (h : PhaseSound log phase) : PhaseSound log' phase := by
  cases phase with
  | confirm c => exact CallSound.mono hlog h
  | byUri c => exact CallSound.mono hlog h
  | byHandle c => exact ⟨h.1.mono hlog, h.2⟩
  | create c => trivial
  | rename c a => exact Found.mono hlog h
  | invalidate c a => exact Found.mono hlog h
  | renameAgain c a => exact Found.mono hlog h
  | load c id => exact Found.mono hlog h
  | suspension c a => exact Found.mono hlog h
  | store c id suspendedLocally => exact Found.mono hlog h
  | fetch c id todo keys =>
      exact ⟨h.1.mono hlog, hlog h.2.1, fun key hkey => (h.2.2 key hkey).mono hlog⟩
  | bind c id keys todo =>
      exact ⟨h.1.mono hlog, hlog h.2.1, fun key hkey => (h.2.2.1 key hkey).mono hlog,
        fun key hkey => (h.2.2.2 key hkey).mono hlog⟩
  | purge c id uris => exact ⟨h.1.mono hlog, fun uri huri => (h.2 uri huri).mono hlog⟩

def AccountsLogged (log : List Fact) (t : Table (Account.keys net.lower)) : Prop :=
  ∀ a ∈ t.rows, ∀ uri, a.uri = some uri → .stored a.id uri ∈ log

/-- Every key is bound for an id its account was stored under, and belongs to the id. -/
def KeysOwned (log : List Fact) (t : Table Keypair.keys) : Prop :=
  ∀ k ∈ t.rows, ∀ uri, k.uri = some uri →
    ∃ owner, .stored k.accountId owner ∈ log ∧ Belongs log uri owner

structure Sound (s : Store net) : Prop where
  accounts : AccountsLogged s.log s.accounts
  keys : KeysOwned s.log s.keypairs

theorem AccountsLogged.mono {log log' : List Fact} (hlog : log ⊆ log')
    {t : Table (Account.keys net.lower)} (h : AccountsLogged log t) : AccountsLogged log' t :=
  fun a ha uri huri => hlog (h a ha uri huri)

theorem KeysOwned.mono {log log' : List Fact} (hlog : log ⊆ log') {t : Table Keypair.keys}
    (h : KeysOwned log t) : KeysOwned log' t := by
  intro k hk uri huri
  obtain ⟨owner, hstored, hbelongs⟩ := h k hk uri huri
  exact ⟨owner, hlog hstored, hbelongs.mono hlog⟩

@[simp] theorem log_note (s : Store net) (facts : List Fact) :
    (s.note facts).log = s.log ++ facts := rfl

theorem Sound.note {s : Store net} (h : Sound s) (facts : List Fact) : Sound (s.note facts) :=
  ⟨h.accounts.mono (List.subset_append_left _ _), h.keys.mono (List.subset_append_left _ _)⟩

/-! ### Keys of documents -/

theorem belongs_of_embedded {log : List Fact} {uri : String} {item : Format × Entry}
    {key : RemoteKey} (h : wanted net uri item = .embedded key) : Belongs log key.uri uri := by
  refine .inl ?_
  obtain ⟨format, entry⟩ := item
  cases entry with
  | link id => cases format <;> simp [wanted, multikeyWanted, legacyWanted] at h
  | other => cases format <;> simp [wanted, multikeyWanted, legacyWanted] at h
  | object object =>
      cases format with
      | multikey =>
          simp only [wanted, multikeyWanted] at h
          split at h
          · cases h
          · split at h
            · split at h
              next hid =>
                cases h
                exact hid
              · cases h
            · cases h
      | legacy =>
          simp only [wanted, legacyWanted] at h
          split at h
          · cases h
          · split at h
            · cases h
            · split at h
              next hid =>
                cases hpem : object.publicKeyPem with
                | none => simp [hpem] at h
                | some pem =>
                    rw [hpem] at h
                    cases h
                    exact hid
              · cases h

theorem names_of_fetched {uri id : String} {format : Format} {document : KeyDocument}
    {key : RemoteKey} (h : fetched net uri id format document = some key) :
    key.uri = id ∧ uri ∈ document.names := by
  cases format with
  | multikey =>
      simp only [fetched, multikeyFetched] at h
      split at h
      · cases h
      next hok =>
        obtain ⟨pair, _, rfl⟩ := Option.map_eq_some_iff.mp h
        refine ⟨rfl, ?_⟩
        have hcontroller : document.self.controller = some uri := by
          by_contra hne
          exact hok (.inr (.inr hne))
        simp [KeyDocument.names, hcontroller]
  | legacy =>
      simp only [fetched, legacyFetched] at h
      split at h
      · cases h
      next hok =>
        obtain ⟨pem, _, rfl⟩ := Option.map_eq_some_iff.mp h
        refine ⟨rfl, ?_⟩
        rw [not_not] at hok
        cases hpublished : document.publicKey with
        | none =>
            simp only [hpublished, Option.elim_none] at hok
            simp [KeyDocument.names, hok]
        | some entry =>
            simp only [hpublished, Option.elim_some] at hok
            simp [KeyDocument.names, hpublished, hok]

theorem mem_of_mem_retainFirst {keys : List RemoteKey} {key : RemoteKey}
    (h : key ∈ retainFirst keys) : key ∈ keys := by
  suffices hgen : ∀ kept : List RemoteKey, key ∈ keys.foldl
      (fun kept key => if kept.any (·.uri = key.uri) then kept else kept ++ [key]) kept →
      key ∈ kept ∨ key ∈ keys by
    simpa using hgen [] h
  clear h
  induction keys with
  | nil => exact fun kept h => .inl h
  | cons next keys ih =>
      intro kept h
      rw [List.foldl_cons] at h
      rcases ih _ h with hkept | hkeys
      · split at hkept
        · exact .inl hkept
        · rcases List.mem_append.mp hkept with hkept | hnext
          · exact .inl hkept
          · exact .inr (by simp [List.mem_singleton.mp hnext])
      · exact .inr (List.mem_cons_of_mem _ hkeys)

/-! ### Statements -/

theorem mem_of_findByUri {s : Store net} {uri : String} {a : Account}
    (h : findByUri s uri = some a) : a ∈ s.accounts.rows ∧ a.uri = some uri := by
  have hfound := List.find?_some h
  rw [decide_eq_true_eq] at hfound
  exact ⟨List.mem_of_find?_eq_some h, hfound.1⟩

theorem id_of_findById {s : Store net} {id : ℕ} {a : Account} (h : findById s id = some a) :
    a.id = id := by
  simpa using List.find?_some h

theorem setAccount_spec {s s' : Store net} {id : ℕ} {f : Account → Account}
    (h : s.setAccount id f = some s') :
    s'.log = s.log ∧ s'.keypairs = s.keypairs ∧
      s'.accounts.rows = s.accounts.rows.map fun a => if a.id = id then f a else a := by
  obtain ⟨accounts, hupdate, rfl⟩ := Option.map_eq_some_iff.mp h
  exact ⟨rfl, rfl, Table.rows_update? hupdate⟩

theorem Sound.setAccount {s s' : Store net} (hs : Sound s) {id : ℕ} {f : Account → Account}
    (hid : ∀ a, (f a).id = a.id)
    (huri : ∀ a uri, a.id = id → (f a).uri = some uri → a.uri = some uri ∨ .stored id uri ∈ s.log)
    (h : s.setAccount id f = some s') : Sound s' := by
  obtain ⟨hlog, hkeypairs, hrows⟩ := setAccount_spec h
  refine ⟨?_, by rw [hlog, hkeypairs]; exact hs.keys⟩
  intro b hb uri hb_uri
  rw [hrows, List.mem_map] at hb
  obtain ⟨a, ha, rfl⟩ := hb
  rw [hlog]
  split at hb_uri
  next heq =>
    rw [if_pos heq, hid]
    rcases huri a uri heq hb_uri with hkept | hstored
    · exact hs.accounts a ha uri hkept
    · exact heq ▸ hstored
  next hne =>
    rw [if_neg hne]
    exact hs.accounts a ha uri hb_uri

theorem sound_setSuspension {s : Store net} (hs : Sound s) (a : Account) (suspended : Bool) :
    Sound (s.setSuspension a suspended) := by
  rw [Store.setSuspension]
  split
  · exact hs
  · refine ⟨?_, hs.keys⟩
    intro b hb uri huri
    simp only [Table.mem_update] at hb
    obtain ⟨b', hb', rfl⟩ := hb
    split at huri
    next heq =>
      rw [if_pos heq]
      exact hs.accounts b' hb' uri huri
    next hne =>
      rw [if_neg hne]
      exact hs.accounts b' hb' uri huri

@[simp] theorem log_setSuspension (s : Store net) (a : Account) (suspended : Bool) :
    (s.setSuspension a suspended).log = s.log := by
  rw [Store.setSuspension]
  split <;> rfl

@[simp] theorem keypairs_setSuspension (s : Store net) (a : Account) (suspended : Bool) :
    (s.setSuspension a suspended).keypairs = s.keypairs := by
  rw [Store.setSuspension]
  split <;> rfl

theorem invalidate_spec {s s' : Store net} {id : ℕ} {username domain : String}
    (h : invalidateConflictingHandle s id username domain = some s') :
    s'.log = s.log ∧ s'.keypairs = s.keypairs ∧ (Sound s → Sound s') := by
  rw [invalidateConflictingHandle] at h
  split at h
  · cases h
    exact ⟨rfl, rfl, fun hs => hs⟩
  · obtain ⟨hlog, hkeypairs, _⟩ := setAccount_spec h
    refine ⟨hlog, hkeypairs, fun hs => hs.setAccount ?_ ?_ h⟩
    · exact fun _ => rfl
    · exact fun _ _ _ huri => .inl huri

theorem mem_bindKey {t : Table Keypair.keys} {id : ℕ} {key : RemoteKey} {k : Keypair} :
    k ∈ (bindKey t id key).rows ↔
      (k ∈ t.rows ∧ k.uri ≠ some key.uri) ∨ k = ⟨some key.uri, id, key.kind, key.pem⟩ := by
  have hsame (r : Keypair) (hr : r.uri = some key.uri) :
      { r with accountId := id, kind := key.kind, publicKey := key.pem } =
        (⟨some key.uri, id, key.kind, key.pem⟩ : Keypair) := by
    rw [← hr]
  rw [bindKey, Table.mem_insert, Table.mem_update, Table.taken_update]
  constructor
  · rintro (⟨r, hr, rfl⟩ | ⟨_, rfl⟩)
    · by_cases huri : r.uri = some key.uri
      · rw [if_pos huri, hsame r huri]
        exact .inr rfl
      · rw [if_neg huri]
        exact .inl ⟨hr, huri⟩
    · exact .inr rfl
  · rintro (⟨hk, huri⟩ | rfl)
    · exact .inl ⟨k, hk, if_neg huri⟩
    · by_cases htaken : t.Taken ⟨some key.uri, id, key.kind, key.pem⟩
      · obtain ⟨r, hr, uri, hur, hmem⟩ := htaken
        have huri : r.uri = some key.uri := by
          simp only [Keypair.keys, Option.mem_toList, Option.some.injEq] at hur hmem
          rw [hur, hmem]
        exact .inl ⟨r, hr, by rw [if_pos huri, hsame r huri]⟩
      · exact .inr ⟨htaken, rfl⟩

theorem mem_purgeKeys {t : Table Keypair.keys} {id : ℕ} {uris : List String} {k : Keypair} :
    k ∈ (purgeKeys t id uris).rows ↔
      k ∈ t.rows ∧ ¬ (k.accountId = id ∧ ∃ uri, k.uri = some uri ∧ uri ∉ uris) := by
  rw [purgeKeys, Table.mem_deleteWhere, ← Bool.not_eq_true]
  simp [Option.any_eq_true]

/-! ### What a statement does -/

/-- A call after a statement: what was said stays said, and what it relies on holds. -/
structure Goes (s : Store net) (r : Store net × Option Phase) : Prop where
  log : s.log ⊆ r.1.log
  sound : Sound r.1
  next : ∀ phase, r.2 = some phase → PhaseSound r.1.log phase

theorem Goes.stop {s : Store net} (hs : Sound s) : Goes s (s, none) :=
  ⟨List.Subset.refl _, hs, fun _ h => nomatch h⟩

theorem Goes.on {s s' : Store net} {phase : Phase} (hlog : s.log ⊆ s'.log) (hs : Sound s')
    (hphase : PhaseSound s'.log phase) : Goes s (s', some phase) :=
  ⟨hlog, hs, fun _ h => Option.some.inj h ▸ hphase⟩

theorem goes_settled {s s' : Store net} {c : Call} (hlog : s.log ⊆ s'.log) (hs : Sound s')
    (hc : CallSound s'.log c) : Goes s (s', @settled net c) := by
  rw [settled]
  split
  · exact ⟨hlog, hs, fun _ h => nomatch h⟩
  · exact .on hlog hs hc

theorem goes_byUri {s : Store net} {c : Call} (hs : Sound s) (hc : CallSound s.log c)
    (w : Answer) : Goes s (exec s (.byUri c) w) := by
  simp only [exec]
  split
  · exact .stop hs
  · split
    next a ha =>
      refine .on (List.Subset.refl _) hs ?_
      have hfound : Found s.log c a.id := by
        refine .inr (.inl ?_)
        rcases Option.or_eq_some_iff.mp ha with hsender | ⟨_, hfind⟩
        · exact hc.sender a hsender
        · obtain ⟨hmem, huri⟩ := mem_of_findByUri hfind
          exact hs.accounts a hmem c.uri huri
      rw [found]
      split
      · exact hfound
      · exact hfound
    next hnone =>
      split
      · exact .stop hs
      · split
        next hverified =>
          refine .on (List.Subset.refl _) hs ⟨hc, ?_, hverified⟩
          exact (Option.or_eq_none_iff.mp hnone).1
        · exact .on (List.Subset.refl _) hs trivial

theorem goes_byHandle {s : Store net} {c : Call} (hs : Sound s)
    (hc : PhaseSound s.log (.byHandle c)) (w : Answer) : Goes s (exec s (.byHandle c) w) := by
  simp only [exec]
  split
  · exact .stop hs
  · split
    next a ha =>
      have hlog : s.log ⊆ (s.note [.held a.id c.username c.domain]).log :=
        List.subset_append_left _ _
      refine .on hlog (hs.note _) ?_
      rcases hc.1.verified hc.2.2 hc.2.1 with hportable | hconfirmed
      · exact .inl hportable
      · exact .inr (.inr ⟨c.username, c.domain, hlog hconfirmed, by simp⟩)
    · exact .on (List.Subset.refl _) hs trivial

theorem goes_create {s : Store net} {c : Call} (hs : Sound s) (w : Answer) :
    Goes s (exec s (.create c) w) := by
  simp only [exec]
  split
  · exact .stop hs
  · split
    · exact .stop hs
    next accounts hinsert =>
      have hlog : s.log ⊆ s.log ++ [.stored w.snowflake c.uri] := List.subset_append_left _ _
      refine .on hlog ⟨?_, hs.keys.mono hlog⟩ (.inr (.inl (by simp)))
      intro a ha uri huri
      rw [Table.rows_insert? hinsert, List.mem_append] at ha
      rcases ha with ha | ha
      · exact hlog (hs.accounts a ha uri huri)
      · rw [List.mem_singleton] at ha
        subst ha
        obtain rfl := Option.some.inj huri
        simp

theorem goes_renamed {s s' : Store net} {c : Call} {a : Account} (hs : Sound s)
    (hfound : Found s.log c a.id)
    (h : s.setAccount a.id (fun b => { b with username := c.username, domain := some c.domain }) =
      some s') : Goes s (s', some (.load c a.id)) := by
  obtain ⟨hlog, _, _⟩ := setAccount_spec h
  refine .on (by rw [hlog]; exact List.Subset.refl _) (hs.setAccount ?_ ?_ h)
    (by rw [hlog]; exact hfound)
  · exact fun _ => rfl
  · exact fun _ _ _ huri => .inl huri

theorem goes_rename {s : Store net} {c : Call} {a : Account} (hs : Sound s)
    (hfound : Found s.log c a.id) (w : Answer) : Goes s (exec s (.rename c a) w) := by
  simp only [exec]
  split
  · exact .on (List.Subset.refl _) hs hfound
  · split
    · exact .on (List.Subset.refl _) hs hfound
    · split
      next h => exact goes_renamed hs hfound h
      · exact .on (List.Subset.refl _) hs hfound

theorem goes_invalidate {s : Store net} {c : Call} {a : Account} (hs : Sound s)
    (hfound : Found s.log c a.id) (w : Answer) : Goes s (exec s (.invalidate c a) w) := by
  have hgo : Goes s (s, some (.renameAgain c a)) := .on (List.Subset.refl _) hs hfound
  simp only [exec]
  split
  · exact .stop hs
  · split
    · exact hgo
    · split
      · split
        next h =>
          obtain ⟨hlog, _, hsound⟩ := invalidate_spec h
          exact .on (by rw [hlog]; exact List.Subset.refl _) (hsound hs)
            (by rw [hlog]; exact hfound)
        · exact .stop hs
      · exact hgo

theorem goes_renameAgain {s : Store net} {c : Call} {a : Account} (hs : Sound s)
    (hfound : Found s.log c a.id) (w : Answer) : Goes s (exec s (.renameAgain c a) w) := by
  simp only [exec]
  split
  · exact .stop hs
  · split
    next h => exact goes_renamed hs hfound h
    · exact .stop hs

theorem goes_load {s : Store net} {c : Call} {id : ℕ} (hs : Sound s) (hfound : Found s.log c id)
    (w : Answer) : Goes s (exec s (.load c id) w) := by
  simp only [exec]
  split
  · exact .stop hs
  · split
    next a ha =>
      refine .on (List.Subset.refl _) hs ?_
      rw [PhaseSound, id_of_findById ha]
      exact hfound
    · exact .stop hs

theorem goes_suspension {s : Store net} {c : Call} {a : Account} (hs : Sound s)
    (hfound : Found s.log c a.id) (w : Answer) : Goes s (exec s (.suspension c a) w) := by
  simp only [exec]
  split
  · exact .stop hs
  · refine .on (by simp) (sound_setSuspension hs a _) ?_
    rw [log_setSuspension]
    exact hfound

theorem goes_store {s : Store net} {c : Call} {id : ℕ} {suspendedLocally : Bool} (hs : Sound s)
    (hfound : Found s.log c id) (w : Answer) :
    Goes s (exec s (.store c id suspendedLocally) w) := by
  simp only [exec]
  split
  · exact .stop hs
  · split
    · exact .stop hs
    next s' h =>
      obtain ⟨hlog, _, _⟩ := setAccount_spec h
      have hsub : s.log ⊆ (s'.note [.stored id c.uri]).log := by
        rw [log_note, hlog]
        exact List.subset_append_left _ _
      -- the id is logged before it is stored, so that the update may rely on it
      have hnoted : Sound (s'.note [.stored id c.uri]) := by
        have hset : (s.note [.stored id c.uri]).setAccount id (fun a => { a with uri := c.uri }) =
            some (s'.note [.stored id c.uri]) := by
          obtain ⟨accounts, hupdate, rfl⟩ := Option.map_eq_some_iff.mp h
          exact Option.map_eq_some_iff.mpr ⟨accounts, hupdate, rfl⟩
        refine (hs.note _).setAccount ?_ ?_ hset
        · exact fun _ => rfl
        · intro a uri _ huri
          obtain rfl := Option.some.inj huri
          exact .inr (by simp)
      refine ⟨hsub, hnoted, fun phase hphase => ?_⟩
      split at hphase
      · cases hphase
      · obtain rfl := Option.some.inj hphase
        exact ⟨hfound.mono hsub, by simp, by simp⟩

theorem goes_fetch {s : Store net} {c : Call} {id : ℕ} {todo : List (Format × Entry)}
    {keys : List RemoteKey} (hs : Sound s) (h : PhaseSound s.log (.fetch c id todo keys))
    (w : Answer) : Goes s (exec s (.fetch c id todo keys) w) := by
  obtain ⟨hfound, hstored, hkeys⟩ := h
  cases todo with
  | nil =>
      simp only [exec]
      have hretained : ∀ key ∈ retainFirst keys, Belongs s.log key.uri c.uri :=
        fun key hkey => hkeys key (mem_of_mem_retainFirst hkey)
      exact .on (List.Subset.refl _) hs ⟨hfound, hstored, hretained, hretained⟩
  | cons item todo =>
      simp only [exec]
      split
      · exact .on (List.Subset.refl _) hs ⟨hfound, hstored, hkeys⟩
      next key hwanted =>
        refine .on (List.Subset.refl _) hs ⟨hfound, hstored, fun k hk => ?_⟩
        rcases List.mem_append.mp hk with hk | hk
        · exact hkeys k hk
        · rw [List.mem_singleton.mp hk]
          exact belongs_of_embedded hwanted
      next keyId _ =>
        split
        · exact .on (List.Subset.refl _) hs ⟨hfound, hstored, hkeys⟩
        next document _ =>
          have hlog : s.log ⊆ (s.note (document.names.map (.named keyId))).log :=
            List.subset_append_left _ _
          refine .on hlog (hs.note _) ⟨hfound.mono hlog, hlog hstored, fun k hk => ?_⟩
          rcases List.mem_append.mp hk with hk | hk
          · exact (hkeys k hk).mono hlog
          · obtain ⟨huri, hnames⟩ := names_of_fetched (Option.mem_toList.mp hk)
            refine .inr ?_
            rw [huri, log_note, List.mem_append, List.mem_map]
            exact .inr ⟨c.uri, hnames, rfl⟩

theorem goes_bind {s : Store net} {c : Call} {id : ℕ} {keys todo : List RemoteKey} (hs : Sound s)
    (h : PhaseSound s.log (.bind c id keys todo)) (w : Answer) :
    Goes s (exec s (.bind c id keys todo) w) := by
  obtain ⟨hfound, hstored, hkeys, htodo⟩ := h
  cases todo with
  | nil =>
      simp only [exec]
      refine .on (List.Subset.refl _) hs ⟨hfound, fun uri huri => ?_⟩
      obtain ⟨key, hkey, rfl⟩ := List.mem_map.mp huri
      exact hkeys key hkey
  | cons key todo =>
      simp only [exec]
      split
      · exact .stop hs
      · have hnext : ∀ next ∈ todo, Belongs s.log next.uri c.uri :=
          fun next hnext => htodo next (List.mem_cons_of_mem _ hnext)
        refine .on (List.Subset.refl _) ⟨hs.accounts, ?_⟩ ⟨hfound, hstored, hkeys, hnext⟩
        intro k hk uri huri
        rcases mem_bindKey.mp hk with ⟨hk, _⟩ | rfl
        · exact hs.keys k hk uri huri
        · obtain rfl := Option.some.inj huri
          exact ⟨c.uri, hstored, htodo key (by simp)⟩

theorem goes_purge {s : Store net} {c : Call} {id : ℕ} {uris : List String} (hs : Sound s)
    (w : Answer) : Goes s (exec s (.purge c id uris) w) := by
  simp only [exec]
  split
  · exact .stop hs
  · refine ⟨List.Subset.refl _, ⟨hs.accounts, ?_⟩, fun _ h => nomatch h⟩
    intro k hk uri huri
    exact hs.keys k (mem_purgeKeys.mp hk).1 uri huri

theorem goes_exec {s : Store net} {phase : Phase} (hs : Sound s) (h : PhaseSound s.log phase)
    (w : Answer) : Goes s (exec s phase w) := by
  cases phase with
  | confirm c =>
      simp only [exec]
      split
      · exact .stop hs
      next username domain _ =>
        have hlog : s.log ⊆ (s.note [.confirmed username domain c.uri]).log :=
          List.subset_append_left _ _
        refine goes_settled hlog (hs.note _) ⟨fun a ha => hlog (h.sender a ha), fun _ _ => ?_⟩
        exact .inr (by simp)
  | byUri c => exact goes_byUri hs h w
  | byHandle c => exact goes_byHandle hs h w
  | create c => exact goes_create hs w
  | rename c a => exact goes_rename hs h w
  | invalidate c a => exact goes_invalidate hs h w
  | renameAgain c a => exact goes_renameAgain hs h w
  | load c id => exact goes_load hs h w
  | suspension c a => exact goes_suspension hs h w
  | store c id suspendedLocally => exact goes_store hs h w
  | fetch c id todo keys => exact goes_fetch hs h w
  | bind c id keys todo => exact goes_bind hs h w
  | purge c id uris => exact goes_purge hs w

theorem stored_of_sender {s : Store net} (hs : Sound s) {r : Request} {uri : String} {a : Account}
    (ha : r.sender.bind (findById s) = some a)
    (hcheck : ¬ (r.sender.bind (findById s)).any (fun a => a.storedUri ≠ some uri) = true) :
    .stored a.id uri ∈ s.log := by
  obtain ⟨id, _, hfind⟩ := Option.bind_eq_some_iff.mp ha
  have huri : a.storedUri = some uri := by simpa [ha] using hcheck
  rw [Account.storedUri, Option.filter_eq_some_iff] at huri
  exact hs.accounts a (List.mem_of_find?_eq_some hfind) uri huri.1

theorem goes_enter {s : Store net} (hs : Sound s) (r : Request) : Goes s (enter s r) := by
  unfold enter
  dsimp only
  split
  · exact .stop hs
  · split
    · exact .stop hs
    · split
      · exact .stop hs
      next hcheck =>
        have hsender {a : Account} (ha : r.sender.bind (findById s) = some a) :=
          stored_of_sender hs ha hcheck
        split
        · exact .stop hs
        · split
          · exact .stop hs
          · split
            · split
              next hportable =>
                exact goes_settled (List.Subset.refl _) hs
                  ⟨fun a ha => hsender ha, fun _ _ => .inl hportable⟩
              next =>
                refine .on (List.Subset.refl _) hs ⟨fun a ha => hsender ha, fun hv hnone => ?_⟩
                simp only at hv hnone
                simp [hnone] at hv
            next =>
              refine goes_settled (List.Subset.refl _) hs
                ⟨fun a ha => hsender ha, fun hv hnone => ?_⟩
              simp only at hv hnone
              simp [hnone] at hv

/-! ### Runs -/

def Inv (s : Store net) (calls : List Phase) : Prop :=
  Sound s ∧ ∀ phase ∈ calls, PhaseSound s.log phase

theorem Goes.inv {s : Store net} {r : Store net × Option Phase} {calls : List Phase}
    (h : Goes s r) (hcalls : ∀ phase ∈ calls, PhaseSound s.log phase) :
    Inv r.1 (r.2.toList ++ calls) := by
  refine ⟨h.sound, fun phase hphase => ?_⟩
  rcases List.mem_append.mp hphase with hnext | hphase
  · exact h.next phase (Option.mem_toList.mp hnext)
  · exact (hcalls phase hphase).mono h.log

theorem invariant (net : Net) : Invariant (machine net) Inv fun _ _ _ => True where
  perm := fun hperm h => ⟨h.1, fun phase hphase => h.2 phase (hperm.mem_iff.mpr hphase)⟩
  enter := fun r h _ => (goes_enter h.1 r).inv h.2
  exec := fun w h =>
    (goes_exec h.1 (h.2 _ (by simp)) w).inv fun phase hphase =>
      h.2 phase (List.mem_cons_of_mem _ hphase)

theorem inv_run {s : Store net} (hs : Sound s) (es : List (Event Request Answer)) :
    Inv (run (machine net).step ⟨s, []⟩ es).store (run (machine net).step ⟨s, []⟩ es).calls := by
  refine (invariant net).run ⟨s, []⟩ es ⟨hs, by simp⟩ ?_
  rw [guarded_iff_forall_split]
  intro before e after _
  cases e with
  | request r => trivial
  | advance k w => trivial

/-! ### What a call does to the keys -/

def Writes : Phase → Prop
  | .bind _ _ _ (_ :: _) => True
  | .purge _ _ _ => True
  | _ => False

theorem keypairs_exec (s : Store net) {phase : Phase} (h : ¬ Writes phase) (w : Answer) :
    (exec s phase w).1.keypairs = s.keypairs := by
  cases phase with
  | confirm c =>
      simp only [exec]
      split <;> rfl
  | byUri c =>
      simp only [exec]
      split
      · rfl
      · split
        · rfl
        · split
          · rfl
          · split <;> rfl
  | byHandle c =>
      simp only [exec]
      split
      · rfl
      · split <;> rfl
  | create c =>
      simp only [exec]
      split
      · rfl
      · split <;> rfl
  | rename c a =>
      simp only [exec]
      split
      · rfl
      · split
        · rfl
        · split
          next h => exact (setAccount_spec h).2.1
          · rfl
  | invalidate c a =>
      simp only [exec]
      split
      · rfl
      · split
        · rfl
        · split
          · split
            next h => exact (invalidate_spec h).2.1
            · rfl
          · rfl
  | renameAgain c a =>
      simp only [exec]
      split
      · rfl
      · split
        next h => exact (setAccount_spec h).2.1
        · rfl
  | load c id =>
      simp only [exec]
      split
      · rfl
      · split <;> rfl
  | suspension c a =>
      simp only [exec]
      split
      · rfl
      · exact keypairs_setSuspension s a _
  | store c id suspendedLocally =>
      simp only [exec]
      split
      · rfl
      · split
        · rfl
        next h => exact (setAccount_spec h).2.1
  | fetch c id todo keys =>
      cases todo with
      | nil => rfl
      | cons item todo =>
          simp only [exec]
          split
          · rfl
          · rfl
          · split <;> rfl
  | bind c id keys todo =>
      cases todo with
      | nil => rfl
      | cons key todo => exact absurd trivial h
  | purge c id uris => exact absurd trivial h

theorem taken_exec {s : Store net} {phase : Phase} (h : PhaseSound s.log phase) (w : Answer)
    {k : Keypair} (hk : k ∈ s.keypairs.rows) (hgone : k ∉ (exec s phase w).1.keypairs.rows) :
    (∃ uri, k.uri = some uri ∧ Belongs s.log uri phase.call.uri) ∨
      Found s.log phase.call k.accountId := by
  by_cases hwrites : Writes phase
  · cases phase with
    | bind c id keys todo =>
        cases todo with
        | nil => cases hwrites
        | cons key todo =>
            simp only [exec] at hgone
            split at hgone
            · exact absurd hk hgone
            · refine .inl ⟨key.uri, ?_, h.2.2.2 key (by simp)⟩
              by_contra hne
              exact hgone (mem_bindKey.mpr (.inl ⟨hk, hne⟩))
    | purge c id uris =>
        simp only [exec] at hgone
        split at hgone
        · exact absurd hk hgone
        · refine .inr ?_
          have hpurged : k.accountId = id ∧ ∃ uri, k.uri = some uri ∧ uri ∉ uris := by
            by_contra hkept
            exact hgone (mem_purgeKeys.mpr ⟨hk, hkept⟩)
          rw [hpurged.1]
          exact h.1
    | _ => cases hwrites
  · rw [keypairs_exec s hwrites] at hgone
    exact absurd hk hgone

theorem given_exec {s : Store net} {phase : Phase} (h : PhaseSound s.log phase) (w : Answer)
    {k : Keypair} (hk : k ∈ (exec s phase w).1.keypairs.rows) (hnew : k ∉ s.keypairs.rows) :
    ∃ uri, k.uri = some uri ∧ Belongs s.log uri phase.call.uri ∧
      Found s.log phase.call k.accountId := by
  by_cases hwrites : Writes phase
  · cases phase with
    | bind c id keys todo =>
        cases todo with
        | nil => cases hwrites
        | cons key todo =>
            simp only [exec] at hk
            split at hk
            · exact absurd hk hnew
            · rcases mem_bindKey.mp hk with ⟨hold, _⟩ | rfl
              · exact absurd hold hnew
              · exact ⟨key.uri, rfl, h.2.2.2 key (by simp), h.1⟩
    | purge c id uris =>
        simp only [exec] at hk
        split at hk
        · exact absurd hk hnew
        · exact absurd (mem_purgeKeys.mp hk).1 hnew
    | _ => cases hwrites
  · rw [keypairs_exec s hwrites] at hk
    exact absurd hk hnew

theorem belongs_of_purged {s : Store net} {c : Call} {id : ℕ} {uris : List String}
    (h : PhaseSound s.log (.purge c id uris)) {w : Answer} (hw : w.fails = false) {k : Keypair}
    (hk : k ∈ (exec s (.purge c id uris) w).1.keypairs.rows) (hid : k.accountId = id)
    {uri : String} (huri : k.uri = some uri) : Belongs s.log uri c.uri := by
  simp only [exec, hw, Bool.false_eq_true, if_false] at hk
  by_contra hother
  refine (mem_purgeKeys.mp hk).2 ⟨hid, uri, huri, fun hmem => ?_⟩
  exact hother (h.2 uri hmem)

/-- Who decides the keys, after a run and as its calls go on. -/
structure Decided (c : Config (Store net) Phase) : Prop where
  bound : ∀ k ∈ c.store.keypairs.rows, ∀ uri, k.uri = some uri →
    ∃ owner, .stored k.accountId owner ∈ c.store.log ∧ Belongs c.store.log uri owner
  given : ∀ phase ∈ c.calls, phase.call.actor.gateway = none → ∀ w,
    ∀ k ∈ (exec c.store phase w).1.keypairs.rows, k ∉ c.store.keypairs.rows →
      ∃ uri, k.uri = some uri ∧ Belongs c.store.log uri phase.call.uri ∧
        Vouched c.store.log phase.call.uri k.accountId
  kept : ∀ phase ∈ c.calls, phase.call.actor.gateway = none → ∀ w,
    ∀ k ∈ c.store.keypairs.rows,
      (∀ uri, k.uri = some uri → ¬ Belongs c.store.log uri phase.call.uri) →
      ¬ Vouched c.store.log phase.call.uri k.accountId →
        k ∈ (exec c.store phase w).1.keypairs.rows
  current : ∀ call id uris, .purge call id uris ∈ c.calls → ∀ w, w.fails = false →
    ∀ k ∈ (exec c.store (.purge call id uris) w).1.keypairs.rows, k.accountId = id →
      ∀ uri, k.uri = some uri → Belongs c.store.log uri call.uri

theorem Found.vouched {log : List Fact} {c : Call} {id : ℕ} (h : Found log c id)
    (hportable : c.actor.gateway = none) : Vouched log c.uri id := by
  rcases h with hgateway | hvouched
  · rw [hportable] at hgateway
    cases hgateway
  · exact hvouched

/-- Only an id's own server decides the keys bound for it, and no call touches those of an
account that is not its document's. -/
theorem keys_decided {s : Store net} (hs : Sound s) (es : List (Event Request Answer)) :
    Decided (run (machine net).step ⟨s, []⟩ es) := by
  obtain ⟨hsound, hcalls⟩ := inv_run hs es
  refine ⟨hsound.keys, ?_, ?_, ?_⟩
  · intro phase hphase hportable w k hk hnew
    obtain ⟨uri, huri, hbelongs, hfound⟩ := given_exec (hcalls phase hphase) w hk hnew
    exact ⟨uri, huri, hbelongs, hfound.vouched hportable⟩
  · intro phase hphase hportable w k hk hother hvouched
    by_contra hgone
    rcases taken_exec (hcalls phase hphase) w hk hgone with ⟨uri, huri, hbelongs⟩ | hfound
    · exact hother uri huri hbelongs
    · exact hvouched (hfound.vouched hportable)
  · intro call id uris hphase w hw k hk hid uri huri
    exact belongs_of_purged (hcalls _ hphase) hw hk hid huri

section Examples

def plainNet : Net where
  canonical := fun uri => uri
  host := fun uri => some (String.ofList ((uri.toList.drop 8).takeWhile (· ≠ '/')))
  domainNotAllowed := fun _ => false
  splitAcct := fun acct =>
    (String.ofList (acct.toList.takeWhile (· ≠ '@')),
      String.ofList ((acct.toList.dropWhile (· ≠ '@')).drop 1))
  isBlank := fun s => s = ""
  squish := fun s => s
  normalizeDomain := fun s => s
  isValidUsername := fun _ => true
  lower := fun s => String.ofList (s.toList.map Char.toLower)
  multikey := fun _ => none
  bornSuspended := fun _ => false

def alice : Account :=
  ⟨1, "alice", some "a.example", some "https://a.example/users/1", ⟨true, some .here⟩⟩

def aliceKey : Keypair := ⟨some "https://a.example/users/1#main-key", 1, keyTypeRsa, "PEM"⟩

def plainStore : Store plainNet where
  accounts := ⟨[alice], by decide +kernel⟩
  keypairs := ⟨[aliceKey], by decide +kernel⟩
  log := [.stored 1 "https://a.example/users/1"]

theorem plain_sound : Sound plainStore := by
  constructor
  · intro a ha uri huri
    obtain rfl : a = alice := by simpa [plainStore] using ha
    obtain rfl := Option.some.inj huri
    decide +kernel
  · intro k hk uri huri
    obtain rfl : k = aliceKey := by simpa [plainStore] using hk
    obtain rfl := Option.some.inj huri
    exact ⟨"https://a.example/users/1", by decide +kernel, .inl (by decide +kernel)⟩

example : plainNet.host "https://a.b/c" = some "a.b" := by decide +kernel

def aliceMoved : Actor where
  id := "https://a.example/users/2"
  inbox := true
  gateway := none
  webfinger := some "alice@a.example"
  preferredUsername := some "alice"
  suspended := false
  publicKey := []
  assertionMethod := []

def answered : Answer := ⟨false, some ("alice", "a.example"), none, 0, false⟩

/-- Her handle is confirmed for the new id, and the account stored under it. -/
def moving : List (Event Request Answer) :=
  .request ⟨aliceMoved, none, false⟩ :: List.replicate 7 (.advance 0 answered)

theorem keys_decided_moving : Decided (run (machine plainNet).step ⟨plainStore, []⟩ moving) :=
  keys_decided plain_sound moving

def BoundToCurrentId (s : Store net) : Prop :=
  ∀ k ∈ s.keypairs.rows, ∀ a ∈ s.accounts.rows, a.id = k.accountId →
    ∀ key, k.uri = some key → ∀ uri, a.uri = some uri → Belongs s.log key uri

/-- A moderator's suspension keeps the keys of the id the account had before. -/
theorem suspended_keeps_old_key :
    ¬ BoundToCurrentId (run (machine plainNet).step ⟨plainStore, []⟩ moving).store := by
  intro h
  have hbelongs := h aliceKey (by decide +kernel)
    { alice with uri := some "https://a.example/users/2" } (by decide +kernel) rfl
    "https://a.example/users/1#main-key" rfl "https://a.example/users/2" rfl
  exact absurd hbelongs (by unfold Belongs; decide +kernel)

end Examples

end Eunha.KeyOwnership
