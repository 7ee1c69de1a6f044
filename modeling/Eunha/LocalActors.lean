import Eunha.LocalUri

/-!
# Local actors under their IRIs

A handler that compares the `uri` column finds a local account only under the IRI stored
there, while one that reads the path finds it under every IRI of its path. The handlers
agree on an IRI exactly where whoever its path names is also stored under it, and nobody
else is.
-/
namespace Eunha.LocalActors
open Tables Roles LocalUri

variable {site : Site} {db : Db site.lower}

/-! ### What each look-up finds -/

inductive Handler where
  | follow
  | localUri
  | block
  | undoBlock
  | addressing
  | mention
  | featureRequest
  deriving DecidableEq

def resolve (site : Site) (db : Db site.lower) (uri : String) : Handler → Option ℤ
  | .follow => followTarget site db uri
  | .localUri => account site db uri
  | .block => blockTarget site db uri
  | .undoBlock => blockee site db uri
  | .addressing => addressed site db uri
  | .mention => (resolveOrFetch site db uri).id?
  | .featureRequest => featured site db uri

def Resolves (site : Site) (db : Db site.lower) (uri : String) (h : Handler) (a : Account) : Prop :=
  a ∈ db.accounts.rows ∧ a.domain = none ∧ resolve site db uri h = some a.id

instance (uri : String) (h : Handler) (a : Account) : Decidable (Resolves site db uri h a) :=
  inferInstanceAs (Decidable (_ ∧ _ ∧ _))

theorem eq_of_id {a b : Account} (ha : a ∈ db.accounts.rows) (hb : b ∈ db.accounts.rows)
    (h : a.id = b.id) : a = b :=
  db.accounts.eq_of_key ha hb (k := .id a.id) (by simp [Account.keys])
    (by simp [Account.keys, h])

theorem eq_of_uri {a b : Account} {uri : String} (ha : a ∈ db.accounts.rows)
    (hb : b ∈ db.accounts.rows) (hau : a.uri = some uri) (hbu : b.uri = some uri) : a = b :=
  db.accounts.eq_of_key ha hb (k := .uri uri) (by simp [Account.keys, hau])
    (by simp [Account.keys, hbu])

theorem eq_of_username {a b : Account} {username : String} (ha : a ∈ db.accounts.rows)
    (hb : b ∈ db.accounts.rows) (hau : byUsername site username a = true)
    (hbu : byUsername site username b = true) : a = b := by
  simp only [byUsername, decide_eq_true_eq] at hau hbu
  refine db.accounts.eq_of_key ha hb (k := .name (site.lower username) "") ?_ ?_
  · simp [Account.keys, hau.1, hau.2]
  · simp [Account.keys, hbu.1, hbu.2]

theorem eq_of_byId {a b : Account} {id : String} (ha : a ∈ db.accounts.rows)
    (hb : b ∈ db.accounts.rows) (hai : byId id a = true) (hbi : byId id b = true) : a = b := by
  simp only [byId, decide_eq_true_eq] at hai hbi
  exact eq_of_id ha hb (Option.some.inj (hai.2.symm.trans hbi.2))

theorem eq_of_byActorPath {path : List String} {a b : Account} (ha : a ∈ db.accounts.rows)
    (hb : b ∈ db.accounts.rows) (hap : byActorPath site path a = true)
    (hbp : byActorPath site path b = true) : a = b := by
  unfold byActorPath at hap hbp
  split at hap
  · exact eq_of_username ha hb hap hbp
  · exact eq_of_byId ha hb hap hbp
  · cases hap

theorem domain_of_byActorPath {path : List String} {a : Account}
    (h : byActorPath site path a = true) : a.domain = none := by
  unfold byActorPath at h
  split at h
  · simp only [byUsername, decide_eq_true_eq] at h
    exact h.1
  · simp only [byId, decide_eq_true_eq] at h
    exact h.1
  · cases h

theorem byLocalPath_of_byActorPath {path : List String} {a : Account}
    (h : byActorPath site path a = true) : byLocalPath site path a = true := by
  unfold byLocalPath
  split
  · simp [byActorPath] at h
  · simp [byActorPath] at h
  · exact h

theorem eq_of_byLocalPath {path : List String} {a b : Account} (ha : a ∈ db.accounts.rows)
    (hb : b ∈ db.accounts.rows) (hap : byLocalPath site path a = true)
    (hbp : byLocalPath site path b = true) : a = b := by
  unfold byLocalPath at hap hbp
  split at hap
  · simp only [decide_eq_true_eq] at hap hbp
    exact eq_of_id ha hb (hap.1.trans hbp.1.symm)
  next handle hactor =>
    simp only [decide_eq_true_eq] at hap
    split at hbp
    next heq => exact absurd (List.cons.inj heq).1 (by simpa using hactor)
    next heq =>
      obtain rfl := (List.cons.inj heq).1
      simp only [decide_eq_true_eq] at hbp
      exact eq_of_username ha hb hap.2 hbp.2
    next hother => exact absurd rfl (hother handle)
  next hactor hhandle =>
    split at hbp
    · exact absurd rfl hactor
    · exact absurd rfl (hhandle _)
    · exact eq_of_byActorPath ha hb hap hbp

theorem findId_iff {p : Account → Bool}
    (honly : ∀ a ∈ db.accounts.rows, ∀ b ∈ db.accounts.rows, p a = true → p b = true → a = b)
    {a : Account} (ha : a ∈ db.accounts.rows) :
    findId site db p = some a.id ↔ p a = true := by
  rw [findId, Option.map_eq_some_iff]
  constructor
  · rintro ⟨b, hfind, hid⟩
    obtain ⟨hb, hpb⟩ := (Table.find?_eq_some_iff honly).mp hfind
    rw [← eq_of_id hb ha hid]
    exact hpb
  · intro hpa
    exact ⟨a, (Table.find?_eq_some_iff honly).mpr ⟨ha, hpa⟩, rfl⟩

theorem knownUnder_iff {uri : String} {a : Account} (ha : a ∈ db.accounts.rows) :
    knownUnder site db uri = some a.id ↔ a.uri = some uri := by
  refine (findId_iff ?_ ha).trans decide_eq_true_iff
  intro b hb c hc hbu hcu
  exact eq_of_uri hb hc (by simpa using hbu) (by simpa using hcu)

theorem findId_byUri_iff {uri : String} {a : Account} (ha : a ∈ db.accounts.rows)
    (hlocal : a.domain = none) : findId site db (byUri uri) = some a.id ↔ a.uri = some uri := by
  refine (findId_iff ?_ ha).trans ?_
  · intro b hb c hc hbu hcu
    simp only [byUri, decide_eq_true_eq] at hbu hcu
    exact eq_of_uri hb hc hbu.1 hcu.1
  · simp [byUri, hlocal]

/-! ### Whom an IRI names -/

def NamedByPath (site : Site) (uri : String) (a : Account) : Prop :=
  ∃ url, site.parse uri = some url ∧ site.onOurHost url = true ∧
    byActorPath site (url.segments.getD []) a = true

/-- The instance actor is nobody to follow, whatever its path. -/
def Named (site : Site) (uri : String) (a : Account) : Prop :=
  uri ≠ site.actorUrl ∧ NamedByPath site uri a

def LocallyNamed (site : Site) (uri : String) (a : Account) : Prop :=
  ∃ path, site.localPath uri = some path ∧ byLocalPath site path a = true

theorem localPath_of_onOurHost {uri : String} {url : Url} (hparse : site.parse uri = some url)
    (hours : site.onOurHost url = true) : site.localPath uri = url.segments := by
  obtain ⟨host, hhost, heq⟩ := Option.any_eq_true _ _ |>.mp hours
  simp [Site.localPath, hparse, hhost, heq]

theorem NamedByPath.locallyNamed {uri : String} {a : Account} (h : NamedByPath site uri a) :
    LocallyNamed site uri a := by
  obtain ⟨url, hparse, hours, hpath⟩ := h
  cases hsegments : url.segments with
  | none =>
      rw [hsegments] at hpath
      cases hpath
  | some path =>
      rw [hsegments] at hpath
      refine ⟨path, ?_, byLocalPath_of_byActorPath hpath⟩
      rw [localPath_of_onOurHost hparse hours, hsegments]

theorem resolves_follow_iff {uri : String} {a : Account} (ha : a ∈ db.accounts.rows) :
    followTarget site db uri = some a.id ↔ Named site uri a := by
  have hfind (path : List String) :=
    findId_iff (p := byActorPath site path) (fun b hb c hc => eq_of_byActorPath hb hc) ha
  rw [followTarget]
  constructor
  · intro h
    split at h
    · cases h
    next hne =>
      split at h
      · cases h
      next url hparse =>
        split at h
        next hours => exact ⟨hne, url, hparse, hours, (hfind _).mp h⟩
        · cases h
  · rintro ⟨hne, url, hparse, hours, hpath⟩
    rw [if_neg hne, hparse]
    simp only [hours, if_true]
    exact (hfind _).mpr hpath

theorem resolves_localUri_iff {uri : String} {a : Account} (ha : a ∈ db.accounts.rows)
    (hlocal : a.domain = none) :
    account site db uri = some a.id ↔
      LocallyNamed site uri a ∨ (site.localPath uri = none ∧ a.uri = some uri) := by
  rw [account, LocallyNamed]
  split
  next hpath =>
    simp only [hpath, Option.some.injEq, exists_eq_left', reduceCtorEq, false_and, or_false]
    simp [byLocalPath, hlocal, eq_comm]
  next path hne hpath =>
    simp only [hpath, Option.some.injEq, exists_eq_left', reduceCtorEq, false_and, or_false]
    exact findId_iff (fun b hb c hc => eq_of_byLocalPath hb hc) ha
  next hpath =>
    simp only [hpath, reduceCtorEq, false_and, exists_false, true_and, false_or]
    exact knownUnder_iff ha

/-- What the parameters are relied on for: a portable id, as given or in its canonical form,
is not on this instance's host. -/
def PortableApart (site : Site) : Prop :=
  ∀ uri canonical, site.portable uri = some canonical → site.localPath uri = none ∧
    ∀ url, site.parse canonical = some url → site.onOurHost url = false

theorem canonical_of_localPath (hportable : PortableApart site) {uri : String}
    (h : site.localPath uri ≠ none) : site.canonical uri = uri := by
  rw [Site.canonical]
  cases hcanonical : site.portable uri with
  | none => rfl
  | some canonical => exact absurd (hportable uri canonical hcanonical).1 h

theorem LocallyNamed.canonical (hportable : PortableApart site) {uri : String} {a : Account}
    (h : LocallyNamed site uri a) : site.canonical uri = uri := by
  obtain ⟨path, hpath, _⟩ := h
  exact canonical_of_localPath hportable (by simp [hpath])

theorem id?_elim {found : Option ℤ} {otherwise : Found} (h : otherwise.id? = none) :
    (found.elim otherwise .known).id? = found := by
  cases found with
  | none => exact h
  | some id => rfl

theorem resolves_mention_iff {uri : String} {a : Account} (ha : a ∈ db.accounts.rows) :
    (resolveOrFetch site db uri).id? = some a.id ↔
      NamedByPath site (site.canonical uri) a ∨
        ((∀ url, site.parse (site.canonical uri) = some url → site.onOurHost url = false) ∧
          a.uri = some (site.canonical uri)) := by
  have hfind (path : List String) :=
    findId_iff (p := byActorPath site path) (fun b hb c hc => eq_of_byActorPath hb hc) ha
  unfold resolveOrFetch NamedByPath
  dsimp only
  cases hparse : site.parse (site.canonical uri) with
  | none =>
      dsimp only
      rw [id?_elim rfl, knownUnder_iff ha]
      simp
  | some url =>
      cases hours : site.onOurHost url with
      | false =>
          simp only [hours, Bool.false_eq_true, if_false]
          rw [id?_elim rfl, knownUnder_iff ha]
          simp [hours]
      | true =>
          simp only [hours, if_true]
          rw [id?_elim rfl, hfind]
          simp [hours]

/-! ### Posts -/

/-- The post that an IRI on the domain, or on an alias of it, names by its path. -/
def StatusNamed (site : Site) (uri : String) (s : Status) : Prop :=
  ∃ path, site.localPath uri = some path ∧ statusIdOfPath path = some s.id

theorem status_eq_of_id {s t : Status} (hs : s ∈ db.statuses.rows) (ht : t ∈ db.statuses.rows)
    (h : s.id = t.id) : s = t :=
  db.statuses.eq_of_key hs ht (k := .id s.id) (by simp [Status.keys]) (by simp [Status.keys, h])

theorem status_eq_of_uri {s t : Status} {uri : String} (hs : s ∈ db.statuses.rows)
    (ht : t ∈ db.statuses.rows) (hsu : s.uri = some uri) (htu : t.uri = some uri) : s = t :=
  db.statuses.eq_of_key hs ht (k := .uri uri) (by simp [Status.keys, hsu])
    (by simp [Status.keys, htu])

theorem findStatus_iff {p : Status → Bool}
    (honly : ∀ s ∈ db.statuses.rows, ∀ t ∈ db.statuses.rows, p s = true → p t = true → s = t)
    {s : Status} (hs : s ∈ db.statuses.rows) :
    (db.statuses.rows.find? p).map Status.id = some s.id ↔ p s = true := by
  rw [Option.map_eq_some_iff]
  constructor
  · rintro ⟨t, hfind, hid⟩
    obtain ⟨ht, hpt⟩ := (Table.find?_eq_some_iff honly).mp hfind
    rw [← status_eq_of_id ht hs hid]
    exact hpt
  · intro hps
    exact ⟨s, (Table.find?_eq_some_iff honly).mpr ⟨hs, hps⟩, rfl⟩

theorem status_iff {uri : String} {s : Status} (hs : s ∈ db.statuses.rows)
    (hlocal : localAuthor site db s = true) :
    status site db uri = some s.id ↔
      StatusNamed site uri s ∨ (site.localPath uri = none ∧ s.uri = some uri) := by
  rw [status, StatusNamed]
  cases hpath : site.localPath uri with
  | none =>
      simp only [reduceCtorEq, false_and, exists_false, true_and, false_or]
      refine (findStatus_iff ?_ hs).trans decide_eq_true_iff
      intro t ht r hr htu hru
      exact status_eq_of_uri ht hr (by simpa using htu) (by simpa using hru)
  | some path =>
      simp only [Option.some.injEq, exists_eq_left', reduceCtorEq, false_and, or_false]
      have hid (id : ℤ) :
          (db.statuses.rows.find? fun t => t.id = id ∧ localAuthor site db t = true).map
            Status.id = some s.id ↔ id = s.id := by
        refine (findStatus_iff ?_ hs).trans ?_
        · intro t ht r hr hti hri
          simp only [decide_eq_true_eq] at hti hri
          exact status_eq_of_id ht hr (hti.1.trans hri.1.symm)
        · simp [hlocal, eq_comm]
      rw [Option.bind_eq_some_iff]
      constructor
      · rintro ⟨id, hsome, hfind⟩
        rw [hsome, (hid id).mp hfind]
      · intro hsome
        exact ⟨s.id, hsome, (hid s.id).mpr rfl⟩

theorem quoted_iff {uri : String} {s : Status} :
    quoted site db uri = some s ↔
      s ∈ db.statuses.rows ∧ s.uri = some uri ∧ s.deleted = false ∧
        localAuthor site db s = true := by
  rw [quoted, Table.find?_eq_some_iff, decide_eq_true_eq]
  intro t ht r hr htu hru
  simp only [decide_eq_true_eq] at htu hru
  exact status_eq_of_uri ht hr htu.1 hru.1

theorem localAuthor_congr {s t : Status} (h : s.accountId = t.accountId) :
    localAuthor site db s = localAuthor site db t := by
  simp only [localAuthor, h]

/-! ### Agreement -/

/-- The handlers agree on an IRI: whom a Follow and `local_uri::account` take it to name
everyone does, no two handlers take it to name different local accounts, and a QuoteRequest
about the post it names is answered for the author of that post. -/
structure NamesOne (site : Site) (db : Db site.lower) (uri : String) : Prop where
  alike : ∀ a, Resolves site db uri .follow a → Resolves site db uri .localUri a →
    ∀ h, Resolves site db uri h a
  apart : ∀ h h' a b, Resolves site db uri h a → Resolves site db uri h' b → a = b
  quoted : ∀ s ∈ db.statuses.rows, s.deleted = false → localAuthor site db s = true →
    status site db uri = some s.id →
      (quoted site db uri).map Status.accountId = some s.accountId
  quotedApart : ∀ s ∈ db.statuses.rows, localAuthor site db s = true →
    status site db uri = some s.id → ∀ t, LocalUri.quoted site db uri = some t →
      t.accountId = s.accountId

/-- Whom the path of the IRI names is stored under it, and nobody else is. -/
structure StoredUnder (site : Site) (db : Db site.lower) (uri : String) : Prop where
  named : ∀ a ∈ db.accounts.rows, Named site uri a → a.uri = some uri
  alone : ∀ a ∈ db.accounts.rows, ∀ b ∈ db.accounts.rows, a.domain = none → b.domain = none →
    LocallyNamed site uri a → b.uri = some uri → a = b
  canonical : ∀ a ∈ db.accounts.rows, ∀ b ∈ db.accounts.rows, a.domain = none →
    b.domain = none → a.uri = some (site.canonical uri) → b.uri = some uri → a = b
  post : ∀ s ∈ db.statuses.rows, s.deleted = false → localAuthor site db s = true →
    StatusNamed site uri s →
      ∃ t ∈ db.statuses.rows, t.deleted = false ∧ t.uri = some uri ∧ t.accountId = s.accountId
  postAlone : ∀ s ∈ db.statuses.rows, ∀ t ∈ db.statuses.rows, localAuthor site db s = true →
    localAuthor site db t = true → t.deleted = false → StatusNamed site uri s →
      t.uri = some uri → t.accountId = s.accountId

theorem Resolves.cases (hportable : PortableApart site) {uri : String} {h : Handler} {a : Account}
    (hr : Resolves site db uri h a) :
    LocallyNamed site uri a ∨ a.uri = some uri ∨ a.uri = some (site.canonical uri) := by
  obtain ⟨ha, hlocal, hr⟩ := hr
  cases h with
  | follow => exact .inl ((resolves_follow_iff ha).mp hr).2.locallyNamed
  | localUri =>
      rcases (resolves_localUri_iff ha hlocal).mp hr with hnamed | ⟨_, huri⟩
      · exact .inl hnamed
      · exact .inr (.inl huri)
  | mention =>
      rcases (resolves_mention_iff ha).mp hr with hnamed | ⟨_, huri⟩
      · refine .inl ?_
        cases hid : site.portable uri with
        | none =>
            rw [Site.canonical, hid] at hnamed
            exact hnamed.locallyNamed
        | some canonical =>
            rw [Site.canonical, hid] at hnamed
            obtain ⟨url, hparse, hours, _⟩ := hnamed
            rw [Option.getD_some] at hparse
            rw [(hportable uri canonical hid).2 url hparse] at hours
            cases hours
      · exact .inr (.inr huri)
  | block => exact .inr (.inl ((findId_byUri_iff ha hlocal).mp hr))
  | undoBlock => exact .inr (.inl ((findId_byUri_iff ha hlocal).mp hr))
  | addressing => exact .inr (.inl ((findId_byUri_iff ha hlocal).mp hr))
  | featureRequest => exact .inr (.inl ((findId_byUri_iff ha hlocal).mp hr))

theorem eq_of_locallyNamed {uri : String} {a b : Account} (ha : a ∈ db.accounts.rows)
    (hb : b ∈ db.accounts.rows) (hna : LocallyNamed site uri a) (hnb : LocallyNamed site uri b) :
    a = b := by
  obtain ⟨path, hpath, hap⟩ := hna
  obtain ⟨path', hpath', hbp⟩ := hnb
  obtain rfl := Option.some.inj (hpath.symm.trans hpath')
  exact eq_of_byLocalPath ha hb hap hbp

theorem StoredUnder.alike (hportable : PortableApart site) {uri : String}
    (h : StoredUnder site db uri) {a : Account} (hfollow : Resolves site db uri .follow a)
    (handler : Handler) : Resolves site db uri handler a := by
  obtain ⟨ha, hlocal, hresolve⟩ := hfollow
  have hnamed := (resolves_follow_iff ha).mp hresolve
  have huri := h.named a ha hnamed
  have hbyUri := (findId_byUri_iff ha hlocal).mpr huri
  refine ⟨ha, hlocal, ?_⟩
  cases handler with
  | follow => exact hresolve
  | localUri => exact (resolves_localUri_iff ha hlocal).mpr (.inl hnamed.2.locallyNamed)
  | mention =>
      refine (resolves_mention_iff ha).mpr (.inl ?_)
      rw [hnamed.2.locallyNamed.canonical hportable]
      exact hnamed.2
  | block => exact hbyUri
  | undoBlock => exact hbyUri
  | addressing => exact hbyUri
  | featureRequest => exact hbyUri

theorem StoredUnder.apart (hportable : PortableApart site) {uri : String}
    (h : StoredUnder site db uri) {handler handler' : Handler} {a b : Account}
    (ha : Resolves site db uri handler a) (hb : Resolves site db uri handler' b) : a = b := by
  have hnamed {c d : Account} (hc : c ∈ db.accounts.rows) (hd : d ∈ db.accounts.rows)
      (hcl : c.domain = none) (hdl : d.domain = none) (hn : LocallyNamed site uri c)
      (hu : d.uri = some (site.canonical uri)) : c = d := by
    rw [hn.canonical hportable] at hu
    exact h.alone c hc d hd hcl hdl hn hu
  rcases ha.cases hportable with hna | hua | hca <;> rcases hb.cases hportable with hnb | hub | hcb
  · exact eq_of_locallyNamed ha.1 hb.1 hna hnb
  · exact h.alone a ha.1 b hb.1 ha.2.1 hb.2.1 hna hub
  · exact hnamed ha.1 hb.1 ha.2.1 hb.2.1 hna hcb
  · exact (h.alone b hb.1 a ha.1 hb.2.1 ha.2.1 hnb hua).symm
  · exact eq_of_uri ha.1 hb.1 hua hub
  · exact (h.canonical b hb.1 a ha.1 hb.2.1 ha.2.1 hcb hua).symm
  · exact (hnamed hb.1 ha.1 hb.2.1 ha.2.1 hnb hca).symm
  · exact h.canonical a ha.1 b hb.1 ha.2.1 hb.2.1 hca hub
  · exact eq_of_uri ha.1 hb.1 hca hcb

theorem StoredUnder.namesOne (hportable : PortableApart site) {uri : String}
    (h : StoredUnder site db uri) : NamesOne site db uri where
  alike := fun a hfollow _ handler => h.alike hportable hfollow handler
  apart := fun _ _ _ _ ha hb => h.apart hportable ha hb
  quoted := by
    intro s hs hkept hlocal hstatus
    have hstored : ∃ t ∈ db.statuses.rows, t.deleted = false ∧ t.uri = some uri ∧
        t.accountId = s.accountId := by
      rcases (status_iff hs hlocal).mp hstatus with hnamed | ⟨_, huri⟩
      · exact h.post s hs hkept hlocal hnamed
      · exact ⟨s, hs, hkept, huri, rfl⟩
    obtain ⟨t, ht, htkept, huri, haccount⟩ := hstored
    have hquoted : LocalUri.quoted site db uri = some t :=
      quoted_iff.mpr ⟨ht, huri, htkept, by rw [localAuthor_congr haccount, hlocal]⟩
    rw [hquoted, Option.map_some, haccount]
  quotedApart := by
    intro s hs hlocal hstatus t hquoted
    obtain ⟨ht, huri, htkept, htlocal⟩ := quoted_iff.mp hquoted
    rcases (status_iff hs hlocal).mp hstatus with hnamed | ⟨_, hsu⟩
    · exact h.postAlone s hs t ht hlocal htlocal htkept hnamed huri
    · rw [status_eq_of_uri hs ht hsu huri]

theorem NamesOne.storedUnder (hportable : PortableApart site) {uri : String}
    (h : NamesOne site db uri) : StoredUnder site db uri := by
  have hblock {b : Account} (hb : b ∈ db.accounts.rows) (hlocal : b.domain = none)
      (hu : b.uri = some uri) : Resolves site db uri .block b :=
    ⟨hb, hlocal, (findId_byUri_iff hb hlocal).mpr hu⟩
  refine ⟨?_, ?_, ?_, ?_, ?_⟩
  · intro a ha hnamed
    obtain ⟨url, _, _, hpath⟩ := hnamed.2
    have hlocal := domain_of_byActorPath hpath
    have hfollow : Resolves site db uri .follow a :=
      ⟨ha, hlocal, (resolves_follow_iff ha).mpr hnamed⟩
    have haccount : Resolves site db uri .localUri a :=
      ⟨ha, hlocal, (resolves_localUri_iff ha hlocal).mpr (.inl hnamed.2.locallyNamed)⟩
    exact (findId_byUri_iff ha hlocal).mp (h.alike a hfollow haccount .block).2.2
  · intro a ha b hb hal hbl hnamed hu
    have haccount : Resolves site db uri .localUri a :=
      ⟨ha, hal, (resolves_localUri_iff ha hal).mpr (.inl hnamed)⟩
    exact h.apart _ _ a b haccount (hblock hb hbl hu)
  · intro a ha b hb hal hbl hca hu
    cases hid : site.portable uri with
    | none =>
        rw [Site.canonical, hid] at hca
        exact eq_of_uri ha hb hca hu
    | some canonical =>
        have hmention : Resolves site db uri .mention a := by
          refine ⟨ha, hal, (resolves_mention_iff ha).mpr (.inr ⟨?_, hca⟩)⟩
          rw [Site.canonical, hid]
          exact (hportable uri canonical hid).2
        exact h.apart _ _ a b hmention (hblock hb hbl hu)
  · intro s hs hkept hlocal hnamed
    have hquoted := h.quoted s hs hkept hlocal ((status_iff hs hlocal).mpr (.inl hnamed))
    obtain ⟨t, ht, haccount⟩ := Option.map_eq_some_iff.mp hquoted
    obtain ⟨hmem, huri, htkept, _⟩ := quoted_iff.mp ht
    exact ⟨t, hmem, htkept, huri, haccount⟩
  · intro s hs t ht hlocal htlocal htkept hnamed huri
    exact h.quotedApart s hs hlocal ((status_iff hs hlocal).mpr (.inl hnamed)) t
      (quoted_iff.mpr ⟨ht, huri, htkept, htlocal⟩)

/-- The handlers agree on an IRI exactly where whom its path names is stored under it. -/
theorem names_one_iff_stored (hportable : PortableApart site) (uri : String) :
    NamesOne site db uri ↔ StoredUnder site db uri :=
  ⟨NamesOne.storedUnder hportable, StoredUnder.namesOne hportable⟩

section Examples

/-- An instance without aliases, whose URLs have no query. -/
def plainSite : Site where
  domain := "our.example"
  aliases := []
  parse := fun uri =>
    match (uri.toList.splitOn '/').map String.ofList with
    | "https:" :: "" :: host :: segments => some ⟨some host, some segments⟩
    | _ => none
  lower := fun s => String.ofList (s.toList.map Char.toLower)
  portable := fun _ => none

/-- An account stored under the IRI of its scheme, and one of the other scheme whose `uri`
column is null. -/
def alice : Account := ⟨7, "alice", none, some "https://our.example/ap/users/7", some numericApId⟩

def bob : Account := ⟨8, "bob", none, none, none⟩

def hello : Status := ⟨70, 7, some "https://our.example/ap/users/7/statuses/70", false⟩

def plainDb : Db plainSite.lower where
  accounts := ⟨[alice, bob], by decide +kernel⟩
  statuses := ⟨[hello], by decide +kernel⟩

theorem plain_apart : PortableApart plainSite := by
  intro uri canonical h
  cases h

theorem localPath_alice :
    plainSite.localPath (accountUri "our.example" alice) = some ["ap", "users", "7"] := by
  decide +kernel

example : findId plainSite plainDb (byUsername plainSite "Bob") = some 8 := by decide +kernel

theorem eq_alice_of_locallyNamed {a : Account} (ha : a ∈ plainDb.accounts.rows)
    (h : LocallyNamed plainSite (accountUri "our.example" alice) a) : a = alice := by
  obtain ⟨path, hpath, hnamed⟩ := h
  obtain rfl := Option.some.inj (localPath_alice.symm.trans hpath)
  obtain rfl | rfl : a = alice ∨ a = bob := by simpa [plainDb] using ha
  · rfl
  · exact absurd hnamed (by decide +kernel)

theorem names_one_iff_stored_alice :
    NamesOne plainSite plainDb (accountUri "our.example" alice) := by
  refine (names_one_iff_stored plain_apart _).mpr ⟨?_, ?_, ?_, ?_, ?_⟩
  · intro a ha hnamed
    obtain rfl := eq_alice_of_locallyNamed ha hnamed.2.locallyNamed
    decide +kernel
  · intro a ha b hb _ _ hnamed huri
    obtain rfl := eq_alice_of_locallyNamed ha hnamed
    exact eq_of_uri ha hb (by decide +kernel) huri
  · intro a ha b hb _ _ hca huri
    exact eq_of_uri ha hb hca huri
  · rintro s _ _ _ ⟨path, hpath, hid⟩
    obtain rfl := Option.some.inj (localPath_alice.symm.trans hpath)
    cases hid
  · intro s hs t ht _ _ _ _ _
    obtain rfl : s = hello := by simpa [plainDb] using hs
    obtain rfl : t = hello := by simpa [plainDb] using ht
    rfl

/-- Bob is followed under his own IRI, and a Block of him is dropped. -/
theorem block_of_followed_dropped :
    ¬ NamesOne plainSite plainDb (accountUri "our.example" bob) := by
  intro h
  have hfollow : Resolves plainSite plainDb (accountUri "our.example" bob) .follow bob := by
    decide +kernel
  have haccount : Resolves plainSite plainDb (accountUri "our.example" bob) .localUri bob := by
    decide +kernel
  exact absurd (h.alike bob hfollow haccount .block) (by decide +kernel)

end Examples

end Eunha.LocalActors
