import Eunha.OAuth

/-!
# Codes and tokens reach their application only

An authorization code is exchanged once, by one that shows the secret of the application it
was granted to and the redirect URI it was granted for, and codes go only to redirect URIs
that the application was registered with. That is so in every interleaving in which no
request for the Elk web client makes an application redirect elsewhere, and none exchanges a
code: the callback asks for neither secret nor redirect URI, nor whether the user is enabled,
and sends the token where its path says.
-/
namespace Eunha.OAuth
open Tables Interleaving Runs

/-! ### What is asked of codes and tokens -/

def SameUri (env : Env) (uri given : String) : Prop :=
  uri = given ∨ ∃ u r, env.parse uri = some u ∧ env.parse given = some r ∧
    u.scheme = r.scheme ∧ u.rest = r.rest

def Gave (env : Env) (app : Application) (uri : String) : Prop :=
  ∃ given ∈ splitWhitespace app.redirectUri, SameUri env uri given

def Within (scopes : String) (app : Application) : Prop :=
  ∀ scope ∈ scopesOf scopes, scope ∈ scopesOf app.registeredScopes

/-- A token issued to the application on its secret, for a code granted to it on the redirect
URI of the code, of a user who is enabled. -/
structure Rightful (env : Env) (log : List Fact) (app : Application) (i : Issue) : Prop where
  secret : i.secret = some app.secret
  scopes : Within i.token.scopes app
  grant : ∀ g, i.grant = some g → .granted g ∈ log ∧ g.applicationId = app.id ∧
    (∃ uri, i.redirectUri = some uri ∧ SameUri env uri g.redirectUri) ∧ i.enabled = true

/-- The codes tokens were issued for. -/
def exchanged (log : List Fact) : List String :=
  log.filterMap fun
    | .issued i => i.grant.map Grant.token
    | _ => none

structure Confined (env : Env) (log : List Fact) : Prop where
  once : (exchanged log).Nodup
  registeredOnce : ∀ a b, .registered a ∈ log → .registered b ∈ log → a.id = b.id → a = b
  issued : ∀ i, .issued i ∈ log → ∃ app, .registered app ∈ log ∧
    app.id = i.token.applicationId ∧ Rightful env log app i
  granted : ∀ g, .granted g ∈ log → ∃ app, .registered app ∈ log ∧ app.id = g.applicationId ∧
    Gave env app g.redirectUri ∧ Within (g.scopes.getD "read") app
  sent : ∀ token destination, .sent token destination ∈ log → ∃ app, .registered app ∈ log ∧
    app.id = token.applicationId ∧ Gave env app destination

/-! ### The condition -/

def grantedCodes (log : List Fact) : List String :=
  log.filterMap fun
    | .granted g => some g.token
    | _ => none

def Careful (s : Store) (w : Answer) : Phase → Prop
  | .elkFind redirectUri =>
      w.fails = true ∨ ∀ app ∈ findElk s w.pick, app.redirectUri = redirectUri
  | .callbackInsert .. => w.fails = true
  | .grantInsert .. => w.fails = true ∨ w.drawnToken ∉ grantedCodes s.log
  | _ => True

instance (s : Store) (w : Answer) (call : Phase) : Decidable (Careful s w call) :=
  match call with
  | .registerInsert .. | .elkUpdate .. | .elkInsert _ | .grantFind _ | .tokenFind _
  | .tokenIssuedFor .. | .tokenTake .. | .tokenUser .. | .tokenInsert .. | .callbackFind ..
  | .callbackTake .. | .callbackUser .. => inferInstanceAs (Decidable True)
  | .elkFind redirectUri => inferInstanceAs
      (Decidable (w.fails = true ∨ ∀ app ∈ findElk s w.pick, app.redirectUri = redirectUri))
  | .callbackInsert .. => inferInstanceAs (Decidable (w.fails = true))
  | .grantInsert .. =>
      inferInstanceAs (Decidable (w.fails = true ∨ w.drawnToken ∉ grantedCodes s.log))

def guards : Guards Store Phase Request Answer :=
  ⟨fun _ _ _ => True, fun s call _ w => Careful s w call⟩

instance (c : Config Store Phase) (event : Event Request Answer) :
    Decidable (guards.meets c event) :=
  match event with
  | .request _ => inferInstanceAs (Decidable True)
  | .advance k w =>
      match h : c.calls[k]? with
      | none => isTrue (by simp only [Guards.meets, h])
      | some call => decidable_of_iff (Careful c.store w call)
          (by simp only [Guards.meets, h, guards])

/-! ### The checks -/

theorem sameUri_of_matches {env : Env} {url registered : String}
    (h : redirectUriMatches env url registered = true) : SameUri env url registered := by
  unfold redirectUriMatches at h
  split at h
  next heq => exact .inl heq
  next =>
    split at h
    next u r hu hr =>
      refine .inr ⟨u, r, hu, hr, ?_⟩
      split at h
      · split at h
        · cases h
        · simpa using h
      · obtain ⟨scheme, rest, query⟩ := r
        simp only [decide_eq_true_eq, Url.mk.injEq] at h
        exact ⟨h.1, h.2.1⟩
    next => cases h

theorem gave_of_allowed {env : Env} {app : Application} {uri : String}
    (h : redirectUriAllowed env uri app.redirectUri = true) : Gave env app uri := by
  unfold redirectUriAllowed at h
  dsimp only at h
  rw [Bool.and_eq_true, List.any_eq_true] at h
  obtain ⟨-, given, hgiven, hmatches⟩ := h
  exact ⟨given, hgiven, sameUri_of_matches hmatches⟩

theorem within_of_subset {app : Application} {scopes : String}
    (h : scopeIsSubset scopes app.registeredScopes = true) : Within scopes app := by
  simpa [scopeIsSubset, Within] using h

/-! ### The invariant -/

def Phase.grant? : Phase → Option Grant
  | .tokenUser _ _ g => some g
  | .tokenInsert _ _ g _ => g
  | .callbackUser _ _ g => some g
  | .callbackInsert _ _ g _ => some g
  | _ => none

def held (calls : List Phase) : List Grant := calls.filterMap Phase.grant?

def Checked (env : Env) (log : List Fact) : Phase → Prop
  | .elkUpdate .. => False
  | .grantInsert form app scopes => .registered app ∈ log ∧ Gave env app form.redirectUri ∧
      Within scopes app
  | .tokenIssuedFor form app _ => .registered app ∈ log ∧ app.secret = form.clientSecret
  | .tokenTake form app code => .registered app ∈ log ∧ app.secret = form.clientSecret ∧
      ∃ g, .granted g ∈ log ∧ g.token = code ∧
        ∃ uri, form.redirectUri = some uri ∧ SameUri env uri g.redirectUri
  | .tokenUser form app g => .registered app ∈ log ∧ app.secret = form.clientSecret ∧
      g.applicationId = app.id ∧ ∃ uri, form.redirectUri = some uri ∧ SameUri env uri g.redirectUri
  | .tokenInsert form app grant enabled => .registered app ∈ log ∧
      app.secret = form.clientSecret ∧ ∀ g, grant = some g → g.applicationId = app.id ∧
        (∃ uri, form.redirectUri = some uri ∧ SameUri env uri g.redirectUri) ∧ enabled = true
  | _ => True

structure Inv (env : Env) (s : Store) (calls : List Phase) : Prop where
  confined : Confined env s.log
  applications : ∀ a ∈ s.applications.rows, .registered a ∈ s.log
  below : ∀ a, .registered a ∈ s.log → a.id < s.nextApplication
  grants : ∀ g ∈ s.grants.rows, .granted g ∈ s.log ∧ g.token ∉ exchanged s.log
  held : ∀ g ∈ held calls, .granted g ∈ s.log ∧ g.token ∉ exchanged s.log ∧
    ∀ r ∈ s.grants.rows, r.token ≠ g.token
  heldOnce : ((OAuth.held calls).map Grant.token).Nodup
  codes : ∀ g g', .granted g ∈ s.log → .granted g' ∈ s.log → g.token = g'.token → g = g'
  checked : ∀ call ∈ calls, Checked env s.log call

variable {env : Env} {s : Store} {calls : List Phase} {call : Phase}

theorem Checked.mono {log log' : List Fact} (hsub : ∀ f ∈ log, f ∈ log')
    (h : Checked env log call) : Checked env log' call := by
  cases call with
  | elkUpdate redirectUri app => exact h
  | grantInsert form app scopes => exact ⟨hsub _ h.1, h.2⟩
  | tokenIssuedFor form app code => exact ⟨hsub _ h.1, h.2⟩
  | tokenTake form app code =>
      obtain ⟨happ, hsecret, g, hg, hrest⟩ := h
      exact ⟨hsub _ happ, hsecret, g, hsub _ hg, hrest⟩
  | tokenUser form app g => exact ⟨hsub _ h.1, h.2⟩
  | tokenInsert form app g enabled => exact ⟨hsub _ h.1, h.2⟩
  | _ => trivial

theorem Inv.perm {calls' : List Phase} (hperm : calls.Perm calls') (h : Inv env s calls) :
    Inv env s calls' := by
  have hheld : (OAuth.held calls).Perm (OAuth.held calls') := hperm.filterMap _
  exact
    { h with
      held := fun g hg => h.held g (hheld.mem_iff.mpr hg)
      heldOnce := (hheld.map _).nodup_iff.mp h.heldOnce
      checked := fun c hc => h.checked c (hperm.mem_iff.mpr hc) }

theorem held_cons (call : Phase) (calls : List Phase) :
    held (call :: calls) = call.grant?.toList ++ held calls := by
  rw [held, List.filterMap_cons]
  cases call.grant? <;> rfl

theorem held_append (next : Option Phase) (calls : List Phase) :
    held (next.toList ++ calls) = (next.bind Phase.grant?).toList ++ held calls := by
  cases next with
  | none => rfl
  | some c => exact held_cons c calls

/-- The request goes on, or is over, and the store stays as it is. -/
theorem Inv.goOn (h : Inv env s (call :: calls)) {n : Option Phase}
    (hgrant : ∀ c, n = some c → c.grant? = none ∨ c.grant? = call.grant?)
    (hchecked : ∀ c, n = some c → Checked env s.log c) : Inv env s (n.toList ++ calls) := by
  have hsub : (OAuth.held (n.toList ++ calls)).Sublist (OAuth.held (call :: calls)) := by
    rw [held_append, held_cons]
    refine List.Sublist.append_right ?_ _
    cases n with
    | none => exact List.nil_sublist _
    | some c =>
        rcases hgrant c rfl with hnone | hsame
        · simp [hnone]
        · simp [hsame]
  refine { h with held := fun g hg => h.held g (hsub.subset hg), heldOnce := ?_, checked := ?_ }
  · exact h.heldOnce.sublist (hsub.map _)
  · intro c hc
    rcases List.mem_append.mp hc with hc | hc
    · exact hchecked c (by simpa using hc)
    · exact h.checked c (List.mem_cons_of_mem _ hc)

theorem Inv.drop (h : Inv env s (call :: calls)) : Inv env s calls :=
  h.goOn (n := none) (fun _ hc => nomatch hc) (fun _ hc => nomatch hc)

/-! ### What is written -/

theorem exchanged_append (log facts : List Fact) :
    exchanged (log ++ facts) = exchanged log ++ exchanged facts := List.filterMap_append

theorem mem_exchanged {log : List Fact} {code : String} :
    code ∈ exchanged log ↔ ∃ i, .issued i ∈ log ∧ ∃ g, i.grant = some g ∧ g.token = code := by
  simp only [exchanged, List.mem_filterMap]
  constructor
  · rintro ⟨f, hf, hcode⟩
    cases f with
    | issued i => exact ⟨i, hf, Option.map_eq_some_iff.mp hcode⟩
    | _ => cases hcode
  · rintro ⟨i, hi, hg⟩
    exact ⟨.issued i, hi, Option.map_eq_some_iff.mpr hg⟩

theorem granted_of_exchanged {log : List Fact} (h : Confined env log) {code : String}
    (hcode : code ∈ exchanged log) : ∃ g, .granted g ∈ log ∧ g.token = code := by
  obtain ⟨i, hi, g, hg, htoken⟩ := mem_exchanged.mp hcode
  obtain ⟨app, -, -, hrightful⟩ := h.issued i hi
  exact ⟨g, (hrightful.grant g hg).1, htoken⟩

theorem Rightful.mono {log log' : List Fact} (hsub : ∀ f ∈ log, f ∈ log') {app : Application}
    {i : Issue} (h : Rightful env log app i) : Rightful env log' app i :=
  ⟨h.secret, h.scopes, fun g hg => ⟨hsub _ (h.grant g hg).1, (h.grant g hg).2⟩⟩

theorem mem_append_singleton {log : List Fact} {f f' : Fact} :
    f ∈ log ++ [f'] ↔ f ∈ log ∨ f = f' := by simp

theorem Confined.registered {log : List Fact} (h : Confined env log) {app : Application}
    (hnew : ∀ a, .registered a ∈ log → a.id ≠ app.id) :
    Confined env (log ++ [.registered app]) := by
  have hsub : ∀ f ∈ log, f ∈ log ++ [.registered app] := fun f => List.mem_append_left _
  refine ⟨?_, ?_, ?_, ?_, ?_⟩
  · rw [exchanged_append]
    simpa [exchanged] using h.once
  · intro a b ha hb hid
    simp only [mem_append_singleton, Fact.registered.injEq] at ha hb
    rcases ha with ha | rfl <;> rcases hb with hb | rfl
    · exact h.registeredOnce a b ha hb hid
    · exact absurd hid (hnew a ha)
    · exact absurd hid.symm (hnew b hb)
    · rfl
  · intro i hi
    obtain ⟨a, ha, hid, hrightful⟩ := h.issued i (by simpa using hi)
    exact ⟨a, hsub _ ha, hid, hrightful.mono hsub⟩
  · intro g hg
    obtain ⟨a, ha, hrest⟩ := h.granted g (by simpa using hg)
    exact ⟨a, hsub _ ha, hrest⟩
  · intro token destination hsent
    obtain ⟨a, ha, hrest⟩ := h.sent token destination (by simpa using hsent)
    exact ⟨a, hsub _ ha, hrest⟩

theorem Inv.register (h : Inv env s calls) {app : Application} (hid : app.id = s.nextApplication)
    {s' : Store} (hinsert : insertApplication s app = some s') : Inv env s' calls := by
  obtain ⟨applications, hrows, rfl⟩ := Option.map_eq_some_iff.mp hinsert
  have hsub : ∀ f ∈ s.log, f ∈ s.log ++ [.registered app] := fun f => List.mem_append_left _
  have hexchanged : exchanged (s.log ++ [.registered app]) = exchanged s.log := by
    rw [exchanged_append]
    simp [exchanged]
  refine ⟨?_, ?_, ?_, ?_, ?_, h.heldOnce, ?_, ?_⟩
  · refine h.confined.registered fun a ha => ?_
    rw [hid]
    exact Nat.ne_of_lt (h.below a ha)
  · intro a (ha : a ∈ applications.rows)
    rw [Table.rows_insert? hrows, List.mem_append] at ha
    rcases ha with ha | ha
    · exact hsub _ (h.applications a ha)
    · rw [List.mem_singleton.mp ha]
      exact mem_append_singleton.mpr (.inr rfl)
  · intro a ha
    simp only [Store.note, mem_append_singleton, Fact.registered.injEq] at ha ⊢
    rcases ha with ha | rfl
    · exact Nat.lt_succ_of_lt (h.below a ha)
    · omega
  · intro g hg
    exact ⟨hsub _ (h.grants g hg).1, hexchanged ▸ (h.grants g hg).2⟩
  · intro g hg
    exact ⟨hsub _ (h.held g hg).1, hexchanged ▸ (h.held g hg).2.1, (h.held g hg).2.2⟩
  · intro g g' hg hg' htoken
    exact h.codes g g' (by simpa [Store.note] using hg) (by simpa [Store.note] using hg') htoken
  · exact fun c hc => (h.checked c hc).mono hsub

theorem Inv.grantCode (h : Inv env s calls) {g : Grant} {app : Application}
    (happ : .registered app ∈ s.log) (hid : app.id = g.applicationId)
    (hgave : Gave env app g.redirectUri) (hwithin : Within (g.scopes.getD "read") app)
    (hnew : g.token ∉ grantedCodes s.log) {s' : Store}
    (hinsert : insertGrant s g = some s') : Inv env s' calls := by
  have hfresh : ∀ g', .granted g' ∈ s.log → g'.token ≠ g.token := fun g' hg' heq =>
    hnew (List.mem_filterMap.mpr ⟨.granted g', hg', congrArg some heq⟩)
  obtain ⟨grants, hrows, rfl⟩ := Option.map_eq_some_iff.mp hinsert
  have hsub : ∀ f ∈ s.log, f ∈ s.log ++ [.granted g] := fun f => List.mem_append_left _
  have hexchanged : exchanged (s.log ++ [.granted g]) = exchanged s.log := by
    rw [exchanged_append]
    simp [exchanged]
  have hrows' : grants.rows = s.grants.rows ++ [g] := Table.rows_insert? hrows
  refine ⟨⟨?_, ?_, ?_, ?_, ?_⟩, ?_, ?_, ?_, ?_, h.heldOnce, ?_, ?_⟩
  · exact hexchanged ▸ h.confined.once
  · intro a b ha hb
    exact h.confined.registeredOnce a b (by simpa [Store.note] using ha)
      (by simpa [Store.note] using hb)
  · intro i hi
    obtain ⟨a, ha, haid, hrightful⟩ := h.confined.issued i (by simpa [Store.note] using hi)
    exact ⟨a, hsub _ ha, haid, hrightful.mono hsub⟩
  · intro g' hg'
    rcases mem_append_singleton.mp hg' with hg' | heq
    · obtain ⟨a, ha, hrest⟩ := h.confined.granted g' hg'
      exact ⟨a, hsub _ ha, hrest⟩
    · obtain rfl := Fact.granted.inj heq
      exact ⟨app, hsub _ happ, hid, hgave, hwithin⟩
  · intro token destination hsent
    obtain ⟨a, ha, hrest⟩ := h.confined.sent token destination (by simpa [Store.note] using hsent)
    exact ⟨a, hsub _ ha, hrest⟩
  · exact fun a ha => hsub _ (h.applications a ha)
  · exact fun a ha => h.below a (by simpa [Store.note] using ha)
  · intro g' (hg' : g' ∈ grants.rows)
    rw [hrows', List.mem_append, List.mem_singleton] at hg'
    rcases hg' with hg' | rfl
    · exact ⟨hsub _ (h.grants g' hg').1, hexchanged ▸ (h.grants g' hg').2⟩
    · refine ⟨mem_append_singleton.mpr (.inr rfl), ?_⟩
      intro hmem
      obtain ⟨g, hg, htoken⟩ := granted_of_exchanged h.confined (hexchanged ▸ hmem)
      exact hfresh g hg htoken
  · intro g' hg'
    obtain ⟨hgranted, hnot, hapart⟩ := h.held g' hg'
    refine ⟨hsub _ hgranted, hexchanged ▸ hnot, fun r (hr : r ∈ grants.rows) => ?_⟩
    rw [hrows', List.mem_append, List.mem_singleton] at hr
    rcases hr with hr | rfl
    · exact hapart r hr
    · exact (hfresh g' hgranted).symm
  · intro g₁ g₂ hg₁ hg₂ htoken
    simp only [Store.note, mem_append_singleton, Fact.granted.injEq] at hg₁ hg₂
    rcases hg₁ with hg₁ | rfl <;> rcases hg₂ with hg₂ | rfl
    · exact h.codes g₁ g₂ hg₁ hg₂ htoken
    · exact absurd htoken (hfresh g₁ hg₁)
    · exact absurd htoken.symm (hfresh g₂ hg₂)
    · rfl
  · exact fun c hc => (h.checked c hc).mono hsub

theorem takeGrant_spec {code : String} {applicationId : ℕ} {g : Grant}
    (h : (takeGrant s code applicationId).2 = some g) :
    g ∈ s.grants.rows ∧ g.token = code ∧ g.applicationId = applicationId := by
  have htakes := List.find?_some h
  simp only [takes, Bool.and_eq_true, decide_eq_true_eq] at htakes
  exact ⟨List.mem_of_find?_eq_some h, htakes.1.1, htakes.1.2⟩

theorem Inv.takeCode (h : Inv env s (call :: calls)) {code : String} {applicationId : ℕ}
    {next : Grant → Phase} (hgrant : ∀ g, (next g).grant? = some g)
    (hchecked : ∀ g, .granted g ∈ s.log → g.token = code → g.applicationId = applicationId →
      Checked env s.log (next g)) :
    Inv env (takeGrant s code applicationId).1
      (((takeGrant s code applicationId).2.map next).toList ++ calls) := by
  have hsub : ∀ r ∈ (takeGrant s code applicationId).1.grants.rows, r ∈ s.grants.rows :=
    fun r hr => (Table.mem_deleteWhere.mp hr).1
  have hrest : Inv env (takeGrant s code applicationId).1 calls :=
    { h.drop with
      grants := fun r hr => h.drop.grants r (hsub r hr)
      held := fun g hg =>
        ⟨(h.drop.held g hg).1, (h.drop.held g hg).2.1,
          fun r hr => (h.drop.held g hg).2.2 r (hsub r hr)⟩ }
  cases htake : (takeGrant s code applicationId).2 with
  | none => exact hrest
  | some g =>
      obtain ⟨hg, htoken, hid⟩ := takeGrant_spec htake
      obtain ⟨hgranted, hnot⟩ := h.grants g hg
      have hheld : OAuth.held ((Option.map next (some g)).toList ++ calls) =
          g :: OAuth.held calls := by
        rw [held_append, Option.map_some, Option.bind_some, hgrant]
        rfl
      refine { hrest with held := ?_, heldOnce := ?_, checked := ?_ }
      · intro g' hg'
        rw [hheld] at hg'
        rcases List.mem_cons.mp hg' with rfl | hg'
        · refine ⟨hgranted, hnot, fun r hr heq => ?_⟩
          obtain ⟨hr, hkept⟩ := Table.mem_deleteWhere.mp hr
          obtain rfl := s.grants.eq_of_key hr hg (List.mem_singleton_self _)
            (heq ▸ List.mem_singleton_self _)
          rw [List.find?_some htake] at hkept
          cases hkept
        · exact hrest.held g' hg'
      · rw [hheld, List.map_cons, List.nodup_cons]
        refine ⟨fun hmem => ?_, hrest.heldOnce⟩
        obtain ⟨g', hg', heq⟩ := List.mem_map.mp hmem
        exact (h.drop.held g' hg').2.2 g hg heq.symm
      · intro c hc
        rcases List.mem_cons.mp hc with rfl | hc
        · exact hchecked g hgranted htoken hid
        · exact hrest.checked c hc

theorem Inv.issue (h : Inv env s (call :: calls)) {i : Issue} {app : Application}
    (happ : .registered app ∈ s.log) (hid : app.id = i.token.applicationId)
    (hgrant : call.grant? = i.grant) (hrightful : Rightful env s.log app i) {s' : Store}
    (hinsert : insertToken s i = some s') : Inv env s' calls := by
  obtain ⟨tokens, -, rfl⟩ := Option.map_eq_some_iff.mp hinsert
  have hsub : ∀ f ∈ s.log, f ∈ s.log ++ [.issued i] := fun f => List.mem_append_left _
  have hexchanged : exchanged (s.log ++ [.issued i]) =
      exchanged s.log ++ (i.grant.map Grant.token).toList := by
    rw [exchanged_append]
    cases hg : i.grant <;> simp [exchanged, hg]
  have hheld (g : Grant) (hg : i.grant = some g) : g ∈ OAuth.held (call :: calls) := by
    rw [held_cons, hgrant, hg]
    exact List.mem_append_left _ (List.mem_singleton_self g)
  -- A code that is not this request's own is exchanged no more than before.
  have hother {code : String} (hnot : code ∉ exchanged s.log)
      (hne : ∀ g, i.grant = some g → g.token ≠ code) : code ∉ exchanged (s.log ++ [.issued i]) := by
    rw [hexchanged, List.mem_append, not_or]
    refine ⟨hnot, fun hmem => ?_⟩
    obtain ⟨g, hg, rfl⟩ := Option.map_eq_some_iff.mp (Option.mem_toList.mp hmem)
    exact hne g hg rfl
  refine ⟨⟨?_, ?_, ?_, ?_, ?_⟩, ?_, ?_, ?_, ?_, h.drop.heldOnce, ?_, ?_⟩
  · change (exchanged (s.log ++ [.issued i])).Nodup
    rw [hexchanged, List.nodup_append]
    refine ⟨h.confined.once, ?_, ?_⟩
    · cases i.grant <;> simp
    · rintro code hcode _ hmem rfl
      obtain ⟨g, hg, rfl⟩ := Option.map_eq_some_iff.mp (Option.mem_toList.mp hmem)
      exact (h.held g (hheld g hg)).2.1 hcode
  · intro a b ha hb
    exact h.confined.registeredOnce a b (by simpa [Store.note] using ha)
      (by simpa [Store.note] using hb)
  · intro i' hi'
    rcases mem_append_singleton.mp hi' with hi' | heq
    · obtain ⟨a, ha, haid, hright⟩ := h.confined.issued i' hi'
      exact ⟨a, hsub _ ha, haid, hright.mono hsub⟩
    · obtain rfl := Fact.issued.inj heq
      exact ⟨app, hsub _ happ, hid, hrightful.mono hsub⟩
  · intro g hg
    obtain ⟨a, ha, hrest⟩ := h.confined.granted g (by simpa [Store.note] using hg)
    exact ⟨a, hsub _ ha, hrest⟩
  · intro token destination hsent
    obtain ⟨a, ha, hrest⟩ := h.confined.sent token destination (by simpa [Store.note] using hsent)
    exact ⟨a, hsub _ ha, hrest⟩
  · exact fun a ha => hsub _ (h.applications a ha)
  · exact fun a ha => h.below a (by simpa [Store.note] using ha)
  · intro r hr
    refine ⟨hsub _ (h.grants r hr).1, hother (h.grants r hr).2 fun g hg heq => ?_⟩
    exact (h.held g (hheld g hg)).2.2 r hr heq.symm
  · intro g hg
    obtain ⟨hgranted, hnot, hapart⟩ := h.drop.held g hg
    refine ⟨hsub _ hgranted, hother hnot fun g' hg' heq => ?_, hapart⟩
    have honce := h.heldOnce
    rw [held_cons, hgrant, hg'] at honce
    exact (List.nodup_cons.mp honce).1 (heq ▸ List.mem_map_of_mem hg)
  · intro g g' hg hg' htoken
    exact h.codes g g' (by simpa [Store.note] using hg) (by simpa [Store.note] using hg') htoken
  · exact fun c hc => (h.drop.checked c hc).mono hsub

/-! ### Every statement -/

theorem registered_of_findByUid (h : Inv env s calls) {uid : String} {app : Application}
    (hfind : findByUid s uid = some app) : .registered app ∈ s.log :=
  h.applications app (List.mem_of_find?_eq_some hfind)

theorem Inv.conclude (h : Inv env s calls) {s' : Option Store}
    (hs' : ∀ t, s' = some t → Inv env t calls) :
    Inv env (conclude s s').1 ((OAuth.conclude s s').2.toList ++ calls) := by
  cases s' with
  | none => exact h
  | some t => exact hs' t rfl

theorem inv_grantFind {form : GrantRequest} {w : Answer}
    (h : Inv env s (.grantFind form :: calls)) (hw : w.fails = false) :
    Inv env (exec env s (.grantFind form) w).1
      ((exec env s (.grantFind form) w).2.toList ++ calls) := by
  simp only [exec, hw, Bool.false_eq_true, if_false]
  split
  · exact h.drop
  next app hfind =>
    split
    next hallowed =>
      rw [Bool.and_eq_true] at hallowed
      refine h.goOn ?_ ?_
      · rintro c ⟨⟩
        exact .inl rfl
      · rintro c ⟨⟩
        exact ⟨registered_of_findByUid h hfind, gave_of_allowed hallowed.1,
          within_of_subset hallowed.2⟩
    · exact h.drop

theorem inv_tokenFind {form : TokenRequest} {w : Answer}
    (h : Inv env s (.tokenFind form :: calls)) (hw : w.fails = false) :
    Inv env (exec env s (.tokenFind form) w).1
      ((exec env s (.tokenFind form) w).2.toList ++ calls) := by
  simp only [exec, hw, Bool.false_eq_true, if_false]
  split
  · exact h.drop
  next app hfind =>
    have happ := registered_of_findByUid h hfind
    split
    · exact h.drop
    next hsecret =>
      rw [not_not] at hsecret
      split
      · refine h.goOn ?_ ?_
        · rintro c ⟨⟩
          exact .inl rfl
        · rintro c ⟨⟩
          exact ⟨happ, hsecret, fun _ hg => nomatch hg⟩
      · refine h.goOn ?_ ?_
        · intro c hc
          obtain ⟨code, -, rfl⟩ := Option.map_eq_some_iff.mp hc
          exact .inl rfl
        · intro c hc
          obtain ⟨code, -, rfl⟩ := Option.map_eq_some_iff.mp hc
          exact ⟨happ, hsecret⟩

theorem inv_tokenIssuedFor {form : TokenRequest} {app : Application} {code : String} {w : Answer}
    (h : Inv env s (.tokenIssuedFor form app code :: calls)) (hw : w.fails = false) :
    Inv env (exec env s (.tokenIssuedFor form app code) w).1
      ((exec env s (.tokenIssuedFor form app code) w).2.toList ++ calls) := by
  simp only [exec, hw, Bool.false_eq_true, if_false]
  obtain ⟨happ, hsecret⟩ := h.checked _ (List.mem_cons_self ..)
  split
  · exact h.drop
  next uri hfind =>
    split
    next hmatches =>
      refine h.goOn ?_ ?_
      · rintro c ⟨⟩
        exact .inl rfl
      · rintro c ⟨⟩
        obtain ⟨g, hg, rfl⟩ := Option.map_eq_some_iff.mp hfind
        obtain ⟨presented, hpresented, hsame⟩ := Option.any_eq_true _ _ |>.mp hmatches
        have hcode := List.find?_some hg
        simp only [Bool.and_eq_true, decide_eq_true_eq] at hcode
        exact ⟨happ, hsecret, g, (h.grants g (List.mem_of_find?_eq_some hg)).1, hcode.1.1.1,
          presented, hpresented, sameUri_of_matches hsame⟩
    · exact h.drop

theorem inv_tokenUser {form : TokenRequest} {app : Application} {g : Grant} {w : Answer}
    (h : Inv env s (.tokenUser form app g :: calls)) (hw : w.fails = false) :
    Inv env (exec env s (.tokenUser form app g) w).1
      ((exec env s (.tokenUser form app g) w).2.toList ++ calls) := by
  simp only [exec, hw, Bool.false_eq_true, if_false]
  obtain ⟨happ, hsecret, hid, huri⟩ := h.checked _ (List.mem_cons_self ..)
  split
  · exact h.drop
  next user hfind =>
    have henabled : s.isEnabled g.resourceOwnerId = true := by
      have huser := List.find?_some hfind
      rw [Store.isEnabled, List.any_eq_true]
      exact ⟨user, List.mem_of_find?_eq_some hfind, huser⟩
    refine h.goOn ?_ ?_
    · rintro c ⟨⟩
      exact .inr rfl
    · rintro c ⟨⟩
      refine ⟨happ, hsecret, fun g' hg' => ?_⟩
      obtain rfl := Option.some.inj hg'
      exact ⟨hid, huri, henabled⟩

theorem inv_tokenInsert {form : TokenRequest} {app : Application} {grant : Option Grant}
    {enabled : Bool} {w : Answer}
    (h : Inv env s (.tokenInsert form app grant enabled :: calls)) (hw : w.fails = false) :
    Inv env (exec env s (.tokenInsert form app grant enabled) w).1
      ((exec env s (.tokenInsert form app grant enabled) w).2.toList ++ calls) := by
  simp only [exec, hw, Bool.false_eq_true, if_false]
  obtain ⟨happ, hsecret, hgrant⟩ := h.checked _ (List.mem_cons_self ..)
  refine h.drop.conclude fun t ht => h.issue happ rfl rfl ⟨by rw [hsecret], ?_, ?_⟩ ht
  · cases grant with
    | none => exact fun scope hscope => hscope
    | some g =>
        have hheld : g ∈ OAuth.held (.tokenInsert form app (some g) enabled :: calls) := by
          rw [held_cons]
          exact List.mem_cons_self ..
        obtain ⟨a, ha, hid, -, hwithin⟩ := h.confined.granted g (h.held g hheld).1
        obtain rfl := h.confined.registeredOnce a app ha happ (hid.trans (hgrant g rfl).1)
        exact hwithin
  · rintro g rfl
    have hheld : g ∈ OAuth.held (.tokenInsert form app (some g) enabled :: calls) := by
      rw [held_cons]
      exact List.mem_cons_self ..
    exact ⟨(h.held g hheld).1, hgrant g rfl⟩

theorem inv_exec {w : Answer} (h : Inv env s (call :: calls)) (hcareful : Careful s w call) :
    Inv env (exec env s call w).1 ((exec env s call w).2.toList ++ calls) := by
  by_cases hfails : w.fails = true
  · simp only [exec, hfails, if_true]
    exact h.drop
  have hw : w.fails = false := by simpa using hfails
  have hchecked := h.checked call (List.mem_cons_self ..)
  cases call with
  | registerInsert form redirectUris scopes =>
      simp only [exec, hw, Bool.false_eq_true, if_false]
      exact h.drop.conclude fun t ht => h.drop.register rfl ht
  | elkFind redirectUri =>
      simp only [exec, hw, Bool.false_eq_true, if_false]
      split
      · refine h.goOn ?_ ?_
        · rintro c ⟨⟩
          exact .inl rfl
        · rintro c ⟨⟩
          trivial
      next app hfind =>
        rw [if_pos (hcareful.resolve_left hfails app hfind)]
        exact h.drop
  | elkUpdate redirectUri app => exact hchecked.elim
  | elkInsert redirectUri =>
      simp only [exec, hw, Bool.false_eq_true, if_false]
      exact h.drop.conclude fun t ht => h.drop.register rfl ht
  | grantFind form => exact inv_grantFind h hw
  | grantInsert form app scopes =>
      obtain ⟨happ, hgave, hwithin⟩ := hchecked
      simp only [exec, hw, Bool.false_eq_true, if_false]
      refine h.drop.conclude fun t ht => ?_
      refine h.drop.grantCode (g := ⟨app.id, form.userId, w.drawnToken, form.redirectUri,
        some scopes, 600, s.now, false⟩) happ rfl hgave hwithin (hcareful.resolve_left hfails) ht
  | tokenFind form => exact inv_tokenFind h hw
  | tokenIssuedFor form app code => exact inv_tokenIssuedFor h hw
  | tokenTake form app code =>
      obtain ⟨happ, hsecret, g, hg, htoken, huri⟩ := hchecked
      simp only [exec, hw, Bool.false_eq_true, if_false]
      refine h.takeCode (fun _ => rfl) fun g' hg' htoken' hid => ⟨happ, hsecret, hid, ?_⟩
      rw [h.codes g' g hg' hg (htoken'.trans htoken.symm)]
      exact huri
  | tokenUser form app g => exact inv_tokenUser h hw
  | tokenInsert form app grant enabled => exact inv_tokenInsert h hw
  | callbackFind origin code =>
      simp only [exec, hw, Bool.false_eq_true, if_false]
      refine h.goOn ?_ ?_
      · intro c hc
        obtain ⟨app, -, rfl⟩ := Option.map_eq_some_iff.mp hc
        exact .inl rfl
      · intro c hc
        obtain ⟨app, -, rfl⟩ := Option.map_eq_some_iff.mp hc
        trivial
  | callbackTake origin code app =>
      simp only [exec, hw, Bool.false_eq_true, if_false]
      exact h.takeCode (fun _ => rfl) fun _ _ _ _ => trivial
  | callbackUser origin app g =>
      simp only [exec, hw, Bool.false_eq_true, if_false]
      split
      · exact h.drop
      · refine h.goOn ?_ ?_
        · rintro c ⟨⟩
          exact .inr rfl
        · rintro c ⟨⟩
          trivial
  | callbackInsert origin app g enabled => exact absurd hcareful hfails

theorem inv_enter (r : Request) (h : Inv env s calls) :
    Inv env (enter env s r).1 ((enter env s r).2.toList ++ calls) := by
  have hadd {next : Phase} (hgrant : next.grant? = none) (hchecked : Checked env s.log next) :
      Inv env s (next :: calls) := by
    have hheld : OAuth.held (next :: calls) = OAuth.held calls := by
      rw [held_cons, hgrant]
      rfl
    refine { h with held := hheld ▸ h.held, heldOnce := hheld ▸ h.heldOnce, checked := ?_ }
    intro c hc
    rcases List.mem_cons.mp hc with rfl | hc
    · exact hchecked
    · exact h.checked c hc
  cases r with
  | registerApp form =>
      simp only [enter]
      split
      · exact hadd rfl trivial
      · exact h
  | elkLogin origin => exact hadd rfl trivial
  | issueGrant form => exact hadd rfl trivial
  | issueToken form =>
      simp only [enter]
      split
      · exact hadd rfl trivial
      · exact h
  | elkOauthCallback encodedOrigin code =>
      cases code with
      | none => exact h
      | some code => exact hadd rfl trivial
  | setDisabled userId disabled => exact { h with }
  | wait seconds => exact { h with }

theorem invariant (env : Env) : GuardedInvariant (machine env) (Inv env) guards :=
  ⟨Inv.perm, fun r h _ => inv_enter r h, fun _ h hcareful => inv_exec h hcareful⟩

/-! ### Every run -/

def fresh (users : List User) : Store := ⟨.empty, 1, .empty, .empty, users, 0, []⟩

theorem inv_fresh (users : List User) : Inv env (fresh users) [] := by
  refine ⟨⟨List.nodup_nil, ?_, ?_, ?_, ?_⟩, ?_, ?_, ?_, ?_, List.nodup_nil, ?_, ?_⟩ <;>
    simp [fresh, Table.empty, OAuth.held]

/-- Codes and tokens reach their application only, in every interleaving whose statements
are careful. -/
theorem confined_of_careful (env : Env) (users : List User) (es : List (Event Request Answer))
    (hcareful : Guarded (machine env).step guards.meets ⟨fresh users, []⟩ es) :
    Confined env (run (machine env).step ⟨fresh users, []⟩ es).store.log :=
  ((invariant env).run ⟨fresh users, []⟩ es (inv_fresh users) hcareful).confined

/-! ### A code of Elk's, presented by anyone -/

def percentEncode (s : String) : String :=
  String.join (s.toList.map fun c =>
    if c = ':' then "%3A" else if c = '/' then "%2F" else String.singleton c)

def percentDecode : List Char → List Char
  | '%' :: '3' :: 'A' :: rest => ':' :: percentDecode rest
  | '%' :: '2' :: 'F' :: rest => '/' :: percentDecode rest
  | c :: rest => c :: percentDecode rest
  | [] => []

/-- URLs without a query, and names in plain letters. -/
def plainEnv : Env where
  domain := "s.example"
  parse := fun url => some ⟨String.ofList (url.toList.takeWhile (· ≠ ':')), url, none⟩
  queryPairs := fun _ => []
  encode := percentEncode
  decode := fun s => some (String.ofList (percentDecode s.toList))

example : plainEnv.encode "a/b" = "a%2Fb" := by decide +kernel

def drawing (token : String) : Answer := ⟨false, 0, "uid", "secret", token⟩

/-- A client registers, a user grants it a code, and it exchanges the code. -/
def exchange : List (Event Request Answer) :=
  [.request (.registerApp ⟨"App", some "https://app.example/cb", some "read write", none⟩),
    .advance 0 (drawing ""),
    .request (.issueGrant ⟨"uid", "https://app.example/cb", some "read", 7⟩),
    .advance 0 (drawing ""), .advance 0 (drawing "code"),
    .request (.issueToken ⟨"authorization_code", "uid", "secret", some "https://app.example/cb",
      some "code"⟩)] ++ List.replicate 5 (.advance 0 (drawing "token"))

theorem confined_of_careful_exchange :
    let log := (run (machine plainEnv).step ⟨fresh [⟨7, 70, false⟩], []⟩ exchange).store.log
    Confined plainEnv log ∧ exchanged log = ["code"] :=
  ⟨confined_of_careful plainEnv [⟨7, 70, false⟩] exchange (by decide +kernel), by decide +kernel⟩

/-- Elk signs in, and its code is presented to the callback on another origin's path. -/
def callbackElsewhere : List (Event Request Answer) :=
  [.request (.elkLogin "https://elk.example"), .advance 0 (drawing ""), .advance 0 (drawing ""),
    .request (.issueGrant ⟨"uid",
      "https://elk.example/api/s.example/oauth/https%3A%2F%2Felk.example", none, 7⟩),
    .advance 0 (drawing ""), .advance 0 (drawing "code"),
    .request (.elkOauthCallback "https%3A%2F%2Fevil.example" (some "code"))] ++
    List.replicate 4 (.advance 0 (drawing "token"))

def elkAtHome : Application :=
  ⟨1, "Elk", "uid", "secret", "https://elk.example/api/s.example/oauth/https%3A%2F%2Felk.example",
    some elkScopes, none⟩

/-- The token goes to that origin, which Elk was not registered with. -/
theorem token_sent_elsewhere :
    ¬ ∀ (env : Env) (users : List User) (es : List (Event Request Answer)),
      Confined env (run (machine env).step ⟨fresh users, []⟩ es).store.log := by
  intro h
  have hconfined := h plainEnv [⟨7, 70, false⟩] callbackElsewhere
  have hsent : .sent ⟨1, some 7, "token", elkScopes⟩
      "https://evil.example/signin/callback?server=s.example&token=token" ∈
        (run (machine plainEnv).step ⟨fresh [⟨7, 70, false⟩], []⟩ callbackElsewhere).store.log := by
    decide +kernel
  have honly : (run (machine plainEnv).step ⟨fresh [⟨7, 70, false⟩], []⟩
      callbackElsewhere).store.log.filterMap
        (fun | .registered a => some a | _ => none) = [elkAtHome] := by
    decide +kernel
  obtain ⟨app, happ, -, given, hgiven, hsame⟩ := hconfined.sent _ _ hsent
  have happ : app ∈ [elkAtHome] := honly ▸ List.mem_filterMap.mpr ⟨_, happ, rfl⟩
  rw [List.mem_singleton.mp happ, show splitWhitespace elkAtHome.redirectUri =
    [elkAtHome.redirectUri] by decide +kernel, List.mem_singleton] at hgiven
  rw [hgiven] at hsame
  rcases hsame with heq | ⟨u, r, hu, hr, -, hrest⟩
  · exact absurd heq (by decide +kernel)
  · rw [← Option.some.inj hu, ← Option.some.inj hr] at hrest
    exact absurd hrest (by decide +kernel)

end Eunha.OAuth
