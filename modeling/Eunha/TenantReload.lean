import Eunha.Tenants
import Mathlib.Data.List.Infix

/-!
# A reload and what it leaves alone

Whatever the process was, a reload that is carried out leaves exactly the configured hosts in
the registry, the serving ones being those that run, each with the fingerprint of its
configuration. A tenant whose configuration is as it was runs on and is served at every
moment in between.
-/
namespace Eunha.Tenants

/-! ### Folds over a map of hosts -/

section Folds
variable {V : Type} {m : HostMap V} {hosts : List Host} {h : Host}

theorem lookup_foldl_erase :
    (hosts.foldl (fun m host => m.erase host) m).lookup h =
      if h ∈ hosts then none else m.lookup h := by
  induction hosts generalizing m with
  | nil => rfl
  | cons host hosts ih =>
      rw [List.foldl_cons, ih]
      by_cases hh : h = host
      · subst hh
        simp
      · simp [hh, AList.lookup_erase_ne hh]

theorem lookup_foldl_insert (f : Host → V) :
    (hosts.foldl (fun m host => m.insert host (f host)) m).lookup h =
      if h ∈ hosts then some (f h) else m.lookup h := by
  induction hosts generalizing m with
  | nil => rfl
  | cons host hosts ih =>
      rw [List.foldl_cons, ih]
      by_cases hh : h = host
      · subst hh
        simp
      · simp [hh, AList.lookup_insert_ne hh]

end Folds

/-! ### Configurations that agree -/

/-- No host is served twice. -/
def Distinct (configs : List TenantConfig) : Prop :=
  (configs.flatMap (·.instanceHosts)).Nodup

theorem seeHosts_ok {source : String} {hosts : List Host} {seen seen' : List (Host × String)}
    (h : seeHosts source seen hosts = .ok seen') :
    hosts.Nodup ∧ (∀ x ∈ hosts, seen.lookup x = none) ∧
      ∀ x, (seen'.lookup x = none ↔ x ∉ hosts ∧ seen.lookup x = none) := by
  induction hosts generalizing seen with
  | nil =>
      cases h
      simp
  | cons host hosts ih =>
      rw [seeHosts] at h
      split_ifs at h with hempty
      cases hseen : seen.lookup host with
      | some other => rw [hseen] at h; cases h
      | none =>
          rw [hseen] at h
          obtain ⟨hnodup, hnew, hrest⟩ := ih h
          have hcons : ∀ x, ((host, source) :: seen).lookup x = none ↔
              x ≠ host ∧ seen.lookup x = none := by
            intro x
            rw [List.lookup_cons]
            by_cases hx : x = host
            · simp [hx]
            · rw [beq_false_of_ne hx]
              simp [hx]
          refine ⟨List.nodup_cons.mpr ⟨fun hin => ?_, hnodup⟩, ?_, ?_⟩
          · exact ((hcons host).mp (hnew host hin)).1 rfl
          · intro x hx
            cases List.mem_cons.mp hx with
            | inl hhead => exact hhead ▸ hseen
            | inr htail => exact ((hcons x).mp (hnew x htail)).2
          · intro x
            rw [hrest, hcons, List.mem_cons, not_or]
            tauto

theorem agree_ok {first : TenantConfig} {configs : List TenantConfig}
    {seen : List (Host × String)} (h : agree first seen configs = .ok ()) :
    Distinct configs ∧ ∀ x ∈ configs.flatMap (·.instanceHosts), seen.lookup x = none := by
  induction configs generalizing seen with
  | nil => exact ⟨List.nodup_nil, by simp⟩
  | cons t rest ih =>
      rw [agree] at h
      split_ifs at h
      cases hsee : seeHosts t.source seen t.instanceHosts with
      | error refusal => rw [hsee] at h; cases h
      | ok seen' =>
          rw [hsee] at h
          obtain ⟨hnodup, hnew, hseen⟩ := seeHosts_ok hsee
          obtain ⟨hdistinct, hrest⟩ := ih h
          constructor
          · rw [Distinct, List.flatMap_cons, List.nodup_append]
            refine ⟨hnodup, hdistinct, fun x hx y hy heq => ?_⟩
            exact ((hseen y).mp (hrest y hy)).1 (heq ▸ hx)
          · intro x hx
            rw [List.flatMap_cons, List.mem_append] at hx
            cases hx with
            | inl hhead => exact hnew x hhead
            | inr htail => exact ((hseen x).mp (hrest x htail)).2

theorem distinct_of_processSettings {configs : List TenantConfig} {settings : ProcessSettings}
    (h : processSettings configs = .ok settings) : Distinct configs := by
  cases configs with
  | nil => cases h
  | cons first rest =>
      rw [processSettings] at h
      cases hagree : agree first [] (first :: rest) with
      | error refusal => rw [hagree] at h; cases h
      | ok _ => exact (agree_ok hagree).1

section Distinct
variable {configs : List TenantConfig} {t t' : TenantConfig} {x : Host}

theorem host_mem_instanceHosts (t : TenantConfig) : t.host ∈ t.instanceHosts :=
  List.mem_cons_self

theorem Distinct.eq_of_host (h : Distinct configs) (ht : t ∈ configs) (ht' : t' ∈ configs)
    (hx : x ∈ t.instanceHosts) (hx' : x ∈ t'.instanceHosts) : t = t' := by
  by_contra hne
  have hpair := (List.nodup_flatMap.mp h).2
  have : Std.Symm (Function.onFun List.Disjoint fun t : TenantConfig => t.instanceHosts) :=
    ⟨fun _ _ hdisjoint => List.disjoint_symm hdisjoint⟩
  exact hpair.forall ht ht' hne hx hx'

theorem Distinct.hosts_nodup (h : Distinct configs) : (configs.map (·.host)).Nodup := by
  rw [List.Nodup, List.pairwise_map]
  refine ((List.nodup_flatMap.mp h).2).imp fun {a b} hdisjoint heq => ?_
  exact hdisjoint (host_mem_instanceHosts a) (heq ▸ host_mem_instanceHosts b)

end Distinct

/-! ### What a plan says -/

section Plans
variable {fingerprint : Config → UInt64} {current : HostMap (Option UInt64)}
  {next : List TenantConfig} {h : Host}

theorem mem_sorted {hosts : List Host} : h ∈ sorted hosts ↔ h ∈ hosts :=
  List.mem_insertionSort _

theorem mem_keep : h ∈ (plan fingerprint current next).keep ↔
    ∃ t ∈ next, t.host = h ∧ current.lookup h = some (some (fingerprint t.config)) := by
  simp only [plan, mem_sorted, List.mem_map, List.mem_filter, decide_eq_true_eq]
  constructor
  · rintro ⟨t, ⟨ht, hkept⟩, rfl⟩
    exact ⟨t, ht, rfl, hkept⟩
  · rintro ⟨t, ht, rfl, hkept⟩
    exact ⟨t, ⟨ht, hkept⟩, rfl⟩

theorem mem_restart : h ∈ (plan fingerprint current next).restart ↔
    ∃ t ∈ next, t.host = h ∧
      ∃ f, current.lookup h = some (some f) ∧ f ≠ fingerprint t.config := by
  simp only [plan, mem_sorted, List.mem_map, List.mem_filter, Bool.and_eq_true,
    Bool.not_eq_true', decide_eq_false_iff_not, Option.isSome_iff_exists, Option.join_eq_some_iff]
  constructor
  · rintro ⟨t, ⟨ht, ⟨f, hf⟩, hkept⟩, rfl⟩
    exact ⟨t, ht, rfl, f, hf, fun heq => hkept (by rw [hf, heq])⟩
  · rintro ⟨t, ht, rfl, f, hf, hne⟩
    refine ⟨t, ⟨ht, ⟨f, hf⟩, fun hkept => hne ?_⟩, rfl⟩
    rw [hf] at hkept
    exact Option.some.inj (Option.some.inj hkept)

theorem mem_stop : h ∈ (plan fingerprint current next).stop ↔
    h ∈ current ∧ ∀ t ∈ next, t.host ≠ h := by
  simp only [plan, mem_sorted, List.mem_filter, decide_eq_true_eq, AList.mem_keys, List.mem_map,
    not_exists, not_and]

end Plans

/-! ### The loop over the tenants to start -/

section Loops
variable {fingerprint : Config → UInt64} {answers : Answers} {shared : Bool}
  {restart : List Host} {l : Loop} {t : TenantConfig} {h : Host}

def Agrees (byHost : HostMap Slot) (running : HostMap Running) (h : Host) : Prop :=
  (∀ s, byHost.lookup h = some (.serving s) →
      ∃ r, running.lookup h = some r ∧ r.state = s.state) ∧
    ∀ r, running.lookup h = some r → ∃ s, byHost.lookup h = some (.serving s) ∧ s.state = r.state

def RunsAs (fingerprint : Config → UInt64) (running : HostMap Running) (h : Host)
    (config : Config) : Prop :=
  ∀ r, running.lookup h = some r →
    r.fingerprint = fingerprint config ∧ r.fingerprint = fingerprint r.state.config

theorem byHost_start : (l.start fingerprint answers shared restart t).byHost =
    l.byHost.insert t.host
      (if answers.starts t.host then .serving (.new ⟨l.next, t.config⟩ shared)
        else .unavailable) := by
  rw [Loop.start]
  split <;> rfl

theorem running_start : (l.start fingerprint answers shared restart t).running =
    if answers.starts t.host then
      l.running.insert t.host ⟨⟨l.next, t.config⟩, fingerprint t.config⟩
    else l.running := by
  rw [Loop.start]
  split <;> rfl

theorem start_other (hne : h ≠ t.host) :
    (l.start fingerprint answers shared restart t).byHost.lookup h = l.byHost.lookup h ∧
      (l.start fingerprint answers shared restart t).running.lookup h = l.running.lookup h := by
  rw [byHost_start, running_start]
  refine ⟨AList.lookup_insert_ne hne, ?_⟩
  split
  · exact AList.lookup_insert_ne hne
  · rfl

/-- What holds of a host once its tenant was started, or could not be. -/
structure Settles (fingerprint : Config → UInt64) (byHost : HostMap Slot)
    (running : HostMap Running) (t : TenantConfig) : Prop where
  there : t.host ∈ byHost
  agrees : Agrees byHost running t.host
  runsAs : RunsAs fingerprint running t.host t.config
  host : ∀ r, running.lookup t.host = some r → normalizeHost r.state.config.domain = t.host

theorem start_this (hstopped : l.running.lookup t.host = none) :
    Settles fingerprint (l.start fingerprint answers shared restart t).byHost
      (l.start fingerprint answers shared restart t).running t := by
  rw [byHost_start, running_start]
  cases hstarts : answers.starts t.host with
  | true =>
      rw [if_pos rfl, if_pos rfl]
      have hrun : ∀ r, (l.running.insert t.host
          ⟨⟨l.next, t.config⟩, fingerprint t.config⟩).lookup t.host = some r →
          r = ⟨⟨l.next, t.config⟩, fingerprint t.config⟩ := by
        intro r hr
        rw [AList.lookup_insert] at hr
        exact (Option.some.inj hr).symm
      refine ⟨(AList.mem_insert _).mpr (.inl rfl), ⟨?_, ?_⟩, ?_, ?_⟩
      · intro s hs
        rw [AList.lookup_insert] at hs
        obtain rfl := Slot.serving.inj (Option.some.inj hs)
        exact ⟨_, AList.lookup_insert _, rfl⟩
      · intro r hr
        rw [hrun r hr]
        exact ⟨_, AList.lookup_insert _, rfl⟩
      · intro r hr
        rw [hrun r hr]
        exact ⟨rfl, rfl⟩
      · intro r hr
        rw [hrun r hr]
        rfl
  | false =>
      rw [if_neg Bool.false_ne_true, if_neg Bool.false_ne_true]
      have hnone : ∀ r, l.running.lookup t.host ≠ some r := by simp [hstopped]
      refine ⟨(AList.mem_insert _).mpr (.inl rfl), ⟨?_, ?_⟩, ?_, ?_⟩
      · intro s hs
        rw [AList.lookup_insert] at hs
        cases hs
      all_goals exact fun r hr => absurd hr (hnone r)

theorem foldl_start {configs : List TenantConfig} (hnodup : (configs.map (·.host)).Nodup)
    (hstopped : ∀ t ∈ configs, l.running.lookup t.host = none) :
    (∀ h, h ∉ configs.map (·.host) →
      (configs.foldl (Loop.start fingerprint answers shared restart) l).byHost.lookup h =
          l.byHost.lookup h ∧
        (configs.foldl (Loop.start fingerprint answers shared restart) l).running.lookup h =
          l.running.lookup h) ∧
    ∀ t ∈ configs, Settles fingerprint
      (configs.foldl (Loop.start fingerprint answers shared restart) l).byHost
      (configs.foldl (Loop.start fingerprint answers shared restart) l).running t := by
  induction configs generalizing l with
  | nil => exact ⟨fun _ _ => ⟨rfl, rfl⟩, by simp⟩
  | cons t rest ih =>
      rw [List.map_cons, List.nodup_cons] at hnodup
      obtain ⟨hother, hrest⟩ := ih (l := l.start fingerprint answers shared restart t) hnodup.2
        (by
          intro u hu
          have hne : u.host ≠ t.host := fun heq => hnodup.1 (heq ▸ List.mem_map_of_mem hu)
          rw [(start_other hne).2]
          exact hstopped u (List.mem_cons_of_mem _ hu))
      rw [List.foldl_cons]
      constructor
      · intro h hh
        rw [List.map_cons, List.mem_cons, not_or] at hh
        obtain ⟨hbyHost, hrunning⟩ := hother h hh.2
        exact ⟨hbyHost.trans (start_other hh.1).1, hrunning.trans (start_other hh.1).2⟩
      · intro u hu
        cases List.mem_cons.mp hu with
        | inr htail => exact hrest u htail
        | inl hhead =>
            subst hhead
            obtain ⟨hbyHost, hrunning⟩ := hother u.host hnodup.1
            have hthis : Settles fingerprint (l.start fingerprint answers shared restart u).byHost
                (l.start fingerprint answers shared restart u).running u :=
              start_this (hstopped u List.mem_cons_self)
            obtain ⟨hthere, hagrees, hruns, hhost⟩ := hthis
            refine ⟨?_, ?_, ?_, ?_⟩
            · rw [← AList.lookup_isSome, hbyHost, AList.lookup_isSome]
              exact hthere
            · simpa only [Agrees, hbyHost, hrunning] using hagrees
            · simpa only [RunsAs, hrunning] using hruns
            · simpa only [hrunning] using hhost

end Loops

/-! ### Between two reloads -/

section Settled
variable {fingerprint : Config → UInt64}

/-- What holds of the process while no reload is in progress. -/
structure Settled (fingerprint : Config → UInt64) (p : Process) (configs : List TenantConfig) :
    Prop where
  distinct : Distinct configs
  registry : p.registry = .withAliases p.registry.byHost (aliases configs)
  configured : ∀ h ∈ p.registry.byHost, ∃ t ∈ configs, t.host = h
  settles : ∀ t ∈ configs, Settles fingerprint p.registry.byHost p.running t
  stopped : ∀ h r, p.running.lookup h = some r → ∃ t ∈ configs, t.host = h

variable {p : Process} {configs next : List TenantConfig} {answers : Answers} {h : Host}

theorem Settled.agrees (hs : Settled fingerprint p configs) (h : Host) :
    Agrees p.registry.byHost p.running h := by
  constructor
  · intro s hserving
    obtain ⟨t, ht, rfl⟩ := hs.configured h (AList.lookup_isSome.mp (by rw [hserving]; rfl))
    exact (hs.settles t ht).agrees.1 s hserving
  · intro r hr
    obtain ⟨t, ht, rfl⟩ := hs.stopped h r hr
    exact (hs.settles t ht).agrees.2 r hr

theorem lookup_fingerprints : p.fingerprints.lookup h =
    if h ∈ p.registry.byHost then some ((p.running.lookup h).map (·.fingerprint)) else none := by
  rw [Process.fingerprints, lookup_foldl_insert, AList.lookup_empty]
  simp only [AList.mem_keys]

theorem Settled.lookup_running (hs : Settled fingerprint p configs) {f : UInt64} :
    p.fingerprints.lookup h = some (some f) ↔
      ∃ r, p.running.lookup h = some r ∧ r.fingerprint = f := by
  rw [lookup_fingerprints]
  constructor
  · intro hf
    split_ifs at hf with hin
    exact Option.map_eq_some_iff.mp (Option.some.inj hf)
  · rintro ⟨r, hr, rfl⟩
    obtain ⟨s, hserving, -⟩ := (hs.agrees h).2 r hr
    rw [if_pos (AList.lookup_isSome.mp (by rw [hserving]; rfl)), hr]
    rfl

theorem Settled.mem_keep (hs : Settled fingerprint p configs) :
    h ∈ (p.plan fingerprint next).keep ↔
      ∃ t ∈ next, t.host = h ∧
        ∃ r, p.running.lookup h = some r ∧ r.fingerprint = fingerprint t.config := by
  simp only [Process.plan, Tenants.mem_keep, hs.lookup_running]

theorem Settled.mem_restart (hs : Settled fingerprint p configs) :
    h ∈ (p.plan fingerprint next).restart ↔
      ∃ t ∈ next, t.host = h ∧
        ∃ r, p.running.lookup h = some r ∧ r.fingerprint ≠ fingerprint t.config := by
  simp only [Process.plan, Tenants.mem_restart, hs.lookup_running]
  constructor
  · rintro ⟨t, ht, hhost, f, ⟨r, hr, rfl⟩, hne⟩
    exact ⟨t, ht, hhost, r, hr, hne⟩
  · rintro ⟨t, ht, hhost, r, hr, hne⟩
    exact ⟨t, ht, hhost, r.fingerprint, ⟨r, hr, rfl⟩, hne⟩

theorem mem_stop_plan : h ∈ (p.plan fingerprint next).stop ↔
    h ∈ p.registry.byHost ∧ ∀ t ∈ next, t.host ≠ h := by
  rw [Process.plan, mem_stop, ← AList.lookup_isSome, lookup_fingerprints]
  split_ifs with hin <;> simp [hin]

theorem lookup_outOfService (plan : Plan) : (p.outOfService plan).lookup h =
    if h ∈ plan.restart then some .unavailable
    else if h ∈ plan.stop then none else p.registry.byHost.lookup h := by
  rw [Process.outOfService, lookup_foldl_insert fun _ => Slot.unavailable, lookup_foldl_erase]

theorem lookup_leftRunning (plan : Plan) : (p.leftRunning plan).lookup h =
    if h ∈ plan.stop ∨ h ∈ plan.restart then none else p.running.lookup h := by
  rw [Process.leftRunning, lookup_foldl_erase]
  simp only [List.mem_append]

theorem Settled.keep_apart (hs : Settled fingerprint p configs) (hnext : Distinct next)
    (hkeep : h ∈ (p.plan fingerprint next).keep) :
    h ∉ (p.plan fingerprint next).stop ∧ h ∉ (p.plan fingerprint next).restart := by
  obtain ⟨t, ht, rfl, r, hr, hsame⟩ := hs.mem_keep.mp hkeep
  constructor
  · exact fun hstop => (mem_stop_plan.mp hstop).2 t ht rfl
  · intro hrestart
    obtain ⟨u, hu, hhost, r', hr', hne⟩ := hs.mem_restart.mp hrestart
    have heq : u = t := hnext.eq_of_host hu ht (host_mem_instanceHosts u)
      (hhost ▸ host_mem_instanceHosts t)
    rw [hr] at hr'
    exact hne (Option.some.inj hr' ▸ heq ▸ hsame)

theorem Settled.starting_stopped (hs : Settled fingerprint p configs) {t : TenantConfig}
    (ht : t ∈ p.starting fingerprint next) :
    (p.leftRunning (p.plan fingerprint next)).lookup t.host = none := by
  obtain ⟨hin, hkeep⟩ := List.mem_filter.mp ht
  have hkeep := of_decide_eq_true hkeep
  rw [lookup_leftRunning]
  split_ifs with hstops
  · rfl
  · rw [not_or] at hstops
    apply Option.eq_none_iff_forall_ne_some.mpr
    intro r hr
    by_cases hsame : r.fingerprint = fingerprint t.config
    · exact hkeep (hs.mem_keep.mpr ⟨t, hin, rfl, r, hr, hsame⟩)
    · exact hstops.2 (hs.mem_restart.mpr ⟨t, hin, rfl, r, hr, hsame⟩)

theorem Settled.loop (hs : Settled fingerprint p configs) (hnext : Distinct next)
    (answers : Answers) {done : List TenantConfig}
    (hdone : done.Sublist (p.starting fingerprint next)) :
    (∀ h, h ∉ done.map (·.host) →
      (p.loop fingerprint next answers done).byHost.lookup h =
          (p.outOfService (p.plan fingerprint next)).lookup h ∧
        (p.loop fingerprint next answers done).running.lookup h =
          (p.leftRunning (p.plan fingerprint next)).lookup h) ∧
    ∀ t ∈ done, Settles fingerprint (p.loop fingerprint next answers done).byHost
      (p.loop fingerprint next answers done).running t := by
  have hnodup : (done.map (·.host)).Nodup :=
    hnext.hosts_nodup.sublist ((hdone.trans List.filter_sublist).map _)
  exact foldl_start hnodup fun t ht => hs.starting_stopped (hdone.subset ht)

theorem Settled.kept (hs : Settled fingerprint p configs) (hnext : Distinct next)
    (answers : Answers) (hkeep : h ∈ (p.plan fingerprint next).keep)
    {done : List TenantConfig} (hdone : done.Sublist (p.starting fingerprint next)) :
    (p.outOfService (p.plan fingerprint next)).lookup h = p.registry.byHost.lookup h ∧
      (p.loop fingerprint next answers done).byHost.lookup h = p.registry.byHost.lookup h ∧
      (p.loop fingerprint next answers done).running.lookup h = p.running.lookup h := by
  obtain ⟨hstop, hrestart⟩ := hs.keep_apart hnext hkeep
  have hout : h ∉ done.map (·.host) := by
    intro hin
    obtain ⟨t, ht, hhost⟩ := List.mem_map.mp hin
    have hnot := of_decide_eq_true (List.mem_filter.mp (hdone.subset ht)).2
    exact hnot (hhost ▸ hkeep)
  obtain ⟨hbyHost, hrunning⟩ := (hs.loop hnext answers hdone).1 h hout
  rw [hbyHost, hrunning, lookup_outOfService, lookup_leftRunning, if_neg hrestart, if_neg hstop,
    if_neg (not_or.mpr ⟨hstop, hrestart⟩)]
  exact ⟨rfl, rfl, rfl⟩

theorem lookup_takeLimit {running : HostMap Running} {shared : Bool} {m : HostMap Slot}
    (hosts : List Host) :
    (hosts.foldl (takeLimit running shared) m).lookup h = m.lookup h ∨
      ∃ r, running.lookup h = some r ∧
        (hosts.foldl (takeLimit running shared) m).lookup h =
          some (.serving (.new r.state shared)) := by
  induction hosts generalizing m with
  | nil => exact .inl rfl
  | cons host hosts ih =>
      rw [List.foldl_cons]
      cases ih (m := takeLimit running shared m host) with
      | inr hnew => exact .inr hnew
      | inl hsame =>
          rw [hsame, takeLimit]
          cases hrunning : running.lookup host with
          | none => exact .inl rfl
          | some r =>
              by_cases hh : h = host
              · subst hh
                exact .inr ⟨r, hrunning, AList.lookup_insert _⟩
              · exact .inl (AList.lookup_insert_ne hh)

theorem lookup_lastByHost (l : Loop) :
    (p.lastByHost fingerprint next l).lookup h = l.byHost.lookup h ∨
      ∃ r shared, l.running.lookup h = some r ∧
        (p.lastByHost fingerprint next l).lookup h = some (.serving (.new r.state shared)) := by
  rw [Process.lastByHost]
  split_ifs
  · exact (lookup_takeLimit _).imp_right fun ⟨r, hr, hlast⟩ => ⟨r, _, hr, hlast⟩
  · exact .inl rfl

theorem Agrees.last {l : Loop} (ha : Agrees l.byHost l.running h) :
    Agrees (p.lastByHost fingerprint next l) l.running h ∧
      (h ∈ p.lastByHost fingerprint next l ↔ h ∈ l.byHost) := by
  cases (lookup_lastByHost l : (p.lastByHost fingerprint next l).lookup h = _ ∨ _) with
  | inl hsame =>
      rw [Agrees, hsame, ← AList.lookup_isSome, hsame, AList.lookup_isSome]
      exact ⟨ha, Iff.rfl⟩
  | inr hnew =>
      obtain ⟨r, shared, hr, hserving⟩ := hnew
      obtain ⟨s, hs, -⟩ := ha.2 r hr
      refine ⟨⟨fun s' hs' => ?_, fun r' hr' => ?_⟩, ?_⟩
      · rw [hserving] at hs'
        obtain rfl := Slot.serving.inj (Option.some.inj hs')
        exact ⟨r, hr, rfl⟩
      · rw [hr] at hr'
        obtain rfl := Option.some.inj hr'
        exact ⟨_, hserving, rfl⟩
      · rw [← AList.lookup_isSome, ← AList.lookup_isSome, hserving, hs]
        exact Iff.rfl

theorem Settled.agrees_out (hs : Settled fingerprint p configs) (plan : Plan) (h : Host) :
    Agrees (p.outOfService plan) (p.leftRunning plan) h := by
  rw [Agrees, lookup_outOfService, lookup_leftRunning]
  by_cases hrestart : h ∈ plan.restart
  · rw [if_pos hrestart, if_pos (.inr hrestart)]
    exact ⟨fun s hserving => (by cases hserving), fun r hr => (by cases hr)⟩
  · by_cases hstop : h ∈ plan.stop
    · rw [if_neg hrestart, if_pos hstop, if_pos (.inl hstop)]
      exact ⟨fun s hserving => (by cases hserving), fun r hr => (by cases hr)⟩
    · rw [if_neg hrestart, if_neg hstop, if_neg (not_or.mpr ⟨hstop, hrestart⟩)]
      exact hs.agrees h

def Process.ended (fingerprint : Config → UInt64) (p : Process) (next : List TenantConfig)
    (answers : Answers) : Process :=
  let l := p.loop fingerprint next answers (p.starting fingerprint next)
  ⟨.withAliases (p.lastByHost fingerprint next l) (aliases next), p.settings, l.running, l.next⟩

theorem Settled.of_lookup {byHost : HostMap Slot} {running : HostMap Running}
    (hs : Settled fingerprint p configs) {t : TenantConfig} (hthere : t.host ∈ byHost)
    (hagrees : Agrees byHost running t.host)
    (hrunning : running.lookup t.host = p.running.lookup t.host)
    (hsame : RunsAs fingerprint p.running t.host t.config) :
    Settles fingerprint byHost running t := by
  refine ⟨hthere, hagrees, ?_, ?_⟩
  · simpa only [RunsAs, hrunning] using hsame
  · intro r hr
    rw [hrunning] at hr
    obtain ⟨u, hu, hhost⟩ := hs.stopped t.host r hr
    rw [← hhost] at hr ⊢
    exact (hs.settles u hu).host r hr

theorem Settled.ended (hs : Settled fingerprint p configs) (hnext : Distinct next) :
    Settled fingerprint (p.ended fingerprint next answers) next := by
  obtain ⟨hother, hstarted⟩ := hs.loop hnext answers (List.Sublist.refl _)
  have hconfigured : ∀ h, h ∈ p.registry.byHost → h ∉ (p.plan fingerprint next).stop →
      ∃ t ∈ next, t.host = h := by
    intro h hin hstop
    by_contra hnone
    exact hstop (mem_stop_plan.mpr ⟨hin, fun t ht hhost => hnone ⟨t, ht, hhost⟩⟩)
  have hall : ∀ h, Agrees (p.loop fingerprint next answers (p.starting fingerprint next)).byHost
      (p.loop fingerprint next answers (p.starting fingerprint next)).running h := by
    intro h
    by_cases hin : h ∈ (p.starting fingerprint next).map (·.host)
    · obtain ⟨t, ht, rfl⟩ := List.mem_map.mp hin
      exact (hstarted t ht).agrees
    · rw [Agrees, (hother h hin).1, (hother h hin).2]
      exact hs.agrees_out _ h
  refine ⟨hnext, rfl, fun h hin => ?_, fun t ht => ?_, fun h r hr => ?_⟩
  · have hin := (hall h).last.2.mp hin
    by_cases hstart : h ∈ (p.starting fingerprint next).map (·.host)
    · obtain ⟨t, ht, hhost⟩ := List.mem_map.mp hstart
      exact ⟨t, List.mem_of_mem_filter ht, hhost⟩
    · rw [← AList.lookup_isSome, (hother h hstart).1, lookup_outOfService] at hin
      split_ifs at hin with hrestart hstop
      · obtain ⟨t, ht, hhost, -⟩ := hs.mem_restart.mp hrestart
        exact ⟨t, ht, hhost⟩
      · cases hin
      · exact hconfigured h (AList.lookup_isSome.mp hin) hstop
  · by_cases hkeep : t.host ∈ (p.plan fingerprint next).keep
    · obtain ⟨u, hu, hhost, r, hr, hsame⟩ := hs.mem_keep.mp hkeep
      obtain rfl : u = t := hnext.eq_of_host hu ht (host_mem_instanceHosts u)
        (hhost ▸ host_mem_instanceHosts t)
      obtain ⟨-, hbyHost, hrunning⟩ :=
        hs.kept hnext answers hkeep (List.Sublist.refl _)
      obtain ⟨s, hserving, -⟩ := (hs.agrees u.host).2 r hr
      refine hs.of_lookup ?_ (hall u.host).last.1 hrunning fun r' hr' => ?_
      · refine (hall u.host).last.2.mpr ?_
        rw [← AList.lookup_isSome, hbyHost, hserving]
        rfl
      · obtain ⟨v, hv, hvhost⟩ := hs.stopped u.host r' hr'
        rw [← hvhost] at hr'
        refine ⟨?_, ((hs.settles v hv).runsAs r' hr').2⟩
        rw [hvhost, hr] at hr'
        exact Option.some.inj hr' ▸ hsame
    · have hin : t ∈ p.starting fingerprint next :=
        List.mem_filter.mpr ⟨ht, decide_eq_true hkeep⟩
      have hsettles := hstarted t hin
      exact ⟨(hall t.host).last.2.mpr hsettles.there, (hall t.host).last.1, hsettles.runsAs,
        hsettles.host⟩
  · by_cases hstart : h ∈ (p.starting fingerprint next).map (·.host)
    · obtain ⟨t, ht, hhost⟩ := List.mem_map.mp hstart
      exact ⟨t, List.mem_of_mem_filter ht, hhost⟩
    · replace hr := (hother h hstart).2.symm.trans hr
      rw [lookup_leftRunning] at hr
      split_ifs at hr with hstops
      obtain ⟨s, hserving, -⟩ := (hs.agrees h).2 r hr
      exact hconfigured h (AList.lookup_isSome.mp (by rw [hserving]; rfl))
        (not_or.mp hstops).1

end Settled

/-! ### Every start and every sequence of reloads -/

section Reached
variable {fingerprint : Config → UInt64} {p : Process} {configs next : List TenantConfig}
  {answers : Answers}

theorem start_ok (h : start fingerprint configs answers = .ok p) :
    Distinct configs ∧ ∃ settings, p = started fingerprint configs answers settings := by
  rw [start] at h
  cases hsettings : processSettings configs with
  | error refusal => rw [hsettings] at h; cases h
  | ok settings =>
      refine ⟨distinct_of_processSettings hsettings, settings, ?_⟩
      rw [hsettings] at h
      dsimp only at h
      split at h
      · cases h
      · split at h
        · split_ifs at h
          exact (Except.ok.inj h).symm
        · exact (Except.ok.inj h).symm

theorem settled_start (h : start fingerprint configs answers = .ok p) :
    Settled fingerprint p configs := by
  obtain ⟨hdistinct, settings, rfl⟩ := start_ok h
  obtain ⟨hother, hsettles⟩ : _ ∧ ∀ t ∈ configs,
      Settles fingerprint (started fingerprint configs answers settings).registry.byHost
        (started fingerprint configs answers settings).running t :=
    foldl_start (l := .empty) hdistinct.hosts_nodup fun _ _ => rfl
  have hnone : ∀ h, (∀ t ∈ configs, t.host ≠ h) → h ∉ configs.map (·.host) := by
    intro h hh hin
    obtain ⟨t, ht, hhost⟩ := List.mem_map.mp hin
    exact hh t ht hhost
  refine ⟨hdistinct, rfl, fun h hin => ?_, hsettles, fun h r hr => ?_⟩
  · by_contra hout
    push Not at hout
    have hlookup := (hother h (hnone h hout)).1
    rw [← AList.lookup_isSome] at hin
    exact absurd (hlookup ▸ hin) (by rw [Loop.empty, AList.lookup_empty]; simp)
  · by_contra hout
    push Not at hout
    have hlookup := (hother h (hnone h hout)).2
    exact absurd (hlookup.symm.trans hr) (by rw [Loop.empty, AList.lookup_empty]; simp)

theorem reload_cases (fingerprint : Config → UInt64) (p : Process) (next : List TenantConfig)
    (answers : Answers) :
    (∃ refusal, p.reload fingerprint next answers = ([], .error refusal)) ∨
      Distinct next ∧ p.reload fingerprint next answers =
        ((p.carryOut fingerprint next answers).1, .ok (p.carryOut fingerprint next answers).2) := by
  rw [Process.reload]
  cases hchecked : reloadable next answers p.settings with
  | error refusal => exact .inl ⟨refusal, rfl⟩
  | ok _ =>
      refine .inr ⟨?_, rfl⟩
      rw [reloadable] at hchecked
      cases hsettings : processSettings next with
      | error refusal => rw [hsettings] at hchecked; cases hchecked
      | ok settings => exact distinct_of_processSettings hsettings

theorem reloaded_eq (h : p.reload fingerprint next answers =
    ((p.carryOut fingerprint next answers).1, .ok (p.carryOut fingerprint next answers).2)) :
    p.reloaded fingerprint next answers = p.ended fingerprint next answers := by
  rw [Process.reloaded, h, Process.carryOut, List.getLast?_concat]
  rfl

theorem mem_carryOut {m : Process} (hm : m ∈ (p.carryOut fingerprint next answers).1) :
    (m.registry = .withAliases (p.outOfService (p.plan fingerprint next)) (aliases next) ∧
      (m.running = p.running ∨ ∃ done, done.Sublist (p.starting fingerprint next) ∧
        m.running = (p.loop fingerprint next answers done).running)) ∨
    m = p.ended fingerprint next answers := by
  rw [Process.carryOut, List.mem_append, List.mem_append] at hm
  obtain (hout | hloop) | hlast := hm
  · rw [List.mem_singleton.mp hout]
    exact .inl ⟨rfl, .inl rfl⟩
  · obtain ⟨done, hdone, rfl⟩ := List.mem_map.mp hloop
    exact .inl ⟨rfl, .inr ⟨done, ((List.mem_inits _ _).mp hdone).sublist, rfl⟩⟩
  · exact .inr (List.mem_singleton.mp hlast)

theorem Reached.settled (h : Reached fingerprint p configs) : Settled fingerprint p configs := by
  induction h with
  | start hstart => exact settled_start hstart
  | @refused p configs next answers refusal _ hrefused ih =>
      cases reload_cases fingerprint p next answers with
      | inl hnone =>
          obtain ⟨_, hnone⟩ := hnone
          rw [Process.reloaded, hnone]
          exact ih
      | inr hcarried =>
          rw [hcarried.2] at hrefused
          cases hrefused
  | @reloaded p configs next answers done _ hdone ih =>
      cases reload_cases fingerprint p next answers with
      | inl hnone =>
          obtain ⟨_, hnone⟩ := hnone
          rw [hnone] at hdone
          cases hdone
      | inr hcarried =>
          rw [reloaded_eq hcarried.2]
          exact ih.ended hcarried.1

end Reached

/-! ### Lookups of a tenant's own domain -/

section Lookups
variable {configs : List TenantConfig} {t : TenantConfig} {x d : Host}

theorem lookup_foldl_entries {entries : List (Host × Host)} {m : HostMap Host}
    (h : (entries.foldl (fun m e => m.insert e.1 e.2) m).lookup x = some d) :
    (x, d) ∈ entries ∨ m.lookup x = some d := by
  induction entries generalizing m with
  | nil => exact .inr h
  | cons e entries ih =>
      rw [List.foldl_cons] at h
      cases ih h with
      | inl hin => exact .inl (List.mem_cons_of_mem _ hin)
      | inr hm =>
          by_cases hx : x = e.1
          · subst hx
            rw [AList.lookup_insert] at hm
            exact .inl (List.mem_cons.mpr (.inl (by rw [← Option.some.inj hm])))
          · rw [AList.lookup_insert_ne hx] at hm
            exact .inr hm

theorem lookup_aliases (h : (aliases configs).lookup x = some d) :
    ∃ t ∈ configs, t.host = d ∧ x ∈ t.config.aliases.map normalizeHost := by
  have hin := (lookup_foldl_entries h).resolve_right (by rw [AList.lookup_empty]; simp)
  obtain ⟨t, ht, hentry⟩ := List.mem_flatMap.mp hin
  obtain ⟨a, ha, heq⟩ := List.mem_map.mp hentry
  cases heq
  exact ⟨t, ht, rfl, List.mem_map_of_mem ha⟩

theorem Distinct.lookup_aliases_host (h : Distinct configs) (ht : t ∈ configs) :
    (aliases configs).lookup t.host = none := by
  apply Option.eq_none_iff_forall_ne_some.mpr
  intro d halias
  obtain ⟨u, hu, -, hin⟩ := lookup_aliases halias
  obtain rfl : u = t := h.eq_of_host hu ht (List.mem_cons_of_mem _ hin) (host_mem_instanceHosts t)
  have hnodup := (List.nodup_flatMap.mp h).1 u hu
  rw [TenantConfig.instanceHosts, List.map_cons, List.nodup_cons] at hnodup
  exact hnodup.1 hin

theorem only_withAliases {byHost : HostMap Slot} {m : HostMap Host} {s : Tenant}
    (h : (Registry.withAliases byHost m).only = some s) :
    ∃ host, byHost.entries = [⟨host, .serving s⟩] := by
  rw [Registry.withAliases] at h
  dsimp only at h
  split at h
  · next host s' heq => exact ⟨host, Option.some.inj h ▸ heq⟩
  · cases h

theorem lookup_withAliases {byHost : HostMap Slot} {m : HostMap Host} {s : Tenant} {domain : Host}
    (h : byHost.lookup (normalizeHost domain) = some (.serving s))
    (hm : m.lookup (normalizeHost domain) = none) :
    (Registry.withAliases byHost m).lookup domain = .serving s := by
  rw [Registry.lookup]
  cases honly : (Registry.withAliases byHost m).only with
  | some s' =>
      obtain ⟨host, hentries⟩ := only_withAliases honly
      have hin := AList.mem_lookup_iff.mp h
      rw [hentries, List.mem_singleton] at hin
      cases hin
      rfl
  | none =>
      have hslot : ((Registry.withAliases byHost m).byHost.lookup
          (((Registry.withAliases byHost m).aliases.lookup (normalizeHost domain)).getD
            (normalizeHost domain))) = some (.serving s) := by
        change byHost.lookup ((m.lookup (normalizeHost domain)).getD _) = _
        rw [hm]
        exact h
      dsimp only
      rw [hslot]
      rfl

end Lookups

/-! ### What a reload brings -/

section Brought
variable {fingerprint : Config → UInt64} {p : Process} {configs next : List TenantConfig}
  {answers : Answers} {h : Host} {r : Running}

/-- The process serves these configurations: their hosts are those in the registry, the
serving ones are those that run, each as its configuration says. -/
structure Brought (fingerprint : Config → UInt64) (p : Process) (configs : List TenantConfig) :
    Prop where
  hosts : ∀ h, h ∈ p.registry.byHost ↔ ∃ t ∈ configs, t.host = h
  serving : ∀ h, (∃ s, p.registry.byHost.lookup h = some (.serving s)) ↔
    (p.running.lookup h).isSome
  fingerprint : ∀ t ∈ configs, ∀ r, p.running.lookup t.host = some r →
    r.fingerprint = fingerprint t.config ∧ r.fingerprint = fingerprint r.state.config

/-- What runs for the host is the same start of the tenant, and its domain is served by it. -/
structure Untouched (m : Process) (h : Host) (r : Running) : Prop where
  runs : m.running.lookup h = some r
  served : ∃ s, s.state = r.state ∧ m.registry.lookup r.state.config.domain = .serving s

theorem Settled.brought (hs : Settled fingerprint p configs) : Brought fingerprint p configs where
  hosts := by
    refine fun h => ⟨hs.configured h, ?_⟩
    rintro ⟨t, ht, rfl⟩
    exact (hs.settles t ht).there
  serving := by
    intro h
    rw [Option.isSome_iff_exists]
    constructor
    · rintro ⟨s, hserving⟩
      obtain ⟨r, hr, -⟩ := (hs.agrees h).1 s hserving
      exact ⟨r, hr⟩
    · rintro ⟨r, hr⟩
      obtain ⟨s, hserving, -⟩ := (hs.agrees h).2 r hr
      exact ⟨s, hserving⟩
  fingerprint := fun t ht => (hs.settles t ht).runsAs

theorem Settled.host (hs : Settled fingerprint p configs) (hr : p.running.lookup h = some r) :
    normalizeHost r.state.config.domain = h := by
  obtain ⟨t, ht, rfl⟩ := hs.stopped h r hr
  exact (hs.settles t ht).host r hr

theorem untouched_of_lookup {m : Process} {byHost : HostMap Slot} {s : Tenant}
    (hnext : Distinct next) (hregistry : m.registry = .withAliases byHost (aliases next))
    (hruns : m.running.lookup h = some r) (hserving : byHost.lookup h = some (.serving s))
    (hstate : s.state = r.state) (hdomain : normalizeHost r.state.config.domain = h)
    (hnamed : ∃ t ∈ next, t.host = h) : Untouched m h r := by
  refine ⟨hruns, s, hstate, ?_⟩
  obtain ⟨t, ht, rfl⟩ := hnamed
  rw [hregistry]
  apply lookup_withAliases
  · rw [hdomain]
    exact hserving
  · rw [hdomain]
    exact hnext.lookup_aliases_host ht

theorem Settled.untouched (hs : Settled fingerprint p configs)
    (hr : p.running.lookup h = some r)
    (hsame : ∃ t ∈ next, t.host = h ∧ r.fingerprint = fingerprint t.config)
    {m : Process} (hm : m ∈ (p.reload fingerprint next answers).1) : Untouched m h r := by
  cases reload_cases fingerprint p next answers with
  | inl hrefused =>
      obtain ⟨_, hrefused⟩ := hrefused
      rw [hrefused] at hm
      cases hm
  | inr hcarried =>
      obtain ⟨hnext, hreload⟩ := hcarried
      rw [hreload] at hm
      obtain ⟨t, ht, hhost, hfingerprint⟩ := hsame
      have hkeep : h ∈ (p.plan fingerprint next).keep :=
        hs.mem_keep.mpr ⟨t, ht, hhost, r, hr, hfingerprint⟩
      obtain ⟨s, hserving, hstate⟩ := (hs.agrees h).2 r hr
      have hnamed : ∃ t ∈ next, t.host = h := ⟨t, ht, hhost⟩
      obtain ⟨hregistry, hrunning⟩ | rfl := mem_carryOut hm
      · refine untouched_of_lookup hnext hregistry ?_ ?_ hstate (hs.host hr) hnamed
        · obtain hsame | ⟨done, hdone, hloop⟩ := hrunning
          · rw [hsame]
            exact hr
          · rw [hloop, (hs.kept hnext answers hkeep hdone).2.2]
            exact hr
        · rw [(hs.kept hnext answers hkeep (List.nil_sublist _)).1]
          exact hserving
      · obtain ⟨-, -, hruns⟩ := hs.kept hnext answers hkeep (List.Sublist.refl _)
        have hended : Settled fingerprint (p.ended fingerprint next answers) next := hs.ended hnext
        have hr' : (p.ended fingerprint next answers).running.lookup h = some r :=
          hruns.trans hr
        obtain ⟨s', hserving', hstate'⟩ := (hended.agrees h).2 r hr'
        exact untouched_of_lookup hnext rfl hr' hserving' hstate' (hs.host hr) hnamed

/-- A reload that is refused changes nothing. One that is carried out leaves the process with
the configurations it was given, leaves alone at every moment the tenants whose configuration
is as it was, and done again with the same configurations leaves alone all that run. -/
theorem reload_brings (hp : Reached fingerprint p configs) (next : List TenantConfig)
    (answers : Answers) :
    (∀ refusal, (p.reload fingerprint next answers).2 = .error refusal →
      (p.reload fingerprint next answers).1 = [] ∧ p.reloaded fingerprint next answers = p) ∧
    ∀ done, (p.reload fingerprint next answers).2 = .ok done →
      Brought fingerprint (p.reloaded fingerprint next answers) next ∧
      (∀ h r, p.running.lookup h = some r →
        (∃ t ∈ next, t.host = h ∧ t.config = r.state.config) →
        ∀ m ∈ (p.reload fingerprint next answers).1, Untouched m h r) ∧
      ∀ again h r, (p.reloaded fingerprint next answers).running.lookup h = some r →
        ∀ m ∈ ((p.reloaded fingerprint next answers).reload fingerprint next again).1,
          Untouched m h r := by
  constructor
  · intro refusal hrefused
    cases reload_cases fingerprint p next answers with
    | inl hnone =>
        obtain ⟨_, hnone⟩ := hnone
        rw [Process.reloaded, hnone]
        exact ⟨rfl, rfl⟩
    | inr hcarried =>
        rw [hcarried.2] at hrefused
        cases hrefused
  · intro done hdone
    have hs := hp.settled
    have hended := (hp.reloaded hdone).settled
    refine ⟨hended.brought, fun h r hr hsame m hm => ?_, fun again h r hr m hm => ?_⟩
    · obtain ⟨t, ht, hhost, hconfig⟩ := hsame
      obtain ⟨u, hu, huhost⟩ := hs.stopped h r hr
      have hruns := ((hs.settles u hu).runsAs r (huhost.symm ▸ hr)).2
      exact hs.untouched hr ⟨t, ht, hhost, hconfig.symm ▸ hruns⟩ hm
    · obtain ⟨u, hu, huhost⟩ := hended.stopped h r hr
      have hruns := ((hended.settles u hu).runsAs r (huhost.symm ▸ hr)).1
      exact hended.untouched hr ⟨u, hu, huhost, hruns⟩ hm

/-! ### Seoul kept, Busan changed, Daegu added -/

def tenant (domain rest : String) : TenantConfig :=
  ⟨domain ++ ".toml",
    ⟨domain.toList, [], "127.0.0.1:3000", 256, none, none, 5, none, rest⟩⟩

def seoulBusan : List TenantConfig := [tenant "seoul.earth" "", tenant "busan.earth" ""]

def withDaegu : List TenantConfig :=
  [tenant "seoul.earth" "", tenant "busan.earth" "smtp", tenant "daegu.earth" ""]

def allButDaegu : Answers := ⟨true, fun h => h ≠ "daegu.earth".toList⟩

def hash (c : Config) : UInt64 :=
  (c.domain ++ c.rest.toList).foldl (fun n x => n * 31 + x.toNat.toUInt64) 7

def served : Process :=
  started hash seoulBusan allButDaegu ⟨"127.0.0.1:3000", 256, 50, none⟩

theorem reached_served : Reached hash served seoulBusan :=
  .start (show start hash seoulBusan allButDaegu = .ok served from rfl)

theorem brought_served :
    Brought hash (served.reloaded hash withDaegu allButDaegu) withDaegu ∧
      (served.reload hash withDaegu allButDaegu).2 =
        .ok ⟨[], ["busan.earth".toList], [], ["daegu.earth".toList], ["seoul.earth".toList]⟩ :=
  have hdone : (served.reload hash withDaegu allButDaegu).2 =
      .ok ⟨[], ["busan.earth".toList], [], ["daegu.earth".toList], ["seoul.earth".toList]⟩ := by
    decide +kernel
  ⟨((reload_brings reached_served withDaegu allButDaegu).2 _ hdone).1, hdone⟩

end Brought

end Eunha.Tenants
