import Mathlib
import Eunha.TenantReload

/-!
# Which tenant a request is handed to

A host is looked up as it is, then as what is before its port. With several tenants in the
registry a lookup answers only a tenant of that name; a registry of one serving tenant, which
a reload can publish on the way between two configurations of several, answers every host.
What is before a port is looked up among domains alone: not among aliases, and not without
the dot it may end in.
-/
namespace Eunha.Tenants

/-! ### Reading a host -/

/-- The host as it is read, case, surrounding space and a trailing dot set aside, or a numeric
port as well. -/
def Reads (h x : Host) : Prop :=
  x = normalizeHost h ∨ ∃ name port, normalizeHost h = name ++ ':' :: port ∧
    port.all Char.isDigit = true ∧ x = trimDots name

def HostOf (configs : List TenantConfig) (s : Tenant) (x : Host) : Prop :=
  ∃ t ∈ configs, t.host = normalizeHost s.state.config.domain ∧ x ∈ t.instanceHosts

def Lone (configs : List TenantConfig) (s : Tenant) : Prop :=
  ∃ t, configs = [t] ∧ t.host = normalizeHost s.state.config.domain

def Named (before after : List TenantConfig) (h : Host) (s : Tenant) : Prop :=
  ∃ x, Reads h x ∧ (HostOf before s x ∨ HostOf after s x)

def Registry.slot (r : Registry) (name : Host) : Option Slot :=
  r.byHost.lookup ((r.aliases.lookup name).getD name)

structure Dispatched (r : Registry) (before after : List TenantConfig) (h : Host) : Prop where
  named : ∀ s, r.lookup h = .serving s → Named before after h s ∨ Lone before s ∨ Lone after s
  answered : 1 < r.byHost.entries.length → ∀ x d s, Reads h x →
    (x = d ∨ r.aliases.lookup x = some d) → r.byHost.lookup d = some (.serving s) →
    r.lookup h = .serving s

structure Plain (r : Registry) (before after : List TenantConfig) (h : Host) : Prop where
  lone : ∀ s, r.only = some s → Named before after h s ∨ Lone before s ∨ Lone after s
  port : 1 < r.byHost.entries.length → ∀ name port, normalizeHost h = name ++ ':' :: port →
    port.all Char.isDigit = true → ∀ d s, (trimDots name = d ∨
      r.aliases.lookup (trimDots name) = some d) → r.byHost.lookup d = some (.serving s) →
    r.slot (normalizeHost h) = some (.serving s) ∨
      r.slot (normalizeHost h) = none ∧ name = d

theorem toLower_ne_dot {c : Char} (h : c ≠ '.') : c.toLower ≠ '.' := by
  rw [Char.toLower]
  split_ifs with hupper
  · intro heq
    have hval : c.val + ('a'.val - 'A'.val) = '.'.val := congrArg Char.val heq
    have hlow := hupper.1
    have hhigh := hupper.2
    simp only [UInt32.le_iff_toNat_le, ge_iff_le] at hlow hhigh
    have hnat := congrArg UInt32.toNat hval
    rw [UInt32.toNat_add] at hnat
    have ha : ('a'.val - 'A'.val).toNat = 32 := by decide
    have hdot : ('.'.val).toNat = 46 := by decide
    have hA : ('A'.val).toNat = 65 := by decide
    have hZ : ('Z'.val).toNat = 90 := by decide
    omega
  · exact h

theorem trimDots_normalizeHost (h : Host) : trimDots (normalizeHost h) = normalizeHost h := by
  rw [trimDots, List.rdropWhile_eq_self_iff]
  intro hne hdot
  have hne' : trimDots (Sanitizer.trim h) ≠ [] := fun hnil => hne (by rw [normalizeHost, hnil]; rfl)
  have hlast := List.rdropWhile_last_not _ _ hne'
  rw [decide_eq_true_eq] at hlast hdot
  simp only [normalizeHost, List.getLast_map] at hdot
  exact toLower_ne_dot hlast hdot

theorem rsplitColon_append {name port : Host} (h : ':' ∉ port) :
    rsplitColon (name ++ ':' :: port) = some (name, port) := by
  have hport : ∀ c ∈ port.reverse, decide (c ≠ ':') = true := fun c hc =>
    decide_eq_true fun heq => h (heq ▸ List.mem_reverse.mp hc)
  have hreverse : (name ++ ':' :: port).reverse = port.reverse ++ ':' :: name.reverse := by simp
  rw [rsplitColon, if_pos (by simp), List.rdropWhile, List.rtakeWhile, hreverse,
    List.dropWhile_append_of_pos hport, List.takeWhile_append_of_pos hport]
  simp

theorem rsplitColon_eq_some {host name port : Host} (h : rsplitColon host = some (name, port)) :
    host = name ++ ':' :: port := by
  rw [rsplitColon] at h
  split_ifs at h with hcolon
  obtain ⟨rfl, rfl⟩ := Prod.mk.inj (Option.some.inj h)
  have hne : host.rdropWhile (· ≠ ':') ≠ [] := by
    intro hnil
    exact of_decide_eq_true (List.rdropWhile_eq_nil_iff.mp hnil ':' hcolon) rfl
  have hlast := List.rdropWhile_last_not _ _ hne
  have hlast : (host.rdropWhile (· ≠ ':')).getLast hne = ':' := by simpa using hlast
  have hsplit := List.dropLast_append_getLast hne
  rw [hlast] at hsplit
  calc host = host.rdropWhile (· ≠ ':') ++ host.rtakeWhile (· ≠ ':') :=
        List.rdropWhile_append_rtakeWhile.symm
    _ = ((host.rdropWhile (· ≠ ':')).dropLast ++ [':']) ++ host.rtakeWhile (· ≠ ':') := by
        rw [hsplit]
    _ = _ := by simp

theorem colon_notMem {port : Host} (h : port.all Char.isDigit = true) : ':' ∉ port := fun hin =>
  absurd (List.all_eq_true.mp h ':' hin) (by decide)

/-! ### Published registries -/

structure Published (r : Registry) (configs : List TenantConfig) : Prop where
  distinct : Distinct configs
  registry : ∃ byHost, r = .withAliases byHost (aliases configs)
  configured : ∀ h s, r.byHost.lookup h = some s → ∃ t ∈ configs, t.host = h
  host : ∀ h s, r.byHost.lookup h = some (.serving s) → normalizeHost s.state.config.domain = h

section Published
variable {fingerprint : Config → UInt64} {p m : Process} {configs before after : List TenantConfig}
  {answers : Answers} {r : Registry} {h : Host} {s : Tenant}

theorem Settled.published (hs : Settled fingerprint p configs) :
    Published p.registry configs where
  distinct := hs.distinct
  registry := ⟨_, hs.registry⟩
  configured := fun h s hslot => hs.configured h (AList.lookup_isSome.mp (by rw [hslot]; rfl))
  host := by
    intro h s hserving
    obtain ⟨r, hr, hstate⟩ := (hs.agrees h).1 s hserving
    exact hstate ▸ hs.host hr

theorem Settled.published_out (hs : Settled fingerprint p configs) (hafter : Distinct after) :
    Published (.withAliases (p.outOfService (p.plan fingerprint after)) (aliases after)) after where
  distinct := hafter
  registry := ⟨_, rfl⟩
  configured := by
    intro h s hslot
    change (p.outOfService _).lookup h = some s at hslot
    rw [lookup_outOfService] at hslot
    split_ifs at hslot with hrestart hstop
    · obtain ⟨t, ht, hhost, -⟩ := hs.mem_restart.mp hrestart
      exact ⟨t, ht, hhost⟩
    · by_contra hnone
      refine hstop (mem_stop_plan.mpr ⟨?_, fun t ht hhost => hnone ⟨t, ht, hhost⟩⟩)
      exact AList.lookup_isSome.mp (by rw [hslot]; rfl)
  host := by
    intro h s hserving
    change (p.outOfService _).lookup h = _ at hserving
    rw [lookup_outOfService] at hserving
    split_ifs at hserving
    · cases hserving
    · exact hs.published.host h s hserving

theorem Passed.published (h : Passed fingerprint m before after) : Published m.registry after := by
  cases h with
  | between hp => exact hp.settled.published
  | @reloading p m configs next answers hp hm =>
      cases reload_cases fingerprint p after answers with
      | inl hrefused =>
          obtain ⟨_, hrefused⟩ := hrefused
          rw [hrefused] at hm
          cases hm
      | inr hcarried =>
          rw [hcarried.2] at hm
          obtain ⟨hregistry, -⟩ | rfl := mem_carryOut hm
          · rw [hregistry]
            exact hp.settled.published_out hcarried.1
          · exact (hp.settled.ended hcarried.1).published

theorem Published.lookup_aliases (hp : Published r configs) {x d : Host}
    (h : r.aliases.lookup x = some d) : ∃ t ∈ configs, t.host = d ∧ x ∈ t.instanceHosts := by
  obtain ⟨byHost, rfl⟩ := hp.registry
  obtain ⟨t, ht, hhost, hin⟩ := Tenants.lookup_aliases h
  exact ⟨t, ht, hhost, List.mem_cons_of_mem _ hin⟩

theorem Published.slot_eq (hp : Published r configs) {x d : Host} {slot : Slot}
    (h : x = d ∨ r.aliases.lookup x = some d) (hslot : r.byHost.lookup d = some slot) :
    r.slot x = some slot := by
  rw [Registry.slot]
  cases h with
  | inr halias =>
      rw [halias]
      exact hslot
  | inl heq =>
      obtain ⟨t, ht, hhost⟩ := hp.configured d slot hslot
      obtain ⟨byHost, rfl⟩ := hp.registry
      have hnone := hp.distinct.lookup_aliases_host ht
      rw [hhost, ← heq] at hnone
      change byHost.lookup (((aliases configs).lookup x).getD x) = _
      rw [hnone, Option.getD_none, heq]
      exact hslot

theorem Published.hostOf_slot (hp : Published r configs) {x : Host}
    (h : r.slot x = some (.serving s)) : HostOf configs s x := by
  rw [Registry.slot] at h
  cases halias : r.aliases.lookup x with
  | some d =>
      rw [halias] at h
      obtain ⟨t, ht, hhost, hin⟩ := hp.lookup_aliases halias
      exact ⟨t, ht, hhost.trans (hp.host d s h).symm, hin⟩
  | none =>
      rw [halias] at h
      obtain ⟨t, ht, hhost⟩ := hp.configured _ _ h
      refine ⟨t, ht, hhost.trans (hp.host _ s h).symm, ?_⟩
      rw [Option.getD_none] at hhost
      exact hhost ▸ host_mem_instanceHosts t

theorem only_of_several (hp : Published r configs) (hlen : 1 < r.byHost.entries.length) :
    r.only = none := by
  obtain ⟨byHost, rfl⟩ := hp.registry
  cases honly : (Registry.withAliases byHost (aliases configs)).only with
  | none => rfl
  | some s =>
      obtain ⟨host, hentries⟩ := only_withAliases honly
      change 1 < byHost.entries.length at hlen
      rw [hentries] at hlen
      exact absurd hlen (by simp)

theorem lookup_eq_serving (honly : r.only = none) :
    r.lookup h = .serving s ↔
      (r.slot (normalizeHost h)).or (r.beforePort (normalizeHost h)) = some (.serving s) := by
  have hslot : r.byHost.lookup ((r.aliases.lookup (normalizeHost h)).getD (normalizeHost h)) =
      r.slot (normalizeHost h) := rfl
  rw [Registry.lookup, honly]
  dsimp only
  rw [hslot]
  cases (r.slot (normalizeHost h)).or (r.beforePort (normalizeHost h)) with
  | none => simp
  | some slot =>
      cases slot with
      | serving t => simp
      | unavailable => simp

theorem beforePort_append {name port : Host} (hport : port.all Char.isDigit = true) :
    r.beforePort (name ++ ':' :: port) = r.byHost.lookup name := by
  rw [Registry.beforePort, rsplitColon_append (colon_notMem hport)]
  exact if_pos hport

theorem beforePort_eq_some {slot : Slot} (hslot : r.beforePort h = some slot) :
    ∃ name port, h = name ++ ':' :: port ∧ port.all Char.isDigit = true ∧
      r.byHost.lookup name = some slot := by
  rw [Registry.beforePort] at hslot
  cases hsplit : rsplitColon h with
  | none => rw [hsplit] at hslot; cases hslot
  | some parts =>
      obtain ⟨name, port⟩ := parts
      rw [hsplit] at hslot
      dsimp only at hslot
      split_ifs at hslot with hport
      exact ⟨name, port, rsplitColon_eq_some hsplit, hport, hslot⟩

/-! ### Requests and the tenants they name -/

theorem Published.named (hp : Published r after) (honly : r.only = none)
    (hlookup : r.lookup h = .serving s) : ∃ x, Reads h x ∧ HostOf after s x := by
  rw [lookup_eq_serving honly, Option.or_eq_some_iff] at hlookup
  obtain hslot | ⟨-, hport⟩ := hlookup
  · exact ⟨_, .inl rfl, hp.hostOf_slot hslot⟩
  · obtain ⟨name, port, heq, hdigits, hslot⟩ := beforePort_eq_some hport
    obtain ⟨t, ht, hhost⟩ := hp.configured name _ hslot
    refine ⟨trimDots name, .inr ⟨name, port, heq, hdigits, rfl⟩, t, ht, ?_, ?_⟩
    · exact hhost.trans (hp.host name s hslot).symm
    · rw [← hhost, TenantConfig.host, trimDots_normalizeHost]
      exact host_mem_instanceHosts t

theorem Published.plain_of_dispatched (hp : Published r after) (hd : Dispatched r before after h) :
    Plain r before after h where
  lone := by
    intro s honly
    exact hd.named s (by rw [Registry.lookup, honly])
  port := by
    intro hlen name port heq hdigits d s hnames hserving
    have honly := only_of_several hp hlen
    have hlookup := hd.answered hlen (trimDots name) d s
      (.inr ⟨name, port, heq, hdigits, rfl⟩) hnames hserving
    rw [lookup_eq_serving honly, Option.or_eq_some_iff] at hlookup
    refine hlookup.imp_right fun hafter => ⟨hafter.1, ?_⟩
    have hport := hafter.2
    rw [heq, beforePort_append hdigits] at hport
    rw [← hp.host name s hport, hp.host d s hserving]

theorem Published.dispatched_of_plain (hp : Published r after) (hplain : Plain r before after h) :
    Dispatched r before after h where
  named := by
    intro s hlookup
    cases honly : r.only with
    | some s' =>
        rw [Registry.lookup, honly] at hlookup
        exact Lookup.serving.inj hlookup ▸ hplain.lone s' honly
    | none =>
        obtain ⟨x, hx, hhost⟩ := hp.named honly hlookup
        exact .inl ⟨x, hx, .inr hhost⟩
  answered := by
    intro hlen x d s hx hnames hserving
    rw [lookup_eq_serving (only_of_several hp hlen), Option.or_eq_some_iff]
    obtain rfl | ⟨name, port, heq, hdigits, rfl⟩ := hx
    · exact .inl (hp.slot_eq hnames hserving)
    · refine (hplain.port hlen name port heq hdigits d s hnames hserving).imp_right ?_
      rintro ⟨hnone, rfl⟩
      refine ⟨hnone, ?_⟩
      rw [heq, beforePort_append hdigits]
      exact hserving

/-- At every moment of every sequence of reloads a host is handed to the tenant it names
exactly when it is plain. -/
theorem dispatched_iff (hm : Passed fingerprint m before after) (h : Host) :
    Dispatched m.registry before after h ↔ Plain m.registry before after h :=
  ⟨hm.published.plain_of_dispatched, hm.published.dispatched_of_plain⟩

end Published

/-! ### Seoul and Busan -/

theorem dispatched_seoul :
    Dispatched served.registry seoulBusan seoulBusan " Seoul.Earth.".toList := by
  refine (dispatched_iff (.between reached_served) _).mpr ⟨fun s honly => ?_, ?_⟩
  · cases honly
  · intro _ name port heq
    have hcolon : ':' ∉ normalizeHost " Seoul.Earth.".toList := by decide +kernel
    rw [heq] at hcolon
    exact absurd (List.mem_append_right _ List.mem_cons_self) hcolon

instance (configs : List TenantConfig) (s : Tenant) (x : Host) : Decidable (HostOf configs s x) :=
  inferInstanceAs (Decidable (∃ t ∈ configs, _ ∧ _))

theorem reads_of_colon_notMem {h x : Host} (hx : Reads h x) (hcolon : ':' ∉ normalizeHost h) :
    x = normalizeHost h := by
  obtain heq | ⟨name, port, heq, -⟩ := hx
  · exact heq
  · rw [heq] at hcolon
    exact absurd (List.mem_append_right _ List.mem_cons_self) hcolon

def seoulSpace : TenantConfig :=
  { tenant "seoul.earth" "" with
    config := { (tenant "seoul.earth" "").config with aliases := ["seoul.space".toList] } }

def aliased : Process :=
  started hash [seoulSpace, tenant "busan.earth" ""] allButDaegu
    ⟨"127.0.0.1:3000", 256, 50, none⟩

theorem reached_aliased : Reached hash aliased [seoulSpace, tenant "busan.earth" ""] :=
  .start (show start hash [seoulSpace, tenant "busan.earth" ""] allButDaegu = .ok aliased from rfl)

/-- Seoul kept, Busan removed, Daegu added. -/
def replaced : List TenantConfig := [tenant "seoul.earth" "", tenant "daegu.earth" ""]

def loneSeoul : Process :=
  { served with
    registry := .withAliases (served.outOfService (served.plan hash replaced)) (aliases replaced) }

theorem passed_loneSeoul : Passed hash loneSeoul seoulBusan replaced := by
  refine @Passed.reloading hash served loneSeoul seoulBusan replaced allButDaegu
    reached_served ?_
  have hchecked : reloadable replaced allButDaegu served.settings = .ok () := by decide +kernel
  rw [Process.reload, hchecked]
  exact List.mem_append_left _ (List.mem_append_left _ List.mem_cons_self)

def seoul : Tenant := ⟨⟨0, (tenant "seoul.earth" "").config⟩, some 64⟩

example : (loneSeoul.registry.lookup ['x']) = .serving seoul := by decide +kernel

theorem alias_port_and_lone :
    (Passed hash aliased [seoulSpace, tenant "busan.earth" ""]
        [seoulSpace, tenant "busan.earth" ""] ∧
      aliased.registry.lookup "seoul.space:443".toList = .unknown ∧
      ¬Dispatched aliased.registry [seoulSpace, tenant "busan.earth" ""]
        [seoulSpace, tenant "busan.earth" ""] "seoul.space:443".toList) ∧
    Passed hash loneSeoul seoulBusan replaced ∧
      loneSeoul.registry.lookup "busan.earth".toList = .serving seoul ∧
      ¬Dispatched loneSeoul.registry seoulBusan replaced "busan.earth".toList := by
  have hunknown : aliased.registry.lookup "seoul.space:443".toList = .unknown := by
    decide +kernel
  have hseoul : loneSeoul.registry.lookup "busan.earth".toList = .serving seoul := by
    decide +kernel
  refine ⟨⟨.between reached_aliased, hunknown, fun h => ?_⟩, passed_loneSeoul, hseoul, fun h => ?_⟩
  · have hreads : Reads "seoul.space:443".toList "seoul.space".toList :=
      .inr ⟨"seoul.space".toList, "443".toList, by decide +kernel, by decide +kernel,
        by decide +kernel⟩
    have hserving : ∃ s, aliased.registry.byHost.lookup "seoul.earth".toList =
        some (.serving s) := ⟨⟨⟨0, seoulSpace.config⟩, some 64⟩, by decide +kernel⟩
    obtain ⟨s, hserving⟩ := hserving
    have hanswer := h.answered (by decide +kernel) _ _ s hreads (.inr (by decide +kernel)) hserving
    rw [hunknown] at hanswer
    cases hanswer
  · obtain ⟨x, hx, hhost⟩ | ⟨t, heq, -⟩ | ⟨t, heq, -⟩ := h.named seoul hseoul
    · have hplain := reads_of_colon_notMem hx (by decide +kernel)
      rw [hplain] at hhost
      exact absurd hhost (by decide +kernel)
    · exact absurd (congrArg List.length heq) (show ¬seoulBusan.length = 1 by decide)
    · exact absurd (congrArg List.length heq) (show ¬replaced.length = 1 by decide)

end Eunha.Tenants
