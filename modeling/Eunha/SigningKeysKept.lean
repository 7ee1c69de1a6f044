import Eunha.SigningKeys

/-!
# Whether a signing key is kept

The writers clear the legacy columns whatever their insertion did, and leave a main keypair
that is there as it is, usable or not. So an account keeps its key through every run exactly
where it starts with one of the two places whole and nothing else in the way.
-/
namespace Eunha.SigningKeysKept
open Interleaving Runs SigningKeys

variable {gen : Generator} {config : Config}

/-! ### What is promised -/

/-- Whoever is said to have a key can sign, and the halves are of one pair. -/
structure Kept (gen : Generator) (config : Config) (s : Store) : Prop where
  signs : hasSigningKey config s.account = true → (signingKey config s.account).isSome = true
  paired : ∀ key, signingKey config s.account = some key →
    ∀ q, publicKey config s.account = some q → gen.Pair key.privateKey q
  returned : ∀ key ∈ s.returned, key.isSome = true

/-- Through every run the key is kept, and no step takes it away. -/
def NeverLost (gen : Generator) (config : Config) (a : LocalAccount) : Prop :=
  ∀ es : List (Event (Request gen) Answer),
    let c := run (machine gen config).step ⟨⟨a, []⟩, []⟩ es
    Kept gen config c.store ∧ ∀ e, (signingKey config c.store.account).isSome = true →
      (signingKey config ((machine gen config).step c e).store.account).isSome = true

/-! ### What it takes -/

def LegacyWhole (gen : Generator) (a : LocalAccount) : Prop :=
  (nonEmpty a.privateKey = none ∧ a.publicKey = "") ∨
    ∃ p, nonEmpty a.privateKey = some p ∧ gen.Pair p a.publicKey

def LegacyPaired (gen : Generator) (a : LocalAccount) : Prop :=
  ∀ p, nonEmpty a.privateKey = some p → a.publicKey ≠ "" → gen.Pair p a.publicKey

/-- The public half beside a stored keypair: its own, or the legacy column's. -/
def advertised (a : LocalAccount) (k : Keypair) : Option String :=
  (nonEmpty (some k.publicKey)).or (nonEmpty (some a.publicKey))

/-- The main keypair is usable, its private half can be decrypted, and the public half
beside it is of the same pair. -/
def KeypairWhole (gen : Generator) (now : ℕ) (encryptor : Encryptor) (a : LocalAccount) : Prop :=
  ∃ k keySealed p, a.keypair = some k ∧ usable now k = true ∧
    nonEmpty k.privateKey = some keySealed ∧ encryptor.decrypt keySealed = some p ∧
      ∀ q, advertised a k = some q → gen.Pair p q

def Ready (gen : Generator) (config : Config) (a : LocalAccount) : Prop :=
  match config.encryptor with
  | none => a.stored config = none ∧ LegacyWhole gen a
  | some encryptor =>
      (a.keypair = none ∧ LegacyPaired gen a) ∨ KeypairWhole gen config.now encryptor a

/-! ### The readers -/

theorem nonEmpty_eq_some {key : Option String} {p : String} :
    nonEmpty key = some p ↔ key = some p ∧ p ≠ "" := by
  rw [nonEmpty, Option.filter_eq_some_iff, decide_eq_true_eq]

theorem publicKey_of_stored {a : LocalAccount} {k : Keypair} (h : a.stored config = some k) :
    publicKey config a = advertised a k := by
  rw [publicKey, h, advertised, Option.map_some]
  cases nonEmpty (some k.publicKey) <;> rfl

theorem publicKey_of_legacy {a : LocalAccount} (h : a.stored config = none) :
    publicKey config a = nonEmpty (some a.publicKey) := by
  rw [publicKey, h]
  rfl

theorem signingKey_of_stored {a : LocalAccount} {k : Keypair} (h : a.stored config = some k) :
    signingKey config a = opened config k := by
  rw [signingKey, h]

theorem signingKey_of_legacy {a : LocalAccount} (h : a.stored config = none) :
    signingKey config a = a.legacyKey := by
  rw [signingKey, h]

theorem hasSigningKey_of_legacy {a : LocalAccount} (h : a.stored config = none) :
    hasSigningKey config a = (nonEmpty a.privateKey).isSome := by
  simp [hasSigningKey, h]

theorem opened_eq_some {encryptor : Encryptor} (henc : config.encryptor = some encryptor)
    {k : Keypair} {key : SigningKey} :
    opened config k = some key ↔
      ∃ keySealed p, nonEmpty k.privateKey = some keySealed ∧
        encryptor.decrypt keySealed = some p ∧ key = ⟨p, k.publicKey⟩ := by
  simp only [opened, henc, Option.bind_eq_bind, Option.bind_some, Option.bind_eq_some_iff,
    Option.pure_def, Option.some.injEq]
  constructor
  · rintro ⟨keySealed, hsealed, p, hp, rfl⟩
    exact ⟨keySealed, p, hsealed, hp, rfl⟩
  · rintro ⟨keySealed, p, hsealed, hp, rfl⟩
    exact ⟨keySealed, hsealed, p, hp, rfl⟩

theorem opened_of_none (henc : config.encryptor = none) (k : Keypair) :
    opened config k = none := by
  simp [opened, henc]

/-! ### A whole keypair -/

theorem KeypairWhole.stored {encryptor : Encryptor} {a : LocalAccount}
    (h : KeypairWhole gen config.now encryptor a) :
    ∃ k, a.keypair = some k ∧ a.stored config = some k := by
  obtain ⟨k, _, _, hk, husable, _⟩ := h
  exact ⟨k, hk, by rw [LocalAccount.stored, hk, Option.filter_some, husable]; rfl⟩

theorem KeypairWhole.signs {encryptor : Encryptor} (henc : config.encryptor = some encryptor)
    {a : LocalAccount} (h : KeypairWhole gen config.now encryptor a) :
    ∃ key, signingKey config a = some key ∧
      ∀ q, publicKey config a = some q → gen.Pair key.privateKey q := by
  obtain ⟨k', hk', hstored⟩ := h.stored
  obtain ⟨k, keySealed, p, hk, _, hsealed, hp, hpair⟩ := h
  obtain rfl := Option.some.inj (hk.symm.trans hk')
  refine ⟨⟨p, k.publicKey⟩, ?_, ?_⟩
  · rw [signingKey_of_stored hstored]
    exact (opened_eq_some henc).mpr ⟨keySealed, p, hsealed, hp, rfl⟩
  · rw [publicKey_of_stored hstored]
    exact hpair

theorem KeypairWhole.clearLegacy {now : ℕ} {encryptor : Encryptor} {a : LocalAccount}
    (h : KeypairWhole gen now encryptor a) : KeypairWhole gen now encryptor a.clearLegacy := by
  obtain ⟨k, keySealed, p, hk, husable, hsealed, hp, hpair⟩ := h
  refine ⟨k, keySealed, p, hk, husable, hsealed, hp, fun q hq => hpair q ?_⟩
  have hlegacy : nonEmpty (some a.clearLegacy.publicKey) = none := by
    simp [nonEmpty, LocalAccount.clearLegacy]
  rw [advertised, hlegacy, Option.or_none] at hq
  rw [advertised, hq, Option.some_or]

theorem KeypairWhole.insertKeypair {now : ℕ} {encryptor : Encryptor} {a : LocalAccount}
    (h : KeypairWhole gen now encryptor a) (keySealed q : String) :
    a.insertKeypair keySealed q = a := by
  obtain ⟨k, _, _, hk, _⟩ := h
  rw [LocalAccount.insertKeypair, hk, Option.some_or, ← hk]

theorem whole_insertKeypair {now n : ℕ} {encryptor : Encryptor} {a : LocalAccount}
    (hnone : a.keypair = none) {p q : String}
    (hpair : ∀ q', (nonEmpty (some q)).or (nonEmpty (some a.publicKey)) = some q' → gen.Pair p q') :
    KeypairWhole gen now encryptor (a.insertKeypair (encryptor.encrypt n p) q) := by
  refine ⟨⟨some (encryptor.encrypt n p), q, false, none⟩, encryptor.encrypt n p, p, ?_, ?_, ?_, ?_,
    hpair⟩
  · simp [LocalAccount.insertKeypair, hnone]
  · simp [usable]
  · exact nonEmpty_eq_some.mpr ⟨rfl, encryptor.encrypt_ne n p⟩
  · exact encryptor.decrypt_encrypt n p

theorem ready_of_whole {encryptor : Encryptor} (henc : config.encryptor = some encryptor)
    {a : LocalAccount} (h : KeypairWhole gen config.now encryptor a) : Ready gen config a := by
  rw [Ready, henc]
  exact .inr h

theorem Ready.whole {encryptor : Encryptor} (henc : config.encryptor = some encryptor)
    {a : LocalAccount} (h : Ready gen config a) (hk : a.keypair.isSome = true) :
    KeypairWhole gen config.now encryptor a := by
  rw [Ready, henc] at h
  rcases h with ⟨hnone, _⟩ | hwhole
  · rw [hnone] at hk
    cases hk
  · exact hwhole

/-! ### What is ready is kept -/

theorem legacyKey_eq_some {a : LocalAccount} {key : SigningKey} :
    a.legacyKey = some key ↔ nonEmpty a.privateKey = some key.privateKey ∧
      key.publicKey = a.publicKey := by
  rw [LocalAccount.legacyKey, Option.map_eq_some_iff]
  constructor
  · rintro ⟨p, hp, rfl⟩
    exact ⟨hp, rfl⟩
  · rintro ⟨hp, hq⟩
    exact ⟨key.privateKey, hp, by rw [← hq]⟩

theorem LegacyWhole.paired {a : LocalAccount} (h : LegacyWhole gen a) : LegacyPaired gen a := by
  intro p hp _
  rcases h with ⟨hnone, _⟩ | ⟨p', hp', hpair⟩
  · rw [hnone] at hp
    cases hp
  · rw [hp] at hp'
    rw [Option.some.inj hp']
    exact hpair

theorem kept_of_legacy {a : LocalAccount} (hstored : a.stored config = none)
    (hpaired : LegacyPaired gen a) :
    (hasSigningKey config a = true → (signingKey config a).isSome = true) ∧
      ∀ key, signingKey config a = some key →
        ∀ q, publicKey config a = some q → gen.Pair key.privateKey q := by
  rw [hasSigningKey_of_legacy hstored, signingKey_of_legacy hstored, publicKey_of_legacy hstored]
  constructor
  · intro h
    rw [LocalAccount.legacyKey, Option.isSome_map]
    exact h
  · intro key hkey q hq
    obtain ⟨hq, hne⟩ := nonEmpty_eq_some.mp hq
    obtain rfl := Option.some.inj hq
    exact hpaired key.privateKey (legacyKey_eq_some.mp hkey).1 hne

theorem Ready.kept {a : LocalAccount} (h : Ready gen config a) :
    (hasSigningKey config a = true → (signingKey config a).isSome = true) ∧
      ∀ key, signingKey config a = some key →
        ∀ q, publicKey config a = some q → gen.Pair key.privateKey q := by
  cases henc : config.encryptor with
  | none =>
      rw [Ready, henc] at h
      exact kept_of_legacy h.1 h.2.paired
  | some encryptor =>
      have hready := h
      rw [Ready, henc] at h
      rcases h with ⟨hnone, hpaired⟩ | hwhole
      · exact kept_of_legacy (by rw [LocalAccount.stored, hnone]; rfl) hpaired
      · obtain ⟨key, hkey, hpair⟩ := hwhole.signs henc
        refine ⟨fun _ => by rw [hkey]; rfl, fun key' hkey' => ?_⟩
        obtain rfl := Option.some.inj (hkey.symm.trans hkey')
        exact hpair

/-! ### Statements -/

/-- What a call relies on before its next statement. -/
def PhaseSound (config : Config) (a : LocalAccount) : Phase gen → Prop
  | .fill _ => config.encryptor = none
  | .insert encryptor _ _ => config.encryptor = some encryptor
  | .clear _ => config.encryptor.isSome = true ∧ a.keypair.isSome = true
  | .readKeypair => config.encryptor.isSome = true ∧ a.keypair.isSome = true
  | .readLegacy => False
  | .select encryptor => config.encryptor = some encryptor
  | .move encryptor p q =>
      config.encryptor = some encryptor ∧
        (a.keypair.isSome = true ∨ (q ≠ "" → gen.Pair p q))

theorem PhaseSound.mono {a a' : LocalAccount}
    (hkeypair : a.keypair.isSome = true → a'.keypair.isSome = true) {phase : Phase gen}
    (h : PhaseSound config a phase) : PhaseSound config a' phase := by
  cases phase with
  | fill key => exact h
  | insert encryptor key reads => exact h
  | clear reads => exact ⟨h.1, hkeypair h.2⟩
  | readKeypair => exact ⟨h.1, hkeypair h.2⟩
  | readLegacy => exact h
  | select encryptor => exact h
  | move encryptor p q => exact ⟨h.1, h.2.imp_left hkeypair⟩

/-- A statement leaves the account ready, and able to sign where it was. -/
structure Goes (gen : Generator) (config : Config) (s : Store)
    (r : Store × Option (Phase gen)) : Prop where
  ready : Ready gen config r.1.account
  returned : ∀ key ∈ r.1.returned, key.isSome = true
  keypair : s.account.keypair.isSome = true → r.1.account.keypair.isSome = true
  next : ∀ phase, r.2 = some phase → PhaseSound config r.1.account phase
  signs : (signingKey config s.account).isSome = true →
    (signingKey config r.1.account).isSome = true

theorem Goes.stay {s : Store} (hready : Ready gen config s.account)
    (hreturned : ∀ key ∈ s.returned, key.isSome = true) {next : Option (Phase gen)}
    (hnext : ∀ phase, next = some phase → PhaseSound config s.account phase) :
    Goes gen config s (s, next) :=
  ⟨hready, hreturned, fun h => h, hnext, fun h => h⟩

theorem Goes.whole {s : Store} {encryptor : Encryptor} (henc : config.encryptor = some encryptor)
    (hreturned : ∀ key ∈ s.returned, key.isSome = true) {a : LocalAccount}
    (hwhole : KeypairWhole gen config.now encryptor a) {next : Option (Phase gen)}
    (hnext : ∀ phase, next = some phase → PhaseSound config a phase) :
    Goes gen config s (s.set a, next) := by
  refine ⟨ready_of_whole henc hwhole, hreturned, fun _ => ?_, hnext, fun _ => ?_⟩
  · obtain ⟨k, hk, _⟩ := hwhole.stored
    rw [Store.set, hk]
    rfl
  · obtain ⟨key, hkey, _⟩ := hwhole.signs henc
    rw [Store.set, hkey]
    rfl

theorem whole_fillLegacy {a : LocalAccount} (h : LegacyWhole gen a) (key : NewKey gen) :
    ∃ p, nonEmpty (a.fillLegacy key).privateKey = some p ∧
      gen.Pair p (a.fillLegacy key).publicKey := by
  rcases h with ⟨hp, hq⟩ | ⟨p, hp, hpair⟩
  · refine ⟨key.privateKey, ?_, ?_⟩
    · rw [LocalAccount.fillLegacy, hp]
      exact nonEmpty_eq_some.mpr ⟨rfl, gen.privateKey_ne key.pair⟩
    · simp only [LocalAccount.fillLegacy, hq, if_true]
      exact key.pair
  · refine ⟨p, ?_, ?_⟩
    · rw [LocalAccount.fillLegacy, hp]
      exact nonEmpty_eq_some.mpr ⟨rfl, (nonEmpty_eq_some.mp hp).2⟩
    · simp only [LocalAccount.fillLegacy, if_neg (gen.publicKey_ne hpair)]
      exact hpair

theorem goes_fill {s : Store} (hready : Ready gen config s.account)
    (hreturned : ∀ key ∈ s.returned, key.isSome = true) (henc : config.encryptor = none)
    (key : NewKey gen) :
    Goes gen config s
      ((s.set (s.account.fillLegacy key)).returns (s.account.fillLegacy key).legacyKey, none) := by
  rw [Ready, henc] at hready
  obtain ⟨hstored, hwhole⟩ := hready
  obtain ⟨p, hp, hpair⟩ := whole_fillLegacy hwhole key
  have hlegacy : (s.account.fillLegacy key).legacyKey.isSome = true := by
    rw [LocalAccount.legacyKey, hp]
    rfl
  have hstored' : (s.account.fillLegacy key).stored config = none := hstored
  refine ⟨?_, ?_, fun h => h, (fun _ h => nomatch h), fun _ => ?_⟩
  · rw [Ready, henc]
    exact ⟨hstored', .inr ⟨p, hp, hpair⟩⟩
  · intro k hk
    rcases List.mem_append.mp hk with hk | hk
    · exact hreturned k hk
    · rw [List.mem_singleton.mp hk]
      exact hlegacy
  · change (signingKey config (s.account.fillLegacy key)).isSome = true
    rw [signingKey_of_legacy hstored']
    exact hlegacy

theorem whole_of_insert {n : ℕ} {encryptor : Encryptor} (henc : config.encryptor = some encryptor)
    {a : LocalAccount} (hready : Ready gen config a) {p q : String} (hne : q ≠ "")
    (hpair : gen.Pair p q) :
    KeypairWhole gen config.now encryptor (a.insertKeypair (encryptor.encrypt n p) q) := by
  rw [Ready, henc] at hready
  rcases hready with ⟨hnone, _⟩ | hwhole
  · refine whole_insertKeypair hnone fun q' hq' => ?_
    rw [nonEmpty_eq_some.mpr ⟨rfl, hne⟩, Option.some_or] at hq'
    rw [← Option.some.inj hq']
    exact hpair
  · rw [hwhole.insertKeypair]
    exact hwhole

theorem whole_of_move {n : ℕ} {encryptor : Encryptor} (henc : config.encryptor = some encryptor)
    {a : LocalAccount} (hready : Ready gen config a) {p q : String}
    (hpair : a.keypair.isSome = true ∨ (q ≠ "" → gen.Pair p q)) :
    KeypairWhole gen config.now encryptor
      (a.insertKeypair (encryptor.encrypt n p) q).clearLegacy := by
  have hready' := hready
  rw [Ready, henc] at hready
  rcases hready with ⟨hnone, _⟩ | hwhole
  · have hmoved : (a.insertKeypair (encryptor.encrypt n p) q).clearLegacy =
        a.clearLegacy.insertKeypair (encryptor.encrypt n p) q := rfl
    rw [hmoved]
    refine whole_insertKeypair (a := a.clearLegacy) hnone fun q' hq' => ?_
    have hlegacy : nonEmpty (some a.clearLegacy.publicKey) = none := by
      simp [nonEmpty, LocalAccount.clearLegacy]
    rw [hlegacy, Option.or_none] at hq'
    obtain ⟨hq, hne⟩ := nonEmpty_eq_some.mp hq'
    obtain rfl := Option.some.inj hq
    rcases hpair with hsome | hpair
    · rw [hnone] at hsome
      cases hsome
    · exact hpair hne
  · rw [hwhole.insertKeypair]
    exact hwhole.clearLegacy

theorem goes_exec {s : Store} {phase : Phase gen} (hready : Ready gen config s.account)
    (hreturned : ∀ key ∈ s.returned, key.isSome = true)
    (hphase : PhaseSound config s.account phase) (w : Answer) :
    Goes gen config s (exec config s phase w) := by
  unfold exec
  split
  · exact .stay hready hreturned fun _ h => nomatch h
  · cases phase with
    | fill key => exact goes_fill hready hreturned hphase key
    | insert encryptor key reads =>
        have hwhole := whole_of_insert (n := w.draw) hphase hready (gen.publicKey_ne key.pair)
          key.pair
        refine .whole hphase hreturned hwhole fun phase h => ?_
        obtain rfl := Option.some.inj h
        obtain ⟨k, hk, _⟩ := hwhole.stored
        exact ⟨by rw [hphase]; rfl, by rw [hk]; rfl⟩
    | clear reads =>
        obtain ⟨encryptor, henc⟩ := Option.isSome_iff_exists.mp hphase.1
        have hwhole := (hready.whole henc hphase.2).clearLegacy
        refine .whole henc hreturned hwhole fun phase h => ?_
        split at h
        · obtain rfl := Option.some.inj h
          exact hphase
        · cases h
    | readKeypair =>
        obtain ⟨encryptor, henc⟩ := Option.isSome_iff_exists.mp hphase.1
        have hwhole := hready.whole henc hphase.2
        obtain ⟨k, _, hstored⟩ := hwhole.stored
        obtain ⟨key, hkey, _⟩ := hwhole.signs henc
        rw [signingKey_of_stored hstored] at hkey
        simp only [hstored, hkey]
        refine ⟨hready, fun r hr => ?_, fun h => h, (fun _ h => nomatch h), fun h => h⟩
        rcases List.mem_append.mp hr with hr | hr
        · exact hreturned r hr
        · rw [List.mem_singleton.mp hr]
          rfl
    | readLegacy => exact hphase.elim
    | select encryptor =>
        dsimp only
        split
        · exact .stay hready hreturned fun _ h => nomatch h
        next p hp =>
          refine .stay hready hreturned fun phase h => ?_
          obtain rfl := Option.some.inj h
          refine ⟨hphase, ?_⟩
          rw [Ready, hphase] at hready
          rcases hready with ⟨_, hpaired⟩ | hwhole
          · exact .inr (hpaired p hp)
          · obtain ⟨k, hk, _⟩ := hwhole.stored
            exact .inl (by rw [hk]; rfl)
    | move encryptor p q =>
        refine .whole hphase.1 hreturned (whole_of_move hphase.1 hready hphase.2) ?_
        exact fun _ h => nomatch h

theorem goes_enter {s : Store} (hready : Ready gen config s.account)
    (hreturned : ∀ key ∈ s.returned, key.isSome = true) (r : Request gen) :
    Goes gen config s (enter config s r) := by
  cases r with
  | storeLocal key =>
      rw [enter]
      split
      next henc =>
        refine .stay hready hreturned fun phase h => ?_
        obtain rfl := Option.some.inj h
        exact henc
      next henc =>
        refine .stay hready hreturned fun phase h => ?_
        obtain rfl := Option.some.inj h
        exact henc
  | storeSealed key =>
      rw [enter]
      split
      · exact .stay hready hreturned fun _ h => nomatch h
      next henc =>
        refine .stay hready hreturned fun phase h => ?_
        obtain rfl := Option.some.inj h
        exact henc
  | migrate =>
      rw [enter]
      split
      · exact .stay hready hreturned fun _ h => nomatch h
      next henc =>
        refine .stay hready hreturned fun phase h => ?_
        obtain rfl := Option.some.inj h
        exact henc

/-! ### Runs -/

def Inv (config : Config) (s : Store) (calls : List (Phase gen)) : Prop :=
  Ready gen config s.account ∧ (∀ key ∈ s.returned, key.isSome = true) ∧
    ∀ phase ∈ calls, PhaseSound config s.account phase

theorem Goes.inv {s : Store} {r : Store × Option (Phase gen)} {calls : List (Phase gen)}
    (h : Goes gen config s r) (hcalls : ∀ phase ∈ calls, PhaseSound config s.account phase) :
    Inv config r.1 (r.2.toList ++ calls) := by
  refine ⟨h.ready, h.returned, fun phase hphase => ?_⟩
  rcases List.mem_append.mp hphase with hnext | hphase
  · exact h.next phase (Option.mem_toList.mp hnext)
  · exact (hcalls phase hphase).mono h.keypair

theorem invariant (gen : Generator) (config : Config) :
    Invariant (machine gen config) (Inv config) fun _ _ _ => True where
  perm := fun hperm h => ⟨h.1, h.2.1, fun phase hphase => h.2.2 phase (hperm.mem_iff.mpr hphase)⟩
  enter := fun r h _ => (goes_enter h.1 h.2.1 r).inv h.2.2
  exec := fun w h =>
    (goes_exec h.1 h.2.1 (h.2.2 _ (by simp)) w).inv fun phase hphase =>
      h.2.2 phase (List.mem_cons_of_mem _ hphase)

theorem inv_run {a : LocalAccount} (ha : Ready gen config a)
    (es : List (Event (Request gen) Answer)) :
    let c := run (machine gen config).step ⟨⟨a, []⟩, []⟩ es
    Inv config c.store c.calls := by
  refine (invariant gen config).run ⟨⟨a, []⟩, []⟩ es ⟨ha, by simp, by simp⟩ ?_
  rw [guarded_iff_forall_split]
  intro before e after _
  cases e with
  | request r => trivial
  | advance k w => trivial

theorem signs_step {c : Interleaving.Config Store (Phase gen)} (hc : Inv config c.store c.calls)
    (e : Event (Request gen) Answer)
    (h : (signingKey config c.store.account).isSome = true) :
    (signingKey config ((machine gen config).step c e).store.account).isSome = true := by
  cases e with
  | request r => exact (goes_enter hc.1 hc.2.1 r).signs h
  | advance k w =>
      cases hcall : c.calls[k]? with
      | none =>
          rw [Machine.step, hcall]
          exact h
      | some phase =>
          rw [Machine.step, hcall]
          exact (goes_exec hc.1 hc.2.1 (hc.2.2 phase (List.mem_of_getElem? hcall)) w).signs h

theorem Ready.neverLost {a : LocalAccount} (ha : Ready gen config a) : NeverLost gen config a := by
  intro es c
  have hc := inv_run ha es
  obtain ⟨hsigns, hpaired⟩ := hc.1.kept
  exact ⟨⟨hsigns, hpaired, hc.2.1⟩, fun e => signs_step hc e⟩

/-! ### What is kept was ready -/

/-- One call of `store_local`, and this many of its statements. -/
def storing (key : NewKey gen) (statements : ℕ) : List (Event (Request gen) Answer) :=
  .request (.storeLocal key) :: List.replicate statements (.advance 0 ⟨false, 0⟩)

theorem run_storing_legacy (henc : config.encryptor = none) (a : LocalAccount)
    (key : NewKey gen) :
    (run (machine gen config).step ⟨⟨a, []⟩, []⟩ (storing key 1)).store.account =
      a.fillLegacy key := by
  simp [storing, run, machine, Machine.step, enter, exec, henc, replace, Store.set,
    Store.returns]

/-- With encryption, `store_local` keeps the keypair there is, clears the columns, and
returns the key it reads then. -/
theorem run_storing_sealed {encryptor : Encryptor} (henc : config.encryptor = some encryptor)
    {a : LocalAccount} {k : Keypair} (hk : a.keypair = some k) (key : NewKey gen) :
    (run (machine gen config).step ⟨⟨a, []⟩, []⟩ (storing key 4)).store.returned =
      [if usable config.now k then opened config k else none] := by
  cases husable : usable config.now k <;>
    simp [storing, run, machine, Machine.step, enter, exec, henc, replace, Store.set,
      Store.returns, LocalAccount.insertKeypair, LocalAccount.clearLegacy, hk,
      LocalAccount.stored, LocalAccount.legacyKey, husable, nonEmpty, List.replicate,
      Option.filter]

theorem NeverLost.now {a : LocalAccount} (h : NeverLost gen config a) :
    Kept gen config ⟨a, []⟩ := (h []).1

theorem NeverLost.legacyWhole {a : LocalAccount} (h : NeverLost gen config a)
    (henc : config.encryptor = none) (hstored : a.stored config = none) : LegacyWhole gen a := by
  have hafter (key : NewKey gen) : ∀ p, (nonEmpty a.privateKey).getD key.privateKey = p → p ≠ "" →
      gen.Pair p (a.fillLegacy key).publicKey := by
    intro p hp hne
    have hkept := (h (storing key 1)).1
    have hstored' : (a.fillLegacy key).stored config = none := hstored
    have hq : (a.fillLegacy key).publicKey ≠ "" := by
      rw [LocalAccount.fillLegacy]
      split
      · exact gen.publicKey_ne key.pair
      next hne => exact hne
    refine hkept.paired ⟨p, (a.fillLegacy key).publicKey⟩ ?_ _ ?_
    · rw [run_storing_legacy henc, signingKey_of_legacy hstored', legacyKey_eq_some]
      refine ⟨nonEmpty_eq_some.mpr ⟨?_, hne⟩, rfl⟩
      rw [LocalAccount.fillLegacy, hp]
    · rw [run_storing_legacy henc, publicKey_of_legacy hstored']
      exact nonEmpty_eq_some.mpr ⟨rfl, hq⟩
  cases hp : nonEmpty a.privateKey with
  | none =>
      refine .inl ⟨hp, ?_⟩
      by_contra hq
      obtain ⟨p', q', hpair, _, hother⟩ := gen.another "" a.publicKey
      have := hafter ⟨p', q', hpair⟩ p' (by rw [hp]; rfl) (gen.privateKey_ne hpair)
      simp only [LocalAccount.fillLegacy, if_neg hq] at this
      exact hother this
  | some p =>
      have hne := (nonEmpty_eq_some.mp hp).2
      obtain ⟨p', q', hpair, hother, _⟩ := gen.another p a.publicKey
      have := hafter ⟨p', q', hpair⟩ p (by rw [hp]; rfl) hne
      by_cases hq : a.publicKey = ""
      · simp only [LocalAccount.fillLegacy, if_pos hq] at this
        exact absurd this hother
      · simp only [LocalAccount.fillLegacy, if_neg hq] at this
        exact .inr ⟨p, hp, this⟩

theorem exists_newKey (gen : Generator) : Nonempty (NewKey gen) := by
  obtain ⟨p, q, hpair, _⟩ := gen.another "" ""
  exact ⟨⟨p, q, hpair⟩⟩

theorem NeverLost.keypairWhole {a : LocalAccount} (h : NeverLost gen config a)
    {encryptor : Encryptor} (henc : config.encryptor = some encryptor) {k : Keypair}
    (hk : a.keypair = some k) : KeypairWhole gen config.now encryptor a := by
  obtain ⟨key⟩ := exists_newKey gen
  have hreturned := (h (storing key 4)).1.returned
  rw [run_storing_sealed henc hk] at hreturned
  have hsome := hreturned _ (List.mem_singleton.mpr rfl)
  split at hsome
  next husable =>
    obtain ⟨opens, hopens⟩ := Option.isSome_iff_exists.mp hsome
    obtain ⟨keySealed, p, hsealed, hp, rfl⟩ := (opened_eq_some henc).mp hopens
    have hstored : a.stored config = some k := by
      rw [LocalAccount.stored, hk, Option.filter_some, husable]
      rfl
    refine ⟨k, keySealed, p, hk, husable, hsealed, hp, fun q hq => ?_⟩
    refine h.now.paired ⟨p, k.publicKey⟩ ?_ q ?_
    · rw [signingKey_of_stored hstored]
      exact hopens
    · rw [publicKey_of_stored hstored]
      exact hq
  next => cases hsome

theorem NeverLost.ready {a : LocalAccount} (h : NeverLost gen config a) : Ready gen config a := by
  rw [Ready]
  split
  next henc =>
    have hstored : a.stored config = none := by
      cases hstored : a.stored config with
      | none => rfl
      | some k =>
          obtain ⟨key⟩ := exists_newKey gen
          have hkept := (h (storing key 1)).1
          have hsigns := hkept.signs
          rw [run_storing_legacy henc] at hsigns
          have hstored' : (a.fillLegacy key).stored config = some k := hstored
          rw [signingKey_of_stored hstored', opened_of_none henc] at hsigns
          refine absurd (hsigns ?_) (by simp)
          have hfilled : (nonEmpty (a.fillLegacy key).privateKey).isSome = true := by
            rw [LocalAccount.fillLegacy]
            cases hp : nonEmpty a.privateKey with
            | none =>
                rw [Option.getD_none, nonEmpty_eq_some.mpr ⟨rfl, gen.privateKey_ne key.pair⟩]
                rfl
            | some p =>
                rw [Option.getD_some, nonEmpty_eq_some.mpr ⟨rfl, (nonEmpty_eq_some.mp hp).2⟩]
                rfl
          rw [hasSigningKey, hfilled, Bool.or_true]
    exact ⟨hstored, h.legacyWhole henc hstored⟩
  next encryptor henc =>
    cases hk : a.keypair with
    | none =>
        refine .inl ⟨rfl, fun p hp hq => ?_⟩
        have hstored : a.stored config = none := by rw [LocalAccount.stored, hk]; rfl
        refine h.now.paired ⟨p, a.publicKey⟩ ?_ a.publicKey ?_
        · rw [signingKey_of_legacy hstored]
          exact legacyKey_eq_some.mpr ⟨hp, rfl⟩
        · rw [publicKey_of_legacy hstored]
          exact nonEmpty_eq_some.mpr ⟨rfl, hq⟩
    | some k => exact .inr (h.keypairWhole henc hk)

/-- A local account keeps its key through every run exactly where it is ready at first. -/
theorem never_lost_iff_ready (gen : Generator) (config : Config) (a : LocalAccount) :
    NeverLost gen config a ↔ Ready gen config a :=
  ⟨NeverLost.ready, Ready.neverLost⟩

section Examples

/-- Public halves that name their private ones. -/
def plainGenerator : Generator where
  Pair := fun p q => p ≠ "" ∧ q = "public " ++ p
  privateKey_ne := fun h => h.1
  publicKey_ne := by
    rintro p _ ⟨_, rfl⟩ h
    have := congrArg String.length h
    simp [String.length_append] at this
  another := by
    intro p q
    have hx : "x".length = 1 := by decide +kernel
    refine ⟨"x" ++ p ++ q, "public " ++ ("x" ++ p ++ q), ⟨?_, rfl⟩, ?_, ?_⟩
    · intro h
      have hlength := congrArg String.length h
      simp only [String.length_append, String.length_empty] at hlength
      omega
    · rintro ⟨_, h⟩
      have hlength := congrArg String.length h
      simp only [String.length_append] at hlength
      omega
    · rintro ⟨_, h⟩
      have hlength := congrArg String.length h
      simp only [String.length_append] at hlength
      omega

def plainEncryptor : Encryptor where
  encrypt := fun _ p => String.ofList ("sealed ".toList ++ p.toList)
  decrypt := fun s => some (String.ofList (s.toList.drop 7))
  encrypt_ne := by
    intro n p h
    have := congrArg String.toList h
    simp at this
  decrypt_encrypt := by
    intro n p
    simp

def revokedBeside : LocalAccount :=
  ⟨some ⟨some "sealed old", "public old", true, none⟩, some "new", "public new"⟩

/-- The migration clears the only key that signs. -/
theorem migration_loses_key :
    ¬ NeverLost plainGenerator ⟨0, some plainEncryptor⟩ revokedBeside := by
  intro h
  have hstep := (h [.request .migrate, .advance 0 ⟨false, 0⟩]).2 (.advance 0 ⟨false, 0⟩)
  exact absurd (hstep (by decide +kernel)) (by decide +kernel)

end Examples

end Eunha.SigningKeysKept
