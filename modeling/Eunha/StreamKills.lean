import Eunha.Runs
import Eunha.StreamBus
import Mathlib.Logic.Function.Basic
import Mathlib.Order.Nat

/-!
# Streams of a revoked session

A connection is authenticated once, then listens to the system channels of its token and
its account, then to the channels asked for. Each listener is a task of its own, and all
of them feed one queue that the connection is served from. A kill ends the connection where
it was listened for as it was published, was not among messages skipped, and was queued
before the events published after it.
-/
namespace Eunha.StreamKills
open Runs StreamBus

/-! ### The connection -/

/-- The system channels: `timeline:access_token:<id>` and `timeline:system:<id>`. -/
inductive System where
  | token
  | account
  deriving DecidableEq

inductive Message where
  | kill
  | filtersChanged
  deriving DecidableEq

inductive Outgoing where
  | text (event : ℕ)
  | kill
  deriving DecidableEq

/-- A listener of one channel, kept under the channels it was asked for with. -/
structure Listener where
  key : String
  channel : String
  queue : List ℕ

inductive Stage where
  | authenticate
  /-- To subscribe to this system channel. -/
  | system (channel : System)
  | resolve
  /-- To subscribe to these channels. -/
  | streams (key : String) (channels : List String)
  | serving
  | closed
  deriving DecidableEq

structure Connection where
  ws : Bool
  /-- The token was revoked, the account suspended or its user disabled. -/
  revoked : System → Bool
  stage : Stage
  system : System → Option (List Message)
  listeners : List Listener
  out : List Outgoing
  sent : List ℕ
  published : ℕ
  /-- How many events were published before the first kill. -/
  killed : Option ℕ

/-- Before a request is authenticated. -/
def opening (ws : Bool) : Connection where
  ws := ws
  revoked := fun _ => false
  stage := .authenticate
  system := fun _ => none
  listeners := []
  out := []
  sent := []
  published := 0
  killed := none

def Connection.close (s : Connection) : Connection :=
  { s with stage := .closed, system := fun _ => none, listeners := [], out := [] }

/-- There is a connection, or one is being made. -/
def Stage.isOpen : Stage → Bool
  | .authenticate => false
  | .closed => false
  | _ => true

/-! ### Steps -/

/-- The next statement before the connection is served. It is answered by the channels the
request or the message resolves to, if it may have them. -/
def goOn (s : Connection) (answer : Option (List String)) : Connection :=
  match s.stage with
  | .authenticate =>
      if s.revoked .token || s.revoked .account then s.close
      else if !s.ws && answer.isNone then s.close
      else { s with stage := .system .token }
  | .system .token =>
      { s with system := Function.update s.system .token (some []), stage := .system .account }
  | .system .account =>
      { s with system := Function.update s.system .account (some []), stage := .resolve }
  | .resolve =>
      match answer with
      | none => if s.ws then { s with stage := .serving } else s.close
      | some channels =>
          if s.listeners.any (·.key == ";".intercalate channels) then { s with stage := .serving }
          else { s with stage := .streams (";".intercalate channels) channels }
  | .streams _ [] => { s with stage := .serving }
  | .streams key (channel :: channels) =>
      { s with
        listeners := s.listeners ++ [⟨key, channel, []⟩]
        stage := .streams key channels }
  | .serving => s
  | .closed => s

def ask (s : Connection) : Connection :=
  if s.ws && s.stage = .serving then { s with stage := .resolve } else s

def unsubscribe (s : Connection) (key : String) : Connection :=
  if s.ws && s.stage = .serving then
    { s with listeners := s.listeners.filter (·.key ≠ key) }
  else s

def publish (s : Connection) (channel : String) : Connection :=
  { s with
    listeners := s.listeners.map fun l =>
      if l.channel = channel then { l with queue := l.queue ++ [s.published] } else l
    published := s.published + 1 }

def Connection.tell (s : Connection) (channel : System) (m : Message) : Connection :=
  { s with system := Function.update s.system channel ((s.system channel).map (· ++ [m])) }

/-- `kill_account` and `kill_tokens`, once what they tell of was written. -/
def kill (s : Connection) (channel : System) : Connection :=
  if s.revoked channel then
    { s.tell channel .kill with killed := some (s.killed.getD s.published) }
  else s

/-- What a listener still receives. Messages missed by falling behind are skipped. -/
def caughtUp {M : Type} (queue : List M) : List M :=
  queue.drop (queue.length - channelCapacity)

def hear (s : Connection) (channel : System) : Connection :=
  match s.system channel with
  | none => s
  | some queue =>
      match caughtUp queue with
      | [] => s
      | .kill :: rest =>
          { s with
            system := Function.update s.system channel (some rest)
            out := s.out ++ [.kill] }
      | .filtersChanged :: rest =>
          { s with system := Function.update s.system channel (some rest) }

def listen (s : Connection) (place : ℕ) (passes : Bool) : Connection :=
  match s.listeners[place]? with
  | none => s
  | some l =>
      match caughtUp l.queue with
      | [] => s
      | e :: rest =>
          { s with
            listeners := s.listeners.set place { l with queue := rest }
            out := if passes then s.out ++ [.text e] else s.out }

def serve (s : Connection) : Connection :=
  if s.stage = .serving then
    match s.out with
    | [] => s
    | .text e :: rest => { s with out := rest, sent := s.sent ++ [e] }
    | .kill :: _ => s.close
  else s

inductive Op where
  | goOn (answer : Option (List String))
  | ask
  | unsubscribe (key : String)
  | publish (channel : String)
  | filtersChanged
  | revoke (channel : System)
  | kill (channel : System)
  | hear (channel : System)
  | listen (place : ℕ) (passes : Bool)
  | serve
  /-- The client goes, does not answer a ping, or the instance is stopped. -/
  | leave

def step (s : Connection) : Op → Connection
  | .goOn answer => goOn s answer
  | .ask => ask s
  | .unsubscribe key => unsubscribe s key
  | .publish channel => publish s channel
  | .filtersChanged => s.tell .account .filtersChanged
  | .revoke channel => { s with revoked := Function.update s.revoked channel true }
  | .kill channel => kill s channel
  | .hear channel => hear s channel
  | .listen place passes => listen s place passes
  | .serve => serve s
  | .leave => s.close

/-! ### What a kill is for -/

/-- Nothing published before the kill is still on its way, nor is the kill. -/
structure Processed (k : ℕ) (s : Connection) : Prop where
  system : ∀ channel queue, s.system channel = some queue → .kill ∉ queue
  listeners : ∀ l ∈ s.listeners, ∀ e ∈ l.queue, k ≤ e
  texts : ∀ e, .text e ∈ s.out → k ≤ e
  kill : .kill ∉ s.out

/-- No event published after the kill was sent, and once it and what was published before it
are processed there is no connection. -/
def Kept (s : Connection) : Prop :=
  ∀ k, s.killed = some k →
    (∀ e ∈ s.sent, e < k) ∧ (Processed k s → s.stage.isOpen = false)

def Guard (s : Connection) : Op → Prop
  | .kill channel =>
      s.killed = none → s.revoked channel → s.stage.isOpen → (s.system channel).isSome
  | .hear channel =>
      ∀ queue, s.system channel = some queue → .kill ∈ queue → .kill ∈ caughtUp queue
  | .listen place true =>
      ∀ k l e, s.killed = some k → s.listeners[place]? = some l →
        (caughtUp l.queue).head? = some e → k ≤ e → .kill ∈ s.out
  | _ => True

/-! ### What is queued before a kill -/

/-- The events that are sent before the connection is closed. -/
def due : List Outgoing → List ℕ
  | [] => []
  | .kill :: _ => []
  | .text e :: rest => e :: due rest

theorem mem_out_of_due {e : ℕ} {out : List Outgoing} (h : e ∈ due out) : .text e ∈ out := by
  induction out with
  | nil => cases h
  | cons o rest ih =>
      cases o with
      | kill => cases h
      | text x =>
          rcases List.mem_cons.1 h with rfl | h
          · exact List.mem_cons_self
          · exact List.mem_cons_of_mem _ (ih h)

theorem due_append_kill (out : List Outgoing) : due (out ++ [.kill]) = due out := by
  induction out with
  | nil => rfl
  | cons o rest ih =>
      cases o with
      | kill => rfl
      | text x => exact congrArg (x :: ·) ih

theorem due_append_of_kill {out : List Outgoing} (more : List Outgoing) (h : .kill ∈ out) :
    due (out ++ more) = due out := by
  induction out with
  | nil => cases h
  | cons o rest ih =>
      cases o with
      | kill => rfl
      | text x =>
          apply congrArg (x :: ·)
          exact ih ((List.mem_cons.1 h).resolve_left nofun)

theorem mem_due_append_text {e x : ℕ} {out : List Outgoing}
    (h : e ∈ due (out ++ [.text x])) : e ∈ due out ∨ e = x := by
  induction out with
  | nil => exact .inr (List.mem_singleton.1 h)
  | cons o rest ih =>
      cases o with
      | kill => cases h
      | text y =>
          rcases List.mem_cons.1 h with rfl | h
          · exact .inl List.mem_cons_self
          · exact (ih h).imp_left (List.mem_cons_of_mem _)

/-! ### The invariant -/

def Stage.unheard : Stage → System → Bool
  | .authenticate, _ => true
  | .system .token, _ => true
  | .system .account, .account => true
  | _, _ => false

/-- Only what was published is on its way, and no channel is subscribed to twice. -/
structure Sound (s : Connection) : Prop where
  sent : ∀ e ∈ s.sent, e < s.published
  out : ∀ e, .text e ∈ s.out → e < s.published
  queued : ∀ l ∈ s.listeners, ∀ e ∈ l.queue, e < s.published
  unheard : ∀ channel, s.stage.unheard channel → s.system channel = none

inductive Coming (s : Connection) : Prop
  | refused (channel : System) : s.stage = .authenticate → s.revoked channel → Coming s
  | closed : s.stage = .closed → Coming s
  | queued : .kill ∈ s.out → Coming s
  | heard (channel : System) (queue : List Message) :
      s.system channel = some queue → .kill ∈ queue → Coming s

structure Ending (k : ℕ) (s : Connection) : Prop where
  sent : ∀ e ∈ s.sent, e < k
  due : ∀ e ∈ due s.out, e < k
  coming : Coming s

structure Inv (s : Connection) : Prop where
  sound : Sound s
  ending : ∀ k, s.killed = some k → Ending k s

theorem Ending.kept {k : ℕ} {s : Connection} (h : Ending k s) :
    (∀ e ∈ s.sent, e < k) ∧ (Processed k s → s.stage.isOpen = false) := by
  apply And.intro h.sent
  intro hp
  cases h.coming with
  | refused _ hs _ => rw [hs]; rfl
  | closed hs => rw [hs]; rfl
  | queued ho => exact absurd ho hp.kill
  | heard channel queue hq hk => exact absurd hk (hp.system channel queue hq)

theorem Inv.kept {s : Connection} (h : Inv s) : Kept s := fun k hk => (h.ending k hk).kept

theorem inv_opening (ws : Bool) : Inv (opening ws) where
  sound :=
    { sent := nofun
      out := nofun
      queued := nofun
      unheard := fun _ _ => rfl }
  ending := nofun

/-! ### The invariant is kept -/

theorem inv_close {s : Connection} (h : Inv s) : Inv s.close where
  sound :=
    { sent := h.sound.sent
      out := nofun
      queued := nofun
      unheard := fun _ _ => rfl }
  ending := fun k hk =>
    { sent := (h.ending k hk).sent
      due := nofun
      coming := .closed rfl }

theorem inv_listening {s t : Connection} (h : Inv s) (hsent : t.sent = s.sent)
    (hout : t.out = s.out) (hpub : t.published = s.published) (hkilled : t.killed = s.killed)
    (hqueued : ∀ l ∈ t.listeners, l ∈ s.listeners ∨ l.queue = [])
    (hunheard : ∀ channel, t.stage.unheard channel → t.system channel = none)
    (hcoming : ∀ k, s.killed = some k → Coming s → Coming t) : Inv t where
  sound :=
    { sent := by rw [hsent, hpub]; exact h.sound.sent
      out := by rw [hout, hpub]; exact h.sound.out
      queued := by
        intro l hl e he
        rw [hpub]
        rcases hqueued l hl with hl | hl
        · exact h.sound.queued l hl e he
        · rw [hl] at he
          cases he
      unheard := hunheard }
  ending := by
    intro k hk
    rw [hkilled] at hk
    have hold := h.ending k hk
    exact
      { sent := by rw [hsent]; exact hold.sent
        due := by rw [hout]; exact hold.due
        coming := hcoming k hk hold.coming }

theorem Coming.of_open {s t : Connection} (h : Coming s) (hs : s.stage.isOpen)
    (hout : t.out = s.out)
    (hsystem : ∀ channel queue, s.system channel = some queue →
      t.system channel = some queue) : Coming t := by
  cases h with
  | refused _ hst _ => rw [hst] at hs; cases hs
  | closed hst => rw [hst] at hs; cases hs
  | queued ho => exact .queued (hout ▸ ho)
  | heard channel queue hq hk => exact .heard channel queue (hsystem channel queue hq) hk

theorem inv_goOn {s : Connection} (answer : Option (List String)) (h : Inv s) :
    Inv (goOn s answer) := by
  unfold goOn
  cases hs : s.stage with
  | authenticate =>
      dsimp only
      split
      · exact inv_close h
      next hrev =>
        split
        · exact inv_close h
        · refine inv_listening h rfl rfl rfl rfl (fun l hl => .inl hl) ?_ ?_
          · exact fun channel _ => h.sound.unheard channel (by rw [hs]; rfl)
          · intro k _ hc
            cases hc with
            | refused channel _ hr => cases channel <;> simp [hr] at hrev
            | closed hst => rw [hst] at hs; cases hs
            | queued ho => exact .queued ho
            | heard channel queue hq hk => exact .heard channel queue hq hk
  | system channel =>
      have hnone := h.sound.unheard channel (by rw [hs]; cases channel <;> rfl)
      have hkeep : ∀ c queue, s.system c = some queue →
          Function.update s.system channel (some []) c = some queue := by
        intro c queue hq
        have hne : c ≠ channel := by
          rintro rfl
          rw [hnone] at hq
          cases hq
        rw [Function.update_of_ne hne]
        exact hq
      cases channel with
      | token =>
          refine inv_listening h rfl rfl rfl rfl (fun l hl => .inl hl) ?_ ?_
          · intro c hc
            cases c with
            | token => cases hc
            | account =>
                have hother : System.account ≠ .token := by decide
                dsimp only
                rw [Function.update_of_ne hother]
                exact h.sound.unheard .account (by rw [hs]; rfl)
          · exact fun k _ hc => hc.of_open (by rw [hs]; rfl) rfl hkeep
      | account =>
          refine inv_listening h rfl rfl rfl rfl (fun l hl => .inl hl) nofun ?_
          exact fun k _ hc => hc.of_open (by rw [hs]; rfl) rfl hkeep
  | resolve =>
      have hopen : s.stage.isOpen := by rw [hs]; rfl
      cases answer with
      | none =>
          dsimp only
          split
          · refine inv_listening h rfl rfl rfl rfl (fun l hl => .inl hl) nofun ?_
            exact fun k _ hc => hc.of_open hopen rfl fun _ _ hq => hq
          · exact inv_close h
      | some channels =>
          dsimp only
          split
          all_goals
            refine inv_listening h rfl rfl rfl rfl (fun l hl => .inl hl) nofun ?_
            exact fun k _ hc => hc.of_open hopen rfl fun _ _ hq => hq
  | streams key channels =>
      have hopen : s.stage.isOpen := by rw [hs]; rfl
      cases channels with
      | nil =>
          refine inv_listening h rfl rfl rfl rfl (fun l hl => .inl hl) nofun ?_
          exact fun k _ hc => hc.of_open hopen rfl fun _ _ hq => hq
      | cons channel channels =>
          refine inv_listening h rfl rfl rfl rfl ?_ nofun ?_
          · intro l hl
            rcases List.mem_append.1 hl with hl | hl
            · exact .inl hl
            · rw [List.mem_singleton.1 hl]
              exact .inr rfl
          · exact fun k _ hc => hc.of_open hopen rfl fun _ _ hq => hq
  | serving => exact h
  | closed => exact h

theorem inv_ask {s : Connection} (h : Inv s) : Inv (ask s) := by
  unfold ask
  split
  next hs =>
    have hopen : s.stage.isOpen := by simp_all [Stage.isOpen]
    refine inv_listening h rfl rfl rfl rfl (fun l hl => .inl hl) nofun ?_
    exact fun k _ hc => hc.of_open hopen rfl fun _ _ hq => hq
  · exact h

theorem inv_unsubscribe {s : Connection} (key : String) (h : Inv s) :
    Inv (unsubscribe s key) := by
  unfold unsubscribe
  split
  next hs =>
    have hopen : s.stage.isOpen := by simp_all [Stage.isOpen]
    refine inv_listening h rfl rfl rfl rfl ?_ h.sound.unheard ?_
    · exact fun l hl => .inl (List.mem_of_mem_filter hl)
    · exact fun k _ hc => hc.of_open hopen rfl fun _ _ hq => hq
  · exact h

theorem Coming.congr {s t : Connection} (h : Coming s) (hstage : t.stage = s.stage)
    (hrevoked : ∀ channel, s.revoked channel → t.revoked channel)
    (hout : .kill ∈ s.out → .kill ∈ t.out)
    (hsystem : ∀ channel queue, s.system channel = some queue → .kill ∈ queue →
      .kill ∈ t.out ∨ ∃ queue', t.system channel = some queue' ∧ .kill ∈ queue') :
    Coming t := by
  cases h with
  | refused channel hs hr => exact .refused channel (hstage.trans hs) (hrevoked channel hr)
  | closed hs => exact .closed (hstage.trans hs)
  | queued ho => exact .queued (hout ho)
  | heard channel queue hq hk =>
      rcases hsystem channel queue hq hk with ho | ⟨queue', hq', hk'⟩
      · exact .queued ho
      · exact .heard channel queue' hq' hk'

theorem inv_publish {s : Connection} (channel : String) (h : Inv s) :
    Inv (publish s channel) where
  sound :=
    { sent := fun e he => Nat.lt_succ_of_lt (h.sound.sent e he)
      out := fun e he => Nat.lt_succ_of_lt (h.sound.out e he)
      queued := by
        intro l hl e he
        obtain ⟨old, hold, rfl⟩ := List.mem_map.1 hl
        have hlt := h.sound.queued old hold
        apply Nat.lt_succ_of_le
        split at he
        · rcases List.mem_append.1 he with he | he
          · exact (hlt e he).le
          · exact (List.mem_singleton.1 he).le
        · exact (hlt e he).le
      unheard := h.sound.unheard }
  ending := fun k hk =>
    { sent := (h.ending k hk).sent
      due := (h.ending k hk).due
      coming := (h.ending k hk).coming.congr rfl (fun _ hr => hr) id
        fun _ queue hq hkill => .inr ⟨queue, hq, hkill⟩ }

theorem sound_tell {s : Connection} (channel : System) (m : Message) (h : Sound s) :
    Sound (s.tell channel m) where
  sent := h.sent
  out := h.out
  queued := h.queued
  unheard := by
    intro c hc
    have hnone := h.unheard c hc
    by_cases he : c = channel
    · subst he
      apply (Function.update_self ..).trans
      rw [hnone]
      rfl
    · exact (Function.update_of_ne he _ _).trans hnone

theorem tell_system {s : Connection} {channel : System} {queue : List Message} (c : System)
    (m : Message) (h : s.system channel = some queue) :
    ∃ queue', (s.tell c m).system channel = some queue' ∧ ∀ n ∈ queue, n ∈ queue' := by
  by_cases he : channel = c
  · subst he
    refine ⟨queue ++ [m], ?_, fun n hn => List.mem_append_left _ hn⟩
    apply (Function.update_self ..).trans
    rw [h]
    rfl
  · exact ⟨queue, (Function.update_of_ne he _ _).trans h, fun n hn => hn⟩

theorem coming_tell {s : Connection} (c : System) (m : Message) (h : Coming s) :
    Coming (s.tell c m) := by
  refine h.congr (t := s.tell c m) rfl (fun _ hr => hr) id ?_
  intro channel queue hq hk
  obtain ⟨queue', hq', hsub⟩ := tell_system c m hq
  exact .inr ⟨queue', hq', hsub _ hk⟩

theorem inv_tell {s : Connection} (c : System) (m : Message) (h : Inv s) :
    Inv (s.tell c m) where
  sound := sound_tell c m h.sound
  ending := fun k hk =>
    { sent := (h.ending k hk).sent
      due := (h.ending k hk).due
      coming := coming_tell c m (h.ending k hk).coming }

theorem inv_revoke {s : Connection} (channel : System) (h : Inv s) :
    Inv { s with revoked := Function.update s.revoked channel true } where
  sound :=
    { sent := h.sound.sent
      out := h.sound.out
      queued := h.sound.queued
      unheard := h.sound.unheard }
  ending := by
    intro k hk
    have hold := h.ending k hk
    refine { sent := hold.sent, due := hold.due, coming := ?_ }
    refine hold.coming.congr rfl ?_ id fun _ queue hq hkill => .inr ⟨queue, hq, hkill⟩
    intro c hr
    by_cases hc : c = channel
    · subst hc
      exact Function.update_self ..
    · exact (Function.update_of_ne hc _ _).trans hr

theorem coming_kill {s : Connection} {channel : System} (hr : s.revoked channel)
    (hg : s.stage.isOpen → (s.system channel).isSome) : Coming (s.tell channel .kill) := by
  cases hs : s.stage with
  | authenticate => exact .refused channel hs hr
  | closed => exact .closed hs
  | _ =>
      obtain ⟨queue, hq⟩ := Option.isSome_iff_exists.1 (hg (by rw [hs]; rfl))
      refine .heard channel (queue ++ [.kill]) ?_ (List.mem_append_right _ List.mem_cons_self)
      apply (Function.update_self ..).trans
      rw [hq]
      rfl

theorem inv_kill {s : Connection} (channel : System) (h : Inv s)
    (hg : Guard s (.kill channel)) : Inv (kill s channel) := by
  unfold kill
  split
  next hr =>
    have hsound := sound_tell channel .kill h.sound
    constructor
    · exact
        { sent := hsound.sent
          out := hsound.out
          queued := hsound.queued
          unheard := hsound.unheard }
    · intro k hk
      have hcoming : ∀ first, Coming (s.tell channel .kill) →
          Coming { s.tell channel .kill with killed := first } :=
        fun _ hc => hc.congr rfl (fun _ hr => hr) id
          fun _ queue hq hkill => .inr ⟨queue, hq, hkill⟩
      cases hold : s.killed with
      | none =>
          rw [hold] at hk
          obtain rfl : s.published = k := Option.some.inj hk
          exact
            { sent := h.sound.sent
              due := fun e he => h.sound.out e (mem_out_of_due he)
              coming := hcoming _ (coming_kill hr (hg hold hr)) }
      | some first =>
          rw [hold] at hk
          obtain rfl : first = k := Option.some.inj hk
          have hend := h.ending first hold
          exact
            { sent := hend.sent
              due := hend.due
              coming := hcoming _ (coming_tell channel .kill hend.coming) }
  · exact h

theorem inv_hear {s : Connection} (channel : System) (h : Inv s)
    (hg : Guard s (.hear channel)) : Inv (hear s channel) := by
  unfold hear
  cases hq : s.system channel with
  | none => exact h
  | some queue =>
      have hother : ∀ rest c, s.stage.unheard c →
          Function.update s.system channel (some rest) c = none := by
        intro rest c hc
        have hnone := h.sound.unheard c hc
        have hne : c ≠ channel := by
          rintro rfl
          rw [hnone] at hq
          cases hq
        exact (Function.update_of_ne hne _ _).trans hnone
      -- A kill in the queue of this channel is among what is left of it.
      have hleft : ∀ m rest, caughtUp queue = m :: rest → ∀ c old, s.system c = some old →
          .kill ∈ old → m = .kill ∨ ∃ queue', Function.update s.system channel (some rest) c =
            some queue' ∧ .kill ∈ queue' := by
        intro m rest hcaught c old hold hk
        by_cases hc : c = channel
        · subst hc
          obtain rfl : queue = old := Option.some.inj (hq.symm.trans hold)
          have hmem := hg queue hq hk
          rw [hcaught] at hmem
          rcases List.mem_cons.1 hmem with hm | hm
          · exact .inl hm.symm
          · exact .inr ⟨rest, Function.update_self .., hm⟩
        · exact .inr ⟨old, (Function.update_of_ne hc _ _).trans hold, hk⟩
      dsimp only
      cases hcaught : caughtUp queue with
      | nil => exact h
      | cons m rest =>
          cases m with
          | kill =>
              dsimp only
              constructor
              · exact
                  { sent := h.sound.sent
                    out := by
                      intro e he
                      rcases List.mem_append.1 he with he | he
                      · exact h.sound.out e he
                      · cases List.mem_singleton.1 he
                    queued := h.sound.queued
                    unheard := hother rest }
              · intro k hk
                have hold := h.ending k hk
                exact
                  { sent := hold.sent
                    due := by
                      intro e he
                      apply hold.due
                      rwa [due_append_kill] at he
                    coming := .queued (List.mem_append_right _ List.mem_cons_self) }
          | filtersChanged =>
              dsimp only
              constructor
              · exact
                  { sent := h.sound.sent
                    out := h.sound.out
                    queued := h.sound.queued
                    unheard := hother rest }
              · intro k hk
                have hold := h.ending k hk
                refine { sent := hold.sent, due := hold.due, coming := ?_ }
                refine hold.coming.congr rfl (fun _ hr => hr) id ?_
                intro c old hc hkill
                exact .inr ((hleft _ rest hcaught c old hc hkill).resolve_left nofun)

theorem inv_listen {s : Connection} (place : ℕ) (passes : Bool) (h : Inv s)
    (hg : Guard s (.listen place passes)) : Inv (listen s place passes) := by
  unfold listen
  cases hl : s.listeners[place]? with
  | none => exact h
  | some l =>
      dsimp only
      cases hcaught : caughtUp l.queue with
      | nil => exact h
      | cons e rest =>
          have hlmem : l ∈ s.listeners := List.mem_of_getElem? hl
          have hin : ∀ x ∈ e :: rest, x ∈ l.queue := by
            intro x hx
            rw [← hcaught] at hx
            exact List.mem_of_mem_drop hx
          have he : e < s.published := h.sound.queued l hlmem e (hin e List.mem_cons_self)
          dsimp only
          constructor
          · refine
              { sent := h.sound.sent
                out := ?_
                queued := ?_
                unheard := h.sound.unheard }
            · intro x hx
              dsimp only at hx
              split at hx
              · rcases List.mem_append.1 hx with hx | hx
                · exact h.sound.out x hx
                · cases List.mem_singleton.1 hx
                  exact he
              · exact h.sound.out x hx
            · intro l' hl' x hx
              rcases List.mem_or_eq_of_mem_set hl' with hl' | rfl
              · exact h.sound.queued l' hl' x hx
              · exact h.sound.queued l hlmem x (hin x (List.mem_cons_of_mem _ hx))
          · intro k hk
            have hold := h.ending k hk
            refine { sent := hold.sent, due := ?_, coming := ?_ }
            · intro x hx
              cases passes with
              | false => exact hold.due x hx
              | true =>
                  -- An event published after the kill is queued behind it.
                  by_cases hke : k ≤ e
                  · have hkill := hg k l e hk hl (by rw [hcaught]; rfl) hke
                    apply hold.due
                    rwa [← due_append_of_kill [.text e] hkill]
                  · rcases mem_due_append_text hx with hx | rfl
                    · exact hold.due x hx
                    · exact Nat.lt_of_not_le hke
            · refine hold.coming.congr rfl (fun _ hr => hr) ?_
                fun _ queue hq hkill => .inr ⟨queue, hq, hkill⟩
              intro hkill
              cases passes with
              | false => exact hkill
              | true => exact List.mem_append_left _ hkill

theorem inv_serve {s : Connection} (h : Inv s) : Inv (serve s) := by
  unfold serve
  split
  next hs =>
    cases hout : s.out with
    | nil => exact h
    | cons o rest =>
        cases o with
        | kill => exact inv_close h
        | text e =>
            dsimp only
            have hsub : ∀ o ∈ rest, o ∈ s.out := fun o ho => hout ▸ List.mem_cons_of_mem _ ho
            constructor
            · refine
                { sent := ?_
                  out := fun x hx => h.sound.out x (hsub _ hx)
                  queued := h.sound.queued
                  unheard := h.sound.unheard }
              intro x hx
              rcases List.mem_append.1 hx with hx | hx
              · exact h.sound.sent x hx
              · cases List.mem_singleton.1 hx
                exact h.sound.out e (hout ▸ List.mem_cons_self)
            · intro k hk
              have hold := h.ending k hk
              have hdue : ∀ x ∈ e :: due rest, x < k := by
                intro x hx
                apply hold.due
                rwa [hout]
              refine { sent := ?_, due := fun x hx => hdue x (List.mem_cons_of_mem _ hx),
                       coming := ?_ }
              · intro x hx
                rcases List.mem_append.1 hx with hx | hx
                · exact hold.sent x hx
                · cases List.mem_singleton.1 hx
                  exact hdue e List.mem_cons_self
              · refine hold.coming.congr rfl (fun _ hr => hr) ?_
                  fun _ queue hq hkill => .inr ⟨queue, hq, hkill⟩
                intro hkill
                rw [hout] at hkill
                exact (List.mem_cons.1 hkill).resolve_left nofun
  · exact h

theorem inv_step (s : Connection) (o : Op) (h : Inv s) (hg : Guard s o) : Inv (step s o) := by
  cases o with
  | goOn answer => exact inv_goOn answer h
  | ask => exact inv_ask h
  | unsubscribe key => exact inv_unsubscribe key h
  | publish channel => exact inv_publish channel h
  | filtersChanged => exact inv_tell .account .filtersChanged h
  | revoke channel => exact inv_revoke channel h
  | kill channel => exact inv_kill channel h hg
  | hear channel =>
      rw [step]
      exact inv_hear channel h hg
  | listen place passes =>
      rw [step]
      exact inv_listen place passes h hg
  | serve => exact inv_serve h
  | leave => exact inv_close h

/-- A kill keeps its promise all through a run whose steps meet the guard. -/
theorem killed_throughout (ws : Bool) (ops : List Op) (hg : Guarded step Guard (opening ws) ops) :
    ∀ before, before <+: ops → Kept (run step (opening ws) before) := by
  rintro before ⟨after, rfl⟩
  apply Inv.kept
  apply run_guarded inv_step _ _ (inv_opening ws)
  exact ((guarded_append _ _ _).1 hg).1

def opens (channel : String) : List Op :=
  [.goOn (some [channel]), .goOn none, .goOn none, .goOn (some [channel]), .goOn none, .goOn none]

/-- An event is sent, the token is revoked, and the kill is served before the next event. -/
def killedInTime : List Op :=
  opens "timeline:7" ++
    [.publish "timeline:7", .listen 0 true, .serve, .revoke .token, .kill .token,
      .publish "timeline:7", .hear .token, .listen 0 true, .serve]

theorem killed_killedInTime : Kept (run step (opening true) killedInTime) := by
  refine killed_throughout true killedInTime ?_ killedInTime (List.prefix_refl _)
  refine ⟨trivial, trivial, trivial, trivial, trivial, trivial, trivial,
    (fun _ _ _ hk => nomatch hk), trivial, trivial, (fun _ _ _ => rfl), trivial, ?_, ?_,
    trivial, trivial⟩
  · intro queue hq _
    obtain rfl : [Message.kill] = queue := Option.some.inj hq
    decide
  · intro _ _ _ _ _ _ _
    exact List.mem_cons_self

/-- The token is revoked between its authentication and the subscription to its channel. -/
def killedUnheard : List Op :=
  .goOn (some ["timeline:7"]) :: .revoke .token :: .kill .token :: (opens "timeline:7").tail ++
    [.publish "timeline:7", .listen 0 true, .serve]

def killOvertaken : List Op :=
  opens "timeline:7" ++
    [.revoke .token, .kill .token, .publish "timeline:7", .listen 0 true, .serve]

theorem unheard_or_overtaken :
    ¬ Kept (run step (opening true) killedUnheard) ∧
      ¬ Kept (run step (opening true) killOvertaken) := by
  constructor
  · intro h
    have hkilled : (run step (opening true) killedUnheard).killed = some 0 := by decide +kernel
    have hsent : (run step (opening true) killedUnheard).sent = [0] := by decide +kernel
    have hlt := (h 0 hkilled).1 0 (by rw [hsent]; exact List.mem_cons_self)
    exact absurd hlt (Nat.lt_irrefl 0)
  · intro h
    have hkilled : (run step (opening true) killOvertaken).killed = some 0 := by decide +kernel
    have hsent : (run step (opening true) killOvertaken).sent = [0] := by decide +kernel
    have hlt := (h 0 hkilled).1 0 (by rw [hsent]; exact List.mem_cons_self)
    exact absurd hlt (Nat.lt_irrefl 0)

end Eunha.StreamKills
