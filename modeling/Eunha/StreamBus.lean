import Eunha.Interleaving
import Mathlib.Logic.Function.Basic
import Mathlib.Order.Nat

/-!
# The streaming bus

A process listens on one connection to the channels its streams ask for. A subscription
finds or makes its channel under a lock, and queues a command for Redis if it is the first.
The last one takes the channel away under the lock, and queues another. The commands are
run by a task beside them, whose connection may be lost. What is listened to comes to be
what is wanted, and nothing published after a subscription is missed, where two drops of
one channel never count each other and none joins a channel Redis has not confirmed.
-/
namespace Eunha.StreamBus
open Interleaving Runs

/-- How many messages a listener may fall behind on one channel before it misses some. -/
def channelCapacity : ℕ := 256

/-! ### The bus -/

inductive Command where
  | subscribe (channel : String) (ack : ℕ)
  | unsubscribe (channel : String)
  deriving DecidableEq

structure Published (M : Type) where
  connection : Option ℕ
  channel : String
  message : M

/-- Senders are numbered as they are made, each for one channel, and keep what they were
sent. So are the connections to Redis. -/
structure Bus (M : Type) where
  channels : String → Option ℕ
  senders : ℕ
  channelOf : ℕ → String
  log : ℕ → List M
  receivers : List ℕ
  commands : List Command
  connection : Option ℕ
  connections : ℕ
  /-- What Redis has the connection subscribed to. -/
  subscribed : String → Bool
  stream : List (String × M)
  waiting : List ℕ
  acked : List ℕ
  published : List (Published M)

/-- When a subscription was returned: on which connection, and after how many messages. -/
structure Since where
  connection : ℕ
  published : ℕ
  deriving DecidableEq

inductive Stage where
  /-- The channel was made, and its command is to be sent. -/
  | send
  | wait
  /-- The key that tells of the subscription is to be set. -/
  | tell (confirmed : Bool)
  /-- Returned, since when if without a warning. -/
  | live (since : Option Since)
  /-- The channel was taken away, and its command is to be sent. -/
  | unsubscribe
  | release
  deriving DecidableEq

/-- A subscription, from the first lock taken for it until its receiver is dropped: the place
in its sender's messages it started at, and that of the next one. -/
structure Subscription (M : Type) where
  channel : String
  sender : ℕ
  stage : Stage
  start : ℕ
  next : ℕ
  received : List M
  missed : Bool

variable {M : Type}

/-- Not being dropped, as far as the bus knows. -/
def Stage.listens : Stage → Bool
  | .unsubscribe => false
  | .release => false
  | _ => true

def Subscription.go (d : Subscription M) (stage : Stage) : Option (Subscription M) :=
  some { d with stage := stage }

/-! ### Subscribing and dropping -/

def newSubscription (b : Bus M) (channel : String) (sender : ℕ) (stage : Stage) :
    Subscription M where
  channel := channel
  sender := sender
  stage := stage
  start := (b.log sender).length
  next := (b.log sender).length
  received := []
  missed := false

/-- `subscribe`, under the lock. -/
def subscribe (b : Bus M) (channel : String) : Bus M × Option (Subscription M) :=
  match b.channels channel with
  | some sender =>
      ({ b with receivers := sender :: b.receivers },
        some (newSubscription b channel sender (.tell true)))
  | none =>
      ({ b with
          channels := Function.update b.channels channel (some b.senders)
          senders := b.senders + 1
          channelOf := Function.update b.channelOf b.senders channel
          receivers := b.senders :: b.receivers },
        some (newSubscription b channel b.senders .send))

def command (b : Bus M) (c : Command) : Bus M := { b with commands := b.commands ++ [c] }

/-- `recv`. Messages missed by falling behind are skipped. -/
def recv (b : Bus M) (d : Subscription M) : Subscription M :=
  if d.next + channelCapacity < (b.log d.sender).length then
    { d with next := (b.log d.sender).length - channelCapacity, missed := true }
  else
    match (b.log d.sender)[d.next]? with
    | none => d
    | some m => { d with next := d.next + 1, received := d.received ++ [m] }

/-- `drop`, under the lock. The receiver being dropped is still alive here. -/
def drop (b : Bus M) (d : Subscription M) : Bus M × Option (Subscription M) :=
  match b.channels d.channel with
  | none => (b, d.go .release)
  | some sender =>
      if b.receivers.count sender ≤ 1 then
        ({ b with channels := Function.update b.channels d.channel none }, d.go .unsubscribe)
      else (b, d.go .release)

/-- What happens to a subscription next, where there is a choice. -/
inductive Choice where
  | goOn
  | timeOut
  | recv
  | drop
  deriving DecidableEq

def returned (b : Bus M) (confirmed : Bool) : Option Since :=
  if confirmed then b.connection.map fun c => ⟨c, b.published.length⟩ else none

def exec (b : Bus M) (d : Subscription M) (w : Choice) : Bus M × Option (Subscription M) :=
  match d.stage with
  | .send => (command b (.subscribe d.channel d.sender), d.go .wait)
  | .wait =>
      (b, if d.sender ∈ b.acked then d.go (.tell true)
        else if w = .timeOut then d.go (.tell false) else some d)
  | .tell confirmed => (b, d.go (.live (returned b confirmed)))
  | .live _ =>
      match w with
      | .recv => (b, some (recv b d))
      | .drop => drop b d
      | _ => (b, some d)
  | .unsubscribe => (command b (.unsubscribe d.channel), d.go .release)
  | .release => ({ b with receivers := b.receivers.erase d.sender }, none)

/-! ### The subscribing connection -/

/-- The connection is lost, and what Redis kept and sent for it. -/
def lose (b : Bus M) : Bus M :=
  { b with connection := none, subscribed := fun _ => false, stream := [] }

/-- The connection is opened again: what is listened to is subscribed to, and who waited is
told. -/
def reconnect (b : Bus M) : Bus M :=
  { b with
    connection := some b.connections
    connections := b.connections + 1
    subscribed := fun channel => (b.channels channel).isSome
    acked := b.waiting ++ b.acked
    waiting := [] }

def runCommand (b : Bus M) (fails : Bool) : Command → Bus M
  | .subscribe channel ack =>
      if fails then { lose b with waiting := b.waiting ++ [ack] }
      else
        { b with
          subscribed := Function.update b.subscribed channel true
          acked := ack :: b.acked }
  | .unsubscribe channel =>
      -- Listened to again since: keep it.
      if (b.channels channel).isSome then b
      else if fails then lose b
      else { b with subscribed := Function.update b.subscribed channel false }

def nextCommand (b : Bus M) (fails : Bool) : Bus M :=
  match b.commands with
  | [] => b
  | c :: rest => runCommand { b with commands := rest } fails c

/-- `onRedisMessage`: a message on a channel goes to its listeners here. -/
def dispatch (b : Bus M) (channel : String) (m : M) : Bus M :=
  match b.channels channel with
  | none => b
  | some sender => { b with log := Function.update b.log sender (b.log sender ++ [m]) }

def nextMessage (b : Bus M) : Bus M :=
  match b.stream with
  | [] => b
  | (channel, m) :: rest => dispatch { b with stream := rest } channel m

/-- `PUBLISH`, by anyone. -/
def publish (b : Bus M) (channel : String) (m : M) : Bus M :=
  { b with
    stream := if b.subscribed channel then b.stream ++ [(channel, m)] else b.stream
    published := b.published ++ [⟨b.connection, channel, m⟩] }

inductive Request (M : Type) where
  | subscribe (channel : String)
  | publish (channel : String) (m : M)
  | command (fails : Bool)
  | message
  | lose
  | reconnect

def enter (b : Bus M) : Request M → Bus M × Option (Subscription M)
  | .subscribe channel => subscribe b channel
  | .publish channel m => (publish b channel m, none)
  | .command fails => (if b.connection.isSome then nextCommand b fails else b, none)
  | .message => (if b.connection.isSome then nextMessage b else b, none)
  | .lose => (lose b, none)
  | .reconnect => (if b.connection.isSome then b else reconnect b, none)

def streams : Machine (Bus M) (Subscription M) (Request M) Choice where
  enter := enter
  exec := exec

def fresh : Bus M where
  channels := fun _ => none
  senders := 0
  channelOf := fun _ => ""
  log := fun _ => []
  receivers := []
  commands := []
  connection := none
  connections := 0
  subscribed := fun _ => false
  stream := []
  waiting := []
  acked := []
  published := []

/-! ### What is asked of the bus -/

def Listened (calls : List (Subscription M)) (channel : String) : Prop :=
  ∃ d ∈ calls, d.channel = channel ∧ d.stage.listens = true

/-- No command is queued, or about to be. -/
def Settled (b : Bus M) (calls : List (Subscription M)) : Prop :=
  b.commands = [] ∧ ∀ d ∈ calls, d.stage ≠ .send ∧ d.stage ≠ .unsubscribe

def expected (b : Bus M) (since : Since) (channel : String) : List M :=
  ((b.published.drop since.published).filter fun p =>
    p.connection = some since.connection ∧ p.channel = channel).map (·.message)

def onWay (b : Bus M) (channel : String) : List M :=
  (b.stream.filter fun p => p.1 = channel).map (·.2)

/-- What is listened to is what is wanted, and a subscription that has not fallen behind has
received what it was to, or has it to receive, or it is on its way. -/
structure Kept (c : Config (Bus M) (Subscription M)) : Prop where
  exact : Settled c.store c.calls → c.store.connection.isSome = true → ∀ channel,
    (c.store.subscribed channel = true ↔ (c.store.channels channel).isSome = true) ∧
      ((c.store.channels channel).isSome = true ↔ Listened c.calls channel)
  reached : ∀ d ∈ c.calls, ∀ since, d.stage = .live (some since) →
    c.store.connection = some since.connection → d.missed = false →
    (c.store.log d.sender).length ≤ d.next + channelCapacity →
    expected c.store since d.channel <:+
      d.received ++ (c.store.log d.sender).drop d.next ++ onWay c.store d.channel

def Joins (b : Bus M) : Request M → Prop
  | .subscribe channel =>
      (b.channels channel).isSome = true → b.connection.isSome = true → b.subscribed channel = true
  | _ => True

/-- A drop that finds other receivers finds one that is not being dropped. -/
def Leaves (b : Bus M) (d : Subscription M) (calls : List (Subscription M)) (w : Choice) : Prop :=
  (∃ since, d.stage = .live since) → w = .drop → 1 < b.receivers.count d.sender →
    Listened calls d.channel

def guards : Guards (Bus M) (Subscription M) (Request M) Choice where
  request b _ r := Joins b r
  statement := Leaves

/-! ### What the commands queued lead to -/

def Command.outcome (channel : String) (subscribed : Bool) : Command → Bool
  | .subscribe c _ => c = channel || subscribed
  | .unsubscribe c => !decide (c = channel) && subscribed

/-- Whether it is once all have been. -/
def outcome (channel : String) (commands : List Command) (subscribed : Bool) : Bool :=
  commands.foldl (Command.outcome channel) subscribed

variable {b b' : Bus M} {d : Subscription M} {calls : List (Subscription M)} {channel : String}

theorem outcome_append (commands : List Command) (c : Command) (subscribed : Bool) :
    outcome channel (commands ++ [c]) subscribed =
      c.outcome channel (outcome channel commands subscribed) :=
  List.foldl_append

theorem Command.outcome_false {c : Command} {subscribed : Bool}
    (h : c.outcome channel subscribed = false) : c.outcome channel false = false := by
  cases c with
  | subscribe other ack =>
      rw [outcome, Bool.or_eq_false_iff] at h
      rw [outcome, h.1]
      rfl
  | unsubscribe other =>
      rw [outcome, Bool.and_false]

theorem outcome_false {commands : List Command} {subscribed : Bool}
    (h : outcome channel commands subscribed = false) : outcome channel commands false = false := by
  induction commands generalizing subscribed with
  | nil => rfl
  | cons c commands ih =>
      rw [outcome, List.foldl_cons] at h ⊢
      cases hc : c.outcome channel false with
      | false => exact ih h
      | true =>
          cases hs : c.outcome channel subscribed with
          | false =>
              rw [Command.outcome_false hs] at hc
              exact nomatch hc
          | true =>
              rw [hs] at h
              exact h

/-! ### The invariant -/

/-- What a subscription has been told, or has found, of its channel in Redis. -/
def Confirmed (b : Bus M) (d : Subscription M) : Prop :=
  d.stage = .tell true ∨ ((d.stage = .send ∨ d.stage = .wait) ∧ d.sender ∈ b.acked) ∨
    ∃ since, d.stage = .live (some since)

structure Reads (log : ℕ → List M) (d : Subscription M) : Prop where
  start : d.start ≤ d.next
  next : d.next ≤ (log d.sender).length
  received : d.missed = false → d.received = ((log d.sender).take d.next).drop d.start

structure Promised (b : Bus M) (d : Subscription M) (since : Since) : Prop where
  published : since.published ≤ b.published.length
  connection : since.connection < b.connections
  sent : b.connection = some since.connection →
    expected b since d.channel <:+ (b.log d.sender).drop d.start ++ onWay b d.channel

/-- The channels, their senders and the receivers. -/
structure Senders (b : Bus M) (calls : List (Subscription M)) : Prop where
  channels : ∀ channel sender, b.channels channel = some sender →
    sender < b.senders ∧ b.channelOf sender = channel
  held : ∀ d ∈ calls, d.sender < b.senders ∧ b.channelOf d.sender = d.channel
  commands : ∀ channel ack, .subscribe channel ack ∈ b.commands →
    ack < b.senders ∧ b.channelOf ack = channel
  waiting : ∀ ack ∈ b.waiting, ack < b.senders
  acked : ∀ ack ∈ b.acked, ack < b.senders
  receivers : ∀ sender, b.receivers.count sender = calls.countP (·.sender = sender)
  kept : ∀ d ∈ calls, d.stage.listens = true → b.channels d.channel = some d.sender
  listened : ∀ channel, (b.channels channel).isSome = true → Listened calls channel

structure Follows (b : Bus M) (calls : List (Subscription M)) : Prop where
  kept : ∀ channel, (b.channels channel).isSome = true → b.connection.isSome = true →
    b.subscribed channel = true ∨ (∃ ack, .subscribe channel ack ∈ b.commands) ∨
      ∃ d ∈ calls, d.channel = channel ∧ d.stage = .send
  left : ∀ channel, b.channels channel = none →
    (∃ d ∈ calls, d.channel = channel ∧ d.stage = .unsubscribe) ∨
      outcome channel b.commands (b.subscribed channel) = false
  confirmed : ∀ d ∈ calls, Confirmed b d → b.connection.isSome = true →
    b.subscribed d.channel = true
  connection : ∀ c, b.connection = some c → c < b.connections

structure Inv (b : Bus M) (calls : List (Subscription M)) : Prop where
  senders : Senders b calls
  follows : Follows b calls
  reads : ∀ d ∈ calls, Reads b.log d
  promised : ∀ d ∈ calls, ∀ since, d.stage = .live (some since) → Promised b d since

theorem Listened.perm {calls' : List (Subscription M)} (hperm : calls.Perm calls')
    (h : Listened calls channel) : Listened calls' channel := by
  obtain ⟨d, hd, hlistens⟩ := h
  exact ⟨d, hperm.mem_iff.1 hd, hlistens⟩

theorem Senders.perm {calls' : List (Subscription M)} (hperm : calls.Perm calls')
    (h : Senders b calls) : Senders b calls' where
  channels := h.channels
  held := fun d hd => h.held d (hperm.mem_iff.2 hd)
  commands := h.commands
  waiting := h.waiting
  acked := h.acked
  receivers := fun sender => (h.receivers sender).trans (hperm.countP_eq _)
  kept := fun d hd => h.kept d (hperm.mem_iff.2 hd)
  listened := fun channel hkept => (h.listened channel hkept).perm hperm

theorem Follows.perm {calls' : List (Subscription M)} (hperm : calls.Perm calls')
    (h : Follows b calls) : Follows b calls' where
  kept := by
    intro channel hkept hup
    rcases h.kept channel hkept hup with hsub | hcommand | ⟨d, hd, hsend⟩
    · exact .inl hsub
    · exact .inr (.inl hcommand)
    · exact .inr (.inr ⟨d, hperm.mem_iff.1 hd, hsend⟩)
  left := by
    intro channel hleft
    rcases h.left channel hleft with ⟨d, hd, hstage⟩ | hout
    · exact .inl ⟨d, hperm.mem_iff.1 hd, hstage⟩
    · exact .inr hout
  confirmed := fun d hd => h.confirmed d (hperm.mem_iff.2 hd)
  connection := h.connection

theorem Inv.perm {calls' : List (Subscription M)} (hperm : calls.Perm calls') (h : Inv b calls) :
    Inv b calls' where
  senders := h.senders.perm hperm
  follows := h.follows.perm hperm
  reads := fun d hd => h.reads d (hperm.mem_iff.2 hd)
  promised := fun d hd => h.promised d (hperm.mem_iff.2 hd)

/-! ### A subscription that goes on -/

/-- The subscription's next stage, what it has read apart. -/
structure Onward (d d' : Subscription M) : Prop where
  channel : d'.channel = d.channel
  sender : d'.sender = d.sender
  listens : d.stage.listens = true → d'.stage.listens = true
  holds : d'.stage.listens = true → d.stage.listens = true
  send : d.stage = .send → d'.stage = .send
  unsubscribe : d.stage = .unsubscribe → d'.stage = .unsubscribe

theorem countP_sender_cons {d' : Subscription M} (h : d'.sender = d.sender) (sender : ℕ) :
    (d' :: calls).countP (·.sender = sender) = (d :: calls).countP (·.sender = sender) := by
  rw [List.countP_cons, List.countP_cons, h]

theorem Listened.onward {d' : Subscription M} (h : Listened (d :: calls) channel)
    (hchannel : d'.channel = d.channel)
    (hlistens : d.stage.listens = true → d'.stage.listens = true) :
    Listened (d' :: calls) channel := by
  obtain ⟨e, he, hname, hstage⟩ := h
  rcases List.mem_cons.1 he with rfl | he
  · exact ⟨d', List.mem_cons_self, hchannel.trans hname, hlistens hstage⟩
  · exact ⟨e, List.mem_cons_of_mem _ he, hname, hstage⟩

theorem Senders.onward {d' : Subscription M} (h : Senders b (d :: calls)) (hon : Onward d d') :
    Senders b (d' :: calls) where
  channels := h.channels
  held := by
    intro e he
    rcases List.mem_cons.1 he with rfl | he
    · rw [hon.sender, hon.channel]
      exact h.held d List.mem_cons_self
    · exact h.held e (List.mem_cons_of_mem _ he)
  commands := h.commands
  waiting := h.waiting
  acked := h.acked
  receivers := by
    intro sender
    rw [countP_sender_cons hon.sender]
    exact h.receivers sender
  kept := by
    intro e he hlistens
    rcases List.mem_cons.1 he with rfl | he
    · rw [hon.sender, hon.channel]
      exact h.kept d List.mem_cons_self (hon.holds hlistens)
    · exact h.kept e (List.mem_cons_of_mem _ he) hlistens
  listened := fun channel hkept => (h.listened channel hkept).onward hon.channel hon.listens

theorem Follows.onward {d' : Subscription M} (h : Follows b (d :: calls)) (hon : Onward d d')
    (hconfirmed : Confirmed b d' → b.connection.isSome = true → b.subscribed d'.channel = true) :
    Follows b (d' :: calls) where
  kept := by
    intro channel hkept hup
    rcases h.kept channel hkept hup with hsub | hcommand | ⟨e, he, hname, hsend⟩
    · exact .inl hsub
    · exact .inr (.inl hcommand)
    · rcases List.mem_cons.1 he with rfl | he
      · exact .inr (.inr ⟨d', List.mem_cons_self, hon.channel.trans hname, hon.send hsend⟩)
      · exact .inr (.inr ⟨e, List.mem_cons_of_mem _ he, hname, hsend⟩)
  left := by
    intro channel hleft
    rcases h.left channel hleft with ⟨e, he, hname, hstage⟩ | hout
    · rcases List.mem_cons.1 he with rfl | he
      · exact .inl ⟨d', List.mem_cons_self, hon.channel.trans hname, hon.unsubscribe hstage⟩
      · exact .inl ⟨e, List.mem_cons_of_mem _ he, hname, hstage⟩
    · exact .inr hout
  confirmed := by
    intro e he
    rcases List.mem_cons.1 he with rfl | he
    · exact hconfirmed
    · exact h.confirmed e (List.mem_cons_of_mem _ he)
  connection := h.connection

theorem Inv.onward {d' : Subscription M} (h : Inv b (d :: calls)) (hon : Onward d d')
    (hconfirmed : Confirmed b d' → b.connection.isSome = true → b.subscribed d'.channel = true)
    (hreads : Reads b.log d')
    (hpromised : ∀ since, d'.stage = .live (some since) → Promised b d' since) :
    Inv b (d' :: calls) where
  senders := h.senders.onward hon
  follows := h.follows.onward hon hconfirmed
  reads := by
    intro e he
    rcases List.mem_cons.1 he with rfl | he
    · exact hreads
    · exact h.reads e (List.mem_cons_of_mem _ he)
  promised := by
    intro e he
    rcases List.mem_cons.1 he with rfl | he
    · exact hpromised
    · exact h.promised e (List.mem_cons_of_mem _ he)

theorem Confirmed.listens (h : Confirmed b d) : d.stage.listens = true := by
  rcases h with htell | ⟨hsend | hwait, -⟩ | ⟨since, hlive⟩
  · rw [htell]
    rfl
  · rw [hsend]
    rfl
  · rw [hwait]
    rfl
  · rw [hlive]
    rfl

/-! ### What a subscription does -/

theorem Inv.reads_stage (h : Inv b (d :: calls)) (stage : Stage) :
    ∀ e ∈ { d with stage := stage } :: calls, Reads b.log e := by
  have hreads := h.reads d List.mem_cons_self
  intro e he
  rcases List.mem_cons.1 he with rfl | he
  · exact ⟨hreads.start, hreads.next, hreads.received⟩
  · exact h.reads e (List.mem_cons_of_mem _ he)

theorem Inv.held_stage (h : Inv b (d :: calls)) (stage : Stage) :
    ∀ e ∈ { d with stage := stage } :: calls,
      e.sender < b.senders ∧ b.channelOf e.sender = e.channel := by
  intro e he
  rcases List.mem_cons.1 he with rfl | he
  · exact h.senders.held d List.mem_cons_self
  · exact h.senders.held e (List.mem_cons_of_mem _ he)

theorem Inv.stage (h : Inv b (d :: calls)) {stage : Stage}
    (hon : Onward d { d with stage := stage })
    (hconfirmed : Confirmed b { d with stage := stage } → b.connection.isSome = true →
      b.subscribed d.channel = true)
    (hlive : ∀ since, stage ≠ .live (some since)) :
    Inv b ({ d with stage := stage } :: calls) := by
  have hreads := h.reads d List.mem_cons_self
  apply h.onward hon hconfirmed ⟨hreads.start, hreads.next, hreads.received⟩
  intro since hstage
  exact absurd hstage (hlive since)

theorem inv_send (h : Inv b (d :: calls)) (hstage : d.stage = .send) :
    Inv (command b (.subscribe d.channel d.sender)) ({ d with stage := .wait } :: calls) := by
  have hlistens : d.stage.listens = true := by
    rw [hstage]
    rfl
  have hkept := h.senders.kept d List.mem_cons_self hlistens
  constructor
  · constructor
    · exact h.senders.channels
    · exact h.held_stage _
    · intro channel ack hmem
      rcases List.mem_append.1 hmem with hmem | hmem
      · exact h.senders.commands channel ack hmem
      · rw [List.mem_singleton, Command.subscribe.injEq] at hmem
        rw [hmem.1, hmem.2]
        exact h.senders.held d List.mem_cons_self
    · exact h.senders.waiting
    · exact h.senders.acked
    · exact h.senders.receivers
    · intro e he hlistens
      rcases List.mem_cons.1 he with rfl | he
      · exact hkept
      · exact h.senders.kept e (List.mem_cons_of_mem _ he) hlistens
    · exact fun channel hchannel => (h.senders.listened channel hchannel).onward rfl fun _ => rfl
  · constructor
    · intro channel hchannel hup
      rcases h.follows.kept channel hchannel hup with hsub | ⟨ack, hack⟩ | ⟨e, he, hname, hsend⟩
      · exact .inl hsub
      · exact .inr (.inl ⟨ack, List.mem_append_left _ hack⟩)
      · rcases List.mem_cons.1 he with rfl | he
        · exact .inr (.inl ⟨e.sender, List.mem_append_right _ (hname ▸ List.mem_cons_self)⟩)
        · exact .inr (.inr ⟨e, List.mem_cons_of_mem _ he, hname, hsend⟩)
    · intro channel hchannel
      rcases h.follows.left channel hchannel with ⟨e, he, hname, hunsub⟩ | hout
      · rcases List.mem_cons.1 he with rfl | he
        · rw [hstage] at hunsub
          exact nomatch hunsub
        · exact .inl ⟨e, List.mem_cons_of_mem _ he, hname, hunsub⟩
      · apply Or.inr
        have hne : d.channel ≠ channel := by
          rintro rfl
          exact nomatch hkept.symm.trans hchannel
        rw [command, outcome_append, hout, Command.outcome, decide_eq_false hne]
        rfl
    · intro e he hconfirmed hup
      rcases List.mem_cons.1 he with rfl | he
      · rcases hconfirmed with htell | ⟨-, hacked⟩ | ⟨since, hlive⟩
        · exact nomatch htell
        · exact h.follows.confirmed d List.mem_cons_self (.inr (.inl ⟨.inl hstage, hacked⟩)) hup
        · exact nomatch hlive
      · exact h.follows.confirmed e (List.mem_cons_of_mem _ he) hconfirmed hup
    · exact h.follows.connection
  · exact h.reads_stage _
  · intro e he since hlive
    rcases List.mem_cons.1 he with rfl | he
    · exact nomatch hlive
    · have hpromised := h.promised e (List.mem_cons_of_mem _ he) since hlive
      exact ⟨hpromised.published, hpromised.connection, hpromised.sent⟩

theorem inv_unsubscribe (h : Inv b (d :: calls)) (hstage : d.stage = .unsubscribe) :
    Inv (command b (.unsubscribe d.channel)) ({ d with stage := .release } :: calls) := by
  constructor
  · constructor
    · exact h.senders.channels
    · exact h.held_stage _
    · intro channel ack hmem
      rcases List.mem_append.1 hmem with hmem | hmem
      · exact h.senders.commands channel ack hmem
      · rw [List.mem_singleton] at hmem
        exact nomatch hmem
    · exact h.senders.waiting
    · exact h.senders.acked
    · exact h.senders.receivers
    · intro e he hlistens
      rcases List.mem_cons.1 he with rfl | he
      · exact nomatch hlistens
      · exact h.senders.kept e (List.mem_cons_of_mem _ he) hlistens
    · intro channel hchannel
      obtain ⟨e, he, hname, hlistens⟩ := h.senders.listened channel hchannel
      rcases List.mem_cons.1 he with rfl | he
      · rw [hstage] at hlistens
        exact nomatch hlistens
      · exact ⟨e, List.mem_cons_of_mem _ he, hname, hlistens⟩
  · constructor
    · intro channel hchannel hup
      rcases h.follows.kept channel hchannel hup with hsub | ⟨ack, hack⟩ | ⟨e, he, hname, hsend⟩
      · exact .inl hsub
      · exact .inr (.inl ⟨ack, List.mem_append_left _ hack⟩)
      · rcases List.mem_cons.1 he with rfl | he
        · rw [hstage] at hsend
          exact nomatch hsend
        · exact .inr (.inr ⟨e, List.mem_cons_of_mem _ he, hname, hsend⟩)
    · intro channel hchannel
      by_cases hname : d.channel = channel
      · apply Or.inr
        rw [command, outcome_append, Command.outcome, decide_eq_true hname]
        rfl
      · rcases h.follows.left channel hchannel with ⟨e, he, hsame, hunsub⟩ | hout
        · rcases List.mem_cons.1 he with rfl | he
          · exact absurd hsame hname
          · exact .inl ⟨e, List.mem_cons_of_mem _ he, hsame, hunsub⟩
        · apply Or.inr
          rw [command, outcome_append, hout, Command.outcome, Bool.and_false]
    · intro e he hconfirmed hup
      rcases List.mem_cons.1 he with rfl | he
      · exact nomatch hconfirmed.listens
      · exact h.follows.confirmed e (List.mem_cons_of_mem _ he) hconfirmed hup
    · exact h.follows.connection
  · exact h.reads_stage _
  · intro e he since hlive
    rcases List.mem_cons.1 he with rfl | he
    · exact nomatch hlive
    · have hpromised := h.promised e (List.mem_cons_of_mem _ he) since hlive
      exact ⟨hpromised.published, hpromised.connection, hpromised.sent⟩

theorem returned_eq_some {confirmed : Bool} {since : Since}
    (h : returned b confirmed = some since) :
    confirmed = true ∧ b.connection = some since.connection ∧
      since.published = b.published.length := by
  cases confirmed with
  | false => exact nomatch h
  | true =>
      obtain ⟨c, hc, rfl⟩ := Option.map_eq_some_iff.1 h
      exact ⟨rfl, hc, rfl⟩

/-- Returned, a subscription is promised what is published from now on. -/
theorem inv_tell {confirmed : Bool} (h : Inv b (d :: calls)) (hstage : d.stage = .tell confirmed) :
    Inv b ({ d with stage := .live (returned b confirmed) } :: calls) := by
  have hreads := h.reads d List.mem_cons_self
  apply h.onward
  · constructor
    · rfl
    · rfl
    · exact fun _ => rfl
    · intro _
      rw [hstage]
      rfl
    · intro hsend
      rw [hstage] at hsend
      exact nomatch hsend
    · intro hunsub
      rw [hstage] at hunsub
      exact nomatch hunsub
  · intro hconfirmed hup
    rcases hconfirmed with htell | ⟨hsend | hwait, -⟩ | ⟨since, hlive⟩
    · exact nomatch htell
    · exact nomatch hsend
    · exact nomatch hwait
    · obtain ⟨rfl, -⟩ := returned_eq_some (Stage.live.inj hlive)
      exact h.follows.confirmed d List.mem_cons_self (.inl hstage) hup
  · exact ⟨hreads.start, hreads.next, hreads.received⟩
  · intro since hlive
    obtain ⟨-, hconnection, hpublished⟩ := returned_eq_some (Stage.live.inj hlive)
    refine ⟨hpublished.le, h.follows.connection _ hconnection, fun _ => ?_⟩
    rw [expected, hpublished, List.drop_length]
    exact List.nil_suffix

theorem reads_recv (h : Reads b.log d) : Reads b.log (recv b d) := by
  unfold recv
  have hstart := h.start
  have hnext := h.next
  split
  · rename_i hlag
    exact ⟨by dsimp only [channelCapacity] at *; omega, Nat.sub_le _ _, fun hf => nomatch hf⟩
  · cases hm : (b.log d.sender)[d.next]? with
    | none => exact h
    | some m =>
        obtain ⟨hlt, rfl⟩ := List.getElem?_eq_some_iff.1 hm
        refine ⟨hstart.trans (Nat.le_succ _), hlt, fun hmissed => ?_⟩
        dsimp only
        rw [h.received hmissed, List.take_succ_eq_append_getElem hlt, List.drop_append_of_le_length]
        rw [List.length_take]
        omega

theorem stage_recv (b : Bus M) (d : Subscription M) : (recv b d).stage = d.stage := by
  unfold recv
  split
  · rfl
  · split <;> rfl

theorem channel_recv (b : Bus M) (d : Subscription M) : (recv b d).channel = d.channel := by
  unfold recv
  split
  · rfl
  · split <;> rfl

theorem sender_recv (b : Bus M) (d : Subscription M) : (recv b d).sender = d.sender := by
  unfold recv
  split
  · rfl
  · split <;> rfl

theorem start_recv (b : Bus M) (d : Subscription M) : (recv b d).start = d.start := by
  unfold recv
  split
  · rfl
  · split <;> rfl

theorem inv_recv (h : Inv b (d :: calls)) : Inv b (recv b d :: calls) := by
  have hstage := stage_recv b d
  have hchannel := channel_recv b d
  have hsender := sender_recv b d
  apply h.onward
  · constructor
    · exact hchannel
    · exact hsender
    · exact fun hlistens => hstage ▸ hlistens
    · exact fun hlistens => hstage ▸ hlistens
    · exact fun hsend => hstage.trans hsend
    · exact fun hunsub => hstage.trans hunsub
  · intro hconfirmed hup
    rw [hchannel]
    rw [Confirmed, hstage, hsender] at hconfirmed
    exact h.follows.confirmed d List.mem_cons_self hconfirmed hup
  · exact reads_recv (h.reads d List.mem_cons_self)
  · intro since hlive
    have hpromised := h.promised d List.mem_cons_self since (hstage.symm.trans hlive)
    refine ⟨hpromised.published, hpromised.connection, fun hc => ?_⟩
    rw [hchannel, hsender, start_recv]
    exact hpromised.sent hc

/-! ### Dropping -/

theorem Listened.cons (h : Listened calls channel) : Listened (d :: calls) channel := by
  obtain ⟨e, he, hlistens⟩ := h
  exact ⟨e, List.mem_cons_of_mem _ he, hlistens⟩

theorem Listened.tail (h : Listened (d :: calls) channel)
    (hd : d.channel = channel → d.stage.listens = true → Listened calls channel) :
    Listened calls channel := by
  obtain ⟨e, he, hname, hlistens⟩ := h
  rcases List.mem_cons.1 he with rfl | he
  · exact hd hname hlistens
  · exact ⟨e, he, hname, hlistens⟩

theorem Senders.alone (h : Senders b (d :: calls)) (hlistens : d.stage.listens = true)
    (hcount : b.receivers.count d.sender ≤ 1) :
    ∀ e ∈ calls, e.stage.listens = true → e.channel ≠ d.channel := by
  intro e he hother hname
  have hd := h.kept d List.mem_cons_self hlistens
  have hsame := h.kept e (List.mem_cons_of_mem _ he) hother
  rw [hname, hd, Option.some.injEq] at hsame
  rw [h.receivers, List.countP_cons_of_pos (by simp)] at hcount
  have hpos : 0 < calls.countP fun e => decide (e.sender = d.sender) :=
    List.countP_pos_iff.2 ⟨e, he, decide_eq_true hsame.symm⟩
  omega

theorem inv_takeAway {since : Option Since} (h : Inv b (d :: calls))
    (hstage : d.stage = .live since) (hcount : b.receivers.count d.sender ≤ 1) :
    Inv { b with channels := Function.update b.channels d.channel none }
      ({ d with stage := .unsubscribe } :: calls) := by
  have hlistens : d.stage.listens = true := by
    rw [hstage]
    rfl
  have halone := h.senders.alone hlistens hcount
  have hother : ∀ channel, (Function.update b.channels d.channel none channel).isSome = true →
      channel ≠ d.channel ∧ (b.channels channel).isSome = true := by
    intro channel hchannel
    by_cases hname : channel = d.channel
    · rw [hname, Function.update_self] at hchannel
      exact nomatch hchannel
    · rw [Function.update_of_ne hname] at hchannel
      exact ⟨hname, hchannel⟩
  constructor
  · constructor
    · intro channel sender hchannel
      have hkept := hother channel (Option.isSome_of_mem hchannel)
      dsimp only at hchannel
      rw [Function.update_of_ne hkept.1] at hchannel
      exact h.senders.channels channel sender hchannel
    · exact h.held_stage _
    · exact h.senders.commands
    · exact h.senders.waiting
    · exact h.senders.acked
    · exact h.senders.receivers
    · intro e he hlistens
      rcases List.mem_cons.1 he with rfl | he
      · exact nomatch hlistens
      · dsimp only
        rw [Function.update_of_ne (halone e he hlistens)]
        exact h.senders.kept e (List.mem_cons_of_mem _ he) hlistens
    · intro channel hchannel
      obtain ⟨hname, hkept⟩ := hother channel hchannel
      apply Listened.cons
      exact (h.senders.listened channel hkept).tail fun hsame _ => absurd hsame.symm hname
  · constructor
    · intro channel hchannel hup
      obtain ⟨hname, hkept⟩ := hother channel hchannel
      rcases h.follows.kept channel hkept hup with hsub | hcommand | ⟨e, he, hsame, hsend⟩
      · exact .inl hsub
      · exact .inr (.inl hcommand)
      · rcases List.mem_cons.1 he with rfl | he
        · exact absurd hsame.symm hname
        · exact .inr (.inr ⟨e, List.mem_cons_of_mem _ he, hsame, hsend⟩)
    · intro channel hchannel
      by_cases hname : channel = d.channel
      · exact .inl ⟨_, List.mem_cons_self, hname.symm, rfl⟩
      · dsimp only at hchannel
        rw [Function.update_of_ne hname] at hchannel
        rcases h.follows.left channel hchannel with ⟨e, he, hsame, hunsub⟩ | hout
        · rcases List.mem_cons.1 he with rfl | he
          · exact absurd hsame.symm hname
          · exact .inl ⟨e, List.mem_cons_of_mem _ he, hsame, hunsub⟩
        · exact .inr hout
    · intro e he hconfirmed hup
      rcases List.mem_cons.1 he with rfl | he
      · exact nomatch hconfirmed.listens
      · exact h.follows.confirmed e (List.mem_cons_of_mem _ he) hconfirmed hup
    · exact h.follows.connection
  · exact h.reads_stage _
  · intro e he since hlive
    rcases List.mem_cons.1 he with rfl | he
    · exact nomatch hlive
    · have hpromised := h.promised e (List.mem_cons_of_mem _ he) since hlive
      exact ⟨hpromised.published, hpromised.connection, hpromised.sent⟩

theorem inv_leave {since : Option Since} (h : Inv b (d :: calls)) (hstage : d.stage = .live since)
    (hother : Listened calls d.channel) : Inv b ({ d with stage := .release } :: calls) := by
  constructor
  · constructor
    · exact h.senders.channels
    · exact h.held_stage _
    · exact h.senders.commands
    · exact h.senders.waiting
    · exact h.senders.acked
    · exact h.senders.receivers
    · intro e he hlistens
      rcases List.mem_cons.1 he with rfl | he
      · exact nomatch hlistens
      · exact h.senders.kept e (List.mem_cons_of_mem _ he) hlistens
    · intro channel hchannel
      apply Listened.cons
      exact (h.senders.listened channel hchannel).tail fun hname _ => hname ▸ hother
  · constructor
    · intro channel hchannel hup
      rcases h.follows.kept channel hchannel hup with hsub | hcommand | ⟨e, he, hsame, hsend⟩
      · exact .inl hsub
      · exact .inr (.inl hcommand)
      · rcases List.mem_cons.1 he with rfl | he
        · rw [hstage] at hsend
          exact nomatch hsend
        · exact .inr (.inr ⟨e, List.mem_cons_of_mem _ he, hsame, hsend⟩)
    · intro channel hchannel
      rcases h.follows.left channel hchannel with ⟨e, he, hsame, hunsub⟩ | hout
      · rcases List.mem_cons.1 he with rfl | he
        · rw [hstage] at hunsub
          exact nomatch hunsub
        · exact .inl ⟨e, List.mem_cons_of_mem _ he, hsame, hunsub⟩
      · exact .inr hout
    · intro e he hconfirmed hup
      rcases List.mem_cons.1 he with rfl | he
      · exact nomatch hconfirmed.listens
      · exact h.follows.confirmed e (List.mem_cons_of_mem _ he) hconfirmed hup
    · exact h.follows.connection
  · exact h.reads_stage _
  · intro e he since hlive
    rcases List.mem_cons.1 he with rfl | he
    · exact nomatch hlive
    · exact h.promised e (List.mem_cons_of_mem _ he) since hlive

theorem inv_drop {since : Option Since} (h : Inv b (d :: calls)) (hstage : d.stage = .live since)
    (hleaves : 1 < b.receivers.count d.sender → Listened calls d.channel) :
    Inv (drop b d).1 ((drop b d).2.toList ++ calls) := by
  have hkept := h.senders.kept d List.mem_cons_self (by rw [hstage]; rfl)
  unfold drop
  rw [hkept]
  dsimp only
  split
  · rename_i hcount
    exact inv_takeAway h hstage hcount
  · rename_i hcount
    exact inv_leave h hstage (hleaves (Nat.lt_of_not_le hcount))

theorem inv_release (h : Inv b (d :: calls)) (hstage : d.stage = .release) :
    Inv { b with receivers := b.receivers.erase d.sender } calls := by
  constructor
  · constructor
    · exact h.senders.channels
    · exact fun e he => h.senders.held e (List.mem_cons_of_mem _ he)
    · exact h.senders.commands
    · exact h.senders.waiting
    · exact h.senders.acked
    · intro sender
      have hcount := h.senders.receivers sender
      rw [List.countP_cons] at hcount
      dsimp only
      by_cases hsame : d.sender = sender
      · rw [if_pos (decide_eq_true hsame)] at hcount
        rw [hsame, List.count_erase_self]
        omega
      · rw [if_neg (by rw [decide_eq_true_eq]; exact hsame)] at hcount
        rw [List.count_erase_of_ne (Ne.symm hsame)]
        exact hcount
    · exact fun e he => h.senders.kept e (List.mem_cons_of_mem _ he)
    · intro channel hchannel
      apply (h.senders.listened channel hchannel).tail
      intro _ hlistens
      rw [hstage] at hlistens
      exact nomatch hlistens
  · constructor
    · intro channel hchannel hup
      rcases h.follows.kept channel hchannel hup with hsub | hcommand | ⟨e, he, hsame, hsend⟩
      · exact .inl hsub
      · exact .inr (.inl hcommand)
      · rcases List.mem_cons.1 he with rfl | he
        · rw [hstage] at hsend
          exact nomatch hsend
        · exact .inr (.inr ⟨e, he, hsame, hsend⟩)
    · intro channel hchannel
      rcases h.follows.left channel hchannel with ⟨e, he, hsame, hunsub⟩ | hout
      · rcases List.mem_cons.1 he with rfl | he
        · rw [hstage] at hunsub
          exact nomatch hunsub
        · exact .inl ⟨e, he, hsame, hunsub⟩
      · exact .inr hout
    · exact fun e he => h.follows.confirmed e (List.mem_cons_of_mem _ he)
    · exact h.follows.connection
  · exact fun e he => h.reads e (List.mem_cons_of_mem _ he)
  · intro e he since hlive
    have hpromised := h.promised e (List.mem_cons_of_mem _ he) since hlive
    exact ⟨hpromised.published, hpromised.connection, hpromised.sent⟩

/-! ### Subscribing -/

theorem reads_new (b : Bus M) (channel : String) (sender : ℕ) (stage : Stage) :
    Reads b.log (newSubscription b channel sender stage) := by
  refine ⟨Nat.le_refl _, Nat.le_refl _, fun _ => ?_⟩
  symm
  apply List.drop_eq_nil_of_le
  exact (List.length_take_le _ _)

theorem inv_join {sender : ℕ} (h : Inv b calls) (hkept : b.channels channel = some sender)
    (hjoins : b.connection.isSome = true → b.subscribed channel = true) :
    Inv { b with receivers := sender :: b.receivers }
      (newSubscription b channel sender (.tell true) :: calls) := by
  constructor
  · constructor
    · exact h.senders.channels
    · intro e he
      rcases List.mem_cons.1 he with rfl | he
      · exact h.senders.channels channel sender hkept
      · exact h.senders.held e he
    · exact h.senders.commands
    · exact h.senders.waiting
    · exact h.senders.acked
    · intro other
      dsimp only
      rw [List.count_cons, List.countP_cons, h.senders.receivers]
      rfl
    · intro e he hlistens
      rcases List.mem_cons.1 he with rfl | he
      · exact hkept
      · exact h.senders.kept e he hlistens
    · exact fun channel hchannel => (h.senders.listened channel hchannel).cons
  · constructor
    · intro channel hchannel hup
      rcases h.follows.kept channel hchannel hup with hsub | hcommand | ⟨e, he, hsend⟩
      · exact .inl hsub
      · exact .inr (.inl hcommand)
      · exact .inr (.inr ⟨e, List.mem_cons_of_mem _ he, hsend⟩)
    · intro channel hchannel
      rcases h.follows.left channel hchannel with ⟨e, he, hunsub⟩ | hout
      · exact .inl ⟨e, List.mem_cons_of_mem _ he, hunsub⟩
      · exact .inr hout
    · intro e he hconfirmed hup
      rcases List.mem_cons.1 he with rfl | he
      · exact hjoins hup
      · exact h.follows.confirmed e he hconfirmed hup
    · exact h.follows.connection
  · intro e he
    rcases List.mem_cons.1 he with rfl | he
    · exact reads_new b channel sender _
    · exact h.reads e he
  · intro e he since hlive
    rcases List.mem_cons.1 he with rfl | he
    · exact nomatch hlive
    · have hpromised := h.promised e he since hlive
      exact ⟨hpromised.published, hpromised.connection, hpromised.sent⟩

theorem inv_make (h : Inv b calls) (hnone : b.channels channel = none) :
    Inv
      { b with
        channels := Function.update b.channels channel (some b.senders)
        senders := b.senders + 1
        channelOf := Function.update b.channelOf b.senders channel
        receivers := b.senders :: b.receivers }
      (newSubscription b channel b.senders .send :: calls) := by
  have hold : ∀ sender, sender < b.senders →
      Function.update b.channelOf b.senders channel sender = b.channelOf sender :=
    fun sender hlt => Function.update_of_ne (Nat.ne_of_lt hlt) _ _
  have hheld : ∀ sender name, sender < b.senders ∧ b.channelOf sender = name →
      sender < b.senders + 1 ∧
        Function.update b.channelOf b.senders channel sender = name :=
    fun sender name hsender => ⟨Nat.lt_succ_of_lt hsender.1,
      (hold sender hsender.1).trans hsender.2⟩
  constructor
  · constructor
    · intro other sender hother
      dsimp only at hother
      by_cases hname : other = channel
      · rw [hname, Function.update_self, Option.some.injEq] at hother
        rw [← hother, hname]
        exact ⟨Nat.lt_succ_self _, Function.update_self _ _ _⟩
      · rw [Function.update_of_ne hname] at hother
        exact hheld sender other (h.senders.channels other sender hother)
    · intro e he
      rcases List.mem_cons.1 he with rfl | he
      · exact ⟨Nat.lt_succ_self _, Function.update_self _ _ _⟩
      · exact hheld e.sender e.channel (h.senders.held e he)
    · intro other ack hack
      exact hheld ack other (h.senders.commands other ack hack)
    · exact fun ack hack => (h.senders.waiting ack hack).trans (Nat.lt_succ_self _)
    · exact fun ack hack => (h.senders.acked ack hack).trans (Nat.lt_succ_self _)
    · intro other
      dsimp only
      rw [List.count_cons, List.countP_cons, h.senders.receivers]
      rfl
    · intro e he hlistens
      rcases List.mem_cons.1 he with rfl | he
      · exact Function.update_self _ _ _
      · have hkept := h.senders.kept e he hlistens
        dsimp only
        rw [Function.update_of_ne, hkept]
        rintro hname
        rw [hname, hnone] at hkept
        exact nomatch hkept
    · intro other hother
      by_cases hname : other = channel
      · exact ⟨_, List.mem_cons_self, hname.symm, rfl⟩
      · dsimp only at hother
        rw [Function.update_of_ne hname] at hother
        exact (h.senders.listened other hother).cons
  · constructor
    · intro other hother hup
      by_cases hname : other = channel
      · exact .inr (.inr ⟨_, List.mem_cons_self, hname.symm, rfl⟩)
      · dsimp only at hother
        rw [Function.update_of_ne hname] at hother
        rcases h.follows.kept other hother hup with hsub | hcommand | ⟨e, he, hsend⟩
        · exact .inl hsub
        · exact .inr (.inl hcommand)
        · exact .inr (.inr ⟨e, List.mem_cons_of_mem _ he, hsend⟩)
    · intro other hother
      by_cases hname : other = channel
      · dsimp only at hother
        rw [hname, Function.update_self] at hother
        exact nomatch hother
      · dsimp only at hother
        rw [Function.update_of_ne hname] at hother
        rcases h.follows.left other hother with ⟨e, he, hunsub⟩ | hout
        · exact .inl ⟨e, List.mem_cons_of_mem _ he, hunsub⟩
        · exact .inr hout
    · intro e he hconfirmed hup
      rcases List.mem_cons.1 he with rfl | he
      · rcases hconfirmed with htell | ⟨-, hacked⟩ | ⟨since, hlive⟩
        · exact nomatch htell
        · exact absurd (h.senders.acked b.senders hacked) (Nat.lt_irrefl _)
        · exact nomatch hlive
      · exact h.follows.confirmed e he hconfirmed hup
    · exact h.follows.connection
  · intro e he
    rcases List.mem_cons.1 he with rfl | he
    · exact reads_new b channel b.senders _
    · exact h.reads e he
  · intro e he since hlive
    rcases List.mem_cons.1 he with rfl | he
    · exact nomatch hlive
    · have hpromised := h.promised e he since hlive
      exact ⟨hpromised.published, hpromised.connection, hpromised.sent⟩

/-! ### What is published and dispatched -/

theorem suffix_concat {l r : List M} (h : l <:+ r) (m : M) : l ++ [m] <:+ r ++ [m] := by
  obtain ⟨t, rfl⟩ := h
  exact ⟨t, (List.append_assoc t l [m]).symm⟩

theorem expected_publish {since : Since} (hpublished : since.published ≤ b.published.length)
    (channel name : String) (m : M) :
    expected (publish b name m) since channel =
      expected b since channel ++
        if b.connection = some since.connection ∧ name = channel then [m] else [] := by
  unfold expected publish
  dsimp only
  rw [List.drop_append_of_le_length hpublished, List.filter_append, List.map_append]
  congr 1
  by_cases hexpected : b.connection = some since.connection ∧ name = channel
  · rw [if_pos hexpected, List.filter_cons_of_pos]
    · rfl
    · exact decide_eq_true hexpected
  · rw [if_neg hexpected, List.filter_cons_of_neg]
    · rfl
    · rw [decide_eq_true_eq]
      exact hexpected

theorem onWay_publish (b : Bus M) (channel name : String) (m : M) :
    onWay (publish b name m) channel =
      onWay b channel ++ if b.subscribed name = true ∧ name = channel then [m] else [] := by
  unfold onWay publish
  dsimp only
  by_cases hsub : b.subscribed name = true
  · rw [if_pos hsub, List.filter_append, List.map_append]
    congr 1
    by_cases hname : name = channel
    · rw [if_pos ⟨hsub, hname⟩, List.filter_cons_of_pos]
      · rfl
      · exact decide_eq_true hname
    · rw [if_neg (fun h => hname h.2), List.filter_cons_of_neg]
      · rfl
      · rw [decide_eq_true_eq]
        exact hname
  · rw [if_neg hsub, if_neg (fun h => hsub h.1), List.append_nil]

theorem inv_publish (h : Inv b calls) (name : String) (m : M) : Inv (publish b name m) calls := by
  refine ⟨⟨h.senders.channels, h.senders.held, h.senders.commands, h.senders.waiting,
    h.senders.acked, h.senders.receivers, h.senders.kept, h.senders.listened⟩,
    ⟨h.follows.kept, h.follows.left, h.follows.confirmed, h.follows.connection⟩, h.reads, ?_⟩
  intro e he since hlive
  have hpromised := h.promised e he since hlive
  refine ⟨?_, hpromised.connection, ?_⟩
  · have hlength := hpromised.published
    unfold publish
    dsimp only
    rw [List.length_append]
    omega
  · intro hconnection
    have hup : b.connection.isSome = true := Option.isSome_of_mem hconnection
    rw [expected_publish hpromised.published, onWay_publish, ← List.append_assoc]
    have hsent := hpromised.sent hconnection
    by_cases hname : name = e.channel
    · have hsub := h.follows.confirmed e he (.inr (.inr ⟨since, hlive⟩)) hup
      rw [if_pos ⟨hconnection, hname⟩, if_pos ⟨hname ▸ hsub, hname⟩]
      exact suffix_concat hsent m
    · rw [if_neg (fun hboth => hname hboth.2), if_neg (fun hboth => hname hboth.2),
        List.append_nil, List.append_nil]
      exact hsent

theorem onWay_cons {rest : List (String × M)} {name : String} {m : M}
    (hstream : b.stream = (name, m) :: rest) (channel : String) :
    onWay b channel =
      (if name = channel then [m] else []) ++ onWay { b with stream := rest } channel := by
  unfold onWay
  rw [hstream]
  by_cases hname : name = channel
  · rw [if_pos hname, List.filter_cons_of_pos]
    · rfl
    · exact decide_eq_true hname
  · rw [if_neg hname, List.filter_cons_of_neg]
    · rfl
    · rw [decide_eq_true_eq]
      exact hname

theorem reads_sent {log : ℕ → List M} (h : Reads log d) (sender : ℕ) (m : M) :
    Reads (Function.update log sender (log sender ++ [m])) d := by
  by_cases hsame : d.sender = sender
  · have hnext := h.next
    subst hsame
    constructor
    · exact h.start
    · rw [Function.update_self, List.length_append]
      omega
    · intro hmissed
      rw [Function.update_self, List.take_append_of_le_length hnext]
      exact h.received hmissed
  · constructor
    · exact h.start
    · rw [Function.update_of_ne hsame]
      exact h.next
    · rw [Function.update_of_ne hsame]
      exact h.received

theorem inv_nextMessage (h : Inv b calls) : Inv (nextMessage b) calls := by
  unfold nextMessage
  cases hstream : b.stream with
  | nil => exact h
  | cons first rest =>
      obtain ⟨name, m⟩ := first
      have hkept : ∀ e ∈ calls, ∀ since, e.stage = .live (some since) →
          b.channels e.channel = some e.sender := by
        intro e he since hlive
        exact h.senders.kept e he (by rw [hlive]; rfl)
      dsimp only
      unfold dispatch
      cases hname : b.channels name with
      | none =>
          refine ⟨⟨h.senders.channels, h.senders.held, h.senders.commands, h.senders.waiting,
            h.senders.acked, h.senders.receivers, h.senders.kept, h.senders.listened⟩,
            ⟨h.follows.kept, h.follows.left, h.follows.confirmed, h.follows.connection⟩, h.reads,
            ?_⟩
          intro e he since hlive
          have hpromised := h.promised e he since hlive
          refine ⟨hpromised.published, hpromised.connection, fun hconnection => ?_⟩
          have hsent := hpromised.sent hconnection
          rw [onWay_cons hstream, if_neg] at hsent
          · exact hsent
          · intro hsame
            rw [hsame, hkept e he since hlive] at hname
            exact nomatch hname
      | some sender =>
          refine ⟨⟨h.senders.channels, h.senders.held, h.senders.commands, h.senders.waiting,
            h.senders.acked, h.senders.receivers, h.senders.kept, h.senders.listened⟩,
            ⟨h.follows.kept, h.follows.left, h.follows.confirmed, h.follows.connection⟩,
            fun e he => reads_sent (h.reads e he) sender m, ?_⟩
          intro e he since hlive
          have hpromised := h.promised e he since hlive
          have hreads := h.reads e he
          refine ⟨hpromised.published, hpromised.connection, fun hconnection => ?_⟩
          have hsent := hpromised.sent hconnection
          rw [onWay_cons hstream] at hsent
          have hsender := hkept e he since hlive
          dsimp only
          by_cases hsame : name = e.channel
          · -- It goes from the stream to what the sender was sent.
            rw [← hsame, hname, Option.some.injEq] at hsender
            rw [if_pos hsame, ← List.append_assoc] at hsent
            rw [hsender, Function.update_self,
              List.drop_append_of_le_length (hreads.start.trans hreads.next)]
            exact hsent
          · have hother : e.sender ≠ sender := by
              rintro rfl
              apply hsame
              rw [← (h.senders.channels name e.sender hname).2]
              exact (h.senders.held e he).2
            rw [if_neg hsame, List.nil_append] at hsent
            rw [Function.update_of_ne hother]
            exact hsent

/-! ### The connection -/

theorem isSome_of_confirmed (h : Inv b calls) (hd : d ∈ calls) (hconfirmed : Confirmed b d) :
    (b.channels d.channel).isSome = true := by
  rw [h.senders.kept d hd hconfirmed.listens]
  rfl

theorem inv_lose (h : Inv b calls) : Inv (lose b) calls where
  senders := ⟨h.senders.channels, h.senders.held, h.senders.commands, h.senders.waiting,
    h.senders.acked, h.senders.receivers, h.senders.kept, h.senders.listened⟩
  follows := by
    constructor
    · exact fun channel _ hup => nomatch hup
    · intro channel hchannel
      exact (h.follows.left channel hchannel).imp_right outcome_false
    · exact fun e _ _ hup => nomatch hup
    · exact fun c hc => nomatch hc
  reads := h.reads
  promised := fun e he since hlive =>
    have hpromised := h.promised e he since hlive
    ⟨hpromised.published, hpromised.connection, fun hconnection => nomatch hconnection⟩

theorem inv_reconnect (h : Inv b calls) : Inv (reconnect b) calls := by
  constructor
  · refine ⟨h.senders.channels, h.senders.held, h.senders.commands, (fun _ hack => nomatch hack),
      ?_, h.senders.receivers, h.senders.kept, h.senders.listened⟩
    intro ack hack
    rcases List.mem_append.1 hack with hack | hack
    · exact h.senders.waiting ack hack
    · exact h.senders.acked ack hack
  · constructor
    · exact fun channel hchannel _ => .inl hchannel
    · intro channel hchannel
      rcases h.follows.left channel hchannel with hunsub | hout
      · exact .inl hunsub
      · apply Or.inr
        have hoff : (reconnect b).subscribed channel = false := by
          show (b.channels channel).isSome = false
          rw [show b.channels channel = none from hchannel]
          rfl
        rw [hoff]
        exact outcome_false hout
    · intro e he hconfirmed _
      show (b.channels e.channel).isSome = true
      rw [h.senders.kept e he hconfirmed.listens]
      rfl
    · intro c hc
      rw [← Option.some.inj hc]
      exact Nat.lt_succ_self _
  · exact h.reads
  · intro e he since hlive
    have hpromised := h.promised e he since hlive
    refine ⟨hpromised.published, hpromised.connection.trans (Nat.lt_succ_self _), ?_⟩
    intro hconnection
    exact absurd (Option.some.inj hconnection).symm (Nat.ne_of_lt hpromised.connection)

theorem senders_pop {c : Command} {rest : List Command} (h : Senders b calls)
    (hcommands : b.commands = c :: rest) : Senders { b with commands := rest } calls := by
  refine ⟨h.channels, h.held, ?_, h.waiting, h.acked, h.receivers, h.kept, h.listened⟩
  intro channel ack hack
  apply h.commands channel ack
  rw [hcommands]
  exact List.mem_cons_of_mem _ hack

theorem outcome_pop {c : Command} {rest : List Command} (hcommands : b.commands = c :: rest)
    (channel : String) :
    outcome channel b.commands (b.subscribed channel) =
      outcome channel rest (c.outcome channel (b.subscribed channel)) := by
  rw [hcommands]
  rfl

theorem inv_fail {c : Command} {rest : List Command} (h : Inv b calls)
    (hcommands : b.commands = c :: rest) (waiting : List ℕ)
    (hwaiting : ∀ ack ∈ waiting, ack < b.senders) :
    Inv { lose { b with commands := rest } with waiting := waiting } calls := by
  have hpop := senders_pop h.senders hcommands
  constructor
  · exact ⟨hpop.channels, hpop.held, hpop.commands, hwaiting, hpop.acked, hpop.receivers, hpop.kept,
      hpop.listened⟩
  · constructor
    · exact fun channel _ hup => nomatch hup
    · intro channel hchannel
      apply (h.follows.left channel hchannel).imp_right
      intro hout
      rw [outcome_pop hcommands] at hout
      exact outcome_false hout
    · exact fun e _ _ hup => nomatch hup
    · exact fun c hc => nomatch hc
  · exact h.reads
  · intro e he since hlive
    have hpromised := h.promised e he since hlive
    exact ⟨hpromised.published, hpromised.connection, fun hconnection => nomatch hconnection⟩

theorem inv_subscribed {name : String} {ack : ℕ} {rest : List Command} (h : Inv b calls)
    (hcommands : b.commands = .subscribe name ack :: rest) :
    Inv { b with
      commands := rest
      subscribed := Function.update b.subscribed name true
      acked := ack :: b.acked } calls := by
  have hpop := senders_pop h.senders hcommands
  have hack := h.senders.commands name ack (by rw [hcommands]; exact List.mem_cons_self)
  have hstays : ∀ channel, b.subscribed channel = true →
      Function.update b.subscribed name true channel = true := by
    intro channel hsub
    by_cases hname : channel = name
    · rw [hname, Function.update_self]
    · rw [Function.update_of_ne hname]
      exact hsub
  constructor
  · refine ⟨hpop.channels, hpop.held, hpop.commands, hpop.waiting, ?_, hpop.receivers, hpop.kept,
      hpop.listened⟩
    intro other hother
    rcases List.mem_cons.1 hother with rfl | hother
    · exact hack.1
    · exact hpop.acked other hother
  · constructor
    · intro channel hchannel hup
      by_cases hname : channel = name
      · apply Or.inl
        rw [hname]
        exact Function.update_self _ _ _
      · rcases h.follows.kept channel hchannel hup with hsub | ⟨other, hother⟩ | hsend
        · exact .inl (hstays channel hsub)
        · rw [hcommands] at hother
          rcases List.mem_cons.1 hother with hhead | hother
          · exact absurd (Command.subscribe.inj hhead).1 hname
          · exact .inr (.inl ⟨other, hother⟩)
        · exact .inr (.inr hsend)
    · intro channel hchannel
      apply (h.follows.left channel hchannel).imp_right
      intro hout
      rw [outcome_pop hcommands, Command.outcome] at hout
      by_cases hname : channel = name
      · rw [hname, decide_eq_true rfl, Bool.true_or] at hout
        rw [hname]
        dsimp only
        rw [Function.update_self]
        exact hout
      · rw [decide_eq_false (Ne.symm hname), Bool.false_or] at hout
        dsimp only
        rw [Function.update_of_ne hname]
        exact hout
    · intro e he hconfirmed hup
      by_cases hself : e.sender = ack
      · have hname : e.channel = name := by
          rw [← (h.senders.held e he).2, hself]
          exact hack.2
        dsimp only
        rw [hname, Function.update_self]
      · apply hstays
        apply h.follows.confirmed e he _ hup
        rcases hconfirmed with htell | ⟨hstage, hacked⟩ | hlive
        · exact .inl htell
        · rcases List.mem_cons.1 hacked with hhead | hacked
          · exact absurd hhead hself
          · exact .inr (.inl ⟨hstage, hacked⟩)
        · exact .inr (.inr hlive)
    · exact h.follows.connection
  · exact h.reads
  · intro e he since hlive
    have hpromised := h.promised e he since hlive
    exact ⟨hpromised.published, hpromised.connection, hpromised.sent⟩

theorem inv_keep {name : String} {rest : List Command} (h : Inv b calls)
    (hcommands : b.commands = .unsubscribe name :: rest)
    (hkept : (b.channels name).isSome = true) : Inv { b with commands := rest } calls := by
  constructor
  · exact senders_pop h.senders hcommands
  · constructor
    · intro channel hchannel hup
      rcases h.follows.kept channel hchannel hup with hsub | ⟨other, hother⟩ | hsend
      · exact .inl hsub
      · rw [hcommands] at hother
        rcases List.mem_cons.1 hother with hhead | hother
        · exact nomatch hhead
        · exact .inr (.inl ⟨other, hother⟩)
      · exact .inr (.inr hsend)
    · intro channel hchannel
      apply (h.follows.left channel hchannel).imp_right
      intro hout
      have hname : name ≠ channel := by
        rintro rfl
        rw [show b.channels name = none from hchannel] at hkept
        exact nomatch hkept
      rw [outcome_pop hcommands, Command.outcome, decide_eq_false hname] at hout
      exact hout
    · exact h.follows.confirmed
    · exact h.follows.connection
  · exact h.reads
  · intro e he since hlive
    have hpromised := h.promised e he since hlive
    exact ⟨hpromised.published, hpromised.connection, hpromised.sent⟩

theorem inv_unsubscribed {name : String} {rest : List Command} (h : Inv b calls)
    (hcommands : b.commands = .unsubscribe name :: rest)
    (hnone : ¬(b.channels name).isSome = true) :
    Inv { b with
      commands := rest
      subscribed := Function.update b.subscribed name false } calls := by
  have hpop := senders_pop h.senders hcommands
  have hstays : ∀ channel, (b.channels channel).isSome = true → b.subscribed channel = true →
      Function.update b.subscribed name false channel = true := by
    intro channel hchannel hsub
    rw [Function.update_of_ne]
    · exact hsub
    · rintro rfl
      exact hnone hchannel
  constructor
  · exact ⟨hpop.channels, hpop.held, hpop.commands, hpop.waiting, hpop.acked, hpop.receivers,
      hpop.kept, hpop.listened⟩
  · constructor
    · intro channel hchannel hup
      rcases h.follows.kept channel hchannel hup with hsub | ⟨other, hother⟩ | hsend
      · exact .inl (hstays channel hchannel hsub)
      · rw [hcommands] at hother
        rcases List.mem_cons.1 hother with hhead | hother
        · exact nomatch hhead
        · exact .inr (.inl ⟨other, hother⟩)
      · exact .inr (.inr hsend)
    · intro channel hchannel
      apply (h.follows.left channel hchannel).imp_right
      intro hout
      rw [outcome_pop hcommands, Command.outcome] at hout
      by_cases hname : channel = name
      · rw [hname, decide_eq_true rfl] at hout
        rw [hname]
        dsimp only
        rw [Function.update_self]
        exact hout
      · rw [decide_eq_false (Ne.symm hname)] at hout
        dsimp only
        rw [Function.update_of_ne hname]
        exact hout
    · intro e he hconfirmed hup
      exact hstays e.channel (isSome_of_confirmed h he hconfirmed)
        (h.follows.confirmed e he hconfirmed hup)
    · exact h.follows.connection
  · exact h.reads
  · intro e he since hlive
    have hpromised := h.promised e he since hlive
    exact ⟨hpromised.published, hpromised.connection, hpromised.sent⟩

theorem inv_nextCommand (h : Inv b calls) (fails : Bool) : Inv (nextCommand b fails) calls := by
  unfold nextCommand
  cases hcommands : b.commands with
  | nil => exact h
  | cons c rest =>
      dsimp only
      cases c with
      | subscribe name ack =>
          unfold runCommand
          dsimp only
          split
          · apply inv_fail h hcommands
            intro other hother
            rcases List.mem_append.1 hother with hother | hother
            · exact h.senders.waiting other hother
            · rw [List.mem_singleton] at hother
              rw [hother]
              exact (h.senders.commands name ack (by rw [hcommands]; exact List.mem_cons_self)).1
          · exact inv_subscribed h hcommands
      | unsubscribe name =>
          unfold runCommand
          dsimp only
          split
          · rename_i hkept
            exact inv_keep h hcommands hkept
          · rename_i hnone
            split
            · exact inv_fail h hcommands b.waiting h.senders.waiting
            · exact inv_unsubscribed h hcommands hnone

/-! ### Steps -/

theorem inv_exec (w : Choice) (h : Inv b (d :: calls)) (hleaves : Leaves b d calls w) :
    Inv (exec b d w).1 ((exec b d w).2.toList ++ calls) := by
  unfold exec
  split
  · rename_i hstage
    exact inv_send h hstage
  · rename_i hstage
    have hon : ∀ confirmed, Onward d { d with stage := .tell confirmed } := by
      intro confirmed
      refine ⟨rfl, rfl, (fun _ => rfl), (fun _ => by rw [hstage]; rfl), ?_, ?_⟩
      · intro hsend
        exact nomatch hstage.symm.trans hsend
      · intro hunsub
        exact nomatch hstage.symm.trans hunsub
    dsimp only
    split
    · rename_i hacked
      apply h.stage (hon true) _ fun _ hlive => nomatch hlive
      intro _ hup
      exact h.follows.confirmed d List.mem_cons_self (.inr (.inl ⟨.inr hstage, hacked⟩)) hup
    · split
      · apply h.stage (hon false) _ fun _ hlive => nomatch hlive
        rintro (htell | ⟨hsend | hwait, -⟩ | ⟨since, hlive⟩) _
        · exact nomatch htell
        · exact nomatch hsend
        · exact nomatch hwait
        · exact nomatch hlive
      · exact h
  · rename_i confirmed hstage
    exact inv_tell h hstage
  · rename_i since hstage
    split
    · exact inv_recv h
    · exact inv_drop h hstage (hleaves ⟨since, hstage⟩ rfl)
    · exact h
  · rename_i hstage
    exact inv_unsubscribe h hstage
  · rename_i hstage
    exact inv_release h hstage

theorem inv_enter (r : Request M) (h : Inv b calls) (hjoins : Joins b r) :
    Inv (enter b r).1 ((enter b r).2.toList ++ calls) := by
  cases r with
  | subscribe channel =>
      dsimp only [enter, subscribe]
      cases hchannel : b.channels channel with
      | none => exact inv_make h hchannel
      | some sender =>
          apply inv_join h hchannel
          apply hjoins
          rw [hchannel]
          rfl
  | publish channel m => exact inv_publish h channel m
  | command fails =>
      dsimp only [enter]
      split
      · exact inv_nextCommand h fails
      · exact h
  | message =>
      dsimp only [enter]
      split
      · exact inv_nextMessage h
      · exact h
  | lose => exact inv_lose h
  | reconnect =>
      dsimp only [enter]
      split
      · exact h
      · exact inv_reconnect h

theorem inv_streams : GuardedInvariant (streams (M := M)) Inv guards where
  perm := Inv.perm
  enter := fun r h hjoins => inv_enter r h hjoins
  exec := inv_exec

theorem inv_fresh : Inv (fresh : Bus M) [] where
  senders :=
    { channels := fun _ _ h => nomatch h
      held := fun _ h => nomatch h
      commands := fun _ _ h => nomatch h
      waiting := fun _ h => nomatch h
      acked := fun _ h => nomatch h
      receivers := fun _ => rfl
      kept := fun _ h => nomatch h
      listened := fun _ h => nomatch h }
  follows :=
    { kept := fun _ h => nomatch h
      left := fun _ _ => .inr rfl
      confirmed := fun _ h => nomatch h
      connection := fun _ h => nomatch h }
  reads := fun _ h => nomatch h
  promised := fun _ h => nomatch h

theorem received_append (h : Reads b.log d) (hmissed : d.missed = false) :
    d.received ++ (b.log d.sender).drop d.next = (b.log d.sender).drop d.start := by
  have hstart := h.start
  have hnext := h.next
  rw [h.received hmissed, ← List.drop_append_of_le_length, List.take_append_drop]
  rw [List.length_take]
  omega

theorem Inv.isKept {c : Config (Bus M) (Subscription M)} (h : Inv c.store c.calls) : Kept c where
  exact := by
    rintro ⟨hcommands, hstages⟩ hup channel
    constructor
    · constructor
      · intro hsub
        by_contra hnone
        rw [Bool.not_eq_true, Option.isSome_eq_false_iff, Option.isNone_iff_eq_none] at hnone
        rcases h.follows.left channel hnone with ⟨d, hd, -, hunsub⟩ | hout
        · exact (hstages d hd).2 hunsub
        · rw [hcommands, hsub] at hout
          exact nomatch hout
      · intro hchannel
        rcases h.follows.kept channel hchannel hup with hsub | ⟨ack, hack⟩ | ⟨d, hd, -, hsend⟩
        · exact hsub
        · rw [hcommands] at hack
          exact nomatch hack
        · exact absurd hsend (hstages d hd).1
    · constructor
      · exact h.senders.listened channel
      · rintro ⟨d, hd, rfl, hlistens⟩
        rw [h.senders.kept d hd hlistens]
        rfl
  reached := by
    intro d hd since hlive hconnection hmissed _
    rw [received_append (h.reads d hd) hmissed]
    exact (h.promised d hd since hlive).sent hconnection

/-- In every run from a bus no stream has been opened on, Redis, the process and its streams
agree on the channels once no command is queued, and no subscription misses what it was
promised, if none joins a channel Redis has not confirmed and no drop leaves a channel to
another that is being dropped. -/
theorem kept_throughout (events : List (Event (Request M) Choice))
    (hguarded : Guarded streams.step guards.meets (⟨fresh, []⟩ : Config (Bus M) _) events) :
    ∀ before, before <+: events → Kept (run streams.step ⟨fresh, []⟩ before) := by
  rintro before ⟨after, rfl⟩
  apply Inv.isKept
  exact inv_streams.run ⟨fresh, []⟩ before inv_fresh ((guarded_append _ _ _).1 hguarded).1

def oneStream : List (Event (Request ℕ) Choice) :=
  [.request .reconnect, .request (.subscribe "timeline:1"), .advance 0 .goOn,
    .request (.command false), .advance 0 .goOn, .advance 0 .goOn,
    .request (.publish "timeline:1" 7), .request .message, .advance 0 .recv]

theorem kept_oneStream : Kept (run streams.step ⟨fresh, []⟩ oneStream) := by
  apply kept_throughout oneStream _ oneStream (List.prefix_refl _)
  refine ⟨trivial, (fun h => nomatch h), ?_, trivial, ?_, ?_, trivial, trivial, ?_, trivial⟩
  · exact fun _ h => nomatch h
  · exact fun _ h => nomatch h
  · exact fun _ h => nomatch h
  · exact fun _ h => nomatch h

/-! ### Two streams closed at once -/

/-- Two streams of one channel are opened, and each looks whether it is the last while the
other's receiver is still there. -/
def closedAtOnce : List (Event (Request ℕ) Choice) :=
  [.request .reconnect, .request (.subscribe "timeline:1"), .advance 0 .goOn,
    .request (.command false), .advance 0 .goOn, .advance 0 .goOn,
    .request (.subscribe "timeline:1"), .advance 1 .goOn,
    .advance 0 .drop, .advance 1 .drop, .advance 0 .goOn, .advance 0 .goOn]

/-- The process goes on listening to a channel for nobody. -/
theorem listens_for_nobody :
    ¬ (∀ before, before <+: closedAtOnce → Kept (run streams.step ⟨fresh, []⟩ before)) ∧
      (run streams.step ⟨fresh, []⟩ closedAtOnce).calls.length = 0 ∧
      (run streams.step ⟨fresh, []⟩ closedAtOnce).store.commands = [] ∧
      (run streams.step ⟨fresh, []⟩ closedAtOnce).store.subscribed "timeline:1" = true := by
  have hcalls : (run streams.step ⟨fresh, []⟩ closedAtOnce).calls.length = 0 := by
    decide +kernel
  have hcommands : (run streams.step ⟨fresh, []⟩ closedAtOnce).store.commands = [] := by
    decide +kernel
  have hconnection :
      (run streams.step ⟨fresh, []⟩ closedAtOnce).store.connection.isSome = true := by
    decide +kernel
  have hsubscribed : (run streams.step ⟨fresh, []⟩ closedAtOnce).store.subscribed "timeline:1" =
      true := by
    decide +kernel
  refine ⟨?_, hcalls, hcommands, hsubscribed⟩
  intro h
  have hnone := List.length_eq_zero_iff.1 hcalls
  have hsettled : Settled (run streams.step ⟨fresh, []⟩ closedAtOnce).store
      (run streams.step ⟨fresh, []⟩ closedAtOnce).calls := by
    refine ⟨hcommands, ?_⟩
    rw [hnone]
    exact fun _ hd => nomatch hd
  have hexact := (h closedAtOnce (List.prefix_refl _)).exact hsettled hconnection "timeline:1"
  obtain ⟨d, hd, -⟩ := hexact.2.1 (hexact.1.1 hsubscribed)
  rw [hnone] at hd
  exact nomatch hd

end Eunha.StreamBus
