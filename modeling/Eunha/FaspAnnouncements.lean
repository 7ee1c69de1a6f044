import Eunha.Interleaving
import Eunha.Roles
import Mathlib.Data.List.Sort
import Mathlib.Logic.Function.Basic

/-!
# Announcing to providers

A life-cycle event is posted to the provider of every subscription to it, in one loop that
ends at the first error, by a job that is tried again. A backfill is announced batch by batch:
each call reads the cursor of the request, posts the next objects below it, and moves the
cursor past them or marks the request fulfilled. A provider may ask for any number of batches
at once, and objects come and go between any two statements.
-/
namespace Eunha.FaspAnnouncements
open Interleaving Runs

inductive Category where
  | account
  | content
  deriving DecidableEq

inductive SubscriptionType where
  | lifecycle
  | trends
  deriving DecidableEq

structure Provider where
  id : ℤ
  confirmed : Bool
  deriving DecidableEq

inductive Error where
  | connection
  | unexpectedResponse
  | signature
  | other
  deriving DecidableEq

def Error.isConnection : Error → Bool
  | .connection => true
  | _ => false

/-- What a provider is found to be as it is called: whether it is available before and
after, and the error of the work, if it ends in one. -/
structure Answer where
  available : Bool
  error : Option Error
  stillAvailable : Bool
  deriving DecidableEq

/-- `with_provider`: whether the work is done, and the error that is returned. -/
def withProvider (provider : Provider) (answer : Answer) : Bool × Option Error :=
  if !provider.confirmed || !answer.available then (false, none)
  else
    (true, answer.error.filter fun error => !(error.isConnection && !answer.stillAvailable))

/-! ### Life-cycle events -/

/-- A row of `fasp_subscriptions`. -/
structure Subscription where
  id : ℤ
  category : Category
  subscriptionType : SubscriptionType
  faspProviderId : ℤ
  deriving DecidableEq

structure Subscribed where
  subscriptionId : ℤ
  provider : Provider
  deriving DecidableEq

def find (providers : List Provider) (id : ℤ) : Option Provider :=
  providers.find? (·.id = id)

def subscriptions (rows : List Subscription) (providers : List Provider) (category : Category)
    (subscriptionType : SubscriptionType) : List Subscribed :=
  let rows := rows.filter fun r => r.category = category ∧ r.subscriptionType = subscriptionType
  (rows.insertionSort (·.id ≤ ·.id)).filterMap fun r =>
    (find providers r.faspProviderId).map fun provider => ⟨r.id, provider⟩

/-- `announce_lifecycle_event`: the subscriptions it is posted to, and the error the loop
ends with. -/
def announceLifecycleEvent (answers : Subscribed → Answer) :
    List Subscribed → List Subscribed × Option Error
  | [] => ([], none)
  | subscribed :: rest =>
      let call := withProvider subscribed.provider (answers subscribed)
      let posted := if call.1 then [subscribed] else []
      match call.2 with
      | some error => (posted, some error)
      | none =>
          let after := announceLifecycleEvent answers rest
          (posted ++ after.1, after.2)

def perform (answers : ℕ → Subscribed → Answer) (subscribed : List Subscribed) :
    ℕ → ℕ → List Subscribed
  | attempt, 0 => (announceLifecycleEvent (answers attempt) subscribed).1
  | attempt, retries + 1 =>
      let posted := (announceLifecycleEvent (answers attempt) subscribed).1
      match (announceLifecycleEvent (answers attempt) subscribed).2 with
      | none => posted
      | some _ => posted ++ perform answers subscribed (attempt + 1) retries

/-- `options(5)` -/
def retries : ℕ := 5

def Sent (rows : List Subscription) (providers : List Provider) (category : Category)
    (answers : ℕ → Subscribed → Answer) (provider : Provider) : Prop :=
  ∃ s ∈ perform answers (subscriptions rows providers category .lifecycle) 0 retries,
    s.provider = provider

structure Answering (answers : ℕ → Subscribed → Answer) (provider : Provider) : Prop where
  confirmed : provider.confirmed = true
  available : ∀ n s, s.provider = provider → (answers n s).available = true
  answered : ∀ n s, s.provider = provider → (answers n s).error = none

/-- The call of this subscription ends without an error: its provider is not called, or it
answers, or it cannot be reached and is unavailable since. -/
def Settles (answer : Answer) (provider : Provider) : Prop :=
  provider.confirmed = false ∨ answer.available = false ∨ answer.error = none ∨
    answer.error = some .connection ∧ answer.stillAvailable = false

def Clears (rows : List Subscription) (providers : List Provider) (category : Category)
    (answers : ℕ → Subscribed → Answer) (provider : Provider) : Prop :=
  ∃ n ≤ retries, ∀ s ∈ (subscriptions rows providers category .lifecycle).takeWhile
    (·.provider ≠ provider), Settles (answers n s) s.provider

theorem withProvider_settles {provider : Provider} {answer : Answer} :
    (withProvider provider answer).2 = none ↔ Settles answer provider := by
  cases hconfirmed : provider.confirmed with
  | false => simp [withProvider, Settles, hconfirmed]
  | true =>
      cases havailable : answer.available with
      | false => simp [withProvider, Settles, hconfirmed, havailable]
      | true =>
          cases herror : answer.error with
          | none => simp [withProvider, Settles, hconfirmed, havailable, herror]
          | some error =>
              cases error <;>
                simp [withProvider, Settles, hconfirmed, havailable, herror, Error.isConnection]

theorem withProvider_answering {answers : ℕ → Subscribed → Answer} {s : Subscribed} (n : ℕ)
    (h : Answering answers s.provider) : withProvider s.provider (answers n s) = (true, none) := by
  simp [withProvider, h.confirmed, h.available n s rfl, h.answered n s rfl]

variable {answers : ℕ → Subscribed → Answer} {provider : Provider}

theorem announce_sends_iff (h : Answering answers provider) (n : ℕ) (subs : List Subscribed)
    (hsub : ∃ s ∈ subs, s.provider = provider) :
    (∃ s ∈ (announceLifecycleEvent (answers n) subs).1, s.provider = provider) ↔
      ∀ s ∈ subs.takeWhile (·.provider ≠ provider), Settles (answers n s) s.provider := by
  induction subs with
  | nil => simp at hsub
  | cons subscribed rest ih =>
      by_cases hp : subscribed.provider = provider
      · have hcall := withProvider_answering n (hp ▸ h : Answering answers subscribed.provider)
        refine iff_of_true ⟨subscribed, ?_, hp⟩ (by simp [hp])
        rw [announceLifecycleEvent, hcall]
        exact List.mem_cons_self
      · have hrest : ∃ s ∈ rest, s.provider = provider := by
          simpa [hp] using hsub
        have hposted : ∀ b : Bool, ∀ s ∈ (if b then [subscribed] else []),
            s.provider ≠ provider := by
          intro b s hs
          cases b <;> simp_all
        rw [List.takeWhile_cons_of_pos (by simpa using hp), List.forall_mem_cons,
          ← withProvider_settles, ← ih hrest, announceLifecycleEvent]
        cases herror : (withProvider subscribed.provider (answers n subscribed)).2 with
        | some error =>
            simp only [reduceCtorEq, false_and, iff_false]
            intro hsent
            obtain ⟨s, hs, hsp⟩ := hsent
            exact hposted _ s hs hsp
        | none =>
            simp only [true_and, List.mem_append, or_and_right, exists_or]
            refine or_iff_right fun hsent => ?_
            obtain ⟨s, hs, hsp⟩ := hsent
            exact hposted _ s hs hsp

theorem announce_sends_of_ok (h : Answering answers provider) (n : ℕ) (subs : List Subscribed)
    (hsub : ∃ s ∈ subs, s.provider = provider)
    (hok : (announceLifecycleEvent (answers n) subs).2 = none) :
    ∃ s ∈ (announceLifecycleEvent (answers n) subs).1, s.provider = provider := by
  rw [announce_sends_iff h n subs hsub]
  clear hsub
  induction subs with
  | nil => simp
  | cons subscribed rest ih =>
      rw [announceLifecycleEvent] at hok
      cases herror : (withProvider subscribed.provider (answers n subscribed)).2 with
      | some error => simp [herror] at hok
      | none =>
          simp only [herror] at hok
          intro s hs
          rw [List.takeWhile_cons] at hs
          split at hs
          · cases List.mem_cons.mp hs with
            | inl hhead => exact hhead ▸ withProvider_settles.mp herror
            | inr htail => exact ih hok s htail
          · simp at hs

theorem perform_sends_iff (h : Answering answers provider) (subs : List Subscribed)
    (hsub : ∃ s ∈ subs, s.provider = provider) (attempt retries : ℕ) :
    (∃ s ∈ perform answers subs attempt retries, s.provider = provider) ↔
      ∃ n ≤ retries, ∀ s ∈ subs.takeWhile (·.provider ≠ provider),
        Settles (answers (attempt + n) s) s.provider := by
  induction retries generalizing attempt with
  | zero =>
      rw [perform, announce_sends_iff h attempt subs hsub]
      simp
  | succ retries ih =>
      rw [perform]
      cases hend : (announceLifecycleEvent (answers attempt) subs).2 with
      | none =>
          have hsent := announce_sends_of_ok h attempt subs hsub hend
          refine iff_of_true hsent ⟨0, Nat.zero_le _, ?_⟩
          exact (announce_sends_iff h attempt subs hsub).mp hsent
      | some error =>
          simp only [List.mem_append, or_and_right, exists_or, ih,
            announce_sends_iff h attempt subs hsub]
          constructor
          · intro hcases
            cases hcases with
            | inl hfirst => exact ⟨0, Nat.zero_le _, hfirst⟩
            | inr hlater =>
                obtain ⟨n, hn, hsettles⟩ := hlater
                refine ⟨n + 1, by omega, ?_⟩
                rwa [show attempt + (n + 1) = attempt + 1 + n by omega]
          · intro hcleared
            obtain ⟨n, hn, hsettles⟩ := hcleared
            cases n with
            | zero => exact .inl hsettles
            | succ n =>
                refine .inr ⟨n, by omega, ?_⟩
                rwa [show attempt + 1 + n = attempt + (n + 1) by omega]

/-! ### Backfills -/

/-- A parameter of a request's body. -/
inductive Value where
  | null
  | number (asI64 : Option ℤ)
  | string (s : String)
  | other
  deriving DecidableEq

def integerParam : Option Value → Except Unit (Option ℤ)
  | none => .ok none
  | some .null => .ok none
  | some (.number (some n)) => .ok (some n)
  | some (.number none) => .error ()
  | some (.string s) =>
      if Sanitizer.trim s.toList = [] then .ok none
      else
        match Roles.parseI64 (Sanitizer.trim s.toList) with
        | some n => .ok (some n)
        | none => .error ()
  | some .other => .error ()

/-- `max_count` as it is accepted: any 32-bit integer, and 100 without one. -/
def maxCountParam (maxCount : Option Value) : Option ℤ :=
  match integerParam maxCount with
  | .ok (some n) => if -2 ^ 31 ≤ n ∧ n < 2 ^ 31 then some n else none
  | .ok none => if maxCount = none then some 100 else none
  | .error _ => none

/-- One of the `DATA_CATEGORIES`. -/
def categoryParam : Option Value → Option Category
  | some (.string "account") => some .account
  | some (.string "content") => some .content
  | _ => none

/-- A row of `fasp_backfill_requests`. The cursor is an id, which is stored in decimal. -/
structure BackfillRequest where
  category : Category
  maxCount : ℤ
  cursor : Option ℤ
  fulfilled : Bool
  deriving DecidableEq

/-- `create_backfill_request`: the row it inserts, if it accepts the parameters. -/
def createBackfillRequest (category maxCount : Option Value) : Option BackfillRequest :=
  match maxCountParam maxCount with
  | none => none
  | some maxCount =>
      match categoryParam category with
      | none => none
      | some category => some ⟨category, maxCount, none, false⟩

structure Store where
  request : Option BackfillRequest
  /-- What `DISCOVERABLE_ACCOUNTS` and `INDEXABLE_STATUSES` find now. -/
  objects : Category → List ℤ
  /-- What they found when the request was made, and have found ever since. -/
  kept : Category → List ℤ
  /-- The objects of the announcements the provider has answered. -/
  announced : List ℤ

/-- `$1::bigint IS NULL OR id < $1` -/
def Below (cursor : Option ℤ) (id : ℤ) : Prop := ∀ c ∈ cursor, id < c

instance decidableBelow (cursor : Option ℤ) (id : ℤ) : Decidable (Below cursor id) :=
  match cursor with
  | none => isTrue (by simp [Below])
  | some c => decidable_of_iff (id < c) (by simp [Below])

/-- `next_objects`: the newest below the cursor, an error where the limit is negative. -/
def nextObjects (objects : List ℤ) (limit : ℤ) (cursor : Option ℤ) : Option (List ℤ) :=
  if limit < 0 then none
  else some (((objects.filter (Below cursor)).insertionSort (· ≥ ·)).take limit.toNat)

def moreObjectsAvailable (objects : List ℤ) (last : ℤ) : Bool := objects.any (· < last)

/-- A call of `backfill`, with what it has read. -/
inductive Call where
  | find
  | next (row : BackfillRequest)
  | more (category : Category) (objects : List ℤ)
  | post (objects : List ℤ) (more : Bool)
  | advance (objects : List ℤ) (more : Bool)
  deriving DecidableEq

/-- A call starts, as a new job or one that is tried again; the objects of a category become
these; the request is deleted with its provider. -/
inductive Request where
  | backfill
  | change (category : Category) (ids : List ℤ)
  | destroy

def Store.change (s : Store) (category : Category) (ids : List ℤ) : Store :=
  { s with
    objects := Function.update s.objects category ids
    kept := Function.update s.kept category ((s.kept category).filter (· ∈ ids)) }

def Store.announce (s : Store) (objects : List ℤ) : Store :=
  { s with announced := s.announced ++ objects }

/-- `#advance!` -/
def Store.advance (s : Store) (objects : List ℤ) (more : Bool) : Store :=
  { s with
    request := s.request.map fun row =>
      match objects.getLast?, more with
      | some last, true => { row with cursor := some last }
      | _, _ => { row with fulfilled := true } }

def enter (s : Store) : Request → Store × Option Call
  | .backfill => (s, some .find)
  | .change category ids => (s.change category ids, none)
  | .destroy => ({ s with request := none }, none)

def exec (s : Store) : Call → Bool → Store × Option Call
  | _, false => (s, none)
  | .find, true => (s, s.request.map .next)
  | .next row, true =>
      (s, (nextObjects (s.objects row.category) row.maxCount row.cursor).map
        (.more row.category))
  | .more category objects, true =>
      (s, some (.post objects (match objects.getLast? with
        | some last => moreObjectsAvailable (s.objects category) last
        | none => false)))
  | .post objects more, true => (s.announce objects, some (.advance objects more))
  | .advance objects more, true => (s.advance objects more, none)

def machine : Machine Store Call Request Bool := ⟨enter, exec⟩

def created (row : BackfillRequest) (objects : Category → List ℤ) : Config Store Call :=
  ⟨⟨some row, objects, objects, []⟩, []⟩

/-- Once the request is marked fulfilled, the objects kept since it was made have been
announced. -/
def Complete (s : Store) : Prop :=
  ∀ row ∈ s.request, row.fulfilled = true → ∀ id ∈ s.kept row.category, id ∈ s.announced

def Unstarved (s : Store) : Call → Prop
  | .next row => row.maxCount ≠ 0 ∨ ∀ id ∈ s.objects row.category, ¬Below row.cursor id
  | _ => True

instance decidableUnstarved (s : Store) (call : Call) : Decidable (Unstarved s call) :=
  match call with
  | .next row => inferInstanceAs (Decidable (row.maxCount ≠ 0 ∨ _))
  | .find => isTrue trivial
  | .more _ _ => isTrue trivial
  | .post _ _ => isTrue trivial
  | .advance _ _ => isTrue trivial

def guards : Guards Store Call Request Bool :=
  ⟨fun _ _ _ => True, fun s call _ _ => Unstarved s call⟩

/-- Kept, and not announced yet. -/
def Missing (s : Store) (category : Category) (id : ℤ) : Prop :=
  id ∈ s.kept category ∧ id ∉ s.announced

def Reached (s : Store) (category : Category) (objects : List ℤ) : Prop :=
  ∀ id, Missing s category id → id ∈ objects ∨ ∃ last ∈ objects.getLast?, id < last

def Sound (s : Store) (category : Category) : Call → Prop
  | .find => True
  | .next row => row.category = category ∧ ∀ id, Missing s category id → Below row.cursor id
  | .more c objects => c = category ∧ Reached s category objects
  | .post objects more => Reached s category objects ∧
      (more = false → ∀ id, Missing s category id → id ∈ objects)
  | .advance objects more =>
      (∀ id, Missing s category id → ∃ last ∈ objects.getLast?, id < last) ∧
        (more = false → ∀ id, ¬Missing s category id)

structure Inv (category : Category) (s : Store) (calls : List Call) : Prop where
  kept : ∀ id ∈ s.kept category, id ∈ s.objects category
  ofCategory : ∀ row ∈ s.request, row.category = category
  cursor : ∀ row ∈ s.request, ∀ id, Missing s category id → Below row.cursor id
  fulfilled : ∀ row ∈ s.request, row.fulfilled = true → ∀ id, ¬Missing s category id
  calls : ∀ call ∈ calls, Sound s category call

variable {s t : Store} {category : Category} {calls : List Call} {call : Call}

theorem Sound.mono (h : Sound s category call)
    (hmissing : ∀ id, Missing t category id → Missing s category id) :
    Sound t category call := by
  cases call with
  | find => trivial
  | next row => exact ⟨h.1, fun id hid => h.2 id (hmissing id hid)⟩
  | more c objects => exact ⟨h.1, fun id hid => h.2 id (hmissing id hid)⟩
  | post objects more =>
      exact ⟨fun id hid => h.1 id (hmissing id hid),
        fun hmore id hid => h.2 hmore id (hmissing id hid)⟩
  | advance objects more =>
      exact ⟨fun id hid => h.1 id (hmissing id hid),
        fun hmore id hid => h.2 hmore id (hmissing id hid)⟩

theorem Inv.mono (h : Inv category s calls)
    (hkept : ∀ id ∈ t.kept category, id ∈ t.objects category)
    (hrequest : ∀ row ∈ t.request, row ∈ s.request)
    (hmissing : ∀ id, Missing t category id → Missing s category id) :
    Inv category t calls where
  kept := hkept
  ofCategory row hrow := h.ofCategory row (hrequest row hrow)
  cursor row hrow id hid := h.cursor row (hrequest row hrow) id (hmissing id hid)
  fulfilled row hrow hful id hid := h.fulfilled row (hrequest row hrow) hful id (hmissing id hid)
  calls call hcall := (h.calls call hcall).mono hmissing

theorem change_kept (s : Store) (c : Category) (ids : List ℤ) :
    (s.change c ids).kept = Function.update s.kept c ((s.kept c).filter (· ∈ ids)) := rfl

theorem change_objects (s : Store) (c : Category) (ids : List ℤ) :
    (s.change c ids).objects = Function.update s.objects c ids := rfl

theorem missing_change {c : Category} {ids : List ℤ} {id : ℤ}
    (h : Missing (s.change c ids) category id) : Missing s category id := by
  refine ⟨?_, h.2⟩
  have hkept := h.1
  rw [change_kept] at hkept
  by_cases hc : category = c
  · subst hc
    rw [Function.update_self] at hkept
    exact (List.mem_filter.mp hkept).1
  · rwa [Function.update_of_ne hc] at hkept

theorem kept_change {c : Category} {ids : List ℤ} {id : ℤ}
    (h : ∀ id ∈ s.kept category, id ∈ s.objects category)
    (hid : id ∈ (s.change c ids).kept category) : id ∈ (s.change c ids).objects category := by
  rw [change_kept] at hid
  rw [change_objects]
  by_cases hc : category = c
  · subst hc
    rw [Function.update_self] at hid ⊢
    simpa using (List.mem_filter.mp hid).2
  · rw [Function.update_of_ne hc] at hid ⊢
    exact h id hid

theorem missing_announce {objects : List ℤ} {id : ℤ} :
    Missing (s.announce objects) category id ↔ Missing s category id ∧ id ∉ objects := by
  simp [Missing, Store.announce, and_assoc]

theorem mem_take_or_lt {l : List ℤ} {n : ℕ} {a : ℤ} (hsorted : l.Pairwise (· ≥ ·))
    (hn : n ≠ 0) (ha : a ∈ l) : a ∈ l.take n ∨ ∃ last ∈ (l.take n).getLast?, a < last := by
  by_cases hmem : a ∈ l.take n
  · exact .inl hmem
  · have hne : l.take n ≠ [] := by
      intro hnil
      cases List.take_eq_nil_iff.mp hnil with
      | inl hzero => exact hn hzero
      | inr hempty => simp [hempty] at ha
    rw [← List.take_append_drop n l] at ha hsorted
    have hdrop := (List.mem_append.mp ha).resolve_left hmem
    have hlast := List.getLast_mem hne
    refine .inr ⟨(l.take n).getLast hne, List.getLast?_eq_getLast_of_ne_nil hne, ?_⟩
    have hle := (List.pairwise_append.mp hsorted).2.2 _ hlast a hdrop
    exact lt_of_le_of_ne hle fun heq => hmem (heq ▸ hlast)

theorem reached_next {row : BackfillRequest} {objects : List ℤ}
    (hkept : ∀ id ∈ s.kept category, id ∈ s.objects category)
    (hsound : Sound s category (.next row)) (hguard : Unstarved s (.next row))
    (hnext : nextObjects (s.objects row.category) row.maxCount row.cursor = some objects) :
    Reached s category objects := by
  intro id hid
  have hbelow := hsound.2 id hid
  have hobject : id ∈ s.objects row.category := hsound.1 ▸ hkept id hid.1
  have hcount : row.maxCount ≠ 0 := hguard.resolve_right fun h => h id hobject hbelow
  rw [nextObjects] at hnext
  split at hnext
  · simp at hnext
  · rename_i hlimit
    rw [← Option.some.inj hnext]
    apply mem_take_or_lt (List.pairwise_insertionSort _ _) (by omega)
    rw [List.mem_insertionSort, List.mem_filter]
    exact ⟨hobject, by simpa using hbelow⟩

theorem mem_of_no_more {objects : List ℤ} {id : ℤ}
    (hkept : ∀ id ∈ s.kept category, id ∈ s.objects category)
    (hreached : Reached s category objects)
    (hmore : (match objects.getLast? with
      | some last => moreObjectsAvailable (s.objects category) last
      | none => false) = false)
    (hid : Missing s category id) : id ∈ objects := by
  cases hreached id hid with
  | inl hmem => exact hmem
  | inr hbelow =>
      obtain ⟨last, hlast, hlt⟩ := hbelow
      rw [Option.mem_def.mp hlast] at hmore
      simp only [moreObjectsAvailable, List.any_eq_false, decide_eq_true_eq] at hmore
      exact absurd hlt (hmore id (hkept id hid.1))

theorem Inv.moveCursor {last : ℤ} (h : Inv category s calls)
    (hmissing : ∀ id, Missing s category id → id < last) :
    Inv category { s with request := s.request.map ({ · with cursor := some last }) } calls where
  kept := h.kept
  ofCategory row hrow := by
    obtain ⟨old, hold, rfl⟩ := Option.mem_map.mp hrow
    exact h.ofCategory old hold
  cursor row hrow id hid := by
    obtain ⟨old, hold, rfl⟩ := Option.mem_map.mp hrow
    simpa [Below] using hmissing id hid
  fulfilled row hrow hful := by
    obtain ⟨old, hold, rfl⟩ := Option.mem_map.mp hrow
    exact h.fulfilled old hold hful
  calls := h.calls

theorem Inv.fulfil (h : Inv category s calls) (hmissing : ∀ id, ¬Missing s category id) :
    Inv category { s with request := s.request.map ({ · with fulfilled := true }) } calls where
  kept := h.kept
  ofCategory row hrow := by
    obtain ⟨old, hold, rfl⟩ := Option.mem_map.mp hrow
    exact h.ofCategory old hold
  cursor row hrow id hid := absurd hid (hmissing id)
  fulfilled row hrow hful := hmissing
  calls := h.calls

theorem Inv.advance {objects : List ℤ} {more : Bool} (h : Inv category s calls)
    (hsound : Sound s category (.advance objects more)) :
    Inv category (s.advance objects more) calls := by
  rw [Store.advance]
  cases hlast : objects.getLast? with
  | none =>
      apply h.fulfil
      intro id hid
      obtain ⟨last, hmem, _⟩ := hsound.1 id hid
      simp [hlast] at hmem
  | some last =>
      cases more with
      | false => exact h.fulfil (hsound.2 rfl)
      | true =>
          apply h.moveCursor
          intro id hid
          obtain ⟨last', hmem, hlt⟩ := hsound.1 id hid
          rw [hlast, Option.mem_some_iff] at hmem
          exact hmem ▸ hlt

theorem Inv.announce {objects : List ℤ} (h : Inv category s calls) :
    Inv category (s.announce objects) calls :=
  h.mono h.kept (fun _ hrow => hrow) fun _ hid => (missing_announce.mp hid).1

theorem sound_announce {objects : List ℤ} {more : Bool}
    (h : Sound s category (.post objects more)) :
    Sound (s.announce objects) category (.advance objects more) := by
  constructor
  · intro id hid
    have hmissing := missing_announce.mp hid
    exact (h.1 id hmissing.1).resolve_left hmissing.2
  · intro hmore id hid
    have hmissing := missing_announce.mp hid
    exact hmissing.2 (h.2 hmore id hmissing.1)

theorem Inv.goOn (h : Inv category s calls) (next : Option Call)
    (hnext : ∀ call ∈ next, Sound s category call) : Inv category s (next.toList ++ calls) :=
  { h with
    calls := by
      intro call hcall
      cases List.mem_append.mp hcall with
      | inl hhead => exact hnext call (Option.mem_toList.mp hhead)
      | inr htail => exact h.calls call htail }

theorem inv_enter (r : Request) (h : Inv category s calls) :
    Inv category (enter s r).1 ((enter s r).2.toList ++ calls) := by
  cases r with
  | backfill => exact h.goOn (some .find) (by simp [Sound])
  | change c ids =>
      show Inv category (s.change c ids) calls
      exact h.mono (fun _ => kept_change h.kept) (fun _ hrow => hrow) fun _ => missing_change
  | destroy =>
      show Inv category { s with request := none } calls
      exact h.mono h.kept (by simp) fun _ hid => hid

theorem inv_exec (w : Bool) (h : Inv category s (call :: calls)) (hguard : Unstarved s call) :
    Inv category (exec s call w).1 ((exec s call w).2.toList ++ calls) := by
  have hsound := h.calls call (List.mem_cons_self ..)
  have hrest : Inv category s calls :=
    { h with calls := fun c hc => h.calls c (List.mem_cons_of_mem _ hc) }
  cases w with
  | false => cases call <;> exact hrest
  | true =>
      cases call with
      | find =>
          apply hrest.goOn
          intro c hc
          obtain ⟨row, hrow, rfl⟩ := Option.mem_map.mp hc
          exact ⟨h.ofCategory row hrow, h.cursor row hrow⟩
      | next row =>
          apply hrest.goOn
          intro c hc
          obtain ⟨objects, hobjects, rfl⟩ := Option.mem_map.mp hc
          exact ⟨hsound.1, reached_next h.kept hsound hguard hobjects⟩
      | more c objects =>
          obtain ⟨rfl, hreached⟩ := hsound
          apply hrest.goOn
          intro c' hc'
          rw [← Option.mem_some_iff.mp hc']
          exact ⟨hreached, fun hmore id => mem_of_no_more h.kept hreached hmore⟩
      | post objects more =>
          apply hrest.announce.goOn
          intro c hc
          rw [← Option.mem_some_iff.mp hc]
          exact sound_announce hsound
      | advance objects more => exact hrest.advance hsound

theorem inv_invariant (category : Category) :
    GuardedInvariant machine (Inv category) guards where
  perm hperm h := { h with calls := fun call hcall => h.calls call (hperm.mem_iff.mpr hcall) }
  enter r h _ := inv_enter r h
  exec w h hguard := inv_exec w h hguard

theorem inv_created (row : BackfillRequest) (objects : Category → List ℤ)
    (hnew : row.cursor = none ∧ row.fulfilled = false) :
    Inv row.category (created row objects).store (created row objects).calls where
  kept _ hid := hid
  ofCategory r hr := by
    rw [← Option.mem_some_iff.mp hr]
  cursor r hr id _ := by
    rw [← Option.mem_some_iff.mp hr, hnew.1]
    simp [Below]
  fulfilled r hr hful := by
    rw [← Option.mem_some_iff.mp hr, hnew.2] at hful
    simp at hful
  calls := by simp [created]

theorem createBackfillRequest_new {c m : Option Value} {row : BackfillRequest}
    (h : createBackfillRequest c m = some row) : row.cursor = none ∧ row.fulfilled = false := by
  rw [createBackfillRequest] at h
  split at h
  · simp at h
  · split at h
    · simp at h
    · cases h
      exact ⟨rfl, rfl⟩

theorem Inv.complete (h : Inv category s calls) : Complete s := by
  intro row hrow hful id hid
  by_contra hmissing
  exact h.fulfilled row hrow hful id ⟨h.ofCategory row hrow ▸ hid, hmissing⟩

/-! ### Independent and complete -/

/-- A provider that answers is sent an event just where, on one of the attempts, every
subscription before its first one settles; and a backfill is complete when it is marked
fulfilled, after every run that reads no batch of none while objects are left. -/
theorem announcements_independent_and_complete (rows : List Subscription)
    (providers : List Provider) (category : Category) (answers : ℕ → Subscribed → Answer)
    (provider : Provider) (objects : Category → List ℤ) (es : List (Event Request Bool)) :
    (Answering answers provider →
      (∃ s ∈ subscriptions rows providers category .lifecycle, s.provider = provider) →
      (Sent rows providers category answers provider ↔
        Clears rows providers category answers provider)) ∧
    ∀ category maxCount row, createBackfillRequest category maxCount = some row →
      Guarded machine.step guards.meets (created row objects) es →
        Complete (run machine.step (created row objects) es).store := by
  constructor
  · intro hanswering hsub
    rw [Sent, perform_sends_iff hanswering _ hsub]
    simp only [Nat.zero_add, Clears]
  · intro category maxCount row hrow hguarded
    have hinv := (inv_invariant row.category).run _ es
      (inv_created row objects (createBackfillRequest_new hrow)) hguarded
    exact hinv.complete

instance decidableMeets (c : Config Store Call) :
    (e : Event Request Bool) → Decidable (guards.meets c e)
  | .request _ => isTrue trivial
  | .advance k w =>
      match h : c.calls[k]? with
      | none => isTrue (by rw [Guards.meets, h]; trivial)
      | some call => decidable_of_iff (Unstarved c.store call) (by rw [Guards.meets, h]; rfl)

def two : List Provider := [⟨1, true⟩, ⟨2, true⟩]

def bothAccounts : List Subscription := [⟨1, .account, .lifecycle, 1⟩, ⟨2, .account, .lifecycle, 2⟩]

def failing (attempts : ℕ) (attempt : ℕ) (s : Subscribed) : Answer :=
  ⟨true, if s.provider.id = 1 ∧ attempt < attempts then some .unexpectedResponse else none, true⟩

theorem answering_second (attempts : ℕ) : Answering (failing attempts) ⟨2, true⟩ where
  confirmed := rfl
  available _ _ _ := rfl
  answered n s hs := by simp [failing, hs]

def oneCall : List (Event Request Bool) :=
  .request .backfill :: List.replicate 5 (.advance 0 true)

def twoObjects : Category → List ℤ := fun _ => [7, 9]

/-- The first provider answers the second attempt, and each of two batches holds one. -/
theorem sent_and_complete :
    Sent bothAccounts two .account (failing 1) ⟨2, true⟩ ∧
      Complete (run machine.step (created ⟨.account, 1, none, false⟩ twoObjects)
        (oneCall ++ oneCall)).store :=
  ⟨((announcements_independent_and_complete bothAccounts two .account (failing 1) ⟨2, true⟩
      twoObjects (oneCall ++ oneCall)).1
      (answering_second 1) ⟨⟨2, 2, true⟩, by decide, rfl⟩).mpr
        ⟨1, by decide, fun s _ => .inr (.inr (.inl (by simp [failing])))⟩,
    (announcements_independent_and_complete bothAccounts two .account (failing 1) ⟨2, true⟩
      twoObjects (oneCall ++ oneCall)).2 (some (.string "account")) (some (.number (some 1)))
      ⟨.account, 1, none, false⟩ (by decide) (by decide +kernel)⟩

/-- The first provider fails on every attempt, and the second is never sent the event; and
a request for batches of none is fulfilled with nothing announced. -/
theorem unsent_and_unannounced :
    (Answering (failing 6) ⟨2, true⟩ ∧
      (∃ s ∈ subscriptions bothAccounts two .account .lifecycle, s.provider = ⟨2, true⟩) ∧
      ¬Sent bothAccounts two .account (failing 6) ⟨2, true⟩) ∧
    createBackfillRequest (some (.string "account")) (some (.number (some 0))) =
      some ⟨.account, 0, none, false⟩ ∧
    ¬Complete (run machine.step (created ⟨.account, 0, none, false⟩ twoObjects) oneCall).store := by
  refine ⟨⟨answering_second 6, ⟨⟨2, 2, true⟩, by decide, rfl⟩, ?_⟩, by decide, ?_⟩
  · rw [Sent]
    decide +kernel
  · intro h
    exact absurd (h ⟨.account, 0, none, true⟩ (by decide +kernel) rfl 7 (by decide +kernel))
      (by decide +kernel)

end Eunha.FaspAnnouncements
