import Eunha.NoteReading
import Eunha.Worklists

/-!
# The walk of a reply tree

The replies of a remote status are found through its collection, the replies of these
through theirs, until enough are found or enough pages read. Whatever the other servers
and the tables answer is given by a world that changes with each question.

A page that could not be had is counted with those read, so the count of pages is one
too high at most for each collection: never too low, and past the limit by one at most.
-/
namespace Eunha.ReplyWalks
open Notes (Json member)
open NoteReading (valueOrId)
open Worklists

abbrev Uri := String

def maxReplies : ℕ := 1000
def maxPages : ℕ := 500
def collectionMaxItems : ℕ := 5
def maxRepliesPerStatus : ℕ := 500

/-! ### What answers the walk -/

/-- What comes of asking for the next page of a collection. -/
inductive Page where
  | items (items : List Json)
  | ended
  | temporaryFailure
  | otherFailure

/-- The other servers and the tables. -/
structure World (W : Type) where
  /-- The `UPDATE` that stamps the root and returns its `uri`. -/
  claimRoot : W → Option Uri × W
  /-- `fetch_object`; a request that is not answered at all is an error. -/
  object : W → Uri → Except Unit (Option Json) × W
  /-- `signing_key`: whether there is one. -/
  signingKey : W → Bool × W
  /-- `walk_embedded`, from the collection and the reference. -/
  openWalk : W → Json → Uri → W
  nextPage : W → Page × W
  /-- The replies held to the status of a `uri`, less those listed. -/
  unsubscribed : W → Uri → List Uri → List Uri × W
  /-- Those of the listed that are not to be fetched; the others held are stamped. -/
  dontUpdate : W → List Uri → List Uri × W

/-- What the walk did. -/
inductive Event where
  | root (uri : Uri)
  | reply (uri : Uri)
  | page
  | job (url : Uri) (prefetched batched : Bool)

structure Net (W : Type) where
  world : W
  log : List Event

def Net.did {W : Type} (net : Net W) (e : Event) (w : W) : Net W :=
  { world := w, log := net.log ++ [e] }

def Net.moved {W : Type} (net : Net W) (w : W) : Net W := { net with world := w }

def Event.replyUri : Event → Option Uri
  | .reply uri => some uri
  | _ => none

def Event.isPage : Event → Bool
  | .page => true
  | _ => false

def repliesFetched (log : List Event) : List Uri := log.filterMap Event.replyUri

def pagesRead (log : List Event) : ℕ := log.countP Event.isPage

/-- Why a walk is not over as it should: an error of the source, a subtraction below
zero, or turns of a loop left when those given were had. -/
inductive Stop where
  | failed
  | underflow
  | unfinished
  deriving DecidableEq

/-! ### Collections -/

section
variable {W : Type} (world : World W)

/-- The loop of `collection_items`. -/
def pageLoop (maxPages maxItems : ℕ) :
    ℕ → Net W → List Json → ℕ → Except Stop (Option (List Json × ℕ)) × Net W
  | 0, net, _, _ => (.error .unfinished, net)
  | turns + 1, net, items, nPages =>
      let (answer, w) := world.nextPage net.world
      match answer with
      | .items page =>
          let nPages := nPages + 1
          let items := items ++ page
          if maxItems ≤ items.length ∨ maxPages ≤ nPages then
            (.ok (some (items, nPages)), net.did .page w)
          else pageLoop maxPages maxItems turns (net.did .page w) items nPages
      | .temporaryFailure => (.error .failed, net.moved w)
      | .ended | .otherFailure =>
          if nPages = 0 then (.ok none, net.moved w)
          else (.ok (some (items, nPages + 1)), net.moved w)

def collectionItems (net : Net W) (collection : Json) (maxPages maxItems : ℕ)
    (reference : Uri) : Except Stop (Option (List Json × ℕ)) × Net W :=
  let (had, w) := world.signingKey net.world
  if had then
    pageLoop world maxPages maxItems (maxPages + 1)
      (net.moved (world.openWalk w collection reference)) [] 0
  else (.error .failed, net.moved w)

/-! ### The walk -/

def filterAllReplies (net : Net W) (statusUri : Uri) (items : List Json) : List Uri × Net W :=
  let uris := items.filterMap valueOrId
  let (unsubscribed, w) := world.unsubscribed net.world statusUri uris
  let uris := uris ++ unsubscribed
  let (dontUpdate, w) := world.dontUpdate w uris
  ((fresh ∅ (uris.filter fun uri => uri ∉ dontUpdate)).1.take maxRepliesPerStatus, net.moved w)

def pushFetchReplyWorkers (net : Net W) (uris : List Uri) (batched : Bool) : Net W :=
  { net with log := net.log ++ uris.map fun uri => .job uri false batched }

/-- `status_json.get("replies")`, unless it is null. -/
def repliesOf (statusJson : Json) : Option Json :=
  match member "replies" statusJson with
  | some .null => none
  | replies => replies

def getReplies (net : Net W) (statusUri : Uri) (statusJson : Json) (maxPages : ℕ)
    (batched : Bool) : Except Stop (Option (List Uri × ℕ)) × Net W :=
  match repliesOf statusJson with
  | none => (.ok none, net)
  | some collection =>
      let (answer, net) :=
        collectionItems world net collection maxPages collectionMaxItems statusUri
      match answer with
      | .error stop => (.error stop, net)
      | .ok none => (.ok none, net)
      | .ok (some (items, nPages)) =>
          let (uris, net) := filterAllReplies world net statusUri items
          (.ok (some (uris, nPages)), pushFetchReplyWorkers net uris batched)

/-- `usize` subtraction. -/
def checkedSub (a b : ℕ) : Option ℕ := if b ≤ a then some (a - b) else none

structure Walk (W : Type) where
  net : Net W
  toFetch : List Uri
  discovered : Finset Uri
  nPages : ℕ

/-- The rest of a turn, once the reply is had. -/
def follow (batched : Bool) (s : Walk W) (next : Uri) (json : Json) :
    Walk W × Option (Except Stop Unit) :=
  match checkedSub maxPages s.nPages with
  | none => (s, some (.error .underflow))
  | some left =>
      match getReplies world s.net next json left batched with
      | (.error stop, net) => ({ s with net := net }, some (.error stop))
      | (.ok none, net) => ({ s with net := net }, none)
      | (.ok (some (replies, pages)), net) =>
          ({ net := net
             toFetch := s.toFetch ++ (fresh s.discovered replies).1
             discovered := (fresh s.discovered replies).2
             nPages := s.nPages + pages }, none)

def turn (batched : Bool) (s : Walk W) : Walk W × Option (Except Stop Unit) :=
  if s.discovered.card < maxReplies ∧ s.nPages < maxPages then
    match pop s.toFetch with
    | none => (s, some (.ok ()))
    | some (next, rest) =>
        match world.object s.net.world next with
        | (.error _, w) | (.ok none, w) =>
            ({ s with toFetch := rest, net := s.net.did (.reply next) w }, none)
        | (.ok (some json), w) =>
            follow world batched { s with toFetch := rest, net := s.net.did (.reply next) w }
              next json
  else (s, some (.ok ()))

def walkLoop (batched : Bool) : ℕ → Walk W → Except Stop Unit × Walk W
  | 0, s => (.error .unfinished, s)
  | turns + 1, s =>
      match turn world batched s with
      | (s, some result) => (result, s)
      | (s, none) => walkLoop batched turns s

def Walk.start (net : Net W) (toFetch : List Uri) (nPages : ℕ) : Walk W :=
  { net := net
    toFetch := toFetch
    discovered := toFetch.toFinset
    nPages := nPages }

def walkReplies (turns : ℕ) (batched : Bool) (w : W) : Except Stop Unit × Walk W :=
  match world.claimRoot w with
  | (none, w) => (.ok (), .start { world := w, log := [] } [] 0)
  | (some rootUri, w) =>
      match world.object w rootUri with
      | (.error _, w) => (.error .failed, .start { world := w, log := [.root rootUri] } [] 0)
      | (.ok none, w) => (.ok (), .start { world := w, log := [.root rootUri] } [] 0)
      | (.ok (some rootJson), w) =>
          let net : Net W := { world := w, log := [.root rootUri, .job rootUri true false] }
          match getReplies world net rootUri rootJson maxPages batched with
          | (.error stop, net) => (.error stop, .start net [] 0)
          | (.ok none, net) => (.ok (), .start net [] 0)
          | (.ok (some (toFetch, nPages)), net) =>
              walkLoop world batched turns (.start net toFetch nPages)

end

/-! ### Logs -/

@[simp] theorem repliesFetched_append (l m : List Event) :
    repliesFetched (l ++ m) = repliesFetched l ++ repliesFetched m := List.filterMap_append

@[simp] theorem pagesRead_append (l m : List Event) :
    pagesRead (l ++ m) = pagesRead l + pagesRead m := List.countP_append

theorem repliesFetched_jobs (uris : List Uri) (prefetched batched : Bool) :
    repliesFetched (uris.map fun uri => .job uri prefetched batched) = [] := by
  rw [repliesFetched, List.filterMap_map]
  exact List.filterMap_eq_nil_iff.mpr fun uri _ => rfl

theorem pagesRead_jobs (uris : List Uri) (prefetched batched : Bool) :
    pagesRead (uris.map fun uri => .job uri prefetched batched) = 0 := by
  rw [pagesRead, List.countP_map]
  exact List.countP_eq_zero.mpr fun uri _ => Bool.false_ne_true

/-- No reply is asked for from one to the other, and `k` pages are read. -/
def Reads {W : Type} (k : ℕ) (before after : Net W) : Prop :=
  repliesFetched after.log = repliesFetched before.log ∧
    pagesRead after.log = pagesRead before.log + k

theorem Reads.moved {W : Type} {k : ℕ} {before after : Net W} (h : Reads k before after) (w : W) :
    Reads k before (after.moved w) := h

theorem reads_page {W : Type} (net : Net W) (w : W) : Reads 1 net (net.did .page w) := by
  constructor
  · rw [Net.did, repliesFetched_append]
    exact List.append_nil _
  · rw [Net.did, pagesRead_append]
    rfl

theorem Reads.trans {W : Type} {j k : ℕ} {a b c : Net W} (h : Reads j a b) (h' : Reads k b c) :
    Reads (j + k) a c := by
  constructor
  · rw [h'.1, h.1]
  · rw [h'.2, h.2, Nat.add_assoc]

/-! ### What each part does -/

section
variable {W : Type} (world : World W)

/-- What a reading of a collection is: `most` pages at the most, told as they are or as one
more. -/
inductive Told {α : Type} (most : ℕ) (before : Net W) :
    Except Stop (Option (α × ℕ)) × Net W → Prop
  | found {k n : ℕ} {a : α} {after : Net W} : k ≤ most → Reads k before after → k ≤ n →
      n ≤ k + 1 → Told most before (.ok (some (a, n)), after)
  | nothing {after : Net W} : Reads 0 before after → Told most before (.ok none, after)
  | failed {k : ℕ} {after : Net W} : k ≤ most → Reads k before after →
      Told most before (.error .failed, after)

/-- A collection that runs out, or whose next page cannot be had. -/
theorem told_end {most nPages : ℕ} {before net : Net W} {items : List Json} (w : W)
    (hread : Reads nPages before net) (hlt : nPages < most) :
    Told most before (if nPages = 0 then (.ok none, net.moved w)
      else (.ok (some (items, nPages + 1)), net.moved w)) := by
  split
  · apply Told.nothing
    rename_i hzero
    rw [← hzero]
    exact hread.moved w
  · exact .found (by omega) (hread.moved w) (by omega) (by omega)

theorem pageLoop_told (maxPages maxItems turns : ℕ) (before net : Net W) (items : List Json)
    (nPages : ℕ) (hread : Reads nPages before net) (hlt : nPages < maxPages)
    (hturns : maxPages ≤ nPages + turns) :
    Told maxPages before (pageLoop world maxPages maxItems turns net items nPages) := by
  induction turns generalizing net items nPages with
  | zero => omega
  | succ turns ih =>
      rw [pageLoop]
      cases hanswer : (world.nextPage net.world).1 with
      | items page =>
          simp only [hanswer]
          have hmore := hread.trans (reads_page net (world.nextPage net.world).2)
          split
          · exact .found (by omega) hmore (by omega) (by omega)
          · rename_i hlimit
            exact ih _ _ (nPages + 1) hmore (by omega) (by omega)
      | temporaryFailure =>
          simp only [hanswer]
          exact .failed (by omega) (hread.moved _)
      | ended =>
          simp only [hanswer]
          exact told_end _ hread hlt
      | otherFailure =>
          simp only [hanswer]
          exact told_end _ hread hlt

theorem reads_zero (net : Net W) : Reads 0 net net := ⟨rfl, rfl⟩

theorem collectionItems_told (net : Net W) (collection : Json) (maxPages maxItems : ℕ)
    (reference : Uri) (hpos : 0 < maxPages) :
    Told maxPages net (collectionItems world net collection maxPages maxItems reference) := by
  rw [collectionItems]
  dsimp only
  split
  · exact pageLoop_told world maxPages maxItems (maxPages + 1) net _ [] 0
      ((reads_zero net).moved _) hpos (by omega)
  · exact .failed (Nat.zero_le _) ((reads_zero net).moved _)

/-- A `uri` that the tables once let through. -/
def Kept (uri : Uri) : Prop := ∃ w uris, uri ∉ (world.dontUpdate w uris).1

theorem filterAllReplies_spec (net : Net W) (statusUri : Uri) (items : List Json) :
    (filterAllReplies world net statusUri items).2.log = net.log ∧
      (filterAllReplies world net statusUri items).1.Nodup ∧
      (filterAllReplies world net statusUri items).1.length ≤ maxRepliesPerStatus ∧
      ∀ uri ∈ (filterAllReplies world net statusUri items).1, Kept world uri := by
  refine ⟨rfl, ?_, ?_, ?_⟩
  · exact (fresh_nodup ∅ _).sublist (List.take_sublist _ _)
  · exact List.length_take_le _ _
  · intro uri huri
    have hmem := (mem_of_mem_fresh ∅ _ (List.mem_of_mem_take huri)).1
    have hkept := (List.mem_filter.mp hmem).2
    exact ⟨_, _, of_decide_eq_true hkept⟩

structure Found (uris : List Uri) : Prop where
  nodup : uris.Nodup
  few : uris.length ≤ maxRepliesPerStatus
  kept : ∀ uri ∈ uris, Kept world uri

theorem getReplies_told (net : Net W) (statusUri : Uri) (statusJson : Json) (maxPages : ℕ)
    (batched : Bool) (hpos : 0 < maxPages) :
    Told maxPages net (getReplies world net statusUri statusJson maxPages batched) ∧
      ∀ uris n, (getReplies world net statusUri statusJson maxPages batched).1 =
        .ok (some (uris, n)) → Found world uris := by
  rw [getReplies]
  cases repliesOf statusJson with
  | none => exact ⟨.nothing (reads_zero net), fun uris n h => by cases h⟩
  | some collection =>
      have htold := collectionItems_told world net collection maxPages collectionMaxItems
        statusUri hpos
      dsimp only
      generalize collectionItems world net collection maxPages collectionMaxItems statusUri = r
        at htold ⊢
      cases htold with
      | nothing hreads => exact ⟨.nothing hreads, fun uris n h => by cases h⟩
      | failed hk hreads => exact ⟨.failed hk hreads, fun uris n h => by cases h⟩
      | @found k n items after hk hreads hle hge =>
          dsimp only
          obtain ⟨hlog, hnodup, hfew, hkept⟩ := filterAllReplies_spec world after statusUri items
          constructor
          · apply Told.found hk _ hle hge
            constructor
            · rw [pushFetchReplyWorkers, repliesFetched_append, repliesFetched_jobs,
                List.append_nil, hlog, hreads.1]
            · rw [pushFetchReplyWorkers, pagesRead_append, pagesRead_jobs, hlog, hreads.2]
              rfl
          · intro uris m h
            cases h
            exact ⟨hnodup, hfew, hkept⟩

/-! ### The loop -/

def mostDiscovered : ℕ := maxReplies - 1 + maxRepliesPerStatus

structure Bounded (s : Walk W) : Prop where
  frontier : ∃ todo, Frontier s.discovered todo (repliesFetched s.net.log)
  few : s.discovered.card ≤ mostDiscovered
  pages : pagesRead s.net.log ≤ maxPages
  kept : ∀ uri ∈ s.discovered, Kept world uri

/-- What holds between turns: the pages told are those read or more. -/
structure Inv (s : Walk W) : Prop where
  frontier : Frontier s.discovered s.toFetch (repliesFetched s.net.log)
  few : s.discovered.card ≤ mostDiscovered
  told : pagesRead s.net.log ≤ s.nPages
  pages : pagesRead s.net.log ≤ maxPages
  kept : ∀ uri ∈ s.discovered, Kept world uri

theorem Inv.bounded {s : Walk W} (h : Inv world s) : Bounded world s :=
  ⟨⟨s.toFetch, h.frontier⟩, h.few, h.pages, h.kept⟩

def Goes (asked : ℕ) (result : Walk W × Option (Except Stop Unit)) : Prop :=
  (result.2 = none ∧ Inv world result.1 ∧ (repliesFetched result.1.net.log).length = asked) ∨
    (Bounded world result.1 ∧ (result.2 = some (.ok ()) ∨ result.2 = some (.error .failed)))

theorem follow_goes (batched : Bool) {s : Walk W} (h : Inv world s) (next : Uri) (json : Json)
    (hfew : s.discovered.card < maxReplies) (hgo : s.nPages < maxPages) :
    Goes world (repliesFetched s.net.log).length (follow world batched s next json) := by
  have hsub : checkedSub maxPages s.nPages = some (maxPages - s.nPages) := if_pos hgo.le
  obtain ⟨htold, hfound⟩ := getReplies_told world s.net next json (maxPages - s.nPages) batched
    (Nat.sub_pos_of_lt hgo)
  have hbelow := h.told
  rw [follow, hsub]
  dsimp only
  generalize getReplies world s.net next json (maxPages - s.nPages) batched = r at htold hfound ⊢
  cases htold with
  | @nothing after hreads =>
      left
      refine ⟨rfl, ⟨?_, h.few, ?_, ?_, h.kept⟩, congrArg List.length hreads.1⟩
      · rw [hreads.1]
        exact h.frontier
      · rw [hreads.2]
        exact h.told
      · rw [hreads.2]
        exact h.pages
  | @failed k after hk hreads =>
      right
      refine ⟨⟨⟨s.toFetch, ?_⟩, h.few, ?_, h.kept⟩, .inr rfl⟩
      · rw [hreads.1]
        exact h.frontier
      · rw [hreads.2]
        omega
  | @found k n replies after hk hreads hle hge =>
      have hreplies := hfound replies n rfl
      have hmore := h.frontier.discover replies
      have hnew : (fresh s.discovered replies).1.length ≤ maxRepliesPerStatus :=
        (fresh_sublist _ _).length_le.trans hreplies.few
      have hcard : (fresh s.discovered replies).2.card ≤ mostDiscovered := by
        rw [hmore.card, List.length_append, ← Nat.add_assoc, ← h.frontier.card, mostDiscovered]
        omega
      have hread : pagesRead after.log ≤ s.nPages + n ∧ pagesRead after.log ≤ maxPages := by
        rw [hreads.2]
        omega
      rw [← hreads.1] at hmore
      left
      refine ⟨rfl, ⟨hmore, hcard, hread.1, hread.2, ?_⟩, congrArg List.length hreads.1⟩
      intro uri huri
      rcases (mem_fresh_seen _ _ _).mp huri with hseen | hnew
      · exact h.kept uri hseen
      · exact hreplies.kept uri (mem_of_mem_fresh _ _ hnew).1

theorem turn_goes (batched : Bool) {s : Walk W} (h : Inv world s) :
    Goes world ((repliesFetched s.net.log).length + 1) (turn world batched s) := by
  rw [turn]
  split
  · rename_i hgo
    cases hpop : pop s.toFetch with
    | none =>
        right
        exact ⟨h.bounded, .inl rfl⟩
    | some popped =>
        obtain ⟨next, rest⟩ := popped
        dsimp only
        have hpopped := h.frontier.pop hpop
        generalize world.object s.net.world next = asked
        obtain ⟨answer, w⟩ := asked
        -- the reply is asked for, whatever comes of it
        have hlog : repliesFetched (s.net.did (.reply next) w).log =
            repliesFetched s.net.log ++ [next] := repliesFetched_append _ _
        have hread : pagesRead (s.net.did (.reply next) w).log = pagesRead s.net.log :=
          pagesRead_append _ _
        rw [← hlog] at hpopped
        have hasked : Inv world { s with toFetch := rest, net := s.net.did (.reply next) w } :=
          ⟨hpopped, h.few, hread.trans_le h.told, hread.trans_le h.pages, h.kept⟩
        have hone : (repliesFetched (s.net.did (.reply next) w).log).length =
            (repliesFetched s.net.log).length + 1 := by
          rw [hlog, List.length_append]
          rfl
        rcases answer with failure | (_ | json)
        · exact .inl ⟨rfl, hasked, hone⟩
        · exact .inl ⟨rfl, hasked, hone⟩
        · rw [← hone]
          exact follow_goes world batched hasked next json hgo.1 hgo.2
  · right
    exact ⟨h.bounded, .inl rfl⟩

theorem ok_ne {stop : Stop} : (.ok () : Except Stop Unit) ≠ .error stop := by
  intro h
  cases h

theorem failed_ne {stop : Stop} (h : stop ≠ .failed) :
    (.error .failed : Except Stop Unit) ≠ .error stop := by
  intro heq
  cases heq
  exact h rfl

theorem Bounded.asked_le {s : Walk W} (h : Bounded world s) :
    (repliesFetched s.net.log).length ≤ mostDiscovered := by
  obtain ⟨todo, hfrontier⟩ := h.frontier
  have hcard := hfrontier.card
  have hfew := h.few
  omega

theorem walkLoop_spec (batched : Bool) (turns : ℕ) {s : Walk W} (h : Inv world s) :
    Bounded world (walkLoop world batched turns s).2 ∧
      (walkLoop world batched turns s).1 ≠ .error .underflow ∧
      (mostDiscovered < (repliesFetched s.net.log).length + turns →
        (walkLoop world batched turns s).1 ≠ .error .unfinished) := by
  induction turns generalizing s with
  | zero =>
      have hasked := h.bounded.asked_le
      rw [walkLoop]
      refine ⟨h.bounded, ?_, fun hlt => ?_⟩
      · intro hstop
        cases hstop
      · omega
  | succ turns ih =>
      have hgoes := turn_goes world batched h
      rw [walkLoop]
      generalize turn world batched s = r at hgoes ⊢
      obtain ⟨after, result⟩ := r
      rcases hgoes with ⟨hnone, hinv, hasked⟩ | ⟨hbounded, hresult⟩
      · dsimp only at hnone hinv hasked
        subst hnone
        obtain ⟨hbounded, hsub, hend⟩ := ih hinv
        exact ⟨hbounded, hsub, fun hlt => hend (by omega)⟩
      · dsimp only at hbounded hresult
        rcases hresult with rfl | rfl
        · dsimp only
          exact ⟨hbounded, ok_ne, fun _ => ok_ne⟩
        · dsimp only
          exact ⟨hbounded, failed_ne (by decide), fun _ => failed_ne (by decide)⟩

theorem start_inv (net : Net W) {replies : List Uri} (nPages : ℕ) (h : Found world replies)
    (hreplies : repliesFetched net.log = []) (htold : pagesRead net.log ≤ nPages)
    (hpages : pagesRead net.log ≤ maxPages) : Inv world (.start net replies nPages) := by
  constructor
  · rw [Walk.start, hreplies]
    exact Frontier.start h.nodup
  · rw [Walk.start, List.toFinset_card_of_nodup h.nodup]
    exact h.few.trans (by decide)
  · exact htold
  · exact hpages
  · intro uri huri
    exact h.kept uri (List.mem_toFinset.mp huri)

theorem nothing_bounded (net : Net W) (hreplies : repliesFetched net.log = [])
    (hpages : pagesRead net.log ≤ maxPages) : Bounded world (.start net [] 0) := by
  constructor
  · refine ⟨[], ?_⟩
    rw [Walk.start, hreplies]
    exact Frontier.start List.nodup_nil
  · exact Nat.zero_le _
  · exact hpages
  · intro uri huri
    exact absurd huri (Finset.notMem_empty uri)

theorem walkReplies_spec (turns : ℕ) (batched : Bool) (w : W) :
    Bounded world (walkReplies world turns batched w).2 ∧
      (walkReplies world turns batched w).1 ≠ .error .underflow ∧
      (mostDiscovered < turns → (walkReplies world turns batched w).1 ≠ .error .unfinished) := by
  have hok : ∀ net : Net W, repliesFetched net.log = [] → pagesRead net.log ≤ maxPages →
      Bounded world (.start net [] 0) ∧ (.ok () : Except Stop Unit) ≠ .error .underflow ∧
        (mostDiscovered < turns → (.ok () : Except Stop Unit) ≠ .error .unfinished) :=
    fun net hreplies hpages =>
      ⟨nothing_bounded world net hreplies hpages, ok_ne, fun _ => ok_ne⟩
  have hfailed : ∀ net : Net W, repliesFetched net.log = [] → pagesRead net.log ≤ maxPages →
      Bounded world (.start net [] 0) ∧
        (.error .failed : Except Stop Unit) ≠ .error .underflow ∧
        (mostDiscovered < turns →
          (.error .failed : Except Stop Unit) ≠ .error .unfinished) :=
    fun net hreplies hpages =>
      ⟨nothing_bounded world net hreplies hpages, failed_ne (by decide),
        fun _ => failed_ne (by decide)⟩
  rw [walkReplies]
  generalize world.claimRoot w = claimed
  obtain ⟨root, w⟩ := claimed
  cases root with
  | none => exact hok _ rfl (Nat.zero_le _)
  | some root =>
      dsimp only
      generalize world.object w root = asked
      obtain ⟨answer, w⟩ := asked
      rcases answer with failure | (_ | json)
      · exact hfailed _ rfl (Nat.zero_le _)
      · exact hok _ rfl (Nat.zero_le _)
      · dsimp only
        obtain ⟨htold, hfound⟩ := getReplies_told world
          { world := w, log := [.root root, .job root true false] } root json maxPages batched
          (by decide)
        generalize getReplies world { world := w, log := [.root root, .job root true false] } root
          json maxPages batched = r at htold hfound ⊢
        cases htold with
        | @nothing after hreads =>
            exact hok after hreads.1 (by rw [hreads.2]; exact Nat.zero_le _)
        | @failed k after hk hreads =>
            exact hfailed after hreads.1 (by rw [hreads.2, Nat.add_comm]; exact hk)
        | @found k n replies after hk hreads hle hge =>
            have hreplies := hfound replies n rfl
            have hread : pagesRead after.log = k := hreads.2.trans (Nat.zero_add k)
            have hasked : repliesFetched after.log = [] := hreads.1
            have hinv := start_inv world after n hreplies hasked (hread.trans_le hle)
              (hread.trans_le hk)
            have hspec := walkLoop_spec world batched turns hinv
            rw [Walk.start, hasked, List.length_nil, Nat.zero_add] at hspec
            exact hspec

/-- Whatever the other servers and the tables answer, the walk ends, by itself or with an
error of theirs; it asks for no reply twice, and discovers and reads no more than it may. -/
theorem walkReplies_bounded (batched : Bool) (w : W) (turns : ℕ) :
    (mostDiscovered < turns → (walkReplies world turns batched w).1 = .ok () ∨
      (walkReplies world turns batched w).1 = .error .failed) ∧
    (walkReplies world turns batched w).1 ≠ .error .underflow ∧
    (repliesFetched (walkReplies world turns batched w).2.net.log).Nodup ∧
    (∀ uri ∈ repliesFetched (walkReplies world turns batched w).2.net.log,
      uri ∈ (walkReplies world turns batched w).2.discovered) ∧
    (walkReplies world turns batched w).2.discovered.card ≤
      maxReplies - 1 + maxRepliesPerStatus ∧
    pagesRead (walkReplies world turns batched w).2.net.log ≤ maxPages ∧
    ∀ uri, (∀ w uris, uri ∈ (world.dontUpdate w uris).1) →
      uri ∉ (walkReplies world turns batched w).2.discovered := by
  obtain ⟨hbounded, hsub, hend⟩ := walkReplies_spec world turns batched w
  obtain ⟨todo, hfrontier⟩ := hbounded.frontier
  refine ⟨fun hturns => ?_, hsub, hfrontier.done_nodup, fun uri huri => hfrontier.done_seen huri,
    hbounded.few, hbounded.pages, fun uri hheld hmem => ?_⟩
  · have hunfinished := hend hturns
    generalize (walkReplies world turns batched w).1 = result at hsub hunfinished ⊢
    rcases result with stop | done
    · cases stop with
      | failed => exact .inr rfl
      | underflow => exact absurd rfl hsub
      | unfinished => exact absurd rfl hunfinished
    · exact .inl rfl
  · obtain ⟨v, uris, hout⟩ := hbounded.kept uri hmem
    exact hout (hheld v uris)

end

end Eunha.ReplyWalks
