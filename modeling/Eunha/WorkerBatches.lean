import Eunha.Binary64
import Eunha.Interleaving
import Mathlib.Data.List.Nodup
import Mathlib.Data.List.Perm.Subperm
import Mathlib.Order.Nat

/-!
# Batches of jobs and the refresh they finish

A batch is a hash of two counters and the key of an async refresh, beside the set of the
jobs still in it. A job joins before it is queued and leaves when it is done, each by a
pipeline that is no transaction, so calls run command by command beside one another. The
refresh is finished by the job that leaves last, and the batch deleted, unless a job that
left before it counts itself processed only after the deletion.
-/
namespace Eunha.WorkerBatches
open Interleaving Runs

/-! ### The batch -/

/-- `worker_batch:{id}`. A counter that is missing reads 0; the thresholds are whole. -/
structure Hash where
  pending : ℤ
  processed : ℤ
  asyncRefreshKey : Option String
  threshold : Option ℕ
  deriving DecidableEq

/-- A refresh that was finished, and the jobs that had yet to decrement `pending` then. -/
structure Finish where
  key : String
  left : List ℕ
  deriving DecidableEq

structure Batch where
  hash : Option Hash
  jobs : List ℕ
  /-- The refreshes a result was counted in, once for each result. -/
  results : List String
  /-- The jobs `pending` was raised for. -/
  added : List ℕ
  /-- The jobs that have decremented `pending`. -/
  decremented : List ℕ
  finishes : List Finish
  deriving DecidableEq

/-- What `HINCRBY` and `HSET` make of a key that is missing. -/
def Hash.new : Hash := ⟨0, 0, none, none⟩

def Batch.hincrPending (s : Batch) (n : ℤ) : Batch :=
  let h := s.hash.getD .new
  { s with hash := some { h with pending := h.pending + n } }

def Batch.hincrProcessed (s : Batch) (n : ℤ) : Batch :=
  let h := s.hash.getD .new
  { s with hash := some { h with processed := h.processed + n } }

def Batch.sadd (s : Batch) (jids : List ℕ) : Batch :=
  { s with jobs := s.jobs ++ jids.filter (· ∉ s.jobs) }

def Batch.srem (s : Batch) (jid : ℕ) : Batch := { s with jobs := s.jobs.filter (· ≠ jid) }

/-- The jobs that have yet to decrement `pending`. -/
def Batch.left (s : Batch) : List ℕ := s.added.filter (· ∉ s.decremented)

/-- `cleanup`: `DEL` of both keys. -/
def Batch.cleanup (s : Batch) : Batch := { s with hash := none, jobs := [] }

/-! ### The commands -/

/-- `n as f64` -/
def asF64 (n : ℤ) : ℤ := n.sign * Binary64.asF64 n.natAbs

def completes (pending processed : ℤ) (threshold : ℕ) : Bool :=
  pending = 0 ∨ threshold * asF64 (processed + pending) ≤ asF64 processed

inductive AddStage where
  | sadd
  | expireJobs
  | hincr
  | expireBatch
  deriving DecidableEq

/-- The commands of `remove_job`, each with what was read before it. -/
inductive RemoveStage where
  | srem
  | pending
  | processed (pending : ℤ)
  | asyncRefreshKey (pending processed : ℤ)
  | threshold (pending processed : ℤ) (key : Option String)
  | increment (pending processed : ℤ) (key : String) (threshold : ℕ)
  | finish (key : String)
  | cleanup
  deriving DecidableEq

/-- `add_jobs`, called by a job of the batch or from outside it, or `remove_job`. -/
inductive Call where
  | adding (adder : Option ℕ) (jids : List ℕ) (stage : AddStage)
  | removing (jid : ℕ) (increment : Bool) (stage : RemoveStage)
  deriving DecidableEq

inductive Request where
  | addJobs (adder : Option ℕ) (jids : List ℕ)
  | removeJob (jid : ℕ) (increment : Bool)

def enter (s : Batch) : Request → Batch × Option Call
  | .addJobs adder jids => (s, if jids = [] then none else some (.adding adder jids .sadd))
  | .removeJob jid increment => (s, some (.removing jid increment .srem))

/-- A command of `add_jobs`. No key expires here. -/
def execAdd (s : Batch) (jids : List ℕ) : AddStage → Batch × Option AddStage
  | .sadd => (s.sadd jids, some .expireJobs)
  | .expireJobs => (s, some .hincr)
  | .hincr =>
      ({ s.hincrPending jids.length with added := s.added ++ jids }, some .expireBatch)
  | .expireBatch => (s, none)

/-- What is left of `remove_job` once its results are counted. -/
def complete (pending processed : ℤ) (key : Option String) (threshold : ℕ) :
    Option RemoveStage :=
  if completes pending processed threshold then some ((key.map .finish).getD .cleanup) else none

/-- A command of `remove_job`. -/
def execRemove (s : Batch) (jid : ℕ) (increment : Bool) :
    RemoveStage → Batch × Option RemoveStage
  | .srem => (s.srem jid, some .pending)
  | .pending =>
      let t := { s.hincrPending (-1) with decremented := s.decremented ++ [jid] }
      (t, some (.processed (t.hash.getD .new).pending))
  | .processed pending =>
      let t := s.hincrProcessed 1
      (t, some (.asyncRefreshKey pending (t.hash.getD .new).processed))
  | .asyncRefreshKey pending processed =>
      let key := (s.hash.bind (·.asyncRefreshKey)).filter (· ≠ "")
      (s, some (.threshold pending processed key))
  | .threshold pending processed key =>
      let threshold := (s.hash.bind (·.threshold)).getD 1
      match increment, key with
      | true, some key => (s, some (.increment pending processed key threshold))
      | _, key => (s, complete pending processed key threshold)
  | .increment pending processed key threshold =>
      ({ s with results := s.results ++ [key] }, complete pending processed (some key) threshold)
  | .finish key => ({ s with finishes := s.finishes ++ [⟨key, s.left⟩] }, some .cleanup)
  | .cleanup => (s.cleanup, none)

def exec (s : Batch) : Call → Unit → Batch × Option Call
  | .adding adder jids stage, _ =>
      ((execAdd s jids stage).1, (execAdd s jids stage).2.map (.adding adder jids))
  | .removing jid increment stage, _ =>
      ((execRemove s jid increment stage).1,
        (execRemove s jid increment stage).2.map (.removing jid increment))

def machine : Machine Batch Call Request Unit := ⟨enter, exec⟩

def connected (key : String) : Config Batch Call :=
  ⟨⟨some ⟨0, 0, some key, some 1⟩, [], [], [], [], []⟩, []⟩

/-! ### What the batch is for -/

/-- No refresh was finished while a job that was added had yet to decrement `pending`; and
once every job has left, the refresh is finished and neither key is there. -/
structure Kept (key : String) (c : Config Batch Call) : Prop where
  early : ∀ f ∈ c.store.finishes, f.left = []
  ended : c.Quiescent → c.store.added ≠ [] → c.store.left = [] →
    (∃ f ∈ c.store.finishes, f.key = key) ∧ c.store.hash = none ∧ c.store.jobs = []

/-- The jobs of an `add_jobs` that has yet to raise `pending`. -/
def Call.fresh : Call → List ℕ
  | .adding _ jids .sadd => jids
  | .adding _ jids .expireJobs => jids
  | .adding _ jids .hincr => jids
  | _ => []

/-- The job an `add_jobs` is called by. -/
def Call.owner : Call → Option ℕ
  | .adding adder _ _ => adder
  | .removing _ _ _ => none

/-- The job of a `remove_job`. -/
def Call.leaves : Call → Option ℕ
  | .adding _ _ _ => none
  | .removing jid _ _ => some jid

def Disciplined (s : Batch) (calls : List Call) : Request → Prop
  | .addJobs adder jids =>
      jids.Nodup ∧ (∀ j ∈ jids, j ∉ s.added ∧ ∀ c ∈ calls, j ∉ c.fresh) ∧
        ∀ o ∈ adder, o ∈ s.left ∧ ∀ c ∈ calls, c.leaves ≠ some o
  | .removeJob jid _ =>
      jid ∈ s.left ∧ ∀ c ∈ calls, c.leaves ≠ some jid ∧ c.owner ≠ some jid

def Unharmed (s : Batch) : Call → Prop
  | .removing _ _ (.processed pending) => pending ≠ 0 → s.hash ≠ none
  | .removing _ _ (.threshold pending processed _) => pending ≠ 0 → processed + pending ≤ 2 ^ 53
  | .removing _ _ (.increment pending processed _ _) =>
      pending ≠ 0 → processed + pending ≤ 2 ^ 53
  | .adding none _ .hincr => s.added ≠ [] → s.left ≠ []
  | _ => True

def guards : Guards Batch Call Request Unit := ⟨Disciplined, fun s c _ _ => Unharmed s c⟩

/-! ### What holds of the counters -/

/-- A `remove_job` that left nothing pending and has not deleted the batch yet. -/
def Call.last : Call → Bool
  | .removing _ _ (.processed pending) => pending = 0
  | .removing _ _ (.asyncRefreshKey pending _) => pending = 0
  | .removing _ _ (.threshold pending _ _) => pending = 0
  | .removing _ _ (.increment pending _ _ _) => pending = 0
  | .removing _ _ (.finish _) => true
  | .removing _ _ .cleanup => true
  | _ => false

/-- The job of a `remove_job` that has yet to decrement `pending`. -/
def Call.stays : Call → Option ℕ
  | .removing jid _ .srem => some jid
  | .removing jid _ .pending => some jid
  | _ => none

def Call.Read (key : String) : Call → Prop
  | .adding _ jids _ => jids ≠ []
  | .removing _ _ (.processed pending) => 0 ≤ pending
  | .removing _ _ (.asyncRefreshKey pending processed) => 0 ≤ pending ∧ 0 ≤ processed
  | .removing _ _ (.threshold pending processed key') =>
      0 ≤ pending ∧ 0 ≤ processed ∧ (pending = 0 → key' = some key)
  | .removing _ _ (.increment pending processed key' threshold) =>
      0 ≤ pending ∧ 0 ≤ processed ∧ threshold = 1 ∧ (pending = 0 → key' = key)
  | .removing _ _ (.finish key') => key' = key
  | _ => True

/-- Every job that was added has decremented `pending`. -/
def Batch.Done (s : Batch) : Prop := s.added ≠ [] ∧ s.left = []

instance (s : Batch) : Decidable s.Done := inferInstanceAs (Decidable (_ ∧ _))

/-- The jobs, each added once, that leave once. -/
structure Counted (s : Batch) (calls : List Call) : Prop where
  added : s.added.Nodup
  decremented : s.decremented.Nodup
  known : ∀ j ∈ s.decremented, j ∈ s.added
  fresh : ∀ c ∈ calls, ∀ j ∈ c.fresh, j ∉ s.added
  apart : (calls.flatMap Call.fresh).Nodup
  stays : ∀ c ∈ calls, ∀ j ∈ c.stays, j ∈ s.left
  once : (calls.filterMap Call.leaves).Nodup
  owner : ∀ c ∈ calls, ∀ o ∈ c.owner, o ∈ s.left ∧ ∀ d ∈ calls, d.leaves ≠ some o

/-- The hash while it is there, and what has happened once it is not. -/
structure Sound (key : String) (s : Batch) (calls : List Call) : Prop where
  counted : Counted s calls
  read : ∀ c ∈ calls, c.Read key
  pending : ∀ h ∈ s.hash, h.pending = s.added.length - s.decremented.length ∧
    0 ≤ h.processed ∧ h.asyncRefreshKey = some key ∧ h.threshold = some 1
  last : (calls.filter Call.last).length = if s.hash ≠ none ∧ s.Done then 1 else 0
  log : ∀ f ∈ s.finishes, f = ⟨key, []⟩
  finished : (s.hash = none ∨ ∃ c ∈ calls, ∃ jid i, c = .removing jid i .cleanup) →
    s.finishes ≠ []
  closed : s.hash = none → s.Done ∧ ∀ j ∈ s.jobs, ∃ c ∈ calls, j ∈ c.fresh

variable {key : String} {s t : Batch} {c : Call} {calls calls' : List Call} {n : Option Call}

theorem mem_left {j : ℕ} : j ∈ s.left ↔ j ∈ s.added ∧ j ∉ s.decremented := by
  rw [Batch.left, List.mem_filter, decide_eq_true_iff]

theorem leaves_of_stays {j : ℕ} (h : c.stays = some j) : c.leaves = some j := by
  cases c with
  | adding _ _ _ => cases h
  | removing jid i stage => cases stage <;> first | exact h | cases h

/-- As many jobs have decremented `pending` as were added just where none is left. -/
theorem Counted.length_le (h : Counted s calls) :
    s.decremented.length ≤ s.added.length ∧
      (s.decremented.length = s.added.length ↔ s.left = []) := by
  have hsub : s.decremented.Subperm s.added := List.subperm_of_subset h.decremented h.known
  refine ⟨hsub.length_le, ?_⟩
  rw [Batch.left, List.filter_eq_nil_iff]
  constructor
  · intro hlen j hj
    have hperm := hsub.perm_of_length_le hlen.ge
    simpa using hperm.mem_iff.2 hj
  · intro hall
    refine le_antisymm hsub.length_le ?_
    apply (List.subperm_of_subset h.added ?_).length_le
    intro j hj
    simpa using hall j hj

theorem Counted.perm (hp : calls.Perm calls') (h : Counted s calls) : Counted s calls' where
  added := h.added
  decremented := h.decremented
  known := h.known
  fresh := fun c hc => h.fresh c (hp.mem_iff.2 hc)
  apart := (hp.flatMap_right _).nodup_iff.1 h.apart
  stays := fun c hc => h.stays c (hp.mem_iff.2 hc)
  once := (hp.filterMap _).nodup_iff.1 h.once
  owner := fun c hc o ho =>
    ⟨(h.owner c (hp.mem_iff.2 hc) o ho).1,
      fun d hd => (h.owner c (hp.mem_iff.2 hc) o ho).2 d (hp.mem_iff.2 hd)⟩

theorem Sound.perm (hp : calls.Perm calls') (h : Sound key s calls) : Sound key s calls' where
  counted := h.counted.perm hp
  read := fun c hc => h.read c (hp.mem_iff.2 hc)
  pending := h.pending
  last := by rw [← h.last, (hp.filter _).length_eq]
  log := h.log
  finished := by
    rintro (hnone | ⟨c, hc, hclean⟩)
    · exact h.finished (.inl hnone)
    · exact h.finished (.inr ⟨c, hp.mem_iff.2 hc, hclean⟩)
  closed := by
    intro hnone
    refine ⟨(h.closed hnone).1, fun j hj => ?_⟩
    obtain ⟨c, hc, hjc⟩ := (h.closed hnone).2 j hj
    exact ⟨c, hp.mem_iff.1 hc, hjc⟩

theorem Counted.swap (h : Counted s (c :: calls)) (hadded : t.added = s.added)
    (hdecremented : t.decremented = s.decremented)
    (hfresh : ∀ d ∈ n, d.fresh = c.fresh ∨ d.fresh = [])
    (hstays : ∀ d ∈ n, d.stays = c.stays ∨ d.stays = none)
    (hleaves : ∀ d ∈ n, d.leaves = c.leaves) (howner : ∀ d ∈ n, d.owner = c.owner) :
    Counted t (n.toList ++ calls) := by
  have hleft : t.left = s.left := by rw [Batch.left, Batch.left, hadded, hdecremented]
  have htail : ∀ d ∈ calls, d ∈ c :: calls := fun d hd => List.mem_cons_of_mem _ hd
  cases n with
  | none =>
      refine ⟨hadded ▸ h.added, hdecremented ▸ h.decremented, hadded ▸ hdecremented ▸ h.known,
        fun d hd => hadded ▸ h.fresh d (htail d hd), ?_, fun d hd => hleft ▸ h.stays d (htail d hd),
        ?_, fun d hd o ho => ?_⟩
      · exact (List.nodup_append.1 h.apart).2.1
      · apply List.Nodup.sublist ?_ h.once
        exact (List.sublist_cons_self c calls).filterMap _
      · rw [hleft]
        exact ⟨(h.owner d (htail d hd) o ho).1,
          fun e he => (h.owner d (htail d hd) o ho).2 e (htail e he)⟩
  | some d =>
      have hone : ∀ e ∈ d :: calls, e = d ∨ e ∈ calls := fun e he => List.mem_cons.1 he
      have hd : d.leaves = c.leaves := hleaves d rfl
      have hleave : ∀ o, (∀ e ∈ c :: calls, e.leaves ≠ some o) →
          ∀ e ∈ d :: calls, e.leaves ≠ some o := by
        intro o ho e he
        rcases hone e he with rfl | he
        · rw [hd]
          exact ho c List.mem_cons_self
        · exact ho e (htail e he)
      refine ⟨hadded ▸ h.added, hdecremented ▸ h.decremented, hadded ▸ hdecremented ▸ h.known,
        ?_, ?_, ?_, ?_, ?_⟩
      · intro e he j hj
        rw [hadded]
        rcases hone e he with rfl | he
        · rcases hfresh e rfl with heq | heq
          · exact h.fresh c List.mem_cons_self j (heq ▸ hj)
          · rw [heq] at hj
            cases hj
        · exact h.fresh e (htail e he) j hj
      · have hapart := h.apart
        rw [List.flatMap_cons] at hapart
        show ((d :: calls).flatMap Call.fresh).Nodup
        rw [List.flatMap_cons]
        rcases hfresh d rfl with heq | heq
        · rw [heq]
          exact hapart
        · rw [heq]
          exact (List.nodup_append.1 hapart).2.1
      · intro e he j hj
        rw [hleft]
        rcases hone e he with rfl | he
        · rcases hstays e rfl with heq | heq
          · exact h.stays c List.mem_cons_self j (heq ▸ hj)
          · rw [heq] at hj
            cases hj
        · exact h.stays e (htail e he) j hj
      · have honce := h.once
        show ((d :: calls).filterMap Call.leaves).Nodup
        rw [List.filterMap_cons] at honce ⊢
        rw [hd]
        exact honce
      · intro e he o ho
        rw [hleft]
        rcases hone e he with rfl | he
        · rw [howner e rfl] at ho
          obtain ⟨hin, hnot⟩ := h.owner c List.mem_cons_self o ho
          exact ⟨hin, hleave o hnot⟩
        · obtain ⟨hin, hnot⟩ := h.owner e (htail e he) o ho
          exact ⟨hin, hleave o hnot⟩

/-- A call goes on, or is over, and changes no counter but `processed`. -/
theorem Sound.swap (h : Sound key s (c :: calls)) (hcounted : Counted t (n.toList ++ calls))
    (hadded : t.added = s.added) (hdecremented : t.decremented = s.decremented)
    (hhash : t.hash = none ↔ s.hash = none)
    (hpending : ∀ h ∈ t.hash, h.pending = t.added.length - t.decremented.length ∧
      0 ≤ h.processed ∧ h.asyncRefreshKey = some key ∧ h.threshold = some 1)
    (hread : ∀ d ∈ n, d.Read key) (hlast : n.any Call.last = c.last)
    (hlog : ∀ f ∈ t.finishes, f = ⟨key, []⟩) (hmore : s.finishes ≠ [] → t.finishes ≠ [])
    (hclean : ∀ d ∈ n, (∃ jid i, d = .removing jid i .cleanup) → t.finishes ≠ [])
    (hjobs : ∀ j ∈ t.jobs, j ∈ s.jobs ∨ j ∈ c.fresh)
    (hfresh : ∀ j ∈ c.fresh, j ∈ t.jobs → ∃ d ∈ n, j ∈ d.fresh) :
    Sound key t (n.toList ++ calls) := by
  have hdone : t.Done ↔ s.Done := by
    rw [Batch.Done, Batch.Done, Batch.left, Batch.left, hadded, hdecremented]
  have hmem : ∀ d ∈ n.toList ++ calls, d ∈ n ∨ d ∈ calls := by
    intro d hd
    simpa using hd
  exact
    { counted := hcounted
      read := by
        intro d hd
        rcases hmem d hd with hd | hd
        · exact hread d hd
        · exact h.read d (List.mem_cons_of_mem _ hd)
      pending := hpending
      last := by
        have hlen := h.last
        have hone : (n.toList ++ calls).filter Call.last = n.toList.filter Call.last ++
          calls.filter Call.last := List.filter_append ..
        have hhead : (n.toList.filter Call.last).length = ([c].filter Call.last).length := by
          cases n with
          | none =>
              have hc : c.last = false := hlast.symm
              rw [List.filter_cons_of_neg (by simp [hc])]
              rfl
          | some d =>
              have hc : d.last = c.last := hlast
              simp only [Option.toList_some, List.filter_cons, hc]
              split <;> rfl
        rw [hone, List.length_append, hhead, ← List.length_append, ← List.filter_append,
          List.singleton_append, hlen]
        simp only [hdone, ne_eq, hhash]
      log := hlog
      finished := by
        rintro (hnone | ⟨d, hd, hclean'⟩)
        · exact hmore (h.finished (.inl (hhash.1 hnone)))
        · rcases hmem d hd with hd | hd
          · exact hclean d hd hclean'
          · exact hmore (h.finished (.inr ⟨d, List.mem_cons_of_mem _ hd, hclean'⟩))
      closed := by
        intro hnone
        obtain ⟨hd, hj⟩ := h.closed (hhash.1 hnone)
        refine ⟨hdone.2 hd, fun j hjt => ?_⟩
        have hin : (∃ d ∈ n, j ∈ d.fresh) ∨ ∃ d ∈ calls, j ∈ d.fresh := by
          rcases hjobs j hjt with hjs | hjc
          · obtain ⟨d, hd, hjd⟩ := hj j hjs
            rcases List.mem_cons.1 hd with rfl | hd
            · exact .inl (hfresh j hjd hjt)
            · exact .inr ⟨d, hd, hjd⟩
          · exact .inl (hfresh j hjc hjt)
        rcases hin with ⟨d, hd, hjd⟩ | ⟨d, hd, hjd⟩
        · exact ⟨d, by simp [Option.mem_def.1 hd], hjd⟩
        · exact ⟨d, List.mem_append_right _ hd, hjd⟩ }

/-! ### The calls as they enter -/

theorem Sound.enterAdd (h : Sound key s calls) {adder : Option ℕ} {jids : List ℕ}
    (hd : Disciplined s calls (.addJobs adder jids)) (hjids : jids ≠ []) :
    Sound key s (.adding adder jids .sadd :: calls) := by
  obtain ⟨hnodup, hnew, howner⟩ := hd
  have hc := h.counted
  exact
    { h with
      counted :=
        { hc with
          fresh := by
            intro d hd j hj
            rcases List.mem_cons.1 hd with rfl | hd
            · exact (hnew j hj).1
            · exact hc.fresh d hd j hj
          apart := by
            rw [List.flatMap_cons]
            refine List.nodup_append'.2 ⟨hnodup, hc.apart, fun j hj hj' => ?_⟩
            obtain ⟨d, hd, hjd⟩ := List.mem_flatMap.1 hj'
            exact (hnew j hj).2 d hd hjd
          stays := by
            intro d hd j hj
            rcases List.mem_cons.1 hd with rfl | hd
            · cases hj
            · exact hc.stays d hd j hj
          once := hc.once
          owner := by
            intro d hd o ho
            have hcons : (∀ e ∈ calls, e.leaves ≠ some o) →
                ∀ e ∈ Call.adding adder jids .sadd :: calls, e.leaves ≠ some o := by
              intro hall e he
              rcases List.mem_cons.1 he with rfl | he
              · exact nofun
              · exact hall e he
            rcases List.mem_cons.1 hd with rfl | hd
            · exact ⟨(howner o ho).1, hcons (howner o ho).2⟩
            · exact ⟨(hc.owner d hd o ho).1, hcons (hc.owner d hd o ho).2⟩ }
      read := by
        intro d hd
        rcases List.mem_cons.1 hd with rfl | hd
        · exact hjids
        · exact h.read d hd
      last := h.last
      finished := by
        rintro (hnone | ⟨d, hd, jid, i, rfl⟩)
        · exact h.finished (.inl hnone)
        · rcases List.mem_cons.1 hd with heq | hd
          · cases heq
          · exact h.finished (.inr ⟨_, hd, jid, i, rfl⟩)
      closed := by
        intro hnone
        refine ⟨(h.closed hnone).1, fun j hj => ?_⟩
        obtain ⟨d, hd, hjd⟩ := (h.closed hnone).2 j hj
        exact ⟨d, List.mem_cons_of_mem _ hd, hjd⟩ }

theorem Sound.enterRemove (h : Sound key s calls) {jid : ℕ} {increment : Bool}
    (hd : Disciplined s calls (.removeJob jid increment)) :
    Sound key s (.removing jid increment .srem :: calls) := by
  obtain ⟨hleft, hother⟩ := hd
  have hc := h.counted
  exact
    { h with
      counted :=
        { hc with
          fresh := by
            intro d hd j hj
            rcases List.mem_cons.1 hd with rfl | hd
            · cases hj
            · exact hc.fresh d hd j hj
          apart := hc.apart
          stays := by
            intro d hd j hj
            rcases List.mem_cons.1 hd with rfl | hd
            · cases hj
              exact hleft
            · exact hc.stays d hd j hj
          once := by
            apply List.nodup_cons.2
            refine ⟨fun hin => ?_, hc.once⟩
            obtain ⟨d, hd, hdj⟩ := List.mem_filterMap.1 hin
            exact (hother d hd).1 hdj
          owner := by
            intro d hd o ho
            rcases List.mem_cons.1 hd with rfl | hd
            · cases ho
            · refine ⟨(hc.owner d hd o ho).1, fun e he => ?_⟩
              rcases List.mem_cons.1 he with rfl | he
              · rintro ⟨⟩
                exact (hother d hd).2 ho
              · exact (hc.owner d hd o ho).2 e he }
      read := by
        intro d hd
        rcases List.mem_cons.1 hd with rfl | hd
        · trivial
        · exact h.read d hd
      last := h.last
      finished := by
        rintro (hnone | ⟨d, hd, jid, i, rfl⟩)
        · exact h.finished (.inl hnone)
        · rcases List.mem_cons.1 hd with heq | hd
          · cases heq
          · exact h.finished (.inr ⟨_, hd, jid, i, rfl⟩)
      closed := by
        intro hnone
        refine ⟨(h.closed hnone).1, fun j hj => ?_⟩
        obtain ⟨d, hd, hjd⟩ := (h.closed hnone).2 j hj
        exact ⟨d, List.mem_cons_of_mem _ hd, hjd⟩ }

/-! ### Jobs join -/

theorem left_subset_raise {jids : List ℕ} {j : ℕ} (hadded : t.added = s.added ++ jids)
    (hdecremented : t.decremented = s.decremented) (hj : j ∈ s.left) : j ∈ t.left := by
  rw [mem_left] at hj ⊢
  rw [hadded, hdecremented]
  exact ⟨List.mem_append_left _ hj.1, hj.2⟩

theorem Counted.raise {adder : Option ℕ} {jids : List ℕ}
    (h : Counted s (.adding adder jids .hincr :: calls)) (hadded : t.added = s.added ++ jids)
    (hdecremented : t.decremented = s.decremented) :
    Counted t (.adding adder jids .expireBatch :: calls) := by
  have hleft : ∀ j ∈ s.left, j ∈ t.left := fun j => left_subset_raise hadded hdecremented
  have hapart := List.nodup_append'.1 h.apart
  have htail : ∀ d ∈ calls, d ∈ Call.adding adder jids .hincr :: calls :=
    fun d hd => List.mem_cons_of_mem _ hd
  exact
    { added := by
        rw [hadded]
        refine List.nodup_append'.2 ⟨h.added, hapart.1, fun j hj hj' => ?_⟩
        exact h.fresh _ List.mem_cons_self j hj' hj
      decremented := hdecremented ▸ h.decremented
      known := by
        rw [hadded, hdecremented]
        exact fun j hj => List.mem_append_left _ (h.known j hj)
      fresh := by
        intro d hd j hj
        rcases List.mem_cons.1 hd with rfl | hd
        · cases hj
        · rw [hadded, List.mem_append, not_or]
          refine ⟨h.fresh d (htail d hd) j hj, fun hj' => ?_⟩
          exact hapart.2.2 hj' (List.mem_flatMap.2 ⟨d, hd, hj⟩)
      apart := hapart.2.1
      stays := by
        intro d hd j hj
        rcases List.mem_cons.1 hd with rfl | hd
        · cases hj
        · exact hleft j (h.stays d (htail d hd) j hj)
      once := h.once
      owner := by
        have hnone : ∀ o, (∀ e ∈ Call.adding adder jids .hincr :: calls, e.leaves ≠ some o) →
            ∀ e ∈ Call.adding adder jids .expireBatch :: calls, e.leaves ≠ some o := by
          intro o hall e he
          rcases List.mem_cons.1 he with rfl | he
          · exact nofun
          · exact hall e (htail e he)
        intro d hd o ho
        rcases List.mem_cons.1 hd with rfl | hd
        · obtain ⟨hin, hall⟩ := h.owner _ List.mem_cons_self o ho
          exact ⟨hleft o hin, hnone o hall⟩
        · obtain ⟨hin, hall⟩ := h.owner d (htail d hd) o ho
          exact ⟨hleft o hin, hnone o hall⟩ }

theorem Sound.there (h : Sound key s calls) (hdone : ¬s.Done) : ∃ hash, s.hash = some hash := by
  cases hs : s.hash with
  | none => exact absurd (h.closed hs).1 hdone
  | some hash => exact ⟨hash, rfl⟩

theorem Sound.last_nil (h : Sound key s calls) (hdone : ¬s.Done) :
    calls.filter Call.last = [] := by
  apply List.length_eq_zero_iff.1
  rw [h.last, if_neg (fun hall => hdone hall.2)]

theorem Sound.raise {adder : Option ℕ} {jids : List ℕ}
    (h : Sound key s (.adding adder jids .hincr :: calls)) (hdone : ¬s.Done) :
    Sound key { s.hincrPending jids.length with added := s.added ++ jids }
      (.adding adder jids .expireBatch :: calls) := by
  obtain ⟨hash, hhash⟩ := h.there hdone
  have hjids : jids ≠ [] := h.read _ List.mem_cons_self
  obtain ⟨j, hj⟩ := List.exists_mem_of_ne_nil jids hjids
  have hnew : j ∉ s.added := h.counted.fresh _ List.mem_cons_self j hj
  have hlast : calls.filter Call.last = [] := h.last_nil hdone
  exact
    { counted := h.counted.raise rfl rfl
      read := by
        intro d hd
        rcases List.mem_cons.1 hd with rfl | hd
        · exact hjids
        · exact h.read d (List.mem_cons_of_mem _ hd)
      pending := by
        intro hash' hh
        simp only [Batch.hincrPending, hhash, Option.getD_some, Option.mem_some_iff] at hh
        subst hh
        obtain ⟨hp, hq, hkey, ht⟩ := h.pending hash hhash
        refine ⟨?_, hq, hkey, ht⟩
        show hash.pending + jids.length = ((s.added ++ jids).length : ℤ) - s.decremented.length
        rw [List.length_append]
        push_cast
        omega
      last := by
        rw [if_neg]
        · exact congrArg List.length hlast
        · rintro ⟨_, _, hleft⟩
          refine List.ne_nil_of_mem (a := j) (mem_left.2 ⟨List.mem_append_right _ hj, ?_⟩) hleft
          exact fun hd => hnew (h.counted.known j hd)
      log := h.log
      finished := by
        rintro (hnone | ⟨d, hd, jid, i, rfl⟩)
        · cases hnone
        · rcases List.mem_cons.1 hd with heq | hd
          · cases heq
          · exact h.finished (.inr ⟨_, List.mem_cons_of_mem _ hd, jid, i, rfl⟩)
      closed := nofun }

/-! ### Jobs leave -/

theorem Counted.lower {jid : ℕ} {i : Bool} {p : ℤ}
    (h : Counted s (.removing jid i .pending :: calls)) (hadded : t.added = s.added)
    (hdecremented : t.decremented = s.decremented ++ [jid]) :
    Counted t (.removing jid i (.processed p) :: calls) := by
  have htail : ∀ d ∈ calls, d ∈ Call.removing jid i .pending :: calls :=
    fun d hd => List.mem_cons_of_mem _ hd
  have hin : jid ∈ s.left := h.stays _ List.mem_cons_self jid rfl
  have hleft : ∀ j ∈ s.left, j ≠ jid → j ∈ t.left := by
    intro j hj hne
    rw [mem_left] at hj ⊢
    rw [hadded, hdecremented, List.mem_append, List.mem_singleton]
    tauto
  have honce : ∀ d ∈ calls, d.leaves ≠ some jid := by
    intro d hd hdj
    exact (List.nodup_cons.1 h.once).1 (List.mem_filterMap.2 ⟨d, hd, hdj⟩)
  exact
    { added := hadded ▸ h.added
      decremented := by
        rw [hdecremented]
        refine List.nodup_append'.2 ⟨h.decremented, List.nodup_singleton _, fun j hj hj' => ?_⟩
        rw [List.mem_singleton.1 hj'] at hj
        exact (mem_left.1 hin).2 hj
      known := by
        rw [hadded, hdecremented]
        intro j hj
        rcases List.mem_append.1 hj with hj | hj
        · exact h.known j hj
        · rw [List.mem_singleton.1 hj]
          exact (mem_left.1 hin).1
      fresh := by
        intro d hd j hj
        rcases List.mem_cons.1 hd with rfl | hd
        · cases hj
        · exact hadded ▸ h.fresh d (htail d hd) j hj
      apart := h.apart
      stays := by
        intro d hd j hj
        rcases List.mem_cons.1 hd with rfl | hd
        · cases hj
        · apply hleft j (h.stays d (htail d hd) j hj)
          intro heq
          exact honce d hd (leaves_of_stays (heq ▸ hj))
      once := h.once
      owner := by
        intro d hd o ho
        rcases List.mem_cons.1 hd with rfl | hd
        · cases ho
        · obtain ⟨ho', hall⟩ := h.owner d (htail d hd) o ho
          have hne : o ≠ jid := by
            rintro rfl
            exact hall _ List.mem_cons_self rfl
          refine ⟨hleft o ho' hne, fun e he => ?_⟩
          rcases List.mem_cons.1 he with rfl | he
          · exact hall (.removing jid i .pending) List.mem_cons_self
          · exact hall e (htail e he) }

theorem Sound.lower {jid : ℕ} {i : Bool} (h : Sound key s (.removing jid i .pending :: calls)) :
    Sound key (execRemove s jid i .pending).1
      (((execRemove s jid i .pending).2.map (.removing jid i)).toList ++ calls) := by
  have hin : jid ∈ s.left := h.counted.stays _ List.mem_cons_self jid rfl
  have hdone : ¬s.Done := fun hd => List.ne_nil_of_mem hin hd.2
  obtain ⟨hash, hhash⟩ := h.there hdone
  obtain ⟨hp, hq, hkey, ht⟩ := h.pending hash hhash
  have hlast : calls.filter Call.last = [] := h.last_nil hdone
  let t : Batch := { s.hincrPending (-1) with decremented := s.decremented ++ [jid] }
  have hpending : (t.hash.getD .new).pending = hash.pending - 1 := by
    simp only [t, Batch.hincrPending, hhash, Option.getD_some]
    rfl
  have hcounted : Counted t (.removing jid i (.processed (hash.pending - 1)) :: calls) :=
    h.counted.lower rfl rfl
  have hlen := hcounted.length_le
  have hdecremented : t.decremented.length = s.decremented.length + 1 := by
    show (s.decremented ++ [jid]).length = _
    rw [List.length_append, List.length_singleton]
  have hadded : t.added.length = s.added.length := rfl
  show Sound key t (.removing jid i (.processed (t.hash.getD .new).pending) :: calls)
  rw [hpending]
  exact
    { counted := hcounted
      read := by
        intro d hd
        rcases List.mem_cons.1 hd with rfl | hd
        · show 0 ≤ hash.pending - 1
          omega
        · exact h.read d (List.mem_cons_of_mem _ hd)
      pending := by
        intro hash' hh
        simp only [t, Batch.hincrPending, hhash, Option.getD_some, Option.mem_some_iff] at hh
        subst hh
        refine ⟨?_, hq, hkey, ht⟩
        show hash.pending + -1 = (t.added.length : ℤ) - t.decremented.length
        omega
      last := by
        have hiff : t.Done ↔ hash.pending - 1 = 0 := by
          have hne : t.added ≠ [] := List.ne_nil_of_mem (mem_left.1 hin).1
          rw [Batch.Done, ← hlen.2]
          constructor
          · rintro ⟨_, heq⟩
            omega
          · intro heq
            exact ⟨hne, by omega⟩
        have hsome : t.hash ≠ none := nofun
        by_cases hzero : hash.pending - 1 = 0
        · rw [if_pos ⟨hsome, hiff.2 hzero⟩, List.filter_cons_of_pos (by simp [Call.last, hzero]),
            hlast]
          rfl
        · rw [if_neg (fun hall => hzero (hiff.1 hall.2)),
            List.filter_cons_of_neg (by simp [Call.last, hzero]), hlast]
          rfl
      log := h.log
      finished := by
        rintro (hnone | ⟨d, hd, jid', i', rfl⟩)
        · cases hnone
        · rcases List.mem_cons.1 hd with heq | hd
          · cases heq
          · exact h.finished (.inr ⟨_, List.mem_cons_of_mem _ hd, jid', i', rfl⟩)
      closed := nofun }

/-- A `remove_job` that left nothing pending finds the hash there. -/
theorem Sound.of_last (h : Sound key s calls) (hc : c ∈ calls) (hl : c.last = true) :
    s.hash ≠ none ∧ s.Done := by
  by_contra hnot
  have hlen := h.last
  rw [if_neg hnot] at hlen
  exact List.ne_nil_of_mem (List.mem_filter.2 ⟨hc, hl⟩) (List.length_eq_zero_iff.1 hlen)

theorem Sound.last_here (h : Sound key s (c :: calls)) (hl : c.last = true) :
    s.hash ≠ none ∧ s.Done ∧ calls.filter Call.last = [] := by
  obtain ⟨hhash, hdone⟩ := h.of_last List.mem_cons_self hl
  refine ⟨hhash, hdone, ?_⟩
  have hlen := h.last
  rw [if_pos ⟨hhash, hdone⟩, List.filter_cons_of_pos hl, List.length_cons] at hlen
  exact List.length_eq_zero_iff.1 (Nat.succ_injective hlen)

theorem Sound.cleanup {jid : ℕ} {i : Bool} (h : Sound key s (.removing jid i .cleanup :: calls)) :
    Sound key s.cleanup calls := by
  obtain ⟨hhash, hdone, hnil⟩ := h.last_here rfl
  have hfinished := h.finished (.inr ⟨_, List.mem_cons_self, jid, i, rfl⟩)
  exact
    { counted := h.counted.swap (n := none) rfl rfl nofun nofun nofun nofun
      read := fun d hd => h.read d (List.mem_cons_of_mem _ hd)
      pending := nofun
      last := by
        rw [if_neg (fun hall => hall.1 rfl), hnil]
        rfl
      log := h.log
      finished := fun _ => hfinished
      closed := fun _ => ⟨hdone, nofun⟩ }

theorem asF64_eq {x : ℤ} (hx : 0 ≤ x) (hle : x ≤ 2 ^ 53) : asF64 x = x := by
  obtain ⟨n, rfl⟩ := Int.eq_ofNat_of_zero_le hx
  have hn : n ≤ 2 ^ 53 := by exact_mod_cast hle
  rw [asF64, Int.natAbs_natCast, Binary64.asF64_of_le hn]
  rcases Nat.eq_zero_or_pos n with rfl | hpos
  · rfl
  · rw [Int.sign_eq_one_of_pos (by exact_mod_cast hpos), Int.one_mul]

/-- While a job is pending the whole share has not been processed. -/
theorem completes_iff {p q : ℤ} (hp : 0 ≤ p) (hq : 0 ≤ q) (h : p ≠ 0 → q + p ≤ 2 ^ 53) :
    completes p q 1 = true ↔ p = 0 := by
  rw [completes, decide_eq_true_iff]
  constructor
  · rintro (hzero | hle)
    · exact hzero
    · by_contra hne
      have hsum := h hne
      rw [asF64_eq (by omega) hsum, asF64_eq hq (by omega)] at hle
      push_cast at hle
      omega
  · exact fun hzero => .inl hzero

/-! ### Every command -/

theorem Sound.goOn {jid : ℕ} {i : Bool} {stage : RemoveStage} {u : Option RemoveStage}
    (h : Sound key s (.removing jid i stage :: calls)) (hhash : t.hash = s.hash)
    (hadded : t.added = s.added) (hdecremented : t.decremented = s.decremented)
    (hjobs : ∀ j ∈ t.jobs, j ∈ s.jobs) (hlog : ∀ f ∈ t.finishes, f = ⟨key, []⟩)
    (hmore : s.finishes ≠ [] → t.finishes ≠ [])
    (hclean : u = some .cleanup → t.finishes ≠ [])
    (hread : ∀ d ∈ u, (Call.removing jid i d).Read key)
    (hstays : ∀ d ∈ u, (Call.removing jid i d).stays = (Call.removing jid i stage).stays ∨
      (Call.removing jid i d).stays = none)
    (hlast : u.any (fun d => (Call.removing jid i d).last) =
      (Call.removing jid i stage).last) :
    Sound key t ((u.map (.removing jid i)).toList ++ calls) := by
  have hn : ∀ d ∈ u.map (Call.removing jid i), ∃ e ∈ u, d = .removing jid i e := by
    intro d hd
    obtain ⟨e, he, rfl⟩ := Option.map_eq_some_iff.1 hd
    exact ⟨e, he, rfl⟩
  apply h.swap ?_ hadded hdecremented (by rw [hhash]) ?_ ?_ ?_ hlog hmore ?_ ?_ nofun
  · apply h.counted.swap hadded hdecremented
    · rintro d hd
      obtain ⟨e, -, rfl⟩ := hn d hd
      exact .inl rfl
    · intro d hd
      obtain ⟨e, he, rfl⟩ := hn d hd
      exact hstays e he
    · intro d hd
      obtain ⟨e, -, rfl⟩ := hn d hd
      rfl
    · intro d hd
      obtain ⟨e, -, rfl⟩ := hn d hd
      rfl
  · rw [hhash, hadded, hdecremented]
    exact h.pending
  · intro d hd
    obtain ⟨e, he, rfl⟩ := hn d hd
    exact hread e he
  · rw [← hlast]
    cases u <;> rfl
  · rintro d hd ⟨jid', i', heq⟩
    obtain ⟨e, he, rfl⟩ := hn d hd
    cases heq
    exact hclean he
  · exact fun j hj => .inl (hjobs j hj)

theorem Sound.complete {jid : ℕ} {i : Bool} {stage : RemoveStage} {p q : ℤ}
    {key' : Option String} (h : Sound key s (.removing jid i stage :: calls))
    (hhash : t.hash = s.hash) (hadded : t.added = s.added)
    (hdecremented : t.decremented = s.decremented) (hjobs : t.jobs = s.jobs)
    (hlog : t.finishes = s.finishes)
    (hlast : (Call.removing jid i stage).last = decide (p = 0)) (hp : 0 ≤ p) (hq : 0 ≤ q)
    (hkey : p = 0 → key' = some key) (hsum : p ≠ 0 → q + p ≤ 2 ^ 53) :
    Sound key t (((complete p q key' 1).map (.removing jid i)).toList ++ calls) := by
  have hiff := completes_iff hp hq hsum
  by_cases hzero : p = 0
  · have hnext : WorkerBatches.complete p q key' 1 = some (.finish key) := by
      rw [WorkerBatches.complete, if_pos (hiff.2 hzero), hkey hzero]
      rfl
    rw [hnext]
    apply h.goOn (u := some (.finish key)) hhash hadded hdecremented (fun j hj => hjobs ▸ hj)
      (hlog ▸ h.log) (fun hne => hlog ▸ hne) nofun
    · rintro d ⟨⟩
      rfl
    · rintro d ⟨⟩
      exact .inr rfl
    · rw [hlast]
      simp [Call.last, hzero]
  · have hnext : WorkerBatches.complete p q key' 1 = none := by
      rw [WorkerBatches.complete, if_neg (fun hc => hzero (hiff.1 hc))]
    rw [hnext]
    apply h.goOn (u := none) hhash hadded hdecremented (fun j hj => hjobs ▸ hj)
      (hlog ▸ h.log) (fun hne => hlog ▸ hne) nofun nofun nofun
    rw [hlast]
    simp [hzero]

theorem Sound.execRemove {jid : ℕ} {i : Bool} {stage : RemoveStage} (hne : key ≠ "")
    (h : Sound key s (.removing jid i stage :: calls))
    (hg : Unharmed s (.removing jid i stage)) :
    Sound key (execRemove s jid i stage).1
      (((execRemove s jid i stage).2.map (.removing jid i)).toList ++ calls) := by
  have hread : (Call.removing jid i stage).Read key := h.read _ List.mem_cons_self
  cases stage with
  | srem =>
      apply h.goOn (t := s.srem jid) (u := some .pending) rfl rfl rfl
        (fun j hj => List.mem_of_mem_filter hj) h.log id nofun
      · rintro d ⟨⟩
        trivial
      · rintro d ⟨⟩
        exact .inl rfl
      · rfl
  | pending => exact h.lower
  | processed p =>
      have hthere : s.hash ≠ none := by
        by_cases hzero : p = 0
        · exact (h.last_here (by simp [Call.last, hzero])).1
        · exact hg hzero
      obtain ⟨hash, hhash⟩ := Option.ne_none_iff_exists'.1 hthere
      obtain ⟨hpending, hq, hkey, ht⟩ := h.pending hash hhash
      have hprocessed : (s.hincrProcessed 1).hash =
          some { hash with processed := hash.processed + 1 } := by
        rw [Batch.hincrProcessed, hhash]
        rfl
      show Sound key (s.hincrProcessed 1) (.removing jid i
        (.asyncRefreshKey p (((s.hincrProcessed 1).hash).getD .new).processed) :: calls)
      rw [hprocessed]
      refine h.swap (n := some _) ?_ rfl rfl ?_ ?_ ?_ rfl h.log id ?_ (fun j hj => .inl hj) nofun
      · exact h.counted.swap (n := some _) rfl rfl (fun d hd => .inl (by cases hd; rfl))
          (fun d hd => .inl (by cases hd; rfl)) (fun d hd => by cases hd; rfl)
          (fun d hd => by cases hd; rfl)
      · rw [hprocessed, hhash]
        exact ⟨nofun, nofun⟩
      · rw [hprocessed]
        rintro hash' ⟨⟩
        refine ⟨hpending, ?_, hkey, ht⟩
        show 0 ≤ hash.processed + 1
        omega
      · rintro d ⟨⟩
        refine ⟨hread, ?_⟩
        show 0 ≤ hash.processed + 1
        omega
      · rintro d ⟨⟩ ⟨jid', i', heq⟩
        cases heq
  | asyncRefreshKey p q =>
      apply h.goOn (t := s) (u := some (.threshold p q _)) rfl rfl rfl (fun j hj => hj) h.log id
        nofun
      · rintro d ⟨⟩
        refine ⟨hread.1, hread.2, fun hzero => ?_⟩
        obtain ⟨hthere, _, _⟩ := h.last_here (by simp [Call.last, hzero])
        obtain ⟨hash, hhash⟩ := Option.ne_none_iff_exists'.1 hthere
        rw [hhash, Option.bind_some, (h.pending hash hhash).2.2.1, Option.filter_some_pos]
        simpa using hne
      · rintro d ⟨⟩
        exact .inl rfl
      · rfl
  | threshold p q key' =>
      obtain ⟨hp, hq, hkey⟩ := hread
      have hone : (s.hash.bind (·.threshold)).getD 1 = 1 := by
        cases hhash : s.hash with
        | none => rfl
        | some hash =>
            rw [Option.bind_some, (h.pending hash hhash).2.2.2]
            rfl
      have hcomplete : Sound key s
          (((WorkerBatches.complete p q key' 1).map (.removing jid i)).toList ++ calls) :=
        h.complete rfl rfl rfl rfl rfl rfl hp hq hkey hg
      dsimp only [WorkerBatches.execRemove]
      rw [hone]
      cases i with
      | false => exact hcomplete
      | true =>
          cases key' with
          | none => exact hcomplete
          | some key' =>
              apply h.goOn (t := s) (u := some (.increment p q key' 1)) rfl rfl rfl
                (fun j hj => hj) h.log id nofun
              · rintro d ⟨⟩
                exact ⟨hp, hq, rfl, fun hzero => Option.some.inj (hkey hzero)⟩
              · rintro d ⟨⟩
                exact .inl rfl
              · rfl
  | increment p q key' threshold =>
      obtain ⟨hp, hq, rfl, hkey⟩ := hread
      apply h.complete (t := { s with results := s.results ++ [key'] })
        rfl rfl rfl rfl rfl rfl hp hq
      · exact fun hzero => congrArg some (hkey hzero)
      · exact hg
  | finish key' =>
      obtain rfl : key' = key := hread
      obtain ⟨_, hdone, _⟩ := h.last_here rfl
      apply h.goOn (t := { s with finishes := s.finishes ++ [⟨key', s.left⟩] })
        (u := some .cleanup) rfl rfl rfl (fun j hj => hj)
      · intro f hf
        rcases List.mem_append.1 hf with hf | hf
        · exact h.log f hf
        · rw [List.mem_singleton.1 hf, hdone.2]
      · exact fun _ => List.append_ne_nil_of_right_ne_nil _ nofun
      · exact fun _ => List.append_ne_nil_of_right_ne_nil _ nofun
      · rintro d ⟨⟩
        trivial
      · rintro d ⟨⟩
        exact .inl rfl
      · rfl
  | cleanup => exact h.cleanup

/-- While jobs wait to be counted, one of those counted is left, or none was counted. -/
theorem Sound.not_done {adder : Option ℕ} {jids : List ℕ}
    (h : Sound key s (.adding adder jids .hincr :: calls))
    (hg : Unharmed s (.adding adder jids .hincr)) : ¬s.Done := by
  rintro ⟨hadded, hleft⟩
  cases adder with
  | none => exact hg hadded hleft
  | some o => exact List.ne_nil_of_mem (h.counted.owner _ List.mem_cons_self o rfl).1 hleft

theorem Sound.execAdd {adder : Option ℕ} {jids : List ℕ} {stage : AddStage}
    (h : Sound key s (.adding adder jids stage :: calls))
    (hg : Unharmed s (.adding adder jids stage)) :
    Sound key (execAdd s jids stage).1
      (((execAdd s jids stage).2.map (.adding adder jids)).toList ++ calls) := by
  have hread : jids ≠ [] := h.read _ List.mem_cons_self
  cases stage with
  | sadd =>
      refine h.swap (t := s.sadd jids) (n := some (.adding adder jids .expireJobs)) ?_ rfl rfl
        Iff.rfl h.pending ?_ rfl h.log id ?_ ?_ ?_
      · exact h.counted.swap (n := some _) rfl rfl (fun d hd => .inl (by cases hd; rfl))
          (fun d hd => .inl (by cases hd; rfl)) (fun d hd => by cases hd; rfl)
          (fun d hd => by cases hd; rfl)
      · rintro d ⟨⟩
        exact hread
      · rintro d ⟨⟩ ⟨jid, i, heq⟩
        cases heq
      · intro j hj
        rcases List.mem_append.1 hj with hj | hj
        · exact .inl hj
        · exact .inr (List.mem_of_mem_filter hj)
      · exact fun j hj _ => ⟨_, rfl, hj⟩
  | expireJobs =>
      refine h.swap (t := s) (n := some (.adding adder jids .hincr)) ?_ rfl rfl
        Iff.rfl h.pending ?_ rfl h.log id ?_ (fun j hj => .inl hj) ?_
      · exact h.counted.swap (n := some _) rfl rfl (fun d hd => .inl (by cases hd; rfl))
          (fun d hd => .inl (by cases hd; rfl)) (fun d hd => by cases hd; rfl)
          (fun d hd => by cases hd; rfl)
      · rintro d ⟨⟩
        exact hread
      · rintro d ⟨⟩ ⟨jid, i, heq⟩
        cases heq
      · exact fun j hj _ => ⟨_, rfl, hj⟩
  | hincr => exact h.raise (h.not_done hg)
  | expireBatch =>
      refine h.swap (t := s) (n := none) ?_ rfl rfl Iff.rfl h.pending nofun rfl h.log id nofun
        (fun j hj => .inl hj) nofun
      exact h.counted.swap (n := none) rfl rfl nofun nofun nofun nofun

theorem sound_invariant (hne : key ≠ "") :
    GuardedInvariant machine (Sound key) guards where
  perm := Sound.perm
  enter := by
    intro s calls r h hg
    cases r with
    | addJobs adder jids =>
        by_cases hjids : jids = []
        · simp only [machine, enter, if_pos hjids]
          exact h
        · simp only [machine, enter, if_neg hjids]
          exact h.enterAdd hg hjids
    | removeJob jid increment => exact h.enterRemove hg
  exec := by
    intro s c calls w h hg
    cases c with
    | adding adder jids stage => exact h.execAdd hg
    | removing jid i stage => exact h.execRemove hne hg

theorem sound_connected (key : String) : Sound key (connected key).store [] where
  counted := ⟨List.nodup_nil, List.nodup_nil, nofun, nofun, List.nodup_nil, nofun,
    List.nodup_nil, nofun⟩
  read := nofun
  pending := by
    rintro h ⟨⟩
    exact ⟨rfl, le_rfl, rfl, rfl⟩
  last := by
    rw [if_neg]
    · rfl
    · exact fun hall => hall.2.1 rfl
  log := nofun
  finished := by
    rintro (hnone | ⟨c, hc, -⟩)
    · cases hnone
    · cases hc
  closed := nofun

theorem Sound.kept {c : Config Batch Call} (h : Sound key c.store c.calls) : Kept key c where
  early := fun f hf => congrArg Finish.left (h.log f hf)
  ended := by
    intro hquiet hadded hleft
    have hcalls : c.calls = [] := hquiet
    have hgone : c.store.hash = none := by
      by_contra hthere
      have hlen := h.last
      rw [hcalls, if_pos ⟨hthere, hadded, hleft⟩] at hlen
      cases hlen
    obtain ⟨f, hf⟩ := List.exists_mem_of_ne_nil _ (h.finished (.inl hgone))
    refine ⟨⟨f, hf, congrArg Finish.key (h.log f hf)⟩, hgone, ?_⟩
    apply List.eq_nil_iff_forall_not_mem.2
    intro j hj
    obtain ⟨d, hd, -⟩ := (h.closed hgone).2 j hj
    rw [hcalls] at hd
    cases hd

/-- In every interleaving of such calls whose commands are unharmed, the refresh is finished
by the last job to leave, not before, and nothing of the batch is left behind. -/
theorem batch_completed (hne : key ≠ "") (es : List (Event Request Unit))
    (h : Guarded machine.step guards.meets (connected key) es) :
    Kept key (run machine.step (connected key) es) :=
  ((sound_invariant hne).run (connected key) es (sound_connected key) h).kept

/-! ### Two jobs -/

instance (s : Batch) (calls : List Call) : (r : Request) → Decidable (Disciplined s calls r)
  | .addJobs _ _ => inferInstanceAs (Decidable (_ ∧ _ ∧ _))
  | .removeJob _ _ => inferInstanceAs (Decidable (_ ∧ _))

instance (s : Batch) : (c : Call) → Decidable (Unharmed s c)
  | .removing _ _ .srem => inferInstanceAs (Decidable True)
  | .removing _ _ .pending => inferInstanceAs (Decidable True)
  | .removing _ _ (.processed pending) => inferInstanceAs (Decidable (pending ≠ 0 → _))
  | .removing _ _ (.asyncRefreshKey _ _) => inferInstanceAs (Decidable True)
  | .removing _ _ (.threshold pending _ _) => inferInstanceAs (Decidable (pending ≠ 0 → _))
  | .removing _ _ (.increment pending _ _ _) => inferInstanceAs (Decidable (pending ≠ 0 → _))
  | .removing _ _ (.finish _) => inferInstanceAs (Decidable True)
  | .removing _ _ .cleanup => inferInstanceAs (Decidable True)
  | .adding none _ .hincr => inferInstanceAs (Decidable (s.added ≠ [] → _))
  | .adding none _ .sadd => inferInstanceAs (Decidable True)
  | .adding none _ .expireJobs => inferInstanceAs (Decidable True)
  | .adding none _ .expireBatch => inferInstanceAs (Decidable True)
  | .adding (some _) _ _ => inferInstanceAs (Decidable True)

instance (c : Config Batch Call) : (e : Event Request Unit) → Decidable (guards.meets c e)
  | .request r => inferInstanceAs (Decidable (Disciplined c.store c.calls r))
  | .advance k _ =>
      match h : c.calls[k]? with
      | none => isTrue (by rw [Guards.meets, h]; trivial)
      | some call => decidable_of_iff (Unharmed c.store call) (by rw [Guards.meets, h]; rfl)

instance (c : Config Batch Call) :
    (e : Event Request Unit) → Decidable (onRequests Disciplined c e)
  | .request r => inferInstanceAs (Decidable (Disciplined c.store c.calls r))
  | .advance _ _ => inferInstanceAs (Decidable True)

/-- The next command of the call in this place, as often as this. -/
def advances (k times : ℕ) : List (Event Request Unit) := List.replicate times (.advance k ())

/-- Job 1 adds job 2 and leaves, then job 2 leaves. -/
def inTurn : List (Event Request Unit) :=
  .request (.addJobs none [1]) :: advances 0 4 ++ .request (.addJobs (some 1) [2]) ::
    advances 0 4 ++ .request (.removeJob 1 true) :: advances 0 6 ++
    .request (.removeJob 2 false) :: advances 0 7

example : (run machine.step (connected "context") (inTurn.take 1)).calls.length = 1 := by
  decide +kernel

theorem completed_inTurn :
    Kept "context" (run machine.step (connected "context") inTurn) ∧
      (run machine.step (connected "context") inTurn).store.finishes = [⟨"context", []⟩] :=
  ⟨batch_completed (by decide) inTurn (by decide +kernel), by decide +kernel⟩

/-- Job 1 leaves one job pending; job 2 leaves none, finishes the refresh and deletes the batch;
and job 1 counts itself processed. -/
def overtaken : List (Event Request Unit) :=
  .request (.addJobs none [1, 2]) :: advances 0 4 ++ .request (.removeJob 1 false) ::
    advances 0 2 ++ .request (.removeJob 2 false) :: advances 1 7 ++ advances 0 3

/-- Job 1 leaves nothing pending, and before it finishes the refresh job 2 is added. -/
def addedLate : List (Event Request Unit) :=
  .request (.addJobs none [1]) :: advances 0 4 ++ .request (.removeJob 1 false) ::
    advances 0 5 ++ .request (.addJobs none [2]) :: advances 1 4 ++ advances 0 2

theorem hash_recreated :
    (Guarded machine.step (onRequests Disciplined) (connected "context") overtaken ∧
      (run machine.step (connected "context") overtaken).store.hash = some ⟨0, 1, none, none⟩ ∧
      ¬Kept "context" (run machine.step (connected "context") overtaken)) ∧
    Guarded machine.step (onRequests Disciplined) (connected "context") addedLate ∧
      (run machine.step (connected "context") addedLate).store.finishes = [⟨"context", [2]⟩] ∧
      ¬Kept "context" (run machine.step (connected "context") addedLate) := by
  have hhash : (run machine.step (connected "context") overtaken).store.hash =
      some ⟨0, 1, none, none⟩ := by decide +kernel
  have hfinishes : (run machine.step (connected "context") addedLate).store.finishes =
      [⟨"context", [2]⟩] := by decide +kernel
  refine ⟨⟨by decide +kernel, hhash, fun h => ?_⟩, by decide +kernel, hfinishes, fun h => ?_⟩
  · have hquiet : (run machine.step (connected "context") overtaken).calls = [] := by
      decide +kernel
    obtain ⟨_, hnone, _⟩ := h.ended hquiet (by decide +kernel) (by decide +kernel)
    rw [hhash] at hnone
    cases hnone
  · have hearly := h.early ⟨"context", [2]⟩ (by rw [hfinishes]; exact List.mem_cons_self)
    cases hearly

end Eunha.WorkerBatches
