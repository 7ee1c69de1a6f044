import Eunha.Runs
import Mathlib.Data.List.Perm.Lattice

/-!
# Locks in Redis

A guard takes a key nothing is stored under, for a time, and when it is dropped deletes
the key if its own token is there. The commands of any number of processes on one key are
interleaved with the time that passes; a reply may be lost, and a release may be sent twice
or late.
-/
namespace Eunha.RedisLocks
open Runs

variable {T : Type*}

/-- A token, and when Redis drops the key it was stored under. -/
structure RedisLock (T : Type*) where
  token : T
  expiresAt : ℕ
  deriving DecidableEq

/-- What the key holds, the guards, and the tokens of those dropped. -/
structure State (T : Type*) where
  now : ℕ
  stored : Option (RedisLock T)
  guards : List (RedisLock T)
  dropped : List T

def start : State T := ⟨0, none, [], []⟩

def State.get (s : State T) : Option (RedisLock T) := s.stored.filter (s.now < ·.expiresAt)

def State.tokens (s : State T) : List T := s.guards.map (·.token) ++ s.dropped

inductive Op (T : Type*) where
  | tryAcquire (token : T) (ttl : ℕ) (answered : Bool)
  | drop (guard : RedisLock T)
  | compareDelete (token : T)
  | tick (elapsed : ℕ)

/-- No guard, dropped or not, has the token drawn. -/
def Fresh (s : State T) : Op T → Prop
  | .tryAcquire token _ _ => token ∉ s.tokens
  | _ => True

/-- A guard whose time is not up has the key. -/
structure Owned (s : State T) : Prop where
  stored : ∀ g ∈ s.guards, s.now < g.expiresAt → s.stored = some g
  distinct : s.tokens.Nodup

variable [DecidableEq T]

def step (s : State T) : Op T → State T
  | .tryAcquire token ttl answered =>
      -- Redis refuses a time of zero.
      if s.get.isSome ∨ ttl = 0 then s
      else
        let lock := ⟨token, s.now + ttl⟩
        { s with
          stored := some lock
          guards := if answered then lock :: s.guards else s.guards }
  | .drop guard =>
      if guard ∈ s.guards then
        { s with guards := s.guards.erase guard, dropped := guard.token :: s.dropped }
      else s
  | .compareDelete token =>
      if token ∈ s.dropped ∧ s.get.any (·.token = token) then { s with stored := none } else s
  | .tick elapsed => { s with now := s.now + elapsed }

theorem Owned.step {s : State T} (h : Owned s) (op : Op T) (hfresh : Fresh s op) :
    Owned (step s op) := by
  cases op with
  | tryAcquire token ttl answered =>
      simp only [RedisLocks.step]
      split_ifs with hrefused
      · exact h
      all_goals
        have hfree : ∀ g ∈ s.guards, ¬s.now < g.expiresAt := fun g hg hlt =>
          hrefused (.inl (by simp [State.get, h.stored g hg hlt, hlt]))
      · refine ⟨fun g hg hlt => ?_, List.nodup_cons.mpr ⟨hfresh, h.distinct⟩⟩
        rcases List.mem_cons.mp hg with rfl | hg
        · rfl
        · exact (hfree g hg hlt).elim
      · exact ⟨fun g hg hlt => (hfree g hg hlt).elim, h.distinct⟩
  | drop guard =>
      simp only [RedisLocks.step]
      split_ifs with hguard
      · refine ⟨fun g hg => h.stored g (List.mem_of_mem_erase hg), ?_⟩
        have hperm := ((List.perm_cons_erase hguard).map RedisLock.token).append_right s.dropped
        exact (hperm.trans List.perm_middle.symm).nodup_iff.mp h.distinct
      · exact h
  | compareDelete token =>
      simp only [RedisLocks.step]
      split_ifs with hdeletes
      · refine ⟨fun g hg hlt => ?_, h.distinct⟩
        -- Its token would be that of a guard dropped.
        have hget := hdeletes.2
        obtain rfl : g.token = token := by simpa [State.get, h.stored g hg hlt, hlt] using hget
        exact (List.disjoint_of_nodup_append h.distinct (List.mem_map_of_mem hg) hdeletes.1).elim
      · exact h
  | tick elapsed =>
      exact ⟨fun g hg hlt => h.stored g hg ((Nat.le_add_right _ _).trans_lt hlt), h.distinct⟩

/-- However late a release comes, no two guards have the lock at one time, and one whose
lock ran out leaves it to whoever took it. -/
theorem lock_excludes (ops : List (Op T)) (h : Guarded step Fresh start ops) :
    let s := run step start ops
    ∀ g ∈ s.guards, s.now < g.expiresAt →
      s.stored = some g ∧ ∀ g' ∈ s.guards, s.now < g'.expiresAt → g' = g := by
  have howned := run_guarded (P := Owned) (fun _ op hs => hs.step op) start ops
    ⟨by simp [start], .nil⟩ h
  intro s g hg hlt
  have hstored := howned.stored g hg hlt
  exact ⟨hstored, fun g' hg' hlt' =>
    Option.some.inj ((howned.stored g' hg' hlt').symm.trans hstored)⟩

/-- The lock has run out, and was taken again, when its guard is dropped. -/
theorem lock_excludes_late :
    let ops := [.tryAcquire 1 5 true, .tick 5, .tryAcquire 2 5 true, .drop ⟨1, 5⟩, .compareDelete 1]
    (run step start ops).stored = some (⟨2, 10⟩ : RedisLock ℕ) := by
  intro ops
  have h : Guarded step Fresh start ops :=
    ⟨List.not_mem_nil, trivial, (by decide : 2 ∉ [1]), trivial, trivial, trivial⟩
  exact (lock_excludes ops h ⟨2, 10⟩ (by decide) (by decide)).1

end Eunha.RedisLocks
