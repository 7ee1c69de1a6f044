import Eunha.Runs
import Mathlib.Data.List.Nodup
import Mathlib.Logic.Function.Basic

/-!
# Recovery codes

A call works on the codes of the row as it was read, looks for the digest the given
code verifies, which takes long, and writes all but that one back. So a call that
writes after another was accepted on a code it had read brings that code back, or
accepts it again; and this is the only way. A recovery code is known by its digest;
bcrypt is a parameter.
-/
namespace Eunha.RecoveryCodes
open Runs

/-! ### The model -/

structure Codes where
  digests : List String
  distinct : digests.Nodup
  deriving DecidableEq

def Codes.none : Codes := ⟨[], List.nodup_nil⟩

def Codes.remove (c : Codes) (index : Fin c.digests.length) : Codes where
  digests := c.digests.eraseIdx index
  distinct := c.distinct.eraseIdx index

/-- Where a call stands. -/
inductive Phase where
  | idle
  | loaded (codes : Codes)
  | matched (codes : Codes) (index : Fin codes.digests.length)

/-- `users.otp_backup_codes`, the calls on it, and the codes accepted since they were
issued. -/
structure State where
  otpBackupCodes : Option Codes
  calls : ℕ → Phase
  accepted : List String

inductive Op where
  | load (i : ℕ)
  | verify (i : ℕ) (code : String)
  | update (i : ℕ) (ok : Bool)
  | regenerate (codes : Codes)
  | disable

def State.setCall (s : State) (i : ℕ) (p : Phase) : State :=
  { s with calls := Function.update s.calls i p }

section
variable (verify : String → String → Bool)

/-- `invalidate_backup_code` up to its `UPDATE`. -/
def findCode (codes : Codes) (code : String) : Phase :=
  if code = "" ∨ codes.digests = [] then .idle
  else
    match codes.digests.findFinIdx? fun digest => verify code digest with
    | some index => .matched codes index
    | none => .idle

def step (s : State) : Op → State
  | .load i => s.setCall i (.loaded (s.otpBackupCodes.getD .none))
  | .verify i code =>
      match s.calls i with
      | .loaded codes => s.setCall i (findCode verify codes code)
      | _ => s
  | .update i ok =>
      match s.calls i with
      | .matched codes index =>
          if ok then
            { (s.setCall i .idle) with
              otpBackupCodes := some (codes.remove index)
              accepted := s.accepted ++ [codes.digests.get index] }
          else s.setCall i .idle
      | _ => s
  | .regenerate codes =>
      { s with
        otpBackupCodes := some codes
        accepted := s.accepted.filter fun digest => digest ∉ codes.digests }
  | .disable => { s with otpBackupCodes := s.otpBackupCodes.map fun _ => .none }

/-- A user before any call. -/
def start (codes : Option Codes) : State := ⟨codes, fun _ => .idle, []⟩

/-! ### When a code is accepted once -/

def AcceptedOnce (s : State) : Prop :=
  s.accepted.Nodup ∧ ∀ digest ∈ s.accepted, ∀ codes, s.otpBackupCodes = some codes →
    digest ∉ codes.digests

def Fresh (s : State) : Op → Prop
  | .update i true => ∀ codes index, s.calls i = .matched codes index →
      ∀ digest ∈ s.accepted, digest ∉ codes.digests
  | _ => True

theorem accept_iff {accepted : List String} (codes : Codes) (index : Fin codes.digests.length)
    (h : accepted.Nodup) :
    ((accepted ++ [codes.digests.get index]).Nodup ∧
        ∀ digest ∈ accepted ++ [codes.digests.get index],
          digest ∉ (codes.remove index).digests) ↔
      ∀ digest ∈ accepted, digest ∉ codes.digests := by
  have hmem : ∀ digest, digest ∈ (codes.remove index).digests ↔
      digest ∈ codes.digests ∧ digest ≠ codes.digests.get index := by
    intro digest
    unfold Codes.remove
    rw [List.mem_eraseIdx_iff_getElem]
    constructor
    · rintro ⟨j, hj, hne, rfl⟩
      refine ⟨List.getElem_mem hj, fun heq => hne ?_⟩
      exact (codes.distinct.getElem_inj_iff).mp heq
    · rintro ⟨hmem, hne⟩
      obtain ⟨j, hj, rfl⟩ := List.mem_iff_getElem.mp hmem
      refine ⟨j, hj, fun heq => hne ?_, rfl⟩
      subst heq
      rfl
  simp only [List.nodup_append, List.mem_append, List.mem_singleton, hmem]
  constructor
  · rintro ⟨⟨-, -, hne⟩, hout⟩ digest hd hin
    exact hout digest (.inl hd) ⟨hin, hne digest hd _ rfl⟩
  · intro hout
    refine ⟨⟨h, List.nodup_singleton _, ?_⟩, ?_⟩
    · rintro digest hd _ rfl rfl
      exact hout _ hd (List.get_mem _ _)
    · rintro digest (hd | rfl) ⟨hin, hne⟩
      · exact hout digest hd hin
      · exact hne rfl

theorem acceptedOnce_step_iff (s : State) (o : Op) (hs : AcceptedOnce s) :
    AcceptedOnce (step verify s o) ↔ Fresh s o := by
  cases o with
  | load i => exact iff_of_true hs trivial
  | verify i code =>
      refine iff_of_true ?_ trivial
      cases hi : s.calls i with
      | idle => simpa only [step, hi] using hs
      | matched codes index => simpa only [step, hi] using hs
      | loaded codes =>
          simp only [step, hi]
          exact hs
  | regenerate codes =>
      refine iff_of_true ⟨hs.1.filter _, ?_⟩ trivial
      intro digest hd codes' hcodes
      cases hcodes
      simpa using (List.mem_filter.mp hd).2
  | disable =>
      refine iff_of_true ⟨hs.1, fun digest hd codes hcodes => ?_⟩ trivial
      obtain ⟨_, -, rfl⟩ := Option.map_eq_some_iff.mp hcodes
      exact List.not_mem_nil
  | update i ok =>
      cases hi : s.calls i with
      | idle => 
          have hsame : step verify s (.update i ok) = s := by simp only [step, hi]
          rw [hsame]
          refine iff_of_true hs ?_
          cases ok <;> simp [Fresh, hi]
      | loaded codes =>
          have hsame : step verify s (.update i ok) = s := by simp only [step, hi]
          rw [hsame]
          refine iff_of_true hs ?_
          cases ok <;> simp [Fresh, hi]
      | matched codes index =>
          cases ok with
          | false =>
              refine iff_of_true ?_ trivial
              simp only [step, hi]
              exact hs
          | true =>
              have hfresh : Fresh s (.update i true) ↔
                  ∀ digest ∈ s.accepted, digest ∉ codes.digests := by
                constructor
                · intro h
                  exact h codes index hi
                · rintro h codes' index' hi'
                  cases hi.symm.trans hi'
                  exact h
              rw [hfresh, ← accept_iff codes index hs.1]
              simp only [step, hi, AcceptedOnce]
              simp

/-- All through a run every code is accepted once, and is no code any more once it is,
exactly when no call writes after a code it had read was accepted. -/
theorem recovery_codes_once (codes : Option Codes) (ops : List Op) :
    (∀ before, before <+: ops → AcceptedOnce (run (step verify) (start codes) before)) ↔
      Guarded (step verify) Fresh (start codes) ops := by
  refine throughout_iff_guarded (J := fun _ => True) (fun _ _ _ => trivial)
    (fun s o _ hs => acceptedOnce_step_iff verify s o hs) (start codes) ops trivial ?_
  exact ⟨List.nodup_nil, fun digest hd => absurd hd List.not_mem_nil⟩

end

/-- Two codes used at once: the first is a code again, and is accepted again. -/
theorem overlapping_codes_restored :
    let step := step fun code digest => code == digest
    let codes : Codes := ⟨["A", "B"], by decide⟩
    let s := run step (start codes) [.load 0, .load 1, .verify 0 "A", .update 0 true,
      .verify 1 "B", .update 1 true]
    s.accepted = ["A", "B"] ∧ s.otpBackupCodes.map Codes.digests = some ["A"] ∧
      ¬AcceptedOnce s ∧
      (run step s [.load 2, .verify 2 "A", .update 2 true]).accepted = ["A", "B", "A"] := by
  intro step codes s
  have haccepted : s.accepted = ["A", "B"] := by decide +kernel
  have hcodes : s.otpBackupCodes = some ⟨["A"], by decide⟩ := by decide +kernel
  refine ⟨haccepted, by rw [hcodes]; rfl, fun h => ?_, by decide +kernel⟩
  exact h.2 "A" (haccepted ▸ by decide) _ hcodes (by decide)

end Eunha.RecoveryCodes
