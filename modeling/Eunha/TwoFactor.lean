import Eunha.Runs
import Eunha.Sanitizer
import Mathlib.Data.Int.Notation
import Mathlib.Logic.Function.Basic
import Mathlib.Algebra.Order.Ring.Int

/-!
# One-time codes

A code is checked against the time steps within the drift that come after the step
recorded for the user; the step recorded for a good code is the current one, not the
one the code is of. So a code given a step early is good again in its own step. The
row is read before the check and written after it, without a condition, so two
attempts read before either is written are both good.

HMAC and the opening of a sealed secret are parameters.
-/
namespace Eunha.TwoFactor
open Runs
open Sanitizer (isWhitespace)

/-! ### The model -/

def otpInterval : ℤ := 30
def otpDigits : ℕ := 6
def otpAllowedDrift : ℤ := 30

def alphabet : List Char := "ABCDEFGHIJKLMNOPQRSTUVWXYZ234567".toList

/-- One base32 character: five bits more, and a byte when there are eight. -/
def pushValue (r : List UInt8 × ℕ × ℕ) (value : ℕ) : List UInt8 × ℕ × ℕ :=
  let (bytes, buffer, bits) := r
  let buffer := buffer <<< 5 ||| value
  let bits := bits + 5
  if 8 ≤ bits then
    let bits := bits - 8
    (bytes ++ [UInt8.ofNat (buffer >>> bits)], buffer &&& (1 <<< bits - 1), bits)
  else (bytes, buffer, bits)

/-- `c.to_ascii_uppercase() as u8` -/
def upperByte (c : Char) : ℕ := c.toUpper.toNat % 256

def decodeSecret (secret : String) : Option (List UInt8) :=
  ((secret.toList.filter fun c => ¬isWhitespace c ∧ c ≠ '=').foldlM
    (fun r c => ((alphabet.map Char.toNat).idxOf? (upperByte c)).map (pushValue r))
    ([], 0, 0)).map Prod.fst

/-- `to_be_bytes` of a `u64`. -/
def beBytes (counter : ℕ) : List UInt8 :=
  [56, 48, 40, 32, 24, 16, 8, 0].map fun shift => UInt8.ofNat (counter >>> shift)

/-- `{:0width$}` -/
def padded (width n : ℕ) : String :=
  let digits := Nat.toDigits 10 n
  String.ofList (List.replicate (width - digits.length) '0' ++ digits)

section
variable (mac : List UInt8 → List UInt8 → List UInt8)

def hotp (key : List UInt8) (counter : ℕ) : String :=
  let digest := mac key (beBytes counter)
  let offset := (digest.getLastD 0 &&& 0x0f).toNat
  let byte := fun i => (digest.getD (offset + i) 0).toNat
  let binary := ((byte 0 &&& 0x7f) * 256 + byte 1) * 65536 + (byte 2 * 256 + byte 3)
  padded otpDigits (binary % 10 ^ otpDigits)

def timestep (unixSeconds : ℤ) : ℤ := unixSeconds / otpInterval

/-- `step as u64` -/
def asU64 (step : ℤ) : ℕ := (step % 2 ^ 64).toNat

/-- `as i32` -/
def asI32 (step : ℤ) : ℤ := Int.bmod step (2 ^ 32)

def constantTimeEq (a b : List UInt8) : Bool :=
  if a.length ≠ b.length then false
  else (a.zip b).foldl (fun acc (x, y) => acc ||| (x ^^^ y)) 0 = 0

def asBytes (s : String) : List UInt8 := s.toByteArray.data.toList

/-- `first..=last` -/
def steps (first last : ℤ) : List ℤ :=
  (List.range (last + 1 - first).toNat).map fun i : ℕ => first + i

/-- The steps within the drift. -/
def window (now : ℤ) : List ℤ :=
  steps (timestep (now - otpAllowedDrift)) (timestep (now + otpAllowedDrift))

def withoutSpaces (code : String) : String :=
  String.ofList (code.toList.filter fun c => ¬isWhitespace c)

def verifyTotp (secret code : String) (now : ℤ) (afterStep : Option ℤ) : Option ℤ :=
  (decodeSecret secret).bind fun key =>
    let code := withoutSpaces code
    if code = "" then none
    else
      ((window now).filter fun step => afterStep.all fun after => after < step).find? fun step =>
        constantTimeEq (asBytes (hotp mac key (asU64 step))) (asBytes code)

/-- What is read of the row of `users`. -/
structure UserTwoFactor where
  otpSecret : Option String
  consumedTimestep : Option ℤ
  deriving DecidableEq

variable (openSecret : String → Option String)

def secretFor (otpSecret given : Option String) : Option String :=
  (match given with
  | some secret => some secret
  | none => otpSecret.bind openSecret).filter (· ≠ "")

structure Attempt where
  user : UserTwoFactor
  code : String
  given : Option String
  now : ℤ
  deriving DecidableEq

/-- `validate_and_consume_otp` up to its `UPDATE`: the step that is to be recorded. -/
def validateOtp (a : Attempt) : Option ℤ :=
  match secretFor openSecret a.user.otpSecret a.given with
  | none => none
  | some secret =>
      if verifyTotp mac secret a.code a.now a.user.consumedTimestep = none then none
      else
        let current := asI32 (timestep a.now)
        if a.user.consumedTimestep = some current then none else some current

/-! ### Attempts of one user -/

inductive Phase where
  | idle
  | loaded (user : UserTwoFactor)
  | good (attempt : Attempt) (current : ℤ)
  deriving DecidableEq

/-- The row of the user, the attempts, and those that returned true. -/
structure State where
  user : UserTwoFactor
  phases : ℕ → Phase
  accepted : List Attempt

/-- What an attempt does next. An `UPDATE` may fail. -/
inductive Op where
  | load (i : ℕ)
  | check (i : ℕ) (code : String) (given : Option String) (now : ℤ)
  | update (i : ℕ) (ok : Bool)

def State.setPhase (s : State) (i : ℕ) (p : Phase) : State :=
  { s with phases := Function.update s.phases i p }

def step (s : State) : Op → State
  | .load i => s.setPhase i (.loaded s.user)
  | .check i code given now =>
      match s.phases i with
      | .loaded user =>
          match validateOtp mac openSecret ⟨user, code, given, now⟩ with
          | some current => s.setPhase i (.good ⟨user, code, given, now⟩ current)
          | none => s.setPhase i .idle
      | _ => s
  | .update i ok =>
      match s.phases i with
      | .good attempt current =>
          if ok then
            { (s.setPhase i .idle) with
              user := { s.user with consumedTimestep := some current }
              accepted := s.accepted ++ [attempt] }
          else s.setPhase i .idle
      | _ => s

def start (user : UserTwoFactor) : State := ⟨user, fun _ => .idle, []⟩

/-! ### What a good code is -/

theorem foldl_or_eq_zero (l : List (UInt8 × UInt8)) (acc : UInt8) :
    l.foldl (fun acc (x, y) => acc ||| (x ^^^ y)) acc = 0 ↔ acc = 0 ∧ ∀ p ∈ l, p.1 = p.2 := by
  induction l generalizing acc with
  | nil => simp
  | cons p l ih =>
      rw [List.foldl_cons, ih]
      have hor : acc ||| (p.1 ^^^ p.2) = 0 ↔ acc = 0 ∧ p.1 = p.2 := by
        rw [UInt8.or_eq_zero_iff, UInt8.xor_eq_zero_iff]
      simp [hor, and_assoc]

theorem constantTimeEq_iff (a b : List UInt8) : constantTimeEq a b = true ↔ a = b := by
  unfold constantTimeEq
  split_ifs with h
  · simp only [false_iff]
    rintro rfl
    exact h rfl
  · rw [decide_eq_true_eq, foldl_or_eq_zero]
    rw [not_not] at h
    constructor
    · rintro ⟨-, hall⟩
      induction a generalizing b with
      | nil => exact (List.length_eq_zero_iff.mp h.symm).symm
      | cons x a ih =>
          cases b with
          | nil => simp at h
          | cons y b =>
              have hxy : x = y := hall (x, y) (by simp)
              rw [hxy, ih b (by simpa using h) fun p hp => hall p (by simp [hp])]
    · rintro rfl
      refine ⟨rfl, fun p hp => ?_⟩
      rw [List.zip_eq_zipWith] at hp
      obtain ⟨i, hi, rfl⟩ := List.mem_iff_getElem.mp hp
      simp

theorem asBytes_inj {a b : String} : asBytes a = asBytes b ↔ a = b := by
  unfold asBytes
  rw [Array.toList_inj, ByteArray.ext_iff.symm, String.toByteArray_inj]

theorem mem_steps {k first last : ℤ} : k ∈ steps first last ↔ first ≤ k ∧ k ≤ last := by
  unfold steps
  rw [List.mem_map]
  constructor
  · rintro ⟨i, hi, rfl⟩
    have hi := List.mem_range.mp hi
    omega
  · rintro ⟨hfirst, hlast⟩
    exact ⟨(k - first).toNat, List.mem_range.mpr (by omega), by omega⟩

theorem mem_window {k now : ℤ} : k ∈ window now ↔ timestep now - 1 ≤ k ∧ k ≤ timestep now + 1 := by
  unfold window
  rw [mem_steps]
  unfold timestep otpAllowedDrift otpInterval
  omega

def CodeOf (a : Attempt) (secret : String) (k : ℤ) : Prop :=
  secretFor openSecret a.user.otpSecret a.given = some secret ∧ k ∈ window a.now ∧
    ∃ key, decodeSecret secret = some key ∧ hotp mac key (asU64 k) = withoutSpaces a.code

/-- No two of the attempts gave codes of the same step. -/
def AcceptedOnce (accepted : List Attempt) : Prop :=
  accepted.Pairwise fun a b =>
    ∀ secret k, ¬(CodeOf mac openSecret a secret k ∧ CodeOf mac openSecret b secret k)

variable {mac openSecret}

theorem validateOtp_eq_some {a : Attempt} {current : ℤ}
    (h : validateOtp mac openSecret a = some current) :
    current = asI32 (timestep a.now) ∧ ∃ secret m, CodeOf mac openSecret a secret m ∧
      ∀ after, a.user.consumedTimestep = some after → after < m := by
  unfold validateOtp at h
  cases hsecret : secretFor openSecret a.user.otpSecret a.given with
  | none => simp [hsecret] at h
  | some secret =>
      simp only [hsecret] at h
      split_ifs at h with hverify hsame
      refine ⟨(Option.some.inj h).symm, secret, ?_⟩
      obtain ⟨m, hm⟩ := Option.ne_none_iff_exists'.mp hverify
      unfold verifyTotp at hm
      obtain ⟨key, hkey, hm⟩ := Option.bind_eq_some_iff.mp hm
      simp only at hm
      split_ifs at hm with hempty
      have hmatch := List.find?_some hm
      have hmem := List.mem_filter.mp (List.mem_of_find?_eq_some hm)
      refine ⟨m, ⟨hsecret, hmem.1, key, hkey, ?_⟩, fun after hafter => ?_⟩
      · exact asBytes_inj.mp ((constantTimeEq_iff _ _).mp hmatch)
      · simpa [hafter] using hmem.2

/-! ### When a code is accepted once -/

section
variable (mac openSecret)

def DistinctCodes (otpSecret : Option String) : Op → Prop
  | .check _ _ given now => ∀ secret key, secretFor openSecret otpSecret given = some secret →
      decodeSecret secret = some key → ∀ j ∈ window now, ∀ k ∈ window now,
        hotp mac key (asU64 j) = hotp mac key (asU64 k) → j = k
  | _ => True

/-- A checked code is not that of the step to come, in a step that fits the column, and an
attempt writes the row as it was read for it. -/
def Sound (s : State) : Op → Prop
  | .load _ => True
  | .check _ code given now =>
      -2 ^ 31 ≤ timestep now ∧ timestep now < 2 ^ 31 ∧
        ∀ secret key, secretFor openSecret s.user.otpSecret given = some secret →
          decodeSecret secret = some key →
          hotp mac key (asU64 (timestep now + 1)) ≠ withoutSpaces code
  | .update i _ => ∀ a current, s.phases i = .good a current →
      s.user.consumedTimestep = a.user.consumedTimestep

/-- What is known of an attempt that is good: its codes are of steps after the one recorded
when it was read, up to the one it is to record. -/
structure Good (otpSecret : Option String) (a : Attempt) (current : ℤ) : Prop where
  secret : a.user.otpSecret = otpSecret
  later : ∀ after, a.user.consumedTimestep = some after → after < current
  codes : ∀ secret k, CodeOf mac openSecret a secret k →
    (∀ after, a.user.consumedTimestep = some after → after < k) ∧ k ≤ current

/-- The codes accepted are of steps up to the one recorded. -/
structure Recorded (otpSecret : Option String) (s : State) : Prop where
  secret : s.user.otpSecret = otpSecret
  loaded : ∀ i user, s.phases i = .loaded user → user.otpSecret = otpSecret
  good : ∀ i a current, s.phases i = .good a current → Good mac openSecret otpSecret a current
  accepted : ∀ a ∈ s.accepted, ∃ recorded, s.user.consumedTimestep = some recorded ∧
    ∀ secret k, CodeOf mac openSecret a secret k → k ≤ recorded
  once : AcceptedOnce mac openSecret s.accepted

end

theorem asI32_timestep {now : ℤ} (hlo : -2 ^ 31 ≤ timestep now) (hhi : timestep now < 2 ^ 31) :
    asI32 (timestep now) = timestep now := by
  unfold asI32
  exact Int.bmod_eq_of_le (by omega) (by omega)

theorem good_of_validate {otpSecret : Option String} {a : Attempt} {i : ℕ} {current : ℤ}
    (hsecret : a.user.otpSecret = otpSecret)
    (hdistinct : DistinctCodes mac openSecret otpSecret (.check i a.code a.given a.now))
    {s : State} (hs : s.user.otpSecret = otpSecret)
    (hsound : Sound mac openSecret s (.check i a.code a.given a.now))
    (h : validateOtp mac openSecret a = some current) :
    Good mac openSecret otpSecret a current := by
  obtain ⟨hcurrent, secret, m, ⟨hsec, hm, key, hkey, hcode⟩, hafter⟩ := validateOtp_eq_some h
  obtain ⟨hlo, hhi, hahead⟩ := hsound
  rw [hcurrent, asI32_timestep hlo hhi]
  -- The step that matched is not the one to come.
  have hle : ∀ k, k ∈ window a.now → hotp mac key (asU64 k) = withoutSpaces a.code →
      k ≤ timestep a.now := by
    intro k hk hcode
    have hne : k ≠ timestep a.now + 1 := by
      rintro rfl
      exact hahead secret key (hs ▸ hsecret ▸ hsec) hkey hcode
    have := (mem_window.mp hk).2
    omega
  refine ⟨hsecret, fun after ha => Int.lt_of_lt_of_le (hafter after ha) (hle m hm hcode), ?_⟩
  rintro secret' k ⟨hsec', hk, key', hkey', hcode'⟩
  cases hsec.symm.trans hsec'
  cases hkey.symm.trans hkey'
  have hkm : k = m :=
    hdistinct secret key (hsecret ▸ hsec) hkey k hk m hm (hcode'.trans hcode.symm)
  exact ⟨fun after ha => hkm ▸ hafter after ha, hle k hk hcode'⟩

theorem Recorded.setPhase {otpSecret : Option String} {s : State}
    (hs : Recorded mac openSecret otpSecret s) (i : ℕ) {p : Phase}
    (hloaded : ∀ user, p = .loaded user → user.otpSecret = otpSecret)
    (hgood : ∀ a current, p = .good a current → Good mac openSecret otpSecret a current) :
    Recorded mac openSecret otpSecret (s.setPhase i p) where
  secret := hs.secret
  loaded := by
    intro j user hj
    by_cases hij : j = i
    · subst hij
      exact hloaded user (by simpa [State.setPhase] using hj)
    · exact hs.loaded j user (by simpa [State.setPhase, hij] using hj)
  good := by
    intro j a current hj
    by_cases hij : j = i
    · subst hij
      exact hgood a current (by simpa [State.setPhase] using hj)
    · exact hs.good j a current (by simpa [State.setPhase, hij] using hj)
  accepted := hs.accepted
  once := hs.once

theorem Recorded.setIdle {otpSecret : Option String} {s : State}
    (hs : Recorded mac openSecret otpSecret s) (i : ℕ) :
    Recorded mac openSecret otpSecret (s.setPhase i .idle) :=
  hs.setPhase i (fun _ h => by cases h) (fun _ _ h => by cases h)

theorem Recorded.accept {otpSecret : Option String} {s : State}
    (hs : Recorded mac openSecret otpSecret s) {i : ℕ} {a : Attempt} {current : ℤ}
    (hi : s.phases i = .good a current)
    (hread : s.user.consumedTimestep = a.user.consumedTimestep) :
    Recorded mac openSecret otpSecret { (s.setPhase i .idle) with
      user := { s.user with consumedTimestep := some current }
      accepted := s.accepted ++ [a] } := by
  have hidle := hs.setIdle i
  have hgood := hs.good i a current hi
  refine ⟨hs.secret, hidle.loaded, hidle.good, ?_, ?_⟩
  · intro b hb
    refine ⟨current, rfl, fun secret k hk => ?_⟩
    rcases List.mem_append.mp hb with hb | hb
    · obtain ⟨recorded, hrecorded, hle⟩ := hs.accepted b hb
      have hold : k ≤ recorded := hle secret k hk
      have hnew : recorded < current := hgood.later recorded (hread ▸ hrecorded)
      omega
    · cases List.mem_singleton.mp hb
      exact (hgood.codes secret k hk).2
  · refine List.pairwise_append.mpr ⟨hs.once, List.pairwise_singleton _ _, ?_⟩
    intro b hb a' ha' secret k hcodes
    cases List.mem_singleton.mp ha'
    obtain ⟨recorded, hrecorded, hle⟩ := hs.accepted b hb
    have hold : k ≤ recorded := hle secret k hcodes.1
    have hnew : recorded < k := (hgood.codes secret k hcodes.2).1 recorded (hread ▸ hrecorded)
    omega

theorem recorded_step {otpSecret : Option String} {s : State} {o : Op}
    (hs : Recorded mac openSecret otpSecret s)
    (hdistinct : DistinctCodes mac openSecret otpSecret o)
    (hsound : Sound mac openSecret s o) :
    Recorded mac openSecret otpSecret (step mac openSecret s o) := by
  cases o with
  | load i =>
      refine hs.setPhase i (fun user h => ?_) (fun a current h => by cases h)
      cases h
      exact hs.secret
  | check i code given now =>
      cases hi : s.phases i with
      | idle => simpa only [step, hi] using hs
      | good a current => simpa only [step, hi] using hs
      | loaded user =>
          simp only [step, hi]
          cases hv : validateOtp mac openSecret ⟨user, code, given, now⟩ with
          | none => exact hs.setIdle i
          | some current =>
              refine hs.setPhase i (fun user h => by cases h) (fun a current' h => ?_)
              cases h
              exact good_of_validate (hs.loaded i user hi) hdistinct hs.secret hsound hv
  | update i ok =>
      cases hi : s.phases i with
      | idle => simpa only [step, hi] using hs
      | loaded user => simpa only [step, hi] using hs
      | good a current =>
          simp only [step, hi]
          cases ok with
          | false => exact hs.setIdle i
          | true => exact hs.accept hi (hsound a current hi)

theorem recorded_start (user : UserTwoFactor) :
    Recorded mac openSecret user.otpSecret (start user) where
  secret := rfl
  loaded := by
    intro i user h
    cases h
  good := by
    intro i a current h
    cases h
  accepted := by
    intro a h
    cases h
  once := List.Pairwise.nil

/-- As long as no attempt gives the code of the step to come, and none writes the row after
another wrote it, a code is accepted once, in every order of their steps. -/
theorem accepted_once (user : UserTwoFactor) (ops : List Op)
    (hdistinct : ∀ o ∈ ops, DistinctCodes mac openSecret user.otpSecret o)
    (h : Guarded (step mac openSecret) (Sound mac openSecret) (start user) ops) :
    AcceptedOnce mac openSecret (run (step mac openSecret) (start user) ops).accepted := by
  have hall : Guarded (step mac openSecret)
      (fun _ o => DistinctCodes mac openSecret user.otpSecret o) (start user) ops :=
    guarded_of_forall (start user) ops hdistinct
  have hg := guarded_and hall h
  exact (run_guarded (P := Recorded mac openSecret user.otpSecret)
    (fun s o hs hg => recorded_step hs hg.1 hg.2) (start user) ops (recorded_start user) hg).once

theorem accepted_once_current :
    let mac : List UInt8 → List UInt8 → List UInt8 := fun _ counter =>
      counter.drop 4 ++ List.replicate 16 0
    let user : UserTwoFactor := ⟨some "AAAAAAAA", none⟩
    let ops : List Op := [.load 0, .check 0 "000001" none 30, .update 0 true]
    AcceptedOnce mac some (run (step mac some) (start user) ops).accepted := by
  intro mac user ops
  refine accepted_once user ops (fun o ho => ?_)
    ⟨trivial, ⟨by decide, by decide, ?_⟩, fun a current h => ?_, trivial⟩
  · have hdistinct : ∀ j ∈ window 30, ∀ k ∈ window 30,
        hotp mac [] (asU64 j) = hotp mac [] (asU64 k) → j = k := by decide +kernel
    simp only [ops, List.mem_cons, List.not_mem_nil, or_false] at ho
    rcases ho with rfl | rfl | rfl
    · trivial
    · exact fun _ _ _ _ => hdistinct
    · trivial
  · have hahead : hotp mac [] (asU64 (timestep 30 + 1)) ≠ withoutSpaces "000001" := by
      decide +kernel
    exact fun _ _ _ _ => hahead
  · let s := run (step mac some) (start user) [.load 0, .check 0 "000001" none 30]
    have hphase : s.phases 0 = .good ⟨user, "000001", none, 30⟩ 1 := by decide +kernel
    have huser : s.user.consumedTimestep = none := by decide +kernel
    cases hphase.symm.trans h
    exact huser

example : window 30 = [0, 1, 2] := by decide +kernel

/-- The code of step 1, good in step 0 and good again in step 1. -/
theorem early_code_accepted_twice :
    let mac : List UInt8 → List UInt8 → List UInt8 := fun _ counter =>
      counter.drop 4 ++ List.replicate 16 0
    let user : UserTwoFactor := ⟨some "AAAAAAAA", none⟩
    let ops : List Op := [.load 0, .check 0 "000001" none 0, .update 0 true,
      .load 1, .check 1 "000001" none 30, .update 1 true]
    (∀ o ∈ ops, DistinctCodes mac some user.otpSecret o) ∧
      ¬AcceptedOnce mac some (run (step mac some) (start user) ops).accepted := by
  intro mac user ops
  constructor
  · have hdistinct : ∀ now ∈ [(0 : ℤ), 30], ∀ j ∈ window now, ∀ k ∈ window now,
        hotp mac [] (asU64 j) = hotp mac [] (asU64 k) → j = k := by decide +kernel
    intro o ho
    simp only [ops, List.mem_cons, List.not_mem_nil, or_false] at ho
    rcases ho with rfl | rfl | rfl | rfl | rfl | rfl
    · trivial
    · exact fun _ _ _ _ => hdistinct 0 (by simp)
    · trivial
    · trivial
    · exact fun _ _ _ _ => hdistinct 30 (by simp)
    · trivial
  · have haccepted : (run (step mac some) (start user) ops).accepted =
        [⟨user, "000001", none, 0⟩, ⟨⟨some "AAAAAAAA", some 0⟩, "000001", none, 30⟩] := by
      decide +kernel
    rw [haccepted]
    intro h
    have hkey : decodeSecret "AAAAAAAA" = some [0, 0, 0, 0, 0] := by decide +kernel
    have hcode : hotp mac [0, 0, 0, 0, 0] (asU64 1) = withoutSpaces "000001" := by decide +kernel
    refine (List.pairwise_cons.mp h).1 _ (List.mem_singleton_self _) "AAAAAAAA" 1 ⟨?_, ?_⟩
    · exact ⟨by decide, by decide, _, hkey, hcode⟩
    · exact ⟨by decide, by decide, _, hkey, hcode⟩

end

end Eunha.TwoFactor
